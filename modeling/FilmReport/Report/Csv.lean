import FilmReport.Query.Value

/-!
Comma-separated text. A field that holds a comma, a quote or a line end is put in quotes, and its
own quotes are doubled; records are separated by line feeds.
-/

set_option autoImplicit false
set_option relaxedAutoImplicit false

namespace FilmReport.Report.Csv

open Query (Value Result)

/-- Whether a field must be put in quotes because of a character. -/
def isSpecial (c : Char) : Bool :=
  c == ',' || c == '"' || c == '\n' || c == '\r'

/-- A field without its quotes: each quote is written twice. -/
def doubleQuotes : List Char → List Char
  | [] => []
  | c :: cs => if c = '"' then '"' :: '"' :: doubleQuotes cs else c :: doubleQuotes cs

/-- A text as a field. -/
def quote (s : String) : String :=
  if s.toList.any isSpecial then String.ofList ('"' :: doubleQuotes s.toList ++ ['"']) else s

/-- A value as a field. -/
def field (value : Value) : String :=
  quote value.print

/-- The fields of one record. -/
def record (values : List Value) : String :=
  ",".intercalate (values.map field)

/-- A text of several records. -/
def ofRows (rows : List (List Value)) : String :=
  "\n".intercalate (rows.map record)

/-- The names of the columns, then each row in the order of the columns. -/
def ofResult (r : Result) : String :=
  ofRows (r.columns.map Value.text :: r.rows.map fun row => r.columns.map row.get)

/-- The record of a query that failed. -/
def ofError (message sql : String) : String :=
  ofRows [[.text "error", .text "query"], [.text message, .text sql]]

end FilmReport.Report.Csv
