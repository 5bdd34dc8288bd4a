import FilmReport.Json.Words

/-!
Values of query results, which are the values that a report can print, and the results themselves.
-/

set_option autoImplicit false
set_option relaxedAutoImplicit false

namespace FilmReport.Query

/-- A value of a result. -/
inductive Value where
  | null
  | number (value : Binary64)
  | text (value : String)
deriving DecidableEq, Repr

namespace Value

/-- The printed form of a value, empty when nothing is there. -/
def print : Value → String
  | null => ""
  | number x => x.toText
  | text s => s

def toJson : Value → Json
  | null => .null
  | number x => .number x
  | text s => .string s

end Value

/-- The values of a row by the names of their columns. -/
abbrev Row := List (String × Value)

/-- The wording of a function. -/
def functionText (name : String) : String :=
  "function " ++ name ++ "() \x7b [native code] \x7d"

/-- What a row answers to a name for which it has no value of its own. -/
def commonValue (name : String) : Value :=
  if Json.commonFunctions.contains name then .text (functionText name)
  else if name = "constructor" then .text (functionText "Object")
  else if name = "__proto__" then .text "[object Object]"
  else .null

/-- The value of a row in a column; one that it has not is common to all rows. -/
def Row.get (row : Row) (column : String) : Value :=
  match row.find? fun entry => entry.1 = column with
  | some (_, value) => value
  | none => commonValue column

def Row.toJson (row : Row) : Json :=
  .object (row.map fun (name, value) => (name, value.toJson))

/-- What a query answers. -/
structure Result where
  id : String
  segment : Nat
  label : String
  columns : List String
  rows : List Row
deriving Repr

def Result.toJson (r : Result) : Json :=
  .object
    [("id", .string r.id), ("segment", .ofNat r.segment), ("label", .string r.label),
     ("columns", .strings r.columns), ("rows", .array (r.rows.map Row.toJson))]

end FilmReport.Query
