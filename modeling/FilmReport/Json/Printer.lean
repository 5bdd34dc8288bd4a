import FilmReport.Json.Basic
import FilmReport.Decimal.Text

/-!
Printing of JSON values: on one line without spaces, or indented by two spaces a level. Numbers
are written in their shortest form; one that is not finite is written as `null`.
-/

set_option autoImplicit false
set_option relaxedAutoImplicit false

namespace FilmReport.Json

private def hexDigit (n : Nat) : Char :=
  if n < 10 then Char.ofNat (n + '0'.toNat) else Char.ofNat (n - 10 + 'a'.toNat)

/-- A character inside a quoted text. -/
def escapeChar (c : Char) : List Char :=
  if c = '"' then ['\\', '"']
  else if c = '\\' then ['\\', '\\']
  else if c = '\n' then ['\\', 'n']
  else if c = '\r' then ['\\', 'r']
  else if c = '\t' then ['\\', 't']
  else if c = '\x08' then ['\\', 'b']
  else if c = '\x0c' then ['\\', 'f']
  else if c.toNat < 0x20 then
    ['\\', 'u', '0', '0', hexDigit (c.toNat / 16), hexDigit (c.toNat % 16)]
  else [c]

/-- A text in quotes. -/
def quote (s : String) : String :=
  "\"" ++ String.ofList (s.toList.flatMap escapeChar) ++ "\""

/-- A number; one that is not finite has no notation. -/
def numberText (x : Binary64) : String :=
  if x.isFinite then x.toText else "null"

mutual

/-- A value on one line. -/
def compact : Json → String
  | null => "null"
  | bool b => if b then "true" else "false"
  | number x => numberText x
  | string s => quote s
  | array items => "[" ++ compactItems items ++ "]"
  | object fields => "\x7b" ++ compactFields fields ++ "\x7d"

def compactItems : List Json → String
  | [] => ""
  | [item] => compact item
  | item :: rest => compact item ++ "," ++ compactItems rest

def compactFields : List (String × Json) → String
  | [] => ""
  | [(name, value)] => quote name ++ ":" ++ compact value
  | (name, value) :: rest => quote name ++ ":" ++ compact value ++ "," ++ compactFields rest

end

/-- A line end and the indentation of a level. -/
def lineStart (level : Nat) : String :=
  "\n" ++ String.ofList (List.replicate (2 * level) ' ')

mutual

/-- A value over several lines, at a level of indentation. -/
def indented (level : Nat) : Json → String
  | array [] => "[]"
  | array (item :: rest) =>
    "[" ++ indentedItems (level + 1) (item :: rest) ++ lineStart level ++ "]"
  | object [] => "\x7b\x7d"
  | object (field :: rest) =>
    "\x7b" ++ indentedFields (level + 1) (field :: rest) ++ lineStart level ++ "\x7d"
  | null => "null"
  | bool b => if b then "true" else "false"
  | number x => numberText x
  | string s => quote s

def indentedItems (level : Nat) : List Json → String
  | [] => ""
  | [item] => lineStart level ++ indented level item
  | item :: rest => lineStart level ++ indented level item ++ "," ++ indentedItems level rest

def indentedFields (level : Nat) : List (String × Json) → String
  | [] => ""
  | [(name, value)] => lineStart level ++ quote name ++ ": " ++ indented level value
  | (name, value) :: rest =>
    lineStart level ++ quote name ++ ": " ++ indented level value ++ "," ++
      indentedFields level rest

end

/-- A value over several lines. -/
def pretty (value : Json) : String :=
  indented 0 value

end FilmReport.Json
