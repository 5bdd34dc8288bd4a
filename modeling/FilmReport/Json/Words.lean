import FilmReport.Json.Basic
import FilmReport.Decimal.Text
import FilmReport.Text.Numeral

/-!
JSON values as texts and as numbers. Every value has words, except objects with a field that takes
their words away; a list or an object counts as the number that its words write.
-/

set_option autoImplicit false
set_option relaxedAutoImplicit false

namespace FilmReport.Json

/-- The names of the functions that every object has. -/
def commonFunctions : List String :=
  ["__defineGetter__", "__defineSetter__", "hasOwnProperty", "__lookupGetter__",
   "__lookupSetter__", "isPrototypeOf", "propertyIsEnumerable", "toString", "valueOf",
   "toLocaleString"]

/-- Whether every object has something under a name. -/
def isCommon (name : String) : Bool :=
  commonFunctions.contains name || name = "constructor" || name = "__proto__"

/-- The name of the field that takes an object its words. -/
def wordsField : String := "toString"

mutual

/--
The words of a value: texts as they are, the items of a list between commas. An object with a field
of the name `wordsField` has none, and neither has a list that holds one.
-/
def words? : Json → Option String
  | null => some "null"
  | bool b => some (if b then "true" else "false")
  | number x => some x.toText
  | string s => some s
  | array items => (itemWords? items).map ",".intercalate
  | object fields =>
    if (Fields.get? wordsField fields).isSome then none else some "[object Object]"

/-- The words of items; `null` has the empty text. -/
def itemWords? : List Json → Option (List String)
  | [] => some []
  | null :: rest => (itemWords? rest).map ("" :: ·)
  | item :: rest =>
    match words? item, itemWords? rest with
    | some first, some more => some (first :: more)
    | _, _ => none

end

/-- The number that a value counts as; none if it has no words. -/
def quantity? : Json → Option Binary64
  | null => some (.finite 0)
  | bool b => some (.finite (if b then 1 else 0))
  | number x => some x
  | value => value.words?.map Numeral.read

end FilmReport.Json
