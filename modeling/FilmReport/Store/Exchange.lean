import FilmReport.Store.Layout
import FilmReport.Json.Basic

/-!
Cells and JSON values. Every number is given to the store as a real, and every number it holds is
read as a binary64.
-/

set_option autoImplicit false
set_option relaxedAutoImplicit false

namespace FilmReport

namespace Cell

/-- The cell of a value; what is no number is missing, and lists, objects and truth values have
none. -/
def ofJson? : Json → Option Cell
  | .null => some null
  | .number .nan => some null
  | .number x => some (real x)
  | .string s => some (text s)
  | _ => none

def toJson : Cell → Json
  | null => .null
  | int n => .ofInt n
  | real x => .number x
  | text s => .string s

end Cell

namespace Store

/-- The cell of a named value. -/
def bindOne (given : Fields) (name : String) : Except StoreError Cell :=
  match Fields.get? name given with
  | none => .error (.missingParameter name)
  | some value =>
    match Cell.ofJson? value with
    | some cell => .ok cell
    | none => .error .unsupportedValue

/-- Why a value that stands for no name cannot be handed over. -/
def unnamed (value : Json) : StoreError :=
  if (Cell.ofJson? value).isSome then .tooManyParameters else .unsupportedValue

/--
The cells of named values, in the order of the names. Only an object names its values; a list hands
over its items and anything else itself, for which no statement has a place.
-/
def bind (names : List String) : Json → Except StoreError (List Cell)
  | .object given => names.mapM (bindOne given)
  | .array [] => .error .missingParameters
  | .array (first :: _) => .error (unnamed first)
  | value => .error (unnamed value)

/-- A row with cells put into columns, one after the other. -/
def fill {ρ : Type} : List (Column ρ × Cell) → ρ → Except StoreError ρ
  | [], row => .ok row
  | (column, cell) :: rest, row =>
    match column.put cell row with
    | .ok row => fill rest row
    | .error e => .error e

end Store
end FilmReport
