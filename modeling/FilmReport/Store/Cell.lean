import FilmReport.Binary64.Arithmetic
import FilmReport.Decimal.Text
import FilmReport.Text.Numeral
import FilmReport.Text.Order

/-!
Cells of the store. A cell is missing, an integer, a real or a text. Cells of all kinds have one
order: missing ones first, then numbers by their value, then texts by their bytes. A column draws
the values written to it towards its own kind.
-/

set_option autoImplicit false
set_option relaxedAutoImplicit false

namespace FilmReport

/-- What a column of a row holds. -/
inductive Cell where
  | null
  | int (value : Int)
  | real (value : Binary64)
  | text (value : String)
deriving DecidableEq, Repr, Inhabited

namespace Cell

def ofText? : Option String → Cell
  | some s => text s
  | none => null

/-- The exact number in a cell. -/
def number? : Cell → Option Binary64
  | int n => some (.finite n)
  | real x => some x
  | _ => none

/-- The number of a cell in arithmetic; a text counts as the number at its front. -/
def toReal : Cell → Binary64
  | int n => .ofInt n
  | real x => x
  | text s => Numeral.leading s
  | null => .finite 0

def isNull : Cell → Bool
  | null => true
  | _ => false

/-- The order of all cells. -/
def compare : Cell → Cell → Ordering
  | null, null => .eq
  | null, _ => .lt
  | _, null => .gt
  | text s, text t => Text.compareBytes s t
  | text _, _ => .gt
  | _, text _ => .lt
  | a, b =>
    match a.number?, b.number? with
    | some x, some y => if x.lt y then .lt else if y.lt x then .gt else .eq
    | _, _ => .eq

/-- Whether both cells hold something and it is the same. -/
def same (a b : Cell) : Bool :=
  !a.isNull && !b.isNull && compare a b == .eq

/-- Whether both cells hold something and the first is greater. -/
def above (a b : Cell) : Bool :=
  !a.isNull && !b.isNull && compare a b == .gt

/-- What a text column keeps: numbers become texts. -/
def toText? : Cell → Option String
  | null => none
  | int n => some (Int.repr n)
  | real x => some x.toFifteenDigits
  | text s => some s

/-- The integers that a cell can hold. -/
def isStorable (n : Int) : Bool :=
  -9223372036854775808 ≤ n && n ≤ 9223372036854775807

/-- The integer that a cell counts as: toward zero, and no further than the ends of the range. -/
def toWhole : Cell → Int
  | null => 0
  | int n => n
  | real (.finite q) => confine (if q < 0 then -((-q).floor) else q.floor)
  | real (.infinite negative) => if negative then least else greatest
  | real .nan => 0
  | text s => confine (Numeral.leadingInt s)
where
  least : Int := -9223372036854775808
  greatest : Int := 9223372036854775807
  confine (n : Int) : Int := max least (min greatest n)

/-- The cell that stands for all equal ones: a real that is a storable integer is taken as it. -/
def normal : Cell → Cell
  | real x =>
    match x.toInt? with
    | some n => if isStorable n then int n else real x
    | none => real x
  | c => c

/-- A real as an integer if it is one strictly between the ends of the integer range. -/
def integral (x : Binary64) : Cell :=
  match x.toInt? with
  | some n =>
    if -9223372036854775808 < n ∧ n < 9223372036854775807 then int n else real x
  | none => real x

/-- A text that writes a number as that number, exactly if it is a plain integer. -/
def numeral (s : String) : Cell :=
  match Numeral.written? s with
  | none => text s
  | some w =>
    if s.toList.any (fun c => c == '.' || c == 'e' || c == 'E') || !isStorable w.wholeInt then
      real w.toStored
    else int w.wholeInt

/-- What an integer column keeps: integral reals become integers, numerals become numbers. -/
def toInteger : Cell → Cell
  | real x => integral x
  | text s =>
    match numeral s with
    | real x => integral x
    | c => c
  | c => c

/-- What a real column keeps: integers become reals, numerals become numbers. -/
def toRealCell : Cell → Cell
  | int n => real (.ofInt n)
  | text s =>
    match numeral s with
    | int n => real (.ofInt n)
    | c => c
  | c => c

end Cell
end FilmReport
