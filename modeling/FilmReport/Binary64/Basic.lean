/-!
Binary64 numbers by value. A finite number is kept as the rational that it stands for, and the
two zeros of the format are one number. `Binary64.round` takes every rational to the nearest
number of the format, a tie to the even significand; all arithmetic is the exact operation
followed by `round`.
-/

set_option autoImplicit false
set_option relaxedAutoImplicit false

namespace FilmReport

/-- A binary64 number: a finite value, one of the two infinities, or no number. -/
inductive Binary64 where
  | finite (value : Rat)
  | infinite (negative : Bool)
  | nan
deriving DecidableEq, Repr

namespace Binary64

instance : Inhabited Binary64 := ⟨finite 0⟩

/-- The natural number nearest to `n / d`; a half goes to the even neighbour. -/
def nearest (n d : Nat) : Nat :=
  let q := n / d
  let r := n % d
  if 2 * r < d then q else if d < 2 * r then q + 1 else if q % 2 = 0 then q else q + 1

/-- Two to a power of either sign. -/
def twoPow (k : Int) : Rat :=
  if 0 ≤ k then (Nat.pow 2 k.toNat : Rat) else mkRat 1 (Nat.pow 2 (-k).toNat)

/-- The largest `k` with `2 ^ k ≤ q`, for positive `q`. -/
def binaryExponent (q : Rat) : Int :=
  let k := (q.num.natAbs.log2 : Int) - (q.den.log2 : Int)
  if twoPow k ≤ q then k else k - 1

/-- The exponent of the last binary place of a magnitude: 53 places, none below `2 ^ -1074`. -/
def unitExponent (q : Rat) : Int :=
  max (binaryExponent q - 52) (-1074)

/-- The number of units `2 ^ u` nearest to `q`. -/
def significand (q : Rat) (u : Int) : Nat :=
  let s := q / twoPow u
  nearest s.num.natAbs s.den

/-- The magnitude of the format nearest to a positive `q`; none when it leaves the range. -/
def roundMagnitude? (q : Rat) : Option Rat :=
  let u := unitExponent q
  let v := (significand q u : Rat) * twoPow u
  if v < twoPow 1024 then some v else none

/-- The number of the format nearest to `q`. -/
def round (q : Rat) : Binary64 :=
  if q = 0 then finite 0
  else if q < 0 then
    match roundMagnitude? (-q) with
    | some v => finite (-v)
    | none => infinite true
  else
    match roundMagnitude? q with
    | some v => finite v
    | none => infinite false

/-- An integer as a number of the format. -/
def ofInt (n : Int) : Binary64 :=
  round (n : Rat)

/-- Strict order; nothing is comparable with `nan`. -/
def lt : Binary64 → Binary64 → Bool
  | finite a, finite b => a < b
  | finite _, infinite negative => !negative
  | infinite negative, finite _ => negative
  | infinite a, infinite b => a && !b
  | _, _ => false

/-- Order with equality; nothing is comparable with `nan`. -/
def le : Binary64 → Binary64 → Bool
  | nan, _ => false
  | _, nan => false
  | a, b => !lt b a

def isFinite : Binary64 → Bool
  | finite _ => true
  | _ => false

/-- The integer that a finite number is, if it is one. -/
def toInt? : Binary64 → Option Int
  | finite q => if q.den = 1 then some q.num else none
  | _ => none

end Binary64
end FilmReport
