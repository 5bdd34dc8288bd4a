import FilmReport.Binary64.Basic

/-!
Decimal numerals: a sign, a coefficient and a power of ten. `Decimal.toBinary64` reads one as the
nearest binary64 number.
-/

set_option autoImplicit false
set_option relaxedAutoImplicit false

namespace FilmReport

/-- The numeral `coefficient * 10 ^ exponent`, negated if `negative`. -/
structure Decimal where
  negative : Bool
  coefficient : Nat
  exponent : Int
deriving DecidableEq, Repr

/-- Ten to a power of either sign. -/
def tenPow (k : Int) : Rat :=
  if 0 ≤ k then (Nat.pow 10 k.toNat : Rat) else mkRat 1 (Nat.pow 10 (-k).toNat)

namespace Decimal

def magnitude (d : Decimal) : Rat :=
  (d.coefficient : Rat) * tenPow d.exponent

/-- The exact value of a numeral. -/
def toRat (d : Decimal) : Rat :=
  if d.negative then -d.magnitude else d.magnitude

/--
The nearest binary64 number. Numerals beyond `10 ^ 400` or below `10 ^ -400` are decided by their
size alone, so that no huge power of ten is formed.
-/
def toBinary64 (d : Decimal) : Binary64 :=
  if d.coefficient = 0 then .finite 0
  else if 400 < d.exponent then .infinite d.negative
  else if d.exponent + (d.coefficient.log2 / 3 + 1 : Nat) < -400 then .finite 0
  else Binary64.round d.toRat

end Decimal

/-- The number of the format nearest to `coefficient * 10 ^ exponent`. -/
def Binary64.ofScaled (coefficient exponent : Int) : Binary64 :=
  Decimal.toBinary64 ⟨coefficient < 0, coefficient.natAbs, exponent⟩

/-- Whether a character is an ASCII decimal digit. -/
def isDigit (c : Char) : Bool :=
  '0' ≤ c && c ≤ '9'

/-- The value of an ASCII decimal digit. -/
def digitValue (c : Char) : Nat :=
  c.toNat - '0'.toNat

/-- The value of a run of decimal digits. -/
def digitsValue (cs : List Char) : Nat :=
  cs.foldl (fun n c => 10 * n + digitValue c) 0

end FilmReport
