import FilmReport.Decimal.Twofold

/-!
Decimals as the store takes them from numbers and back. Both ways go through numbers in two parts,
so that a result may miss the nearest one by the last place: `Decimal.ofStored` has eighteen or
nineteen digits, of which a text takes fifteen, and `Written.toStored` is the number that a numeral
is read as.
-/

set_option autoImplicit false
set_option relaxedAutoImplicit false

namespace FilmReport

/-- A numeral as it is written: a sign, the digits around the point and an exponent. -/
structure Written where
  negative : Bool
  whole : List Char
  fraction : List Char
  exponent : Int
deriving DecidableEq, Repr

namespace Decimal

open Binary64

/-- A way towards the place of a number: a bound, and what one step multiplies by. -/
structure Stage where
  bound : Binary64
  factor : Twofold
  /-- The places that one step moves the point by. -/
  shift : Int

/-- The steps that bring a number down to its nineteen digits, the widest first. -/
def stagesDown : List Stage :=
  [⟨.ofScaled 9223372036854774784 100, .tenth100, 100⟩,
   ⟨.ofScaled 9223372036854774784 10, .tenth10, 10⟩,
   ⟨.ofScaled 9223372036854774784 0, .tenth, 1⟩]

/-- The steps that bring a number up to its eighteen digits, the widest first. -/
def stagesUp : List Stage :=
  [⟨.ofScaled 9223372036854774784 (-101), .ten100, -100⟩,
   ⟨.ofScaled 9223372036854774784 (-11), .ten10, -10⟩,
   ⟨.ofScaled 922337203685477478 0, .ten, -1⟩]

/-- Steps as long as `beyond` holds of the bound and the number. -/
def climb (beyond : Binary64 → Binary64 → Bool) (stage : Stage) :
    Nat → Twofold × Int → Twofold × Int
  | 0, state => state
  | fuel + 1, (x, exponent) =>
    if beyond stage.bound x.high then
      climb beyond stage fuel (x.times stage.factor, exponent + stage.shift)
    else (x, exponent)

/-- A magnitude with eighteen or nineteen digits before the point, and the power of ten left. -/
def placed (q : Rat) : Twofold × Int :=
  let start : Twofold × Int := (⟨.finite q, .finite 0⟩, 0)
  if Binary64.lt (.ofScaled 9223372036854774784 0) (.finite q) then
    stagesDown.foldl (fun state stage => climb Binary64.lt stage 20 state) start
  else stagesUp.foldl (fun state stage => climb (fun b x => Binary64.lt x b) stage 20 state) start

/-- The whole part of the magnitude of a number. -/
def wholePart : Binary64 → Nat
  | .finite q => if q < 0 then (-q).floor.toNat else q.floor.toNat
  | _ => 0

/-- The decimal of a positive magnitude. -/
def ofStored (q : Rat) : Decimal :=
  let (x, exponent) := placed q
  let whole := wholePart x.high
  let rest := wholePart x.low
  ⟨false, if x.low.isNegative then whole - rest else whole + rest, exponent⟩

/-- A decimal without the digits below `10 ^ place`, the first of which decides the rounding. -/
def roundAt (place : Int) (d : Decimal) : Decimal :=
  if place ≤ d.exponent then d
  else
    let cut := (place - d.exponent).toNat
    ⟨d.negative, (d.coefficient / Nat.pow 10 (cut - 1) + 5) / 10, place⟩

/-- The fifteen digits of a positive magnitude that a text keeps. -/
def fifteen (q : Rat) : Decimal :=
  let d := ofStored q
  d.roundAt (d.exponent + ((Nat.repr d.coefficient).length - 15 : Nat))

end Decimal

namespace Written

/-- The numeral as an exact decimal. -/
def toDecimal (w : Written) : Decimal :=
  ⟨w.negative, digitsValue (w.whole ++ w.fraction), w.exponent - w.fraction.length⟩

/-- The integer that the digits before the point write. -/
def wholeInt (w : Written) : Int :=
  if w.negative then -(digitsValue w.whole : Int) else digitsValue w.whole

/-- From this size on, further digits of a numeral are not read. -/
def coefficientLimit : Nat := 1844674407370955160

/-- A number with digits added as long as it is below the limit, and how many were added. -/
def readDigits (n : Nat) : List Char → Nat × Nat
  | [] => (n, 0)
  | c :: cs =>
    if n < coefficientLimit then
      let (value, count) := readDigits (10 * n + digitValue c) cs
      (value, count + 1)
    else (n, 0)

/-- The largest exponent of either sign that is read. -/
def exponentLimit : Int := 10000

/-- The digits that are read, and the power of ten by which they are multiplied. -/
def readParts (w : Written) : Nat × Int :=
  let (whole, taken) := readDigits 0 w.whole
  let (value, more) := readDigits whole w.fraction
  let exponent := max (-exponentLimit) (min exponentLimit w.exponent)
  (value, exponent + (w.whole.length - taken : Nat) - more)

/-- Beyond this size a number is multiplied by ten only in two parts. -/
def exactLimit : Nat := 1844674407370954956

/-- Moves powers of ten between the digits and the exponent, as far as the digits stay exact. -/
def balance : Nat → Nat × Int → Nat × Int
  | 0, state => state
  | fuel + 1, (value, exponent) =>
    if 0 < exponent ∧ value < exactLimit then balance fuel (10 * value, exponent - 1)
    else if exponent < 0 ∧ value % 10 = 0 then balance fuel (value / 10, exponent + 1)
    else (value, exponent)

/-- The largest number of the format below `2 ^ 64`; nothing is kept of what a larger one misses. -/
def splitLimit : Int := 18446744073709549568

/-- A natural number in two parts. -/
def twoParts (n : Nat) : Twofold :=
  let high := Binary64.ofInt n
  match high.toInt? with
  | some m => ⟨high, if m ≤ splitLimit then .ofInt (n - m) else .finite 0⟩
  | none => ⟨high, .finite 0⟩

/-- The number that the store reads a numeral as. -/
def toStored (w : Written) : Binary64 :=
  let (value, exponent) := w.readParts
  if value = 0 then .finite 0
  else
    let (value, exponent) := balance 20 (value, exponent)
    let x := (twoParts value).scale exponent
    let magnitude :=
      match x.high.add x.low with
      | .nan => .infinite false
      | m => m
    if w.negative then magnitude.neg else magnitude

end Written

namespace Binary64

/-- The digits of `n` with at least one of them before the last `places`. -/
def pointDigits (places n : Nat) : List Char × List Char :=
  let digits := (Nat.repr n).toList
  let padded := List.replicate (places + 1 - digits.length) '0' ++ digits
  (padded.take (padded.length - places), padded.drop (padded.length - places))

/-- A positive magnitude to decimals, written down and read back. -/
def roundMagnitude (places : Nat) (q : Rat) : Binary64 :=
  let d := (Decimal.ofStored q).roundAt (-places)
  let n := d.coefficient * Nat.pow 10 (d.exponent + places).toNat
  let (whole, fraction) := pointDigits places n
  let fraction := (fraction.reverse.dropWhile (· == '0')).reverse
  Written.toStored ⟨false, whole, if fraction.isEmpty then ['0'] else fraction, 0⟩

/-- A number to `places` decimals; one beyond `2 ^ 52` has no fraction and stays. -/
def roundPlaces (places : Nat) : Binary64 → Binary64
  | finite q =>
    if q = 0 ∨ twoPow 52 < q ∨ q < -twoPow 52 then finite q
    else if q < 0 then (roundMagnitude places (-q)).neg
    else roundMagnitude places q
  | x => x

end Binary64
end FilmReport
