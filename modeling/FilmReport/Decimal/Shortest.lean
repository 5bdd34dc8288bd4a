import FilmReport.Decimal.Basic

/-!
The shortest decimal numeral of a binary64 number: the coarsest power-of-ten grid with a point
that still rounds to the number, and of its points the one nearest to the number.
-/

set_option autoImplicit false
set_option relaxedAutoImplicit false

namespace FilmReport.Decimal

open Binary64

/-- Whether a rational rounds to the positive finite number `q`; the ends belong to an even one. -/
def roundsTo (q c : Rat) : Bool :=
  let u := unitExponent q
  let m := (q / twoPow u).num.natAbs
  let high := q + twoPow (u - 1)
  let low := if m = Nat.pow 2 52 ∧ -1074 < u then q - twoPow (u - 2) else q - twoPow (u - 1)
  if m % 2 = 0 then low ≤ c && c ≤ high else low < c && c < high

/-- The multiple of `10 ^ j` nearest to `q` among its two neighbours that round to `q`. -/
def onGrid? (q : Rat) (j : Int) : Option Nat :=
  let g := tenPow j
  let below := (q / g).floor.toNat
  let above := below + 1
  let lowFits := below != 0 && roundsTo q (below * g)
  let highFits := roundsTo q (above * g)
  if lowFits && highFits then
    let lowGap := q - below * g
    let highGap := above * g - q
    if lowGap < highGap then some below
    else if highGap < lowGap then some above
    else if below % 2 = 0 then some below else some above
  else if lowFits then some below
  else if highFits then some above
  else none

/-- The first grid from `10 ^ j` downward that has a point rounding to `q`. -/
def coarsest (q : Rat) : Nat → Int → Decimal
  | 0, j => ⟨false, (q / tenPow j).floor.toNat, j⟩
  | fuel + 1, j =>
    match onGrid? q j with
    | some c => ⟨false, c, j⟩
    | none => coarsest q fuel (j - 1)

/-- A power of ten above every rational that rounds to `q`. -/
def ceilingExponent (q : Rat) : Int :=
  (binaryExponent q + 2) * 30103 / 100000 + 1

/-- The shortest numeral of the positive finite number `q`; seventeen digits always suffice. -/
def shortest (q : Rat) : Decimal :=
  coarsest q 24 (ceilingExponent q)

end FilmReport.Decimal
