import FilmReport.Binary64.Arithmetic
import FilmReport.Decimal.Basic

/-!
Numbers in two parts, the second of which holds what the first misses, and their multiplication by
powers of ten. A product is put together from the products of the halves of its factors, each of
which is exact.
-/

set_option autoImplicit false
set_option relaxedAutoImplicit false

namespace FilmReport

namespace Binary64

/-- A magnitude without the last 26 of its 53 binary places. -/
def coarseMagnitude (q : Rat) : Rat :=
  let unit := twoPow (unitExponent q + 26)
  (q / unit).floor * unit

/-- A number without the last 26 of its 53 binary places. -/
def coarse : Binary64 → Binary64
  | finite q =>
    if q = 0 then finite 0
    else if q < 0 then finite (-coarseMagnitude (-q))
    else finite (coarseMagnitude q)
  | x => x

end Binary64

/-- A number in two parts. -/
structure Twofold where
  high : Binary64
  low : Binary64
deriving DecidableEq, Repr

namespace Twofold

open Binary64

/-- The product with a factor; the products of the two low parts are left out. -/
def times (x y : Twofold) : Twofold :=
  let xh := x.high.coarse
  let xt := x.high.sub xh
  let yh := y.high.coarse
  let yt := y.high.sub yh
  let p := xh.mul yh
  let q := (xh.mul yt).add (xt.mul yh)
  let c := p.add q
  let rest := ((p.sub c).add q).add (xt.mul yt)
  let rest := ((x.high.mul y.low).add (x.low.mul y.high)).add rest
  let high := c.add rest
  ⟨high, (c.sub high).add rest⟩

def ten : Twofold := ⟨.ofScaled 1 1, .finite 0⟩

/-- Ten to the tenth power. -/
def ten10 : Twofold := ⟨.ofScaled 1 10, .finite 0⟩

/-- Ten to the hundredth power. -/
def ten100 : Twofold := ⟨.ofScaled 1 100, .ofScaled (-15902891109759918046) 64⟩

def tenth : Twofold := ⟨.ofScaled 1 (-1), .ofScaled (-55511151231257827021) (-37)⟩

/-- Ten to the power of minus ten. -/
def tenth10 : Twofold := ⟨.ofScaled 1 (-10), .ofScaled (-36432197315497741579) (-46)⟩

/-- Ten to the power of minus one hundred. -/
def tenth100 : Twofold := ⟨.ofScaled 1 (-100), .ofScaled (-199918998026028836196) (-137)⟩

/-- The number times a power of ten, in steps of one hundred, ten and one places. -/
def scale (x : Twofold) (places : Int) : Twofold :=
  let n := places.natAbs
  let (by100, by10, by1) := if 0 ≤ places then (ten100, ten10, ten) else (tenth100, tenth10, tenth)
  let x := Nat.repeat (·.times by100) (n / 100) x
  let x := Nat.repeat (·.times by10) (n % 100 / 10) x
  Nat.repeat (·.times by1) (n % 10) x

end Twofold
end FilmReport
