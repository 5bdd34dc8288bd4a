import FilmReport.Decimal.Shortest
import FilmReport.Decimal.Stored

/-!
The two texts of a binary64 number. `Binary64.toText` writes the shortest numeral: positional
while the point stands within 21 places, with an exponent outside. `Binary64.toFifteenDigits`
writes fifteen significant digits and always a point; it is the text that a text column keeps.
-/

set_option autoImplicit false
set_option relaxedAutoImplicit false

namespace FilmReport

/-- The decimal digits of a natural number. -/
def decimalDigits (n : Nat) : List Char :=
  (Nat.repr n).toList

/-- The digits without the zeros at their end. -/
def dropTrailingZeros (cs : List Char) : List Char :=
  (cs.reverse.dropWhile (· == '0')).reverse

namespace Binary64

private def zeros (n : Nat) : List Char :=
  List.replicate n '0'

/-- A numeral of `digits` with the point after `point` of them. -/
def shortestNotation (digits : List Char) (point : Int) : List Char :=
  let k : Int := digits.length
  if k ≤ point ∧ point ≤ 21 then digits ++ zeros (point - k).toNat
  else if 0 < point ∧ point ≤ 21 then
    digits.take point.toNat ++ '.' :: digits.drop point.toNat
  else if -6 < point ∧ point ≤ 0 then '0' :: '.' :: zeros (-point).toNat ++ digits
  else
    let e := point - 1
    let mark := (if e < 0 then '-' else '+') :: decimalDigits e.natAbs
    match digits with
    | [d] => d :: 'e' :: mark
    | d :: ds => d :: '.' :: ds ++ 'e' :: mark
    | [] => []

/-- The shortest numeral that reads back as the number. -/
def toText : Binary64 → String
  | nan => "NaN"
  | infinite negative => if negative then "-Infinity" else "Infinity"
  | finite q =>
    if q = 0 then "0"
    else
      let d := Decimal.shortest (if q < 0 then -q else q)
      let digits := decimalDigits d.coefficient
      let body := shortestNotation digits (digits.length + d.exponent)
      String.ofList (if q < 0 then '-' :: body else body)

/-- Two digits at least. -/
private def exponentDigits (n : Nat) : List Char :=
  if n < 10 then '0' :: decimalDigits n else decimalDigits n

/-- Digits after a point, one zero if there are none. -/
private def fraction (cs : List Char) : List Char :=
  match dropTrailingZeros cs with
  | [] => ['0']
  | ds => ds

/-- A numeral of fifteen digits whose first stands for `10 ^ lead`. -/
def fifteenNotation (digits : List Char) (lead : Int) : List Char :=
  if lead < -4 ∨ 14 < lead then
    digits.take 1 ++ '.' :: fraction (digits.drop 1) ++
      'e' :: (if lead < 0 then '-' else '+') :: exponentDigits lead.natAbs
  else if lead < 0 then '0' :: '.' :: fraction (zeros (-lead - 1).toNat ++ digits)
  else digits.take (lead.toNat + 1) ++ '.' :: fraction (digits.drop (lead.toNat + 1))

/-- Fifteen significant digits, with a point. -/
def toFifteenDigits : Binary64 → String
  | nan => "NaN"
  | infinite negative => if negative then "-Inf" else "Inf"
  | finite q =>
    if q = 0 then "0.0"
    else
      let d := Decimal.fifteen (if q < 0 then -q else q)
      let digits := decimalDigits d.coefficient
      let body := fifteenNotation digits (d.exponent + digits.length - 1)
      String.ofList (if q < 0 then '-' :: body else body)

end Binary64
end FilmReport
