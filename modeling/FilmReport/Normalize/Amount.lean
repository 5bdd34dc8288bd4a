import FilmReport.Normalize.Missing
import FilmReport.Json.Basic
import FilmReport.Decimal.Basic

/-!
Amounts of money read from reported texts. The markers `$` and `INR` and all commas are dropped;
what is left must be a decimal numeral of at most thirteen digits before the point, and is kept in
hundredths, half of one rounded up.
-/

set_option autoImplicit false
set_option relaxedAutoImplicit false

namespace FilmReport.Normalize

/-- Why a text is no amount. -/
inductive AmountFlaw where
  | notNumeric
  | tooManyDigits
deriving DecidableEq, Repr

def AmountFlaw.text : AmountFlaw → String
  | notNumeric => "not_numeric"
  | tooManyDigits => "too_many_digits"

/-- What a reported text says about an amount. -/
inductive Amount where
  | absent
  | parsed (cents : Nat)
  | invalid (raw : String) (flaw : AmountFlaw)
deriving DecidableEq, Repr

namespace Amount

/-- A number of hundredths in whole units. -/
def units (cents : Nat) : Binary64 :=
  .round (mkRat cents 100)

def toJson : Amount → Json
  | absent => .object [("kind", .string "absent")]
  | parsed cents =>
    .object
      [("kind", .string "parsed"), ("value", .number (units cents)), ("cents", .ofNat cents)]
  | invalid raw flaw =>
    .object
      [("kind", .string "invalid"), ("raw", .string raw), ("reason", .string flaw.text)]

/-- The list without its currency markers, found in one pass from the left. -/
def dropMarkers : List Char → List Char
  | [] => []
  | '$' :: cs => dropMarkers cs
  | 'I' :: 'N' :: 'R' :: cs => dropMarkers cs
  | c :: cs => c :: dropMarkers cs

/-- A reported text without markers, commas and blank edges. -/
def bare (raw : String) : List Char :=
  Text.trimList Text.isBlank ((dropMarkers raw.toList).filter fun c => c ≠ ',')

/-- The digits before and after the point of a numeral with at least one digit. -/
def numeral? (cs : List Char) : Option (List Char × List Char) :=
  let whole := cs.takeWhile isDigit
  match cs.dropWhile isDigit with
  | [] => if whole.isEmpty then none else some (whole, [])
  | '.' :: fraction =>
    if !fraction.all isDigit || (whole.isEmpty && fraction.isEmpty) then none
    else some (whole, fraction)
  | _ => none

/-- The most digits that stand before the point, leading zeros apart. -/
def maxWholeDigits : Nat := 13

/-- The hundredths of a numeral; from half of one on, a fraction of one counts as one. -/
def centsOf (whole fraction : List Char) : Nat :=
  let padded := fraction ++ ['0', '0', '0']
  let roundUp := if 5 ≤ digitsValue ((padded.drop 2).take 1) then 1 else 0
  digitsValue whole * 100 + digitsValue (padded.take 2) + roundUp

/-- What a reported text says about an amount. -/
def read (raw : Option String) : Amount :=
  match raw with
  | none => absent
  | some text =>
    if isMissing raw then absent
    else match numeral? (bare text) with
      | none => invalid text .notNumeric
      | some (whole, fraction) =>
        let significant := whole.dropWhile (· == '0')
        if maxWholeDigits < significant.length then invalid text .tooManyDigits
        else parsed (centsOf significant fraction)

end Amount
end FilmReport.Normalize
