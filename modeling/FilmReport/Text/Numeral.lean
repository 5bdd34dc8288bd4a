import FilmReport.Decimal.Stored
import FilmReport.Text.Blank

/-!
Numbers written in texts. A setting may use decimal notation with an exponent, hexadecimal, octal
or binary digits, or the word `Infinity`; a number kept in a text column is decimal.
-/

set_option autoImplicit false
set_option relaxedAutoImplicit false

namespace FilmReport.Numeral

/-- The digits at the front of a list, and the rest. -/
def spanDigits (cs : List Char) : List Char × List Char :=
  (cs.takeWhile isDigit, cs.dropWhile isDigit)

/-- An optional sign, and the rest. -/
def spanSign : List Char → Bool × List Char
  | '-' :: cs => (true, cs)
  | '+' :: cs => (false, cs)
  | cs => (false, cs)

/-- The exponent at the front of a list: a mark, an optional sign and at least one digit. -/
def exponent? : List Char → Option (Int × List Char)
  | c :: cs =>
    if c = 'e' ∨ c = 'E' then
      let (negative, body) := spanSign cs
      let (digits, rest) := spanDigits body
      if digits.isEmpty then none
      else
        let n : Int := digitsValue digits
        some (if negative then -n else n, rest)
    else none
  | [] => none

/--
The unsigned decimal numeral at the front of a list, with digits on at least one side of the
point, and what follows it.
-/
def unsigned? (cs : List Char) : Option (Written × List Char) :=
  let (whole, rest) := spanDigits cs
  let (fraction, rest) :=
    match rest with
    | '.' :: r => spanDigits r
    | r => ([], r)
  if whole.isEmpty && fraction.isEmpty then none
  else
    let (shift, rest) :=
      match exponent? rest with
      | some (e, r) => (e, r)
      | none => ((0 : Int), rest)
    some (⟨false, whole, fraction, shift⟩, rest)

/-- A decimal numeral with an optional sign, and what follows it. -/
def signed? (cs : List Char) : Option (Written × List Char) :=
  let (negative, body) := spanSign cs
  (unsigned? body).map fun (w, rest) => ({ w with negative := negative }, rest)

/-- The value of a digit of any base up to sixteen. -/
def baseDigit? (base : Nat) (c : Char) : Option Nat :=
  let n :=
    if isDigit c then digitValue c
    else if 'a' ≤ c ∧ c ≤ 'f' then c.toNat - 'a'.toNat + 10
    else if 'A' ≤ c ∧ c ≤ 'F' then c.toNat - 'A'.toNat + 10
    else base
  if n < base then some n else none

/-- The natural number that digits of a base write; none without digits or with anything else. -/
def baseNumeral? (base : Nat) (cs : List Char) : Option Nat :=
  if cs.isEmpty then none
  else cs.foldl (fun n? c => n?.bind fun n => (baseDigit? base c).map (base * n + ·)) (some 0)

/--
The number that a whole text writes, blank edges apart; an empty text is zero, and `nan` stands
for a text that writes none.
-/
def read (text : String) : Binary64 :=
  match (Text.trimSpace text).toList with
  | [] => .finite 0
  | '0' :: 'x' :: cs | '0' :: 'X' :: cs => natural 16 cs
  | '0' :: 'o' :: cs | '0' :: 'O' :: cs => natural 8 cs
  | '0' :: 'b' :: cs | '0' :: 'B' :: cs => natural 2 cs
  | cs =>
    let (negative, body) := spanSign cs
    if body = "Infinity".toList then .infinite negative
    else match signed? cs with
      | some (w, []) => w.toDecimal.toBinary64
      | _ => .nan
where
  natural (base : Nat) (cs : List Char) : Binary64 :=
    match baseNumeral? base cs with
    | some n => .ofInt n
    | none => .nan

/-- White space around stored numerals: blanks, vertical tabs and form feeds. -/
def isEdge (c : Char) : Bool :=
  Text.isBlank c || c == '\x0b' || c == '\x0c'

/-- The numeral that a whole stored text is, spaces at its ends apart. -/
def written? (text : String) : Option Written :=
  match signed? (Text.trimList isEdge text.toList) with
  | some (w, []) => some w
  | _ => none

/-- The integer at the front of a stored text, zero if there is none. -/
def leadingInt (text : String) : Int :=
  let (negative, body) := spanSign (text.toList.dropWhile isEdge)
  let n : Int := digitsValue (spanDigits body).1
  if negative then -n else n

/-- The number at the front of a stored text, zero if there is none. -/
def leading (text : String) : Binary64 :=
  match signed? (text.toList.dropWhile isEdge) with
  | some (w, _) => w.toStored
  | none => .finite 0

end FilmReport.Numeral
