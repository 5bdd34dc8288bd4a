import FilmReport.Decimal.Basic

/-!
Days of the Gregorian calendar, carried back before its introduction. A day is also the number of
days since 1 January 1970, and the two views are inverse to each other.
-/

set_option autoImplicit false
set_option relaxedAutoImplicit false

namespace FilmReport.Calendar

/-- A year, a month and a day of the month. -/
structure Date where
  year : Int
  month : Nat
  day : Nat
deriving DecidableEq, Repr

def isLeap (year : Int) : Bool :=
  year % 4 = 0 && (year % 100 ≠ 0 || year % 400 = 0)

def daysInMonth (year : Int) (month : Nat) : Nat :=
  if month = 2 then (if isLeap year then 29 else 28)
  else if month = 4 ∨ month = 6 ∨ month = 9 ∨ month = 11 then 30
  else 31

/-- Whether the month exists and has the day. -/
def Date.exists (d : Date) : Bool :=
  1 ≤ d.month && d.month ≤ 12 && 1 ≤ d.day && d.day ≤ daysInMonth d.year d.month

/--
The days from 1 January 1970 to a date. A day past the end of its month counts on into the next.
-/
def Date.toDays (d : Date) : Int :=
  let y := if d.month ≤ 2 then d.year - 1 else d.year
  let era := y / 400
  let yearOfEra := y - era * 400
  let monthFromMarch : Int := (d.month + 9) % 12
  let dayOfYear := (153 * monthFromMarch + 2) / 5 + d.day - 1
  let dayOfEra := yearOfEra * 365 + yearOfEra / 4 - yearOfEra / 100 + dayOfYear
  era * 146097 + dayOfEra - 719468

/-- The date a number of days after 1 January 1970. -/
def Date.ofDays (days : Int) : Date :=
  let z := days + 719468
  let era := z / 146097
  let dayOfEra := z % 146097
  let yearOfEra := (dayOfEra - dayOfEra / 1460 + dayOfEra / 36524 - dayOfEra / 146096) / 365
  let dayOfYear := dayOfEra - (365 * yearOfEra + yearOfEra / 4 - yearOfEra / 100)
  let monthFromMarch := (5 * dayOfYear + 2) / 153
  let day := dayOfYear - (153 * monthFromMarch + 2) / 5 + 1
  let month := if monthFromMarch < 10 then monthFromMarch + 3 else monthFromMarch - 9
  let year := yearOfEra + era * 400
  ⟨if month ≤ 2 then year + 1 else year, month.toNat, day.toNat⟩

/-- Exactly `n` digits at the front of a list, as a number, and what follows. -/
def digits? (n : Nat) (cs : List Char) : Option (Nat × List Char) :=
  let front := cs.take n
  if front.length = n && front.all isDigit then some (digitsValue front, cs.drop n) else none

/-- Four digits, two digits and two digits between hyphens, and what follows. -/
def dateFields? (cs : List Char) : Option (Date × List Char) :=
  match digits? 4 cs with
  | some (year, '-' :: rest) =>
    match digits? 2 rest with
    | some (month, '-' :: rest) =>
      match digits? 2 rest with
      | some (day, rest) => some (⟨year, month, day⟩, rest)
      | none => none
    | _ => none
  | _ => none

/-- An existing day written `YYYY-MM-DD`, and what follows. -/
def date? (cs : List Char) : Option (Date × List Char) :=
  match dateFields? cs with
  | some (d, rest) => if d.exists then some (d, rest) else none
  | none => none

/-- Whether a text is an existing day written `YYYY-MM-DD`. -/
def isDate (s : String) : Bool :=
  match date? s.toList with
  | some (_, []) => true
  | _ => false

/-- Whether a list is a fraction of at least one digit, then `Z`. -/
def isFractionEnd (cs : List Char) : Bool :=
  !(cs.takeWhile isDigit).isEmpty && cs.dropWhile isDigit == ['Z']

/-- Whether a list is a time of day, to the minute, the second or a fraction of one, and `Z`. -/
def isTimeEnd (cs : List Char) : Bool :=
  match digits? 2 cs with
  | some (hour, ':' :: rest) =>
    match digits? 2 rest with
    | some (minute, rest) =>
      hour < 24 && minute < 60 &&
        match rest with
        | ['Z'] => true
        | ':' :: rest =>
          match digits? 2 rest with
          | some (second, ['Z']) => second < 60
          | some (second, '.' :: rest) => second < 60 && isFractionEnd rest
          | _ => false
        | _ => false
    | none => false
  | _ => false

/-- Whether a text is an existing day, `T`, and a time of day in universal time. -/
def isDateTime (s : String) : Bool :=
  match date? s.toList with
  | some (_, 'T' :: rest) => isTimeEnd rest
  | _ => false

end FilmReport.Calendar
