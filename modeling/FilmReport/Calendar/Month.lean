import FilmReport.Calendar.Date
import FilmReport.Text.Numeral

/-!
The month of a stored date text. Stored dates are not validated: the text may be a day with or
without a time, a time alone (a day of January 2000), or a Julian day number.
-/

set_option autoImplicit false
set_option relaxedAutoImplicit false

namespace FilmReport.Calendar

/-- White space in stored dates. -/
private def isGap (c : Char) : Bool :=
  Text.isBlank c || c == '\x0b' || c == '\x0c'

/-- The zone at the end of a time, in minutes east; none when something else stands there. -/
def zone? (cs : List Char) : Option Int :=
  match cs.dropWhile isGap with
  | [] => some 0
  | c :: rest =>
    if c = 'Z' ∨ c = 'z' then
      if (rest.dropWhile isGap).isEmpty then some 0 else none
    else if c = '+' ∨ c = '-' then
      match digits? 2 rest with
      | some (hour, ':' :: rest) =>
        match digits? 2 rest with
        | some (minute, rest) =>
          if hour ≤ 14 ∧ minute < 60 ∧ (rest.dropWhile isGap).isEmpty then
            let m : Int := hour * 60 + minute
            some (if c = '-' then -m else m)
          else none
        | none => none
      | _ => none
    else none

/-- Milliseconds of a time of day and the minutes of its zone. -/
def clockTime? (cs : List Char) : Option (Nat × Int) :=
  match digits? 2 cs with
  | some (hour, ':' :: rest) =>
    match digits? 2 rest with
    | some (minute, rest) =>
      let (second, fraction, rest) :=
        match rest with
        | ':' :: r =>
          match digits? 2 r with
          | some (s, '.' :: r) =>
            if (r.head?.map isDigit).getD false then
              (s, r.takeWhile isDigit, r.dropWhile isDigit)
            else (s, [], '.' :: r)
          | some (s, r) => (s, [], r)
          | none => (60, [], r)
        | r => (0, [], r)
      if 24 < hour ∨ 60 ≤ minute ∨ 60 ≤ second then none
      else
        (zone? rest).map fun zone =>
          let ms := digitsValue ((fraction ++ ['0', '0', '0']).take 3)
          (((hour * 60 + minute) * 60 + second) * 1000 + ms, zone)
    | none => none
  | _ => none

/-- The milliseconds from the start of the day count, noon of 24 November -4713, to a time. -/
def julianMillis (date : Date) (millis : Nat) (zone : Int) : Int :=
  (2 * date.toDays + 4881175) * 43200000 + millis - zone * 60000

/-- The last millisecond of the year 9999. -/
def lastMillis : Int := 464269060799999

/-- The month of a time within the day count. -/
def monthOfMillis? (n : Int) : Option Nat :=
  if 0 ≤ n ∧ n ≤ lastMillis then
    some (Date.ofDays ((n + 43200000) / 86400000 - 2440588)).month
  else none

/-- The month of a day and a time in a zone; a day past the 28th is counted out on the calendar. -/
def monthAt? (date : Date) (millis : Nat) (zone : Int) : Option Nat :=
  if date.year < -4713 then none
  else
    (monthOfMillis? (julianMillis date millis zone)).map fun counted =>
      if date.day ≤ 28 ∧ zone = 0 then date.month else counted

/-- The month of a day text, with a time after it or without. -/
def monthOfDay? (cs : List Char) : Option (Option Nat) :=
  let (negative, body) := match cs with
    | '-' :: r => (true, r)
    | r => (false, r)
  match dateFields? body with
  | none => none
  | some (date, rest) =>
    let date := if negative then { date with year := -date.year } else date
    if date.month = 0 ∨ 12 < date.month ∨ date.day = 0 ∨ 31 < date.day then none
    else
      let rest := rest.dropWhile fun c => isGap c || c == 'T'
      match clockTime? rest with
      | some (millis, zone) => some (monthAt? date millis zone)
      | none => if rest.isEmpty then some (monthAt? date 0 0) else none

/-- A Julian day number in milliseconds, a half of one rounded up. -/
def millisOfDays (days : Binary64) : Int :=
  match (days.mul (.ofInt 86400000)).add (.finite (1 / 2)) with
  | .finite q => q.floor
  | _ => -1

/-- The month of a Julian day number within the calendar's range. -/
def monthOfJulianDay? (text : String) : Option Nat :=
  match Numeral.written? text with
  | none => none
  | some w =>
    match w.toStored with
    | .finite q =>
      if 0 ≤ q ∧ q < 10746969 / 2 then monthOfMillis? (millisOfDays (.finite q)) else none
    | _ => none

/-- The month that a stored date text means, if it means a date at all; a NUL ends the text. -/
def monthOf? (text : String) : Option Nat :=
  let text := Text.upToNul text
  let cs := text.toList
  match monthOfDay? cs with
  | some m => m
  | none =>
    match clockTime? cs with
    | some (millis, zone) => monthAt? ⟨2000, 1, 1⟩ millis zone
    | none => monthOfJulianDay? text

end FilmReport.Calendar
