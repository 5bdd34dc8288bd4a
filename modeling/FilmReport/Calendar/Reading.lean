import FilmReport.Calendar.Instant
import FilmReport.Calendar.Token

/-!
Reading of instants. A text is first read in the formal notation: a year, a month and a day between
hyphens, then perhaps `T`, a time and a zone. A text that is not formal up to its time is read on
freely: numbers fill the time where colons ask for it and the day otherwise, words name months,
halves of the day and zones, and other words may stand only before the first number. Where no zone
is given the time is universal.
-/

set_option autoImplicit false
set_option relaxedAutoImplicit false

namespace FilmReport.Calendar

/-- The numbers that a day was given so far. -/
structure DayParts where
  numbers : List Int
  month : Option Nat
  /-- Whether the numbers are a year, a month and a day in this order, and the year is complete. -/
  isFormal : Bool

namespace DayParts

def empty : DayParts := ⟨[], none, false⟩

/-- The most numbers that a day has. -/
def size : Nat := 3

/-- The parts with one more number, unless they have all. -/
def add? (d : DayParts) (n : Int) : Option DayParts :=
  if d.numbers.length < size then some { d with numbers := d.numbers ++ [n] } else none

def isMonth (n : Int) : Bool :=
  1 ≤ n && n ≤ 12

def isDay (n : Int) : Bool :=
  1 ≤ n && n ≤ 31

/-- The year that a number stands for in free notation, where two digits are of this age. -/
def fullYear (n : Int) : Int :=
  if 0 ≤ n && n ≤ 49 then n + 2000 else if 50 ≤ n && n ≤ 99 then n + 1900 else n

/-- Year, month and day in the order that the numbers allow; a number left out is one. -/
def fields? (d : DayParts) : Option (Int × Int × Int) :=
  match d.numbers ++ List.replicate (size - d.numbers.length) 1, d.month with
  | [a, b, c], none =>
    if d.numbers.isEmpty then none
    else if d.isFormal then some (a, b, c)
    else if isDay a then some (fullYear c, a, b)
    else some (fullYear a, b, c)
  | [a, b, _], some month =>
    if d.numbers.isEmpty then none
    else if isDay a then some (fullYear b, month, a)
    else some (fullYear a, month, b)
  | _, _ => none

/-- The days since the start of 1970. -/
def days? (d : DayParts) : Option Int :=
  match d.fields? with
  | some (year, month, day) =>
    if isMonth month && isDay day then some (Date.mk year month.toNat day.toNat).toDays else none
  | none => none

end DayParts

/-- The numbers that a time was given so far: hour, minute, second and thousandth. -/
structure ClockParts where
  numbers : List Nat
  /-- The hours before the half of the day, if one was named. -/
  half : Option Nat

namespace ClockParts

def empty : ClockParts := ⟨[], none⟩

/-- The most numbers that a time has. -/
def size : Nat := 4

def isEmpty (c : ClockParts) : Bool :=
  c.numbers.isEmpty

/-- The parts with one more number, unless they have all. -/
def add? (c : ClockParts) (n : Nat) : Option ClockParts :=
  if c.numbers.length < size then some { c with numbers := c.numbers ++ [n] } else none

/-- Whether the next number is a minute, a second or a thousandth and `n` can be it. -/
def expects (c : ClockParts) (n : Nat) : Bool :=
  match c.numbers.length with
  | 1 => n < 60
  | 2 => n < 60
  | 3 => n < 1000
  | _ => false

/-- The numbers with zeros for those left out. -/
def filled (c : ClockParts) : List Nat :=
  c.numbers ++ List.replicate (size - c.numbers.length) 0

/-- The parts with a number after which there is none. -/
def close (c : ClockParts) (n : Nat) : ClockParts :=
  { c with numbers := { c with numbers := c.numbers ++ [n] }.filled }

/-- The milliseconds of the time; a day may end with its hour 24. -/
def millis? (c : ClockParts) : Option Nat :=
  match c.filled with
  | [hour, minute, second, thousandth] =>
    let hour? :=
      match c.half with
      | some hours => if hour ≤ 12 then some (hour % 12 + hours) else none
      | none => some hour
    hour?.bind fun hour =>
      let isWithin := hour < 24 && minute < 60 && second < 60 && thousandth < 1000
      let isEnd := hour = 24 && minute = 0 && second = 0 && thousandth = 0
      if isWithin || isEnd then
        some (((hour * 60 + minute) * 60 + second) * 1000 + thousandth)
      else none
  | _ => none

/-- The thousandths in a fraction of so many digits: the first three that count. -/
def thousandths (value length : Nat) : Nat :=
  if length ≤ 3 then value * Nat.pow 10 (3 - length)
  else value / Nat.pow 10 (min length Token.countedDigits - 3)

end ClockParts

/-- What is known of the zone of a time. -/
structure ZoneParts where
  /-- Whether the zone is west of the prime meridian. -/
  isWest : Option Bool
  hour : Option Nat
  minute : Option Nat

namespace ZoneParts

def empty : ZoneParts := ⟨none, none, none⟩

/-- The zone so many hours east. -/
def ofHours (hours : Int) : ZoneParts :=
  ⟨some (hours < 0), some hours.natAbs, some 0⟩

def isUniversal (z : ZoneParts) : Bool :=
  z.hour == some 0 && z.minute == some 0

/-- Whether the minutes are missing and `n` can be they. -/
def expects (z : ZoneParts) (n : Nat) : Bool :=
  z.hour.isSome && z.minute.isNone && n < 60

/-- Seconds are counted in words of this size, of which the upper half is none. -/
def wordSize : Nat := 4294967296

/-- The milliseconds by which the zone is ahead; without a sign there is no difference. -/
def millis? (z : ZoneParts) : Option Int :=
  match z.isWest with
  | none => some 0
  | some isWest =>
    let seconds := (z.hour.getD 0 * 3600 + z.minute.getD 0 * 60) % wordSize
    if wordSize / 2 ≤ seconds then none
    else some (if isWest then -(seconds * 1000 : Int) else seconds * 1000)

end ZoneParts

/-- What was read of an instant so far. -/
structure Reading where
  day : DayParts
  clock : ClockParts
  zone : ZoneParts
  hasNumber : Bool

namespace Reading

/-- What was read when only numbers of the day were. -/
def ofDay (day : DayParts) : Reading :=
  ⟨day, .empty, .empty, !day.numbers.isEmpty⟩

/-- The instant that was read, if it is one within the limits. -/
def instant? (r : Reading) : Option Instant := do
  let days ← r.day.days?
  let time ← r.clock.millis?
  let ahead ← r.zone.millis?
  Instant.within? (days * 86400000 + time - ahead)

/-! ### Formal notation -/

/-- How far the formal notation goes in a text. -/
inductive Formal where
  | whole (reading : Reading)
  /-- What was read of the day, and the tokens that are no more formal. -/
  | front (day : DayParts) (rest : List Token)
  | wrong

/-- The zone at the end of a formal time. -/
def formalZone? : List Token → Option ZoneParts
  | [] => some .empty
  | [token] => if token.isZ then some (.ofHours 0) else none
  | [sign, .number n 4] =>
    if sign.isSign && n / 100 < 24 && n % 100 < 60 then
      some ⟨some (sign = .symbol '-'), some (n / 100), some (n % 100)⟩
    else none
  | [sign, .number hour 2, .symbol ':', .number minute 2] =>
    if sign.isSign && hour < 24 && minute < 60 then
      some ⟨some (sign = .symbol '-'), some hour, some minute⟩
    else none
  | _ => none

/-- The rest of a formal time after its minute, with a zone at its end. -/
def formalSeconds? (hour minute : Nat) : List Token → Option (ClockParts × ZoneParts)
  | .symbol ':' :: .number second 2 :: .symbol '.' :: .number value length :: rest =>
    if second < 60 && (hour < 24 || second = 0 && value = 0) then
      (formalZone? rest).map fun zone =>
        (⟨[hour, minute, second, ClockParts.thousandths value length], none⟩, zone)
    else none
  | .symbol ':' :: .number second 2 :: rest =>
    if second < 60 && (hour < 24 || second = 0) then
      (formalZone? rest).map fun zone => (⟨[hour, minute, second], none⟩, zone)
    else none
  | rest => (formalZone? rest).map fun zone => (⟨[hour, minute], none⟩, zone)

/-- A formal time up to the end of a text. -/
def formalTime? : List Token → Option (ClockParts × ZoneParts)
  | .number hour 2 :: .symbol ':' :: .number minute 2 :: rest =>
    if hour ≤ 24 && minute < 60 && (hour < 24 || minute = 0) then
      formalSeconds? hour minute rest
    else none
  | _ => none

/-- A text after its formal day. -/
def formalEnd (day : DayParts) : List Token → Formal
  | [] => .whole ⟨{ day with isFormal := true }, .empty, .ofHours 0, true⟩
  | .word .timeMark _ :: rest =>
    match formalTime? rest with
    | some (clock, zone) => .whole ⟨{ day with isFormal := true }, clock, zone, true⟩
    | none => .wrong
  | rest => .front day rest

/-- Two digits after a hyphen as the next number of a formal day, then what `next` makes of them. -/
def formalPart (isPart : Int → Bool) (next : DayParts → List Token → Formal) (day : DayParts) :
    List Token → Formal
  | .symbol '-' :: .number n 2 :: rest =>
    match isPart n, day.add? n with
    | true, some day => next day rest
    | _, _ => .front day (.number n 2 :: rest)
  | .symbol '-' :: rest => .front day rest
  | rest => formalEnd day rest

/-- A text after its formal year. -/
def formalYear (year : Int) : List Token → Formal :=
  formalPart DayParts.isMonth (formalPart DayParts.isDay formalEnd) ⟨[year], none, false⟩

/-- A text in formal notation: a year of four digits, or of six after a sign, is first. -/
def formal : List Token → Formal
  | .number year 4 :: rest => formalYear year rest
  | .symbol '+' :: .number year 6 :: rest => formalYear year rest
  | .symbol '-' :: .number year 6 :: rest =>
    if year = 0 then .front .empty (.symbol '-' :: rest) else formalYear (-(year : Int)) rest
  | tokens => .front .empty tokens

/-! ### Free notation -/

/-- Whether a time that needs no more numbers can end before these tokens. -/
def endsTime : List Token → Bool
  | [] => true
  | token :: _ => token = .space || token.isZ || token.isSign

/-- A number that no mark tells to belong to a time. -/
def plainNumber (r : Reading) (n : Nat) (rest : List Token) : Option (Reading × List Token) :=
  if r.zone.expects n then some ({ r with zone := { r.zone with minute := some n } }, rest)
  else if r.clock.expects n then
    if endsTime rest then some ({ r with clock := r.clock.close n }, rest) else none
  else (r.day.add? n).map fun day => ({ r with day := day }, Token.skip '-' rest)

/-- A number and the tokens after it. -/
def number (r : Reading) (n : Nat) : List Token → Option (Reading × List Token)
  | .symbol ':' :: .symbol ':' :: rest =>
    if r.clock.isEmpty then some ({ r with clock := ⟨[n, 0], r.clock.half⟩ }, rest) else none
  | .symbol ':' :: rest =>
    (r.clock.add? n).map fun clock => ({ r with clock := clock }, Token.skip '.' rest)
  | .symbol '.' :: rest =>
    if r.clock.expects n then
      match r.clock.add? n, rest with
      | some clock, .number value length :: rest =>
        some ({ r with clock := clock.close (ClockParts.thousandths value length) }, rest)
      | _, _ => none
    else r.plainNumber n rest
  | rest => r.plainNumber n rest

/-- A word and the tokens after it; one that says nothing here may not touch a number. -/
def word (r : Reading) (w : Word) (rest : List Token) : Option (Reading × List Token) :=
  let idle : Option (Reading × List Token) :=
    if r.hasNumber then none
    else
      match rest with
      | .number _ _ :: _ => none
      | _ => some (r, rest)
  match w with
  | .half hours =>
    if r.clock.isEmpty then idle
    else some ({ r with clock := { r.clock with half := some hours } }, rest)
  | .month n => some ({ r with day := { r.day with month := some n } }, Token.skip '-' rest)
  | .zone hours => if r.hasNumber then some ({ r with zone := .ofHours hours }, rest) else idle
  | _ => idle

/-- The zone that a sign and a number of so many digits begin, before the given tokens. -/
def signedZone? (isWest : Bool) (n length : Nat) : List Token → Option ZoneParts
  | .symbol ':' :: _ => some ⟨some isWest, some n, none⟩
  | _ =>
    if length = 1 || length = 2 then some ⟨some isWest, some n, some 0⟩
    else if length = 3 || length = 4 then some ⟨some isWest, some (n / 100), some (n % 100)⟩
    else none

/-- A sign and the tokens after it; it begins a zone after a time or the name of universal time. -/
def sign (r : Reading) (isWest : Bool) (rest : List Token) : Option (Reading × List Token) :=
  if r.zone.isUniversal || !r.clock.isEmpty then
    let (n, length, rest) :=
      match rest with
      | .number n length :: rest => (n, length, rest)
      | rest => (0, 0, rest)
    (signedZone? isWest n length rest).map fun zone =>
      ({ r with zone := zone, hasNumber := true }, rest)
  else if r.hasNumber then none
  else some (r, rest)

/-- A token of free notation and the tokens after it. -/
def step (r : Reading) (token : Token) (rest : List Token) : Option (Reading × List Token) :=
  match token with
  | .number n _ => { r with hasNumber := true }.number n rest
  | .word w _ => r.word w rest
  | .symbol '+' => r.sign false rest
  | .symbol '-' => r.sign true rest
  | .symbol ')' => if r.hasNumber then none else some (r, rest)
  | _ => some (r, rest)

/-- Reads tokens in free notation; a step takes at least one, so that their number is enough. -/
def free : Nat → Reading → List Token → Option Reading
  | _, r, [] => some r
  | 0, r, _ => some r
  | fuel + 1, r, token :: rest => (r.step token rest).bind fun (r, rest) => free fuel r rest

/-- What tokens say. -/
def ofTokens? (tokens : List Token) : Option Reading :=
  match formal tokens with
  | .whole r => some r
  | .front day rest => free rest.length (ofDay day) rest
  | .wrong => none

end Reading

/-- The instant that a text writes, if it writes one within the limits. -/
def Instant.parse? (text : String) : Option Instant :=
  (Reading.ofTokens? (Token.ofText text)).bind Reading.instant?

end FilmReport.Calendar
