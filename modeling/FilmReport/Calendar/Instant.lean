import FilmReport.Calendar.Date

/-!
Instants, counted in milliseconds from the start of 1970 in universal time. They are written with
the day, the time of day to the millisecond and `Z`.
-/

set_option autoImplicit false
set_option relaxedAutoImplicit false

namespace FilmReport.Calendar

/-- Milliseconds since the start of 1970. -/
structure Instant where
  millis : Int
deriving DecidableEq, Repr

namespace Instant

/-- The furthest instant on either side. -/
def limit : Int := 8640000000000000

/-- A number in decimal digits, of which there are at least so many. -/
def padded (width n : Nat) : String :=
  let s := Nat.repr n
  String.ofList (List.replicate (width - s.length) '0') ++ s

/-- A year in four digits, or in six with a sign when four do not hold it. -/
def yearText (year : Int) : String :=
  if 0 ≤ year ∧ year ≤ 9999 then padded 4 year.toNat
  else (if year < 0 then "-" else "+") ++ padded 6 year.natAbs

def toText (t : Instant) : String :=
  let date := Date.ofDays (t.millis / 86400000)
  let time := (t.millis % 86400000).toNat
  yearText date.year ++ "-" ++ padded 2 date.month ++ "-" ++ padded 2 date.day ++ "T" ++
    padded 2 (time / 3600000) ++ ":" ++ padded 2 (time / 60000 % 60) ++ ":" ++
    padded 2 (time / 1000 % 60) ++ "." ++ padded 3 (time % 1000) ++ "Z"

/-- The instant of so many milliseconds, if it is within the limits. -/
def within? (millis : Int) : Option Instant :=
  if -limit ≤ millis ∧ millis ≤ limit then some ⟨millis⟩ else none

end Instant
end FilmReport.Calendar
