/-!
Orders and sizes of texts. Stored texts are compared by their UTF-8 bytes, which is the order of
their code points; date texts of parameters and file names by their UTF-16 units.
-/

set_option autoImplicit false
set_option relaxedAutoImplicit false

namespace FilmReport.Text

/-- The UTF-16 units of a character: itself, or a surrogate pair. -/
def unitsOfChar (c : Char) : List Nat :=
  let n := c.toNat
  if n < 0x10000 then [n] else [0xD800 + (n - 0x10000) / 0x400, 0xDC00 + (n - 0x10000) % 0x400]

/-- The UTF-16 units of a text. -/
def units (s : String) : List Nat :=
  s.toList.flatMap unitsOfChar

/-- Whether the first text comes before the second in the order of UTF-16 units. -/
def unitsBefore (s t : String) : Bool :=
  decide (units s < units t)

/-- The order of code points, which is that of the UTF-8 bytes. -/
def compareBytes (s t : String) : Ordering :=
  if s < t then .lt else if s = t then .eq else .gt

/-- The number of bytes of a text in UTF-8. -/
def byteSize (s : String) : Nat :=
  s.utf8ByteSize

end FilmReport.Text
