import FilmReport.Decimal.Basic
import FilmReport.Text.Blank
import FilmReport.Text.Order

/-!
Tokens of written dates: numbers, marks, words, white space and everything else. What stands in
brackets is one token without a meaning; a NUL ends the text.
-/

set_option autoImplicit false
set_option relaxedAutoImplicit false

namespace FilmReport.Calendar

/-- What a word in a date says. -/
inductive Word where
  | month (number : Nat)
  /-- A half of the day, by the hours before it. -/
  | half (hours : Nat)
  /-- A time zone, by its hours east of the prime meridian. -/
  | zone (hours : Int)
  /-- The mark between a day and a time. -/
  | timeMark
  | unknown
deriving DecidableEq, Repr

namespace Word

/-- The words that say something; those of months may go on. -/
def listed : List (String × Word) :=
  [("jan", month 1), ("feb", month 2), ("mar", month 3), ("apr", month 4), ("may", month 5),
   ("jun", month 6), ("jul", month 7), ("aug", month 8), ("sep", month 9), ("oct", month 10),
   ("nov", month 11), ("dec", month 12), ("am", half 0), ("pm", half 12), ("ut", zone 0),
   ("utc", zone 0), ("z", zone 0), ("gmt", zone 0), ("cdt", zone (-5)), ("cst", zone (-6)),
   ("edt", zone (-4)), ("est", zone (-5)), ("mdt", zone (-6)), ("mst", zone (-7)),
   ("pdt", zone (-7)), ("pst", zone (-8)), ("t", timeMark)]

/-- The number of letters by which a word is told from others. -/
def tellingLetters : Nat := 3

def ofLetters (letters : List Char) : Word :=
  let key := String.ofList ((letters.take tellingLetters).map Char.toLower)
  match listed.find? fun entry => entry.1 = key with
  | some (_, month n) => month n
  | some (_, word) => if letters.length ≤ tellingLetters then word else unknown
  | none => unknown

end Word

/-- A part of a written date. -/
inductive Token where
  /-- A number and how many digits it has. -/
  | number (value length : Nat)
  | symbol (mark : Char)
  /-- A word and how many letters it has. -/
  | word (word : Word) (length : Nat)
  | space
  | other
deriving DecidableEq, Repr

namespace Token

/-- How many digits of a number count, zeros at its front apart. -/
def countedDigits : Nat := 9

/-- A run of digits as a number. -/
def ofDigits (digits : List Char) : Token :=
  number (digitsValue ((digits.dropWhile (· == '0')).take countedDigits)) digits.length

/-- The marks that have a meaning of their own. -/
def marks : List Char := [':', '-', '+', '.', ')']

/-- Whether a character can be in a word: everything from the capital letters on. -/
def isLetter (c : Char) : Bool :=
  'A' ≤ c && !Text.isSpace c

/-- What follows brackets, of which `depth` are open; without an end they go on to the last. -/
def afterBrackets (depth : Nat) : List Char → List Char
  | [] => []
  | c :: cs =>
    let depth := if c = '(' then depth + 1 else if c = ')' then depth - 1 else depth
    if depth = 0 then cs else afterBrackets depth cs

/-- The tokens of a list of at most so many characters. -/
def scan : Nat → List Char → List Token
  | 0, _ => []
  | _, [] => []
  | fuel + 1, c :: cs =>
    if isDigit c then
      ofDigits (c :: cs.takeWhile isDigit) :: scan fuel (cs.dropWhile isDigit)
    else if marks.contains c then symbol c :: scan fuel cs
    else if isLetter c then
      let letters := c :: cs.takeWhile isLetter
      word (Word.ofLetters letters) (Text.units (String.ofList letters)).length ::
        scan fuel (cs.dropWhile isLetter)
    else if Text.isSpace c then space :: scan fuel cs
    else other :: scan fuel (if c = '(' then afterBrackets 1 cs else cs)

/-- The tokens of a text. -/
def ofText (text : String) : List Token :=
  let cs := (Text.upToNul text).toList
  scan cs.length cs

/-- Whether a token is a plus or a minus. -/
def isSign : Token → Bool
  | symbol c => c = '+' || c = '-'
  | _ => false

/-- Whether a token is the letter of universal time. -/
def isZ : Token → Bool
  | word (.zone _) 1 => true
  | _ => false

/-- The tokens after a mark, if it comes first. -/
def skip (mark : Char) : List Token → List Token
  | symbol c :: rest => if c = mark then rest else symbol c :: rest
  | tokens => tokens

end Token
end FilmReport.Calendar
