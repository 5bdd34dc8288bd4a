import FilmReport.Text.Blank

/-!
Patterns with a wildcard. `%` stands for any run of characters, and ASCII letters match whatever
their case.
-/

set_option autoImplicit false
set_option relaxedAutoImplicit false

namespace FilmReport.Text

/-- Whether two characters are equal up to the case of ASCII letters. -/
def sameLetter (c d : Char) : Bool :=
  c.toLower == d.toLower

/-- Whether a list of characters has the form of the pattern. -/
def likeList : List Char → List Char → Bool
  | [], cs => cs.isEmpty
  | '%' :: p, [] => likeList p []
  | '%' :: p, c :: cs => likeList p (c :: cs) || likeList ('%' :: p) cs
  | _ :: _, [] => false
  | x :: p, c :: cs => sameLetter x c && likeList p cs
termination_by p cs => p.length + cs.length

/-- Whether a text, as far as its first NUL, has the form of the pattern. -/
def like (pattern text : String) : Bool :=
  likeList pattern.toList (upToNul text).toList

end FilmReport.Text
