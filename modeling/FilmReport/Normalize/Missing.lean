import FilmReport.Text.Blank

/-!
Missing values. A text is missing when nothing is there, when it is blank, or when it is the word
that stands for missing texts.
-/

set_option autoImplicit false
set_option relaxedAutoImplicit false

namespace FilmReport.Normalize

/-- The word written for a missing text. -/
def missingWord : String := "Unknown"

/-- The number written for a missing number. -/
def missingNumber : Int := 0

/-- Whether a text is missing. -/
def isMissing : Option String → Bool
  | none => true
  | some raw => Text.trimBlank raw == "" || Text.trimBlank raw == missingWord

end FilmReport.Normalize
