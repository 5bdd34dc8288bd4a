import FilmReport.Json.Basic
import FilmReport.Decimal.Text

/-!
Issues: what a check of a value found and where. The wording of every issue is `Problem.message`;
`Issue.toJson` is the short form with a joined path, `Issue.details` the form with all that the
check knew.
-/

set_option autoImplicit false
set_option relaxedAutoImplicit false

namespace FilmReport.Shape

/-- One step into a value. -/
inductive Step where
  | field (name : String)
  | index (n : Nat)
deriving DecidableEq, Repr

namespace Step

def text : Step → String
  | field name => name
  | index n => Nat.repr n

def toJson : Step → Json
  | field name => .string name
  | index n => .ofNat n

end Step

/-- What a least length is asked of: a list, a text, or an object with a field for its length. -/
inductive Measured where
  | items
  | characters
  | claimed
deriving DecidableEq, Repr

/-- The name of what is measured. -/
def Measured.origin : Measured → String
  | items => "array"
  | characters => "string"
  | claimed => "unknown"

/-- What is wrong with a value. -/
inductive Problem where
  /-- A value of another kind; `infinite` marks a number that is not finite. -/
  | wrongKind (expected received : String) (infinite : Bool)
  | fractional
  | beyondSafe (negative : Bool)
  | tooShort (what : Measured) (least : Nat)
  | tooSmall (least : Int)
  | notAbove (bound : Int)
  | tooGreat (most : Int)
  | badDate
  | badDateTime
  | badOption (options : List String)
  /-- A value that fits none of several kinds, with what each of them said. -/
  | noKind (problems : List Problem)
  | custom (message : String)
deriving Repr

namespace Problem

def message : Problem → String
  | wrongKind expected received _ =>
    "Invalid input: expected " ++ expected ++ ", received " ++ received
  | fractional => "Invalid input: expected int, received number"
  | beyondSafe true => "Too small: expected int to be >-9007199254740991"
  | beyondSafe false => "Too big: expected int to be <9007199254740991"
  | tooShort .items least =>
    "Too small: expected array to have >=" ++ Nat.repr least ++ " items"
  | tooShort .characters least =>
    "Too small: expected string to have >=" ++ Nat.repr least ++ " characters"
  | tooShort .claimed least => "Too small: expected unknown to be >=" ++ Nat.repr least
  | tooSmall least => "Too small: expected number to be >=" ++ Int.repr least
  | notAbove bound => "Too small: expected number to be >" ++ Int.repr bound
  | tooGreat most => "Too big: expected number to be <=" ++ Int.repr most
  | badDate => "Invalid ISO date"
  | badDateTime => "Invalid ISO datetime"
  | badOption options =>
    "Invalid option: expected one of " ++ "|".intercalate (options.map fun o => "\"" ++ o ++ "\"")
  | noKind _ => "Invalid input"
  | custom message => message

/-- The pattern of an existing day, as the details of a bad date give it. -/
def datePattern : String :=
  "(?:(?:\\d\\d[2468][048]|\\d\\d[13579][26]|\\d\\d0[48]|[02468][048]00|[13579][26]00)-02-29|" ++
  "\\d\x7b4\x7d-(?:(?:0[13578]|1[02])-(?:0[1-9]|[12]\\d|3[01])|" ++
  "(?:0[469]|11)-(?:0[1-9]|[12]\\d|30)|(?:02)-(?:0[1-9]|1\\d|2[0-8])))"

/-- The pattern of a time of day in universal time. -/
def timePattern : String :=
  "(?:(?:[01]\\d|2[0-3]):[0-5]\\d(?::[0-5]\\d(?:\\.\\d+)?)?(?:Z))"

/-- What the check knew beside the place and the message. -/
def facts : Problem → Fields
  | wrongKind expected _ false =>
    [("expected", .string expected), ("code", .string "invalid_type")]
  | wrongKind expected _ true =>
    [("expected", .string expected), ("code", .string "invalid_type"),
     ("received", .string "Infinity")]
  | fractional =>
    [("expected", .string "int"), ("format", .string "safeint"), ("code", .string "invalid_type")]
  | beyondSafe negative =>
    [("code", .string (if negative then "too_small" else "too_big")),
     (if negative then "minimum" else "maximum",
      .ofInt (if negative then -9007199254740991 else 9007199254740991)),
     ("note", .string "Integers must be within the safe integer range."),
     ("origin", .string "int")]
  | tooShort what least =>
    [("origin", .string what.origin),
     ("code", .string "too_small"), ("minimum", .ofNat least), ("inclusive", .bool true)]
  | tooSmall least =>
    [("origin", .string "number"), ("code", .string "too_small"), ("minimum", .ofInt least),
     ("inclusive", .bool true)]
  | notAbove bound =>
    [("origin", .string "number"), ("code", .string "too_small"), ("minimum", .ofInt bound),
     ("inclusive", .bool false)]
  | tooGreat most =>
    [("origin", .string "number"), ("code", .string "too_big"), ("maximum", .ofInt most),
     ("inclusive", .bool true)]
  | badDate =>
    [("origin", .string "string"), ("code", .string "invalid_format"), ("format", .string "date"),
     ("pattern", .string ("/^" ++ datePattern ++ "$/"))]
  | badDateTime =>
    [("origin", .string "string"), ("code", .string "invalid_format"),
     ("format", .string "datetime"),
     ("pattern", .string ("/^" ++ datePattern ++ "T" ++ timePattern ++ "$/"))]
  | badOption options => [("code", .string "invalid_value"), ("values", .strings options)]
  | noKind _ => [("code", .string "invalid_union")]
  | custom _ => [("code", .string "custom")]

/-- All that is known of a problem at a place; the alternatives of a union stand at its root. -/
def details (path : List Step) (p : Problem) : Json :=
  let place := [("path", Json.array (path.map Step.toJson)), ("message", .string p.message)]
  match p with
  | noKind problems =>
    .object (p.facts ++
      [("errors", .array (problems.map fun q =>
        .array [.object (q.facts ++ [("path", .array []), ("message", .string q.message)])]))] ++
      place)
  | _ => .object (p.facts ++ place)

end Problem

/-- A problem and the steps to the value that has it. -/
structure Issue where
  path : List Step
  problem : Problem
deriving Repr

namespace Issue

/-- The issue seen from one step further out. -/
def within (step : Step) (issue : Issue) : Issue :=
  { issue with path := step :: issue.path }

def pathText (issue : Issue) : String :=
  ".".intercalate (issue.path.map Step.text)

/-- The place, joined by points, and the message. -/
def toJson (issue : Issue) : Json :=
  .object [("path", .string issue.pathText), ("message", .string issue.problem.message)]

/-- The issue with all that the check knew. -/
def details (issue : Issue) : Json :=
  issue.problem.details issue.path

end Issue
end FilmReport.Shape
