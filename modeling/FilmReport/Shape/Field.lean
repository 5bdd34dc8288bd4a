import FilmReport.Shape.Checked
import FilmReport.Calendar.Date
import FilmReport.Json.Words

/-!
Checks of single fields. A field is `none` when it is missing. A kind that does not fit is the only
thing said about a value, except that a least length is asked of everything that has a length.
-/

set_option autoImplicit false
set_option relaxedAutoImplicit false

namespace FilmReport.Shape

variable {α : Type}

/-- The name of the kind of a field. -/
def kindOf : Option Json → String
  | none => "undefined"
  | some (.number .nan) => "NaN"
  | some v => v.kindName

/-- A field of another kind than the one expected. -/
def wrong (expected : String) (field : Option Json) : Problem :=
  let infinite := match field with
    | some (.number (.infinite _)) => true
    | _ => false
  .wrongKind expected (kindOf field) (infinite && expected == "number")

/-- Whether an object claims a length that is not at least `least`. -/
def claimsLess (least : Nat) (fields : Fields) : Bool :=
  match Fields.get? "length" fields with
  | some claimed => !Binary64.le (.ofInt least) (claimed.quantity?.getD .nan)
  | none => false

/-- The problem of a value that has a length and is too short; every length is at least 0. -/
def shortness (least : Nat) : Option Json → List Problem
  | some (.string s) => if s.length < least then [.tooShort .characters least] else []
  | some (.array items) => if items.length < least then [.tooShort .items least] else []
  | some (.object fields) =>
    if least ≠ 0 ∧ claimsLess least fields then [.tooShort .claimed least] else []
  | _ => []

/-- A text, with no least length for `least = 0`. -/
def text (least : Nat) (field : Option Json) : Checked String :=
  match field with
  | some (.string s) => .flawed (shortness least field) s
  | _ => ⟨(wrong "string" field :: shortness least field).map fun p => ⟨[], p⟩, none⟩

/-- A text that is an existing day. -/
def date (field : Option Json) : Checked String :=
  match field with
  | some (.string s) => .flawed (if Calendar.isDate s then [] else [.badDate]) s
  | _ => .stop (wrong "string" field)

/-- A text that is an existing day and a time in universal time. -/
def dateTime (field : Option Json) : Checked String :=
  match field with
  | some (.string s) => .flawed (if Calendar.isDateTime s then [] else [.badDateTime]) s
  | _ => .stop (wrong "string" field)

def flag (field : Option Json) : Checked Bool :=
  match field with
  | some (.bool b) => .valid b
  | _ => .stop (wrong "boolean" field)

/-- The bounds that a number must keep. -/
structure Range where
  least : Option Int
  most : Option Int

namespace Range

def any : Range := ⟨none, none⟩
def from_ (least : Int) : Range := ⟨some least, none⟩
def between (least most : Int) : Range := ⟨some least, some most⟩

/-- The bounds that a number breaks. -/
def broken (r : Range) (q : Rat) : List Problem :=
  (match r.least with
    | some least => if q < least then [.tooSmall least] else []
    | none => []) ++
  (match r.most with
    | some most => if (most : Rat) < q then [.tooGreat most] else []
    | none => [])

end Range

/-- A finite number within a range. -/
def number (range : Range) (field : Option Json) : Checked Rat :=
  match field with
  | some (.number (.finite q)) => .flawed (range.broken q) q
  | _ => .stop (wrong "number" field)

/-- The largest integer of which all below are exact numbers too. -/
def safeLimit : Int := 9007199254740991

/-- The problem of an integer outside the safe range. -/
def unsafeSize (n : Int) : List Problem :=
  if safeLimit < n then [.beyondSafe false] else if n < -safeLimit then [.beyondSafe true] else []

/-- An integer in the safe range and within a range. -/
def integer (range : Range) (field : Option Json) : Checked Int :=
  match field with
  | some (.number (.finite q)) =>
    if q.den = 1 then .flawed (unsafeSize q.num ++ range.broken q) q.num else .stop .fractional
  | _ => .stop (wrong "number" field)

/-- One of the words of a list. -/
def option (listed : List α) (name : α → String) (names : List String) (field : Option Json) :
    Checked α :=
  let found := match field with
    | some (.string s) => listed.find? fun a => name a = s
    | _ => none
  match found with
  | some a => .valid a
  | none => .stop (.badOption names)

/-- A field that may be `null` or missing. -/
def nullable (check : Option Json → Checked α) (field : Option Json) : Checked (Option α) :=
  match field with
  | none => .valid none
  | some .null => .valid none
  | some v => (check (some v)).map some

/-- A field that may be missing. -/
def optional (check : Option Json → Checked α) (field : Option Json) : Checked (Option α) :=
  match field with
  | none => .valid none
  | some v => (check (some v)).map some

/-- A list with at least `least` items, each of which is checked. -/
def list (least : Nat) (check : Option Json → Checked α) (field : Option Json) :
    Checked (List α) :=
  match field with
  | some (.array items) =>
    let checked := Checked.items (fun item => check (some item)) 0 items
    { checked with issues := checked.issues ++ (shortness least field).map fun p => ⟨[], p⟩ }
  | _ => ⟨(wrong "array" field :: shortness least field).map fun p => ⟨[], p⟩, none⟩

/-- A list, empty when it is missing. -/
def listOrEmpty (check : Option Json → Checked α) (field : Option Json) : Checked (List α) :=
  match field with
  | none => .valid []
  | some v => list 0 check (some v)

/-- A record, whose fields are checked by name. -/
def record (check : (String → Option Json) → Checked α) (field : Option Json) : Checked α :=
  match field with
  | some (.object fields) => check fun name => Fields.get? name fields
  | _ => .stop (wrong "object" field)

/-- A field of a record, checked under its name. -/
def at_ (name : String) (check : Option Json → Checked α) (fields : String → Option Json) :
    Checked α :=
  (check (fields name)).within (.field name)

/-- The name of a field that no record keeps. -/
def unkept : String := "__proto__"

/--
Whether an object is a record of its own: if it names its maker, the maker's model must be one that
others can be made from.
-/
def isRecord (fields : Fields) : Bool :=
  match Fields.get? "constructor" fields with
  | none => true
  | some maker => ((maker.get? "prototype").bind (Json.get? "isPrototypeOf")).isSome

/-- Fields of any names and values. -/
def anyFields (field : Option Json) : Checked Fields :=
  match field with
  | some (.object fields) =>
    if isRecord fields then .valid (fields.filter fun f => f.1 ≠ unkept)
    else .stop (wrong "record" field)
  | _ => .stop (wrong "record" field)

end FilmReport.Shape
