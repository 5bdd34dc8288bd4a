import FilmReport.Json.Words
import FilmReport.Normalize.Missing
import FilmReport.Session.Transaction
import FilmReport.Store.Write

/-!
Standardization of missing values. A rule names a column; where the column is missing, or blank if
the rule is for texts, the sentinel of the rule is written. Everything else stays.
-/

set_option autoImplicit false
set_option relaxedAutoImplicit false

namespace FilmReport.Normalize

/-- A column whose missing values get a sentinel. -/
structure Rule where
  table : String
  column : String
  isText : Bool
deriving DecidableEq, Repr

namespace Rule

def name (r : Rule) : String :=
  r.table ++ "." ++ r.column

def sentinel (r : Rule) : Cell :=
  if r.isText then .text missingWord else .real (.ofInt missingNumber)

def toJson (r : Rule) : Json :=
  .object
    [("table", .string r.table), ("column", .string r.column),
     ("kind", .string (if r.isText then "text" else "numeric"))]

def standard : List Rule :=
  [⟨"movie", "country", true⟩, ⟨"movie", "languages", true⟩,
   ⟨"movie", "production_company", true⟩, ⟨"movie", "worldwide_gross_income", true⟩,
   ⟨"movie", "worldwide_gross_num", false⟩, ⟨"ratings", "avg_rating", false⟩,
   ⟨"ratings", "total_votes", false⟩, ⟨"ratings", "median_rating", false⟩]

/-- The words of a part of a rule that is given as a value; one that is missing has its own. -/
def part (given : Json) (name : String) : Except Cause String :=
  match given.get? name with
  | none => .ok "undefined"
  | some value =>
    match value.words? with
    | some text => .ok text
    | none => .error .noWords

/-- The rule that a value gives. -/
def read (given : Json) : Except Cause Rule :=
  match given with
  | .null => .error (.noField "null" "table")
  | _ => do
    let table ← part given "table"
    let column ← part given "column"
    let isText :=
      match given.get? "kind" with
      | some (.string kind) => kind = "text"
      | _ => false
    pure ⟨table, column, isText⟩

/-- The rules that a value gives; a text gives one for each of its characters. -/
def readAll (given : Json) : Except Cause (List (Except Cause Rule)) :=
  match given with
  | .array rules => .ok (rules.map read)
  | .string text => .ok (text.toList.map fun c => read (.string (String.singleton c)))
  | _ => .error (.other "rules is not iterable")

/-- Whether a cell is missing, or a blank text where the rule is for texts. -/
def selects (r : Rule) : Cell → Bool
  | .null => true
  | .text s => r.isText && Text.trimBlank s == ""
  | _ => false

/-- The rows of a table that the rule selects. -/
def rows (r : Rule) (t : Table) : Store.Selection t := fun s => do
  let column ← s.column? t r.column
  pure fun row => r.selects (column.get row)

/-- Writes the sentinel where the rule selects; answers in how many rows. -/
def apply (r : Rule) (s : Store) : Effect Nat :=
  match Store.named? .notModifiable r.table with
  | .ok t => s.update t r.column r.sentinel (r.rows t)
  | .error e => .failed e false

end Rule

/-- The fault of a rule whose update failed. -/
def standardizeFault (field cause : String) : Fault :=
  .ofCause .standardizationFailed "Missing value standardization failed."
    [("field", .string field)] cause

/-- The value of an outcome; its cause is raised. -/
def raising {α : Type} : Except Cause α → Act α
  | .ok a => pure a
  | .error cause => throw (.raised cause)

/-- Applies rules one after the other; answers the number of rows under the name of each. -/
def applyRules (counts : Fields) : List (Except Cause Rule) → Act Fields
  | [] => pure counts
  | rule :: rest => do
    let r ← raising rule
    let n ← (Act.change r.apply).reporting (standardizeFault r.name)
    applyRules (counts.put r.name (.ofNat n)) rest

/-- Writes sentinels by the rules that are given, or by the standard ones if none are. -/
def standardizeBy (logger : Journal.Logger) (given : Option Json) : Act Fields := do
  let logger := logger.withContext [("stage", .string "standardization")]
  let rules :=
    match given with
    | none | some .null => .ok (Rule.standard.map .ok)
    | some value => Rule.readAll value
  let counts ← Act.inTransaction "normalizer.standardize" do
    applyRules [] (← raising rules)
  Act.log logger .info "missing values standardized" [("updated", .object counts)]
  pure counts

/-- Writes sentinels by the standard rules. -/
def standardize (logger : Journal.Logger) : Act Fields :=
  standardizeBy logger none

end FilmReport.Normalize
