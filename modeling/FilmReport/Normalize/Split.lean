import FilmReport.Normalize.Missing
import FilmReport.Shape.Field
import FilmReport.Fault.Basic
import FilmReport.Text.Pieces

/-!
Splitting of comma-separated fields into memberships. A missing field has none; of all others the
first tokens up to a limit are kept, trimmed and numbered from 1.
-/

set_option autoImplicit false
set_option relaxedAutoImplicit false

namespace FilmReport.Normalize

open Shape

/-- How many tokens of a field are kept, and whether empty ones are. -/
structure SplitOptions where
  /-- A number of tokens; what is no number keeps none. -/
  tokenLimit : Binary64
  emitBlank : Bool
deriving DecidableEq, Repr

namespace SplitOptions

def standard : SplitOptions := ⟨.finite 3, true⟩

def fields (o : SplitOptions) : Fields :=
  [("tokenLimit", .number o.tokenLimit), ("emitBlankTokens", .bool o.emitBlank)]

/-- The items of a list that the limit lets pass, a fraction of one cut off. -/
def keep {α : Type} (o : SplitOptions) (items : List α) : List α :=
  match o.tokenLimit with
  | .finite q => items.take q.floor.toNat
  | .infinite false => items
  | _ => []

def check : Option Json → Checked SplitOptions :=
  record fun r =>
    (fun (n : Int) blank => SplitOptions.mk (.finite n) blank)
      <$> at_ "tokenLimit" (integer (.between 1 100)) r <*> at_ "emitBlankTokens" flag r

/-- The options that the given fields ask for; what they leave out is standard. -/
def resolve (given : Fields) : Except Fault SplitOptions :=
  match (check (some (.object (standard.fields.merge given)))).toExcept with
  | .ok o => .ok o
  | .error issues =>
    .error <| .create .optionsInvalid "Membership split options are invalid."
      [("issues", .array (issues.map Issue.toJson))]

end SplitOptions

/-- A token of a field of a movie and its place, counted from 1. -/
structure Membership where
  movieId : String
  position : Nat
  value : String
deriving DecidableEq, Repr

def Membership.fields (m : Membership) : Fields :=
  [("movieId", .string m.movieId), ("position", .ofNat m.position), ("value", .string m.value)]

/-- The texts between the commas of a field. -/
def segments (raw : String) : List String :=
  Text.splitAt ',' raw

/-- The tokens of a field that the options keep. -/
def tokens (raw : String) (options : SplitOptions) : List String :=
  let trimmed := (options.keep (segments raw)).map Text.trimBlank
  if options.emitBlank then trimmed else trimmed.filter fun token => token ≠ ""

/-- Numbers tokens from `n` on. -/
def numbered (movieId : String) : Nat → List String → List Membership
  | _, [] => []
  | n, value :: rest => ⟨movieId, n, value⟩ :: numbered movieId (n + 1) rest

theorem map_value_numbered (movieId : String) (n : Nat) (values : List String) :
    (numbered movieId n values).map (·.value) = values := by
  induction values generalizing n with
  | nil => rfl
  | cons value rest ih => rw [numbered, List.map_cons, ih]

/-- Tokens are numbered without gaps. -/
theorem map_position_numbered (movieId : String) (n : Nat) (values : List String) :
    (numbered movieId n values).map (·.position) = List.range' n values.length := by
  induction values generalizing n with
  | nil => rfl
  | cons value rest ih => rw [numbered, List.map_cons, ih, List.length_cons, List.range'_succ]

theorem movieId_of_mem_numbered {movieId : String} {n : Nat} {values : List String}
    {m : Membership} (h : m ∈ numbered movieId n values) : m.movieId = movieId := by
  induction values generalizing n with
  | nil => exact absurd h List.not_mem_nil
  | cons value rest ih =>
    rw [numbered] at h
    rcases List.mem_cons.1 h with rfl | hrest
    · rfl
    · exact ih hrest

/-- The memberships of a movie in a field. -/
def split (movieId : String) (raw : Option String) (options : SplitOptions) : List Membership :=
  match raw with
  | none => []
  | some text => if isMissing raw then [] else numbered movieId 1 (tokens text options)

/-- The number of texts between the commas of a field; a missing field has none. -/
def segmentCount (raw : Option String) : Nat :=
  match raw with
  | none => 0
  | some text => if isMissing raw then 0 else (segments text).length

end FilmReport.Normalize
