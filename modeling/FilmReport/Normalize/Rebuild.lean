import FilmReport.Normalize.Split
import FilmReport.Normalize.Coerce
import FilmReport.Store.Membership

/-!
Rebuilding of memberships. The split fields of all movies are first staged, then published in place
of what was published before; each of the two steps is done whole or not at all.
-/

set_option autoImplicit false
set_option relaxedAutoImplicit false

namespace FilmReport.Normalize

open Shape

/-- What a rebuild did. -/
structure Rebuild where
  kind : MembershipKind
  sourceMovies : Nat
  insertedRows : Nat
  /-- Movies of whose field the limit cut something off. -/
  truncatedMovies : Nat
  blankTokens : Nat
deriving DecidableEq, Repr

def Rebuild.toJson (r : Rebuild) : Json :=
  .object
    [("kind", .string r.kind.text), ("sourceMovies", .ofNat r.sourceMovies),
     ("insertedRows", .ofNat r.insertedRows), ("truncatedMovies", .ofNat r.truncatedMovies),
     ("blankTokens", .ofNat r.blankTokens)]

/-- The memberships of all movies. -/
def memberships (sources : List Source) (options : SplitOptions) : List Membership :=
  sources.flatMap fun source => split source.movieId source.raw options

/-- Whether the limit cuts something off a field. -/
def isTruncated (options : SplitOptions) (source : Source) : Bool :=
  options.tokenLimit.lt (.finite (segmentCount source.raw))

/-- What staging the fields of all movies does. -/
def Rebuild.ofSources (kind : MembershipKind) (sources : List Source) (options : SplitOptions) :
    Rebuild :=
  let staged := memberships sources options
  ⟨kind, sources.length, staged.length, sources.countP (isTruncated options),
   staged.countP fun m => m.value == ""⟩

/-- A membership as a row. -/
def Membership.row (m : Membership) : Store.MembershipRow :=
  ⟨m.movieId, .int m.position, m.value⟩

/-- Stages memberships. -/
def stageAll (kind : MembershipKind) (staged : List Membership) (s : Store) : Effect Unit :=
  .storing (staged.foldlM (fun acc m => acc.stageRow m.row kind) s) true

/-- The fault of a rebuild of what was asked for in which something was raised. -/
def askedFault (asked : Option Json) (stage cause : String) : Fault :=
  .ofCause .membershipRebuildFailed "Membership table rebuild failed."
    (Fields.ofOption "kind" asked ++ [("stage", .string stage)]) cause

/-- The fault of a rebuild in which something was raised. -/
def rebuildFault (kind : MembershipKind) : String → String → Fault :=
  askedFault (some (.string kind.text))

/-- The fault of a movie row without the shape of a source. -/
def shapelessRebuild (kind : MembershipKind) (issues : List Issue) : Fault :=
  .create .membershipRebuildFailed "Movie row has an unexpected shape."
    [("kind", .string kind.text), ("stage", .string "staging"),
     ("issues", .array (issues.map Issue.details))]

/-- Stages the split fields of all movies in place of what was staged. -/
def stage (kind : MembershipKind) (options : SplitOptions) : Act Rebuild :=
  Act.inTransaction ("normalizer.membership." ++ kind.text ++ ".stage") <|
    Act.reporting (rebuildFault kind "staging") do
      let rows ← Act.look fun s => s.rows? .movie
      let _ ← Act.change fun s => s.clear kind.staging
      match Source.read "raw" kind.source (byId rows) with
      | .error issues => Act.report (shapelessRebuild kind issues)
      | .ok sources => do
        let staged := memberships sources options
        if staged.isEmpty then pure () else Act.change (stageAll kind staged)
        pure (Rebuild.ofSources kind sources options)

/-- Publishes what is staged in place of what was published; answers the number of rows. -/
def publish (kind : MembershipKind) : Act Nat :=
  Act.inTransaction ("normalizer.membership." ++ kind.text ++ ".publish") <|
    Act.reporting (rebuildFault kind "publish") do
      let _ ← Act.change fun s => s.clear kind.published
      let n ← Act.change fun s => s.publishStaged kind
      let _ ← Act.change fun s => s.clear kind.staging
      pure n

/-- Stages and publishes with checked options. -/
def rebuildWith (logger : Journal.Logger) (kind : MembershipKind) (options : SplitOptions) :
    Act Rebuild := do
  let logger := logger.withContext [("stage", .string "membership"), ("kind", .string kind.text)]
  let staged ← stage kind options
  let rows ← publish kind
  Act.log logger .info "membership table rebuilt"
    [("table", .string kind.published.name), ("rows", .ofNat rows),
     ("truncatedMovies", .ofNat staged.truncatedMovies),
     ("blankTokens", .ofNat staged.blankTokens)]
  pure { staged with insertedRows := rows }

/-- Stages what a value asks for. -/
def stageAsked (asked : Option Json) (options : SplitOptions) : Act Rebuild :=
  match MembershipKind.Asked.of asked with
  | .kind kind => stage kind options
  | .stray =>
    lost do
      Act.peek fun s => (s.rows? .movie).map fun _ => ()
      Act.raise (.noSuchColumn "undefined")
  | .nothing => lost (throw (.raised (.noField "undefined" "sourceColumn")))
where
  lost (act : Act Rebuild) : Act Rebuild :=
    Act.inTransaction "normalizer.membership.stage" (act.reporting (askedFault asked "staging"))

/-- Publishes what a value asks for; answers the number of rows. -/
def publishAsked (asked : Option Json) : Act Nat :=
  match MembershipKind.Asked.of asked with
  | .kind kind => publish kind
  | .stray => lost (Act.peek fun _ => .error (.noSuchTable "undefined"))
  | .nothing => lost (throw (.raised (.noField "undefined" "table")))
where
  lost (act : Act Nat) : Act Nat :=
    Act.inTransaction "normalizer.membership.publish" (act.reporting (askedFault asked "publish"))

/-- Stages and publishes what a value asks for, with the options that the given fields ask for. -/
def rebuild (logger : Journal.Logger) (asked : Option Json) (given : Fields) : Act Rebuild := do
  let options ← Act.ofExcept (SplitOptions.resolve given)
  match MembershipKind.Asked.of asked with
  | .kind kind => rebuildWith logger kind options
  | _ => stageAsked asked options

end FilmReport.Normalize
