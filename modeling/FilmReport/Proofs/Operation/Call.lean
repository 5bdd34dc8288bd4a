import FilmReport.Proofs.Operation.Orderly
import FilmReport.Proofs.Normalize.Numbers

/-!
The operations that are done whole or not at all, and calls within a transaction. Whatever an
operation is given and however far it comes, if it fails the data are what they were before,
uncommitted changes of a transaction around it included, and that transaction goes on. Whatever
becomes of a call, it goes on where it began, and it does the same in all worlds that look alike;
each call has a clock of its own.
-/

set_option autoImplicit false
set_option relaxedAutoImplicit false

namespace FilmReport

section Whole

open Dataset Normalize

/-- An operation that is done whole or not at all, with what it is given. -/
inductive Operation where
  | write (kind : RowKind) (given : Option Json)
  | seed (dataset : Dataset)
  | coerce (logger : Journal.Logger)
  | stage (asked : Option Json) (options : SplitOptions)
  | publish (asked : Option Json)
  /-- Sentinels are written by the rules that are given, or by the standard ones. -/
  | standardize (logger : Journal.Logger) (rules : Option Json)

namespace Operation

abbrev Value : Operation → Type
  | write _ _ => Unit
  | seed _ => Fields
  | coerce _ => Coercion
  | stage _ _ => Rebuild
  | publish _ => Nat
  | standardize _ _ => Fields

def act : (op : Operation) → Act op.Value
  | write kind given => writeAll kind given
  | seed dataset => Dataset.seed dataset
  | coerce logger => Normalize.coerce logger
  | stage asked options => stageAsked asked options
  | publish asked => publishAsked asked
  | standardize logger rules => standardizeBy logger rules

theorem whole (op : Operation) : op.act.Whole := by
  cases op with
  | write kind given => exact whole_writeAll kind given
  | seed dataset => exact whole_seed dataset
  | coerce logger => exact whole_coerce logger
  | stage asked options => exact whole_stageAsked asked options
  | publish asked => exact whole_publishAsked asked
  | standardize logger rules => exact whole_standardizeBy logger rules

/-- An operation that fails leaves every table as it was, and the transaction around it open. -/
theorem data_of_on_error (op : Operation) {w w' : World} {e : Failure}
    (h : op.act.on w = (.error e, w')) : w'.data = w.data ∧ w'.savepoints = w.savepoints := by
  refine ⟨op.whole.undone h, ?_⟩
  have hcontinues := op.whole.orderly.continues (w := w) trivial
  rw [h] at hcontinues
  exact hcontinues.savepoints

def oneMovie : Store :=
  { Store.empty with
    movie := some [⟨1, ⟨some "tt1", "One", .null, none, .null, none, none, none, none, .null⟩⟩]
    genre := some [] }

/-- A transaction in which one movie was written to a store that had none. -/
def withinWriting : World :=
  let w := World.inMemory { oneMovie with movie := some [] } []
  { w with
    session := { w.session with transaction := some ⟨some ⟨0, w.data, oneMovie, true⟩, []⟩ }
    database := { w.database with writer := some w.session.number } }

/-- Two genres, the second one of a movie that is not there. -/
def twoGenres : Json :=
  .array
    [.object [("movieId", .string "tt1"), ("genre", .string "Drama")],
     .object [("movieId", .string "tt2"), ("genre", .string "Drama")]]

/-- The second genre fails, the first one is taken back, and the movie stays. -/
theorem data_of_twoGenres :
    ∃ e w', (write .genres (some twoGenres)).act.on withinWriting = (.error e, w') ∧
      w'.data = withinWriting.data ∧ w'.savepoints = withinWriting.savepoints := by
  obtain ⟨e, w', h⟩ : ∃ e w',
      (write .genres (some twoGenres)).act.on withinWriting = (.error e, w') := ⟨_, _, rfl⟩
  exact ⟨e, w', h, data_of_on_error _ h⟩

end Operation

end Whole

open World Act

theorem World.Alike.timed {w v : World} (h : Alike w v) (clock : List (Option Calendar.Instant)) :
    Alike (w.timed clock) (v.timed clock) where
  apart := congrArg (World.timed clock) h.apart
  isOpen := h.isOpen
  left := h.left
  right := h.right

/-- What went on with another clock went on. -/
theorem World.Continues.timed {w v : World} {clock : List (Option Calendar.Instant)}
    (h : Continues (w.timed clock) v) : Continues w (v.timed w.clock) where
  apart := by
    change v.apart.timed w.clock = _
    rw [h.apart]
    rfl
  savepoints := h.savepoints
  within hin :=
    have hwithin := h.within hin
    ⟨hwithin.store, hwithin.version, hwithin.sight_version, hwithin.sight_base, hwithin.idle,
      hwithin.writing, hwithin.holding⟩
  clock := Elapsed.refl w.clock

/-- What can be asked of the store within a transaction. -/
inductive Request where
  | operation (op : Operation)
  /-- What a value asks for is staged and published. -/
  | rebuild (logger : Journal.Logger) (asked : Option Json) (given : Fields)
  /-- All stages of a normalization are done and recorded. -/
  | normalize (logger : Journal.Logger) (given : Fields)
  | delete (t : Table) (column : String) (value : Cell)

namespace Request

/-- What is done; what it answers is left aside. -/
def act : Request → Act Unit
  | operation op => do
    let _ ← op.act
  | rebuild logger asked given => do
    let _ ← Normalize.rebuild logger asked given
  | normalize logger given => do
    let _ ← Normalize.run logger given
  | delete t column value => do
    let _ ← Act.change fun s => .counting (s.delete t (Store.whereEquals t column value))

/-- There is a number for a run that is asked for. -/
def Fits : Request → Store → Prop
  | normalize _ _, s => Normalize.HasNumber s
  | _, _ => True

theorem orderly (request : Request) : OrderlyFrom request.Fits request.act := by
  cases request with
  | operation op => exact op.whole.orderly.andThen fun _ => OrderlyFrom.pure _
  | rebuild logger asked given =>
    exact (Normalize.orderly_rebuild logger asked given).andThen fun _ => OrderlyFrom.pure _
  | normalize logger given =>
    exact (Normalize.orderly_run logger given).andThen fun _ => OrderlyFrom.pure _
  | delete t column value =>
    refine (OrderlyFrom.change fun s _ => ?_).andThen fun _ => OrderlyFrom.pure _
    refine Store.sound_counting (Store.roomy_delete ?_) fun s' => Store.delete_none
    exact Store.roomy_bind (Store.roomy_column? s t column) fun _ => Store.roomy_pure _

end Request

/-- A request with the clock that it reads. -/
structure Call where
  request : Request
  clock : List (Option Calendar.Instant)

namespace Call

def act (c : Call) : Act Unit := do
  let w ← get
  set (w.timed c.clock)
  let _ ← c.request.act.outcome
  modify (World.timed w.clock)

theorem on_act (c : Call) (w : World) :
    c.act.on w = (.ok ⟨⟩, (c.request.act.on (w.timed c.clock)).2.timed w.clock) := rfl

theorem continues {c : Call} {w : World} (hfits : c.request.Fits w.data) :
    Continues w (c.act.on w).2 := by
  have hcontinues : Continues (w.timed c.clock) (c.request.act.on (w.timed c.clock)).2 :=
    c.request.orderly.continues hfits
  exact hcontinues.timed

theorem alike {c : Call} {w v : World} (hfits : c.request.Fits w.data) (h : Alike w v) :
    Alike (c.act.on w).2 (c.act.on v).2 := by
  have halike := (c.request.orderly.alike (w := w.timed c.clock) hfits (h.timed c.clock)).2
  rw [on_act, on_act, h.clock]
  exact halike.timed v.clock

/-- The world after calls, one after the other. -/
def run (calls : List Call) (w : World) : World :=
  calls.foldl (fun w c => (c.act.on w).2) w

theorem run_append (calls more : List Call) (w : World) :
    run (calls ++ more) w = run more (run calls w) :=
  List.foldl_append

end Call
end FilmReport
