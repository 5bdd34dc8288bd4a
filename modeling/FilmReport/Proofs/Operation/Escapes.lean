import FilmReport.Dataset.Seed
import FilmReport.Migration
import FilmReport.Proofs.Normalize.Run
import FilmReport.Proofs.Operation.Framed
import FilmReport.Proofs.Query.Execution
import FilmReport.Proofs.Session.Raising
import FilmReport.Report.Export

/-!
What escapes from the library. Its operations answer with a value or a fault; where one of them
raises a cause instead is said exactly (`Service.raises_iff_escapes`). Migrations and queries never
raise; a dataset is not seeded where its statements cannot be made ready; whatever works in
transactions raises in a closed session that never made transactions ready; and runs and exports
raise where the clock gives no instant.
-/

set_option autoImplicit false
set_option relaxedAutoImplicit false

namespace FilmReport

open Act

theorem Migration.answers_run : Answers Migration.run := by
  refine (Answers.reporting _ _).bind fun names => ?_
  suffices h : ∀ missing done, Answers (applyMissing names done missing) from h _ _
  intro missing
  induction missing with
  | nil => exact fun done => Answers.pure done
  | cons m rest ih =>
    intro done
    rw [applyMissing]
    split
    · exact ih _
    · exact (Answers.reporting _ _).bind fun _ => ih _

/-- A dataset is not seeded just where the statements that read and write datasets cannot be made
ready. -/
theorem Dataset.raises_seed {d : Dataset} {w : World} :
    Raises (seed d) w ↔ w.obstacle ≠ none ∨ ∃ e, ready w.data = .error e := by
  rw [seed, prepare, bind_assoc, raises_bind, raises_peek]
  refine ⟨?_, .inl⟩
  rintro (h | ⟨_, v, hready, h⟩)
  · exact h
  · obtain ⟨hobstacle, -, rfl⟩ := of_on_peek hready
    have hopen := World.isOpen_of_obstacle hobstacle
    rw [raises_bind_of_ok (on_prepareTransactions hopen), raises_inTransaction] at h
    exact absurd (hopen.symm.trans h.1) (by decide)

namespace Query.Runner

theorem answers_execute (r : Runner) (d : Definition) (p : Params) : Answers (r.execute d p) := by
  refine (Answers.outcome _).bind fun ready => ?_
  split
  · exact Answers.pure _
  · refine (Answers.outcome _).bind fun answered => ?_
    split <;> exact Answers.pure _

theorem answers_runQuery (r : Runner) (id : Option Json) (given : Fields) :
    Answers (r.runQuery id given) := by
  rw [runQuery]
  split
  · exact Answers.pure _
  · split
    · exact answers_execute _ _ _
    · exact Answers.pure _

theorem answers_executeAll (p : Params) (definitions : List Definition) (r : Runner) :
    Answers (executeAll p r definitions) := by
  induction definitions generalizing r with
  | nil => exact Answers.pure _
  | cons d rest ih =>
    refine (answers_execute r d p).bind fun (result, next) => ?_
    have hrest := (ih next).bind fun (x : List Outcome × Runner) =>
      Answers.pure (⟨d, result⟩ :: x.1, x.2)
    cases result with
    | ok result => exact hrest
    | error fault => exact (Answers.log _ _ _ _).bind fun _ => hrest

theorem answers_runWith (r : Runner) (p : Params) : Answers (r.runWith p) :=
  (answers_executeAll p r.definitions r).bind fun _ => (Answers.log _ _ _ _).bind fun _ =>
    Answers.pure _

theorem answers_runAll (r : Runner) (given : Fields) : Answers (r.runAll given) := by
  rw [runAll]
  split
  · exact Answers.pure _
  · exact (answers_runWith r _).bind fun _ => Answers.pure _

end Query.Runner

/-- Making a directory and writing files answers. -/
theorem Report.answers_makeDirectory (path : String) : Answers (makeDirectory path) := by
  refine Answers.get.bind fun w => (Answers.set _).bind fun _ => ?_
  split
  · exact Answers.pure _
  · exact Answers.report _

theorem Report.answers_writeFile (directory name content : String) :
    Answers (writeFile directory name content) := by
  refine Answers.get.bind fun w => ?_
  split
  · exact (Answers.set _).bind fun _ => Answers.pure _
  · exact Answers.report _

/-- What waits for a reading of the clock until something was done that always has a value. -/
theorem raises_iff_stuck {α β : Type} {act : Act α} {f : α → Act β} (hframed : Framed act)
    (hok : ∀ w, ∃ a v, act.on w = (.ok a, v)) (hf : ∀ a v, Raises (f a) v ↔ Stuck v.clock)
    {w : World} : Raises (act >>= f) w ↔ Stuck w.clock := by
  obtain ⟨a, v, hact⟩ := hok w
  rw [raises_bind_of_ok hact, hf, hframed.clock hact]

/-- An export that is asked for properly raises just where the clock has no instant for it. -/
theorem Report.raises_write {logger : Journal.Logger} {exportDir : String} {formats : Option Json}
    {given : Fields} {w : World} :
    Raises (write logger exportDir formats given) w ↔
      (∃ request, Request.read exportDir formats = .ok request) ∧
      (∃ p, Query.Params.resolve given = .ok p) ∧ Stuck w.clock := by
  rw [write, raises_ofExcept_bind, ← exists_and_right]
  refine exists_congr fun request => and_congr_right fun _ => ?_
  rw [raises_ofExcept_bind, ← exists_and_right]
  refine exists_congr fun p => and_congr_right fun _ => ?_
  refine raises_iff_stuck (Query.Runner.framed_runWith _ _) (fun v => ?_) fun x v => ?_
  · obtain ⟨r, v', hrun, -⟩ := Query.Runner.exists_on_runWith
      (logger.withContext [("component", .string "query-report")]) Query.nodup_ids_catalog p v
    exact ⟨_, v', hrun⟩
  · refine (raises_andThen fun generatedAt => ?_).trans raises_readClock
    refine Answers.get.bind fun u => (answers_makeDirectory _).bind fun _ =>
      (Answers.mapM (fun file => answers_writeFile _ _ _) _).bind fun files =>
      (Answers.log _ _ _ _).bind fun _ => ?_
    dsimp only
    split
    · exact Answers.pure _
    · exact Answers.report _

namespace Normalize

theorem raises_coerce {logger : Journal.Logger} {w : World} : Raises (coerce logger) w ↔ w.Shut :=
  raises_inTransaction

theorem raises_stageAsked {asked : Option Json} {options : SplitOptions} {w : World} :
    Raises (stageAsked asked options) w ↔ w.Shut := by
  rw [stageAsked]
  split <;> exact raises_inTransaction

theorem raises_publishAsked {asked : Option Json} {w : World} :
    Raises (publishAsked asked) w ↔ w.Shut := by
  rw [publishAsked]
  split <;> exact raises_inTransaction

theorem raises_standardizeBy {logger : Journal.Logger} {rules : Option Json} {w : World} :
    Raises (standardizeBy logger rules) w ↔ w.Shut :=
  (raises_andThen fun _ => (Answers.log _ _ _ _).bind fun _ => Answers.pure _).trans
    raises_inTransaction

/-- A rebuild raises before its first step or not at all. -/
theorem raises_rebuildWith {logger : Journal.Logger} {kind : MembershipKind}
    {options : SplitOptions} {w : World} :
    Raises (rebuildWith logger kind options) w ↔ w.Shut := by
  constructor
  · intro h
    rcases raises_bind.1 h with h | ⟨staged, v, hstage, h⟩
    · exact raises_inTransaction.1 h
    · -- what was staged was staged in an open session
      have hopen : v.session.isOpen = true :=
        ((framed_stage kind options).isOpen hstage).trans (isOpen_of_on_inTransaction hstage)
      have hpublish : v.Shut := by
        refine raises_inTransaction.1 ((raises_andThen fun rows => ?_).1 h)
        exact (Answers.log _ _ _ _).bind fun _ => Answers.pure _
      exact absurd (hopen.symm.trans hpublish.1) (by decide)
  · exact fun h => raises_bind.2 (.inl (raises_inTransaction.2 h))

theorem raises_rebuild {logger : Journal.Logger} {asked : Option Json} {given : Fields}
    {w : World} : Raises (rebuild logger asked given) w ↔
      (∃ options, SplitOptions.resolve given = .ok options) ∧ w.Shut := by
  rw [rebuild, raises_ofExcept_bind, ← exists_and_right]
  refine exists_congr fun options => and_congr_right fun _ => ?_
  split
  · exact raises_rebuildWith
  · exact raises_stageAsked

namespace Stages

variable {α : Type} {st : Stages} {progress : Progress} {w w' : World}

/-- A record that cannot be made is a fault, and the fault of the run is reported instead. -/
theorem answers_record (record : RunRecord) (rest : Except Failure Int → Act α)
    (hrest : ∀ r, (∀ cause, r ≠ .error (.raised cause)) → Answers (rest r)) :
    Answers ((recordRun record).outcome >>= rest) := by
  intro v h
  obtain ⟨r, u, hrecord, h⟩ := (Answers.outcome _).raises_after.1 h
  refine hrest r (fun cause hr => ?_) u h
  subst hr
  exact Answers.reporting _ _ v ⟨cause, u, of_on_outcome hrecord⟩

theorem raises_fail {fault : Fault} :
    Raises (st.fail progress fault : Act α) w ↔ Stuck w.clock := by
  refine raises_iff_stuck (Framed.log _ _ _ _) (fun v => ⟨_, _, rfl⟩) fun _ v => ?_
  refine (raises_andThen fun finishedAt => answers_record _ _ fun r hr => ?_).trans raises_readClock
  rcases r with (f | cause) | id
  · exact (Answers.log _ _ _ _).bind fun _ => Answers.report fault
  · exact absurd rfl (hr cause)
  · exact Answers.report fault

theorem not_stuck_of_on_fail {fault f : Fault}
    (h : (st.fail progress fault : Act α).on w = (.error (.fault f), w')) : ¬ Stuck w.clock := by
  intro hstuck
  obtain ⟨cause, v, hraised⟩ := raises_fail.2 hstuck
  rw [h] at hraised
  cases (Prod.mk.inj hraised).1

/-- What a stage raises was raised by what it does, or when the run ended. -/
theorem raises_stage {act : Act α} (hact : Framed act) (h : Raises (st.stage progress act) w) :
    Raises act w ∨ Stuck w.clock := by
  obtain ⟨r, v, hon, h⟩ := (Answers.outcome act).raises_after.1 h
  have hon := of_on_outcome hon
  rcases r with (f | cause) | a
  · exact .inr (hact.clock hon ▸ raises_fail.1 h)
  · exact .inl ⟨cause, v, hon⟩
  · exact absurd h (Answers.pure a v)

theorem raises_stage_of_raises {act : Act α} (h : Raises act w) :
    Raises (st.stage progress act) w := by
  obtain ⟨cause, v, hon⟩ := h
  refine (Answers.outcome act).raises_after.2 ⟨.error (.raised cause), v, ?_, cause, v, rfl⟩
  rw [on_outcome, hon]

/-- A stage that reports a fault found an instant for the end of the run. -/
theorem not_stuck_of_on_stage {act : Act α} (hact : Framed act) {f : Fault}
    (h : (st.stage progress act).on w = (.error (.fault f), w')) : ¬ Stuck w.clock := by
  rcases on_bind_eq_error.1 h with h | ⟨r, v, hon, h⟩
  · cases (Prod.mk.inj h).1
  have hon := of_on_outcome hon
  rcases r with (fault | cause) | a
  · exact hact.clock hon ▸ not_stuck_of_on_fail h
  · cases (Prod.mk.inj h).1
  · cases (Prod.mk.inj h).1

/-- An action that raises only in a shut session or where the clock is stuck, and that reports no
fault where it is. -/
structure Punctual (act : Act α) : Prop where
  raised : ∀ w, Raises act w → w.Shut ∨ Stuck w.clock
  reported : ∀ w w' f, act.on w = (.error (.fault f), w') → ¬ Stuck w.clock
  kept : ∀ w w' a, act.on w = (.ok a, w') → w'.clock = w.clock ∧ (w'.Shut → w.Shut)

namespace Punctual

variable {β : Type}

theorem pure (a : α) : Punctual (pure a : Act α) where
  raised w h := absurd h (Answers.pure a w)
  reported w w' f h := by cases (Prod.mk.inj h).1
  kept w w' b h := by
    rw [← (Prod.mk.inj h).2]
    exact ⟨rfl, id⟩

theorem bind {act : Act α} {f : α → Act β} (h : Punctual act) (hf : ∀ a, Punctual (f a)) :
    Punctual (act >>= f) where
  raised w hraises := by
    rcases raises_bind.1 hraises with hact | ⟨a, v, hact, hraises⟩
    · exact h.raised w hact
    · obtain ⟨hclock, hshut⟩ := h.kept w v a hact
      exact ((hf a).raised v hraises).imp hshut fun hstuck => hclock ▸ hstuck
  reported w w' fault hon := by
    rcases on_bind_eq_error.1 hon with hact | ⟨a, v, hact, hrest⟩
    · exact h.reported w w' fault hact
    · rw [← (h.kept w v a hact).1]
      exact (hf a).reported v w' fault hrest
  kept w w' b hon := by
    obtain ⟨a, v, hact, hrest⟩ := on_bind_eq_ok.1 hon
    obtain ⟨hclock, hshut⟩ := h.kept w v a hact
    obtain ⟨hclock', hshut'⟩ := (hf a).kept v w' b hrest
    exact ⟨hclock'.trans hclock, fun h => hshut (hshut' h)⟩

theorem log (logger : Journal.Logger) (level : Journal.Level) (message : String)
    (context : Fields) : Punctual (Act.log logger level message context) where
  raised w h := absurd h (Answers.log logger level message context w)
  reported w w' f h := by cases (Prod.mk.inj h).1
  kept w w' a h := by
    rw [Act.log, on_modify] at h
    rw [← (Prod.mk.inj h).2]
    split <;> exact ⟨rfl, id⟩

/-- A stage whose action has values only in an open session. -/
theorem stage {act : Act α} (hact : Framed act) (hshut : ∀ w, Raises act w → w.Shut)
    (hopen : ∀ w w' a, act.on w = (.ok a, w') → w.session.isOpen = true) :
    Punctual (st.stage progress act) where
  raised w h := (raises_stage hact h).imp_left (hshut w)
  reported w w' f h := not_stuck_of_on_stage hact h
  kept w w' a h := by
    have h := on_stage_eq_ok.1 h
    refine ⟨hact.clock h, fun hclosed => ?_⟩
    rw [World.Shut, hact.isOpen h, hopen w w' a h] at hclosed
    cases hclosed.1

end Punctual

theorem isOpen_of_on_rebuildWith {logger : Journal.Logger} {kind : MembershipKind}
    {options : SplitOptions} {w w' : World} {r : Rebuild}
    (h : (rebuildWith logger kind options).on w = (.ok r, w')) : w.session.isOpen = true := by
  obtain ⟨staged, v, hstage, -⟩ := on_bind_eq_ok.1 h
  exact isOpen_of_on_inTransaction hstage

theorem isOpen_of_on_standardize {logger : Journal.Logger} {w w' : World} {counts : Fields}
    (h : (standardize logger).on w = (.ok counts, w')) : w.session.isOpen = true := by
  obtain ⟨counts', v, happly, -⟩ := on_bind_eq_ok.1 h
  exact isOpen_of_on_inTransaction happly

theorem punctual_perform (st : Stages) : Punctual st.perform :=
  (Punctual.stage (framed_coerce _) (fun _ => raises_coerce.1) fun _ _ _ =>
    isOpen_of_on_inTransaction).bind fun _ => (Punctual.log _ _ _ _).bind fun _ =>
  (Punctual.stage (framed_rebuildWith _ _ _) (fun _ => raises_rebuildWith.1) fun _ _ _ =>
    isOpen_of_on_rebuildWith).bind fun _ =>
  (Punctual.stage (framed_rebuildWith _ _ _) (fun _ => raises_rebuildWith.1) fun _ _ _ =>
    isOpen_of_on_rebuildWith).bind fun _ =>
  (Punctual.stage (framed_standardizeBy _ _) (fun _ => raises_standardizeBy.1) fun _ _ _ =>
    isOpen_of_on_standardize).bind fun _ => Punctual.pure _

theorem raises_perform (h : w.Shut) : Raises st.perform w :=
  raises_bind.2 (.inl (raises_stage_of_raises (raises_coerce.2 h)))

/-- The stages of a run, followed by what reads the clock. -/
theorem raises_perform_bind {f : Progress × List Fault → Act α}
    (hf : ∀ x v, Raises (f x) v ↔ Stuck v.clock) :
    Raises (st.perform >>= f) w ↔ w.Shut ∨ Stuck w.clock := by
  have hpunctual := punctual_perform st
  constructor
  · intro h
    rcases raises_bind.1 h with h | ⟨x, v, hperform, h⟩
    · exact hpunctual.raised w h
    · exact .inr ((hpunctual.kept w v x hperform).1 ▸ (hf x v).1 h)
  · rintro (hshut | hstuck)
    · exact raises_bind.2 (.inl (raises_perform hshut))
    · rcases hperform : st.perform.on w with ⟨(fault | cause) | x, v⟩
      · exact absurd hstuck (hpunctual.reported w v fault hperform)
      · exact raises_bind.2 (.inl ⟨cause, v, hperform⟩)
      · have hclock := (hpunctual.kept w v x hperform).1
        exact (raises_bind_of_ok hperform).2 ((hf x v).2 (hclock ▸ hstuck))

end Stages

/-- A run with options that can be read raises where there is no instant for its beginning or its
end, and in a shut session. -/
theorem raises_run {logger : Journal.Logger} {given : Fields} {w : World} :
    Raises (run logger given) w ↔ (∃ options, SplitOptions.resolve given = .ok options) ∧
      (w.Shut ∨ Stuck w.clock ∨ Stuck (OrderlyFrom.advanced w.clock)) := by
  rw [run, raises_ofExcept_bind, ← exists_and_right]
  refine exists_congr fun options => and_congr_right fun _ => ?_
  have hread := OrderlyFrom.on_readClock w
  rcases hclock : w.clock with _ | ⟨_ | t, rest⟩
  all_goals rw [hclock] at hread
  · exact ⟨fun _ => .inr (.inl nofun), fun _ => raises_bind.2 (.inl ⟨_, _, hread⟩)⟩
  · exact ⟨fun _ => .inr (.inl nofun), fun _ => raises_bind.2 (.inl ⟨_, _, hread⟩)⟩
  · have hrun : ¬ Stuck (some t :: rest) := fun hstuck => hstuck t rfl
    obtain ⟨journal, hlog⟩ := exists_on_log_eq
      (logger.withContext [("component", .string "normalizer")]) .info "normalization started"
      [("options", .object options.fields)] (w.timed (OrderlyFrom.advanced (some t :: rest)))
    rw [raises_bind_of_ok hread, raises_bind_of_ok hlog, Stages.raises_perform_bind fun x v => ?_]
    · exact or_congr_right (or_iff_right hrun).symm
    · refine (raises_andThen fun finishedAt => ?_).trans raises_readClock
      exact (Answers.reporting _ _).bind fun _ => (Answers.log _ _ _ _).bind fun _ =>
        Answers.pure _

end Normalize

/-- What the library offers, with what it is asked. -/
inductive Service where
  | migrate
  | seed (dataset : Dataset)
  | coerce (logger : Journal.Logger)
  | stage (asked : Option Json) (options : Normalize.SplitOptions)
  | publish (asked : Option Json)
  | rebuild (logger : Journal.Logger) (asked : Option Json) (given : Fields)
  | standardize (logger : Journal.Logger) (rules : Option Json)
  | normalize (logger : Journal.Logger) (given : Fields)
  | query (runner : Query.Runner) (id : Option Json) (given : Fields)
  | queries (runner : Query.Runner) (given : Fields)
  | exported (logger : Journal.Logger) (exportDir : String) (formats : Option Json) (given : Fields)

namespace Service

abbrev Value : Service → Type
  | migrate => Migration.Applied
  | seed _ => Fields
  | coerce _ => Normalize.Coercion
  | stage _ _ => Normalize.Rebuild
  | publish _ => Nat
  | rebuild _ _ _ => Normalize.Rebuild
  | standardize _ _ => Fields
  | normalize _ _ => Normalize.Run
  | query _ _ _ => Except Fault Query.Result × Query.Runner
  | queries _ _ => Except Fault (List Query.Runner.Outcome) × Query.Runner
  | exported _ _ _ _ => Report.Summary

def act : (service : Service) → Act service.Value
  | migrate => Migration.run
  | seed dataset => Dataset.seed dataset
  | coerce logger => Normalize.coerce logger
  | stage asked options => Normalize.stageAsked asked options
  | publish asked => Normalize.publishAsked asked
  | rebuild logger asked given => Normalize.rebuild logger asked given
  | standardize logger rules => Normalize.standardizeBy logger rules
  | normalize logger given => Normalize.run logger given
  | query runner id given => runner.runQuery id given
  | queries runner given => runner.runAll given
  | exported logger exportDir formats given => Report.write logger exportDir formats given

/-- The worlds in which a service does not answer. -/
def Escapes : Service → World → Prop
  | migrate, _ => False
  | seed _, w => w.obstacle ≠ none ∨ ∃ e, Dataset.ready w.data = .error e
  | coerce _, w => w.Shut
  | stage _ _, w => w.Shut
  | publish _, w => w.Shut
  | rebuild _ _ given, w =>
    (∃ options, Normalize.SplitOptions.resolve given = .ok options) ∧ w.Shut
  | standardize _ _, w => w.Shut
  | normalize _ given, w =>
    (∃ options, Normalize.SplitOptions.resolve given = .ok options) ∧
      (w.Shut ∨ Stuck w.clock ∨ Stuck (OrderlyFrom.advanced w.clock))
  | query _ _ _, _ => False
  | queries _ _, _ => False
  | exported _ exportDir formats given, w =>
    (∃ request, Report.Request.read exportDir formats = .ok request) ∧
      (∃ p, Query.Params.resolve given = .ok p) ∧ Stuck w.clock

/-- What the library offers answers with a value or a fault in all worlds but those in which it
escapes. -/
theorem raises_iff_escapes (service : Service) (w : World) :
    Raises service.act w ↔ service.Escapes w := by
  cases service with
  | migrate => exact iff_false_intro (Migration.answers_run w)
  | seed dataset => exact Dataset.raises_seed
  | coerce logger => exact Normalize.raises_coerce
  | stage asked options => exact Normalize.raises_stageAsked
  | publish asked => exact Normalize.raises_publishAsked
  | rebuild logger asked given => exact Normalize.raises_rebuild
  | standardize logger rules => exact Normalize.raises_standardizeBy
  | normalize logger given => exact Normalize.raises_run
  | query runner id given => exact iff_false_intro (runner.answers_runQuery id given w)
  | queries runner given => exact iff_false_intro (runner.answers_runAll given w)
  | exported logger exportDir formats given => exact Report.raises_write

/-- A dataset is handed to a database that was never migrated. -/
example : Raises (seed ⟨"", [], [], [], [], [], []⟩).act (World.inMemory .empty []) :=
  ⟨_, _, rfl⟩

end Service
end FilmReport
