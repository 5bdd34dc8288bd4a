import FilmReport.Proofs.Normalize.Numbers
import FilmReport.Proofs.Normalize.Outcome
import FilmReport.Proofs.Session.Reports

/-!
Runs that fail. A run stops at the first stage that reports a fault; the fault tells how many stages
were completed (`stagesCompleted`), the store holds the effects of these (`reached`), and the record
of the run, if there is one, tells what they did.
-/

set_option autoImplicit false
set_option relaxedAutoImplicit false

namespace FilmReport.Normalize

open Store Act

/-- The number of stages before the rebuild of a kind. -/
def stagesBefore : MembershipKind → Nat
  | .country => 1
  | .language => 2

/-- The operations of the stages, with the number of stages before each. -/
def stageOperations : List (String × Nat) :=
  [("normalizer.gross-income", 0),
   ("normalizer.membership.country.stage", 1), ("normalizer.membership.country.publish", 1),
   ("normalizer.membership.language.stage", 2), ("normalizer.membership.language.publish", 2),
   ("normalizer.standardize", 3)]

/-- How many stages a run had completed when it failed with a fault, read off the code of the fault
and its context. -/
def stagesCompleted (f : Fault) : Option Nat :=
  match f.code with
  | .coercionFailed => some 0
  | .membershipRebuildFailed =>
    match f.context.get? "kind" with
    | some (.string name) => (MembershipKind.ofText? name).map stagesBefore
    | _ => none
  | .standardizationFailed => some 3
  | .lineageFailed => some 4
  | .dbTransactionFailed =>
    match f.context.get? "operationName" with
    | some (.string operation) => stageOperations.lookup operation
    | _ => none
  | _ => none

/-- The memberships of a kind rebuilt from the movies that are there. -/
def withRebuilt (kind : MembershipKind) (options : SplitOptions) (s : Store) : Store :=
  (s.withPublished (rebuiltRows kind options (s.rowsOf .movie)) kind).withStaged [] kind

/-- The effects of the four stages, in their order. -/
def effects (options : SplitOptions) : List (Store → Store) :=
  [setAmounts, withRebuilt .country options, withRebuilt .language options, filled]

/-- The store when the first stages of a run are completed, and nothing of the others is done. -/
def reached (options : SplitOptions) (s : Store) (stages : Nat) : Store :=
  ((effects options).take stages).foldl (fun s effect => effect s) s

/-- The progress of a run of which only the first stages are completed. -/
def Progress.upTo (p : Progress) (stages : Nat) : Progress where
  grossParsed := if 1 ≤ stages then p.grossParsed else 0
  grossAbsent := if 1 ≤ stages then p.grossAbsent else 0
  grossInvalid := if 1 ≤ stages then p.grossInvalid else 0
  countryRows := if 2 ≤ stages then p.countryRows else 0
  languageRows := if 3 ≤ stages then p.languageRows else 0
  standardized := if 4 ≤ stages then p.standardized else []

/-- The stores that a run may leave which failed after its first stages: besides the effects of
these there may be what a failing rebuild staged. -/
inductive Left (options : SplitOptions) (s : Store) (stages : Nat) : Store → Prop where
  | clean : Left options s stages (reached options s stages)
  | staged {kind : MembershipKind} (h : stagesBefore kind = stages) :
      Left options s stages
        ((reached options s stages).withStaged
          (numberedFrom 1 (membershipRows kind options (s.rowsOf .movie))) kind)

/-- What a run that failed with the fault `f` made of the store `s`: the first stages had their
effects, the others none, and the run is recorded with what the first stages did, or not at all. -/
def Halted (options : SplitOptions) (s : Store) (f : Fault) (s' : Store) : Prop :=
  ∃ stages left, stagesCompleted f = some stages ∧ stages ≤ 4 ∧ Left options s stages left ∧
    (s' = left ∨ stages < 4 ∧ ∃ r id, Recorded r left id s' ∧ r.status = .failed ∧
      r.progress = (progressOf options s).upTo stages ∧ r.options = options ∧ r.error = some f)

/-- A run begins in no transaction, or there is a number for it. -/
def Sheltered (w : World) : Prop :=
  w.savepoints = none ∨ HasNumber w.data

/-- What leaves the numbers of runs alone leaves a world sheltered. -/
theorem Sheltered.of_on {α : Type} {act : Act α} {w w' : World} {r : Except Failure α}
    (hw : Sheltered w) (horderly : Orderly act) (hpreserves : Preserves HasNumber act)
    (h : act.on w = (r, w')) : Sheltered w' := by
  rcases hw with hnone | hnumber
  · exact .inl ((horderly.continues_of_on h).savepoints.trans hnone)
  · have hafter := hpreserves w hnumber
    rw [h] at hafter
    exact .inr hafter

/-- A fault of a run that completed a number of stages. -/
def FailsAfter (stages : Nat) (f : Fault) : Prop :=
  stagesCompleted f = some stages

theorem failsAfter_transactionFault {operation : String} {stages : Nat}
    (h : stageOperations.lookup operation = some stages) (cause : String) :
    FailsAfter stages (transactionFault operation cause) := by
  rw [FailsAfter, ← h]
  simp only [stagesCompleted, transactionFault, Fault.ofCause, Fields.get?_cons, if_true]

theorem failsAfter_rebuild {f : Fault} {kind : MembershipKind}
    (hcode : f.code = .membershipRebuildFailed)
    (hkind : f.context.get? "kind" = some (.string kind.text)) :
    FailsAfter (stagesBefore kind) f := by
  simp only [FailsAfter, stagesCompleted, hcode, hkind]
  cases kind <;> decide

theorem failsAfter_rebuildFault (kind : MembershipKind) (stage cause : String) :
    FailsAfter (stagesBefore kind) (rebuildFault kind stage cause) :=
  failsAfter_rebuild rfl rfl

theorem reports_coerce (logger : Journal.Logger) : Reports (coerce logger) (FailsAfter 0) := by
  refine Reports.inTransaction (Reports.reporting ?_ fun cause => ?_)
    (failsAfter_transactionFault (by decide))
  · refine (Reports.look _).bind fun rows => (Reports.look _).bind fun _ => ?_
    have hwarn : ∀ (log : Fault → Act Unit) (c : Coercion),
        (∀ w, Reports (log w) (FailsAfter 0)) →
        Reports (do c.warnings.forM log; pure c) (FailsAfter 0) :=
      fun log c hlog => (Reports.forM hlog _).bind fun _ => Reports.pure c
    split
    · exact Reports.report rfl
    · dsimp only
      split
      · exact hwarn _ _ fun w => Reports.log _ _ _ _
      · exact (Reports.change _).bind fun _ => hwarn _ _ fun w => Reports.log _ _ _ _
  · rfl

theorem reports_stage (kind : MembershipKind) (options : SplitOptions) :
    Reports (stage kind options) (FailsAfter (stagesBefore kind)) := by
  refine Reports.inTransaction (Reports.reporting ?_ (failsAfter_rebuildFault kind _))
    (failsAfter_transactionFault (by cases kind <;> decide))
  refine (Reports.look _).bind fun rows => (Reports.change _).bind fun _ => ?_
  split
  · exact Reports.report (failsAfter_rebuild rfl rfl)
  · dsimp only
    split
    · exact Reports.pure _
    · exact (Reports.change _).bind fun _ => Reports.pure _

theorem reports_publish (kind : MembershipKind) :
    Reports (publish kind) (FailsAfter (stagesBefore kind)) := by
  refine Reports.inTransaction (Reports.reporting ?_ (failsAfter_rebuildFault kind _))
    (failsAfter_transactionFault (by cases kind <;> decide))
  exact (Reports.change _).bind fun _ => (Reports.change _).bind fun n =>
    (Reports.change _).bind fun _ => Reports.pure n

theorem reports_rebuildWith (logger : Journal.Logger) (kind : MembershipKind)
    (options : SplitOptions) :
    Reports (rebuildWith logger kind options) (FailsAfter (stagesBefore kind)) :=
  (reports_stage kind options).bind fun _ => (reports_publish kind).bind fun _ =>
    (Reports.log _ _ _ _).bind fun _ => Reports.pure _

theorem reports_applyRules (counts : Fields) (rules : List Rule) :
    Reports (applyRules counts (rules.map .ok)) (FailsAfter 3) := by
  induction rules generalizing counts with
  | nil => exact Reports.pure counts
  | cons r rest ih =>
    refine (Reports.pure r).bind fun r' => (Reports.reporting ?_ fun cause => ?_).bind fun n => ih _
    · exact Reports.change _
    · rfl

theorem reports_standardize (logger : Journal.Logger) :
    Reports (standardize logger) (FailsAfter 3) := by
  rw [standardize, standardizeBy, raising_ok_bind]
  refine (Reports.inTransaction (reports_applyRules [] Rule.standard) ?_).bind fun counts =>
    (Reports.log _ _ _ _).bind fun _ => Reports.pure counts
  exact failsAfter_transactionFault (by decide)

theorem reports_recordRun (r : RunRecord) : Reports (recordRun r) (FailsAfter 4) :=
  (Reports.change _).reporting fun _ => rfl

theorem demands_stage (kind : MembershipKind) (options : SplitOptions) :
    Demands (stage kind options) := by
  refine Demands.inTransaction (Demands.reporting ?_ _) _
  exact Demands.after (OrderlyFrom.look _) fun rows => (Demands.change _).andThen _

theorem demands_publish (kind : MembershipKind) : Demands (publish kind) := by
  refine Demands.inTransaction (Demands.reporting ?_ _) _
  exact (Demands.change _).andThen _

theorem demands_rebuildWith (logger : Journal.Logger) (kind : MembershipKind)
    (options : SplitOptions) : Demands (rebuildWith logger kind options) :=
  (demands_stage kind options).andThen _

/-- What is no kind is not staged. -/
theorem not_on_stageAsked {asked : Option Json} {options : SplitOptions} {w w' : World}
    {r : Rebuild} (hasked : ∀ kind, MembershipKind.Asked.of asked ≠ .kind kind) :
    (stageAsked asked options).on w ≠ (.ok r, w') := by
  intro h
  rw [stageAsked] at h
  split at h
  · next kind hkind => exact hasked kind hkind
  · obtain ⟨v, v', hon, -⟩ := exists_on_of_inTransaction h
    obtain ⟨_, u, -, hraise⟩ := on_bind_eq_ok.1 (on_reporting_eq_ok.1 hon)
    cases (Prod.mk.inj hraise).1
  · obtain ⟨v, v', hon, -⟩ := exists_on_of_inTransaction h
    cases (Prod.mk.inj (on_reporting_eq_ok.1 hon)).1

/-- A coercion that has a value coerced, also where there is no movie and no row can be written. -/
theorem coerced_of_on {logger : Journal.Logger} {w w' : World} {c : Coercion}
    (h : (coerce logger).on w = (.ok c, w')) : Coerced w.data c w'.data := by
  by_cases hready : w.Ready
  · exact (computes_coerce logger).of_on hready h
  have hidle : w'.data = w.data := by
    have hidle := (whole_coerce logger).orderly.idle (w := w) trivial hready
    rw [h] at hidle
    exact hidle
  obtain ⟨v, v', hwork, hdata, hready'⟩ := exists_on_of_inTransaction h
  obtain ⟨rows, v₁, hrows, hwork⟩ := on_bind_eq_ok.1 (on_reporting_eq_ok.1 hwork)
  obtain ⟨_, v₂, hamount, hwork⟩ := on_bind_eq_ok.1 hwork
  have hready₂ : ¬ v₂.Ready := by
    have h₁ := (OrderlyFrom.look _).continues_of_on hrows
    have h₂ := (OrderlyFrom.look _).continues_of_on hamount
    rw [(h₁.trans h₂).ready, hready']
    exact hready
  obtain ⟨hrows, hdata₁⟩ := of_on_look hrows
  obtain ⟨hamount, hdata₂⟩ := of_on_look hamount
  rw [hdata] at hrows
  rw [hdata₁, hdata] at hamount
  obtain ⟨movies, hmovies, rfl⟩ := rows?_eq_ok.1 hrows
  cases hread : Source.read "rawGross" (·.grossIncome) (byId (movies.map (·.row))) with
  | error issues =>
    rw [hread] at hwork
    cases (Prod.mk.inj hwork).1
  | ok sources =>
    rw [hread] at hwork
    obtain ⟨hidentified, rfl⟩ := (Source.read_eq_ok (by decide)).1 hread
    dsimp only at hwork
    rw [isEmpty_sources] at hwork
    split at hwork
    · next hempty =>
      obtain ⟨_, v₃, -, hwork⟩ := on_bind_eq_ok.1 hwork
      obtain rfl := Except.ok.inj (Prod.mk.inj hwork).1
      refine ⟨movies, hmovies, amountsWritable_eq_ok.1 hamount, identified_byId.1 hidentified, rfl,
        ?_⟩
      rw [hidle, ← ite_setAmounts hmovies, if_pos hempty]
    · obtain ⟨_, v₃, hset, -⟩ := on_bind_eq_ok.1 hwork
      exact absurd (ready_of_on_change hset).1 hready₂

theorem data_of_on_recordRun_error {r : RunRecord} {w w' : World} {e : Failure} (hw : Sheltered w)
    (h : (recordRun r).on w = (.error e, w')) : w'.data = w.data := by
  obtain ⟨e', hchange⟩ := exists_on_of_reporting_error h
  refine data_of_on_change_error hchange ?_
  rcases hw with hnone | hnumber
  · exact .inl hnone
  · exact .inr ((sound_writing (roomy_addRun r hnumber) w.data).room)

/-- A run that rebuilt or standardized was done in a world in which rows can be written. -/
theorem Stages.demands_attempt (st : Stages) : Demands st.attempt :=
  Demands.after (whole_coerce _).orderly fun _ => Demands.after (OrderlyFrom.log _ _ _ _)
    fun _ => (demands_rebuildWith _ _ _).andThen _

/-- A rebuild that fails leaves what was there, or this with what it staged. -/
theorem data_of_on_rebuildWith_error {logger : Journal.Logger} {kind : MembershipKind}
    {options : SplitOptions} {w w' : World} {e : Failure}
    (h : (rebuildWith logger kind options).on w = (.error e, w')) :
    w'.data = w.data ∨ w'.data = w.data.withStaged
      (numberedFrom 1 (membershipRows kind options (w.data.rowsOf .movie))) kind := by
  rcases on_bind_eq_error.1 h with h | ⟨staged, v, hstage, h⟩
  · exact .inl ((whole_stage kind options).undone h)
  · have hready := demands_stage kind options w v staged hstage
    obtain ⟨movies, old, hmovies, -, -, -, -, hdata⟩ := (computes_stage kind options).of_on hready
      hstage
    rw [← rowsOf_of_eq_some (t := .movie) hmovies] at hdata
    rcases on_bind_eq_error.1 h with h | ⟨rows, u, -, h⟩
    · exact .inr (((whole_publish kind).undone h).trans hdata)
    · rcases on_bind_eq_error.1 h with h | ⟨_, x, -, h⟩
      · cases (Prod.mk.inj h).1
      · cases (Prod.mk.inj h).1

theorem rowsOf_reached (options : SplitOptions) (s : Store) {stages : Nat}
    (h : stages = 1 ∨ stages = 2) :
    (reached options s stages).rowsOf .movie = (s.rowsOf .movie).map amounted := by
  rcases h with rfl | rfl <;> exact rowsOf_mapRows (t := .movie) rfl

/-- A rebuild that fails after the stages before it leaves what a halted run may leave. -/
theorem left_of_rebuild {logger : Journal.Logger} {kind : MembershipKind} {options : SplitOptions}
    {s : Store} {v u : World} {e : Failure}
    (hv : v.data = reached options s (stagesBefore kind))
    (h : (rebuildWith logger kind options).on v = (.error e, u)) :
    Left options s (stagesBefore kind) u.data := by
  have hstages : stagesBefore kind = 1 ∨ stagesBefore kind = 2 := by cases kind <;> decide
  rcases data_of_on_rebuildWith_error h with hu | hu <;> rw [hu, hv]
  · exact .clean
  · rw [rowsOf_reached options s hstages, membershipRows_amounted]
    exact .staged rfl

/-- A rebuild that has a value after the stages before it completes one stage more. -/
theorem reached_of_rebuild (kind : MembershipKind) {logger : Journal.Logger}
    {options : SplitOptions} {s : Store} {v u : World} {r : Rebuild}
    (hv : v.data = reached options s (stagesBefore kind))
    (h : (rebuildWith logger kind options).on v = (.ok r, u)) :
    u.data = reached options s (stagesBefore kind + 1) ∧
      r.insertedRows = (membershipRows kind options (s.rowsOf .movie)).length := by
  have hready := demands_rebuildWith logger kind options v u r h
  obtain ⟨movies, hmovies, -, -, -, -, -, rfl, hdata⟩ :=
    (computes_rebuildWith logger kind options).of_on hready h
  have hstages : stagesBefore kind = 1 ∨ stagesBefore kind = 2 := by cases kind <;> decide
  have hrows : membershipRows kind options (movies.map (·.row)) =
      membershipRows kind options (s.rowsOf .movie) := by
    rw [← rowsOf_of_eq_some (t := .movie) hmovies, hv, rowsOf_reached options s hstages,
      membershipRows_amounted]
  have hrebuilt : u.data = withRebuilt kind options v.data := by
    rw [withRebuilt, rowsOf_of_eq_some (t := .movie) hmovies]
    exact hdata
  refine ⟨?_, congrArg List.length hrows⟩
  rw [hrebuilt, hv]
  cases kind <;> rfl

/-- When all stages are completed the store is normalized. -/
theorem reached_four {options : SplitOptions} {s : Store} {movies : List (Numbered MovieRow)}
    (h : s.movie = some movies) : reached options s 4 = normalized options s := by
  have hrows : ∀ kind stages, stages = 1 ∨ stages = 2 →
      rebuiltRows kind options ((reached options s stages).rowsOf .movie) =
        rebuiltRows kind options (movies.map (·.row)) := by
    intro kind stages hstages
    rw [rowsOf_reached options s hstages, rebuiltRows, membershipRows_amounted,
      rowsOf_of_eq_some (t := .movie) h, rebuiltRows]
  rw [← filled_rebuilt, ← rebuilt_eq h, ← hrows .country 1 (.inl rfl),
    ← hrows .language 2 (.inr rfl)]
  rfl

namespace Stages

variable {α : Type} {st : Stages}

/-- A failed run reports the fault with which it failed; it is recorded, or the data stay. -/
theorem of_on_fail {progress : Progress} {fault f : Fault} {w w' : World} (hw : Sheltered w)
    (h : (st.fail progress fault : Act α).on w = (.error (.fault f), w')) :
    f = fault ∧ (w'.data = w.data ∨ ∃ finishedAt id,
      Recorded ⟨.failed, st.startedAt, finishedAt, progress, st.options, some fault⟩ w.data id
        w'.data) := by
  rcases on_bind_eq_error.1 h with h | ⟨_, v₁, hlog, h⟩
  · cases (Prod.mk.inj h).1
  rcases on_bind_eq_error.1 h with h | ⟨finishedAt, v₂, hfinished, h⟩
  · exact (Reports.readClock (P := fun _ => False) v₁ w' f h).elim
  rcases on_bind_eq_error.1 h with h | ⟨r, v₃, hrecord, h⟩
  · cases (Prod.mk.inj h).1
  obtain ⟨-, hdata₁⟩ := of_on_log hlog
  obtain ⟨-, hdata₂⟩ := of_on_readClock hfinished
  have hsheltered : Sheltered v₂ :=
    (hw.of_on (OrderlyFrom.log _ _ _ _) (Preserves.log _ _ _ _) hlog).of_on OrderlyFrom.readClock
      Preserves.readClock hfinished
  have hon := of_on_outcome hrecord
  rcases r with (g | cause) | id
  · rcases on_bind_eq_error.1 h with h | ⟨_, v₄, hnoted, h⟩
    · cases (Prod.mk.inj h).1
    · obtain ⟨hf, rfl⟩ := Prod.mk.inj h
      obtain ⟨-, hdata₄⟩ := of_on_log hnoted
      refine ⟨(Failure.fault.inj (Except.error.inj hf)).symm, .inl ?_⟩
      rw [hdata₄, data_of_on_recordRun_error hsheltered hon, hdata₂, hdata₁]
  · cases (Prod.mk.inj h).1
  · obtain ⟨hf, rfl⟩ := Prod.mk.inj h
    obtain ⟨-, hrecorded, -⟩ := of_on_recordRun hon
    rw [hdata₂, hdata₁] at hrecorded
    exact ⟨(Failure.fault.inj (Except.error.inj hf)).symm, .inr ⟨finishedAt, id, hrecorded⟩⟩

/-- A stage that fails after the stages before it were completed halts the run there. -/
theorem halted_of_on_stage {act : Act α} (stages : Nat) (hstages : stages < 4) {s : Store}
    {v w' : World} {f : Fault} (hv : Sheltered v) (horderly : Orderly act)
    (hpreserves : Preserves HasNumber act) (hreports : Reports act (FailsAfter stages))
    (hleft : ∀ {e u}, act.on v = (.error e, u) → Left st.options s stages u.data)
    (h : (st.stage ((progressOf st.options s).upTo stages) act).on v = (.error (.fault f), w')) :
    Halted st.options s f w'.data := by
  rcases on_bind_eq_error.1 h with h | ⟨r, u, hact, h⟩
  · cases (Prod.mk.inj h).1
  have hon := of_on_outcome hact
  rcases r with (fault | cause) | a
  · obtain ⟨rfl, hdata⟩ := of_on_fail (hv.of_on horderly hpreserves hon) h
    refine ⟨stages, _, hreports v _ f hon, Nat.le_of_lt hstages, hleft hon, ?_⟩
    rcases hdata with hdata | ⟨finishedAt, id, hrecorded⟩
    · exact .inl hdata
    · exact .inr ⟨hstages, _, id, hrecorded, rfl, rfl, rfl, rfl⟩
  · cases (Prod.mk.inj h).1
  · cases (Prod.mk.inj h).1

/-- Stages that report a fault halt the run after those that were completed. -/
theorem halted_of_on_perform {w w' : World} {f : Fault} (hw : Sheltered w)
    (h : st.perform.on w = (.error (.fault f), w')) : Halted st.options w.data f w'.data := by
  have hrebuild := fun kind => (computes_rebuildWith st.logger kind st.options).orderly
  have hpreserves := fun kind => preserves_rebuildWith st.logger kind st.options
  rcases on_bind_eq_error.1 h with h | ⟨gross, v₁, hgross, h⟩
  · refine halted_of_on_stage 0 (by decide) hw (whole_coerce _).orderly
      (preserves_coerce _) (reports_coerce _) (fun herror => ?_) h
    rw [(whole_coerce _).undone herror]
    exact .clean
  have hgross := on_stage_eq_ok.1 hgross
  have hw₁ := hw.of_on (whole_coerce _).orderly (preserves_coerce _) hgross
  obtain ⟨movies, hmovies, hamount, -, hcoercion, hdata₁⟩ := coerced_of_on hgross
  rw [← rowsOf_of_eq_some (t := .movie) hmovies, ← coercionOf] at hcoercion
  subst hcoercion
  rcases on_bind_eq_error.1 h with h | ⟨_, v₂, hlog, h⟩
  · cases (Prod.mk.inj h).1
  have hw₂ := hw₁.of_on (OrderlyFrom.log _ _ _ _) (Preserves.log _ _ _ _) hlog
  have hdata₂ : v₂.data = reached st.options w.data 1 := (of_on_log hlog).2.trans hdata₁
  rcases on_bind_eq_error.1 h with h | ⟨country, v₃, hcountry, h⟩
  · refine halted_of_on_stage 1 (by decide) hw₂ (hrebuild .country)
      (hpreserves .country) (reports_rebuildWith _ .country _) (fun herror => ?_) h
    exact left_of_rebuild hdata₂ herror
  have hcountry := on_stage_eq_ok.1 hcountry
  have hw₃ := hw₂.of_on (hrebuild .country) (hpreserves .country) hcountry
  obtain ⟨hdata₃, hrows₃⟩ := reached_of_rebuild .country hdata₂ hcountry
  rw [hrows₃] at h
  rcases on_bind_eq_error.1 h with h | ⟨language, v₄, hlanguage, h⟩
  · refine halted_of_on_stage 2 (by decide) hw₃ (hrebuild .language)
      (hpreserves .language) (reports_rebuildWith _ .language _) (fun herror => ?_) h
    exact left_of_rebuild hdata₃ herror
  have hlanguage := on_stage_eq_ok.1 hlanguage
  have hw₄ := hw₃.of_on (hrebuild .language) (hpreserves .language) hlanguage
  obtain ⟨hdata₄, hrows₄⟩ := reached_of_rebuild .language hdata₃ hlanguage
  rw [hrows₄] at h
  rcases on_bind_eq_error.1 h with h | ⟨counts, v₅, -, h⟩
  · refine halted_of_on_stage 3 (by decide) hw₄ (computes_standardize _).orderly
      (preserves_standardize _) (reports_standardize _) (fun herror => ?_) h
    rw [(whole_standardizeBy st.logger none).undone herror, hdata₄]
    exact .clean
  · cases (Prod.mk.inj h).1

end Stages

/-- A run that reports a fault, begun with options that can be resolved, halts where the fault
says: the stages before had their effects, and the record of the run tells these. -/
theorem halted_of_on_run {logger : Journal.Logger} {given : Fields} {options : SplitOptions}
    (hresolve : SplitOptions.resolve given = .ok options) {w w' : World} (hw : Sheltered w)
    {f : Fault} (h : (run logger given).on w = (.error (.fault f), w')) :
    Halted options w.data f w'.data := by
  rcases on_bind_eq_error.1 h with h | ⟨o, v, hoptions, h⟩
  · rw [hresolve] at h
    cases (Prod.mk.inj h).1
  rw [hresolve] at hoptions
  obtain ⟨hvalue, rfl⟩ := Prod.mk.inj hoptions
  obtain rfl := Except.ok.inj hvalue
  rcases on_bind_eq_error.1 h with h | ⟨startedAt, v₁, hstarted, h⟩
  · exact (Reports.readClock (P := fun _ => False) w w' f h).elim
  have hw₁ := hw.of_on OrderlyFrom.readClock Preserves.readClock hstarted
  rcases on_bind_eq_error.1 h with h | ⟨_, v₂, hlog, h⟩
  · cases (Prod.mk.inj h).1
  have hw₂ := hw₁.of_on (OrderlyFrom.log _ _ _ _) (Preserves.log _ _ _ _) hlog
  have hdata₂ : v₂.data = w.data := (of_on_log hlog).2.trans (of_on_readClock hstarted).2
  rw [← hdata₂]
  rcases on_bind_eq_error.1 h with h | ⟨⟨progress, warnings⟩, v₃, hperform, h⟩
  · exact Stages.halted_of_on_perform hw₂ h
  have hattempt := Stages.on_perform_eq_ok.1 hperform
  have hready := Stages.demands_attempt _ v₂ v₃ _ hattempt
  obtain ⟨hnormalizable, -, hdata₃⟩ :=
    performed_iff.1 ((computes_attempt _).of_on hready hattempt)
  obtain ⟨movies, hmovies⟩ := Option.isSome_iff_exists.1 hnormalizable.movie
  rw [← reached_four hmovies] at hdata₃
  have hw₃ := hw₂.of_on (computes_attempt _).orderly (Stages.preserves_attempt _) hattempt
  rcases on_bind_eq_error.1 h with h | ⟨finishedAt, v₄, hfinished, h⟩
  · exact (Reports.readClock (P := fun _ => False) v₃ w' f h).elim
  have hw₄ := hw₃.of_on OrderlyFrom.readClock Preserves.readClock hfinished
  rcases on_bind_eq_error.1 h with h | ⟨id, v₅, -, h⟩
  · refine ⟨4, _, reports_recordRun _ v₄ w' f h, Nat.le_refl 4, .clean, .inl ?_⟩
    rw [data_of_on_recordRun_error hw₄ h, (of_on_readClock hfinished).2, hdata₃]
  · rcases on_bind_eq_error.1 h with h | ⟨_, v₆, -, h⟩
    · cases (Prod.mk.inj h).1
    · cases (Prod.mk.inj h).1

/-- The film in a store without a table of ratings, in which standardization fails. -/
def unratedFilm : Store :=
  { staleFilm with ratings := none }

theorem halted_of_unratedFilm :
    ∃ f w', SplitOptions.resolve [] = .ok .standard ∧
      Sheltered (World.inMemory unratedFilm [some ⟨0⟩]) ∧
      (run .quiet []).on (World.inMemory unratedFilm [some ⟨0⟩]) = (.error (.fault f), w') ∧
      f.code = .standardizationFailed ∧ Halted .standard unratedFilm f w'.data := by
  have hfaults : (run .quiet []).faults (World.inMemory unratedFilm [some ⟨0⟩])
      (fun f _ => decide (f.code = .standardizationFailed)) = true := by
    decide +kernel
  obtain ⟨f, w', hon, hcode⟩ := exists_on_of_faults hfaults
  have hresolve : SplitOptions.resolve [] = .ok .standard := rfl
  have hsheltered : Sheltered (World.inMemory unratedFilm [some ⟨0⟩]) := .inl rfl
  exact ⟨f, w', hresolve, hsheltered, hon, of_decide_eq_true hcode,
    halted_of_on_run hresolve hsheltered hon⟩

/-- The film after a run that got the last of all numbers. -/
def spentNumbers : Store :=
  { staleFilm with
    normalizationRuns :=
      some [⟨1, RunRecord.row ⟨.completed, "", "", .start, .standard, none⟩ 9223372036854775807⟩] }

/-- Begins a transaction and removes all movies in it. -/
def removal : Act Nat := do
  Act.begin false
  Act.change fun s => s.clear .movie

/-- A run for which there is no number takes the transaction around it along: the movies that were
removed before it are there again, which no number of its stages does. -/
theorem not_reached_of_spentNumbers :
    ∃ n w f w', removal.on (World.inMemory spentNumbers [some ⟨0⟩]) = (.ok n, w) ∧
      (run .quiet []).on w = (.error (.fault f), w') ∧ f.code = .lineageFailed ∧
      ∀ stages : Fin 5, w'.data.movie ≠ (reached .standard w.data stages).movie := by
  have hruns : removal.returns (World.inMemory spentNumbers [some ⟨0⟩]) (fun _ w =>
      (run .quiet []).faults w fun f w' => decide (f.code = .lineageFailed ∧
        ∀ stages : Fin 5, w'.data.movie ≠ (reached .standard w.data stages).movie)) = true := by
    decide +kernel
  obtain ⟨n, w, hon, hfaults⟩ := exists_on_of_returns hruns
  obtain ⟨f, w', hrun, hlost⟩ := exists_on_of_faults hfaults
  obtain ⟨hcode, hmovie⟩ := of_decide_eq_true hlost
  exact ⟨n, w, f, w', hon, hrun, hcode, hmovie⟩

end FilmReport.Normalize
