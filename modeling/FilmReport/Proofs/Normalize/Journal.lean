import FilmReport.Proofs.Normalize.Failure
import FilmReport.Proofs.Session.Journal

/-!
What the journal tells of a run. Its first entry says that the run started; one more, the closing
one, says how it ended, whichever stage it failed in (`Normalize.tells_of_on_run`). A run that did
all its stages and could not be recorded has no closing entry.
-/

set_option autoImplicit false
set_option relaxedAutoImplicit false

namespace FilmReport.Normalize

open Act World

variable {α β : Type}

/-- Whether an entry says that a run has ended. -/
def isClosing (e : Journal.Entry) : Bool :=
  e.message == "normalization finished" || e.message == "normalization failed"

/-- The entry that tells how a run ended. -/
inductive Closes (e : Journal.Entry) : Except Fault Run → Prop where
  | finished {r : Run} (message : e.message = "normalization finished")
      (runId : e.context.get? "runId" = some (.ofInt r.runId))
      (status : e.context.get? "status" = some (.string r.status.text)) : Closes e (.ok r)
  | failed {f : Fault} (message : e.message = "normalization failed")
      (code : e.context.get? "code" = some (.string f.code.text)) : Closes e (.error f)

/-- A run all of whose stages were done and that could not be recorded. -/
def Unrecorded : Except Fault Run → Prop
  | .ok _ => False
  | .error f => f.code = .lineageFailed

/-- The entries of a part of a run. Up to a failure none of them closes the run; a part that fails
closes it. -/
def Shown (entries : List Journal.Entry) : Except Failure α → Prop
  | .ok _ => entries.filter isClosing = []
  | .error (.fault f) =>
    ¬ Unrecorded (.error f) ∧ ∃ e, entries.filter isClosing = [e] ∧ Closes e (.error f)
  | .error (.raised _) => True

theorem Shown.append {entries more : List Journal.Entry} {r : Except Failure α}
    (h : entries.filter isClosing = []) (h' : Shown more r) : Shown (entries ++ more) r := by
  have hfilter : (entries ++ more).filter isClosing = more.filter isClosing := by
    rw [List.filter_append, h, List.nil_append]
  rcases r with (f | cause) | a
  · obtain ⟨hrecorded, e, he, hcloses⟩ := h'
    exact ⟨hrecorded, e, hfilter.trans he, hcloses⟩
  · exact h'
  · exact hfilter.trans h'

/-- A part of a run whose entries show how it ends. -/
def Shows (act : Act α) : Prop :=
  ∀ w, ∃ entries, Writes entries w (act.on w).2 ∧ Shown entries (act.on w).1

theorem Shows.of_on {act : Act α} (h : Shows act) {w w' : World} {r : Except Failure α}
    (hon : act.on w = (r, w')) : ∃ entries, Writes entries w w' ∧ Shown entries r := by
  have hshows := h w
  rw [hon] at hshows
  exact hshows

theorem Shows.bind {act : Act α} {f : α → Act β} (h : Shows act) (hf : ∀ a, Shows (f a)) :
    Shows (act >>= f) := by
  intro w
  rw [on_bind]
  rcases hon : act.on w with ⟨(fault | cause) | a, v⟩ <;>
    obtain ⟨entries, hwrites, hshown⟩ := h.of_on hon
  · exact ⟨entries, hwrites, hshown⟩
  · exact ⟨entries, hwrites, hshown⟩
  · obtain ⟨more, hwrites', hshown'⟩ := hf a v
    exact ⟨entries ++ more, hwrites.trans hwrites', .append hshown hshown'⟩

theorem Shows.pure (a : α) : Shows (pure a : Act α) :=
  fun w => ⟨[], .refl w, rfl⟩

/-- An entry that closes no run. -/
def Routine (e : Journal.Entry) : Prop :=
  isClosing e = false

theorem filter_isClosing_eq_nil {entries : List Journal.Entry} (h : ∀ e ∈ entries, Routine e) :
    entries.filter isClosing = [] :=
  List.filter_eq_nil_iff.2 fun e he hclosing => by
    rw [h e he] at hclosing
    cases hclosing

theorem filter_isClosing_cons {e : Journal.Entry} {more : List Journal.Entry}
    (he : isClosing e = true) (hmore : ∀ e ∈ more, Routine e) :
    ([e] ++ more).filter isClosing = [e] := by
  rw [List.filter_append, filter_isClosing_eq_nil hmore, List.append_nil, List.filter_singleton, he]
  rfl

/-- What closes no run and reports nothing shows how it ends. -/
theorem shows_of_notes {act : Act α} (hnotes : Notes Routine act)
    (hreports : Reports act fun _ => False) : Shows act := by
  intro w
  obtain ⟨entries, hwrites, hentries⟩ := hnotes w
  refine ⟨entries, hwrites, ?_⟩
  rcases hon : act.on w with ⟨(f | cause) | a, v⟩
  · exact (hreports w v f hon).elim
  · trivial
  · exact filter_isClosing_eq_nil hentries

theorem message_of_mem_warnings {sources : List Source} {f : Fault}
    (h : f ∈ (Coercion.ofSources sources).warnings) :
    f.message = "Gross income value could not be parsed." := by
  induction sources with
  | nil => cases h
  | cons source rest ih =>
    rw [Coercion.ofSources] at h
    cases hread : Amount.read source.raw with
    | absent =>
      rw [hread] at h
      exact ih h
    | parsed a =>
      rw [hread] at h
      exact ih h
    | invalid raw flaw =>
      rw [hread] at h
      rcases List.mem_cons.1 h with rfl | hrest
      · rfl
      · exact ih hrest

theorem notes_coerce (logger : Journal.Logger) : Notes Routine (coerce logger) := by
  refine Notes.inTransaction (Notes.reporting ?_ _) _
  refine (Notes.look _).bind fun rows => (Notes.look _).bind fun _ => ?_
  split
  · exact Notes.throw _
  · next sources _ =>
    have hwarn (logger : Journal.Logger) (c : Coercion) (hc : c = Coercion.ofSources sources) :
        Notes Routine (do
          c.warnings.forM fun w => log logger .warning w.message w.context
          pure c) := by
      subst hc
      refine (Notes.forM fun f hf => Notes.log _ _ fun stamp => ?_).bind fun _ => Notes.pure _
      rw [message_of_mem_warnings hf]
      rfl
    dsimp only
    split
    · exact hwarn _ _ rfl
    · exact (Notes.change _).bind fun _ => hwarn _ _ rfl

theorem notes_stage (kind : MembershipKind) (options : SplitOptions) :
    Notes Routine (stage kind options) := by
  refine Notes.inTransaction (Notes.reporting ?_ _) _
  refine (Notes.look _).bind fun rows => (Notes.change _).bind fun _ => ?_
  split
  · exact Notes.throw _
  · dsimp only
    split
    · exact Notes.pure _
    · exact (Notes.change _).bind fun _ => Notes.pure _

theorem notes_publish (kind : MembershipKind) : Notes Routine (publish kind) := by
  refine Notes.inTransaction (Notes.reporting ?_ _) _
  exact (Notes.change _).bind fun _ => (Notes.change _).bind fun n =>
    (Notes.change _).bind fun _ => Notes.pure n

theorem notes_rebuildWith (logger : Journal.Logger) (kind : MembershipKind)
    (options : SplitOptions) : Notes Routine (rebuildWith logger kind options) :=
  (notes_stage kind options).bind fun _ => (notes_publish kind).bind fun _ =>
    (Notes.log _ _ fun _ => rfl).bind fun _ => Notes.pure _

theorem notes_applyRules (counts : Fields) (rules : List (Except Cause Rule)) :
    Notes Routine (applyRules counts rules) := by
  induction rules generalizing counts with
  | nil => exact Notes.pure counts
  | cons rule rest ih =>
    refine Notes.bind ?_ fun r => ((Notes.change _).reporting _).bind fun n => ih _
    cases rule with
    | ok r => exact Notes.pure r
    | error cause => exact Notes.throw _

theorem notes_standardize (logger : Journal.Logger) : Notes Routine (standardize logger) := by
  rw [standardize, standardizeBy, raising_ok_bind]
  exact ((notes_applyRules [] _).inTransaction _).bind fun counts =>
    (Notes.log _ _ fun _ => rfl).bind fun _ => Notes.pure counts

theorem notes_recordRun (r : RunRecord) : Notes Routine (recordRun r) :=
  (Notes.change _).reporting _

/-- A run that fails in one of its stages is one that could be recorded. -/
theorem code_ne_of_failsAfter {stages : Nat} {f : Fault} (h : FailsAfter stages f)
    (hstages : stages < 4) : f.code ≠ .lineageFailed := by
  intro hcode
  rw [FailsAfter, stagesCompleted, hcode] at h
  obtain rfl := Option.some.inj h
  exact absurd hstages (by decide)

namespace Stages

variable {st : Stages} {progress : Progress}

theorem reports_fail (st : Stages) (progress : Progress) (f : Fault) :
    Reports (st.fail progress f : Act α) (· = f) := by
  refine (Reports.log _ _ _ _).bind fun _ => Reports.readClock.bind fun finishedAt => ?_
  refine Reports.bind (fun w w' g h => nomatch (Prod.mk.inj h).1) fun r => ?_
  split
  · exact Reports.report rfl
  · exact (Reports.log _ _ _ _).bind fun _ => Reports.report rfl
  · next failure hraised =>
    cases failure with
    | fault g => exact absurd rfl (hraised g)
    | raised cause => exact (Reports.raised cause).bind fun _ => Reports.report rfl

/-- The end of a failed run closes it. -/
theorem shows_fail (hpasses : st.logger.Passes) {f : Fault} (hcode : f.code ≠ .lineageFailed) :
    Shows (st.fail progress f : Act α) := by
  intro w
  obtain ⟨v, hlog, hwrites⟩ := writes_of_on_log hpasses .error (by decide)
    "normalization failed" [("code", .string f.code.text), ("message", .string f.message),
      ("context", .object f.context)] w
  rcases hend : (st.fail progress f : Act α).on w with ⟨r, w'⟩
  have hrest := hend
  rw [fail, on_bind_of_ok hlog] at hrest
  obtain ⟨more, hmore, hroutine⟩ : ∃ more, Writes more v w' ∧ ∀ e ∈ more, Routine e := by
    refine Notes.of_on ?_ hrest
    refine Notes.readClock.bind fun finishedAt => (notes_recordRun _).outcome.bind fun r => ?_
    split
    · exact Notes.throw _
    · exact (Notes.log _ _ fun _ => rfl).bind fun _ => Notes.throw _
    · exact (Notes.throw _).bind fun _ => Notes.throw _
  refine ⟨_, hwrites.trans hmore, ?_⟩
  rcases r with (g | cause) | a
  · obtain rfl : g = f := reports_fail st progress f w w' g hend
    refine ⟨hcode, _, filter_isClosing_cons rfl hroutine, .failed rfl ?_⟩
    simp [Fields.merge, Fields.get?_put_self, Fields.get?_put_of_ne]
  · trivial
  · exact absurd hend (on_fail_ne_ok st progress f w w' a)

/-- A stage shows how it ends if it closes no run by itself and fails with a fault of its own. -/
theorem shows_stage (hpasses : st.logger.Passes) {act : Act α} (hnotes : Notes Routine act)
    {stages : Nat} (hstages : stages < 4) (hreports : Reports act (FailsAfter stages)) :
    Shows (st.stage progress act) := by
  intro w
  have houtcome := on_outcome act w
  rw [stage, on_bind_of_ok houtcome]
  obtain ⟨entries, hwrites, hentries⟩ := hnotes w
  have hopen := filter_isClosing_eq_nil hentries
  rcases hon : act.on w with ⟨(f | cause) | a, v⟩ <;> rw [hon] at hwrites
  · have hcode := code_ne_of_failsAfter (hreports w v f hon) hstages
    have hfail : Shows (st.fail progress f : Act α) := shows_fail hpasses hcode
    obtain ⟨more, hwrites', hshown⟩ := hfail v
    exact ⟨entries ++ more, hwrites.trans hwrites', .append hopen hshown⟩
  · exact ⟨entries, hwrites, trivial⟩
  · exact ⟨entries, hwrites, hopen⟩

theorem shows_perform (st : Stages) (hpasses : st.logger.Passes) : Shows st.perform :=
  (shows_stage hpasses (notes_coerce _) (by decide) (reports_coerce _)).bind fun gross =>
    (shows_of_notes (Notes.log _ _ fun _ => by rfl) (Reports.log _ _ _ _)).bind fun _ =>
      (shows_stage hpasses (notes_rebuildWith _ _ _) (by decide)
        (reports_rebuildWith _ .country _)).bind fun country =>
          (shows_stage hpasses (notes_rebuildWith _ _ _) (by decide)
            (reports_rebuildWith _ .language _)).bind fun language =>
              (shows_stage hpasses (notes_standardize _) (by decide)
                (reports_standardize _)).bind fun counts => Shows.pure _

end Stages

/-- The entries of a run tell once how it ended, unless it could not be recorded. -/
structure Tells (entries : List Journal.Entry) (answer : Except Fault Run) : Prop where
  closed : ¬ Unrecorded answer → ∃ e, entries.filter isClosing = [e] ∧ Closes e answer
  unclosed : Unrecorded answer → entries.filter isClosing = []

theorem Tells.append {entries more : List Journal.Entry} {answer : Except Fault Run}
    (h : entries.filter isClosing = []) (h' : Tells more answer) :
    Tells (entries ++ more) answer := by
  have hfilter : (entries ++ more).filter isClosing = more.filter isClosing := by
    rw [List.filter_append, h, List.nil_append]
  exact ⟨hfilter ▸ h'.closed, hfilter ▸ h'.unclosed⟩

theorem mapError_ne_raised (answer : Except Fault α) (cause : Cause) :
    answer.mapError Failure.fault ≠ .error (.raised cause) := by
  cases answer <;> exact nofun

/-- A reading of the clock in a part that answers is an instant, and nothing is written for it. -/
theorem exists_of_on_readClock_bind {f : String → Act α} {w w' : World} {answer : Except Fault α}
    (h : (readClock >>= f).on w = (answer.mapError .fault, w')) :
    ∃ time v, Writes [] w v ∧ (f time).on v = (answer.mapError .fault, w') := by
  rcases hread : readClock.on w with ⟨(g | cause) | time, v⟩
  · exact (Reports.readClock (P := fun _ => False) w v g hread).elim
  · rw [on_bind_of_error hread] at h
    exact absurd (Prod.mk.inj h).1.symm (mapError_ne_raised answer cause)
  · rw [on_bind_of_ok hread] at h
    rw [OrderlyFrom.on_readClock] at hread
    obtain ⟨-, rfl⟩ := Prod.mk.inj hread
    exact ⟨time, w.timed (OrderlyFrom.advanced w.clock), .of_eq rfl rfl, h⟩

/-- The end of a run that did all its stages: it is recorded and closed. -/
def Stages.finish (st : Stages) (x : Progress × List Fault) : Act Run := do
  let finishedAt ← Act.readClock
  let runId ← recordRun
    ⟨statusOf x.2, st.startedAt, finishedAt, x.1, st.options, none⟩
  Act.log st.logger .info "normalization finished"
    [("runId", .ofInt runId), ("status", .string (statusOf x.2).text),
     ("warnings", .ofNat x.2.length)]
  pure ⟨runId, statusOf x.2, st.startedAt, finishedAt, x.1, x.2⟩

/-- The logger of the entries of a run. -/
def runLogger (logger : Journal.Logger) : Journal.Logger :=
  logger.withContext [("component", .string "normalizer")]

theorem run_eq {given : Fields} {options : SplitOptions}
    (hresolve : SplitOptions.resolve given = .ok options) (logger : Journal.Logger) :
    run logger given = (do
      let startedAt ← Act.readClock
      Act.log (runLogger logger) .info "normalization started" [("options", .object options.fields)]
      let st : Stages := ⟨runLogger logger, options, startedAt⟩
      st.perform >>= st.finish) := by
  rw [run, hresolve]
  rfl

theorem code_of_on_recordRun {r : RunRecord} {w w' : World} {f : Fault}
    (h : (recordRun r).on w = (.error (.fault f), w')) : f.code = .lineageFailed :=
  Reports.reporting (P := fun f => f.code = .lineageFailed) (Reports.change _) (fun _ => rfl) w w' f
    h

theorem Stages.tells_of_on_finish {st : Stages} (hpasses : st.logger.Passes)
    {x : Progress × List Fault} {w w' : World} {answer : Except Fault Run}
    (h : (st.finish x).on w = (answer.mapError .fault, w')) :
    ∃ entries, Writes entries w w' ∧ Tells entries answer := by
  obtain ⟨finishedAt, v, hclock, h⟩ := exists_of_on_readClock_bind h
  rcases hrecord : (recordRun
      ⟨statusOf x.2, st.startedAt, finishedAt, x.1, st.options, none⟩).on v with
    ⟨(f | cause) | runId, u⟩ <;>
    obtain ⟨entries, hwrites, hentries⟩ := (notes_recordRun _).of_on hrecord
  · rw [on_bind_of_error hrecord] at h
    obtain ⟨hanswer, rfl⟩ := Prod.mk.inj h
    have hunrecorded : Unrecorded answer := by
      cases answer with
      | ok r => cases hanswer
      | error g =>
        obtain rfl := Failure.fault.inj (Except.error.inj hanswer)
        exact code_of_on_recordRun hrecord
    refine ⟨_, hclock.trans hwrites, fun h => absurd hunrecorded h, fun _ => ?_⟩
    exact filter_isClosing_eq_nil hentries
  · rw [on_bind_of_error hrecord] at h
    exact absurd (Prod.mk.inj h).1.symm (mapError_ne_raised answer cause)
  · obtain ⟨v', hlog, hwrites'⟩ := writes_of_on_log hpasses .info (by decide)
      "normalization finished" [("runId", .ofInt runId), ("status", .string (statusOf x.2).text),
        ("warnings", .ofNat x.2.length)] u
    rw [on_bind_of_ok hrecord, on_bind_of_ok hlog] at h
    obtain ⟨hanswer, rfl⟩ := Prod.mk.inj h
    cases answer with
    | error g => cases hanswer
    | ok r =>
      obtain rfl := Except.ok.inj hanswer
      refine ⟨_, (hclock.trans hwrites).trans hwrites',
        Tells.append (filter_isClosing_eq_nil hentries) ⟨fun _ => ⟨_, rfl, ?_⟩, nofun⟩⟩
      refine .finished rfl ?_ ?_ <;>
        simp [Fields.merge, Fields.get?_put_self, Fields.get?_put_of_ne]

/-- A run with options that can be resolved and a logger that lets everything pass says first that
it started, and then once how it ended, in whichever stage it failed; only a run that did all its
stages and could not be recorded does not say that it ended. -/
theorem tells_of_on_run {logger : Journal.Logger} (hpasses : logger.Passes) {given : Fields}
    {options : SplitOptions} (hresolve : SplitOptions.resolve given = .ok options) {w w' : World}
    {answer : Except Fault Run}
    (h : (run logger given).on w = (answer.mapError .fault, w')) :
    ∃ opening entries, w'.journal = w.journal ++ opening :: entries ∧
      opening.message = "normalization started" ∧ Tells entries answer := by
  rw [run_eq hresolve] at h
  obtain ⟨startedAt, v, hclock, h⟩ := exists_of_on_readClock_bind h
  have hrunLogger : (runLogger logger).Passes := hpasses.withContext _
  obtain ⟨v₁, hlog, hopening⟩ := writes_of_on_log hrunLogger .info (by decide)
    "normalization started" [("options", .object options.fields)] v
  rw [on_bind_of_ok hlog] at h
  suffices htells : ∃ entries, Writes entries v₁ w' ∧ Tells entries answer by
    obtain ⟨entries, hwrites, htells⟩ := htells
    exact ⟨_, entries, (hclock.trans (hopening.trans hwrites)).journal, rfl, htells⟩
  let st : Stages := ⟨runLogger logger, options, startedAt⟩
  have hshows := st.shows_perform hrunLogger
  rcases hperform : st.perform.on v₁ with ⟨(f | cause) | x, v₂⟩ <;>
    obtain ⟨entries, hwrites, hshown⟩ := hshows.of_on hperform
  · rw [on_bind_of_error hperform] at h
    obtain ⟨hanswer, rfl⟩ := Prod.mk.inj h
    cases answer with
    | ok r => cases hanswer
    | error g =>
      obtain rfl := Failure.fault.inj (Except.error.inj hanswer)
      exact ⟨entries, hwrites, fun _ => hshown.2, fun h => absurd h hshown.1⟩
  · rw [on_bind_of_error hperform] at h
    exact absurd (Prod.mk.inj h).1.symm (mapError_ne_raised answer cause)
  · rw [on_bind_of_ok hperform] at h
    obtain ⟨more, hwrites', htells⟩ := st.tells_of_on_finish hrunLogger h
    exact ⟨entries ++ more, hwrites.trans hwrites', htells.append hshown⟩

/-- The film in a store without a table of runs. -/
def unnumberedFilm : Store :=
  { staleFilm with normalizationRuns := none }

/-- A run that does all its stages where there is no table of runs: the journal says that it
started and what its stages did, and not that it failed. -/
theorem tells_of_unnumberedFilm :
    ∃ (logger : Journal.Logger) (f : Fault) (w' : World), logger.Passes ∧
      SplitOptions.resolve [] = .ok .standard ∧
      (run logger []).on (World.inMemory unnumberedFilm [some ⟨0⟩]) =
        ((Except.error f : Except Fault Run).mapError .fault, w') ∧
      f.code = .lineageFailed ∧
      w'.journal.map (·.message) =
        ["normalization started", "gross income coerced", "membership table rebuilt",
         "membership table rebuilt", "missing values standardized"] ∧
      ∃ opening entries, w'.journal = [] ++ opening :: entries ∧
        opening.message = "normalization started" ∧ Tells entries (.error f) := by
  have hfaults : (run (.above .debug []) []).faults (World.inMemory unnumberedFilm [some ⟨0⟩])
      (fun f w' => decide (f.code = .lineageFailed ∧ w'.journal.map (·.message) =
        ["normalization started", "gross income coerced", "membership table rebuilt",
         "membership table rebuilt", "missing values standardized"])) = true := by
    decide +kernel
  obtain ⟨f, w', hon, hend⟩ := exists_on_of_faults hfaults
  obtain ⟨hcode, hmessages⟩ := of_decide_eq_true hend
  have hpasses : (Journal.Logger.above .debug []).Passes := ⟨rfl, by decide⟩
  have hresolve : SplitOptions.resolve [] = .ok .standard := rfl
  have hrun : (run (.above .debug []) []).on (World.inMemory unnumberedFilm [some ⟨0⟩]) =
      ((Except.error f : Except Fault Run).mapError .fault, w') := hon
  exact ⟨_, f, w', hpasses, hresolve, hrun, hcode, hmessages,
    tells_of_on_run hpasses hresolve hrun⟩

end FilmReport.Normalize
