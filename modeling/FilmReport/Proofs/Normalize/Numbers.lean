import FilmReport.Proofs.Normalize.Run
import FilmReport.Proofs.Session.Computes
import FilmReport.Proofs.Store.Columns

/-!
Runs where there is a number for them. The stages of a run leave the numbers of runs alone, so the
record of a run that begins with a number for it is not refused for want of one, and the run goes on
in the transaction around it whatever comes of it.
-/

set_option autoImplicit false
set_option relaxedAutoImplicit false

namespace FilmReport

namespace Normalize

open Store Act

/-- There is a number for the next run, if runs are recorded at all. -/
def HasNumber (s : Store) : Prop :=
  s.normalizationRuns.isSome → Cell.isStorable (runNumber s) = true

theorem roomy_addRun (r : RunRecord) {s : Store} (h : HasNumber s) : Roomy (addRun r s) := by
  rw [addRun]
  cases hrows : s.rows? .normalizationRuns with
  | error e =>
    have hroomy : Roomy (s.rows? .normalizationRuns) := roomy_map (roomy_numbered? s _) _
    rw [hrows] at hroomy
    exact roomy_error fun he => hroomy (congrArg _ he)
  | ok rows =>
    obtain ⟨runs, hruns, rfl⟩ := rows?_eq_ok.1 hrows
    have hstorable := h (Option.isSome_of_eq_some hruns)
    rw [runNumber_of_eq_some hruns] at hstorable
    change Roomy (if Cell.isStorable _ = true then _ else _)
    rw [if_pos hstorable]
    exact roomy_bind (roomy_insert .normalizationRuns .refuse _ s) fun _ => roomy_pure _

theorem orderly_recordRun (r : RunRecord) : OrderlyFrom HasNumber (recordRun r) :=
  (OrderlyFrom.change fun s hs => sound_writing (roomy_addRun r hs) s).reporting _

theorem hasNumber_of_rule {rule : Rule} (hrule : rule.table = "movie" ∨ rule.table = "ratings")
    {s s' : Store} {n : Nat} (h : (rule.apply s).result = .ok (n, s')) (hs : HasNumber s) :
    HasNumber s' := by
  have hmovie : named? .notModifiable "movie" = .ok .movie := named?_name _ .movie
  have hratings : named? .notModifiable "ratings" = .ok .ratings := named?_name _ .ratings
  rw [Rule.apply] at h
  rcases hrule with htable | htable
  · rw [htable, hmovie] at h
    obtain ⟨rows, rfl⟩ := exists_put_of_update h
    exact hs
  · rw [htable, hratings] at h
    obtain ⟨rows, rfl⟩ := exists_put_of_update h
    exact hs

theorem hasNumber_of_appliedAll {rules : List Rule}
    (hrules : ∀ rule ∈ rules, rule.table = "movie" ∨ rule.table = "ratings")
    {counts counts' : Fields} {s s' : Store} (h : AppliedAll rules counts s counts' s')
    (hs : HasNumber s) : HasNumber s' := by
  induction rules generalizing counts s with
  | nil =>
    rw [h.2]
    exact hs
  | cons rule rest ih =>
    obtain ⟨n, t, happly, hlater⟩ := h
    obtain ⟨hrule, hrest⟩ := List.forall_mem_cons.1 hrules
    exact ih hrest hlater (hasNumber_of_rule hrule happly hs)

theorem preserves_coerce (logger : Journal.Logger) : Preserves HasNumber (coerce logger) := by
  refine (whole_coerce logger).preserves (computes_coerce logger) ?_
  rintro s c s' ⟨movies, -, -, -, -, rfl⟩ hs
  exact hs

theorem preserves_rebuildWith (logger : Journal.Logger) (kind : MembershipKind)
    (options : SplitOptions) : Preserves HasNumber (rebuildWith logger kind options) := by
  have hstage : Preserves HasNumber (stage kind options) := by
    refine (whole_stage kind options).preserves (computes_stage kind options) ?_
    rintro s r s' ⟨movies, old, -, -, -, -, -, rfl⟩ hs
    cases kind <;> exact hs
  have hpublish : Preserves HasNumber (publish kind) := by
    refine (whole_publish kind).preserves (computes_publish kind) ?_
    rintro s n s' ⟨old, staged, -, -, -, -, -, rfl⟩ hs
    cases kind <;> exact hs
  exact hstage.bind fun _ => hpublish.bind fun _ => (Preserves.log _ _ _ _).bind fun _ =>
    Preserves.of_data fun _ => rfl

theorem preserves_standardize (logger : Journal.Logger) :
    Preserves HasNumber (standardize logger) := by
  refine (whole_standardizeBy logger none).preserves (computes_standardize logger) fun h hs => ?_
  exact hasNumber_of_appliedAll (by decide) h hs

namespace Stages

theorem orderly_fail {α : Type} (st : Stages) (progress : Progress) (fault : Fault) :
    OrderlyFrom HasNumber (st.fail progress fault : Act α) := by
  refine (OrderlyFrom.log _ _ _ _).bind (Preserves.log _ _ _ _).leads fun _ => ?_
  refine OrderlyFrom.readClock.bind Preserves.readClock.leads fun finishedAt => ?_
  refine (orderly_recordRun _).outcome.andThen fun r => ?_
  rcases r with (f | cause) | id
  · exact (OrderlyFrom.log _ _ _ _).andThen fun _ => OrderlyFrom.throw _
  · exact OrderlyFrom.throw _
  · exact OrderlyFrom.throw _

theorem orderly_stage {α : Type} (st : Stages) (progress : Progress) {act : Act α}
    (horderly : Orderly act) (hpreserves : Preserves HasNumber act) :
    OrderlyFrom HasNumber (st.stage progress act) := by
  have hact : OrderlyFrom HasNumber act := horderly.mono fun _ _ => trivial
  refine hact.outcome.bind hpreserves.outcome.leads fun r => ?_
  rcases r with (f | cause) | a
  · exact orderly_fail st progress f
  · exact OrderlyFrom.throw _
  · exact OrderlyFrom.pure a

/-- A stage that has a value leaves the numbers of runs alone. -/
theorem leads_stage {α : Type} (st : Stages) (progress : Progress) {act : Act α}
    (hpreserves : Preserves HasNumber act) : Leads HasNumber (st.stage progress act) HasNumber := by
  intro w w' a hw hon
  exact hpreserves.leads hw (on_stage_eq_ok.1 hon)

theorem orderly_perform (st : Stages) : OrderlyFrom HasNumber st.perform := by
  have hcoerce := preserves_coerce st.logger
  have hrebuild := fun kind => preserves_rebuildWith st.logger kind st.options
  have hstandardize := preserves_standardize st.logger
  refine (orderly_stage st _ (whole_coerce _).orderly hcoerce).bind (leads_stage st _ hcoerce)
    fun gross => ?_
  refine (OrderlyFrom.log _ _ _ _).bind (Preserves.log _ _ _ _).leads fun _ => ?_
  refine (orderly_stage st _ (computes_rebuildWith _ _ _).orderly (hrebuild .country)).bind
    (leads_stage st _ (hrebuild .country)) fun country => ?_
  refine (orderly_stage st _ (computes_rebuildWith _ _ _).orderly (hrebuild .language)).bind
    (leads_stage st _ (hrebuild .language)) fun language => ?_
  refine (orderly_stage st _ (computes_standardize _).orderly hstandardize).andThen fun counts => ?_
  exact OrderlyFrom.pure _

theorem preserves_attempt (st : Stages) : Preserves HasNumber st.attempt :=
  (preserves_coerce st.logger).bind fun _ => (Preserves.log _ _ _ _).bind fun _ =>
    (preserves_rebuildWith st.logger .country st.options).bind fun _ =>
    (preserves_rebuildWith st.logger .language st.options).bind fun _ =>
    (preserves_standardize st.logger).bind fun _ => Preserves.of_data fun _ => rfl

theorem leads_perform (st : Stages) : Leads HasNumber st.perform HasNumber := by
  intro w w' x hw hon
  exact (preserves_attempt st).leads hw (on_perform_eq_ok.1 hon)

end Stages

/-- A run is orderly where there is a number for it. -/
theorem orderly_run (logger : Journal.Logger) (given : Fields) :
    OrderlyFrom HasNumber (run logger given) := by
  have hresolve : Preserves HasNumber (Act.ofExcept (SplitOptions.resolve given)) := by
    refine Preserves.of_data fun w => ?_
    cases SplitOptions.resolve given <;> rfl
  refine (OrderlyFrom.ofExcept _).bind hresolve.leads fun options => ?_
  refine OrderlyFrom.readClock.bind Preserves.readClock.leads fun startedAt => ?_
  refine (OrderlyFrom.log _ _ _ _).bind (Preserves.log _ _ _ _).leads fun _ => ?_
  refine (Stages.orderly_perform _).bind (Stages.leads_perform _) fun x => ?_
  refine OrderlyFrom.readClock.bind Preserves.readClock.leads fun finishedAt => ?_
  refine (orderly_recordRun _).andThen fun id => ?_
  exact (OrderlyFrom.log _ _ _ _).andThen fun _ => OrderlyFrom.pure _

end Normalize
end FilmReport
