import FilmReport.Normalize.Run
import FilmReport.Proofs.Session.Computes
import FilmReport.Proofs.Store.Insert
import FilmReport.Proofs.Normalize.Standardize
import FilmReport.Proofs.Normalize.Rebuild

/-!
Normalization runs that do not fail: what their stages compute together, and the record that is
added. A record gets a number greater than all that are there, so it is refused only where the table
is missing or the numbers are exhausted.
-/

set_option autoImplicit false
set_option relaxedAutoImplicit false

namespace FilmReport.Normalize

open Store Act

theorem le_foldl_max (n : Int) (rows : List RunRow) :
    n ≤ rows.foldl (fun n row => max n row.id) n ∧
      ∀ row ∈ rows, row.id ≤ rows.foldl (fun n row => max n row.id) n := by
  have hmax := (List.max?_le_iff (@List.max?_cons' _ n _ (rows.map (·.id)))).1 (Int.le_refl _)
  rwa [List.foldl_map, List.forall_mem_cons, List.forall_mem_map] at hmax

/-- The next number is greater than those of all runs. -/
theorem lt_nextRun (given : Int) {rows : List RunRow} {row : RunRow} (h : row ∈ rows) :
    row.id < nextRun given rows := by
  cases rows with
  | nil => exact absurd h List.not_mem_nil
  | cons first rest =>
    obtain ⟨hmax, hrest⟩ := le_foldl_max (max given first.id) rest
    rw [nextRun]
    rcases List.mem_cons.1 h with rfl | hrow
    · omega
    · have := hrest row hrow
      omega

/-- The next number is greater than the last that was given. -/
theorem given_lt_nextRun (given : Int) (rows : List RunRow) : given < nextRun given rows := by
  cases rows with
  | nil =>
    rw [nextRun]
    omega
  | cons first rest =>
    obtain ⟨hmax, -⟩ := le_foldl_max (max given first.id) rest
    rw [nextRun]
    omega

/-- The next number is the one after the greatest. -/
theorem nextRun_le {given n : Int} {rows : List RunRow} (hgiven : given ≤ n)
    (hrows : ∀ row ∈ rows, row.id ≤ n) (hzero : rows = [] → 0 ≤ n) :
    nextRun given rows ≤ n + 1 := by
  cases rows with
  | nil =>
    have := hzero rfl
    rw [nextRun]
    omega
  | cons first rest =>
    have hmax : ∀ (k : Int) (rows : List RunRow), k ≤ n → (∀ row ∈ rows, row.id ≤ n) →
        rows.foldl (fun k row => max k row.id) k ≤ n := by
      intro k rows
      induction rows generalizing k with
      | nil => exact fun hk _ => hk
      | cons row rows ih =>
        intro hk hall
        obtain ⟨hrow, hall⟩ := List.forall_mem_cons.1 hall
        exact ih (max k row.id) (by omega) hall
    obtain ⟨hfirst, hrest⟩ := List.forall_mem_cons.1 hrows
    have := hmax (max given first.id) rest (by omega) hrest
    rw [nextRun]
    omega

theorem atLeast_ofNat (n : Nat) : atLeast 0 (.int n) = true := by
  have hlt : Binary64.lt (.finite ((n : Int) : Rat)) (.finite ((0 : Int) : Rat)) = false := by
    rw [Binary64.lt]
    exact decide_eq_false (Rat.not_lt.2 (Rat.intCast_le_intCast.2 (Int.natCast_nonneg n)))
  have hcompare : Cell.compare (.int n) (.int 0) ≠ .lt := by
    rw [Cell.compare]
    · simp only [Cell.number?, hlt, Bool.false_eq_true, if_false]
      split <;> simp
    all_goals simp
  simp [atLeast, hcompare]

/-- A record is admitted beside records with smaller numbers. -/
theorem admits_row (r : RunRecord) (s : Store) {rows : List RunRow} {id : Int}
    (h : ∀ row ∈ rows, row.id < id) : s.Admits .normalizationRuns rows (r.row id) where
  parents := rfl
  conditions := by
    have hstatus : (decide (r.status.text = "completed") ||
        decide (r.status.text = "completed_with_warnings") ||
        decide (r.status.text = "failed")) = true := by
      cases r.status <;> decide
    have hnone : ((layout .normalizationRuns).conditions.find? fun c => !c.holds (r.row id)) =
        none := by
      rw [List.find?_eq_none]
      simp only [layout, runLayout, List.forall_mem_cons, RunRecord.row, hstatus, atLeast_ofNat]
      simp
    rw [meetsConditions, hnone]
  keys := by
    have hnone : rows.any (sameKey ⟨["id"], true, fun row => some [.int row.id]⟩ (r.row id)) =
        false := by
      rw [List.any_eq_false]
      intro row hrow
      have hid : id ≠ row.id := fun heq => Int.lt_irrefl id (heq ▸ h row hrow)
      simp [sameKey, RunRecord.row, Cell.normal, hid]
    have hfind : ((layout .normalizationRuns).keys.find? fun key =>
        rows.any (sameKey key (r.row id))) = none := by
      rw [List.find?_eq_none]
      intro key hkey
      obtain rfl := List.mem_singleton.1 hkey
      rw [hnone]
      exact Bool.false_ne_true
    rw [keysFree, hfind]
  references := rfl

/-- The number that the next run gets. -/
def runNumber (s : Store) : Int :=
  nextRun (s.lastGiven .normalizationRuns) (s.rowsOf .normalizationRuns)

theorem runNumber_of_eq_some {s : Store} {runs : List (Numbered RunRow)}
    (h : s.normalizationRuns = some runs) :
    runNumber s = nextRun (s.lastGiven .normalizationRuns) (runs.map (·.row)) := by
  have hrows : s.rowsOf .normalizationRuns = runs.map (·.row) := by
    change (s.normalizationRuns.getD []).map (·.row) = _
    rw [h]
    rfl
  rw [runNumber, hrows]

/-- The store with one more row of a run, whose number is noted. -/
def withRun (row : RunRow) (s : Store) : Store :=
  ({ s with
      normalizationRuns := s.normalizationRuns.map fun runs => runs ++ [⟨nextNumber runs, row⟩] } :
    Store).giveLast .normalizationRuns row.id

theorem counts_name (t : Table) (n last : Int) :
    counts t ⟨n, ⟨.text t.name, .int last⟩⟩ = true := by
  have hcompare : Text.compareBytes t.name t.name = .eq := by
    rw [Text.compareBytes, if_neg (String.lt_irrefl t.name), if_pos rfl]
  change (Text.compareBytes t.name t.name == .eq) = true
  rw [hcompare]
  rfl

theorem find?_putCount (t : Table) (last : Int) {rows : List (Numbered SequenceRow)}
    (h : rows.any (counts t) = true) :
    ((putCount t last rows).find? (counts t)).map (·.row.last) = some (.int last) := by
  induction rows with
  | nil => cases h
  | cons n rest ih =>
    rw [putCount]
    by_cases hn : counts t n = true
    · rw [if_pos hn, List.find?_cons_of_pos (counts_name t n.number last)]
      rfl
    · rw [if_neg hn, List.find?_cons_of_neg hn]
      refine ih ?_
      rw [List.any_cons, Bool.or_eq_true] at h
      exact h.resolve_left hn

/-- The last number given is the one that was noted, if numbers are noted. -/
theorem lastGiven_giveLast {s : Store} (t : Table) (last : Int) (h : s.sequences.isSome) :
    (s.giveLast t last).lastGiven t = last := by
  obtain ⟨rows, hrows⟩ := Option.isSome_iff_exists.1 h
  have hfind : ((((s.giveLast t last).sequences.getD []).find? (counts t)).map (·.row.last)) =
      some (.int last) := by
    change (((s.sequences.map _).getD []).find? (counts t)).map (·.row.last) = _
    rw [hrows, Option.map_some, Option.getD_some]
    by_cases hany : rows.any (counts t) = true
    · rw [if_pos hany]
      exact find?_putCount t last hany
    · have hnone : rows.find? (counts t) = none := by
        rw [List.find?_eq_none]
        intro n hn hcounts
        exact hany (List.any_eq_true.2 ⟨n, hn, hcounts⟩)
      rw [if_neg hany, List.find?_append, hnone, Option.none_or,
        List.find?_cons_of_pos (counts_name t (nextNumber rows) last)]
      rfl
  rw [lastGiven]
  cases hfound : ((s.giveLast t last).sequences.getD []).find? (counts t) with
  | none =>
    rw [hfound] at hfind
    cases hfind
  | some n =>
    rw [hfound] at hfind
    have hlast : n.row.last = .int last := Option.some.inj hfind
    change n.row.last.toWhole = last
    rw [hlast]
    rfl

/-- After a run got its number, the next one gets the number after that. -/
theorem runNumber_withRun {s : Store} {row : RunRow} (hruns : s.normalizationRuns.isSome)
    (hid : row.id = runNumber s) : runNumber (withRun row s) = row.id + 1 := by
  obtain ⟨runs, hsome⟩ := Option.isSome_iff_exists.1 hruns
  have hafter : (withRun row s).normalizationRuns = some (runs ++ [⟨nextNumber runs, row⟩]) := by
    change s.normalizationRuns.map _ = _
    rw [hsome]
    rfl
  rw [runNumber_of_eq_some hsome] at hid
  have hrows : (runs ++ [⟨nextNumber runs, row⟩] : List (Numbered RunRow)).map (·.row) =
      runs.map (·.row) ++ [row] :=
    List.map_append
  have hmem : row ∈ runs.map (·.row) ++ [row] :=
    List.mem_append_right _ (List.mem_singleton_self row)
  have hlower := lt_nextRun ((withRun row s).lastGiven .normalizationRuns) hmem
  rw [runNumber_of_eq_some hafter, hrows]
  refine Int.le_antisymm (nextRun_le ?_ ?_ ?_) hlower
  · cases hsequences : s.sequences with
    | some rows =>
      exact Int.le_of_eq (lastGiven_giveLast .normalizationRuns row.id
        (Option.isSome_of_eq_some hsequences))
    | none =>
      have hbefore : s.lastGiven .normalizationRuns = 0 := by
        rw [lastGiven, hsequences]
        rfl
      have hnone : (withRun row s).sequences = none := by
        change s.sequences.map _ = none
        rw [hsequences]
        rfl
      have hafter' : (withRun row s).lastGiven .normalizationRuns = 0 := by
        rw [lastGiven, hnone]
        rfl
      have hlt := given_lt_nextRun (s.lastGiven .normalizationRuns) (runs.map (·.row))
      omega
  · intro other hother
    rcases List.mem_append.1 hother with hold | hnew
    · rw [hid]
      exact Int.le_of_lt (lt_nextRun _ hold)
    · exact Int.le_of_eq (congrArg (·.id) (List.mem_singleton.1 hnew))
  · intro hnil
    rw [hnil] at hmem
    exact absurd hmem List.not_mem_nil

/-- What adding a record does: the record gets the next number, which is storable. -/
def Recorded (r : RunRecord) (s : Store) (id : Int) (s' : Store) : Prop :=
  s.normalizationRuns.isSome ∧ id = runNumber s ∧ Cell.isStorable id = true ∧
    s' = withRun (r.row id) s

theorem addRun_eq_ok {r : RunRecord} {s s' : Store} {id : Int} :
    addRun r s = .ok (id, s') ↔ Recorded r s id s' := by
  have hadded : ∀ {runs : List (Numbered RunRow)}, s.normalizationRuns = some runs →
      (s.put .normalizationRuns (some (runs ++ [⟨nextNumber runs, r.row id⟩]))).giveLast
        .normalizationRuns id = withRun (r.row id) s := by
    intro runs hruns
    rw [withRun, hruns]
    rfl
  constructor
  · intro h
    obtain ⟨rows, hrows, h⟩ := exists_of_bind h
    obtain ⟨runs, hruns, rfl⟩ := rows?_eq_ok.1 hrows
    dsimp only at h
    split at h
    · next hstorable =>
      obtain ⟨after, hinsert, h⟩ := exists_of_bind h
      obtain ⟨rfl, rfl⟩ := Prod.mk.inj (Except.ok.inj h)
      obtain ⟨runs', hruns', -, rfl⟩ := insert_refuse_eq_ok.1 hinsert
      obtain rfl := Option.some.inj (hruns.symm.trans hruns')
      exact ⟨Option.isSome_of_eq_some hruns, (runNumber_of_eq_some hruns).symm, hstorable,
        hadded hruns⟩
    · cases h
  · rintro ⟨hsome, hid, hstorable, rfl⟩
    obtain ⟨runs, hruns⟩ := Option.isSome_iff_exists.1 hsome
    have hrows : s.rows? .normalizationRuns = .ok _ := rows?_eq_ok.2 ⟨runs, hruns, rfl⟩
    rw [runNumber_of_eq_some hruns] at hid
    have hadmits : s.Admits .normalizationRuns (runs.map (·.row)) (r.row id) :=
      admits_row r s fun row hrow => hid ▸ lt_nextRun (s.lastGiven .normalizationRuns) hrow
    have hinsert := insert_refuse_eq_ok (t := .normalizationRuns).2 ⟨runs, hruns, hadmits, rfl⟩
    rw [addRun, hrows]
    change (if Cell.isStorable (nextRun _ _) = true then _ else _) = _
    rw [← hid, if_pos hstorable]
    rw [hinsert, ← hadded hruns]
    rfl

theorem exists_on_recordRun {r : RunRecord} {w : World} (hw : w.Ready) {id : Int} {s' : Store}
    (h : Recorded r w.data id s') :
    ∃ w', (recordRun r).on w = (.ok id, w') ∧ w'.data = s' ∧ World.Continues w w' := by
  have hrun : (Effect.writing (addRun r w.data)).result = .ok (id, s') := addRun_eq_ok.2 h
  have hwrote : (Effect.writing (addRun r w.data)).wrote = true := by
    rw [Effect.writing, addRun_eq_ok.2 h]
    rfl
  have hidle : (Effect.writing (addRun r w.data)).wrote = false → s' = w.data := by
    intro hfalse
    rw [hwrote] at hfalse
    cases hfalse
  refine ⟨_, ?_, World.data_kept hidle, World.Continues.kept hw.refusal hidle⟩
  rw [recordRun, on_reporting, on_change_of_ready hw hrun]
  rfl

theorem of_on_recordRun {r : RunRecord} {w w' : World} {id : Int}
    (h : (recordRun r).on w = (.ok id, w')) :
    w.Ready ∧ Recorded r w.data id w'.data ∧ World.Continues w w' := by
  have hchange : ∃ v, (Act.change fun s => .writing (addRun r s)).on w = (.ok id, v) := by
    rw [recordRun, on_reporting] at h
    obtain ⟨hresult, -⟩ := Prod.mk.inj h
    rcases hon : (Act.change fun s => .writing (addRun r s)).on w with ⟨(f | cause) | n, v⟩ <;>
      rw [hon] at hresult
    · cases hresult
    · cases hresult
    · obtain rfl := Except.ok.inj hresult
      exact ⟨v, rfl⟩
  obtain ⟨v, hchange⟩ := hchange
  obtain ⟨hready, s', hrun⟩ := ready_of_on_change hchange
  have hrecorded := addRun_eq_ok.1 hrun
  obtain ⟨u, hon, hdata, hcontinues⟩ := exists_on_recordRun hready hrecorded
  obtain rfl : u = w' := (Prod.mk.inj (hon.symm.trans h)).2
  exact ⟨hready, hdata ▸ hrecorded, hcontinues⟩

end FilmReport.Normalize

namespace FilmReport.Normalize

open Store Act

variable {α : Type}

namespace Stages

/-- A failed run has no value. -/
theorem on_fail_ne_ok (st : Stages) (progress : Progress) (fault : Fault) (w w' : World) (a : α) :
    (st.fail progress fault).on w ≠ (.ok a, w') := by
  intro h
  obtain ⟨-, v, -, h⟩ := on_bind_eq_ok.1 h
  obtain ⟨finishedAt, v, -, h⟩ := on_bind_eq_ok.1 h
  obtain ⟨r, v, -, h⟩ := on_bind_eq_ok.1 h
  rcases r with (f | cause) | id
  · obtain ⟨-, v, -, h⟩ := on_bind_eq_ok.1 h
    cases (Prod.mk.inj h).1
  · cases (Prod.mk.inj h).1
  · cases (Prod.mk.inj h).1

/-- A stage of a run has a value just if its action has. -/
theorem on_stage_eq_ok {st : Stages} {progress : Progress} {act : Act α} {w w' : World} {a : α} :
    (st.stage progress act).on w = (.ok a, w') ↔ act.on w = (.ok a, w') := by
  rw [stage, on_bind_eq_ok]
  constructor
  · rintro ⟨r, v, hout, h⟩
    rw [on_outcome] at hout
    obtain ⟨hr, rfl⟩ := Prod.mk.inj hout
    obtain rfl := Except.ok.inj hr
    rcases hact : act.on w with ⟨(f | cause) | b, u⟩
    · rw [hact] at h
      exact absurd h (on_fail_ne_ok st progress f u w' a)
    · rw [hact] at h
      cases (Prod.mk.inj h).1
    · rw [hact] at h
      exact h
  · intro h
    exact ⟨.ok a, w', by rw [on_outcome, h], rfl⟩

/-- The four stages without the records of their failures. -/
def attempt (st : Stages) : Act (Progress × List Fault) := do
  let gross ← coerce st.logger
  Act.log st.logger .info "gross income coerced"
    [("parsed", .ofNat gross.parsed), ("absent", .ofNat gross.absent),
     ("invalid", .ofNat gross.invalid)]
  let country ← rebuildWith st.logger .country st.options
  let language ← rebuildWith st.logger .language st.options
  let counts ← standardize st.logger
  pure (⟨gross.parsed, gross.absent, gross.invalid, country.insertedRows, language.insertedRows,
    counts⟩, gross.warnings)

/-- The stages have a value just if they have it without the records of their failures. -/
theorem on_perform_eq_ok {st : Stages} {w w' : World} {x : Progress × List Fault} :
    st.perform.on w = (.ok x, w') ↔ st.attempt.on w = (.ok x, w') := by
  simp only [perform, attempt, on_bind_eq_ok, on_stage_eq_ok]

end Stages

def Performed (options : SplitOptions) (s : Store) (x : Progress × List Fault) (s' : Store) :
    Prop :=
  ∃ c s₁ country s₂ language s₃ counts, Coerced s c s₁ ∧ Rebuilt .country options s₁ country s₂ ∧
    Rebuilt .language options s₂ language s₃ ∧ AppliedAll Rule.standard [] s₃ counts s' ∧
    x = (⟨c.parsed, c.absent, c.invalid, country.insertedRows, language.insertedRows, counts⟩,
      c.warnings)

theorem computes_attempt (st : Stages) : Computes st.attempt (Performed st.options) := by
  refine ((computes_coerce _).bind fun gross => (Computes.log _ _ _ _).bind fun _ =>
    (computes_rebuildWith _ _ _).bind fun country => (computes_rebuildWith _ _ _).bind
      fun language => (computes_standardize _).bind fun counts => Computes.pure _).of_iff
        fun s x s' => ?_
  constructor
  · rintro ⟨c, _, hcoerced, -, s₁, rfl, country, s₂, hcountry, language, s₃, hlanguage, counts, s₄,
      happlied, rfl, rfl⟩
    exact ⟨c, s₁, country, s₂, language, s₃, counts, hcoerced, hcountry, hlanguage, happlied, rfl⟩
  · rintro ⟨c, s₁, country, s₂, language, s₃, counts, hcoerced, hcountry, hlanguage, happlied, rfl⟩
    exact ⟨c, s₁, hcoerced, ⟨⟩, _, rfl, country, s₂, hcountry, language, s₃, hlanguage, counts, s',
      happlied, rfl, rfl⟩

def Run.record (r : Run) (options : SplitOptions) : RunRecord :=
  ⟨r.status, r.startedAt, r.finishedAt, r.progress, options, none⟩

/-- How a run with given warnings ends. -/
def statusOf (warnings : List Fault) : Status :=
  if warnings.isEmpty then .completed else .completedWithWarnings

/-- A run that has a value was done in a world that was ready, and its stages and its record were
done there. -/
theorem of_on_run {logger : Journal.Logger} {given : Fields} {w w' : World} {r : Run}
    (h : (run logger given).on w = (.ok r, w')) :
    ∃ options s, SplitOptions.resolve given = .ok options ∧ w.Ready ∧
      Performed options w.data (r.progress, r.warnings) s ∧ r.status = statusOf r.warnings ∧
      Recorded (r.record options) s r.runId w'.data ∧ World.Continues w w' := by
  obtain ⟨options, v₁, hoptions, h⟩ := on_bind_eq_ok.1 h
  obtain ⟨startedAt, v₂, hstarted, h⟩ := on_bind_eq_ok.1 h
  obtain ⟨_, v₃, hlog, h⟩ := on_bind_eq_ok.1 h
  obtain ⟨⟨progress, warnings⟩, v₄, hperform, h⟩ := on_bind_eq_ok.1 h
  obtain ⟨finishedAt, v₅, hfinished, h⟩ := on_bind_eq_ok.1 h
  obtain ⟨runId, v₆, hrecord, h⟩ := on_bind_eq_ok.1 h
  obtain ⟨_, v₇, hlog', hlast⟩ := on_bind_eq_ok.1 h
  have hresolve : SplitOptions.resolve given = .ok options ∧ v₁ = w := by
    cases hresolve : SplitOptions.resolve given with
    | error f =>
      rw [hresolve] at hoptions
      cases (Prod.mk.inj hoptions).1
    | ok o =>
      rw [hresolve] at hoptions
      obtain ⟨hvalue, rfl⟩ := Prod.mk.inj hoptions
      exact ⟨congrArg Except.ok (Except.ok.inj hvalue), rfl⟩
  obtain ⟨hresolve, rfl⟩ := hresolve
  obtain ⟨hbegun, hdata₂⟩ := of_on_readClock hstarted
  obtain ⟨hnoted, hdata₃⟩ := of_on_log hlog
  obtain ⟨hended, hdata₅⟩ := of_on_readClock hfinished
  obtain ⟨hclosed, hdata₇⟩ := of_on_log hlog'
  obtain ⟨hready, hrecorded, hadded⟩ := of_on_recordRun hrecord
  have hattempt := Stages.on_perform_eq_ok.1 hperform
  have hdone := (computes_attempt _).orderly.continues_of_on hattempt
  have hbefore : World.Continues v₁ v₃ := hbegun.trans hnoted
  have hready₃ : v₃.Ready := hdone.ready.1 (hended.ready.1 hready)
  obtain ⟨hvalue, rfl⟩ := Prod.mk.inj hlast
  obtain rfl := Except.ok.inj hvalue
  have hperformed := (computes_attempt _).of_on hready₃ hattempt
  rw [hdata₃, hdata₂] at hperformed
  rw [hdata₅] at hrecorded
  rw [hdata₇]
  exact ⟨options, v₄.data, hresolve, hbefore.ready.1 hready₃, hperformed, rfl, hrecorded,
    (((hbefore.trans hdone).trans hended).trans hadded).trans hclosed⟩

/-- A run has a value where the clock ticks, the stages can be done and the next number is free. -/
theorem exists_on_run (logger : Journal.Logger) {given : Fields} {options : SplitOptions}
    (hresolve : SplitOptions.resolve given = .ok options) {w : World} (hw : w.Ready)
    (hticks : w.Ticks) {progress : Progress} {warnings : List Fault} {s : Store}
    (hperformed : Performed options w.data (progress, warnings) s)
    (hruns : s.normalizationRuns.isSome) (hnumber : Cell.isStorable (runNumber s) = true) :
    ∃ r w', (run logger given).on w = (.ok r, w') ∧ r.progress = progress ∧
      r.warnings = warnings := by
  let logger' := logger.withContext [("component", .string "normalizer")]
  obtain ⟨startedAt, v₁, hstarted, hdata₁, h₁⟩ := exists_on_readClock hticks
  obtain ⟨v₂, hlog, hdata₂, h₂⟩ := exists_on_log logger' .info "normalization started"
    [("options", .object options.fields)] v₁
  have hbefore := h₁.trans h₂
  have hready := hbefore.ready.2 hw
  rw [← hdata₁, ← hdata₂] at hperformed
  obtain ⟨v₃, hattempt, rfl, h₃⟩ :=
    (computes_attempt ⟨logger', options, startedAt⟩).exists_on hready hperformed
  have hperform := Stages.on_perform_eq_ok.2 hattempt
  obtain ⟨finishedAt, v₄, hfinished, hdata₄, h₄⟩ :=
    exists_on_readClock (h₃.ticks (hbefore.ticks hticks))
  let record : RunRecord :=
    ⟨statusOf warnings, startedAt, finishedAt, progress, options, none⟩
  have hrecorded : Recorded record v₄.data (runNumber v₃.data)
      (withRun (record.row (runNumber v₃.data)) v₄.data) := by
    rw [hdata₄]
    exact ⟨hruns, rfl, hnumber, rfl⟩
  obtain ⟨v₅, hrecord, -, h₅⟩ := exists_on_recordRun ((h₃.trans h₄).ready.2 hready) hrecorded
  obtain ⟨v₆, hlog', -, h₆⟩ := exists_on_log logger' .info "normalization finished"
    [("runId", .ofInt (runNumber v₃.data)), ("status", .string (statusOf warnings).text),
     ("warnings", .ofNat warnings.length)] v₅
  refine ⟨⟨runNumber v₃.data, statusOf warnings, startedAt, finishedAt, progress, warnings⟩, v₆, ?_,
    rfl, rfl⟩
  refine on_bind_eq_ok.2 ⟨options, w, by rw [hresolve]; rfl, ?_⟩
  refine on_bind_eq_ok.2 ⟨startedAt, v₁, hstarted, ?_⟩
  refine on_bind_eq_ok.2 ⟨⟨⟩, v₂, hlog, ?_⟩
  refine on_bind_eq_ok.2 ⟨(progress, warnings), v₃, hperform, ?_⟩
  refine on_bind_eq_ok.2 ⟨finishedAt, v₄, hfinished, ?_⟩
  refine on_bind_eq_ok.2 ⟨runNumber v₃.data, v₅, hrecord, ?_⟩
  exact on_bind_eq_ok.2 ⟨⟨⟩, v₆, hlog', rfl⟩

end FilmReport.Normalize
