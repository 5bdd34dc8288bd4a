import FilmReport.Proofs.Operation.Recording

/-!
The numbers of runs. A store is counted in which no record has a number beyond the last that was
given; whatever a request, a migration or the removal of a table does, no number is given but to a
run, and none is taken back (`Request.keepsTo_countedFrom`, `Store.sameRuns_of_drop`).
-/

set_option autoImplicit false
set_option relaxedAutoImplicit false

namespace FilmReport

open World Act Store Normalize

variable {n : ℕ} {b : ℤ} {s s' : Store}

namespace Store

/-- A store in which runs are recorded and counted: no record has a number beyond the last that was
given, and there are numbers for `n` more runs. -/
structure Counted (n : ℕ) (s : Store) : Prop where
  runs : s.normalizationRuns.isSome
  sequences : s.sequences.isSome
  rows : ∀ row ∈ s.rowsOf .normalizationRuns, row.id ≤ s.lastGiven .normalizationRuns
  least : -2 ^ 63 ≤ s.lastGiven .normalizationRuns
  room : max (s.lastGiven .normalizationRuns) 0 + n < 2 ^ 63

/-- A counted store in which no number after the given one was given last. -/
def CountedFrom (b : ℤ) (n : ℕ) (s : Store) : Prop :=
  s.Counted n ∧ b ≤ s.lastGiven .normalizationRuns

theorem Counted.mono {m : ℕ} (h : s.Counted n) (hmn : m ≤ n) : s.Counted m where
  runs := h.runs
  sequences := h.sequences
  rows := h.rows
  least := h.least
  room := by
    have := h.room
    omega

theorem Counted.of_sameRuns (h : s.Counted n) (hsame : s.SameRuns s') : s'.Counted n where
  runs := hsame.normalizationRuns ▸ h.runs
  sequences := hsame.sequences ▸ h.sequences
  rows row hrow := hsame.lastGiven ▸ h.rows row (hsame.rowsOf ▸ hrow)
  least := hsame.lastGiven ▸ h.least
  room := hsame.lastGiven ▸ h.room

/-- The next number is the one after the last that was given, if this is not negative. -/
theorem Counted.runNumber_le (h : s.Counted n) :
    runNumber s ≤ max (s.lastGiven .normalizationRuns) 0 + 1 := by
  refine nextRun_le (Int.le_max_left _ _) (fun row hrow => ?_) fun _ => Int.le_max_right _ _
  exact (h.rows row hrow).trans (Int.le_max_left _ _)

theorem lastGiven_lt_runNumber (s : Store) : s.lastGiven .normalizationRuns < runNumber s :=
  given_lt_nextRun _ _

theorem Counted.isStorable (h : s.Counted (n + 1)) : Cell.isStorable (runNumber s) = true := by
  have hgreatest := h.runNumber_le
  have hroom := h.room
  have hleast := h.least
  have hless := lastGiven_lt_runNumber s
  rw [Cell.isStorable, Bool.and_eq_true, decide_eq_true_eq, decide_eq_true_eq]
  omega

namespace CountedFrom

theorem mono {m : ℕ} (hmn : m ≤ n) (s : Store) (h : s.CountedFrom b n) : s.CountedFrom b m :=
  ⟨h.1.mono hmn, h.2⟩

theorem of_sameRuns (h : s.CountedFrom b n) (hsame : s.SameRuns s') : s'.CountedFrom b n :=
  ⟨h.1.of_sameRuns hsame, hsame.lastGiven ▸ h.2⟩

/-- A record takes one number. -/
theorem of_recorded {r : RunRecord} {id : ℤ} (h : s.CountedFrom b (n + 1))
    (hrecorded : Recorded r s id s') : s'.CountedFrom b n := by
  obtain ⟨hruns, rfl, -, rfl⟩ := hrecorded
  have hgreatest := h.1.runNumber_le
  have hless := lastGiven_lt_runNumber s
  have hroom := h.1.room
  have hleast := h.1.least
  have hlast : (withRun (r.row (runNumber s)) s).lastGiven .normalizationRuns = runNumber s :=
    lastGiven_giveLast _ _ h.1.sequences
  have hfrom := h.2
  refine ⟨⟨?_, ?_, fun row hrow => ?_, by omega, by omega⟩, by omega⟩
  · exact (Option.isSome_map ..).trans hruns
  · exact (Option.isSome_map ..).trans h.1.sequences
  · rw [rowsOf_withRun hruns] at hrow
    rw [hlast]
    rcases List.mem_append.1 hrow with hold | hnew
    · exact (h.1.rows row hold).trans hless.le
    · obtain rfl := List.mem_singleton.1 hnew
      exact le_refl _

/-- A deletion of records leaves the last number that was given. -/
theorem of_delete {which : Selection .normalizationRuns} {k : ℕ} (h : s.CountedFrom b n)
    (hdelete : s.delete .normalizationRuns which = .ok (k, s')) : s'.CountedFrom b n := by
  have hsequences : s'.sequences = s.sequences :=
    get_of_delete (u := .sequences) (by decide) (List.forall_mem_nil _) hdelete
  have hlast : s'.lastGiven .normalizationRuns = s.lastGiven .normalizationRuns := by
    rw [lastGiven, lastGiven, hsequences]
  obtain ⟨rows, selects, hget, -, hkept, -⟩ := delete_cases hdelete
  have hrows := h.1.rows
  rw [rowsOf_of_eq_some hget] at hrows
  refine ⟨⟨Option.isSome_of_eq_some hkept, hsequences ▸ h.1.sequences, fun row hrow => ?_,
    hlast ▸ h.1.least, hlast ▸ h.1.room⟩, hlast ▸ h.2⟩
  rw [rowsOf_of_eq_some hkept] at hrow
  obtain ⟨m, hm, rfl⟩ := List.mem_map.1 hrow
  exact hlast ▸ hrows _ (List.mem_map_of_mem (List.mem_filter.1 hm).1)

/-- Tables that are there are not made, and the table of runs is. -/
theorem of_create {t : Table} (h : s.CountedFrom b n) : (s.create t).CountedFrom b n := by
  rw [Store.create]
  split
  · exact h
  · next hmissing =>
    have hother : ∀ u ∈ lineage, u ≠ t := by
      rintro u hu rfl
      rcases mem_lineage.1 hu with rfl | rfl
      · exact hmissing h.1.runs
      · exact hmissing h.1.sequences
    have hput : s.SameRuns (s.put t (some [])) :=
      fun u hu => get_put_of_ne s (some []) (hother u hu)
    cases t with
    | normalizationRuns => exact absurd rfl (hother .normalizationRuns (by decide))
    | _ => exact h.of_sameRuns hput

theorem preserves_statement {st : Statement} (hst : ∀ t ∈ lineage, st.Bypasses t) :
    st.Preserves (CountedFrom b n) :=
  Statement.preserves_of_bypasses hst fun _ _ hs hsame => of_sameRuns hs hsame

/-- Migrations give no numbers. -/
theorem preserves_migration {st : Statement} (hst : Migration.Issues st) :
    st.Preserves (CountedFrom b n) := by
  refine Statement.preserves_of_uses fun s c _ hc => ?_
  have hcreate (t : Table) : (Change.create t).Preserves (CountedFrom b n) :=
    fun s₁ s₂ hs₁ hs₂ => Except.ok.inj hs₂ ▸ of_create hs₁
  have hrest (hrows : ∀ s₁ s₂ : Store, c.after s₁ = .ok s₂ → s₁.SameRuns s₂) :
      c.Preserves (CountedFrom b n) :=
    fun s₁ s₂ hs₁ hs₂ => of_sameRuns hs₁ (hrows s₁ s₂ hs₂)
  obtain rfl | ⟨m, rfl⟩ | ⟨row, rfl⟩ := hst
  · obtain rfl := hc
    exact hcreate _
  · obtain rfl | ⟨t, rfl⟩ := hc
    · refine hrest fun s₁ s₂ hs₂ => ?_
      obtain ⟨rows, -, hs₂⟩ := exists_of_bind hs₂
      split at hs₂
      · cases hs₂
      · obtain rfl := Except.ok.inj hs₂
        intro t ht
        rcases mem_lineage.1 ht with rfl | rfl <;> rfl
    · exact hcreate t
  · obtain rfl := hc
    refine hrest fun s₁ s₂ hs₂ t ht => ?_
    have havoids : (Change.insert .schemaMigrations .refuse row).Avoids t := by
      rintro rfl
      exact absurd ht (by decide)
    have hrows : (Change.insert .schemaMigrations .refuse row).ChangesRows := trivial
    exact Change.get_of_changesRows hrows havoids (references_of_mem_lineage t ht) hs₂

end CountedFrom

/-- What is left of a store when a table goes to which no row refers any more. -/
def without (t : Table) (s : Store) : Except StoreError Store :=
  match t with
  | .movie => .ok { s.put t none with hasAmount := false }
  | .normalizationRuns => .ok ((s.put t none).forget t)
  | .sequences => .error (.notDroppable t.name)
  | _ => .ok (s.put t none)

theorem drop_eq (t : Table) (s : Store) : s.drop t = (do
    let _ ← s.numbered? t
    if (childrenOf t).isEmpty then s.without t
    else do
      let (_, after) ← s.delete t (everyRow t)
      after.without t) := by
  rw [drop]
  congr 1

theorem roomy_drop (t : Table) (s : Store) : Roomy (s.drop t) := by
  have hwithout (s : Store) : Roomy (s.without t) := by
    cases t with
    | sequences => exact roomy_error StoreError.noConfusion
    | _ => exact roomy_ok _
  rw [drop_eq]
  refine roomy_bind (roomy_numbered? s t) fun _ => ?_
  split
  · exact hwithout s
  · exact roomy_bind (roomy_delete (roomy_ok _)) fun x => hwithout x.2

/-- A table that goes leaves the others, unless numbers are forgotten with it. -/
theorem get_of_without {t u : Table} (hu : u ≠ t) (hruns : t ≠ .normalizationRuns)
    (h : s.without t = .ok s') : s'.get u = s.get u := by
  have hput : (s.put t none).get u = s.get u := get_put_of_ne s none hu
  cases t with
  | movie =>
    obtain rfl := Except.ok.inj h
    rw [← hput]
    cases u <;> rfl
  | normalizationRuns => exact absurd rfl hruns
  | sequences => cases h
  | _ =>
    obtain rfl := Except.ok.inj h
    exact hput

/-- A table that is dropped takes only rows along that refer to it. -/
theorem sameRuns_of_drop {t : Table} (hruns : t ≠ .normalizationRuns) (h : s.drop t = .ok s') :
    s.SameRuns s' := by
  intro u hu
  rw [drop_eq] at h
  obtain ⟨_, -, h⟩ := exists_of_bind h
  have hfinish {emptied : Store} (h : emptied.without t = .ok s')
      (hemptied : u ≠ t → emptied.get u = s.get u) : s'.get u = s.get u := by
    have hne : u ≠ t := by
      rintro rfl
      rcases mem_lineage.1 hu with rfl | rfl
      · exact hruns rfl
      · cases h
    exact (get_of_without hne hruns h).trans (hemptied hne)
  split at h
  · exact hfinish h fun _ => rfl
  · obtain ⟨⟨k, after⟩, hdelete, h⟩ := exists_of_bind h
    refine hfinish h fun hne => get_of_delete hne ?_ hdelete
    rw [references_of_mem_lineage u hu]
    exact List.forall_mem_nil _

end Store

/-- A request that gives no numbers but those of runs and takes none back. -/
def Request.KeepsCount : Request → Prop
  | normalize _ _ => True
  | delete t _ _ => t ≠ .sequences
  | request => ∀ t ∈ lineage, request.Bypasses t

theorem Request.keepsTo_countedFrom {request : Request} (h : request.KeepsCount) :
    KeepsTo (CountedFrom b (request.runs + n)) (CountedFrom b n) request.act := by
  have hplain (hruns : request.runs = 0) (hall : ∀ t ∈ lineage, request.Bypasses t) :
      KeepsTo (CountedFrom b (request.runs + n)) (CountedFrom b n) request.act := by
    rw [hruns, Nat.zero_add]
    refine Request.keeps fun st hst => CountedFrom.preserves_statement fun t ht => ?_
    exact bypasses_of_issues (mem_books_of_mem_lineage ht) (hall t ht) hst
  cases request with
  | operation op => exact hplain rfl h
  | rebuild logger asked given => exact hplain rfl h
  | delete t column value =>
    by_cases ht : t = .normalizationRuns
    · subst ht
      refine (Request.keeps fun st hst => ?_).to fun s hs => CountedFrom.mono (by omega) s hs
      obtain rfl := hst
      intro s s' hs hs'
      obtain ⟨k, hdelete⟩ := exists_of_map_snd hs'
      exact hs.of_delete hdelete
    · refine hplain rfl fun u hu => ?_
      rcases mem_lineage.1 hu with rfl | rfl
      · exact ht
      · exact h
  | normalize logger given =>
    have hmono : ∀ s, CountedFrom b (n + 1) s → CountedFrom b n s :=
      fun s => CountedFrom.mono (Nat.le_succ n) s
    have hrecord : Statement.Records (CountedFrom b (n + 1)) (CountedFrom b n) := by
      intro r s s' hs hs'
      obtain ⟨id, hadd⟩ := exists_of_map_snd hs'
      exact hs.of_recorded (addRun_eq_ok.1 hadd)
    have hrun := keepsTo_run hmono hrecord (fun st hst => CountedFrom.preserves_statement
      fun t ht => bypasses_of_normalizes (mem_books_of_mem_lineage ht) hst) logger given
    rw [show (normalize logger given).runs + n = n + 1 from Nat.add_comm 1 n]
    exact hrun.bind (fun _ => Keeps.pure _) fun _ hs => hs

theorem Request.orderly_of_countedFrom (request : Request) :
    OrderlyFrom (CountedFrom b (request.runs + n)) request.act := by
  refine request.orderly.mono fun s hs => ?_
  cases request with
  | normalize logger given =>
    have hs : s.Counted (n + 1) := Nat.add_comm 1 n ▸ hs.1
    exact fun _ => hs.isStorable
  | _ => trivial

end FilmReport
