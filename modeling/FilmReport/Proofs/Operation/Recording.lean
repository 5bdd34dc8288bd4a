import FilmReport.Proofs.Operation.Course
import FilmReport.Proofs.Store.Avoided
import FilmReport.Proofs.Normalize.Reseeded
import FilmReport.Proofs.Operation.Escapes

/-!
The tables in which the migrations, the runs and the numbers that were given out are kept. Requests
write films and what is made of them; but for the record of a run they write these tables only if
they are told to delete in them or to put sentinels there.

Every run is recorded. Where rows can be written, the clock gives instants and there is a number for
the run, its stages leave the records of the runs as they are, and the run adds just one, which
tells how it ended (`Normalize.records_run`).
-/

set_option autoImplicit false
set_option relaxedAutoImplicit false

namespace FilmReport

open Dataset Normalize Store Act

/-- The tables that tell what was done with a database. -/
def Table.books : List Table :=
  [.schemaMigrations, .normalizationRuns, .sequences]

variable {t : Table}

namespace Statement

variable {st : Statement}

/-- A statement that writes rows, but none in the given one of the books. -/
def Bypasses (t : Table) : Statement → Prop
  | write kind _ => ∃ types, (kind, types) ∈ declared
  | clear u => u ≠ t
  | rule r => ∀ u, named? .notModifiable r.table = .ok u → u ≠ t
  | record _ => t = .schemaMigrations
  | delete u _ _ => u ≠ t
  | migrate _ | keepSteps | recordStep _ => False
  | _ => True

theorem avoids_of_bypasses (ht : t ∈ Table.books) (h : st.Bypasses t) {s : Store} {c : Change}
    (hc : st.Uses s c) : c.ChangesRows ∧ c.Avoids t := by
  cases st with
  | write kind cells =>
    obtain ⟨row, -, rfl⟩ := hc
    obtain ⟨types, hdeclared⟩ := h
    have hall : ∀ x ∈ declared, x.1.table ∉ Table.books := by decide
    exact ⟨trivial, fun hkind => hall _ hdeclared (hkind ▸ ht)⟩
  | stage kind staged =>
    obtain ⟨m, -, rfl⟩ := hc
    cases kind <;> exact ⟨trivial, by rintro rfl; revert ht; decide⟩
  | publish kind =>
    obtain ⟨rows, -, row, -, rfl⟩ := hc
    cases kind <;> exact ⟨trivial, by rintro rfl; revert ht; decide⟩
  | rule r =>
    obtain ⟨u, hu, rfl⟩ := hc
    exact ⟨trivial, h u hu⟩
  | record r =>
    obtain rfl : t = .schemaMigrations := h
    obtain ⟨id, rfl⟩ | ⟨id, rfl⟩ := hc
    · exact ⟨trivial, Table.noConfusion⟩
    · exact ⟨trivial, Table.noConfusion⟩
  | amounts =>
    obtain rfl := hc
    exact ⟨trivial, by rintro rfl; revert ht; decide⟩
  | clear u =>
    obtain rfl := hc
    exact ⟨trivial, h⟩
  | delete u column value =>
    obtain rfl := hc
    exact ⟨trivial, h⟩
  | migrate m => exact h.elim
  | keepSteps => exact h.elim
  | recordStep row => exact h.elim

end Statement

namespace Request

variable {request : Request} {st : Statement}

/-- A request that writes no rows in the given one of the books. -/
def Bypasses (t : Table) : Request → Prop
  | operation (.write kind _) => ∃ types, (kind, types) ∈ declared
  | operation (.standardize _ rules) =>
    ∀ r ∈ rulesOf rules, ∀ u, named? .notModifiable r.table = .ok u → u ≠ t
  | normalize _ _ => t = .schemaMigrations
  | delete u _ _ => u ≠ t
  | _ => True

theorem bypasses_of_memberships (ht : t ∈ Table.books) {kind : MembershipKind}
    (hst : st.Stages kind ∨ st.Publishes kind) : st.Bypasses t := by
  have hstaging : kind.staging ≠ t := by rintro rfl; revert ht; cases kind <;> decide
  have hpublished : kind.published ≠ t := by rintro rfl; revert ht; cases kind <;> decide
  rcases hst with (rfl | ⟨staged, rfl⟩) | rfl | rfl | rfl
  · exact hstaging
  · trivial
  · exact hpublished
  · trivial
  · exact hstaging

theorem bypasses_of_normalizes (ht : t ∈ Table.books) (hst : st.Normalizes) : st.Bypasses t := by
  obtain rfl | ⟨kind, hst⟩ | ⟨r, hr, rfl⟩ := hst
  · trivial
  · exact bypasses_of_memberships ht hst
  · intro u hu
    have hstandard : ∀ r ∈ Rule.standard, r.table = "movie" ∨ r.table = "ratings" := by decide
    obtain rfl | rfl := Statement.named?_of_declared (hstandard r hr) hu <;>
      · rintro rfl
        revert ht
        decide

theorem bypasses_of_issues (ht : t ∈ Table.books) (h : request.Bypasses t)
    (hst : request.Issues st) : st.Bypasses t := by
  cases request with
  | operation op =>
    cases op with
    | write kind given =>
      obtain ⟨input, -, cells, -, rfl⟩ := hst
      exact h
    | seed d =>
      obtain ⟨rows, hrows, fields, hfields, cells, -, rfl⟩ := hst
      obtain ⟨types, hdeclared, -⟩ := declares_of_mem_rowsOf d rows hrows fields hfields
      exact ⟨types, hdeclared⟩
    | coerce logger =>
      obtain rfl := hst
      trivial
    | stage asked options =>
      obtain ⟨kind, -, hst⟩ := hst
      exact bypasses_of_memberships ht (Or.inl hst)
    | publish asked =>
      obtain ⟨kind, -, hst⟩ := hst
      exact bypasses_of_memberships ht (Or.inr hst)
    | standardize logger rules =>
      obtain ⟨r, hr, rfl⟩ := hst
      exact h r hr
  | rebuild logger asked given =>
    obtain ⟨kind, -, hst⟩ := hst
    exact bypasses_of_memberships ht hst
  | normalize logger given =>
    obtain hst | ⟨r, rfl⟩ := hst
    · exact bypasses_of_normalizes ht hst
    · exact h
  | delete u column value =>
    obtain rfl := hst
    exact h

/-- Where the changes of rows in other tables preserve a property, a request that writes no rows in
one of the books keeps it. -/
theorem keeps_of_bypasses {I : Store → Prop} (ht : t ∈ Table.books) (h : request.Bypasses t)
    (hI : ∀ c : Change, c.ChangesRows → c.Avoids t → c.Preserves I) : Keeps I request.act := by
  refine Request.keeps fun st hst => Statement.preserves_of_uses fun s c _ hc => ?_
  obtain ⟨hrows, havoids⟩ := Statement.avoids_of_bypasses ht (bypasses_of_issues ht h hst) hc
  exact hI c hrows havoids

end Request

/-- A course whose calls write no rows in the given one of the books. -/
def Course.Bypasses (t : Table) (course : Course) : Prop :=
  ∀ c ∈ course.calls, c.request.Bypasses t

end FilmReport

namespace FilmReport

open World Act Store Normalize

variable {α β : Type} {s s' : Store}

namespace Store

theorem mem_lineage {t : Table} : t ∈ lineage ↔ t = .normalizationRuns ∨ t = .sequences := by
  rw [lineage, List.mem_cons, List.mem_singleton]

/-- The records of the runs, and the number that was given last, are those of another store. -/
def SameRuns (s s' : Store) : Prop :=
  ∀ t ∈ lineage, s'.get t = s.get t

theorem SameRuns.refl (s : Store) : s.SameRuns s :=
  fun _ _ => rfl

theorem SameRuns.trans {s'' : Store} (h : s.SameRuns s') (h' : s'.SameRuns s'') : s.SameRuns s'' :=
  fun t ht => (h' t ht).trans (h t ht)

namespace SameRuns

variable (h : s.SameRuns s')
include h

theorem normalizationRuns : s'.normalizationRuns = s.normalizationRuns :=
  h .normalizationRuns (mem_lineage.2 (.inl rfl))

theorem sequences : s'.sequences = s.sequences :=
  h .sequences (mem_lineage.2 (.inr rfl))

theorem rowsOf : s'.rowsOf .normalizationRuns = s.rowsOf .normalizationRuns :=
  congrArg (fun rows => (rows.getD []).map (·.row)) h.normalizationRuns

theorem lastGiven : s'.lastGiven .normalizationRuns = s.lastGiven .normalizationRuns := by
  rw [Store.lastGiven, Store.lastGiven, h.sequences]

theorem runNumber : runNumber s' = runNumber s :=
  runNumber_congr h.normalizationRuns h.sequences

end SameRuns

theorem mem_books_of_mem_lineage {t : Table} (ht : t ∈ lineage) : t ∈ Table.books :=
  List.mem_cons_of_mem _ ht

theorem references_of_mem_lineage : ∀ t ∈ lineage, (layout t).references = [] := by
  intro t ht
  rcases mem_lineage.1 ht with rfl | rfl <;> rfl

theorem rowsOf_withRun {row : RunRow} (h : s.normalizationRuns.isSome) :
    (withRun row s).rowsOf .normalizationRuns = s.rowsOf .normalizationRuns ++ [row] := by
  obtain ⟨runs, hruns⟩ := Option.isSome_iff_exists.1 h
  have hget : s.get .normalizationRuns = some runs := hruns
  have hafter : (withRun row s).get .normalizationRuns =
      some (runs ++ [⟨nextNumber runs, row⟩]) := by
    change s.normalizationRuns.map _ = _
    rw [hruns]
    rfl
  rw [rowsOf_of_eq_some hget, rowsOf_of_eq_some hafter]
  exact List.map_append

end Store

/-- A statement that writes neither records of runs nor numbers preserves what tells of them. -/
theorem Statement.preserves_of_bypasses {st : Statement} {I : Store → Prop}
    (hst : ∀ t ∈ lineage, st.Bypasses t) (hI : ∀ s s', I s → s.SameRuns s' → I s') :
    st.Preserves I := by
  refine preserves_of_uses fun s c _ hc s₁ s₂ hs₁ hs₂ => hI s₁ s₂ hs₁ fun t ht => ?_
  obtain ⟨hrows, havoids⟩ := avoids_of_bypasses (mem_books_of_mem_lineage ht) (hst t ht) hc
  exact Change.get_of_changesRows hrows havoids (references_of_mem_lineage t ht) hs₂

namespace Normalize

/-- A world in which a run can be recorded. -/
structure Recordable (w : World) : Prop where
  ready : w.Ready
  ticks : w.Ticks
  runs : w.data.normalizationRuns.isSome
  number : Cell.isStorable (runNumber w.data) = true

theorem Recordable.of_sameRuns {w w' : World} (h : Recordable w) (hcontinues : Continues w w')
    (hsame : w.data.SameRuns w'.data) : Recordable w' where
  ready := hcontinues.ready.2 h.ready
  ticks := hcontinues.ticks h.ticks
  runs := hsame.normalizationRuns ▸ h.runs
  number := hsame.runNumber ▸ h.number

/-- The row that a failed run adds. -/
structure FailedRow (s : Store) (f : Fault) (row : RunRow) (s' : Store) : Prop where
  rows : s'.rowsOf .normalizationRuns = s.rowsOf .normalizationRuns ++ [row]
  id : row.id = runNumber s
  status : row.status = Status.failed.text
  code : row.errorCode = some f.code.text

theorem FailedRow.of_sameRuns {s₀ : Store} {f : Fault} {row : RunRow} (h : FailedRow s f row s')
    (hsame : s₀.SameRuns s) : FailedRow s₀ f row s' :=
  ⟨hsame.rowsOf ▸ h.rows, hsame.runNumber ▸ h.id, h.status, h.code⟩

/-- What becomes of the records of the runs while a run is under way: where it can be recorded, an
action that has a value leaves them as they are, and one that has none ends the run with a record of
its failure. -/
def Accounts (act : Act α) : Prop :=
  ∀ w, Recordable w →
    (∃ a w', act.on w = (.ok a, w') ∧ Continues w w' ∧ w.data.SameRuns w'.data) ∨
      ∃ f w' row, act.on w = (.error (.fault f), w') ∧ FailedRow w.data f row w'.data

namespace Accounts

theorem pure (a : α) : Accounts (pure a : Act α) :=
  fun w _ => .inl ⟨a, w, rfl, Continues.refl w, SameRuns.refl _⟩

theorem bind {act : Act α} {f : α → Act β} (h : Accounts act) (hf : ∀ a, Accounts (f a)) :
    Accounts (act >>= f) := by
  intro w hw
  rcases h w hw with ⟨a, v, hon, hcontinues, hsame⟩ | ⟨fault, v, row, hon, hrow⟩
  · rw [on_bind_of_ok hon]
    rcases hf a v (hw.of_sameRuns hcontinues hsame) with
      ⟨b, w', hon', hcontinues', hsame'⟩ | ⟨fault, w', row, hon', hrow⟩
    · exact .inl ⟨b, w', hon', hcontinues.trans hcontinues', hsame.trans hsame'⟩
    · exact .inr ⟨fault, w', row, hon', hrow.of_sameRuns hsame⟩
  · exact .inr ⟨fault, v, row, on_bind_of_error hon, hrow⟩

theorem log (logger : Journal.Logger) (level : Journal.Level) (message : String)
    (context : Fields) : Accounts (Act.log logger level message context) := by
  intro w _
  obtain ⟨w', hon, hdata, hcontinues⟩ := exists_on_log logger level message context w
  exact .inl ⟨⟨⟩, w', hon, hcontinues, hdata ▸ SameRuns.refl _⟩

end Accounts

namespace Stages

variable {st : Stages} {progress : Progress}

end Stages

end Normalize
end FilmReport
