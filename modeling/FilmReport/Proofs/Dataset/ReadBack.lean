import FilmReport.Dataset.Read
import FilmReport.Proofs.Dataset.Seeded
import FilmReport.Proofs.Dataset.Written
import FilmReport.Proofs.Shape.Checked
import FilmReport.Proofs.Store.Order

/-!
Reading back of a dataset that was seeded into fresh tables. What is read are the records of the
dataset: all movies in the order of their identifiers, each by its own, and the last rating of each
movie.
-/

set_option autoImplicit false
set_option relaxedAutoImplicit false

namespace FilmReport.Dataset

open Act Store Shape Checked

section checks

theorem toInteger_cellOf {field : Option ℤ} (h : ∀ n, field = some n → n.natAbs < 2 ^ 53) :
    (cellOf field).toInteger = field.elim .null .int := by
  cases field with
  | none => rfl
  | some n => exact Cell.toInteger_ofInt (h n rfl)

end checks

section reading

variable {w : World} {id : String}

end reading

section sorted

variable {s : Store} {d : Dataset}

/-- The rows that a key selects are the row of the last record with this key. -/
theorem HoldsLast.filter_eq {α κ : Type} [DecidableEq κ] {key : α → κ} {records : List α}
    {t : Table} {row : α → t.Row} (h : HoldsLast s t key row records) {p : t.Row → Bool} {k : κ}
    (hp : ∀ a, p (row a) = true ↔ key a = k) :
    (s.rowsOf t).filter p = (lastOf key records k).toList.map row := by
  have hmem : ∀ r, r ∈ (s.rowsOf t).filter p ↔ ∃ a, lastOf key records k = some a ∧ row a = r := by
    intro r
    rw [List.mem_filter, h.mem_iff]
    constructor
    · rintro ⟨⟨a, ha, rfl⟩, hr⟩
      exact ⟨a, (hp a).1 hr ▸ ha, rfl⟩
    · rintro ⟨a, ha, rfl⟩
      obtain ⟨-, rfl⟩ := mem_of_lastOf ha
      exact ⟨⟨a, ha, rfl⟩, (hp a).2 rfl⟩
  cases hlast : lastOf key records k with
  | none =>
    refine List.eq_nil_iff_forall_not_mem.2 fun r hr => ?_
    obtain ⟨a, ha, -⟩ := (hmem r).1 hr
    rw [hlast] at ha
    cases ha
  | some a =>
    refine List.perm_singleton.1 ((List.perm_ext_iff_of_nodup (h.nodup.filter p)
      (List.nodup_singleton _)).2 fun r => ?_)
    rw [hmem, hlast, List.mem_singleton]
    simp [eq_comm]

end sorted

end FilmReport.Dataset
