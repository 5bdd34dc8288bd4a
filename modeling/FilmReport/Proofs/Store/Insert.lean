import FilmReport.Proofs.Store.Sound
import FilmReport.Store.Membership

/-!
Insertion of rows. Rows are inserted one after the other just if each is admitted beside those that
came before it (`Store.insertAll_eq_ok`); they get consecutive numbers. An insertion leaves the
conditions on the rows of all tables as they were.
-/

set_option autoImplicit false
set_option relaxedAutoImplicit false

namespace FilmReport.Store

variable {α : Type}

theorem rows?_eq_ok {s : Store} {t : Table} {rows : List t.Row} :
    s.rows? t = .ok rows ↔ ∃ numbered, s.get t = some numbered ∧ rows = numbered.map (·.row) := by
  rw [rows?, numbered?]
  cases s.get t with
  | none =>
    constructor
    · intro h
      cases h
    · rintro ⟨_, h, _⟩
      cases h
  | some numbered =>
    constructor
    · intro h
      exact ⟨numbered, rfl, (Except.ok.inj h).symm⟩
    · rintro ⟨_, h, rfl⟩
      rw [Option.some.inj h]
      rfl

theorem rowsOf_of_eq_some {t : Table} {s : Store} {rows : List (Numbered t.Row)}
    (h : s.get t = some rows) : s.rowsOf t = rows.map (·.row) := by
  rw [rowsOf, h]
  rfl

/-- Rows with consecutive numbers. -/
def numberedFrom {ρ : Type} (n : Int) : List ρ → List (Numbered ρ)
  | [] => []
  | row :: rest => ⟨n, row⟩ :: numberedFrom (n + 1) rest

theorem map_row_numberedFrom {ρ : Type} (n : Int) (rows : List ρ) :
    (numberedFrom n rows).map (·.row) = rows := by
  induction rows generalizing n with
  | nil => rfl
  | cons row rest ih => rw [numberedFrom, List.map_cons, ih]

theorem length_numberedFrom {ρ : Type} (n : Int) (rows : List ρ) :
    (numberedFrom n rows).length = rows.length := by
  rw [← List.length_map (·.row), map_row_numberedFrom]

/-- A row that can be inserted beside the rows of its table. -/
structure Admits (s : Store) (t : Table) (rows : List t.Row) (row : t.Row) : Prop where
  parents : s.parentsPresent t = .ok ()
  conditions : meetsConditions t row = .ok ()
  keys : keysFree t rows row = .ok ()
  references : s.referencesHold t row = true

/-- Rows that can be inserted one after the other. -/
def AdmitsAll (s : Store) (t : Table) : List t.Row → List t.Row → Prop
  | _, [] => True
  | rows, row :: rest => s.Admits t rows row ∧ s.AdmitsAll t (rows ++ [row]) rest

theorem put_put (s : Store) (t : Table) (rows rows' : Option (List (Numbered t.Row))) :
    (s.put t rows).put t rows' = s.put t rows' := by
  cases t <;> rfl

theorem hasAmount_put (s : Store) (t : Table) (rows : Option (List (Numbered t.Row))) :
    (s.put t rows).hasAmount = s.hasAmount := by
  cases t <;> rfl

/-- What an insertion can do: it adds the row, leaves the one that is there, or merges both. -/
theorem insert_cases {t : Table} {conflict : Conflict t.Row} {row : t.Row} {s s' : Store}
    (h : s.insert t conflict row = .ok s') : ∃ rows, s.get t = some rows ∧
      (s.Admits t (rows.map (·.row)) row ∧
          s' = s.put t (some (rows ++ [⟨nextNumber rows, row⟩])) ∨
        conflict = .keep ∧ (∃ n ∈ rows, sameRow t row n.row = true) ∧ s' = s ∨
        ∃ f, conflict = .merge f ∧ (∃ n ∈ rows, sameRow t row n.row = true) ∧
          meetsConditions t row = .ok () ∧ s' = s.put t (some (rows.map fun n =>
            if sameRow t row n.row then { n with row := f n.row row } else n))) := by
  obtain ⟨rows, hrows, h⟩ := exists_of_bind h
  obtain ⟨⟨⟩, hparents, h⟩ := exists_of_bind h
  obtain ⟨⟨⟩, hconditions, h⟩ := exists_of_bind h
  have happend : (do
      keysFree t (rows.map (·.row)) row
      if s.referencesHold t row then
        pure (s.put t (some (rows ++ [⟨nextNumber rows, row⟩])))
      else throw .foreignKey) = Except.ok s' → s.Admits t (rows.map (·.row)) row ∧
        s' = s.put t (some (rows ++ [⟨nextNumber rows, row⟩])) := by
    intro h
    obtain ⟨⟨⟩, hkeys, h⟩ := exists_of_bind h
    split at h
    · next hreferences =>
      exact ⟨⟨hparents, hconditions, hkeys, hreferences⟩, (Except.ok.inj h).symm⟩
    · cases h
  refine ⟨rows, get_of_numbered? hrows, ?_⟩
  cases conflict with
  | refuse => exact Or.inl (happend h)
  | keep =>
    dsimp only at h
    split at h
    · next hany =>
      have hsame : ∃ n ∈ rows, sameRow t row n.row = true := by
        simpa only [List.any_map, List.any_eq_true, Function.comp_apply] using hany
      exact Or.inr (Or.inl ⟨rfl, hsame, (Except.ok.inj h).symm⟩)
    · exact Or.inl (happend h)
  | merge f =>
    dsimp only at h
    split at h
    · next old hfind =>
      have hsame : sameRow t row old = true := @List.find?_some _ (sameRow t row) _ _ hfind
      obtain ⟨n, hn, rfl⟩ := List.mem_map.1 (List.mem_of_find?_eq_some hfind)
      obtain ⟨⟨⟩, -, h⟩ := exists_of_bind h
      exact Or.inr (Or.inr ⟨f, rfl, ⟨n, hn, hsame⟩, hconditions, (Except.ok.inj h).symm⟩)
    · exact Or.inl (happend h)

theorem insert_refuse_eq_ok {t : Table} {row : t.Row} {s s' : Store} :
    s.insert t .refuse row = .ok s' ↔ ∃ rows, s.get t = some rows ∧
      s.Admits t (rows.map (·.row)) row ∧
      s' = s.put t (some (rows ++ [⟨nextNumber rows, row⟩])) := by
  constructor
  · intro h
    obtain ⟨rows, hget, ⟨hadmits, hs'⟩ | ⟨hconflict, -⟩ | ⟨f, hconflict, -⟩⟩ := insert_cases h
    · exact ⟨rows, hget, hadmits, hs'⟩
    · cases hconflict
    · cases hconflict
  · rintro ⟨rows, hrows, ⟨hparents, hconditions, hkeys, hreferences⟩, rfl⟩
    have hnumbered : s.numbered? t = .ok rows := by rw [numbered?, hrows]
    rw [insert, hnumbered]
    change (s.parentsPresent t >>= fun _ => _) = _
    rw [hparents]
    change (meetsConditions t row >>= fun _ => _) = _
    rw [hconditions]
    change (keysFree t _ row >>= fun _ => _) = _
    rw [hkeys]
    change (if s.referencesHold t row = true then _ else _) = _
    rw [if_pos hreferences]
    rfl

/-- No table refers to itself. -/
theorem parent_ne (t : Table) : ∀ ref ∈ (layout t).references, ref.parent ≠ t := by
  cases t <;> decide

/-- Rows refer to movies and names only. -/
theorem parent_eq (t : Table) :
    ∀ ref ∈ (layout t).references, ref.parent = .movie ∨ ref.parent = .names := by
  cases t <;> decide

/-- Two stores in which the rows to which a table refers are the same. -/
def SameParents (t : Table) (s s' : Store) : Prop :=
  ∀ ref ∈ (layout t).references,
    s'.has ref.parent = s.has ref.parent ∧ s'.identifiers ref.parent = s.identifiers ref.parent

namespace SameParents

variable {t : Table} {s s' : Store}

theorem symm (h : SameParents t s s') : SameParents t s' s :=
  fun ref href => ⟨(h ref href).1.symm, (h ref href).2.symm⟩

theorem of_get (h : ∀ ref ∈ (layout t).references, s'.get ref.parent = s.get ref.parent) :
    SameParents t s s' := by
  intro ref href
  have hget := h ref href
  refine ⟨by rw [has, has, hget], ?_⟩
  cases hparent : ref.parent <;> rw [hparent] at hget <;>
    simp only [identifiers, rowsOf, hget]

/-- What a table holds itself does not matter. -/
theorem put (t : Table) (s : Store) (rows : Option (List (Numbered t.Row))) :
    SameParents t s (s.put t rows) :=
  of_get fun ref href => get_put_of_ne s rows (parent_ne t ref href)

theorem parentsPresent (h : SameParents t s s') : s'.parentsPresent t = s.parentsPresent t := by
  have hfind : ∀ refs : List (Reference t.Row),
      (∀ ref ∈ refs, s'.has ref.parent = s.has ref.parent) →
      (refs.find? fun ref => !s'.has ref.parent) = refs.find? fun ref => !s.has ref.parent := by
    intro refs hrefs
    induction refs with
    | nil => rfl
    | cons ref rest ih =>
      obtain ⟨hhead, htail⟩ := List.forall_mem_cons.1 hrefs
      rw [List.find?_cons, List.find?_cons, hhead, ih htail]
  rw [Store.parentsPresent, Store.parentsPresent, hfind _ fun ref href => (h ref href).1]

theorem referencesHold (h : SameParents t s s') (row : t.Row) :
    s'.referencesHold t row = s.referencesHold t row := by
  have hholds : ∀ ref ∈ (layout t).references,
      s'.referenceHolds ref row = s.referenceHolds ref row := by
    intro ref href
    rw [referenceHolds, referenceHolds, (h ref href).2]
  rw [Store.referencesHold, Store.referencesHold, Bool.eq_iff_iff, List.all_eq_true,
    List.all_eq_true]
  exact forall₂_congr fun ref href => by rw [hholds ref href]

theorem admits (h : SameParents t s s') {rows : List t.Row} {row : t.Row}
    (hs : s.Admits t rows row) : s'.Admits t rows row where
  parents := h.parentsPresent.trans hs.parents
  conditions := hs.conditions
  keys := hs.keys
  references := (h.referencesHold row).trans hs.references

theorem admitsAll (h : SameParents t s s') {rows more : List t.Row}
    (hs : s.AdmitsAll t rows more) : s'.AdmitsAll t rows more := by
  induction more generalizing rows with
  | nil => exact trivial
  | cons row rest ih => exact ⟨h.admits hs.1, ih hs.2⟩

end SameParents

/-- Inserts rows one after the other. -/
def insertAll (t : Table) (rows : List t.Row) (s : Store) : Except StoreError Store :=
  rows.foldlM (fun acc row => acc.insert t .refuse row) s

theorem nextNumber_append {ρ : Type} (rows : List (Numbered ρ)) (row : ρ) :
    nextNumber (rows ++ [⟨nextNumber rows, row⟩]) = nextNumber rows + 1 := by
  cases rows with
  | nil => rfl
  | cons first rest =>
    rw [List.cons_append]
    simp only [nextNumber, List.foldl_append, List.foldl_cons, List.foldl_nil]
    omega

theorem insertAll_eq_ok {t : Table} {old : List (Numbered t.Row)} {rows : List t.Row}
    {s s' : Store} (hold : s.get t = some old) :
    insertAll t rows s = .ok s' ↔ s.AdmitsAll t (old.map (·.row)) rows ∧
      s' = s.put t (some (old ++ numberedFrom (nextNumber old) rows)) := by
  induction rows generalizing old s with
  | nil =>
    rw [numberedFrom, List.append_nil, ← hold, put_get]
    constructor
    · intro h
      exact ⟨trivial, (Except.ok.inj h).symm⟩
    · rintro ⟨-, rfl⟩
      rfl
  | cons row rest ih =>
    let more := old ++ [⟨nextNumber old, row⟩]
    have hsame := SameParents.put t s (some more)
    have hrest := ih (get_put s t (some more))
    have hrows : more.map (·.row) = old.map (·.row) ++ [row] := by simp [more]
    have hafter : (s.put t (some more)).put t (some (more ++ numberedFrom (nextNumber more) rest)) =
        s.put t (some (old ++ numberedFrom (nextNumber old) (row :: rest))) := by
      rw [put_put, nextNumber_append, List.append_assoc]
      rfl
    rw [hrows, hafter] at hrest
    constructor
    · intro h
      obtain ⟨t', hinsert, h⟩ := exists_of_bind h
      obtain ⟨rows', hget, hadmits, rfl⟩ := insert_refuse_eq_ok.1 hinsert
      obtain rfl : old = rows' := Option.some.inj (hold.symm.trans hget)
      obtain ⟨hall, rfl⟩ := hrest.1 h
      exact ⟨⟨hadmits, hsame.symm.admitsAll hall⟩, rfl⟩
    · rintro ⟨⟨hadmits, hall⟩, rfl⟩
      have hinsert := insert_refuse_eq_ok.2 ⟨old, hold, hadmits, rfl⟩
      rw [insertAll, List.foldlM_cons, hinsert]
      exact hrest.2 ⟨hsame.admitsAll hall, rfl⟩

section Rows

/-- Every row meets the condition of its table. -/
def RowsMeet (P : (t : Table) → t.Row → Prop) (s : Store) : Prop :=
  ∀ t, ∀ row ∈ s.rowsOf t, P t row

variable {P : (t : Table) → t.Row → Prop} {s s' : Store} {t : Table}

theorem rowsMeet_empty : Store.empty.RowsMeet P := by
  intro t row hrow
  cases t <;> cases hrow

theorem RowsMeet.put (h : s.RowsMeet P) {rows : List (Numbered t.Row)}
    (hrows : ∀ n ∈ rows, P t n.row) : (s.put t (some rows)).RowsMeet P := by
  intro u row hrow
  by_cases hu : u = t
  · subst hu
    rw [rowsOf, get_put] at hrow
    obtain ⟨n, hn, rfl⟩ := List.mem_map.1 hrow
    exact hrows n hn
  · rw [rowsOf, get_put_of_ne _ _ hu] at hrow
    exact h u row hrow

theorem RowsMeet.create (h : s.RowsMeet P) (t : Table) : (s.create t).RowsMeet P := by
  rw [Store.create]
  split
  · exact h
  · have hput : (s.put t (some [])).RowsMeet P := h.put (List.forall_mem_nil _)
    cases t with
    | normalizationRuns =>
      intro u
      cases u with
      | sequences =>
        have hsequences := hput .sequences
        rw [rowsOf] at hsequences ⊢
        exact hsequences
      | _ => exact hput _
    | _ => exact hput

/-- An insertion leaves the rows that were there, the new one, or two of them merged. -/
theorem exists_of_insert {conflict : Conflict t.Row} {row : t.Row}
    (h : s.insert t conflict row = .ok s') :
    ∃ rows, s' = s.put t (some rows) ∧ ∀ n ∈ rows, n.row ∈ s.rowsOf t ∨ n.row = row ∨
      ∃ f, ∃ old ∈ s.rowsOf t, conflict = .merge f ∧ n.row = f old row := by
  obtain ⟨rows, hget, hcases⟩ := insert_cases h
  have hold : ∀ n ∈ rows, n.row ∈ s.rowsOf t := by
    intro n hn
    rw [rowsOf, hget]
    exact List.mem_map_of_mem hn
  rcases hcases with ⟨-, hs'⟩ | ⟨-, -, rfl⟩ | ⟨f, hconflict, -, -, hs'⟩
  · refine ⟨_, hs', fun n hn => ?_⟩
    rcases List.mem_append.1 hn with hn | hn
    · exact Or.inl (hold n hn)
    · exact Or.inr (Or.inl (congrArg _ (List.mem_singleton.1 hn)))
  · refine ⟨rows, ?_, fun n hn => Or.inl (hold n hn)⟩
    rw [← hget, put_get]
  · refine ⟨_, hs', fun n hn => ?_⟩
    obtain ⟨old, hmem, rfl⟩ := List.mem_map.1 hn
    split
    · exact Or.inr (Or.inr ⟨f, old.row, hold old hmem, hconflict, rfl⟩)
    · exact Or.inl (hold old hmem)

theorem RowsMeet.insert (h : s.RowsMeet P) {conflict : Conflict t.Row} {row : t.Row}
    (hrow : P t row)
    (hmerge : ∀ f, conflict = .merge f → ∀ old, P t old → P t (f old row))
    (hinsert : s.insert t conflict row = .ok s') : s'.RowsMeet P := by
  obtain ⟨rows, rfl, hrows⟩ := exists_of_insert hinsert
  refine h.put fun n hn => ?_
  obtain hn | hn | ⟨f, old, hold, hconflict, hn⟩ := hrows n hn
  · exact h t _ hn
  · rw [hn]
    exact hrow
  · rw [hn]
    exact hmerge f hconflict old (h t old hold)

theorem has_put {u : Table} (hu : s.has u = true) (rows : List (Numbered t.Row)) :
    (s.put t (some rows)).has u = true := by
  by_cases hsame : u = t
  · subst hsame
    rw [has, get_put]
    rfl
  · rw [has, get_put_of_ne _ _ hsame]
    exact hu

theorem has_of_insert {conflict : Conflict t.Row} {row : t.Row} {u : Table}
    (hu : s.has u = true) (hinsert : s.insert t conflict row = .ok s') : s'.has u = true := by
  obtain ⟨rows, rfl, -⟩ := exists_of_insert hinsert
  exact has_put hu rows

theorem hasAmount_of_insert {conflict : Conflict t.Row} {row : t.Row}
    (hinsert : s.insert t conflict row = .ok s') : s'.hasAmount = s.hasAmount := by
  obtain ⟨rows, rfl, -⟩ := exists_of_insert hinsert
  exact hasAmount_put s t (some rows)

end Rows
end FilmReport.Store
