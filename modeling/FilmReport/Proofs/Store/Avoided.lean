import Mathlib.Data.List.Pairwise
import FilmReport.Proofs.Store.Referring

/-!
Tables that a change does not write. In a store after all migrations a change writes the rows of one
table, or it deletes rows and those that refer to them; every other table stays as it is, and the
store stays one after all migrations.
-/

set_option autoImplicit false
set_option relaxedAutoImplicit false

namespace FilmReport.Store

variable {s s' : Store} {t u : Table}

section delete

variable {which : Selection t} {n : Nat}

theorem hasAmount_foldl_cascade (parent : Table) (gone : List String) (tables : List Table)
    (s : Store) : (tables.foldl (cascade parent gone) s).hasAmount = s.hasAmount := by
  induction tables generalizing s with
  | nil => rfl
  | cons t rest ih => rw [List.foldl_cons, ih, cascade, hasAmount_put]

theorem hasAmount_of_delete (h : s.delete t which = .ok (n, s')) :
    s'.hasAmount = s.hasAmount := by
  obtain ⟨rows, -, h⟩ := exists_of_bind h
  obtain ⟨selects, -, h⟩ := exists_of_bind h
  obtain ⟨⟨⟩, -, h⟩ := exists_of_bind h
  obtain ⟨-, rfl⟩ := Prod.mk.inj (Except.ok.inj h)
  rw [hasAmount_foldl_cascade, hasAmount_put]

theorem has_of_delete (h : s.delete t which = .ok (n, s')) : s'.has u = s.has u := by
  obtain ⟨rows, selects, hget, -, hkept, hothers⟩ := delete_cases h
  by_cases hsame : u = t
  · subst hsame
    rw [has, has, hkept, hget]
    rfl
  · rw [has, has, hothers u hsame, Option.isSome_map]

/-- A deletion leaves a table that does not refer to the table in which it deletes. -/
theorem get_of_delete (hu : u ≠ t) (hreferences : ∀ ref ∈ (layout u).references, ref.parent ≠ t)
    (h : s.delete t which = .ok (n, s')) : s'.get u = s.get u := by
  obtain ⟨rows, selects, -, -, -, hothers⟩ := delete_cases h
  have hstays : ∀ (gone : List String) (row : u.Row), refersTo u t gone row = false :=
    fun gone row => refersTo_eq_false.2 fun ref href hparent =>
      absurd hparent (hreferences ref href)
  rw [hothers u hu]
  simp [hstays]

end delete

/-- Movies with the same identifier are the same. -/
theorem Consistent.movie_inj (hs : s.Consistent) {rows : List (Numbered MovieRow)}
    (hget : s.get .movie = some rows) {a b : Numbered MovieRow} (ha : a ∈ rows) (hb : b ∈ rows)
    {id : String} (haid : a.row.id = some id) (hbid : b.row.id = some id) : a = b := by
  let key : Key MovieRow := ⟨["id"], true, fun r => textKey r.id⟩
  have hapart : rows.Pairwise fun a b => sameKey key a.row b.row = false := by
    have hkeys := hs.keys .movie key List.mem_cons_self
    rwa [rowsOf_of_eq_some (t := .movie) hget, List.pairwise_map] at hkeys
  have hcomm : Std.Symm fun a b : Numbered MovieRow => sameKey key a.row b.row = false :=
    ⟨fun a b hab => (sameKey_comm key b.row a.row).trans hab⟩
  by_contra hne
  have hsame : sameKey key a.row b.row = true :=
    sameKey_iff.2 ⟨[.text id], [.text id], congrArg textKey haid, congrArg textKey hbid, rfl⟩
  rw [hapart.forall ha hb hne] at hsame
  cases hsame

/-- A deletion of movies takes no row but those whose movie is not there any more. -/
theorem mem_of_delete_movie (hs : s.Consistent) {which : Selection .movie} {n : Nat}
    (h : s.delete .movie which = .ok (n, s')) (ht : t ≠ .movie) {movieOf : t.Row → String}
    (hof : ∀ ref ∈ (layout t).references, ∀ row, ref.of row = some (movieOf row))
    {rows : List (Numbered t.Row)} (hget : s.get t = some rows) :
    ∃ kept, s'.get t = some kept ∧ kept.Sublist rows ∧
      ∀ m ∈ rows, m ∈ kept ∨ movieOf m.row ∉ s'.identifiers .movie := by
  obtain ⟨movies, selects, hmovies, -, hkept, hothers⟩ := delete_cases h
  let gone := idsOf .movie ((movies.filter selects).map (·.row))
  refine ⟨_, (hothers t ht).trans (congrArg _ hget), List.filter_sublist, fun m hm => ?_⟩
  cases hrefers : refersTo t .movie gone m.row with
  | false => exact Or.inl (List.mem_filter.2 ⟨hm, by rw [hrefers]; rfl⟩)
  | true =>
    refine Or.inr fun hthere => ?_
    rw [refersTo, List.any_eq_true] at hrefers
    obtain ⟨ref, href, hrefers⟩ := hrefers
    have hgone : movieOf m.row ∈ gone := by
      rw [hof ref href, Bool.and_eq_true] at hrefers
      exact List.contains_iff_mem.1 hrefers.2
    -- The movie that is gone and the one that is there have the same identifier.
    rw [show gone = _ from idsOf_eq _, List.mem_filterMap] at hgone
    obtain ⟨row, hrow, hid⟩ := hgone
    obtain ⟨a, ha, rfl⟩ := List.mem_map.1 hrow
    rw [mem_identifiers, rowsOf_of_eq_some hkept] at hthere
    obtain ⟨row, hrow, hid'⟩ := hthere
    obtain ⟨b, hb, rfl⟩ := List.mem_map.1 hrow
    obtain ⟨ha, hselected⟩ := List.mem_filter.1 ha
    obtain ⟨hb, hunselected⟩ := List.mem_filter.1 hb
    obtain rfl := hs.movie_inj hmovies ha hb hid hid'
    rw [hselected] at hunselected
    cases hunselected

theorem notMem_identifiers_of_delete {which : Selection t} {n : Nat}
    (h : s.delete t which = .ok (n, s')) {id : String} (hid : id ∉ s.identifiers u) :
    id ∉ s'.identifiers u := by
  rw [identifiers_eq] at hid ⊢
  exact fun hthere => hid (((sublist_of_delete h u).filterMap (idOf u)).subset hthere)

namespace Change

variable {c : Change}

/-- A change that writes no rows of a table, though it may delete some that refer to others. -/
def Avoids (t : Table) : Change → Prop
  | insert u _ _ => u ≠ t
  | delete u _ => u ≠ t
  | update u _ _ _ => u ≠ t
  | amounts => t ≠ .movie
  | count _ _ => t ≠ .sequences
  | _ => True

/-- A change of rows, which makes no table and no column. -/
def ChangesRows : Change → Prop
  | create _ => False
  | widen => False
  | _ => True

/-- What a change of rows does: nothing, or it writes the rows of one table, or it deletes rows. -/
theorem after_cases_of_changesRows (hrows : c.ChangesRows) (h : c.after s = .ok s') :
    s' = s ∨ (∃ t rows, s.has t = true ∧ s' = s.put t (some rows) ∧ ∀ u, c.Avoids u → u ≠ t) ∨
      ∃ t which n, c = .delete t which ∧ s.delete t which = .ok (n, s') := by
  have hhas : ∀ {t : Table} {rows}, s.get t = some rows → s.has t = true := fun hget => by
    rw [has, hget]
    rfl
  cases c with
  | insert t conflict row =>
    obtain ⟨rows, hget, -⟩ := insert_cases h
    obtain ⟨after, rfl, -⟩ := exists_of_insert h
    exact Or.inr (Or.inl ⟨t, after, hhas hget, rfl, fun u hu => hu.symm⟩)
  | delete t which =>
    obtain ⟨n, h⟩ := exists_of_map_snd h
    exact Or.inr (Or.inr ⟨t, which, n, rfl, h⟩)
  | update t name value which =>
    obtain ⟨n, h⟩ := exists_of_map_snd h
    obtain rfl | ⟨rows, column, selects, after, hget, -, -, hput, -⟩ := update_cases h
    · exact Or.inl rfl
    · exact Or.inr (Or.inl ⟨t, _, hhas hget, hput, fun u hu => hu.symm⟩)
  | amounts =>
    obtain rfl := Except.ok.inj h
    obtain hsame | ⟨rows, hget, hput⟩ := setAmounts_cases s
    · exact Or.inl hsame
    · exact Or.inr (Or.inl ⟨.movie, _, hhas hget, hput, fun u hu => hu⟩)
  | count t last =>
    obtain rfl := Except.ok.inj h
    cases hrows : s.sequences with
    | none =>
      have hsame : s.giveLast t last = s := by
        rw [giveLast, hrows, Option.map_none, ← hrows]
      exact Or.inl hsame
    | some rows =>
      have hput : s.giveLast t last = s.put .sequences (some (if rows.any (counts t) then
          putCount t last rows else rows ++ [⟨nextNumber rows, ⟨.text t.name, .int last⟩⟩])) := by
        rw [giveLast, hrows]
        rfl
      exact Or.inr (Or.inl ⟨.sequences, _, hhas hrows, hput, fun u hu => hu⟩)
  | create t => cases hrows
  | widen => cases hrows

/-- A change of rows leaves a table without references that it does not write. -/
theorem get_of_changesRows (hrows : c.ChangesRows) (h : c.Avoids t)
    (hreferences : (layout t).references = []) (hs' : c.after s = .ok s') : s'.get t = s.get t := by
  obtain rfl | ⟨u, rows, -, rfl, hwrites⟩ | ⟨u, which, n, rfl, hdelete⟩ :=
    after_cases_of_changesRows hrows hs'
  · rfl
  · exact get_put_of_ne _ _ (hwrites t h)
  · refine get_of_delete (Ne.symm h) ?_ hdelete
    rw [hreferences]
    exact List.forall_mem_nil _

/-- What a change does to a store after all migrations: nothing, or it writes the rows of one table,
or it deletes rows. -/
theorem after_cases (hs : s.IsMigrated) (h : c.after s = .ok s') :
    s' = s ∨ (∃ t rows, s' = s.put t (some rows) ∧ ∀ u, c.Avoids u → u ≠ t) ∨
      ∃ t which n, c = .delete t which ∧ s.delete t which = .ok (n, s') := by
  by_cases hrows : c.ChangesRows
  · obtain hsame | ⟨t, rows, -, hput⟩ | hdelete := after_cases_of_changesRows hrows h
    · exact Or.inl hsame
    · exact Or.inr (Or.inl ⟨t, rows, hput⟩)
    · exact Or.inr (Or.inr hdelete)
  · cases c with
    | create t =>
      obtain rfl := Except.ok.inj h
      exact Or.inl (if_pos (hs.tables t))
    | widen =>
      obtain ⟨rows, -, h⟩ := exists_of_bind h
      rw [hs.hasAmount] at h
      cases h
    | _ => exact absurd trivial hrows

theorem preserves_isMigrated (h : c.KeepsKeys) : c.Preserves IsMigrated := by
  intro s s' hs hs'
  have hconsistent := preserves_consistent h hs.consistent hs'
  obtain rfl | ⟨t, rows, rfl, -⟩ | ⟨t, which, n, -, hdelete⟩ := after_cases hs hs'
  · exact hs
  · exact ⟨fun u => has_put (hs.tables u) rows, (hasAmount_put s t _).trans hs.hasAmount,
      hconsistent⟩
  · exact ⟨fun u => (has_of_delete hdelete).trans (hs.tables u),
      (hasAmount_of_delete hdelete).trans hs.hasAmount, hconsistent⟩

/-- A change leaves a table that it does not write if it deletes nothing to which this refers. -/
theorem get_of_avoids (h : c.Avoids t) (hreferences : ∀ u which, c = .delete u which →
      ∀ ref ∈ (layout t).references, ref.parent ≠ u)
    (hs : s.IsMigrated) (hs' : c.after s = .ok s') : s'.get t = s.get t := by
  obtain rfl | ⟨u, rows, rfl, hwrites⟩ | ⟨u, which, n, rfl, hdelete⟩ := after_cases hs hs'
  · rfl
  · exact get_put_of_ne _ _ (hwrites t h)
  · exact get_of_delete (Ne.symm h) (hreferences u which rfl) hdelete

end Change
end FilmReport.Store
