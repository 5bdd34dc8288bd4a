import FilmReport.Proofs.Store.Columns
import FilmReport.Proofs.Store.Insert

/-!
Consistent stores: no two rows share a key, every row meets the conditions of its table, and the
rows that a row refers to are there. Every insertion, deletion and update leaves a consistent store
consistent, an insertion if what it makes of two rows with the same key still has this key.
-/

set_option autoImplicit false
set_option relaxedAutoImplicit false

namespace FilmReport.Store

variable {s s' : Store} {t u : Table}

theorem rowsOf_put (s : Store) (t : Table) (rows : List (Numbered t.Row)) :
    (s.put t (some rows)).rowsOf t = rows.map (·.row) :=
  rowsOf_of_eq_some (get_put s t (some rows))

theorem rowsOf_put_of_ne (s : Store) (rows : Option (List (Numbered t.Row))) (h : u ≠ t) :
    (s.put t rows).rowsOf u = s.rowsOf u := by
  rw [rowsOf, get_put_of_ne s rows h]
  rfl

theorem sameKey_comm {ρ : Type} (key : Key ρ) (a b : ρ) : sameKey key a b = sameKey key b a := by
  rw [sameKey, sameKey]
  cases key.of a <;> cases key.of b <;> simp only [eq_comm]

theorem sameKey_congr {ρ : Type} {key : Key ρ} {a a' b b' : ρ} (ha : key.of a' = key.of a)
    (hb : key.of b' = key.of b) : sameKey key a' b' = sameKey key a b := by
  rw [sameKey, sameKey, ha, hb]

theorem keysFree_eq_ok {rows : List t.Row} {row : t.Row} : keysFree t rows row = .ok () ↔
    ∀ key ∈ (layout t).keys, ∀ other ∈ rows, sameKey key row other = false := by
  rw [keysFree]
  cases hfind : (layout t).keys.find? fun key => rows.any (sameKey key row) with
  | none =>
    refine iff_of_true rfl fun key hkey other hother => ?_
    have hfree := List.find?_eq_none.1 hfind key hkey
    rw [List.any_eq_true] at hfree
    exact Bool.eq_false_iff.2 fun hsame => hfree ⟨other, hother, hsame⟩
  | some key =>
    have hany : rows.any (sameKey key row) = true :=
      @List.find?_some _ (fun key => rows.any (sameKey key row)) _ _ hfind
    obtain ⟨other, hother, hsame⟩ := List.any_eq_true.1 hany
    refine iff_of_false (by simp) fun hfree => ?_
    rw [hfree key (List.mem_of_find?_eq_some hfind) other hother] at hsame
    cases hsame

theorem meetsConditions_eq_ok {row : t.Row} : meetsConditions t row = .ok () ↔
    ∀ c ∈ (layout t).conditions, c.holds row = true := by
  rw [meetsConditions]
  cases hfind : (layout t).conditions.find? fun c => !c.holds row with
  | none =>
    refine iff_of_true rfl fun c hc => ?_
    simpa using List.find?_eq_none.1 hfind c hc
  | some c =>
    have hbroken := @List.find?_some _ (fun c : Condition t.Row => !c.holds row) _ _ hfind
    refine iff_of_false (by simp) fun hholds => ?_
    rw [hholds c (List.mem_of_find?_eq_some hfind)] at hbroken
    cases hbroken

theorem referenceHolds_iff {ρ : Type} {ref : Reference ρ} {row : ρ} :
    s.referenceHolds ref row = true ↔
      ∀ id, ref.of row = some id → id ∈ s.identifiers ref.parent := by
  rw [referenceHolds]
  cases ref.of row with
  | none => simp
  | some id => simp

theorem referencesHold_iff {row : t.Row} : s.referencesHold t row = true ↔
    ∀ ref ∈ (layout t).references, ∀ id, ref.of row = some id →
      id ∈ s.identifiers ref.parent := by
  rw [referencesHold, List.all_eq_true]
  exact forall₂_congr fun ref _ => referenceHolds_iff

/-- Rows of which no two share a key. -/
def KeysApart (t : Table) (rows : List t.Row) : Prop :=
  ∀ key ∈ (layout t).keys, rows.Pairwise fun a b => sameKey key a b = false

namespace KeysApart

variable {rows rows' : List t.Row}

theorem nil : KeysApart t [] :=
  fun _ _ => .nil

theorem cons_iff {row : t.Row} :
    KeysApart t (row :: rows) ↔ keysFree t rows row = .ok () ∧ KeysApart t rows := by
  rw [keysFree_eq_ok]
  constructor
  · intro h
    exact ⟨fun key hkey => (List.pairwise_cons.1 (h key hkey)).1,
      fun key hkey => (List.pairwise_cons.1 (h key hkey)).2⟩
  · rintro ⟨hfree, h⟩ key hkey
    exact List.pairwise_cons.2 ⟨hfree key hkey, h key hkey⟩

theorem sublist (h : KeysApart t rows) (hsub : rows'.Sublist rows) : KeysApart t rows' :=
  fun key hkey => (h key hkey).sublist hsub

theorem perm (h : KeysApart t rows) (hperm : rows.Perm rows') : KeysApart t rows' :=
  fun key hkey => (h key hkey).perm hperm fun {a b} hab => (sameKey_comm key b a).trans hab

theorem map (h : KeysApart t rows) {f : t.Row → t.Row}
    (hf : ∀ key ∈ (layout t).keys, ∀ row, key.of (f row) = key.of row) :
    KeysApart t (rows.map f) := by
  intro key hkey
  rw [List.pairwise_map]
  refine (h key hkey).imp fun {a b} hab => ?_
  rw [sameKey_congr (hf key hkey a) (hf key hkey b), hab]

end KeysApart

/-- A store whose rows keep the keys, the conditions and the references of their tables. -/
structure Consistent (s : Store) : Prop where
  keys : ∀ t, KeysApart t (s.rowsOf t)
  conditions : s.RowsMeet fun t row => meetsConditions t row = .ok ()
  references : s.RowsMeet fun t row => s.referencesHold t row = true

theorem consistent_empty : Store.empty.Consistent where
  keys t := by cases t <;> exact KeysApart.nil
  conditions := rowsMeet_empty
  references := rowsMeet_empty

namespace Consistent

/-- Only what rows hold matters, and that of the counters does not. -/
theorem of_rowsOf (h : s.Consistent) (hrows : ∀ t ≠ .sequences, s'.rowsOf t = s.rowsOf t) :
    s'.Consistent where
  keys t := by
    by_cases ht : t = .sequences
    · subst ht
      exact fun key hkey => absurd hkey List.not_mem_nil
    · exact hrows t ht ▸ h.keys t
  conditions t row hrow := by
    by_cases ht : t = .sequences
    · subst ht
      rfl
    · exact h.conditions t row (hrows t ht ▸ hrow)
  references t row hrow := by
    refine referencesHold_iff.2 fun ref href id hid => ?_
    have ht : t ≠ .sequences := fun ht => by
      subst ht
      exact List.not_mem_nil href
    have hparent : ref.parent ≠ .sequences := fun hparent => by
      rcases parent_eq t ref href with hp | hp <;> rw [hp] at hparent <;> cases hparent
    rw [identifiers_eq, hrows _ hparent, ← identifiers_eq]
    exact referencesHold_iff.1 (h.references t row (hrows t ht ▸ hrow)) ref href id hid

/-- Rows in place of those of a table, if all identifiers stay. -/
theorem put (h : s.Consistent) {rows : List (Numbered t.Row)}
    (hkeys : KeysApart t (rows.map (·.row)))
    (hconditions : ∀ n ∈ rows, meetsConditions t n.row = .ok ())
    (hreferences : ∀ n ∈ rows, s.referencesHold t n.row = true)
    (hids : ∀ row ∈ s.rowsOf t, ∃ n ∈ rows, idOf t n.row = idOf t row) :
    (s.put t (some rows)).Consistent where
  keys u := by
    by_cases hu : u = t
    · subst hu
      rw [rowsOf_put]
      exact hkeys
    · rw [rowsOf_put_of_ne s _ hu]
      exact h.keys u
  conditions := h.conditions.put hconditions
  references u row hrow := by
    have hidentifiers : ∀ p, ∀ id ∈ s.identifiers p,
        id ∈ (s.put t (some rows)).identifiers p := by
      intro p id hid
      obtain ⟨parent, hparent, hidOf⟩ := mem_identifiers.1 hid
      rw [mem_identifiers]
      by_cases hp : p = t
      · subst hp
        obtain ⟨n, hn, hn'⟩ := hids parent hparent
        exact ⟨n.row, by rw [rowsOf_put]; exact List.mem_map_of_mem hn, hn'.trans hidOf⟩
      · exact ⟨parent, by rw [rowsOf_put_of_ne s _ hp]; exact hparent, hidOf⟩
    have hholds : s.referencesHold u row = true := by
      by_cases hu : u = t
      · subst hu
        rw [rowsOf_put] at hrow
        obtain ⟨n, hn, rfl⟩ := List.mem_map.1 hrow
        exact hreferences n hn
      · rw [rowsOf_put_of_ne s _ hu] at hrow
        exact h.references u row hrow
    exact referencesHold_iff.2 fun ref href id hid =>
      hidentifiers ref.parent id (referencesHold_iff.1 hholds ref href id hid)

/-- Rows changed one by one, if what tells them apart and what they refer to stays. -/
theorem putMap (h : s.Consistent) {rows : List (Numbered t.Row)} (hget : s.get t = some rows)
    {f : t.Row → t.Row} (hkeys : ∀ key ∈ (layout t).keys, ∀ row, key.of (f row) = key.of row)
    (hconditions : ∀ row ∈ s.rowsOf t, meetsConditions t (f row) = .ok ())
    (hreferences : ∀ ref ∈ (layout t).references, ∀ row, ref.of (f row) = ref.of row)
    (hids : ∀ row, idOf t (f row) = idOf t row) :
    (s.put t (some (rows.map fun n => { n with row := f n.row }))).Consistent := by
  have hrows := rowsOf_of_eq_some hget
  have hmem : ∀ n ∈ rows, n.row ∈ s.rowsOf t := fun n hn => hrows ▸ List.mem_map_of_mem hn
  refine h.put ?_ ?_ ?_ ?_
  · have hmap := (h.keys t).map hkeys
    rw [hrows] at hmap
    simpa only [List.map_map, Function.comp_def] using hmap
  · rw [List.forall_mem_map]
    exact fun n hn => hconditions n.row (hmem n hn)
  · rw [List.forall_mem_map]
    intro n hn
    have hholds := referencesHold_iff.1 (h.references t n.row (hmem n hn))
    exact referencesHold_iff.2 fun ref href id hid =>
      hholds ref href id ((hreferences ref href n.row).symm.trans hid)
  · intro row hrow
    rw [hrows] at hrow
    obtain ⟨n, hn, rfl⟩ := List.mem_map.1 hrow
    exact ⟨_, List.mem_map_of_mem hn, hids n.row⟩

end Consistent

section insert

variable {conflict : Conflict t.Row} {row : t.Row}

/-- A merge that leaves the key, the references and the identifier of the row that is there, and
meets the conditions that the new row meets. -/
structure Merges (t : Table) (f : t.Row → t.Row → t.Row) : Prop where
  keys : ∀ key ∈ (layout t).keys, ∀ old new, key.of (f old new) = key.of old
  conditions : ∀ old new, meetsConditions t (f old new) = meetsConditions t new
  references : ∀ ref ∈ (layout t).references, ∀ old new, ref.of (f old new) = ref.of old
  ids : ∀ old new, idOf t (f old new) = idOf t old

theorem Consistent.insert (h : s.Consistent) (hmerge : ∀ f, conflict = .merge f → Merges t f)
    (hinsert : s.insert t conflict row = .ok s') : s'.Consistent := by
  obtain ⟨rows, hget, ⟨hadmits, rfl⟩ | ⟨-, -, rfl⟩ | ⟨f, hf, -, hconditions, rfl⟩⟩ :=
    insert_cases hinsert
  · have hrows := rowsOf_of_eq_some hget
    have hmem : ∀ n ∈ rows, n.row ∈ s.rowsOf t := fun n hn => hrows ▸ List.mem_map_of_mem hn
    have hkeys := h.keys t
    rw [hrows] at hkeys
    refine h.put ?_ ?_ ?_ ?_
    · rw [List.map_append]
      exact (KeysApart.cons_iff.2 ⟨hadmits.keys, hkeys⟩).perm (List.perm_append_singleton _ _).symm
    · rw [List.forall_mem_append, List.forall_mem_singleton]
      exact ⟨fun n hn => h.conditions t _ (hmem n hn), hadmits.conditions⟩
    · rw [List.forall_mem_append, List.forall_mem_singleton]
      exact ⟨fun n hn => h.references t _ (hmem n hn), hadmits.references⟩
    · intro old hold
      rw [hrows] at hold
      obtain ⟨n, hn, rfl⟩ := List.mem_map.1 hold
      exact ⟨n, List.mem_append_left _ hn, rfl⟩
  · exact h
  · have hf := hmerge f hf
    have hrows : (rows.map fun n =>
          if sameRow t row n.row then { n with row := f n.row row } else n) =
        rows.map fun n => { n with row := if sameRow t row n.row then f n.row row else n.row } :=
      List.map_congr_left fun n _ => by split <;> rfl
    rw [hrows]
    refine h.putMap hget (f := fun old => if sameRow t row old then f old row else old) ?_ ?_ ?_ ?_
    · intro key hkey old
      split
      · exact hf.keys key hkey old row
      · rfl
    · intro old hold
      split
      · exact (hf.conditions old row).trans hconditions
      · exact h.conditions t old hold
    · intro ref href old
      split
      · exact hf.references ref href old row
      · rfl
    · intro old
      split
      · exact hf.ids old row
      · rfl

end insert

section delete

theorem mem_all (t : Table) : t ∈ Table.all := by
  cases t <;> decide

theorem mem_childrenOf {parent : Table} : t ∈ childrenOf parent ↔
    ∃ ref ∈ (layout t).references, ref.parent = parent := by
  rw [childrenOf, List.mem_filter, and_iff_right (mem_all t), List.any_eq_true]
  simp only [decide_eq_true_eq]

theorem refersTo_eq_false {parent : Table} {gone : List String} {row : t.Row} :
    refersTo t parent gone row = false ↔
      ∀ ref ∈ (layout t).references, ref.parent = parent →
        ∀ id, ref.of row = some id → id ∉ gone := by
  rw [refersTo, List.any_eq_false]
  refine forall₂_congr fun ref _ => ?_
  cases ref.of row with
  | none => simp
  | some id => simp

theorem get_cascade (parent : Table) (gone : List String) (s : Store) (t u : Table) :
    (cascade parent gone s t).get u = if u = t then
      (s.get u).map fun rows => rows.filter fun n => !refersTo u parent gone n.row
    else s.get u := by
  rw [cascade]
  split
  · next h =>
    subst h
    rw [get_put]
  · next h => rw [get_put_of_ne _ _ h]

/-- Every table loses the rows that refer to rows that are gone. -/
theorem get_foldl_cascade (parent : Table) (gone : List String) (s : Store) (u : Table) :
    ((childrenOf parent).foldl (cascade parent gone) s).get u =
      (s.get u).map fun rows => rows.filter fun n => !refersTo u parent gone n.row := by
  have hfold : ∀ (tables : List Table) (s : Store),
      (tables.foldl (cascade parent gone) s).get u = if u ∈ tables then
        (s.get u).map fun rows => rows.filter fun n => !refersTo u parent gone n.row
      else s.get u := by
    intro tables
    induction tables with
    | nil => exact fun s => rfl
    | cons t rest ih =>
      intro s
      rw [List.foldl_cons, ih, get_cascade]
      by_cases hrest : u ∈ rest <;> by_cases ht : u = t <;>
        simp [hrest, ht, Option.map_map, Function.comp_def, List.filter_filter]
  rw [hfold]
  split
  · rfl
  · next hchild =>
    have hnone : ∀ row : u.Row, refersTo u parent gone row = false := fun row =>
      refersTo_eq_false.2 fun ref href hparent =>
        absurd (mem_childrenOf.2 ⟨ref, href, hparent⟩) hchild
    simp [hnone]

/-- What a deletion leaves: in its own table the rows that it does not select, in each other table
those that refer to no row that is gone. -/
theorem delete_cases {which : Selection t} {n : Nat} (h : s.delete t which = .ok (n, s')) :
    ∃ rows selects, s.get t = some rows ∧ which s = .ok selects ∧
      s'.get t = some (rows.filter fun row => !selects row) ∧
      ∀ u ≠ t, s'.get u = (s.get u).map fun others => others.filter fun n =>
        !refersTo u t (idsOf t ((rows.filter selects).map (·.row))) n.row := by
  obtain ⟨rows, hrows, h⟩ := exists_of_bind h
  obtain ⟨selects, hselects, h⟩ := exists_of_bind h
  obtain ⟨⟨⟩, -, h⟩ := exists_of_bind h
  obtain ⟨-, rfl⟩ := Prod.mk.inj (Except.ok.inj h)
  refine ⟨rows, selects, get_of_numbered? hrows, hselects, ?_, fun u hu => ?_⟩
  · have hstays : ∀ (gone : List String) (row : t.Row), refersTo t t gone row = false :=
      fun gone row => refersTo_eq_false.2 fun ref href hparent =>
        absurd hparent (parent_ne t ref href)
    rw [get_foldl_cascade, get_put]
    simp [hstays]
  · rw [get_foldl_cascade, get_put_of_ne _ _ hu]

theorem map_row_filter {ρ : Type} (p : ρ → Bool) (rows : List (Numbered ρ)) :
    (rows.filter fun n => p n.row).map (·.row) = (rows.map (·.row)).filter p := by
  rw [List.filter_map]
  rfl

theorem rowsOf_of_filter {p : t.Row → Bool}
    (h : s'.get t = (s.get t).map fun rows => rows.filter fun n => p n.row) :
    s'.rowsOf t = (s.rowsOf t).filter p := by
  rw [rowsOf, rowsOf, h]
  cases s.get t with
  | none => rfl
  | some rows => exact map_row_filter p rows

theorem sublist_of_delete {which : Selection t} {n : Nat} (h : s.delete t which = .ok (n, s'))
    (u : Table) : (s'.rowsOf u).Sublist (s.rowsOf u) := by
  obtain ⟨rows, selects, hget, -, hkept, hothers⟩ := delete_cases h
  by_cases hu : u = t
  · subst hu
    rw [rowsOf_of_eq_some hkept, rowsOf_of_eq_some hget]
    exact List.filter_sublist.map _
  · rw [rowsOf_of_filter (p := fun row => !refersTo u t _ row) (hothers u hu)]
    exact List.filter_sublist

theorem RowsMeet.delete {P : (t : Table) → t.Row → Prop} (h : s.RowsMeet P) {which : Selection t}
    {n : Nat} (hdelete : s.delete t which = .ok (n, s')) : s'.RowsMeet P :=
  fun u row hrow => h u row ((sublist_of_delete hdelete u).subset hrow)

/-- A row that stays refers to rows that stay. -/
theorem Consistent.delete (h : s.Consistent) {which : Selection t} {n : Nat}
    (hdelete : s.delete t which = .ok (n, s')) : s'.Consistent where
  keys u := (h.keys u).sublist (sublist_of_delete hdelete u)
  conditions := h.conditions.delete hdelete
  references u row hrow := by
    have hholds := referencesHold_iff.1 (h.references.delete hdelete u row hrow)
    obtain ⟨rows, selects, hget, -, hkept, hothers⟩ := delete_cases hdelete
    let gone := idsOf t ((rows.filter selects).map (·.row))
    -- Nothing that refers to other rows is referred to.
    have hstays : ∀ p, (layout p).references = [] → p ≠ t → s'.rowsOf p = s.rowsOf p := by
      intro p hnone hp
      rw [rowsOf_of_filter (p := fun row => !refersTo p t gone row) (hothers p hp),
        List.filter_eq_self]
      intro row _
      rw [Bool.not_eq_true', refersTo_eq_false, hnone]
      exact fun ref href => absurd href List.not_mem_nil
    have hids : ∀ p, (layout p).references = [] → ∀ id ∈ s.identifiers p,
        (p = t → id ∉ gone) → id ∈ s'.identifiers p := by
      intro p hnone id hid hgone
      by_cases hp : p = t
      · subst hp
        rw [mem_identifiers, rowsOf_of_eq_some hget] at hid
        obtain ⟨parent, hparent, hidOf⟩ := hid
        obtain ⟨n, hn, rfl⟩ := List.mem_map.1 hparent
        rw [mem_identifiers, rowsOf_of_eq_some hkept]
        refine ⟨n.row, List.mem_map_of_mem (List.mem_filter.2 ⟨hn, ?_⟩), hidOf⟩
        rw [Bool.not_eq_true']
        refine Bool.eq_false_iff.2 fun hselected => hgone rfl ?_
        rw [show gone = _ from idsOf_eq _, List.mem_filterMap]
        exact ⟨n.row, List.mem_map_of_mem (List.mem_filter.2 ⟨hn, hselected⟩), hidOf⟩
      · rw [identifiers_eq, hstays p hnone hp, ← identifiers_eq]
        exact hid
    refine referencesHold_iff.2 fun ref href id hid => hids ref.parent ?_ id
      (hholds ref href id hid) fun hparent => ?_
    · rcases parent_eq u ref href with hp | hp <;> rw [hp] <;> rfl
    · have hu : u ≠ t := fun hu => parent_ne u ref href (hparent.trans hu.symm)
      rw [rowsOf_of_filter (p := fun row => !refersTo u t gone row) (hothers u hu),
        List.mem_filter, Bool.not_eq_true'] at hrow
      exact refersTo_eq_false.1 hrow.2 ref href hparent id hid

end delete

section update

variable {name : String} {value : Cell} {which : Selection t} {n : Nat}
  {column : Column (Numbered t.Row)}

/-- The number of a row is part of no key. -/
theorem numberName_notMem : ∀ key ∈ (layout t).keys, Column.numberName ∉ key.columns := by
  cases t <;> decide

theorem keysFree_of_updateRow {rows : List (Numbered t.Row)} {old new : Numbered t.Row}
    (hcolumn : s.column? t name = .ok column)
    (hold : keysFree t (rows.map (·.row)) old.row = .ok ())
    (h : updateRow t column value rows old = .ok new) :
    keysFree t (rows.map (·.row)) new.row = .ok () := by
  obtain ⟨hput, -, -, hplace⟩ := updateRow_cases h
  -- Either the keys were looked at again, or the column is part of none.
  by_cases hkeys : ∃ key ∈ (layout t).keys, column.name ∈ key.columns
  · obtain ⟨key, hkey, hname⟩ := hkeys
    have hnumber : column.name ≠ Column.numberName :=
      fun hnumber => numberName_notMem key hkey (hnumber ▸ hname)
    have hany : ((layout t).keys.any fun key => key.columns.contains column.name) = true :=
      List.any_eq_true.2 ⟨key, hkey, List.contains_iff_mem.2 hname⟩
    rw [placeFree, if_neg hnumber, if_pos hany] at hplace
    exact hplace
  · rw [keysFree_eq_ok] at hold ⊢
    intro key hkey other hother
    have hof := (unmoved_of_column? hcolumn hput).keys key hkey fun hmem =>
      hkeys ⟨key, hkey, hmem⟩
    rw [sameKey_congr hof rfl]
    exact hold key hkey other hother

theorem keysApart_of_updateRows {selects : Numbered t.Row → Bool} {k : Nat}
    {done todo rows : List (Numbered t.Row)} (hcolumn : s.column? t name = .ok column)
    (hkeys : KeysApart t ((done ++ todo).map (·.row)))
    (h : updateRows t column value selects n done todo = .ok (k, rows)) :
    KeysApart t (rows.map (·.row)) := by
  induction todo generalizing n done with
  | nil =>
    obtain ⟨-, rfl⟩ := Prod.mk.inj (Except.ok.inj h)
    rwa [List.append_nil] at hkeys
  | cons row rest ih =>
    have hmiddle : ∀ row : Numbered t.Row, ((done ++ row :: rest).map (·.row)).Perm
        (row.row :: (done ++ rest).map (·.row)) := fun row => List.perm_middle.map _
    rw [updateRows] at h
    split at h
    · split at h
      · next new hnew =>
        obtain ⟨hfree, hrest⟩ := KeysApart.cons_iff.1 (hkeys.perm (hmiddle row))
        refine ih ?_ h
        rw [List.append_assoc]
        exact (KeysApart.cons_iff.2 ⟨keysFree_of_updateRow hcolumn hfree hnew, hrest⟩).perm
          (hmiddle new).symm
      · cases h
    · refine ih ?_ h
      rwa [List.append_assoc]

/-- Each row after an update comes from one before it. -/
theorem exists_of_mem_updated {before after : List (Numbered t.Row)}
    (h : List.Forall₂ (Updated column value) before after) :
    ∀ new ∈ after, ∃ old ∈ before, Updated column value old new := by
  induction h with
  | nil => exact List.forall_mem_nil _
  | cons hhead _ ih =>
    rw [List.forall_mem_cons]
    refine ⟨⟨_, List.mem_cons_self, hhead⟩, fun new hnew => ?_⟩
    obtain ⟨old, hold, hupdated⟩ := ih new hnew
    exact ⟨old, List.mem_cons_of_mem _ hold, hupdated⟩

theorem exists_updated_of_mem {before after : List (Numbered t.Row)}
    (h : List.Forall₂ (Updated column value) before after) :
    ∀ old ∈ before, ∃ new ∈ after, Updated column value old new := by
  induction h with
  | nil => exact List.forall_mem_nil _
  | cons hhead _ ih =>
    rw [List.forall_mem_cons]
    refine ⟨⟨_, List.mem_cons_self, hhead⟩, fun old hold => ?_⟩
    obtain ⟨new, hnew, hupdated⟩ := ih old hold
    exact ⟨new, List.mem_cons_of_mem _ hnew, hupdated⟩

theorem updateHolds_iff : s.updateHolds t name = true ↔
    (∀ ref ∈ (layout t).references, ref.column = name →
      ∀ row ∈ s.rowsOf t, s.referenceHolds ref row = true) ∧
    (name = identifierColumn → ∀ u, ∀ ref ∈ (layout u).references, ref.parent = t →
      ∀ row ∈ s.rowsOf u, s.referenceHolds ref row = true) := by
  rw [updateHolds, Bool.and_eq_true, List.all_eq_true, Bool.or_eq_true, childrenHold,
    List.all_eq_true]
  refine and_congr (forall₂_congr fun ref _ => ?_) ?_
  · simp [or_iff_not_imp_left]
  · rw [or_iff_not_imp_left]
    simp [mem_all, or_iff_not_imp_left]

theorem Updated.unmoved (hcolumn : s.column? t name = .ok column) {old new : Numbered t.Row}
    (h : Updated column value old new) : Unmoved t column.name old.row new.row := by
  rcases h with rfl | ⟨hput, -⟩
  · exact Unmoved.refl _ _
  · exact unmoved_of_column? hcolumn hput

/-- A store after a column of one table was written: each row of the table comes from one before,
and each one before is still there, with nothing moved but the column. -/
structure Rewritten (t : Table) (name : String) (s s' : Store) : Prop where
  comes : ∀ new ∈ s'.rowsOf t, ∃ old ∈ s.rowsOf t, Unmoved t name old new
  stays : ∀ old ∈ s.rowsOf t, ∃ new ∈ s'.rowsOf t, Unmoved t name old new
  others : ∀ u ≠ t, s'.rowsOf u = s.rowsOf u

namespace Rewritten

theorem identifiers_of_ne (h : Rewritten t name s s') (hu : u ≠ t) :
    s'.identifiers u = s.identifiers u := by
  rw [identifiers_eq, identifiers_eq, h.others u hu]

theorem mem_identifiers (h : Rewritten t name s s') (hname : name ≠ identifierColumn) {id : String}
    (hid : id ∈ s.identifiers u) : id ∈ s'.identifiers u := by
  by_cases hu : u = t
  · subst hu
    obtain ⟨old, hold, hidOf⟩ := Store.mem_identifiers.1 hid
    obtain ⟨new, hnew, hunmoved⟩ := h.stays old hold
    exact Store.mem_identifiers.2 ⟨new, hnew, (hunmoved.ids hname).trans hidOf⟩
  · rwa [h.identifiers_of_ne hu]

/-- Only the references of the column, and those to it, have to be looked at again. -/
theorem referencesHold (h : Rewritten t name s s')
    (hbefore : s.RowsMeet fun t row => s.referencesHold t row = true)
    (hholds : s'.updateHolds t name = true) {row : u.Row} (hrow : row ∈ s'.rowsOf u) :
    s'.referencesHold u row = true := by
  obtain ⟨hown, hchildren⟩ := updateHolds_iff.1 hholds
  refine referencesHold_iff.2 fun ref href id hid => ?_
  by_cases hu : u = t
  · subst hu
    by_cases hname : ref.column = name
    · exact referenceHolds_iff.1 (hown ref href hname row hrow) id hid
    · obtain ⟨old, hold, hunmoved⟩ := h.comes row hrow
      rw [h.identifiers_of_ne (parent_ne u ref href)]
      exact referencesHold_iff.1 (hbefore u old hold) ref href id
        ((hunmoved.references ref href hname).symm.trans hid)
  · have hthere := referencesHold_iff.1 (hbefore u row (h.others u hu ▸ hrow)) ref href id hid
    by_cases hname : name = identifierColumn
    · by_cases hparent : ref.parent = t
      · exact referenceHolds_iff.1 (hchildren hname u ref href hparent row hrow) id hid
      · rwa [h.identifiers_of_ne hparent]
    · exact h.mem_identifiers hname hthere

end Rewritten

theorem rewritten_of_updated (hcolumn : s.column? t name = .ok column)
    {before after : List (Numbered t.Row)} (hupdated : List.Forall₂ (Updated column value)
      before after) (hbefore : s.rowsOf t = before.map (·.row))
    (hafter : (s'.rowsOf t).Perm (after.map (·.row)))
    (hothers : ∀ u ≠ t, s'.rowsOf u = s.rowsOf u) : Rewritten t column.name s s' where
  comes row hrow := by
    obtain ⟨new, hnew, rfl⟩ := List.mem_map.1 (hafter.mem_iff.1 hrow)
    obtain ⟨old, hold, hnow⟩ := exists_of_mem_updated hupdated new hnew
    exact ⟨old.row, hbefore ▸ List.mem_map_of_mem hold, hnow.unmoved hcolumn⟩
  stays row hrow := by
    rw [hbefore] at hrow
    obtain ⟨old, hold, rfl⟩ := List.mem_map.1 hrow
    obtain ⟨new, hnew, hnow⟩ := exists_updated_of_mem hupdated old hold
    exact ⟨new.row, hafter.mem_iff.2 (List.mem_map_of_mem hnew), hnow.unmoved hcolumn⟩
  others := hothers

/-- An update in which keys are compared row by row and references after the last row. -/
theorem Consistent.update (h : s.Consistent)
    (hupdate : (s.update t name value which).result = .ok (n, s')) : s'.Consistent := by
  obtain rfl | ⟨rows, column, selects, after, hget, hcolumn, hrows, hs', hholds⟩ :=
    update_cases hupdate
  · exact h
  have hbefore := rowsOf_of_eq_some hget
  have hapart : KeysApart t ((([] : List (Numbered t.Row)) ++ rows).map (·.row)) :=
    hbefore ▸ h.keys t
  have hkeys := keysApart_of_updateRows hcolumn hapart hrows
  obtain ⟨_, rfl, hupdated⟩ := forall₂_of_updateRows hrows
  have hperm : (s'.rowsOf t).Perm (after.map (·.row)) := by
    rw [hs', rowsOf_put]
    split
    · exact (List.mergeSort_perm after _).map _
    · rfl
  have hothers : ∀ u ≠ t, s'.rowsOf u = s.rowsOf u := fun u hu =>
    hs' ▸ rowsOf_put_of_ne s _ hu
  have hrewritten := rewritten_of_updated hcolumn hupdated hbefore hperm hothers
  refine ⟨fun u => ?_, fun u row hrow => ?_, fun u row hrow =>
    hrewritten.referencesHold h.references hholds hrow⟩
  · by_cases hu : u = t
    · subst hu
      exact hkeys.perm hperm.symm
    · rw [hothers u hu]
      exact h.keys u
  · by_cases hu : u = t
    · subst hu
      obtain ⟨new, hnew, rfl⟩ := List.mem_map.1 (hperm.mem_iff.1 hrow)
      obtain ⟨old, hold, rfl | ⟨-, -, hconditions⟩⟩ := exists_of_mem_updated hupdated new hnew
      · exact h.conditions u _ (hbefore ▸ List.mem_map_of_mem hold)
      · exact hconditions
    · exact h.conditions u row (hothers u hu ▸ hrow)

end update

end FilmReport.Store
