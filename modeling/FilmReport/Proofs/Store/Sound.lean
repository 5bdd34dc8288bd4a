import FilmReport.Store.Write
import FilmReport.Store.Exchange

/-!
Sound statements. No check, insertion, update or deletion fails for want of room, and one that wrote
nothing leaves the store as it was.
-/

set_option autoImplicit false
set_option relaxedAutoImplicit false

namespace FilmReport

/-- What is asked of a statement on given data: it ends no transaction for want of room, and if it
wrote nothing the data are what they were. -/
structure Effect.Sound {α : Type} (effect : Effect α) (s : Store) : Prop where
  room : effect.result ≠ .error .full
  idle : effect.wrote = false → ∀ {a : α} {s' : Store}, effect.result = .ok (a, s') → s' = s

/-- A check of the store that never fails for want of room. -/
def Store.Roomy {α : Type} (r : Except StoreError α) : Prop :=
  r ≠ .error .full

namespace Store

variable {α β : Type}

theorem ok_bind (a : α) (f : α → Except StoreError β) :
    ((.ok a : Except StoreError α) >>= f) = f a := rfl

/-- A check that is made of two answers only if both do. -/
theorem exists_of_bind {r : Except StoreError α} {f : α → Except StoreError β} {b : β}
    (h : (r >>= f) = .ok b) : ∃ a, r = .ok a ∧ f a = .ok b := by
  cases r with
  | error e => cases h
  | ok a => exact ⟨a, rfl, h⟩

theorem get_of_numbered? {s : Store} {t : Table} {rows : List (Numbered t.Row)}
    (h : s.numbered? t = .ok rows) : s.get t = some rows := by
  rw [numbered?] at h
  split at h
  · next rows hget => rw [hget, Except.ok.inj h]
  · cases h

theorem roomy_ok (a : α) : Roomy (.ok a) := by
  intro h
  cases h

theorem roomy_pure (a : α) : Roomy (pure a) :=
  roomy_ok a

theorem roomy_error {e : StoreError} (h : e ≠ .full) : Roomy (.error e : Except StoreError α) :=
  fun he => h (Except.error.inj he)

theorem roomy_bind {r : Except StoreError α} {f : α → Except StoreError β} (h : Roomy r)
    (hf : ∀ a, Roomy (f a)) : Roomy (r >>= f) := by
  cases r with
  | error e => exact roomy_error fun he => h (he ▸ rfl)
  | ok a => exact hf a

theorem roomy_map {r : Except StoreError α} (h : Roomy r) (f : α → β) : Roomy (r.map f) := by
  cases r with
  | error e => exact roomy_error fun he => h (he ▸ rfl)
  | ok a => exact roomy_ok _

theorem roomy_foldlM {f : β → α → Except StoreError β} (hf : ∀ b a, Roomy (f b a))
    (items : List α) (b : β) : Roomy (items.foldlM f b) := by
  induction items generalizing b with
  | nil => exact roomy_pure b
  | cons a rest ih => exact roomy_bind (hf b a) ih

theorem roomy_forM {f : α → Except StoreError PUnit} (hf : ∀ a, Roomy (f a)) (items : List α) :
    Roomy (items.forM f) := by
  induction items with
  | nil => exact roomy_pure _
  | cons a rest ih => exact roomy_bind (hf a) fun _ => ih

/-- A column into which a cell is put, or refused for what it is. -/
def Column.Roomy {ρ : Type} (c : Column ρ) : Prop :=
  ∀ cell row, Store.Roomy (c.put cell row)

/-- A row that is left out because the one that is there stays changes nothing. -/
theorem insert_of_isKept {t : Table} {conflict : Conflict t.Row} {row : t.Row} {s s' : Store}
    (hkept : isKept conflict row s = true) (h : s.insert t conflict row = .ok s') : s' = s := by
  obtain ⟨numbered, hnumbered, h⟩ := exists_of_bind h
  obtain ⟨-, -, h⟩ := exists_of_bind h
  obtain ⟨-, -, h⟩ := exists_of_bind h
  cases conflict with
  | refuse => cases hkept
  | merge f => cases hkept
  | keep =>
    have hrows : s.rowsOf t = numbered.map (·.row) := by
      rw [rowsOf, get_of_numbered? hnumbered]
      rfl
    have hany : (numbered.map (·.row)).any (sameRow t row) = true := hrows ▸ hkept
    dsimp only at h
    rw [if_pos hany] at h
    exact (Except.ok.inj h).symm

namespace Column

variable {ρ : Type}

@[simp]
theorem roomy_optionalText (name : String) (get : ρ → Option String)
    (set : Option String → ρ → ρ) : (optionalText name get set).Roomy :=
  fun _ _ => roomy_ok _

@[simp]
theorem roomy_requiredText (table name : String) (get : ρ → String) (set : String → ρ → ρ) :
    (requiredText table name get set).Roomy := by
  intro cell row
  rw [requiredText]
  dsimp only
  split
  · exact roomy_ok _
  · exact roomy_error (by simp)

@[simp]
theorem roomy_integer (name : String) (get : ρ → Cell) (set : Cell → ρ → ρ) :
    (integer name get set).Roomy :=
  fun _ _ => roomy_ok _

@[simp]
theorem roomy_requiredInteger (table name : String) (get : ρ → Cell) (set : Cell → ρ → ρ) :
    (requiredInteger table name get set).Roomy := by
  intro cell row
  rw [requiredInteger]
  dsimp only
  split
  · exact roomy_error (by simp)
  · exact roomy_ok _

@[simp]
theorem roomy_real (name : String) (get : ρ → Cell) (set : Cell → ρ → ρ) :
    (real name get set).Roomy :=
  fun _ _ => roomy_ok _

@[simp]
theorem roomy_rowNumber (name : String) (get : ρ → Int) (set : Int → ρ → ρ) :
    (rowNumber name get set).Roomy := by
  intro cell row
  rw [rowNumber]
  dsimp only
  split
  · exact roomy_ok _
  · exact roomy_error (by simp)

@[simp]
theorem roomy_plain (name : String) (get : ρ → Cell) (set : Cell → ρ → ρ) :
    (plain name get set).Roomy :=
  fun _ _ => roomy_ok _

end Column

theorem roomy_of_mem_columns {t : Table} : ∀ c ∈ (layout t).columns, c.Roomy := by
  cases t <;>
    simp [layout, movieLayout, nameLayout, genreLayout, directorLayout, roleLayout, ratingLayout,
      membershipLayout, runLayout, migrationLayout, sequenceLayout]

theorem roomy_fill {ρ : Type} : ∀ {columns : List (Column ρ × Cell)},
    (∀ c ∈ columns, c.1.Roomy) → ∀ row, Roomy (fill columns row)
  | [], _, row => roomy_ok row
  | (column, cell) :: rest, h, row => by
    obtain ⟨hcolumn, hrest⟩ := List.forall_mem_cons.1 h
    rw [fill]
    cases hput : column.put cell row with
    | ok row' => exact roomy_fill hrest row'
    | error e => exact roomy_error fun he => hcolumn cell row (he ▸ hput)

theorem roomy_of_column? {s : Store} {t : Table} {name : String} {c : Column (Numbered t.Row)}
    (h : s.column? t name = .ok c) : c.Roomy := by
  rw [column?] at h
  split at h
  · next found hfind =>
    obtain rfl := Except.ok.inj h
    intro cell row
    have hmem := (List.mem_filter.1 (List.mem_of_find?_eq_some hfind)).1
    exact roomy_map (roomy_of_mem_columns found hmem cell row.row) _
  · split at h
    · obtain rfl := Except.ok.inj h
      exact Column.roomy_rowNumber _ _ _
    · cases h

theorem roomy_numbered? (s : Store) (t : Table) : Roomy (s.numbered? t) := by
  rw [numbered?]
  cases s.get t with
  | none => exact roomy_error (by simp)
  | some rows => exact roomy_ok rows

theorem roomy_parentsPresent (s : Store) (t : Table) : Roomy (s.parentsPresent t) := by
  rw [parentsPresent]
  split
  · exact roomy_error (by simp)
  · exact roomy_ok ()

theorem roomy_meetsConditions (t : Table) (row : t.Row) : Roomy (meetsConditions t row) := by
  rw [meetsConditions]
  split
  · exact roomy_error (by simp)
  · exact roomy_ok ()

theorem roomy_keysFree (t : Table) (rows : List t.Row) (row : t.Row) :
    Roomy (keysFree t rows row) := by
  rw [keysFree]
  split
  · exact roomy_error (by simp)
  · exact roomy_ok ()

theorem roomy_insert (t : Table) (conflict : Conflict t.Row) (row : t.Row) (s : Store) :
    Roomy (s.insert t conflict row) := by
  have happend : ∀ numbered : List (Numbered t.Row), Roomy (do
      keysFree t (numbered.map (·.row)) row
      if s.referencesHold t row then
        pure (s.put t (some (numbered ++ [⟨nextNumber numbered, row⟩])))
      else throw .foreignKey) := by
    intro numbered
    refine roomy_bind (roomy_keysFree t _ row) fun _ => ?_
    split
    · exact roomy_pure _
    · exact roomy_error (by simp)
  refine roomy_bind (roomy_numbered? s t) fun numbered => ?_
  refine roomy_bind (roomy_parentsPresent s t) fun _ => ?_
  refine roomy_bind (roomy_meetsConditions t row) fun _ => ?_
  cases conflict with
  | refuse => exact happend numbered
  | keep =>
    dsimp only
    split
    · exact roomy_pure s
    · exact happend numbered
  | merge f =>
    dsimp only
    split
    · exact roomy_bind (roomy_meetsConditions t _) fun _ => roomy_pure _
    · exact happend numbered

theorem roomy_placeFree (t : Table) (name : String) (rows : List (Numbered t.Row))
    (new : Numbered t.Row) : Roomy (placeFree t name rows new) := by
  rw [placeFree]
  split
  · split
    · exact roomy_error (by simp)
    · exact roomy_ok ()
  · split
    · exact roomy_keysFree t _ _
    · exact roomy_ok ()

theorem roomy_updateRow {t : Table} {column : Column (Numbered t.Row)} (hcolumn : column.Roomy)
    (value : Cell) (others : List (Numbered t.Row)) (old : Numbered t.Row) :
    Roomy (updateRow t column value others old) := by
  refine roomy_bind (hcolumn value old) fun new => ?_
  dsimp only
  split
  · exact roomy_bind (roomy_meetsConditions t new.row) fun _ =>
      roomy_bind (roomy_placeFree t _ _ new) fun _ => roomy_pure new
  · exact roomy_error (by simp)

theorem updateRows_ne_full {t : Table} {column : Column (Numbered t.Row)}
    (hcolumn : column.Roomy) (value : Cell) (which : Numbered t.Row → Bool)
    (todo done : List (Numbered t.Row)) (n k : Nat) :
    updateRows t column value which n done todo ≠ .error (.full, k) := by
  induction todo generalizing n done with
  | nil =>
    intro h
    cases h
  | cons row todo ih =>
    rw [updateRows]
    split
    · cases hrow : updateRow t column value (done ++ todo) row with
      | ok new => exact ih _ _
      | error e =>
        intro he
        obtain rfl : e = .full := congrArg Prod.fst (Except.error.inj he)
        exact roomy_updateRow hcolumn value _ row hrow
    · exact ih _ _

theorem roomy_column? (s : Store) (t : Table) (name : String) : Roomy (s.column? t name) := by
  rw [column?]
  split
  · exact roomy_ok _
  · split
    · exact roomy_ok _
    · exact roomy_error (by simp)

theorem roomy_updatable {t : Table} {which : Selection t} {s : Store} (name : String)
    (hwhich : Roomy (which s)) : Roomy (s.updatable t name which) := by
  refine roomy_bind (roomy_numbered? s t) fun _ => ?_
  refine roomy_bind (roomy_column? s t name) fun _ => ?_
  refine roomy_bind hwhich fun _ => ?_
  split
  · exact roomy_error (by simp)
  · exact roomy_pure _

/-- What an update needs if it can be made ready. -/
theorem updatable_eq_ok {t : Table} {name : String} {which : Selection t} {s : Store}
    {rows : List (Numbered t.Row)} {column : Column (Numbered t.Row)}
    {selects : Numbered t.Row → Bool} (h : s.updatable t name which = .ok (rows, column, selects)) :
    s.get t = some rows ∧ s.column? t name = .ok column ∧ which s = .ok selects := by
  obtain ⟨rows', hrows, h⟩ := exists_of_bind h
  obtain ⟨column', hcolumn, h⟩ := exists_of_bind h
  obtain ⟨selects', hselects, h⟩ := exists_of_bind h
  split at h
  · cases h
  · obtain ⟨rfl, rfl, rfl⟩ : rows' = rows ∧ column' = column ∧ selects' = selects := by
      simpa [pure, Except.pure] using h
    exact ⟨get_of_numbered? hrows, hcolumn, hselects⟩

/-- A statement that failed, but not for want of room. -/
theorem sound_of_error {effect : Effect α} {e : StoreError} (hresult : effect.result = .error e)
    (h : e ≠ .full) (s : Store) : effect.Sound s where
  room := by
    rw [hresult]
    intro he
    exact h (Except.error.inj he)
  idle := by
    intro _ a s' hok
    rw [hresult] at hok
    cases hok

/-- A statement that succeeded, and wrote something unless the data are the same. -/
theorem sound_of_ok {effect : Effect α} {a : α} {after s : Store}
    (hresult : effect.result = .ok (a, after)) (h : effect.wrote = false → after = s) :
    effect.Sound s where
  room := by
    rw [hresult]
    exact roomy_ok (a, after)
  idle := by
    intro hwrote b s' hok
    rw [hresult] at hok
    obtain ⟨-, rfl⟩ := Prod.mk.inj (Except.ok.inj hok)
    exact h hwrote

theorem sound_failed {e : StoreError} (h : e ≠ .full) (wrote : Bool) (s : Store) :
    (Effect.failed e wrote : Effect α).Sound s :=
  sound_of_error rfl h s

theorem sound_done (a : α) (after s : Store) : (Effect.done a after true).Sound s :=
  sound_of_ok rfl fun hwrote => Bool.noConfusion hwrote

theorem sound_done_same (a : α) (wrote : Bool) (s : Store) : (Effect.done a s wrote).Sound s :=
  sound_of_ok rfl fun _ => rfl

theorem sound_update {t : Table} {which : Selection t} {s : Store} (name : String) (value : Cell)
    (hwhich : Roomy (which s)) : (s.update t name value which).Sound s := by
  have hupdatable := roomy_updatable name hwhich
  rw [update]
  rcases hready : s.updatable t name which with e | ⟨rows, column, selects⟩
  · rw [hready] at hupdatable
    exact sound_failed (fun he => hupdatable (congrArg _ he)) false s
  · have hcolumn := roomy_of_column? (updatable_eq_ok hready).2.1
    have hdone : ∀ (n : Nat) (after : Store),
        (if updateHolds t column.name after then Effect.done n after true
          else .failed .foreignKey true).Sound s := by
      intro n after
      split
      · exact sound_done n after s
      · exact sound_failed (by simp) true s
    dsimp only
    split
    · next e n hrows =>
      have hfull : e ≠ .full := fun he => updateRows_ne_full hcolumn _ _ _ _ _ _ (he ▸ hrows)
      exact sound_failed hfull _ s
    · exact sound_done_same 0 false s
    · exact hdone _ _

theorem sound_writing {r : Except StoreError (α × Store)} (h : Roomy r) (s : Store) :
    (Effect.writing r).Sound s := by
  rcases r with e | ⟨a, s'⟩
  · exact sound_of_error rfl (fun he => h (congrArg _ he)) s
  · exact sound_of_ok rfl fun hwrote => Bool.noConfusion hwrote

theorem sound_storing {r : Except StoreError Store} {wrote : Bool} {s : Store} (h : Roomy r)
    (hidle : wrote = false → ∀ s', r = .ok s' → s' = s) : (Effect.storing r wrote).Sound s := by
  cases r with
  | error e => exact sound_of_error rfl (fun he => h (congrArg _ he)) s
  | ok s' => exact sound_of_ok rfl fun hwrote => hidle hwrote s' rfl

theorem sound_counting {r : Except StoreError (Nat × Store)} {s : Store} (h : Roomy r)
    (hidle : ∀ s', r = .ok (0, s') → s' = s) : (Effect.counting r).Sound s := by
  rcases r with e | ⟨n, s'⟩
  · exact sound_of_error rfl (fun he => h (congrArg _ he)) s
  · refine sound_of_ok rfl fun hwrote => ?_
    obtain rfl : n = 0 := by simpa [Effect.counting] using hwrote
    exact hidle s' rfl

theorem put_get (s : Store) (t : Table) : s.put t (s.get t) = s := by
  cases t <;> rfl

theorem refersTo_nil (t parent : Table) (row : t.Row) : refersTo t parent [] row = false := by
  rw [refersTo, List.any_eq_false]
  intro ref _
  cases ref.of row <;> simp

/-- Where no row is gone, none is taken along. -/
theorem cascade_nil (parent : Table) (s : Store) (t : Table) : cascade parent [] s t = s := by
  have hfilter : ((s.get t).map fun rows => rows.filter fun n => !refersTo t parent [] n.row) =
      s.get t := by
    cases s.get t with
    | none => rfl
    | some rows => simp [refersTo_nil]
  rw [cascade, hfilter, put_get]

theorem foldl_cascade_nil (parent : Table) (tables : List Table) (s : Store) :
    tables.foldl (cascade parent []) s = s := by
  induction tables generalizing s with
  | nil => rfl
  | cons t rest ih => rw [List.foldl_cons, cascade_nil, ih]

theorem roomy_delete {t : Table} {which : Selection t} {s : Store} (hwhich : Roomy (which s)) :
    Roomy (s.delete t which) := by
  refine roomy_bind (roomy_numbered? s t) fun _ => ?_
  refine roomy_bind hwhich fun _ => ?_
  refine roomy_bind ?_ fun _ => roomy_pure _
  refine roomy_bind (roomy_parentsPresent s t) fun _ => ?_
  exact roomy_forM (fun child => roomy_parentsPresent s child) _

/-- A deletion that finds no row changes nothing. -/
theorem delete_none {t : Table} {which : Selection t} {s s' : Store}
    (h : s.delete t which = .ok (0, s')) : s' = s := by
  obtain ⟨rows, hrows, h⟩ := exists_of_bind h
  obtain ⟨selects, -, h⟩ := exists_of_bind h
  obtain ⟨-, -, h⟩ := exists_of_bind h
  obtain ⟨hgone, rfl⟩ := Prod.mk.inj (Except.ok.inj h)
  have hnone : rows.filter selects = [] := by
    simpa using hgone
  have hall : (rows.filter fun row => !selects row) = rows := by
    rw [List.filter_eq_self]
    intro row hrow
    have := List.filter_eq_nil_iff.1 hnone row hrow
    simpa using this
  have hids : idsOf t ([] : List t.Row) = [] := by cases t <;> rfl
  rw [hnone, hall, List.map_nil, hids, foldl_cascade_nil, ← get_of_numbered? hrows, put_get]

end Store

end FilmReport
