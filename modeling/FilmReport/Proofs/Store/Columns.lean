import Mathlib.Data.List.Forall2
import Mathlib.Data.List.Nodup
import FilmReport.Proofs.Store.Insert

/-!
What an update changes. A value put into a column leaves the keys and the references that the column
is no part of and, unless it is the column of identifiers, the identifier; columns are told apart by
their names, and a value put into one leaves what the others hold (`IsColumn.exists_put`). An update
answers how many rows of a table it selects, gives each of them the value in its turn, and changes
nothing else (`exists_of_update`).
-/

set_option autoImplicit false
set_option relaxedAutoImplicit false

namespace FilmReport.Store

variable {t : Table} {s s' : Store}

/-- The text by which other tables refer to a row. -/
def idOf : (t : Table) → t.Row → Option String
  | .movie, m => m.id
  | .names, n => n.id
  | _, _ => none

theorem idsOf_eq (rows : List t.Row) : idsOf t rows = rows.filterMap (idOf t) := by
  cases t <;> first | rfl | exact (List.filterMap_eq_nil_iff.2 fun _ _ => rfl).symm

theorem identifiers_eq (s : Store) (t : Table) :
    s.identifiers t = (s.rowsOf t).filterMap (idOf t) := by
  rw [← idsOf_eq]
  cases t <;> rfl

theorem mem_identifiers {id : String} :
    id ∈ s.identifiers t ↔ ∃ row ∈ s.rowsOf t, idOf t row = some id := by
  rw [identifiers_eq, List.mem_filterMap]

/-- What a value put into a column leaves of a row. -/
structure Unmoved (t : Table) (name : String) (old new : t.Row) : Prop where
  keys : ∀ key ∈ (layout t).keys, name ∉ key.columns → key.of new = key.of old
  references : ∀ ref ∈ (layout t).references, ref.column ≠ name → ref.of new = ref.of old
  ids : name ≠ identifierColumn → idOf t new = idOf t old

theorem unmoved_iff {name : String} {old new : t.Row} : Unmoved t name old new ↔
    (∀ key ∈ (layout t).keys, name ∉ key.columns → key.of new = key.of old) ∧
    (∀ ref ∈ (layout t).references, ref.column ≠ name → ref.of new = ref.of old) ∧
    (name ≠ identifierColumn → idOf t new = idOf t old) :=
  ⟨fun h => ⟨h.keys, h.references, h.ids⟩, fun h => ⟨h.1, h.2.1, h.2.2⟩⟩

theorem Unmoved.refl (name : String) (row : t.Row) : Unmoved t name row row :=
  ⟨fun _ _ _ => rfl, fun _ _ _ => rfl, fun _ => rfl⟩

namespace Column

variable {ρ : Type} {C : Cell → Prop} {R : String → ρ → ρ → Prop}

/-- A column that, given one of some cells, changes rows in the way that a relation allows for its
name. -/
def Moves (C : Cell → Prop) (R : String → ρ → ρ → Prop) (c : Column ρ) : Prop :=
  ∀ {cell : Cell} {old new : ρ}, C cell → c.put cell old = .ok new → R c.name old new

theorem moves_optionalText {name : String} {get : ρ → Option String}
    {set : Option String → ρ → ρ} (h : ∀ cell row, C cell → R name row (set cell.toText? row)) :
    (optionalText name get set).Moves C R := by
  intro cell old new hcell hput
  obtain rfl := Except.ok.inj hput
  exact h _ _ hcell

theorem moves_requiredText {table name : String} {get : ρ → String} {set : String → ρ → ρ}
    (h : ∀ s row, R name row (set s row)) : (requiredText table name get set).Moves C R := by
  intro cell old new _ hput
  rw [requiredText] at hput
  dsimp only at hput
  split at hput
  · obtain rfl := Except.ok.inj hput
    exact h _ _
  · cases hput

theorem moves_integer {name : String} {get : ρ → Cell} {set : Cell → ρ → ρ}
    (h : ∀ cell row, C cell → R name row (set cell.toInteger row)) :
    (integer name get set).Moves C R := by
  intro cell old new hcell hput
  obtain rfl := Except.ok.inj hput
  exact h _ _ hcell

theorem moves_requiredInteger {table name : String} {get : ρ → Cell} {set : Cell → ρ → ρ}
    (h : ∀ cell row, C cell → R name row (set cell.toInteger row)) :
    (requiredInteger table name get set).Moves C R := by
  intro cell old new hcell hput
  rw [requiredInteger] at hput
  dsimp only at hput
  split at hput
  · cases hput
  · obtain rfl := Except.ok.inj hput
    exact h _ _ hcell

theorem moves_real {name : String} {get : ρ → Cell} {set : Cell → ρ → ρ}
    (h : ∀ cell row, C cell → R name row (set cell.toRealCell row)) :
    (real name get set).Moves C R := by
  intro cell old new hcell hput
  obtain rfl := Except.ok.inj hput
  exact h _ _ hcell

theorem moves_rowNumber {name : String} {get : ρ → Int} {set : Int → ρ → ρ}
    (h : ∀ n row, R name row (set n row)) : (rowNumber name get set).Moves C R := by
  intro cell old new _ hput
  rw [rowNumber] at hput
  dsimp only at hput
  split at hput
  · obtain rfl := Except.ok.inj hput
    exact h _ _
  · cases hput

theorem moves_plain {name : String} {get : ρ → Cell} {set : Cell → ρ → ρ}
    (h : ∀ cell row, C cell → R name row (set cell row)) : (plain name get set).Moves C R := by
  intro cell old new hcell hput
  obtain rfl := Except.ok.inj hput
  exact h _ _ hcell

/-- A column of rows as one of numbered rows changes them in the same way. -/
theorem Moves.of_numbered {column : Column ρ} (h : column.Moves C R) {cell : Cell}
    {old new : Numbered ρ} (hcell : C cell) (hput : column.numbered.put cell old = .ok new) :
    R column.name old.row new.row := by
  replace hput : ((column.put cell old.row).map fun r => { old with row := r }) = .ok new := hput
  rcases hrow : column.put cell old.row with e | row <;> rw [hrow] at hput
  · cases hput
  · rw [← Except.ok.inj hput]
    exact h hcell hrow

end Column

theorem moves_of_mem_columns : ∀ c ∈ (layout t).columns, c.Moves (fun _ => True) (Unmoved t) := by
  cases t <;>
    simp [unmoved_iff, idOf, identifierColumn, layout, movieLayout, nameLayout, genreLayout,
      directorLayout, roleLayout, ratingLayout, membershipLayout, runLayout, migrationLayout,
      sequenceLayout, movieReference, nameReference, Column.moves_optionalText,
      Column.moves_requiredText, Column.moves_integer, Column.moves_requiredInteger,
      Column.moves_real, Column.moves_rowNumber, Column.moves_plain]

/-- A column is one of the layout, or that of the numbers of rows. -/
theorem column?_cases {name : String} {c : Column (Numbered t.Row)}
    (h : s.column? t name = .ok c) :
    c = .number ∨ ∃ column ∈ (layout t).columns, c = column.numbered := by
  rw [column?] at h
  split at h
  · next column hfind =>
    have hmem := (List.mem_filter.1 (List.mem_of_find?_eq_some hfind)).1
    exact Or.inr ⟨column, hmem, (Except.ok.inj h).symm⟩
  · split at h
    · exact Or.inl (Except.ok.inj h).symm
    · cases h

/-- A relation that holds where nothing changes and for all columns of a layout holds for every
column of the table. -/
theorem of_column? {C : Cell → Prop} {R : String → t.Row → t.Row → Prop}
    (hrefl : ∀ name row, R name row row) (hcolumns : ∀ c ∈ (layout t).columns, c.Moves C R)
    {name : String} {c : Column (Numbered t.Row)} (h : s.column? t name = .ok c) {cell : Cell}
    (hcell : C cell) {old new : Numbered t.Row} (hput : c.put cell old = .ok new) :
    R c.name old.row new.row := by
  rcases column?_cases h with rfl | ⟨column, hmem, rfl⟩
  · rw [Column.number, Column.rowNumber] at hput
    dsimp only at hput
    split at hput
    · rw [← Except.ok.inj hput]
      exact hrefl _ _
    · cases hput
  · exact Column.Moves.of_numbered (hcolumns column hmem) hcell hput

theorem unmoved_of_column? {name : String} {c : Column (Numbered t.Row)}
    (h : s.column? t name = .ok c) {cell : Cell} {old new : Numbered t.Row}
    (hput : c.put cell old = .ok new) : Unmoved t c.name old.row new.row :=
  of_column? (Unmoved.refl (t := t)) moves_of_mem_columns h trivial hput

/-- A column of a table, or that of the numbers of its rows. -/
def IsColumn (t : Table) (c : Column (Numbered t.Row)) : Prop :=
  c = .number ∨ ∃ column ∈ (layout t).columns, c = column.numbered

theorem isColumn_of_column? {name : String} {c : Column (Numbered t.Row)}
    (h : s.column? t name = .ok c) : IsColumn t c :=
  column?_cases h

/-- Which column a name means depends on whether there are amounts. -/
theorem column?_congr (h : s'.hasAmount = s.hasAmount) (t : Table) (name : String) :
    s'.column? t name = s.column? t name := by
  simp only [column?, columnsOf, h]

theorem nodup_columnNames (t : Table) :
    (Column.numberName :: (layout t).columns.map (·.name)).Nodup := by
  cases t <;> decide

theorem IsColumn.eq_of_name {c d : Column (Numbered t.Row)} (hc : IsColumn t c)
    (hd : IsColumn t d) (h : c.name = d.name) : c = d := by
  obtain ⟨hnumber, hnodup⟩ := List.nodup_cons.1 (nodup_columnNames t)
  rcases hc with rfl | ⟨c, hc, rfl⟩ <;> rcases hd with rfl | ⟨d, hd, rfl⟩
  · rfl
  · exact absurd (List.mem_map.2 ⟨d, hd, h.symm⟩) hnumber
  · exact absurd (List.mem_map.2 ⟨c, hc, h⟩) hnumber
  · rw [List.inj_on_of_nodup_map hnodup hc hd h]

/-- What a column can keep of a cell, by its kind. -/
def kept (cell : Cell) : List Cell :=
  [.ofText? cell.toText?, cell.toInteger, cell.toRealCell]

theorem text_mem_kept (cell : Cell) : .ofText? cell.toText? ∈ kept cell := List.mem_cons_self

theorem integer_mem_kept (cell : Cell) : cell.toInteger ∈ kept cell :=
  List.mem_cons_of_mem _ List.mem_cons_self

theorem real_mem_kept (cell : Cell) : cell.toRealCell ∈ kept cell :=
  List.mem_cons_of_mem _ (List.mem_cons_of_mem _ List.mem_cons_self)

namespace Column

variable {ρ : Type}

/-- A column at a place among others that keeps one value of a cell in every row, and leaves the
values of the others. -/
def Sets (columns : List (Column ρ)) (cell v : Cell) (c : Column ρ × Nat) : Prop :=
  ∀ old, ∃ new, c.1.put cell old = .ok new ∧
    columns.map (·.get new) = (columns.map (·.get old)).set c.2 v

variable {columns : List (Column ρ)} {cell : Cell} {i : Nat} {table name : String}

theorem sets_optionalText {get : ρ → Option String} {set : Option String → ρ → ρ}
    (h : ∀ x row, columns.map (·.get (set x row)) = (columns.map (·.get row)).set i (.ofText? x)) :
    Sets columns cell (.ofText? cell.toText?) (optionalText name get set, i) :=
  fun old => ⟨_, rfl, h _ old⟩

theorem sets_requiredText {get : ρ → String} {set : String → ρ → ρ} (htext : cell.toText?.isSome)
    (h : ∀ x row, columns.map (·.get (set x row)) = (columns.map (·.get row)).set i (.text x)) :
    Sets columns cell (.ofText? cell.toText?) (requiredText table name get set, i) := by
  obtain ⟨s, hs⟩ := Option.isSome_iff_exists.1 htext
  refine fun old => ⟨set s old, ?_, ?_⟩
  · dsimp only [requiredText]
    rw [hs]
  · rw [h, hs]
    rfl

theorem sets_integer {get : ρ → Cell} {set : Cell → ρ → ρ}
    (h : ∀ x row, columns.map (·.get (set x row)) = (columns.map (·.get row)).set i x) :
    Sets columns cell cell.toInteger (integer name get set, i) :=
  fun old => ⟨_, rfl, h _ old⟩

theorem sets_real {get : ρ → Cell} {set : Cell → ρ → ρ}
    (h : ∀ x row, columns.map (·.get (set x row)) = (columns.map (·.get row)).set i x) :
    Sets columns cell cell.toRealCell (real name get set, i) :=
  fun old => ⟨_, rfl, h _ old⟩

end Column

theorem sets_movie {cell : Cell} (htext : cell.toText?.isSome) :
    ∀ c ∈ movieLayout.columns.zipIdx,
      ∃ v ∈ kept cell, Column.Sets movieLayout.columns cell v c := by
  simp only [movieLayout, List.zipIdx_cons, List.zipIdx_nil, List.forall_mem_cons]
  exact ⟨⟨_, text_mem_kept _, Column.sets_optionalText fun _ _ => rfl⟩,
    ⟨_, text_mem_kept _, Column.sets_requiredText htext fun _ _ => rfl⟩,
    ⟨_, integer_mem_kept _, Column.sets_integer fun _ _ => rfl⟩,
    ⟨_, text_mem_kept _, Column.sets_optionalText fun _ _ => rfl⟩,
    ⟨_, integer_mem_kept _, Column.sets_integer fun _ _ => rfl⟩,
    ⟨_, text_mem_kept _, Column.sets_optionalText fun _ _ => rfl⟩,
    ⟨_, text_mem_kept _, Column.sets_optionalText fun _ _ => rfl⟩,
    ⟨_, text_mem_kept _, Column.sets_optionalText fun _ _ => rfl⟩,
    ⟨_, text_mem_kept _, Column.sets_optionalText fun _ _ => rfl⟩,
    ⟨_, real_mem_kept _, Column.sets_real fun _ _ => rfl⟩, List.forall_mem_nil _⟩

theorem sets_ratings (cell : Cell) : ∀ c ∈ ratingLayout.columns.zipIdx,
    ∃ v ∈ kept cell, Column.Sets ratingLayout.columns cell v c := by
  simp only [ratingLayout, List.zipIdx_cons, List.zipIdx_nil, List.forall_mem_cons]
  exact ⟨⟨_, text_mem_kept _, Column.sets_optionalText fun _ _ => rfl⟩,
    ⟨_, real_mem_kept _, Column.sets_real fun _ _ => rfl⟩,
    ⟨_, integer_mem_kept _, Column.sets_integer fun _ _ => rfl⟩,
    ⟨_, integer_mem_kept _, Column.sets_integer fun _ _ => rfl⟩, List.forall_mem_nil _⟩

theorem exists_sets (ht : t = .movie ∨ t = .ratings) {cell : Cell} (htext : cell.toText?.isSome) :
    ∀ c ∈ (layout t).columns.zipIdx, ∃ v ∈ kept cell, Column.Sets (layout t).columns cell v c := by
  rcases ht with rfl | rfl
  · exact sets_movie htext
  · exact sets_ratings cell

/-- A column of movies or ratings that is not that of the numbers takes a cell in every row; it
keeps one value of it whatever the row, and the other columns keep theirs. -/
theorem IsColumn.exists_put (ht : t = .movie ∨ t = .ratings) {cell : Cell}
    (htext : cell.toText?.isSome) {c : Column (Numbered t.Row)} (hc : IsColumn t c)
    (hname : c.name ≠ Column.numberName) :
    ∃ v ∈ kept cell, ∀ old, ∃ new, c.put cell old = .ok new ∧ c.get new = v ∧
      ∀ d, IsColumn t d → d.name ≠ c.name → d.get new = d.get old := by
  rcases hc with rfl | ⟨column, hmem, rfl⟩
  · exact absurd rfl hname
  obtain ⟨i, hi⟩ := List.getElem?_of_mem hmem
  obtain ⟨v, hv, hsets⟩ := exists_sets ht htext _ (List.mk_mem_zipIdx_iff_getElem?.2 hi)
  refine ⟨v, hv, fun old => ?_⟩
  obtain ⟨new, hput, hvalues⟩ := hsets old.row
  have hget : ∀ j : Nat, ((layout t).columns.map (·.get new))[j]? =
      (((layout t).columns.map (·.get old.row)).set i v)[j]? := fun j => by rw [hvalues]
  refine ⟨{ old with row := new }, ?_, ?_, ?_⟩
  · change (column.put cell old.row).map _ = _
    rw [hput]
    rfl
  · have hhere := hget i
    rw [List.getElem?_map, hi, List.getElem?_set_self'] at hhere
    exact (by simpa [hi] using hhere : column.get new = v)
  · rintro d (rfl | ⟨other, hother, rfl⟩) hne
    · rfl
    · obtain ⟨j, hj⟩ := List.getElem?_of_mem hother
      have hij : i ≠ j := by
        rintro rfl
        exact hne (congrArg (·.name) (Option.some.inj (hj.symm.trans hi)))
      have hthere := hget j
      rw [List.getElem?_set_ne hij, List.getElem?_map, List.getElem?_map, hj] at hthere
      exact Option.some.inj hthere

section updates

variable {column : Column (Numbered t.Row)} {value : Cell} {which : Numbered t.Row → Bool}
  {name : String} {selection : Selection t} {n : Nat}

theorem updateRow_cases {others : List (Numbered t.Row)} {old new : Numbered t.Row}
    (h : updateRow t column value others old = .ok new) :
    column.put value old = .ok new ∧ keepsIdentity t old.row new.row = true ∧
      meetsConditions t new.row = .ok () ∧ placeFree t column.name others new = .ok () := by
  obtain ⟨after, hput, h⟩ := exists_of_bind h
  dsimp only at h
  split at h
  · next hidentity =>
    obtain ⟨⟨⟩, hconditions, h⟩ := exists_of_bind h
    obtain ⟨⟨⟩, hplace, h⟩ := exists_of_bind h
    obtain rfl := Except.ok.inj h
    exact ⟨hput, hidentity, hconditions, hplace⟩
  · cases h

/-- A row before and after an update: either it stays, or a value was put into its column. -/
def Updated (column : Column (Numbered t.Row)) (value : Cell) (old new : Numbered t.Row) : Prop :=
  new = old ∨ column.put value old = .ok new ∧ keepsIdentity t old.row new.row = true ∧
    meetsConditions t new.row = .ok ()

/-- What an update does to a row: one that is selected gets the value into its column and meets the
conditions of its table, and any other stays. -/
def Fills (column : Column (Numbered t.Row)) (value : Cell) (which : Numbered t.Row → Bool)
    (old new : Numbered t.Row) : Prop :=
  if which old then
    column.put value old = .ok new ∧ keepsIdentity t old.row new.row = true ∧
      meetsConditions t new.row = .ok ()
  else new = old

theorem Fills.updated {old new : Numbered t.Row} (h : Fills column value which old new) :
    Updated column value old new := by
  rw [Fills] at h
  split at h
  · exact Or.inr h
  · exact Or.inl h

theorem fills_of_updateRows {k : Nat} {done todo rows : List (Numbered t.Row)}
    (h : updateRows t column value which n done todo = .ok (k, rows)) :
    k = n + todo.countP which ∧
      ∃ after, rows = done ++ after ∧ List.Forall₂ (Fills column value which) todo after := by
  induction todo generalizing n done with
  | nil =>
    obtain ⟨rfl, rfl⟩ := Prod.mk.inj (Except.ok.inj h)
    exact ⟨rfl, [], (List.append_nil _).symm, .nil⟩
  | cons row rest ih =>
    rw [updateRows] at h
    rw [List.countP_cons]
    split at h
    · next hwhich =>
      split at h
      · next new hnew =>
        obtain ⟨hput, hidentity, hconditions, -⟩ := updateRow_cases hnew
        obtain ⟨rfl, after, rfl, hafter⟩ := ih h
        refine ⟨?_, new :: after, List.append_assoc _ _ _, .cons ?_ hafter⟩
        · rw [if_pos hwhich]
          omega
        · exact (if_pos hwhich).mpr ⟨hput, hidentity, hconditions⟩
      · cases h
    · next hwhich =>
      obtain ⟨rfl, after, rfl, hafter⟩ := ih h
      refine ⟨?_, row :: after, List.append_assoc _ _ _, .cons ?_ hafter⟩
      · rw [if_neg hwhich]
        omega
      · exact (if_neg hwhich).mpr rfl

theorem forall₂_of_updateRows {k : Nat} {done todo rows : List (Numbered t.Row)}
    (h : updateRows t column value which n done todo = .ok (k, rows)) :
    ∃ after, rows = done ++ after ∧ List.Forall₂ (Updated column value) todo after := by
  obtain ⟨-, after, hrows, hfills⟩ := fills_of_updateRows h
  exact ⟨after, hrows, hfills.imp fun _ _ => Fills.updated⟩

/-- Rows that an update fills, where each row is filled in one way. -/
theorem eq_map_of_fills {f : Numbered t.Row → Numbered t.Row} {rows after : List (Numbered t.Row)}
    (hf : ∀ old new, Fills column value which old new → new = f old)
    (h : List.Forall₂ (Fills column value which) rows after) : after = rows.map f := by
  have hmap : List.Forall₂ (· = ·) (rows.map f) after :=
    List.forall₂_map_left_iff.2 (h.imp fun old new hfill => (hf old new hfill).symm)
  rw [List.forall₂_eq_eq_eq] at hmap
  exact hmap.symm

/-- An update that selects no row leaves every row. -/
theorem eq_of_fills {rows after : List (Numbered t.Row)}
    (h : List.Forall₂ (Fills column value which) rows after) (hnone : rows.countP which = 0) :
    after = rows := by
  induction h with
  | nil => rfl
  | cons hfirst _ ih =>
    rw [List.countP_cons, Nat.add_eq_zero_iff] at hnone
    obtain ⟨hrest, hhead⟩ := hnone
    have hwhich : ¬ which _ = true := fun hwhich => by
      rw [if_pos hwhich] at hhead
      exact Nat.one_ne_zero hhead
    rw [ih hrest, (if_neg hwhich).mp hfirst]

/-- An update that answers has gone through the rows; one that selects none leaves the store. -/
theorem exists_updateRows_of_update
    (h : (s.update t name value selection).result = .ok (n, s')) :
    ∃ rows column which after, s.get t = some rows ∧ s.column? t name = .ok column ∧
      selection s = .ok which ∧ updateRows t column value which 0 [] rows = .ok (n, after) ∧
      (n = 0 ∧ s' = s ∨ n ≠ 0 ∧
        s' = s.put t (some (if column.name = Column.numberName then byNumber after else after)) ∧
        s'.updateHolds t column.name = true) := by
  rw [update] at h
  rcases hready : s.updatable t name selection with e | ⟨rows, column, which⟩ <;> rw [hready] at h
  · cases h
  obtain ⟨hget, hcolumn, hwhich⟩ := updatable_eq_ok hready
  dsimp only at h
  rcases hrows : updateRows t column value which 0 [] rows with ⟨e, k⟩ | ⟨k, after⟩ <;>
    rw [hrows] at h
  · cases h
  cases k with
  | zero =>
    obtain ⟨rfl, rfl⟩ := Prod.mk.inj (Except.ok.inj h)
    exact ⟨rows, column, which, after, hget, hcolumn, hwhich, hrows, Or.inl ⟨rfl, rfl⟩⟩
  | succ k =>
    let final :=
      s.put t (some (if column.name = Column.numberName then byNumber after else after))
    replace h : (if updateHolds t column.name final = true then Effect.done (k + 1) final true
      else .failed .foreignKey true).result = .ok (n, s') := h
    split at h
    · next hholds =>
      obtain ⟨rfl, rfl⟩ := Prod.mk.inj (Except.ok.inj h)
      exact ⟨rows, column, which, after, hget, hcolumn, hwhich, hrows,
        Or.inr ⟨Nat.succ_ne_zero k, rfl, hholds⟩⟩
    · cases h

/-- What an update can do. -/
theorem update_cases (h : (s.update t name value selection).result = .ok (n, s')) : s' = s ∨
    ∃ rows column which after, s.get t = some rows ∧ s.column? t name = .ok column ∧
      updateRows t column value which 0 [] rows = .ok (n, after) ∧
      s' = s.put t (some (if column.name = Column.numberName then byNumber after else after)) ∧
      s'.updateHolds t column.name = true := by
  obtain ⟨rows, column, which, after, hget, hcolumn, -, hrows, ⟨-, hs'⟩ | ⟨-, hs', hholds⟩⟩ :=
    exists_updateRows_of_update h
  · exact Or.inl hs'
  · exact Or.inr ⟨rows, column, which, after, hget, hcolumn, hrows, hs', hholds⟩

/-- An update writes in its table only. -/
theorem exists_put_of_update (h : (s.update t name value selection).result = .ok (n, s')) :
    ∃ rows, s' = s.put t rows := by
  rcases update_cases h with rfl | ⟨rows, column, which, after, -, -, -, hs', -⟩
  · exact ⟨s'.get t, (put_get s' t).symm⟩
  · exact ⟨_, hs'⟩

/-- An update answers how many rows it selects, and fills them; where it writes numbers of rows, the
rows are put in the order of these after it. -/
theorem exists_of_update (h : (s.update t name value selection).result = .ok (n, s')) :
    ∃ rows column which after, s.get t = some rows ∧ s.column? t name = .ok column ∧
      selection s = .ok which ∧ n = rows.countP which ∧
      List.Forall₂ (Fills column value which) rows after ∧
      (s' = s.put t (some after) ∨ n ≠ 0 ∧ column.name = Column.numberName) := by
  obtain ⟨rows, column, which, after, hget, hcolumn, hwhich, hrows, hs'⟩ :=
    exists_updateRows_of_update h
  obtain ⟨hcount, _, rfl, hfills⟩ := fills_of_updateRows hrows
  rw [Nat.zero_add] at hcount
  refine ⟨rows, column, which, after, hget, hcolumn, hwhich, hcount, hfills, ?_⟩
  obtain ⟨hzero, rfl⟩ | ⟨hsome, hs', -⟩ := hs'
  · rw [eq_of_fills hfills (hcount.symm.trans hzero), ← hget, put_get]
    exact Or.inl rfl
  · by_cases hname : column.name = Column.numberName
    · exact Or.inr ⟨hsome, hname⟩
    · rw [if_neg hname] at hs'
      exact Or.inl hs'

end updates

end FilmReport.Store
