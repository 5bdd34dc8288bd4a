import FilmReport.Proofs.Store.Insert

/-!
Updates of columns that belong to no key and no reference: the rows that are selected get the value,
each if it meets the conditions of its table then, and nothing else changes.
-/

set_option autoImplicit false
set_option relaxedAutoImplicit false

namespace FilmReport.Store

variable {t : Table}

theorem toLower_eq_self {s : String} (h : s.toList.map Char.toLower = s.toList) :
    s.toLower = s := by
  rw [← String.toList_inj]
  change (s.map Char.toLower).toList = s.toList
  rw [String.toList_map, h]

theorem toLower_name (t : Table) : t.name.toLower = t.name := by
  cases t <;> exact toLower_eq_self (by decide)

/-- A table is found by its name. -/
theorem named?_name (refused : String → StoreError) (t : Table) :
    named? refused t.name = .ok t := by
  rw [named?, catalogName?, Table.ofName?, toLower_name]
  cases t <;> rfl

theorem column?_eq_ok {s : Store} {t : Table} {name : String} {c : Column t.Row}
    (hlower : name.toList.map Char.toLower = name.toList) (hnumber : name ∉ numberNames)
    (hfind : (s.columnsOf t).find? (fun c => c.name = name) = some c) :
    s.column? t name = .ok c.numbered := by
  have hcontains : numberNames.contains name = false := by simpa using hnumber
  have hlower := toLower_eq_self hlower
  rw [column?, hlower, hcontains]
  simp only [Bool.false_eq_true, if_false, hlower, hfind]

/-- A column is found under its own name. -/
theorem name_of_column? {s : Store} {t : Table} {name : String} {c : Column (Numbered t.Row)}
    (hlower : name.toList.map Char.toLower = name.toList) (hnumber : name ∉ numberNames)
    (h : s.column? t name = .ok c) : c.name = name := by
  have hcontains : numberNames.contains name = false := by simpa using hnumber
  have hlower := toLower_eq_self hlower
  rw [column?, hlower, hcontains] at h
  simp only [Bool.false_eq_true, if_false, hlower] at h
  split at h
  · next column hfind =>
    have hname : column.name = name := by simpa using List.find?_some hfind
    rw [← Except.ok.inj h]
    exact hname
  · cases h

theorem columnsOf_of_hasAmount {s : Store} (hs : s.hasAmount = true) (t : Table) :
    s.columnsOf t = (layout t).columns := by
  rw [columnsOf, List.filter_eq_self]
  intro c _
  rw [hs, Bool.or_true]

/-- A column that takes a value in every row, and in which any row may have it. -/
structure Settable (t : Table) (column : Column t.Row) (value : Cell) (set : t.Row → t.Row) :
    Prop where
  put : ∀ row, column.put value row = .ok (set row)
  identity : ∀ row, keepsIdentity t row (set row) = true
  numbers : column.name ≠ Column.numberName
  identifier : column.name ≠ identifierColumn
  keys : ∀ key ∈ (layout t).keys, column.name ∉ key.columns
  references : ∀ ref ∈ (layout t).references, ref.column ≠ column.name

/-- The selected rows with a new value. -/
def setWhere (selects : t.Row → Bool) (set : t.Row → t.Row) (rows : List (Numbered t.Row)) :
    List (Numbered t.Row) :=
  rows.map fun n => if selects n.row then { n with row := set n.row } else n

theorem setWhere_of_none {selects : t.Row → Bool} {set : t.Row → t.Row}
    {rows : List (Numbered t.Row)} (h : ∀ n ∈ rows, selects n.row = false) :
    setWhere selects set rows = rows := by
  have hsame : ∀ n ∈ rows,
      (if selects n.row then { n with row := set n.row } else n) = id n := by
    intro n hn
    rw [h n hn]
    rfl
  rw [setWhere, List.map_congr_left hsame, List.map_id]

namespace Settable

variable {column : Column t.Row} {value : Cell} {set : t.Row → t.Row}

theorem updateRow_eq_ok (h : Settable t column value set) {others : List (Numbered t.Row)}
    {old new : Numbered t.Row} :
    updateRow t column.numbered value others old = .ok new ↔
      meetsConditions t (set old.row) = .ok () ∧ new = { old with row := set old.row } := by
  have hplace : ∀ rows new, placeFree t column.name rows new = .ok () := by
    intro rows new
    have hkeys : ((layout t).keys.any fun key => key.columns.contains column.name) = false := by
      rw [List.any_eq_false]
      intro key hkey hcontains
      exact h.keys key hkey (List.contains_iff_mem.1 hcontains)
    rw [placeFree, if_neg h.numbers, hkeys]
    rfl
  have hput : column.numbered.put value old = .ok { old with row := set old.row } := by
    change (column.put value old.row).map _ = _
    rw [h.put]
    rfl
  rw [updateRow, hput]
  change (if keepsIdentity t old.row (set old.row) = true then _ else _) = _ ↔ _
  rw [if_pos (h.identity old.row)]
  change (meetsConditions t (set old.row) >>= fun _ => placeFree t column.name others _ >>= _) =
    _ ↔ _
  rw [hplace]
  cases meetsConditions t (set old.row) with
  | error e =>
    constructor
    · intro hok
      cases hok
    · intro hok
      cases hok.1
  | ok u =>
    constructor
    · intro hok
      exact ⟨rfl, (Except.ok.inj hok).symm⟩
    · rintro ⟨-, rfl⟩
      rfl

theorem updateRows_eq_ok (h : Settable t column value set) {selects : t.Row → Bool}
    {todo done rows : List (Numbered t.Row)} {n k : Nat} :
    updateRows t column.numbered value (fun row => selects row.row) n done todo = .ok (k, rows) ↔
      (∀ row ∈ todo, selects row.row = true → meetsConditions t (set row.row) = .ok ()) ∧
      k = n + todo.countP (fun row => selects row.row) ∧
      rows = done ++ setWhere selects set todo := by
  induction todo generalizing done n with
  | nil =>
    rw [updateRows]
    constructor
    · intro hok
      obtain ⟨rfl, rfl⟩ := Prod.mk.inj (Except.ok.inj hok)
      exact ⟨fun row hrow => absurd hrow List.not_mem_nil, rfl, (List.append_nil _).symm⟩
    · rintro ⟨-, rfl, rfl⟩
      rw [setWhere, List.map_nil, List.append_nil]
  | cons row rest ih =>
    rw [updateRows, List.forall_mem_cons, List.countP_cons, setWhere, List.map_cons]
    cases hselected : selects row.row with
    | false =>
      simp only [Bool.false_eq_true, if_false, false_implies, true_and, Nat.add_zero]
      rw [ih, List.append_assoc]
      rfl
    | true =>
      simp only [if_true, forall_const]
      cases hrow : updateRow t column.numbered value (done ++ rest) row with
      | error e =>
        constructor
        · intro hok
          cases hok
        · intro hok
          rw [h.updateRow_eq_ok.2 ⟨hok.1.1, rfl⟩] at hrow
          cases hrow
      | ok new =>
        obtain ⟨hmeets, rfl⟩ := h.updateRow_eq_ok.1 hrow
        dsimp only
        rw [ih, List.append_assoc, Nat.add_assoc, Nat.add_comm 1]
        exact ⟨fun hok => ⟨⟨hmeets, hok.1⟩, hok.2⟩, fun hok => ⟨hok.1.2, hok.2⟩⟩

theorem updateHolds (h : Settable t column value set) (s : Store) :
    s.updateHolds t column.name = true := by
  rw [Store.updateHolds, Bool.and_eq_true]
  constructor
  · rw [List.all_eq_true]
    intro ref href
    simp [h.references ref href]
  · simp [h.identifier]

section update

variable {name : String} {which : Selection t} {selects : t.Row → Bool} {s s' : Store} {n : Nat}
  {rows : List (Numbered t.Row)}

/-- Nothing but its table is needed for an update of such a column. -/
theorem updatable_of_get (h : Settable t column value set)
    (hcolumn : s.column? t name = .ok column.numbered)
    (hwhich : which s = .ok fun row => selects row.row) (hrows : s.get t = some rows) :
    s.updatable t name which = .ok (rows, column.numbered, fun row => selects row.row) := by
  have href : ((layout t).references.find? fun ref =>
      ref.column = column.numbered.name && !s.has ref.parent) = none := by
    rw [List.find?_eq_none]
    intro ref href
    simp [Column.numbered, h.references ref href]
  rw [updatable, numbered?, hrows, hcolumn, hwhich, ok_bind, ok_bind, ok_bind, href]
  rfl

/-- An update that selects no row leaves the store as it is. -/
theorem put_setWhere_of_countP (hrows : s.get t = some rows)
    (hzero : rows.countP (fun row => selects row.row) = 0) :
    s.put t (some (setWhere selects set rows)) = s := by
  rw [setWhere_of_none, ← hrows, put_get]
  intro row hrow
  exact Bool.eq_false_iff.2 (List.countP_eq_zero.1 hzero row hrow)

/-- An update for which all that it needs is there. -/
theorem update_of_updatable (h : Settable t column value set) (hrows : s.get t = some rows)
    (hready : s.updatable t name which =
      .ok (rows, column.numbered, fun row => selects row.row)) :
    (s.update t name value which).result = .ok (n, s') ↔
      (∀ row ∈ rows, selects row.row = true → meetsConditions t (set row.row) = .ok ()) ∧
      n = rows.countP (fun row => selects row.row) ∧
      s' = s.put t (some (setWhere selects set rows)) := by
  have hupdate : ∀ {k : Nat} {after : List (Numbered t.Row)},
      updateRows t column.numbered value (fun row => selects row.row) 0 [] rows =
        .ok (k, after) ↔
      (∀ row ∈ rows, selects row.row = true → meetsConditions t (set row.row) = .ok ()) ∧
        k = rows.countP (fun row => selects row.row) ∧ after = setWhere selects set rows := by
    intro k after
    rw [h.updateRows_eq_ok, Nat.zero_add, List.nil_append]
  rw [update, hready]
  dsimp only
  by_cases hmeets : ∀ row ∈ rows, selects row.row = true →
      meetsConditions t (set row.row) = .ok ()
  · rw [hupdate.2 ⟨hmeets, rfl, rfl⟩]
    cases hcount : rows.countP (fun row => selects row.row) with
    | zero =>
      rw [put_setWhere_of_countP hrows hcount]
      constructor
      · intro hok
        obtain ⟨rfl, rfl⟩ := Prod.mk.inj (Except.ok.inj hok)
        exact ⟨hmeets, rfl, rfl⟩
      · rintro ⟨-, rfl, rfl⟩
        rfl
    | succ k =>
      have hname : ¬ column.numbered.name = Column.numberName := h.numbers
      change (if Store.updateHolds t column.name (s.put t (some
        (if column.numbered.name = Column.numberName then _ else _))) = true then
          Effect.done (k + 1) (s.put t (some
            (if column.numbered.name = Column.numberName then _ else _))) true
        else _).result = _ ↔ _
      rw [if_neg hname, if_pos (h.updateHolds _)]
      constructor
      · intro hok
        obtain ⟨rfl, rfl⟩ := Prod.mk.inj (Except.ok.inj hok)
        exact ⟨hmeets, rfl, rfl⟩
      · rintro ⟨-, rfl, rfl⟩
        rfl
  · refine ⟨fun hok => ?_, fun hok => absurd hok.1 hmeets⟩
    split at hok
    · cases hok
    · next hrows' => exact absurd (hupdate.1 hrows').1 hmeets
    · next hrows' => exact absurd (hupdate.1 hrows').1 hmeets

/-- An update of rows that are selected by what stands in them. -/
theorem update_eq_ok (h : Settable t column value set)
    (hcolumn : s.column? t name = .ok column.numbered)
    (hwhich : which s = .ok fun row => selects row.row) :
    (s.update t name value which).result = .ok (n, s') ↔ ∃ rows, s.get t = some rows ∧
      (∀ row ∈ rows, selects row.row = true → meetsConditions t (set row.row) = .ok ()) ∧
      n = rows.countP (fun row => selects row.row) ∧
      s' = s.put t (some (setWhere selects set rows)) := by
  cases hrows : s.get t with
  | none =>
    have hready : s.updatable t name which = .error (.noSuchTable t.name) := by
      rw [updatable, numbered?, hrows]
      rfl
    rw [update, hready]
    constructor
    · intro hok
      cases hok
    · rintro ⟨_, hok, _⟩
      cases hok
  | some rows =>
    rw [h.update_of_updatable hrows (h.updatable_of_get hcolumn hwhich hrows)]
    constructor
    · intro hok
      exact ⟨rows, rfl, hok⟩
    · rintro ⟨rows', hsome, hok⟩
      obtain rfl := Option.some.inj hsome
      exact hok

end update

end Settable

end FilmReport.Store
