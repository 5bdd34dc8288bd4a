import FilmReport.Migration
import FilmReport.Normalize.Coerce
import FilmReport.Proofs.Store.Consistent

/-!
The changes that statements are made of, and what each of them leaves: a consistent store stays
consistent, rows keep a condition, and the identifiers of movies stay unless movies are deleted.
-/

set_option autoImplicit false
set_option relaxedAutoImplicit false

namespace FilmReport.Store

/-- A change that statements are made of. -/
inductive Change where
  | insert (t : Table) (conflict : Conflict t.Row) (row : t.Row)
  | delete (t : Table) (which : Selection t)
  | update (t : Table) (name : String) (value : Cell) (which : Selection t)
  /-- Every movie gets the amount that its reported text gives. -/
  | amounts
  /-- A number becomes the greatest ever given in a table. -/
  | count (t : Table) (last : Int)
  | create (t : Table)
  /-- The movies get the column of amounts. -/
  | widen

namespace Change

variable {s s' : Store} {c : Change} {I J : Store → Prop}

/-- The store after a change, unless it fails. -/
def after : Change → Store → Except StoreError Store
  | insert t conflict row, s => s.insert t conflict row
  | delete t which, s => (s.delete t which).map Prod.snd
  | update t name value which, s => (s.update t name value which).result.map Prod.snd
  | amounts, s => .ok (Normalize.setAmounts s)
  | count t last, s => .ok (s.giveLast t last)
  | create t, s => .ok (s.create t)
  | widen, s => Migration.addAmount s

/-- A property that a change preserves. -/
def Preserves (I : Store → Prop) (c : Change) : Prop :=
  ∀ ⦃s s' : Store⦄, I s → c.after s = .ok s' → I s'

end Change

section rowsOf

variable {s s' : Store} {t u : Table}

theorem exists_of_map_snd {α : Type} {r : Except StoreError (α × Store)}
    (h : r.map Prod.snd = .ok s') : ∃ a, r = .ok (a, s') := by
  cases r with
  | error e => cases h
  | ok x => exact ⟨x.1, congrArg _ (Prod.ext rfl (Except.ok.inj h))⟩

theorem rowsOf_giveLast (last : Int) (hu : u ≠ .sequences) :
    (s.giveLast t last).rowsOf u = s.rowsOf u := by
  cases u <;> first | rfl | exact absurd rfl hu

theorem rowsOf_create : (s.create t).rowsOf u = s.rowsOf u := by
  rw [create]
  split
  · rfl
  · next hhas =>
    have hget : s.get t = none := by simpa [has] using hhas
    have hput : (s.put t (some [])).rowsOf u = s.rowsOf u := by
      by_cases hu : u = t
      · subst hu
        rw [rowsOf_put, rowsOf, hget]
        rfl
      · exact rowsOf_put_of_ne s _ hu
    cases t with
    | normalizationRuns =>
      cases u with
      | sequences =>
        rw [rowsOf, rowsOf]
        rfl
      | _ => exact hput
    | _ => exact hput

theorem rowsOf_addAmount (h : Migration.addAmount s = .ok s') : s'.rowsOf u = s.rowsOf u := by
  obtain ⟨rows, -, h⟩ := exists_of_bind h
  split at h
  · cases h
  · rw [← Except.ok.inj h]
    cases u <;> rfl

/-- The amounts are put into the rows of the movies one by one. -/
theorem setAmounts_cases (s : Store) : Normalize.setAmounts s = s ∨
    ∃ rows : List (Numbered MovieRow), s.get .movie = some rows ∧
      Normalize.setAmounts s = s.put .movie (some (rows.map fun n =>
        { n with row :=
          { n.row with grossAmount := (Normalize.Amount.read n.row.grossIncome).cell } })) := by
  rw [Normalize.setAmounts]
  cases hmovie : s.movie with
  | none =>
    left
    rw [Option.map_none, ← hmovie]
  | some rows => exact Or.inr ⟨rows, hmovie, rfl⟩

theorem mem_identifiers_of_insert {conflict : Conflict t.Row} {row : t.Row}
    (hids : ∀ f, conflict = .merge f → ∀ old new, idOf t (f old new) = idOf t old)
    (h : s.insert t conflict row = .ok s') {id : String} (hid : id ∈ s.identifiers u) :
    id ∈ s'.identifiers u := by
  obtain ⟨parent, hparent, hidOf⟩ := mem_identifiers.1 hid
  obtain ⟨rows, hget, hcases⟩ := insert_cases h
  by_cases hu : u = t
  · subst hu
    rw [rowsOf_of_eq_some hget] at hparent
    obtain ⟨n, hn, rfl⟩ := List.mem_map.1 hparent
    rcases hcases with ⟨-, rfl⟩ | ⟨-, -, rfl⟩ | ⟨f, hf, -, -, rfl⟩
    · rw [mem_identifiers, rowsOf_put]
      exact ⟨n.row, List.mem_map_of_mem (List.mem_append_left _ hn), hidOf⟩
    · exact hid
    · rw [mem_identifiers, rowsOf_put]
      refine ⟨_, List.mem_map_of_mem (List.mem_map_of_mem hn), ?_⟩
      split
      · exact (hids f hf n.row row).trans hidOf
      · exact hidOf
  · obtain ⟨after, rfl, -⟩ := exists_of_insert h
    rw [mem_identifiers, rowsOf_put_of_ne s _ hu]
    exact ⟨parent, hparent, hidOf⟩

/-- No update changes the identifier of a movie. -/
theorem mem_identifiers_of_update {name : String} {value : Cell} {which : Selection t} {n : Nat}
    (h : (s.update t name value which).result = .ok (n, s')) {id : String}
    (hid : id ∈ s.identifiers .movie) : id ∈ s'.identifiers .movie := by
  obtain rfl | ⟨rows, column, selects, after, hget, -, hrows, rfl, -⟩ := update_cases h
  · exact hid
  obtain ⟨parent, hparent, hidOf⟩ := mem_identifiers.1 hid
  rw [mem_identifiers]
  by_cases ht : Table.movie = t
  · subst ht
    obtain ⟨_, rfl, hupdated⟩ := forall₂_of_updateRows hrows
    rw [rowsOf_of_eq_some hget] at hparent
    obtain ⟨old, hold, rfl⟩ := List.mem_map.1 hparent
    obtain ⟨new, hnew, hupdated⟩ := exists_updated_of_mem hupdated old hold
    have hsame : old.row.id = new.row.id := by
      rcases hupdated with rfl | ⟨-, hidentity, -⟩
      · rfl
      · exact of_decide_eq_true hidentity
    refine ⟨new.row, ?_, hsame.symm.trans hidOf⟩
    rw [rowsOf_put]
    split
    · exact List.mem_map_of_mem ((List.mergeSort_perm after _).mem_iff.2 hnew)
    · exact List.mem_map_of_mem hnew
  · rw [rowsOf_put_of_ne s _ ht]
    exact ⟨parent, hparent, hidOf⟩

theorem mem_identifiers_of_delete {which : Selection t} {n : Nat} (ht : t ≠ .movie)
    (h : s.delete t which = .ok (n, s')) {id : String} (hid : id ∈ s.identifiers .movie) :
    id ∈ s'.identifiers .movie := by
  obtain ⟨rows, selects, -, -, -, hothers⟩ := delete_cases h
  let gone := idsOf t ((rows.filter selects).map (·.row))
  have hkept : s'.rowsOf .movie = s.rowsOf .movie := by
    rw [rowsOf_of_filter (p := fun row => !refersTo .movie t gone row) (hothers .movie ht.symm)]
    exact List.filter_eq_self.2 fun row _ => rfl
  rw [identifiers_eq, hkept, ← identifiers_eq]
  exact hid

/-- An update leaves the condition of a table if its column keeps it. -/
theorem RowsMeet.updateColumn {P : (t : Table) → t.Row → Prop} (h : s.RowsMeet P) {name : String}
    {value : Cell} {which : Selection t} {n : Nat}
    (hcolumn : ∀ c, s.column? t name = .ok c → ∀ old new, c.put value old = .ok new →
      keepsIdentity t old.row new.row = true → P t old.row → P t new.row)
    (hupdate : (s.update t name value which).result = .ok (n, s')) : s'.RowsMeet P := by
  obtain rfl | ⟨rows, column, selects, after, hget, hfind, hrows, rfl, -⟩ := update_cases hupdate
  · exact h
  obtain ⟨_, rfl, hupdated⟩ := forall₂_of_updateRows hrows
  have hafter : ∀ new ∈ after, P t new.row := by
    intro new hnew
    obtain ⟨old, hold, hupdated⟩ := exists_of_mem_updated hupdated new hnew
    have hmeets : P t old.row := h t _ (rowsOf_of_eq_some hget ▸ List.mem_map_of_mem hold)
    rcases hupdated with rfl | ⟨hput, hidentity, -⟩
    · exact hmeets
    · exact hcolumn column hfind old new hput hidentity hmeets
  split
  · exact h.put fun new hnew => hafter new ((List.mergeSort_perm after _).mem_iff.1 hnew)
  · exact h.put hafter

/-- An update leaves the condition of a table if every column keeps it. -/
theorem RowsMeet.update {P : (t : Table) → t.Row → Prop} (h : s.RowsMeet P) {value : Cell}
    (hcolumns : ∀ c ∈ (layout t).columns,
      c.Moves (· = value) fun _ old new => keepsIdentity t old new = true → P t old → P t new)
    {name : String} {which : Selection t} {n : Nat}
    (hupdate : (s.update t name value which).result = .ok (n, s')) : s'.RowsMeet P :=
  h.updateColumn (fun _ hfind _ _ hput => of_column? (fun _ _ _ hmeets => hmeets) hcolumns hfind rfl
    hput) hupdate

theorem exists_of_mem_putCount {last : Int} {rows : List (Numbered SequenceRow)} :
    ∀ n ∈ putCount t last rows, n ∈ rows ∨ n.row = ⟨.text t.name, .int last⟩ := by
  induction rows with
  | nil => exact List.forall_mem_nil _
  | cons first rest ih =>
    intro n hn
    rw [putCount] at hn
    split at hn
    · rcases List.mem_cons.1 hn with rfl | hn
      · exact Or.inr rfl
      · exact Or.inl (List.mem_cons_of_mem _ hn)
    · rcases List.mem_cons.1 hn with rfl | hn
      · exact Or.inl List.mem_cons_self
      · exact (ih n hn).imp_left (List.mem_cons_of_mem _)

theorem RowsMeet.giveLast {P : (t : Table) → t.Row → Prop} (h : s.RowsMeet P) {last : Int}
    (hlast : P .sequences (⟨.text t.name, .int last⟩ : SequenceRow)) :
    (s.giveLast t last).RowsMeet P := by
  intro u row hrow
  by_cases hu : u = .sequences
  · subst hu
    cases hrows : s.sequences with
    | none =>
      have hnone : (s.giveLast t last).rowsOf .sequences = [] := by
        simp [rowsOf, get, Store.giveLast, hrows]
      rw [hnone] at hrow
      cases hrow
    | some rows =>
      have hold : ∀ n ∈ rows, P .sequences n.row := fun n hn =>
        h .sequences _ (rowsOf_of_eq_some (t := .sequences) hrows ▸ List.mem_map_of_mem hn)
      have hget : (s.giveLast t last).get .sequences = some (if rows.any (counts t) then
          putCount t last rows else rows ++ [⟨nextNumber rows, ⟨.text t.name, .int last⟩⟩]) := by
        simp [get, Store.giveLast, hrows]
      rw [rowsOf_of_eq_some hget] at hrow
      obtain ⟨n, hn, rfl⟩ := List.mem_map.1 hrow
      split at hn
      · rcases exists_of_mem_putCount n hn with hn | hn
        · exact hold n hn
        · rw [hn]
          exact hlast
      · rcases List.mem_append.1 hn with hn | hn
        · exact hold n hn
        · rw [List.mem_singleton.1 hn]
          exact hlast
  · exact h u row (rowsOf_giveLast last hu ▸ hrow)

end rowsOf

namespace Change

variable {c : Change} {P : (t : Table) → t.Row → Prop}

/-- A change that, where a key is taken, merges rows in a way that keeps it. -/
def KeepsKeys : Change → Prop
  | insert t conflict _ => ∀ f, conflict = .merge f → Merges t f
  | _ => True

/-- A change that deletes no movies. -/
def SparesMovies : Change → Prop
  | delete t _ => t ≠ .movie
  | _ => True

/-- A change that leaves rows that meet the conditions of their tables. -/
def Meets (P : (t : Table) → t.Row → Prop) : Change → Prop
  | insert t conflict row => P t row ∧ ∀ f, conflict = .merge f →
      ∀ old new, P t old → P t new → P t (f old new)
  | update t _ value _ => ∀ c ∈ (layout t).columns,
      c.Moves (· = value) fun _ old new => keepsIdentity t old new = true → P t old → P t new
  | amounts => ∀ m : MovieRow, P .movie m →
      P .movie { m with grossAmount := (Normalize.Amount.read m.grossIncome).cell }
  | count t last => P .sequences (⟨.text t.name, .int last⟩ : SequenceRow)
  | _ => True

theorem preserves_rowsMeet (h : c.Meets P) : c.Preserves (RowsMeet P) := by
  intro s s' hs hs'
  cases c with
  | insert t conflict row =>
    exact hs.insert h.1 (fun f hf old hold => h.2 f hf old row hold h.1) hs'
  | delete t which =>
    obtain ⟨n, hs'⟩ := exists_of_map_snd hs'
    exact hs.delete hs'
  | update t name value which =>
    obtain ⟨n, hs'⟩ := exists_of_map_snd hs'
    exact hs.update h hs'
  | amounts =>
    obtain rfl := Except.ok.inj hs'
    obtain hsame | ⟨rows, hget, hput⟩ := setAmounts_cases s
    · rwa [hsame]
    · rw [hput]
      refine hs.put (List.forall_mem_map.2 fun n hn => h n.row ?_)
      exact hs .movie n.row (rowsOf_of_eq_some hget ▸ List.mem_map_of_mem hn)
  | count t last =>
    obtain rfl := Except.ok.inj hs'
    exact hs.giveLast h
  | create t =>
    obtain rfl := Except.ok.inj hs'
    exact hs.create t
  | widen => exact fun u row hrow => hs u row (rowsOf_addAmount hs' ▸ hrow)

theorem preserves_consistent (h : c.KeepsKeys) : c.Preserves Consistent := by
  intro s s' hs hs'
  cases c with
  | insert t conflict row => exact hs.insert h hs'
  | delete t which =>
    obtain ⟨n, hs'⟩ := exists_of_map_snd hs'
    exact hs.delete hs'
  | update t name value which =>
    obtain ⟨n, hs'⟩ := exists_of_map_snd hs'
    exact hs.update hs'
  | amounts =>
    obtain rfl := Except.ok.inj hs'
    obtain hsame | ⟨rows, hget, hput⟩ := setAmounts_cases s
    · rwa [hsame]
    · rw [hput]
      refine hs.putMap hget (f := fun m =>
        { m with grossAmount := (Normalize.Amount.read m.grossIncome).cell }) ?_ ?_ ?_ fun m => rfl
      · exact List.forall_mem_singleton.2 fun m => rfl
      · exact fun m hm => hs.conditions .movie m hm
      · exact List.forall_mem_nil _
  | count t last =>
    obtain rfl := Except.ok.inj hs'
    exact hs.of_rowsOf fun u hu => rowsOf_giveLast last hu
  | create t =>
    obtain rfl := Except.ok.inj hs'
    exact hs.of_rowsOf fun u _ => rowsOf_create
  | widen => exact hs.of_rowsOf fun u _ => rowsOf_addAmount hs'

/-- Only deletions take identifiers of movies away, and nothing renames a movie. -/
theorem preserves_mem_identifiers (h : c.KeepsKeys) (hmovies : c.SparesMovies) (id : String) :
    c.Preserves fun s => id ∈ s.identifiers .movie := by
  intro s s' hs hs'
  have hof : s'.rowsOf .movie = s.rowsOf .movie → id ∈ s'.identifiers .movie := by
    intro hrows
    rw [identifiers_eq, hrows, ← identifiers_eq]
    exact hs
  cases c with
  | insert t conflict row => exact mem_identifiers_of_insert (fun f hf => (h f hf).ids) hs' hs
  | delete t which =>
    obtain ⟨n, hs'⟩ := exists_of_map_snd hs'
    exact mem_identifiers_of_delete hmovies hs' hs
  | update t name value which =>
    obtain ⟨n, hs'⟩ := exists_of_map_snd hs'
    exact mem_identifiers_of_update hs' hs
  | amounts =>
    obtain rfl := Except.ok.inj hs'
    obtain hsame | ⟨rows, hget, hput⟩ := setAmounts_cases s
    · rwa [hsame]
    · obtain ⟨m, hm, hid⟩ := mem_identifiers.1 hs
      rw [rowsOf_of_eq_some hget] at hm
      obtain ⟨n, hn, rfl⟩ := List.mem_map.1 hm
      rw [mem_identifiers, hput, rowsOf_put]
      exact ⟨_, List.mem_map_of_mem (List.mem_map_of_mem hn), hid⟩
  | count t last =>
    obtain rfl := Except.ok.inj hs'
    exact hof (rowsOf_giveLast last (by decide))
  | create t =>
    obtain rfl := Except.ok.inj hs'
    exact hof rowsOf_create
  | widen => exact hof (rowsOf_addAmount hs')

end Change
end FilmReport.Store
