import FilmReport.Proofs.Session.Computes
import FilmReport.Proofs.Store.Referring

/-!
Rows written one after the other. Where the last of the rows with a key decides what becomes of the
row that has it, a table holds after the writing a row for each key that was written, merged with
the last row of this key (`Store.absorbs_of_inserts`); a second writing has nothing to add.
-/

set_option autoImplicit false
set_option relaxedAutoImplicit false

namespace FilmReport.Store

open Act

/-- What a row that is there becomes when a new one has its key. -/
def Conflict.merged {ρ : Type} : Conflict ρ → ρ → ρ → ρ
  | .merge f, old, new => f old new
  | _, old, _ => old

/-- A rule under which the last of several rows with a key decides. -/
structure LastWins (t : Table) (conflict : Conflict t.Row) : Prop where
  keys : ∀ key ∈ (layout t).keys, ∀ old new, key.of (conflict.merged old new) = key.of old
  last : ∀ old mid new,
    conflict.merged (conflict.merged old mid) new = conflict.merged old new
  self : ∀ row, conflict.merged row row = row

/-- The last of some rows that has the key of a row. -/
def last? (t : Table) (rows : List t.Row) (r : t.Row) : Option t.Row :=
  (rows.filter fun row => sameRow t row r).getLast?

/-- A row merged with the last of some rows that has its key. -/
def absorb {t : Table} (conflict : Conflict t.Row) (rows : List t.Row) (r : t.Row) : t.Row :=
  ((last? t rows r).map (conflict.merged r)).getD r

variable {t : Table} {key : Key t.Row} {conflict : Conflict t.Row} {s s' u : Store}
  {rows more : List t.Row} {row r : t.Row}

theorem sameRow_congr {a b : t.Row} (h : sameRow t a b = true) (x : t.Row) :
    sameRow t x a = sameRow t x b := by
  rw [sameRow] at h ⊢
  rw [sameRow]
  split at h
  · next key _ _ =>
    obtain ⟨k, l, hk, hl, hkl⟩ := sameKey_iff.1 h
    rw [sameKey, sameKey, hk, hl]
    cases key.of x <;> simp [hkl]
  · cases h

theorem sameRow_comm (a b : t.Row) : sameRow t a b = sameRow t b a := by
  rw [sameRow, sameRow]
  split
  · exact sameKey_comm _ a b
  · rfl

theorem last?_append : last? t (rows ++ more) r = (last? t more r).or (last? t rows r) := by
  rw [last?, List.filter_append, List.getLast?_append]
  rfl

theorem last?_singleton : last? t [row] r = if sameRow t row r then some row else none := by
  rw [last?, List.filter_singleton]
  cases sameRow t row r <;> rfl

theorem mem_of_last? (h : last? t rows r = some row) : row ∈ rows ∧ sameRow t row r = true :=
  List.mem_filter.1 (List.mem_of_getLast? h)

theorem last?_congr {a b : t.Row} (h : sameRow t a b = true) :
    last? t rows a = last? t rows b := by
  rw [last?, last?]
  exact congrArg List.getLast? (List.filter_congr fun x _ => sameRow_congr h x)

theorem exists_last? (hrow : row ∈ rows) (h : sameRow t row r = true) :
    ∃ last, last? t rows r = some last :=
  ⟨_, List.getLast?_eq_some_getLast (List.ne_nil_of_mem (List.mem_filter.2 ⟨hrow, h⟩))⟩

theorem absorb_nil : absorb conflict [] r = r := rfl

theorem absorb_singleton :
    absorb conflict [row] r = if sameRow t row r then conflict.merged r row else r := by
  rw [absorb, last?_singleton]
  cases sameRow t row r <;> rfl

section keys

theorem sameKey_textKey {columns : List String} {ρ : Type} {of : ρ → Option String} {a b : ρ} :
    sameKey ⟨columns, true, fun r => textKey (of r)⟩ a b = true ↔
      ∃ id, of a = some id ∧ of b = some id := by
  cases ha : of a <;> cases hb : of b <;> simp [sameKey, textKey, ha, hb, Cell.normal]
  exact eq_comm

theorem sameRow_movie {a b : MovieRow} :
    sameRow .movie a b = true ↔ ∃ id, a.id = some id ∧ b.id = some id :=
  sameKey_textKey

theorem sameRow_names {a b : NameRow} :
    sameRow .names a b = true ↔ ∃ id, a.id = some id ∧ b.id = some id :=
  sameKey_textKey

theorem sameRow_ratings {a b : RatingRow} :
    sameRow .ratings a b = true ↔ ∃ id, a.movieId = some id ∧ b.movieId = some id :=
  sameKey_textKey

theorem sameRow_genre {a b : GenreRow} : sameRow .genre a b = true ↔ a = b := by
  rcases a with ⟨m, g⟩
  rcases b with ⟨m', g'⟩
  simp [sameRow, layout, genreLayout, sameKey, Cell.normal]

theorem sameRow_directorMapping {a b : DirectorRow} :
    sameRow .directorMapping a b = true ↔ a = b := by
  rcases a with ⟨m, n⟩
  rcases b with ⟨m', n'⟩
  simp [sameRow, layout, directorLayout, sameKey, Cell.normal]

theorem sameRow_roleMapping {a b : RoleRow} : sameRow .roleMapping a b = true ↔
    (a.movieId, a.nameId) = (b.movieId, b.nameId) := by
  simp [sameRow, layout, roleLayout, sameKey, Cell.normal]

end keys

namespace LastWins

theorem sameRow_merged (h : LastWins t conflict) (x old new : t.Row) :
    sameRow t x (conflict.merged old new) = sameRow t x old := by
  rw [sameRow, sameRow]
  split
  · next key _ hkeys =>
    exact sameKey_congr rfl (h.keys key (hkeys ▸ List.mem_cons_self) old new)
  · rfl

theorem sameRow_absorb (h : LastWins t conflict) (rows : List t.Row) (x r : t.Row) :
    sameRow t x (absorb conflict rows r) = sameRow t x r := by
  rw [absorb]
  cases last? t rows r with
  | none => rfl
  | some row => exact h.sameRow_merged x r row

theorem last?_absorb (h : LastWins t conflict) (rows more : List t.Row) (r : t.Row) :
    last? t more (absorb conflict rows r) = last? t more r := by
  rw [last?, last?]
  exact congrArg List.getLast? (List.filter_congr fun x _ => h.sameRow_absorb rows x r)

theorem merged_absorb (h : LastWins t conflict) (rows : List t.Row) (r new : t.Row) :
    conflict.merged (absorb conflict rows r) new = conflict.merged r new := by
  rw [absorb]
  cases last? t rows r with
  | none => rfl
  | some mid => exact h.last r mid new

/-- Of rows that are absorbed the later ones decide. -/
theorem absorb_append (h : LastWins t conflict) (rows more : List t.Row) (r : t.Row) :
    absorb conflict (rows ++ more) r = absorb conflict more (absorb conflict rows r) := by
  conv_rhs => rw [absorb, h.last?_absorb]
  rw [absorb, last?_append]
  cases last? t more r with
  | none => rfl
  | some new => exact (h.merged_absorb rows r new).symm

/-- A row that is absorbed last is absorbed. -/
theorem absorb_concat_of_same (h : LastWins t conflict) (rows : List t.Row)
    (hsame : sameRow t row r = true) :
    absorb conflict (rows ++ [row]) r = conflict.merged r row := by
  rw [h.absorb_append, absorb_singleton, h.sameRow_absorb, if_pos hsame, h.merged_absorb]

theorem absorb_concat_of_not_same (h : LastWins t conflict) (rows : List t.Row)
    (hsame : sameRow t row r = false) :
    absorb conflict (rows ++ [row]) r = absorb conflict rows r := by
  rw [h.absorb_append, absorb_singleton, h.sameRow_absorb, hsame]
  rfl

theorem absorb_cons_of_not_same (h : LastWins t conflict) (rows : List t.Row)
    (hsame : sameRow t row r = false) :
    absorb conflict (row :: rows) r = absorb conflict rows r := by
  rw [← List.singleton_append, h.absorb_append, absorb_singleton, hsame]
  rfl

theorem absorb_cons_self (h : LastWins t conflict) (rows : List t.Row)
    (hself : sameRow t row row = true) :
    absorb conflict (row :: rows) row = absorb conflict rows row := by
  rw [← List.singleton_append, h.absorb_append, absorb_singleton, if_pos hself, h.self]

end LastWins

/-- A row whose key comes later absorbs nothing that comes before. -/
theorem absorb_cons_of_mem (hmem : r ∈ rows) (hself : sameRow t r r = true) :
    absorb conflict (row :: rows) r = absorb conflict rows r := by
  obtain ⟨last, hlast⟩ := exists_last? hmem hself
  rw [absorb, absorb, ← List.singleton_append, last?_append, hlast]
  rfl

/-- An insertion adds a row whose key is free, or the row that has its key absorbs it. -/
theorem get_of_insert (hkey : Keyed t key) (h : s.insert t conflict row = .ok s') :
    ∃ old, s.get t = some old ∧
      ((∀ n ∈ old, sameRow t row n.row = false) ∧
          s' = s.put t (some (old ++ [⟨nextNumber old, row⟩])) ∨
        (∃ n ∈ old, sameRow t row n.row = true) ∧
          s' = s.put t
            (some (old.map fun n => { n with row := absorb conflict [row] n.row }))) := by
  obtain ⟨old, hget, hcases⟩ := insert_cases h
  refine ⟨old, hget, ?_⟩
  rcases hcases with ⟨hadmits, rfl⟩ | ⟨rfl, hsame, rfl⟩ | ⟨f, rfl, hsame, -, rfl⟩
  · have hfree := hkey.keysFree_iff.1 hadmits.keys
    exact Or.inl ⟨fun n hn => hfree n.row (List.mem_map_of_mem hn), rfl⟩
  · refine Or.inr ⟨hsame, ?_⟩
    have hkept : (old.map fun n => { n with row := absorb .keep [row] n.row }) = old := by
      refine List.map_id'' (fun n => ?_) old
      rw [absorb_singleton]
      split <;> rfl
    rw [hkept, ← hget, put_get]
  · refine Or.inr ⟨hsame, congrArg (fun rows => s.put t (some rows)) (List.map_congr_left ?_)⟩
    intro n _
    rw [absorb_singleton]
    split <;> rfl

/-- What a table holds after some rows were written to it. -/
structure Absorbs (t : Table) (conflict : Conflict t.Row) (rows : List t.Row) (s s' : Store) :
    Prop where
  /-- The key of each row is there. -/
  there : ∀ row ∈ rows, ∃ r ∈ s'.rowsOf t, sameRow t row r = true
  /-- What a row was merged with last, it was merged with. -/
  settled : ∀ r ∈ s'.rowsOf t, absorb conflict rows r = r
  /-- The rows come from those that were there and those that were written. -/
  induct : ∀ P : t.Row → Prop, (∀ r ∈ s.rowsOf t, P r) → (∀ row ∈ rows, P row) →
    (∀ old new, P old → P new → P (conflict.merged old new)) → ∀ r ∈ s'.rowsOf t, P r
  /-- Where all keys were there, no row was added. -/
  kept : (∀ row ∈ rows, ∃ r ∈ s.rowsOf t, sameRow t row r = true) →
    s'.get t = (s.get t).map fun old =>
      old.map fun n => { n with row := absorb conflict rows n.row }

namespace Absorbs

theorem nil (s : Store) : Absorbs t conflict [] s s where
  there := List.forall_mem_nil _
  settled _ _ := rfl
  induct _ hold _ _ := hold
  kept _ := by
    simp only [absorb_nil, List.map_id']
    exact Option.map_id'.symm

/-- Nothing but the table matters. -/
theorem congr {v v' : Store} (h : Absorbs t conflict rows s s') (hs : v.get t = s.get t)
    (hs' : v'.get t = s'.get t) : Absorbs t conflict rows v v' := by
  have hrows : v.rowsOf t = s.rowsOf t := by rw [rowsOf, rowsOf, hs]
  have hrows' : v'.rowsOf t = s'.rowsOf t := by rw [rowsOf, rowsOf, hs']
  constructor
  · rw [hrows']
    exact h.there
  · rw [hrows']
    exact h.settled
  · rw [hrows, hrows']
    exact h.induct
  · rw [hrows, hs, hs']
    exact h.kept

theorem append (h : Absorbs t conflict rows s u) (hlast : LastWins t conflict)
    (hself : sameRow t row row = true) {old : List (Numbered t.Row)} (hget : u.get t = some old)
    (hfree : ∀ n ∈ old, sameRow t row n.row = false) :
    Absorbs t conflict (rows ++ [row]) s
      (u.put t (some (old ++ [⟨nextNumber old, row⟩]))) := by
  have hu : u.rowsOf t = old.map (·.row) := rowsOf_of_eq_some hget
  have hs' : (u.put t (some (old ++ [⟨nextNumber old, row⟩]))).rowsOf t = u.rowsOf t ++ [row] := by
    rw [rowsOf_put, hu, List.map_append]
    rfl
  have hfree : ∀ r ∈ u.rowsOf t, sameRow t row r = false := hu ▸ List.forall_mem_map.2 hfree
  refine ⟨?_, ?_, fun P hold hnew hmerged => ?_, fun hthere => ?_⟩ <;> try rw [hs']
  · rw [List.forall_mem_append, List.forall_mem_singleton]
    refine ⟨fun x hx => ?_, row, List.mem_append_right _ (List.mem_singleton_self _), hself⟩
    obtain ⟨r, hr, hsame⟩ := h.there x hx
    exact ⟨r, List.mem_append_left _ hr, hsame⟩
  · rw [List.forall_mem_append, List.forall_mem_singleton]
    refine ⟨fun r hr => ?_, ?_⟩
    · rw [hlast.absorb_concat_of_not_same rows (hfree r hr), h.settled r hr]
    · rw [hlast.absorb_concat_of_same rows hself, hlast.self]
  · obtain ⟨hrows, hrow⟩ := List.forall_mem_append.1 hnew
    rw [List.forall_mem_append]
    exact ⟨h.induct P hold hrows hmerged, hrow⟩
  · -- The key of the new row was free, so it was not there before.
    obtain ⟨hrows, hrow⟩ := List.forall_mem_append.1 hthere
    obtain ⟨r, hr, hsame⟩ := List.forall_mem_singleton.1 hrow
    obtain ⟨n, hn, rfl⟩ := List.mem_map.1 hr
    have hkept := h.kept hrows
    obtain ⟨before, hbefore⟩ : ∃ before, s.get t = some before := by
      rw [hget] at hkept
      obtain ⟨before, hbefore, -⟩ := Option.map_eq_some_iff.1 hkept.symm
      exact ⟨before, hbefore⟩
    rw [hbefore] at hkept hn
    have hmem : absorb conflict rows n.row ∈ u.rowsOf t := by
      rw [rowsOf_of_eq_some hkept]
      exact List.mem_map.2 ⟨_, List.mem_map_of_mem hn, rfl⟩
    have hnot := hfree _ hmem
    rw [hlast.sameRow_absorb, hsame] at hnot
    cases hnot

theorem merge (h : Absorbs t conflict rows s u) (hlast : LastWins t conflict)
    {old : List (Numbered t.Row)} (hget : u.get t = some old)
    (hsame : ∃ n ∈ old, sameRow t row n.row = true) :
    Absorbs t conflict (rows ++ [row]) s
      (u.put t (some (old.map fun n => { n with row := absorb conflict [row] n.row }))) := by
  have hu : u.rowsOf t = old.map (·.row) := rowsOf_of_eq_some hget
  have hs' : (u.put t (some (old.map fun n =>
      { n with row := absorb conflict [row] n.row }))).rowsOf t =
        (u.rowsOf t).map (absorb conflict [row]) := by
    rw [rowsOf_put, hu, List.map_map, List.map_map]
    rfl
  refine ⟨?_, ?_, fun P hold hnew hmerged => ?_, fun hthere => ?_⟩ <;> try rw [hs']
  · rw [List.forall_mem_append, List.forall_mem_singleton]
    refine ⟨fun x hx => ?_, ?_⟩
    · obtain ⟨r, hr, hxr⟩ := h.there x hx
      exact ⟨_, List.mem_map_of_mem hr, (hlast.sameRow_absorb [row] x r).trans hxr⟩
    · obtain ⟨n, hn, hrow⟩ := hsame
      refine ⟨_, List.mem_map_of_mem (hu ▸ List.mem_map_of_mem hn), ?_⟩
      exact (hlast.sameRow_absorb [row] row n.row).trans hrow
  · rw [List.forall_mem_map]
    intro r hr
    rw [absorb_singleton]
    split
    · next hrow =>
      rw [hlast.absorb_concat_of_same rows ((hlast.sameRow_merged row r row).trans hrow),
        hlast.last]
    · next hrow =>
      rw [hlast.absorb_concat_of_not_same rows (Bool.eq_false_iff.2 hrow), h.settled r hr]
  · obtain ⟨hrows, hrow⟩ := List.forall_mem_append.1 hnew
    rw [List.forall_mem_map]
    intro r hr
    have hr := h.induct P hold hrows hmerged r hr
    rw [absorb_singleton]
    split
    · exact hmerged r row hr (List.forall_mem_singleton.1 hrow)
    · exact hr
  · have hkept := h.kept fun x hx => hthere x (List.mem_append_left _ hx)
    obtain ⟨before, hbefore, hold⟩ := Option.map_eq_some_iff.1 (hget ▸ hkept.symm)
    rw [get_put, hbefore, ← hold, List.map_map]
    refine congrArg some (List.map_congr_left fun n _ => ?_)
    rw [hlast.absorb_append]
    rfl

/-- One row more. -/
theorem insert (h : Absorbs t conflict rows s u) (hkey : Keyed t key)
    (hlast : LastWins t conflict) (hself : sameRow t row row = true)
    (hinsert : u.insert t conflict row = .ok s') :
    Absorbs t conflict (rows ++ [row]) s s' := by
  obtain ⟨old, hget, ⟨hfree, rfl⟩ | ⟨hsame, rfl⟩⟩ := get_of_insert hkey hinsert
  · exact h.append hlast hself hget hfree
  · exact h.merge hlast hget hsame

/-- Where the table was empty and a row replaces the one that has its key, the table holds the last
row of each key. -/
theorem mem_rowsOf_iff (h : Absorbs t conflict rows s s') (hnone : s.rowsOf t = [])
    (hlast : LastWins t conflict) (hself : ∀ row ∈ rows, sameRow t row row = true)
    (hreplaces : ∀ r ∈ s'.rowsOf t, ∀ row ∈ rows, sameRow t row r = true →
      conflict.merged r row = row) : r ∈ s'.rowsOf t ↔ last? t rows r = some r := by
  have hforth : ∀ r ∈ s'.rowsOf t, last? t rows r = some r := by
    intro r hr
    have horigin : ∃ row ∈ rows, sameRow t row r = true := by
      refine h.induct (fun r => ∃ row ∈ rows, sameRow t row r = true) ?_ ?_ ?_ r hr
      · rw [hnone]
        exact List.forall_mem_nil _
      · exact fun row hrow => ⟨row, hrow, hself row hrow⟩
      · rintro old new ⟨row, hrow, hsame⟩ -
        exact ⟨row, hrow, (hlast.sameRow_merged row old new).trans hsame⟩
    obtain ⟨row, hrow, hsame⟩ := horigin
    obtain ⟨last, hfound⟩ := exists_last? hrow hsame
    obtain ⟨hmem, hlastSame⟩ := mem_of_last? hfound
    have hsettled := h.settled r hr
    rw [absorb, hfound] at hsettled
    rw [hfound, ← hreplaces r hr last hmem hlastSame]
    exact congrArg some hsettled
  refine ⟨hforth r, fun hfound => ?_⟩
  obtain ⟨hmem, -⟩ := mem_of_last? hfound
  obtain ⟨other, hother, hsame⟩ := h.there r hmem
  have hfoundOther := hforth other hother
  rw [← last?_congr hsame, hfound] at hfoundOther
  exact Option.some.inj hfoundOther ▸ hother

end Absorbs

/-- Rows inserted one after the other. -/
def Inserts (t : Table) (conflict : Conflict t.Row) (rows : List t.Row) (s s' : Store) : Prop :=
  Computes.Chain (fun row s s' => s.insert t conflict row = .ok s') rows s s'

/-- What a table holds after some rows were inserted. -/
theorem absorbs_of_inserts (hkey : Keyed t key) (hlast : LastWins t conflict)
    (hself : ∀ row ∈ rows, sameRow t row row = true) (h : Inserts t conflict rows s s') :
    Absorbs t conflict rows s s' := by
  have hrun : ∀ {rows done : List t.Row} {u : Store}, Absorbs t conflict done s u →
      (∀ row ∈ rows, sameRow t row row = true) → Inserts t conflict rows u s' →
        Absorbs t conflict (done ++ rows) s s' := by
    intro rows
    induction rows with
    | nil =>
      intro done u hdone _ h
      obtain rfl : s' = u := h
      rw [List.append_nil]
      exact hdone
    | cons row rest ih =>
      intro done u hdone hself h
      obtain ⟨hrow, hrest⟩ := List.forall_mem_cons.1 hself
      obtain ⟨v, hinsert, h⟩ := h
      rw [List.append_cons]
      exact ih (hdone.insert hkey hlast hrow hinsert) hrest h
  exact hrun (Absorbs.nil s) hself h

/-- Rows inserted into a table change nothing else. -/
theorem eq_put_of_inserts (h : Inserts t conflict rows s s') : s' = s.put t (s'.get t) := by
  induction rows generalizing s with
  | nil =>
    obtain rfl : s' = s := h
    exact (put_get s' t).symm
  | cons row rest ih =>
    obtain ⟨u, hinsert, h⟩ := h
    obtain ⟨after, rfl, -⟩ := exists_of_insert hinsert
    rw [← put_put s t (some after)]
    exact ih h

/-- Rows inserted into a table leave the others. -/
theorem get_of_inserts (h : Inserts t conflict rows s s') {v : Table} (hv : v ≠ t) :
    s'.get v = s.get v := by
  rw [eq_put_of_inserts h, get_put_of_ne s _ hv]

/-- How a table grows when rows are inserted: the rows that were there stay in their places and
absorb them, and of the others one row for each key follows. -/
structure Grows (t : Table) (conflict : Conflict t.Row) (rows : List t.Row)
    (fresh : List (Numbered t.Row)) (s s' : Store) : Prop where
  get : s'.get t = (s.get t).map fun old =>
    old.map (fun n => { n with row := absorb conflict rows n.row }) ++ fresh
  free : ∀ n ∈ fresh, ∀ r ∈ s.rowsOf t, sameRow t n.row r = false
  apart : fresh.Pairwise fun a b => sameRow t a.row b.row = false
  origin : ∀ n ∈ fresh, ∃ row ∈ rows, n.row = absorb conflict rows row

namespace Grows

variable {old fresh : List (Numbered t.Row)}

theorem nil (s : Store) : Grows t conflict [] [] s s where
  get := by
    simp only [absorb_nil, List.map_id', List.append_nil]
    exact Option.map_id'.symm
  free := List.forall_mem_nil _
  apart := .nil
  origin := List.forall_mem_nil _

theorem mem_rowsOf (h : Grows t conflict rows fresh s s') (hr : r ∈ s.rowsOf t) :
    absorb conflict rows r ∈ s'.rowsOf t := by
  have hget := h.get
  cases hold : s.get t with
  | none =>
    rw [rowsOf, hold] at hr
    cases hr
  | some old =>
    rw [rowsOf_of_eq_some hold] at hr
    obtain ⟨n, hn, rfl⟩ := List.mem_map.1 hr
    rw [hold] at hget
    rw [rowsOf_of_eq_some hget, List.map_append, List.map_map]
    exact List.mem_append_left _ (List.mem_map_of_mem hn)

/-- A first row whose key is free comes before the other new rows. -/
theorem append {number : Int} (hlast : LastWins t conflict) (hself : sameRow t row row = true)
    (hselves : ∀ row ∈ rows, sameRow t row row = true) (hget : s.get t = some old)
    (hfree : ∀ n ∈ old, sameRow t row n.row = false)
    (h : Grows t conflict rows fresh (s.put t (some (old ++ [⟨number, row⟩]))) s') :
    Grows t conflict (row :: rows) (⟨number, absorb conflict rows row⟩ :: fresh) s s' := by
  have hgrown := h.free
  rw [rowsOf_put] at hgrown
  simp only [List.map_append, List.map_singleton, List.forall_mem_append,
    List.forall_mem_singleton] at hgrown
  refine ⟨?_, ?_, ?_, ?_⟩
  · rw [h.get, get_put, hget, Option.map_some, Option.map_some, List.map_append,
      List.append_assoc]
    refine congrArg (fun kept => some (kept ++ _)) (List.map_congr_left fun n hn => ?_)
    rw [hlast.absorb_cons_of_not_same rows (hfree n hn)]
  · rw [rowsOf_of_eq_some hget, List.forall_mem_cons]
    refine ⟨List.forall_mem_map.2 fun n hn => ?_, fun n hn => (hgrown n hn).1⟩
    rw [sameRow_comm, hlast.sameRow_absorb, sameRow_comm, hfree n hn]
  · rw [List.pairwise_cons]
    refine ⟨fun n hn => ?_, h.apart⟩
    rw [sameRow_comm, hlast.sameRow_absorb, (hgrown n hn).2]
  · rw [List.forall_mem_cons]
    refine ⟨⟨row, List.mem_cons_self, (hlast.absorb_cons_self rows hself).symm⟩, fun n hn => ?_⟩
    obtain ⟨r, hr, heq⟩ := h.origin n hn
    exact ⟨r, List.mem_cons_of_mem _ hr, heq.trans (absorb_cons_of_mem hr (hselves r hr)).symm⟩

/-- A first row whose key is taken is absorbed before the others. -/
theorem merge (hlast : LastWins t conflict) (hselves : ∀ row ∈ rows, sameRow t row row = true)
    (hget : s.get t = some old)
    (h : Grows t conflict rows fresh
      (s.put t (some (old.map fun n => { n with row := absorb conflict [row] n.row }))) s') :
    Grows t conflict (row :: rows) fresh s s' where
  get := by
    rw [h.get, get_put, hget, Option.map_some, Option.map_some, List.map_map]
    refine congrArg (fun kept => some (kept ++ fresh)) (List.map_congr_left fun n _ => ?_)
    exact congrArg (fun r => ({ n with row := r } : Numbered t.Row))
      (hlast.absorb_append [row] rows n.row).symm
  free := by
    have hgrown := h.free
    rw [rowsOf_put, List.map_map] at hgrown
    rw [rowsOf_of_eq_some hget]
    intro n hn
    refine List.forall_mem_map.2 fun r hr => ?_
    rw [← hlast.sameRow_absorb [row]]
    exact hgrown n hn _ (List.mem_map_of_mem hr)
  apart := h.apart
  origin := by
    intro n hn
    obtain ⟨r, hr, heq⟩ := h.origin n hn
    exact ⟨r, List.mem_cons_of_mem _ hr, heq.trans (absorb_cons_of_mem hr (hselves r hr)).symm⟩

end Grows

/-- A table grows when rows are inserted. -/
theorem exists_grows_of_inserts (hkey : Keyed t key) (hlast : LastWins t conflict)
    (hself : ∀ row ∈ rows, sameRow t row row = true) (h : Inserts t conflict rows s s') :
    ∃ fresh, Grows t conflict rows fresh s s' := by
  induction rows generalizing s with
  | nil =>
    obtain rfl : s' = s := h
    exact ⟨[], Grows.nil s'⟩
  | cons row rest ih =>
    obtain ⟨hrow, hrest⟩ := List.forall_mem_cons.1 hself
    obtain ⟨u, hinsert, h⟩ := h
    obtain ⟨fresh, hfresh⟩ := ih hrest h
    obtain ⟨old, hget, ⟨hfree, rfl⟩ | ⟨-, rfl⟩⟩ := get_of_insert hkey hinsert
    · exact ⟨_, hfresh.append hlast hrow hrest hget hfree⟩
    · exact ⟨fresh, hfresh.merge hlast hrest hget⟩

section again

theorem has_of_inserts {u : Table} (hu : s.has u = true) (h : Inserts t conflict rows s s') :
    s'.has u = true := by
  induction rows generalizing s with
  | nil =>
    obtain rfl : s' = s := h
    exact hu
  | cons row rest ih =>
    obtain ⟨v, hinsert, h⟩ := h
    exact ih (has_of_insert hu hinsert) h

theorem parentsPresent_of_inserts (hs : s.parentsPresent t = .ok ())
    (h : Inserts t conflict rows s s') : s'.parentsPresent t = .ok () :=
  parentsPresent_eq_ok.2 fun ref href => has_of_inserts (parentsPresent_eq_ok.1 hs ref href) h

/-- Where rows were inserted, others can be that meet the conditions. -/
theorem insertable_of_inserts (h : Inserts t conflict rows s s') : ∀ row ∈ rows,
    s'.has t = true ∧ s'.parentsPresent t = .ok () ∧ meetsConditions t row = .ok () := by
  induction rows generalizing s with
  | nil => exact List.forall_mem_nil _
  | cons row rest ih =>
    obtain ⟨u, hinsert, h⟩ := h
    obtain ⟨hthere, hparents, hconditions⟩ := insertable_of_insert hinsert
    have hall : Inserts t conflict (row :: rest) s s' := ⟨u, hinsert, h⟩
    refine List.forall_mem_cons.2 ⟨⟨?_, ?_, hconditions⟩, ih h⟩
    · exact has_of_inserts hthere hall
    · exact parentsPresent_of_inserts hparents hall

variable (hkey : Keyed t key) (hlast : LastWins t conflict) (hconflict : conflict ≠ .refuse)
  (hmerge : ∀ f, conflict = .merge f → Merges t f)
include hkey hlast hconflict hmerge

/-- Rows whose keys are there can be inserted. -/
theorem exists_inserts_of_there (hself : ∀ row ∈ rows, sameRow t row row = true)
    (hs : s.has t = true) (hparents : s.parentsPresent t = .ok ())
    (hconditions : ∀ row ∈ rows, meetsConditions t row = .ok ())
    (h : ∀ row ∈ rows, ∃ r ∈ s.rowsOf t, sameRow t row r = true) :
    ∃ s', Inserts t conflict rows s s' := by
  induction rows generalizing s with
  | nil => exact ⟨s, rfl⟩
  | cons row rest ih =>
    rw [List.forall_mem_cons] at hself hconditions h
    obtain ⟨u, hinsert⟩ :=
      (exists_insert_iff hkey hs hparents hconditions.1 hconflict hmerge).2 (Or.inl h.1)
    have hone : Inserts t conflict [row] s u := ⟨u, hinsert, rfl⟩
    obtain ⟨fresh, hgrows⟩ :=
      exists_grows_of_inserts hkey hlast (List.forall_mem_singleton.2 hself.1) hone
    have hkeys : ∀ row ∈ rest, ∃ r ∈ u.rowsOf t, sameRow t row r = true := by
      intro x hx
      obtain ⟨r, hr, hsame⟩ := h.2 x hx
      exact ⟨_, hgrows.mem_rowsOf hr, (hlast.sameRow_absorb _ x r).trans hsame⟩
    obtain ⟨s', hrest⟩ := ih hself.2 (has_of_insert hs hinsert)
      (parentsPresent_of_inserts hparents hone) hconditions.2 hkeys
    exact ⟨s', u, hinsert, hrest⟩

/-- Inserting rows again changes nothing. -/
theorem inserts_again (hself : ∀ row ∈ rows, sameRow t row row = true)
    (h : Inserts t conflict rows s s') : Inserts t conflict rows s' s' := by
  cases rows with
  | nil => exact rfl
  | cons row rest =>
    have hinsertable := insertable_of_inserts h
    have habsorbs := absorbs_of_inserts hkey hlast hself h
    obtain ⟨hs, hparents, -⟩ := hinsertable row List.mem_cons_self
    obtain ⟨u, hu⟩ := exists_inserts_of_there hkey hlast hconflict hmerge hself hs hparents
      (fun x hx => (hinsertable x hx).2.2) habsorbs.there
    have hget : u.get t = s'.get t := by
      rw [(absorbs_of_inserts hkey hlast hself hu).kept habsorbs.there]
      cases hold : s'.get t with
      | none => rfl
      | some old =>
        refine congrArg some ((List.map_congr_left fun n hn => ?_).trans (List.map_id old))
        have hmem : n.row ∈ s'.rowsOf t := rowsOf_of_eq_some hold ▸ List.mem_map_of_mem hn
        rw [habsorbs.settled n.row hmem]
        rfl
    rw [eq_put_of_inserts hu, hget, put_get] at hu
    exact hu

end again

end FilmReport.Store
