import FilmReport.Proofs.Dataset.Written

/-!
Batches of inputs written one after the other. Whatever the store, a batch that is written is
written in two parts as well, a second writing of it changes nothing, and its table holds for each
key the last input that has it, beside the rows of all other keys (`Dataset.Upserts`); a movie that
was there keeps its place, its number and its amount.
-/

set_option autoImplicit false
set_option relaxedAutoImplicit false

namespace FilmReport

open Act Store World

/-- A row with the amount of another, where rows have amounts. -/
def Table.withAmount : (t : Table) → t.Row → t.Row → t.Row
  | .movie, old, new => { new with grossAmount := old.grossAmount }
  | _, _, new => new

/-- A row that has no amount. -/
def Table.IsWithoutAmount : (t : Table) → t.Row → Prop
  | .movie, m => m.grossAmount = .null
  | _, _ => True

theorem Table.withAmount_of_without {t : Table} {old new : t.Row} (hold : t.IsWithoutAmount old)
    (hnew : t.IsWithoutAmount new) : t.withAmount old new = new := by
  cases t with
  | movie =>
    obtain ⟨_, _, _, _, _, _, _, _, _, amount⟩ := new
    obtain rfl : amount = .null := hnew
    rw [withAmount, show old.grossAmount = .null from hold]
  | _ => rfl

namespace Dataset

variable {kind : RowKind} {types : List FieldType} {input : Json} {inputs : List Json}
  {s s' : Store} {w w' : World}

/-- What becomes of a row when rows are written: the last of them that has its key, but with the
amount that the row has. -/
def settle (t : Table) (rows : List t.Row) (r : t.Row) : t.Row :=
  ((last? t rows r).map (t.withAmount r)).getD r

/-- What is after rows were written to a table. -/
structure Upserts (t : Table) (rows : List t.Row) (s s' : Store) : Prop where
  /-- The rows that were there stay in their places, and behind them there is for each new key the
  last row that has it. -/
  grown : ∃ fresh,
    s'.get t = (s.get t).map (fun old =>
      old.map (fun n => { n with row := settle t rows n.row }) ++ fresh) ∧
    fresh.Pairwise (fun a b => sameRow t a.row b.row = false) ∧
    ∀ n ∈ fresh, last? t rows n.row = some n.row ∧ t.IsWithoutAmount n.row ∧
      ∀ r ∈ s.rowsOf t, sameRow t n.row r = false
  /-- Each key that was written is there. -/
  there : ∀ row ∈ rows, ∃ r ∈ s'.rowsOf t, sameRow t row r = true
  /-- A row whose key was written is the last one written with this key, but for its amount. -/
  last : ∀ r ∈ s'.rowsOf t, ∀ row, last? t rows r = some row → r = t.withAmount r row
  others : ∀ u ≠ t, s'.get u = s.get u
  hasAmount : s'.hasAmount = s.hasAmount

section rows

variable {row r : kind.table.Row} {rows : List kind.table.Row}

/-- Cells of the declared types make a row that has a key and no amount. -/
theorem RowKind.Holds.isKeyed {cells : List Cell} (h : kind.Holds cells)
    (hfill : fill ((layout kind.table).columns.zip cells) (blankRow kind.table) = .ok row) :
    sameRow kind.table row row = true ∧ kind.table.IsWithoutAmount row := by
  obtain ⟨types, hkind, hcells⟩ := h
  simp only [declared, List.mem_cons, List.not_mem_nil, or_false, Prod.mk.injEq] at hkind
  rcases hkind with ⟨rfl, rfl⟩ | ⟨rfl, rfl⟩ | ⟨rfl, rfl⟩ | ⟨rfl, rfl⟩ | ⟨rfl, rfl⟩ | ⟨rfl, rfl⟩
  · obtain _ | ⟨⟨id, rfl⟩, _ | ⟨⟨title, rfl⟩, _ | ⟨-, _ | ⟨-, _ | ⟨-, _ | ⟨-, _ | ⟨-, _ |
      ⟨-, _ | ⟨-, _ | _⟩⟩⟩⟩⟩⟩⟩⟩⟩ := hcells
    obtain rfl := Except.ok.inj hfill
    exact ⟨sameRow_movie.2 ⟨id, rfl, rfl⟩, rfl⟩
  · obtain _ | ⟨⟨id, rfl⟩, _ | ⟨⟨name, rfl⟩, _ | ⟨-, _ | ⟨-, _ | ⟨-, _ | _⟩⟩⟩⟩⟩ := hcells
    obtain rfl := Except.ok.inj hfill
    exact ⟨sameRow_names.2 ⟨id, rfl, rfl⟩, trivial⟩
  · exact ⟨sameRow_genre.2 rfl, trivial⟩
  · exact ⟨sameRow_directorMapping.2 rfl, trivial⟩
  · exact ⟨sameRow_roleMapping.2 rfl, trivial⟩
  · obtain _ | ⟨⟨movieId, rfl⟩, _ | ⟨-, _ | ⟨-, _ | ⟨-, _ | _⟩⟩⟩⟩ := hcells
    obtain rfl := Except.ok.inj hfill
    exact ⟨sameRow_ratings.2 ⟨movieId, rfl, rfl⟩, trivial⟩

theorem RowKind.Hands.isKeyed (hinput : kind.Declares input) (h : kind.Hands input row) :
    sameRow kind.table row row = true ∧ kind.table.IsWithoutAmount row := by
  obtain ⟨cells, hcells, hholds⟩ := hinput.exists_cells
  obtain ⟨cells', hcells', hfill⟩ := h
  obtain rfl := Except.ok.inj (hcells.symm.trans hcells')
  exact hholds.isKeyed hfill

/-- Where a key is taken, every kind of row overwrites all but the amount. -/
theorem RowKind.merged_eq (hkind : (kind, types) ∈ declared)
    (hsame : sameRow kind.table row r = true) :
    kind.conflict.merged r row = kind.table.withAmount r row := by
  simp only [declared, List.mem_cons, List.not_mem_nil, or_false, Prod.mk.injEq] at hkind
  rcases hkind with ⟨rfl, -⟩ | ⟨rfl, -⟩ | ⟨rfl, -⟩ | ⟨rfl, -⟩ | ⟨rfl, -⟩ | ⟨rfl, -⟩
  · obtain ⟨id, hrow, hr⟩ := sameRow_movie.1 hsame
    change ({ row with id := r.id, grossAmount := r.grossAmount } : MovieRow) = _
    rw [hr, ← hrow]
    rfl
  · obtain ⟨id, hrow, hr⟩ := sameRow_names.1 hsame
    change ({ row with id := r.id } : NameRow) = _
    rw [hr, ← hrow]
    rfl
  · exact (sameRow_genre.1 hsame).symm
  · exact (sameRow_directorMapping.1 hsame).symm
  · obtain ⟨hmovie, hname⟩ := Prod.mk.inj (sameRow_roleMapping.1 hsame)
    change (⟨r.movieId, r.nameId, row.category⟩ : RoleRow) = row
    rw [← hmovie, ← hname]
    rfl
  · obtain ⟨id, hrow, hr⟩ := sameRow_ratings.1 hsame
    change ({ row with movieId := r.movieId } : RatingRow) = _
    rw [hr, ← hrow]
    rfl

theorem absorb_eq_settle (hkind : (kind, types) ∈ declared) (rows : List kind.table.Row)
    (r : kind.table.Row) : absorb kind.conflict rows r = settle kind.table rows r := by
  rw [absorb, settle]
  cases hlast : last? kind.table rows r with
  | none => rfl
  | some row => exact RowKind.merged_eq hkind (mem_of_last? hlast).2

/-- What is left when rows of a declared kind were inserted. -/
theorem upserts_of_inserts (hkind : (kind, types) ∈ declared)
    (hrows : ∀ row ∈ rows, sameRow kind.table row row = true ∧ kind.table.IsWithoutAmount row)
    (h : Inserts kind.table kind.conflict rows s s') : Upserts kind.table rows s s' := by
  obtain ⟨key, hkey⟩ := RowKind.exists_keyed hkind
  have hlast := RowKind.lastWins hkind
  have hself : ∀ row ∈ rows, sameRow kind.table row row = true := fun row hrow => (hrows row hrow).1
  have habsorbs := absorbs_of_inserts hkey hlast hself h
  obtain ⟨fresh, hgrows⟩ := exists_grows_of_inserts hkey hlast hself h
  refine ⟨⟨fresh, ?_, hgrows.apart, fun n hn => ?_⟩, habsorbs.there, fun r hr row hrow => ?_,
    fun u hu => get_of_inserts h hu, ?_⟩
  · rw [hgrows.get]
    simp only [absorb_eq_settle hkind]
  · obtain ⟨row, hrow, hn⟩ := hgrows.origin n hn
    obtain ⟨last, hfound⟩ := exists_last? hrow (hself row hrow)
    obtain ⟨hmem, hsame⟩ := mem_of_last? hfound
    have hnew : n.row = last := by
      rw [hn, absorb_eq_settle hkind, settle, hfound]
      exact Table.withAmount_of_without (hrows row hrow).2 (hrows last hmem).2
    refine ⟨?_, hnew ▸ (hrows last hmem).2, hgrows.free n ‹_›⟩
    rw [hnew, last?_congr hsame, hfound]
  · have hsettled := habsorbs.settled r hr
    rw [absorb_eq_settle hkind, settle, hrow] at hsettled
    exact hsettled.symm
  · rw [eq_put_of_inserts h, hasAmount_put]

/-- Inputs are written just if the rows as which they are handed over can be inserted. -/
theorem chain_writes_iff : Computes.Chain kind.Writes inputs s s' ↔
    ∃ rows, List.Forall₂ kind.Hands inputs rows ∧ Inserts kind.table kind.conflict rows s s' := by
  induction inputs generalizing s with
  | nil =>
    constructor
    · exact fun h => ⟨[], .nil, h⟩
    · rintro ⟨rows, hrows, h⟩
      cases hrows
      exact h
  | cons input rest ih =>
    constructor
    · rintro ⟨u, hwrites, hrest⟩
      obtain ⟨row, hrow, hinsert⟩ := RowKind.writes_iff.1 hwrites
      obtain ⟨rows, hrows, hinserts⟩ := ih.1 hrest
      exact ⟨row :: rows, .cons hrow hrows, u, hinsert, hinserts⟩
    · rintro ⟨_, hrow | ⟨hrow, hrows⟩, u, hinsert, hinserts⟩
      exact ⟨u, RowKind.writes_iff.2 ⟨_, hrow, hinsert⟩, ih.2 ⟨_, hrows, hinserts⟩⟩

/-- The rows as which inputs of their declared types are handed over have keys and no amounts. -/
theorem isKeyed_of_hands (hinputs : ∀ input ∈ inputs, kind.Declares input)
    (h : List.Forall₂ kind.Hands inputs rows) :
    ∀ row ∈ rows, sameRow kind.table row row = true ∧ kind.table.IsWithoutAmount row := by
  induction h with
  | nil => exact List.forall_mem_nil _
  | cons hfirst _ ih =>
    rw [List.forall_mem_cons] at hinputs ⊢
    exact ⟨hfirst.isKeyed hinputs.1, ih hinputs.2⟩

/-- Inputs that were written can be written again, and nothing changes. -/
theorem chain_writes_again (hkind : (kind, types) ∈ declared)
    (hinputs : ∀ input ∈ inputs, kind.Declares input)
    (h : Computes.Chain kind.Writes inputs s s') : Computes.Chain kind.Writes inputs s' s' := by
  obtain ⟨rows, hrows, hinserts⟩ := chain_writes_iff.1 h
  obtain ⟨key, hkey⟩ := RowKind.exists_keyed hkind
  refine chain_writes_iff.2 ⟨rows, hrows, inserts_again hkey (RowKind.lastWins hkind)
    (RowKind.conflict_ne_refuse hkind) (RowKind.keepsKeys hkind (blankRow kind.table)) ?_ hinserts⟩
  exact fun row hrow => (isKeyed_of_hands hinputs hrows row hrow).1

end rows

section worlds

theorem ready_of_on_writeRow (h : (writeRow kind input).on w = (.ok ⟨⟩, w')) : w.Ready := by
  rw [writeRow] at h
  obtain ⟨cells, v, hcells, hchange⟩ := on_bind_eq_ok.1 h
  cases hbind : Store.bind kind.parameters input with
  | error e =>
    rw [hbind] at hcells
    cases (Prod.mk.inj hcells).1
  | ok cells =>
    rw [hbind] at hcells
    obtain ⟨-, rfl⟩ := Prod.mk.inj hcells
    exact (ready_of_on_change hchange).1

/-- Inputs are written just if the world is open, and ready if there is anything to write. -/
theorem exists_on_write_iff : (∃ w', (write kind inputs).on w = (.ok ⟨⟩, w') ∧ w'.data = s') ↔
    w.session.isOpen = true ∧ (inputs ≠ [] → w.Ready) ∧
      Computes.Chain kind.Writes inputs w.data s' := by
  constructor
  · rintro ⟨w', h, rfl⟩
    have htransact := on_reporting_eq_ok.1 h
    have hopen : w.session.isOpen = true := by
      by_contra hclosed
      rw [on_transact_of_closed (Bool.not_eq_true _ ▸ hclosed)] at htransact
      cases (Prod.mk.inj htransact).1
    obtain ⟨v, hv, -, hdata, -⟩ := (orderly_writeRows kind inputs).on_transact hopen trivial
    obtain ⟨hvalue, rfl⟩ := Prod.mk.inj (hv.symm.trans htransact)
    cases inputs with
    | nil =>
      rw [hvalue] at hdata
      exact ⟨hopen, fun hne => absurd rfl hne, hdata.trans (data_entered w)⟩
    | cons input rest =>
      have hready : w.Ready := by
        rw [← ready_entered]
        obtain ⟨⟨⟩, u, hfirst, -⟩ := on_bind_eq_ok.1 (Prod.ext hvalue rfl)
        exact ready_of_on_writeRow hfirst
      exact ⟨hopen, fun _ => hready, (computes_write kind _).of_on hready h⟩
  · rintro ⟨hopen, hready, hchain⟩
    cases inputs with
    | nil =>
      obtain rfl : s' = w.data := hchain
      obtain ⟨v, hv, -, hdata, -⟩ := (orderly_writeRows kind []).on_transact hopen trivial
      exact ⟨v, on_reporting_eq_ok.2 hv, hdata.trans (data_entered w)⟩
    | cons input rest =>
      obtain ⟨w', hon, hdata, -⟩ := (computes_write kind _).exists_on
        (hready (List.cons_ne_nil input rest)) hchain
      exact ⟨w', hon, hdata⟩

theorem continues_of_on_write (h : (write kind inputs).on w = (.ok ⟨⟩, w')) : Continues w w' :=
  (whole_writeCounted kind inputs inputs.length).orderly.continues_of_on h

/-- What writing inputs in one call comes to, in whatever two parts they are taken. -/
structure WritesInParts (kind : RowKind) (xs ys : List Json) (w w' : World) : Prop where
  /-- The parts can be written one after the other, to the same effect. -/
  parts : ∃ v v', (write kind xs).on w = (.ok ⟨⟩, v) ∧ (write kind ys).on v = (.ok ⟨⟩, v') ∧
    v'.data = w'.data
  /-- A second writing succeeds and changes nothing. -/
  again : ∃ v, (write kind (xs ++ ys)).on w' = (.ok ⟨⟩, v) ∧ v.data = w'.data
  upserts : ∃ rows, List.Forall₂ kind.Hands (xs ++ ys) rows ∧
    Upserts kind.table rows w.data w'.data

/-- Whatever the world and the inputs of the declared types, a batch that is written is written in
parts as well and a second time without effect, and of the inputs with a key the last decides. -/
theorem writesInParts_of_on_write (hkind : (kind, types) ∈ declared) {xs ys : List Json}
    (hinputs : ∀ input ∈ xs ++ ys, kind.Declares input)
    (h : (write kind (xs ++ ys)).on w = (.ok ⟨⟩, w')) : WritesInParts kind xs ys w w' := by
  obtain ⟨hopen, hready, hchain⟩ := exists_on_write_iff.1 ⟨w', h, rfl⟩
  have hcontinues := continues_of_on_write h
  refine ⟨?_, ?_, ?_⟩
  · obtain ⟨s, hxs, hys⟩ := Computes.chain_append.1 hchain
    obtain ⟨v, hv, rfl⟩ := exists_on_write_iff.2
      ⟨hopen, fun hne => hready (List.append_ne_nil_of_left_ne_nil hne ys), hxs⟩
    have hcontinuesXs := continues_of_on_write hv
    obtain ⟨v', hv', hdata⟩ := exists_on_write_iff.2 ⟨hcontinuesXs.isOpen.trans hopen,
      fun hne => hcontinuesXs.ready.2 (hready (List.append_ne_nil_of_right_ne_nil xs hne)), hys⟩
    exact ⟨v, v', hv, hv', hdata⟩
  · exact exists_on_write_iff.2 ⟨hcontinues.isOpen.trans hopen,
      fun hne => hcontinues.ready.2 (hready hne), chain_writes_again hkind hinputs hchain⟩
  · obtain ⟨rows, hrows, hinserts⟩ := chain_writes_iff.1 hchain
    exact ⟨rows, hrows, upserts_of_inserts hkind (isKeyed_of_hands hinputs hrows) hinserts⟩

/-- A movie with an amount. -/
def pricedStore : Store :=
  { blank with
    movie := some [⟨7, { blankRow .movie with
      id := some "tt1", title := "Draft", grossAmount := .real (.ofInt 5) }⟩] }

def titled (id title : String) : Json :=
  .object (Movie.fields ⟨id, title, none, none, none, none, none, none, none⟩)

/-- A movie that is there gets its last title, beside one that is new. -/
theorem writesInParts_of_on_write_retitled :
    ∃ w', (write .movies ([titled "tt1" "Cut", titled "tt2" "Other"] ++ [titled "tt1" "Final"])).on
        (inMemory pricedStore []) = (.ok ⟨⟩, w') ∧
      WritesInParts .movies [titled "tt1" "Cut", titled "tt2" "Other"] [titled "tt1" "Final"]
        (inMemory pricedStore []) w' ∧
      (w'.data.movie.getD []).map (fun n => (n.number, n.row.title, n.row.grossAmount)) =
        [(7, "Final", .real (.ofInt 5)), (8, "Other", .null)] := by
  have hinputs : ∀ input ∈ [titled "tt1" "Cut", titled "tt2" "Other"] ++ [titled "tt1" "Final"],
      RowKind.movies.Declares input := by
    simp only [List.cons_append, List.nil_append, List.forall_mem_cons]
    exact ⟨declares_movie _, declares_movie _, declares_movie _, List.forall_mem_nil _⟩
  refine ⟨_, Prod.ext (by rfl) rfl, ?_, by rfl⟩
  exact writesInParts_of_on_write List.mem_cons_self hinputs (Prod.ext (by rfl) rfl)

end worlds

end Dataset
end FilmReport
