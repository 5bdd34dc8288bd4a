import FilmReport.Proofs.Dataset.Declared
import FilmReport.Proofs.Dataset.Seeded
import FilmReport.Proofs.Session.Reports
import FilmReport.Proofs.Store.Referring

/-!
Batches of records. Each record of an accepted dataset is handed over as a row that meets every
condition of its table, so only what it refers to can keep it from being written. In a store after
all migrations the records of a kind are written just if what they refer to is there
(`Batch.exists_writes_iff`), and they add their own identifiers to those that were there; a batch
that cannot be written reports its table and its length.
-/

set_option autoImplicit false
set_option relaxedAutoImplicit false

namespace FilmReport.Dataset

open Act Store

/-- An input is handed over as a row. -/
def RowKind.Hands (kind : RowKind) (input : Json) (row : kind.table.Row) : Prop :=
  ∃ cells, Store.bind kind.parameters input = .ok cells ∧
    fill ((layout kind.table).columns.zip cells) (blankRow kind.table) = .ok row

/-- An input is handed over as a row that meets the conditions of its table. -/
structure RowKind.Gives (kind : RowKind) (input : Json) (row : kind.table.Row) : Prop where
  cells : ∃ cells, Store.bind kind.parameters input = .ok cells ∧
    fill ((layout kind.table).columns.zip cells) (blankRow kind.table) = .ok row
  conditions : meetsConditions kind.table row = .ok ()

def Movie.row (m : Movie) : MovieRow :=
  ⟨some m.id, m.title, (cellOf m.year).toInteger, m.datePublished, (cellOf m.duration).toInteger,
    m.country, m.grossIncome, m.languages, m.productionCompany, .null⟩

def Name.row (n : Name) : NameRow :=
  ⟨some n.id, n.name, (cellOf n.height).toInteger, n.dateOfBirth, n.knownForMovies⟩

def Genre.row (g : Genre) : GenreRow :=
  ⟨g.movieId, g.genre⟩

def Directing.row (d : Directing) : DirectorRow :=
  ⟨d.movieId, d.nameId⟩

def Casting.row (c : Casting) : RoleRow :=
  ⟨c.movieId, c.nameId, c.category.text⟩

def Rating.row (r : Rating) : RatingRow :=
  ⟨some r.movieId, r.avgRating.elim .null fun q => .real (.finite q),
    (cellOf r.totalVotes).toInteger, (cellOf r.medianRating).toInteger⟩

section conditions

variable {field : Option ℤ} {k : ℤ}

theorem number?_cellOf {n : ℤ} (hn : n.natAbs < 2 ^ 53) :
    (cellOf (some n)).toInteger.number? = some (.finite n) :=
  congrArg Cell.number? (Cell.toInteger_ofInt hn)

theorem atLeast_cellOf (h : ∀ n, field = some n → k ≤ n ∧ n.natAbs < 2 ^ 53) :
    atLeast k (cellOf field).toInteger = true := by
  cases field with
  | none => rfl
  | some n =>
    obtain ⟨hle, hn⟩ := h n rfl
    refine Cell.atLeast_of_lt (number?_cellOf hn) (decide_eq_false ?_)
    exact_mod_cast hle.not_gt

theorem atMost_cellOf (h : ∀ n, field = some n → n ≤ k ∧ n.natAbs < 2 ^ 53) :
    atMost k (cellOf field).toInteger = true := by
  cases field with
  | none => rfl
  | some n =>
    obtain ⟨hle, hn⟩ := h n rfl
    refine Cell.atMost_of_lt (number?_cellOf hn) (decide_eq_false ?_)
    exact_mod_cast hle.not_gt

end conditions

theorem toText?_elim (field : Option String) : (field.elim Cell.null .text).toText? = field := by
  cases field <;> rfl

theorem gives_movie {m : Movie} (hm : m.Keeps) : RowKind.movies.Gives (.object m.fields) m.row where
  cells := by
    refine ⟨_, bind_movie m, ?_⟩
    change Except.ok (⟨some m.id, m.title, _, (m.datePublished.elim Cell.null .text).toText?, _,
      (m.country.elim Cell.null .text).toText?, (m.grossIncome.elim Cell.null .text).toText?,
      (m.languages.elim Cell.null .text).toText?,
      (m.productionCompany.elim Cell.null .text).toText?, _⟩ : MovieRow) = _
    simp only [toText?_elim]
    rfl
  conditions := by
    refine meetsConditions_eq_ok.2 (List.forall_mem_singleton.2 (atLeast_cellOf fun n hn => ?_))
    have hduration := hm.duration n hn
    omega

theorem bind_name (n : Name) :
    Store.bind RowKind.names.parameters (.object n.fields) =
      .ok [.text n.id, .text n.name, cellOf n.height, n.dateOfBirth.elim .null .text,
        n.knownForMovies.elim .null .text] := by
  have hint := ofJson?_ofOption ofJson?_ofInt
  have htext := ofJson?_ofOption (f := Json.string) fun s => rfl
  have hfields : n.fields =
      [("id", .string n.id), ("name", .string n.name), ("height", .ofOption .ofInt n.height),
       ("dateOfBirth", .ofOption .string n.dateOfBirth),
       ("knownForMovies", .ofOption .string n.knownForMovies)] := rfl
  simp only [Store.bind, hfields, RowKind.names, List.mapM_cons, bindOne, Fields.get?_cons,
    ↓reduceIte, String.reduceEq, hint, htext]
  rfl

theorem gives_name (n : Name) : RowKind.names.Gives (.object n.fields) n.row where
  cells := by
    refine ⟨_, bind_name n, ?_⟩
    change Except.ok (⟨some n.id, n.name, _, (n.dateOfBirth.elim Cell.null .text).toText?,
      (n.knownForMovies.elim Cell.null .text).toText?⟩ : NameRow) = _
    simp only [toText?_elim]
    rfl
  conditions := rfl

theorem gives_genre (g : Genre) : RowKind.genres.Gives (.object g.fields) g.row where
  cells := ⟨_, rfl, rfl⟩
  conditions := rfl

theorem gives_directing (d : Directing) : RowKind.directings.Gives (.object d.fields) d.row where
  cells := ⟨_, rfl, rfl⟩
  conditions := rfl

theorem gives_casting (c : Casting) : RowKind.castings.Gives (.object c.fields) c.row where
  cells := ⟨_, rfl, rfl⟩
  conditions := by
    refine meetsConditions_eq_ok.2 (List.forall_mem_singleton.2 ?_)
    cases hcategory : c.category <;> simp [Casting.row, hcategory, Category.text]

theorem gives_rating {r : Rating} (hr : r.Keeps) :
    RowKind.ratings.Gives (.object r.fields) r.row where
  cells := by
    refine ⟨_, bind_rating r, ?_⟩
    have haverage : (r.avgRating.elim Cell.null fun q => .real (.finite q)).toRealCell =
        r.avgRating.elim .null fun q => .real (.finite q) := by
      cases r.avgRating <;> rfl
    change Except.ok (⟨some r.movieId, (r.avgRating.elim Cell.null _).toRealCell, _, _⟩ :
      RatingRow) = _
    rw [haverage]
    rfl
  conditions := by
    have haverage : atLeast 0 r.row.avgRating = true ∧ atMost 10 r.row.avgRating = true := by
      rw [Rating.row]
      cases haverage : r.avgRating with
      | none => exact ⟨rfl, rfl⟩
      | some q =>
        obtain ⟨hq, hten⟩ := hr.average q haverage
        exact ⟨Cell.atLeast_of_lt rfl (decide_eq_false hq.not_gt),
          Cell.atMost_of_lt rfl (decide_eq_false hten.not_gt)⟩
    have hvotes : atLeast 0 r.row.totalVotes = true := atLeast_cellOf fun n hn => by
      have hvotes := hr.votes n hn
      omega
    have hmedian : atLeast 0 r.row.medianRating = true ∧ atMost 10 r.row.medianRating = true := by
      refine ⟨atLeast_cellOf fun n hn => ?_, atMost_cellOf fun n hn => ?_⟩ <;>
      · have hmedian := hr.median n hn
        omega
    refine meetsConditions_eq_ok.2 (List.forall_mem_cons.2 ⟨?_, List.forall_mem_cons.2 ⟨hvotes,
      List.forall_mem_singleton.2 ?_⟩⟩)
    · exact Bool.and_eq_true_iff.2 haverage
    · exact Bool.and_eq_true_iff.2 hmedian

section rows

variable {kind : RowKind} {input : Json} {row : kind.table.Row} {s s' : Store}

/-- An input is written as a row. -/
def RowKind.Writes (kind : RowKind) (input : Json) (s s' : Store) : Prop :=
  ∃ cells, Store.bind kind.parameters input = .ok cells ∧
    (kind.insert cells s).result = .ok ((), s')

theorem computes_writeRow (kind : RowKind) (input : Json) :
    Computes (writeRow kind input) fun s _ s' => kind.Writes input s s' := by
  refine ((Computes.ofStore _).bind fun cells =>
    Computes.change (sound_insert kind cells)).of_iff ?_
  intro s _ s'
  constructor
  · rintro ⟨cells, _, ⟨hcells, rfl⟩, hinsert⟩
    exact ⟨cells, hcells, hinsert⟩
  · rintro ⟨cells, hcells, hinsert⟩
    exact ⟨cells, s, ⟨hcells, rfl⟩, hinsert⟩

theorem reports_writeRow (kind : RowKind) (input : Json) :
    Reports (writeRow kind input) fun _ => False :=
  (Reports.ofStore _).bind fun _ => Reports.change _

theorem computes_write (kind : RowKind) (inputs : List Json) :
    Computes (write kind inputs) fun s _ s' => Computes.Chain kind.Writes inputs s s' :=
  ((Computes.forM (computes_writeRow kind) inputs).transact).reporting _

/-- Rows that cannot be written are reported with their table and their number. -/
theorem exists_of_on_write_error {inputs : List Json} {w w' : World} {e : Failure}
    (h : (write kind inputs).on w = (.error e, w')) :
    ∃ cause, e = .fault (writeFault kind (some (.ofNat inputs.length)) cause) :=
  (Reports.forM (reports_writeRow kind) inputs).transact.exists_of_on_reporting_error h

/-- An input is written just if the row as which it is handed over can be inserted. -/
theorem RowKind.writes_iff : kind.Writes input s s' ↔
    ∃ row, kind.Hands input row ∧ s.insert kind.table kind.conflict row = .ok s' := by
  have hstoring : ∀ r : Except StoreError Store, r.map (fun s => ((), s)) = .ok ((), s') ↔
      r = .ok s' := by
    rintro (e | s) <;> simp [Except.map]
  constructor
  · rintro ⟨cells, hcells, hinsert⟩
    rw [RowKind.insert] at hinsert
    cases hrow : kind.row cells s with
    | error e =>
      rw [hrow] at hinsert
      cases hinsert
    | ok row =>
      rw [hrow] at hinsert
      exact ⟨row, ⟨cells, hcells, fill_of_row hrow⟩, (hstoring _).1 hinsert⟩
  · rintro ⟨row, ⟨cells, hcells, hfill⟩, hinsert⟩
    obtain ⟨hthere, hparents, -⟩ := insertable_of_insert hinsert
    obtain ⟨rows, hget⟩ := Option.isSome_iff_exists.1 hthere
    have hrow : kind.row cells s = .ok row := by
      rw [RowKind.row, rows?_eq_ok.2 ⟨rows, hget, rfl⟩]
      change (s.parentsPresent kind.table >>= fun _ => _) = _
      rw [hparents]
      exact hfill
    refine ⟨cells, hcells, ?_⟩
    rw [RowKind.insert, hrow]
    exact (hstoring _).2 hinsert

/-- An input is handed over as one row only. -/
theorem RowKind.Hands.unique {other : kind.table.Row} (h : kind.Hands input row)
    (h' : kind.Hands input other) : other = row := by
  obtain ⟨cells, hcells, hfill⟩ := h
  obtain ⟨cells', hcells', hfill'⟩ := h'
  obtain rfl := Except.ok.inj (hcells.symm.trans hcells')
  exact Except.ok.inj (hfill'.symm.trans hfill)

/-- What is handed over as a row is written as this row. -/
theorem RowKind.Gives.writes_iff (h : kind.Gives input row) :
    kind.Writes input s s' ↔ s.insert kind.table kind.conflict row = .ok s' := by
  rw [RowKind.writes_iff]
  constructor
  · rintro ⟨other, hother, hinsert⟩
    obtain rfl := RowKind.Hands.unique h.cells hother
    exact hinsert
  · exact fun hinsert => ⟨row, h.cells, hinsert⟩

namespace RowKind

variable {types : List FieldType}

theorem exists_keyed (hkind : (kind, types) ∈ declared) : ∃ key, Keyed kind.table key := by
  refine Store.exists_keyed ?_
  simp only [declared, List.mem_cons, List.not_mem_nil, or_false, Prod.mk.injEq] at hkind
  rcases hkind with ⟨rfl, -⟩ | ⟨rfl, -⟩ | ⟨rfl, -⟩ | ⟨rfl, -⟩ | ⟨rfl, -⟩ | ⟨rfl, -⟩ <;> decide

theorem conflict_ne_refuse (hkind : (kind, types) ∈ declared) : kind.conflict ≠ .refuse := by
  intro hrefuse
  simp only [declared, List.mem_cons, List.not_mem_nil, or_false, Prod.mk.injEq] at hkind
  rcases hkind with ⟨rfl, -⟩ | ⟨rfl, -⟩ | ⟨rfl, -⟩ | ⟨rfl, -⟩ | ⟨rfl, -⟩ | ⟨rfl, -⟩ <;>
    cases hrefuse

/-- A row of a declared kind is written just if what it refers to is there. -/
theorem Gives.exists_writes_iff (hkind : (kind, types) ∈ declared) (hs : s.IsMigrated)
    (h : kind.Gives input row) :
    (∃ s', kind.Writes input s s') ↔ s.referencesHold kind.table row = true := by
  obtain ⟨key, hkey⟩ := exists_keyed hkind
  simp only [h.writes_iff]
  exact hs.exists_insert_iff hkey h.conditions (conflict_ne_refuse hkind) (keepsKeys hkind row)

/-- What writing a row leaves: all references of the same table hold as before. -/
theorem Gives.of_writes (hkind : (kind, types) ∈ declared) (hs : s.IsMigrated)
    (h : kind.Gives input row) (hwrites : kind.Writes input s s') :
    s'.IsMigrated ∧ SameParents kind.table s s' ∧ ∀ u id, id ∈ s'.identifiers u ↔
      id ∈ s.identifiers u ∨ u = kind.table ∧ idOf kind.table row = some id := by
  obtain ⟨key, hkey⟩ := exists_keyed hkind
  have hinsert := h.writes_iff.1 hwrites
  refine ⟨hs.insert (keepsKeys hkind row) hinsert, ?_, fun u id =>
    mem_identifiers_insert hkey (keepsKeys hkind row) hinsert⟩
  obtain ⟨rows, rfl, -⟩ := exists_of_insert hinsert
  exact SameParents.put kind.table s _

end RowKind

end rows

/-- Inputs of one kind, and the rows as which they are handed over. -/
structure Batch where
  kind : RowKind
  inputs : List Json
  rows : List kind.table.Row

namespace Batch

variable {b : Batch} {s s' t : Store}

/-- A batch of a declared kind whose inputs are handed over as its rows. -/
structure IsGiven (b : Batch) : Prop where
  declared : ∃ types, (b.kind, types) ∈ declared
  gives : List.Forall₂ b.kind.Gives b.inputs b.rows

/-- What the rows of a batch refer to is there. -/
def holds (b : Batch) (s : Store) : Bool :=
  b.rows.all (s.referencesHold b.kind.table)

def Writes (b : Batch) (s s' : Store) : Prop :=
  Computes.Chain b.kind.Writes b.inputs s s'

/-- A batch is written just if all that its rows refer to is there. -/
theorem exists_writes_iff (hb : b.IsGiven) (hs : s.IsMigrated) :
    (∃ s', b.Writes s s') ↔ b.holds s = true := by
  obtain ⟨⟨types, hkind⟩, hgives⟩ := hb
  rcases b with ⟨kind, inputs, rows⟩
  change (kind, types) ∈ Dataset.declared at hkind
  simp only [Writes, holds, List.all_eq_true] at hgives ⊢
  induction hgives generalizing s with
  | nil => exact iff_of_true ⟨s, rfl⟩ (List.forall_mem_nil _)
  | cons hfirst _ ih =>
    rw [List.forall_mem_cons, ← hfirst.exists_writes_iff hkind hs]
    constructor
    · rintro ⟨s', t, hwrites, hrest⟩
      obtain ⟨ht, hparents, -⟩ := hfirst.of_writes hkind hs hwrites
      refine ⟨⟨t, hwrites⟩, fun row hrow => ?_⟩
      rw [← hparents.referencesHold]
      exact (ih ht).1 ⟨s', hrest⟩ row hrow
    · rintro ⟨⟨t, hwrites⟩, hrest⟩
      obtain ⟨ht, hparents, -⟩ := hfirst.of_writes hkind hs hwrites
      obtain ⟨s', hchain⟩ := (ih ht).2 fun row hrow => by
        rw [hparents.referencesHold]
        exact hrest row hrow
      exact ⟨s', t, hwrites, hchain⟩

/-- After a batch was written, the identifiers are those before and those of its rows. -/
theorem of_writes (hb : b.IsGiven) (hs : s.IsMigrated) (h : b.Writes s s') :
    s'.IsMigrated ∧ ∀ u id, id ∈ s'.identifiers u ↔
      id ∈ s.identifiers u ∨
        u = b.kind.table ∧ ∃ row ∈ b.rows, idOf b.kind.table row = some id := by
  obtain ⟨⟨types, hkind⟩, hgives⟩ := hb
  rcases b with ⟨kind, inputs, rows⟩
  change (kind, types) ∈ Dataset.declared at hkind
  simp only [Writes] at hgives h ⊢
  induction hgives generalizing s with
  | nil =>
    obtain rfl : s' = s := h
    exact ⟨hs, fun u id => by simp⟩
  | cons hfirst _ ih =>
    obtain ⟨t, hwrites, hrest⟩ := h
    obtain ⟨ht, -, hids⟩ := hfirst.of_writes hkind hs hwrites
    obtain ⟨hs', hidsRest⟩ := ih ht hrest
    refine ⟨hs', fun u id => ?_⟩
    rw [hidsRest, hids, or_assoc, ← and_or_left, List.exists_mem_cons_iff]

/-- The batch of records with their fields and their rows. -/
def ofRecords {α : Type} (kind : RowKind) (fields : α → Fields) (row : α → kind.table.Row)
    (records : List α) : Batch :=
  ⟨kind, (records.map fields).map .object, records.map row⟩

section records

variable {α : Type} {kind : RowKind} {fields : α → Fields} {row : α → kind.table.Row}
  {records : List α}

theorem isGiven_ofRecords (hkind : ∃ types, (kind, types) ∈ Dataset.declared)
    (h : ∀ r ∈ records, kind.Gives (.object (fields r)) (row r)) :
    (ofRecords kind fields row records).IsGiven where
  declared := hkind
  gives := by
    rw [ofRecords, List.map_map, List.forall₂_map_left_iff, List.forall₂_map_right_iff,
      List.forall₂_same]
    exact h

/-- After records were written, the identifiers are those before and their own. -/
theorem of_writes_ofRecords (hb : (ofRecords kind fields row records).IsGiven) (hs : s.IsMigrated)
    (h : (ofRecords kind fields row records).Writes s s') :
    s'.IsMigrated ∧ ∀ u id, id ∈ s'.identifiers u ↔
      id ∈ s.identifiers u ∨ u = kind.table ∧ ∃ r ∈ records, idOf kind.table (row r) = some id := by
  obtain ⟨hs', hids⟩ := of_writes hb hs h
  refine ⟨hs', fun u id => (hids u id).trans (or_congr_right (and_congr_right' ?_))⟩
  constructor
  · rintro ⟨_, hrow, hid⟩
    obtain ⟨r, hr, rfl⟩ := List.mem_map.1 hrow
    exact ⟨r, hr, hid⟩
  · rintro ⟨r, hr, hid⟩
    exact ⟨row r, List.mem_map_of_mem hr, hid⟩

theorem holds_ofRecords : (ofRecords kind fields row records).holds s =
    records.all fun r => s.referencesHold kind.table (row r) :=
  List.all_map

theorem length_ofRecords : (ofRecords kind fields row records).inputs.length = records.length := by
  simp [ofRecords]

end records

theorem holds_congr (h : ∀ u id, id ∈ s'.identifiers u ↔ id ∈ s.identifiers u) (b : Batch) :
    b.holds s' = b.holds s := by
  rw [Bool.eq_iff_iff, holds, holds]
  simp only [List.all_eq_true, referencesHold_iff, h]

/-- A batch whose rows nothing refers to. -/
def IsLeaf (b : Batch) : Prop :=
  ∀ row : b.kind.table.Row, idOf b.kind.table row = none

/-- Batches to which nothing refers do not matter to each other. -/
theorem of_chain {batches : List Batch} (hall : ∀ b ∈ batches, b.IsGiven ∧ b.IsLeaf)
    (hs : s.IsMigrated) (h : Computes.Chain Writes batches s s') :
    s'.IsMigrated ∧ (∀ u id, id ∈ s'.identifiers u ↔ id ∈ s.identifiers u) ∧
      ∀ b ∈ batches, b.holds s = true := by
  induction batches generalizing s with
  | nil =>
    obtain rfl : s' = s := h
    exact ⟨hs, fun u id => Iff.rfl, List.forall_mem_nil _⟩
  | cons b rest ih =>
    obtain ⟨⟨hgiven, hleaf⟩, hall⟩ := List.forall_mem_cons.1 hall
    obtain ⟨t, hwrites, hrest⟩ := h
    obtain ⟨ht, hids⟩ := of_writes hgiven hs hwrites
    obtain ⟨hs', hidsRest, hholds⟩ := ih hall ht hrest
    have hsame : ∀ u id, id ∈ t.identifiers u ↔ id ∈ s.identifiers u := by
      intro u id
      rw [hids]
      simp [hleaf _]
    refine ⟨hs', fun u id => (hidsRest u id).trans (hsame u id), List.forall_mem_cons.2 ⟨?_, ?_⟩⟩
    · exact (exists_writes_iff hgiven hs).1 ⟨t, hwrites⟩
    · intro c hc
      rw [← holds_congr hsame]
      exact hholds c hc

theorem exists_chain {batches : List Batch} (hall : ∀ b ∈ batches, b.IsGiven ∧ b.IsLeaf)
    (hs : s.IsMigrated) (h : ∀ b ∈ batches, b.holds s = true) :
    ∃ s', Computes.Chain Writes batches s s' := by
  induction batches generalizing s with
  | nil => exact ⟨s, rfl⟩
  | cons b rest ih =>
    obtain ⟨⟨hgiven, hleaf⟩, hall⟩ := List.forall_mem_cons.1 hall
    obtain ⟨hfirst, hrest⟩ := List.forall_mem_cons.1 h
    obtain ⟨t, hwrites⟩ := (exists_writes_iff hgiven hs).2 hfirst
    obtain ⟨ht, hids⟩ := of_writes hgiven hs hwrites
    have hsame : ∀ u id, id ∈ t.identifiers u ↔ id ∈ s.identifiers u := by
      intro u id
      rw [hids]
      simp [hleaf _]
    obtain ⟨s', hchain⟩ := ih hall ht fun c hc => by
      rw [holds_congr hsame]
      exact hrest c hc
    exact ⟨s', t, hwrites, hchain⟩

end Batch

theorem computes_batches (batches : List Batch) :
    Computes (batches.forM fun b => write b.kind b.inputs) fun s _ s' =>
      Computes.Chain Batch.Writes batches s s' :=
  Computes.forM (R := Batch.Writes) (fun b => computes_write b.kind b.inputs) batches

/-- Of batches to which nothing refers, the first that refers to what is not there fails. -/
theorem exists_of_on_batches_error {batches : List Batch}
    (hall : ∀ b ∈ batches, b.IsGiven ∧ b.IsLeaf) {w w' : World} (hw : w.Ready)
    (hs : w.data.IsMigrated) {e : Failure}
    (h : (batches.forM fun b => write b.kind b.inputs).on w = (.error e, w')) :
    ∃ b cause, batches.find? (fun b => !b.holds w.data) = some b ∧
      e = .fault (writeFault b.kind (some (.ofNat b.inputs.length)) cause) := by
  obtain ⟨done, b, rest, v, rfl, hdone, hb⟩ := exists_of_on_forM_error h
  obtain ⟨cause, he⟩ := exists_of_on_write_error hb
  have hready := ((computes_batches done).orderly.continues_of_on hdone).ready.2 hw
  have hchain : Computes.Chain Batch.Writes done w.data v.data :=
    (computes_batches done).of_on hw hdone
  obtain ⟨hv, hids, hholds⟩ :=
    Batch.of_chain (fun c hc => hall c (List.mem_append_left _ hc)) hs hchain
  have hgiven := (hall b (List.mem_append_right _ List.mem_cons_self)).1
  have hnot : b.holds w.data = false := by
    rw [← Batch.holds_congr hids]
    refine Bool.eq_false_iff.2 fun hbholds => ?_
    obtain ⟨s', hs'⟩ := (Batch.exists_writes_iff hgiven hv).2 hbholds
    obtain ⟨u, hon, -⟩ := (computes_write b.kind b.inputs).exists_on (a := ()) hready hs'
    rw [hon] at hb
    cases (Prod.mk.inj hb).1
  refine ⟨b, cause, List.find?_eq_some_iff_append.2 ⟨by rw [hnot]; rfl, done, rest, rfl, ?_⟩, he⟩
  intro c hc
  rw [hholds c hc]
  rfl

end FilmReport.Dataset
