import FilmReport.Proofs.Dataset.Resolved
import FilmReport.Proofs.Store.Merging
import FilmReport.Proofs.Dataset.Grammar

/-!
The tables after a dataset was written. Each of its lists goes to a table of its own, which then
holds for each key the last record of the list (`Dataset.absorbs_of_seeded`); the other tables are
as they were. A table that was empty holds the rows of these last records, and no others
(`Dataset.Seeds.holds`).
-/

set_option autoImplicit false
set_option relaxedAutoImplicit false

namespace FilmReport.Dataset

open Act Store

variable {s s' u : Store} {d : Dataset}

/-- Under the rule of every kind the last row with a key decides. -/
theorem RowKind.lastWins {kind : RowKind} {types : List FieldType}
    (hkind : (kind, types) ∈ declared) : LastWins kind.table kind.conflict := by
  simp only [declared, List.mem_cons, List.not_mem_nil, or_false, Prod.mk.injEq] at hkind
  rcases hkind with ⟨rfl, -⟩ | ⟨rfl, -⟩ | ⟨rfl, -⟩ | ⟨rfl, -⟩ | ⟨rfl, -⟩ | ⟨rfl, -⟩ <;>
    exact ⟨List.forall_mem_singleton.2 fun _ _ => rfl, fun _ _ _ => rfl, fun _ => rfl⟩

namespace Batch

variable {b : Batch}

/-- A batch of rows that have keys. -/
def IsKeyed (b : Batch) : Prop :=
  ∀ row ∈ b.rows, sameRow b.kind.table row row = true

theorem inserts_of_writes (hb : b.IsGiven) (h : b.Writes s s') :
    Inserts b.kind.table b.kind.conflict b.rows s s' := by
  obtain ⟨-, hgives⟩ := hb
  rcases b with ⟨kind, inputs, rows⟩
  simp only [Writes] at hgives h ⊢
  induction hgives generalizing s with
  | nil => exact h
  | cons hfirst _ ih =>
    obtain ⟨t, hwrites, hrest⟩ := h
    exact ⟨t, hfirst.writes_iff.1 hwrites, ih hrest⟩

/-- A batch of keyed rows for its table, as which its table holds them in the end. -/
def IsAbsorbed (b : Batch) (s s' : Store) : Prop :=
  Absorbs b.kind.table b.kind.conflict b.rows s s'

theorem isAbsorbed_of_writes (hb : b.IsGiven) (hkeyed : b.IsKeyed) (h : b.Writes s s') :
    b.IsAbsorbed s s' := by
  obtain ⟨types, hkind⟩ := hb.declared
  obtain ⟨key, hkey⟩ := RowKind.exists_keyed hkind
  exact absorbs_of_inserts hkey (RowKind.lastWins hkind) hkeyed (inserts_of_writes hb h)

/-- Batches for different tables do not matter to each other. -/
theorem absorbed_of_chain {batches : List Batch}
    (hall : ∀ b ∈ batches, b.IsGiven ∧ b.IsKeyed)
    (hapart : (batches.map (·.kind.table)).Nodup) (hs : s.IsMigrated)
    (h : Computes.Chain Writes batches s s') :
    s'.IsMigrated ∧ (∀ b ∈ batches, b.IsAbsorbed s s') ∧
      ∀ t ∉ batches.map (·.kind.table), s'.get t = s.get t := by
  induction batches generalizing s with
  | nil =>
    obtain rfl : s' = s := h
    exact ⟨hs, List.forall_mem_nil _, fun _ _ => rfl⟩
  | cons b rest ih =>
    obtain ⟨⟨hgiven, hkeyed⟩, hall⟩ := List.forall_mem_cons.1 hall
    rw [List.map_cons, List.nodup_cons] at hapart
    obtain ⟨u, hwrites, h⟩ := h
    obtain ⟨hu, -⟩ := of_writes hgiven hs hwrites
    have hothers : ∀ t ≠ b.kind.table, u.get t = s.get t :=
      fun t ht => get_of_inserts (inserts_of_writes hgiven hwrites) ht
    obtain ⟨hs', habsorbed, hrest⟩ := ih hall hapart.2 hu h
    refine ⟨hs', List.forall_mem_cons.2 ⟨?_, fun c hc => ?_⟩, fun t ht => ?_⟩
    · exact (isAbsorbed_of_writes hgiven hkeyed hwrites).congr rfl (hrest _ hapart.1)
    · refine (habsorbed c hc).congr (hothers _ fun heq => hapart.1 ?_).symm rfl
      exact heq ▸ List.mem_map_of_mem hc
    · rw [List.map_cons, List.mem_cons, not_or] at ht
      exact (hrest t ht.2).trans (hothers t ht.1)

theorem isKeyed_ofRecords {α : Type} {kind : RowKind} {fields : α → Fields}
    {row : α → kind.table.Row} {records : List α}
    (h : ∀ r, sameRow kind.table (row r) (row r) = true) :
    (ofRecords kind fields row records).IsKeyed :=
  List.forall_mem_map.2 fun r _ => h r

end Batch

/-- The batches of a dataset in the order in which they are written. -/
def batches (d : Dataset) : List Batch :=
  parents d ++ children d

theorem Keeps.batches (hd : d.Keeps) : ∀ b ∈ batches d, b.IsGiven ∧ b.IsKeyed := by
  have hkeyed : ∀ b ∈ Dataset.batches d, b.IsKeyed := by
    simp only [Dataset.batches, parents, Dataset.children, List.cons_append, List.nil_append,
      List.forall_mem_cons]
    exact ⟨Batch.isKeyed_ofRecords fun m => sameRow_movie.2 ⟨m.id, rfl, rfl⟩,
      Batch.isKeyed_ofRecords fun n => sameRow_names.2 ⟨n.id, rfl, rfl⟩,
      Batch.isKeyed_ofRecords fun _ => sameRow_genre.2 rfl,
      Batch.isKeyed_ofRecords fun _ => sameRow_directorMapping.2 rfl,
      Batch.isKeyed_ofRecords fun _ => sameRow_roleMapping.2 rfl,
      Batch.isKeyed_ofRecords fun r => sameRow_ratings.2 ⟨r.movieId, rfl, rfl⟩,
      List.forall_mem_nil _⟩
  intro b hb
  refine ⟨?_, hkeyed b hb⟩
  rcases List.mem_append.1 hb with hb | hb
  · simp only [parents, List.mem_cons, List.not_mem_nil, or_false] at hb
    rcases hb with rfl | rfl
    · exact hd.isGiven_movies
    · exact isGiven_names d.names
  · exact (hd.children b hb).1

theorem IsResolved.mono (h : d.IsResolved s)
    (hmovies : ∀ id ∈ s.identifiers .movie, d.HasMovie s' id)
    (hnames : ∀ id ∈ s.identifiers .names, d.HasName s' id) : d.IsResolved s' := by
  have hmovie : ∀ {id}, d.HasMovie s id → d.HasMovie s' id := fun h => h.elim Or.inl (hmovies _)
  have hname : ∀ {id}, d.HasName s id → d.HasName s' id := fun h => h.elim Or.inl (hnames _)
  exact {
    genreMovies := fun g hg => hmovie (h.genreMovies g hg)
    directingMovies := fun x hx => hmovie (h.directingMovies x hx)
    directingNames := fun x hx => hname (h.directingNames x hx)
    castingMovies := fun c hc => hmovie (h.castingMovies c hc)
    castingNames := fun c hc => hname (h.castingNames c hc)
    ratingMovies := fun r hr => hmovie (h.ratingMovies r hr) }

/-- After a seeding the references of its records still resolve. -/
theorem isResolved_of_on_seed {tally : Fields} {w w' : World} (hd : d.Keeps) (hw : w.Ready)
    (hs : w.data.IsMigrated) (h : (seed d).on w = (.ok tally, w')) : d.IsResolved w'.data := by
  obtain ⟨-, -, t, hparents, hchildren⟩ := (computes_seed d).of_on hw h
  obtain ⟨ht, hmovies, hnames⟩ := of_parents hd hs hparents
  obtain ⟨-, hids, -⟩ := Batch.of_chain hd.children ht hchildren
  refine ((exists_on_seed_iff hd hw hs).1 ⟨tally, w', h⟩).mono (fun id hid => ?_) fun id hid => ?_
  · exact Or.inr ((hids _ id).2 ((hmovies id).2 (Or.inr hid)))
  · exact Or.inr ((hids _ id).2 ((hnames id).2 (Or.inr hid)))

/-- What a seeding that succeeds does to the tables. -/
structure Seeds (d : Dataset) (s s' : Store) : Prop where
  migrated : s'.IsMigrated
  absorbed : ∀ b ∈ batches d, b.IsAbsorbed s s'
  others : ∀ t ∉ Migration.datasetTables, s'.get t = s.get t

theorem seeds_of_on {tally : Fields} {w w' : World} (hd : d.Keeps) (hw : w.Ready)
    (hs : w.data.IsMigrated) (h : (seed d).on w = (.ok tally, w')) : Seeds d w.data w'.data := by
  obtain ⟨-, -, t, hparents, hchildren⟩ := (computes_seed d).of_on hw h
  have hapart : Migration.datasetTables.Nodup := by decide
  obtain ⟨hmigrated, habsorbed, hothers⟩ := Batch.absorbed_of_chain hd.batches hapart hs
    (Computes.chain_append.2 ⟨t, hparents, hchildren⟩)
  exact ⟨hmigrated, habsorbed, hothers⟩

section records

variable {α κ : Type} [DecidableEq κ] {key : α → κ} {records : List α} {k : κ} {a : α}

/-- The last record with a key. -/
def lastOf (key : α → κ) (records : List α) (k : κ) : Option α :=
  (records.filter fun a => key a = k).getLast?

theorem mem_of_lastOf (h : lastOf key records k = some a) : a ∈ records ∧ key a = k := by
  obtain ⟨ha, hk⟩ := List.mem_filter.1 (List.mem_of_getLast? h)
  exact ⟨ha, of_decide_eq_true hk⟩

theorem exists_lastOf (ha : a ∈ records) : ∃ b, lastOf key records (key a) = some b :=
  ⟨_, List.getLast?_eq_some_getLast
    (List.ne_nil_of_mem (List.mem_filter.2 ⟨ha, decide_eq_true rfl⟩))⟩

/-- A table that holds for each key the row of the last record of a list, once, and nothing else. -/
structure HoldsLast (s : Store) (t : Table) (key : α → κ) (row : α → t.Row) (records : List α) :
    Prop where
  nodup : (s.rowsOf t).Nodup
  mem_iff : ∀ r, r ∈ s.rowsOf t ↔ ∃ a, lastOf key records (key a) = some a ∧ row a = r

variable {t : Table} {row : α → t.Row} {conflict : Conflict t.Row} {s s' : Store}

theorem last?_map (hkeys : ∀ a b, sameRow t (row a) (row b) = true ↔ key a = key b) (a : α) :
    last? t (records.map row) (row a) = (lastOf key records (key a)).map row := by
  rw [last?, lastOf, List.filter_map, List.getLast?_map]
  refine congrArg (fun l => (List.getLast? l).map row) (List.filter_congr fun b _ => ?_)
  rw [Bool.eq_iff_iff, Function.comp_apply, hkeys, decide_eq_true_eq]

/-- Records that were written where their table was empty, each in place of the one before it with
the same key. -/
theorem holdsLast_of_absorbs (h : Absorbs t conflict (records.map row) s s')
    (hs' : s'.IsMigrated) (hnone : s.rowsOf t = []) {tableKey : Key t.Row}
    (hkey : Keyed t tableKey) (hlast : LastWins t conflict)
    (hkeys : ∀ a b, sameRow t (row a) (row b) = true ↔ key a = key b)
    (hreplaces : ∀ r ∈ s'.rowsOf t, ∀ a ∈ records, sameRow t (row a) r = true →
      conflict.merged r (row a) = row a) : HoldsLast s' t key row records := by
  have hmem : ∀ {r}, r ∈ s'.rowsOf t ↔ last? t (records.map row) r = some r :=
    h.mem_rowsOf_iff hnone hlast (List.forall_mem_map.2 fun a _ => (hkeys a a).2 rfl)
      fun r hr => List.forall_mem_map.2 (hreplaces r hr)
  refine ⟨?_, fun r => hmem.trans ⟨fun hr => ?_, ?_⟩⟩
  · have hapart := hs'.consistent.keys t _ (hkey.keys ▸ List.mem_cons_self)
    refine hapart.imp_of_mem fun {a b} ha _ hab heq => ?_
    have hself := (mem_of_last? (hmem.1 ha)).2
    rw [hkey.sameRow_eq] at hself
    rw [← heq, hself] at hab
    cases hab
  · obtain ⟨a, -, rfl⟩ := List.mem_map.1 (mem_of_last? hr).1
    rw [last?_map hkeys] at hr
    obtain ⟨b, hb, hrow⟩ := Option.map_eq_some_iff.1 hr
    refine ⟨b, ?_, hrow⟩
    rwa [(mem_of_lastOf hb).2]
  · rintro ⟨a, ha, rfl⟩
    rw [last?_map hkeys, ha]
    rfl

theorem holdsLast_of_isAbsorbed {kind : RowKind} {types : List FieldType}
    (hkind : (kind, types) ∈ declared) {fields : α → Fields} {row : α → kind.table.Row}
    (h : (Batch.ofRecords kind fields row records).IsAbsorbed s s') (hs' : s'.IsMigrated)
    (hnone : s.rowsOf kind.table = [])
    (hkeys : ∀ a b, sameRow kind.table (row a) (row b) = true ↔ key a = key b)
    (hreplaces : ∀ r ∈ s'.rowsOf kind.table, ∀ a ∈ records,
      sameRow kind.table (row a) r = true → kind.conflict.merged r (row a) = row a) :
    HoldsLast s' kind.table key row records := by
  obtain ⟨tableKey, hkey⟩ := RowKind.exists_keyed hkind
  exact holdsLast_of_absorbs h hs' hnone hkey (RowKind.lastWins hkind) hkeys hreplaces

end records

/-- The tables of a dataset hold the last records of its lists. -/
structure Holds (d : Dataset) (s : Store) : Prop where
  movies : HoldsLast s .movie Movie.id Movie.row d.movies
  names : HoldsLast s .names Name.id Name.row d.names
  genres : HoldsLast s .genre (fun g => (g.movieId, g.genre)) Genre.row d.genres
  directings :
    HoldsLast s .directorMapping (fun x => (x.movieId, x.nameId)) Directing.row d.directings
  castings : HoldsLast s .roleMapping (fun c => (c.movieId, c.nameId)) Casting.row d.castings
  ratings : HoldsLast s .ratings Rating.movieId Rating.row d.ratings

/-- Movies that were written where there were none have no amounts. -/
theorem grossAmount_of_isAbsorbed {movies : List Movie} {s s' : Store}
    (h : (Batch.ofRecords .movies Movie.fields Movie.row movies).IsAbsorbed s s')
    (hnone : s.rowsOf .movie = []) : ∀ r ∈ s'.rowsOf .movie, r.grossAmount = .null := by
  refine h.induct (fun (r : MovieRow) => r.grossAmount = .null) ?_ ?_ fun old new hold _ => hold
  · change ∀ r ∈ s.rowsOf .movie, _
    rw [hnone]
    exact List.forall_mem_nil _
  · exact List.forall_mem_map.2 fun m _ => rfl

theorem Seeds.holds {d : Dataset} {s s' : Store} (h : Seeds d s s')
    (hnone : ∀ t ∈ Migration.datasetTables, s.rowsOf t = []) : Holds d s' := by
  have hs' := h.migrated
  have habsorbed := h.absorbed
  simp only [batches, parents, children, List.cons_append, List.nil_append, List.forall_mem_cons]
    at habsorbed
  obtain ⟨hmovies, hnames, hgenres, hdirectings, hcastings, hratings, -⟩ := habsorbed
  simp only [Migration.datasetTables, List.forall_mem_cons] at hnone
  obtain ⟨hmovie, hname, hgenre, hdirecting, hcasting, hrating, -⟩ := hnone
  have hamount := grossAmount_of_isAbsorbed hmovies hmovie
  have hid : ∀ {a b : String}, (∃ id, some a = some id ∧ some b = some id) ↔ a = b := by
    intro a b
    constructor
    · rintro ⟨_, ha, hb⟩
      exact Option.some.inj (ha.trans hb.symm)
    · intro h
      exact ⟨b, congrArg some h, rfl⟩
  exact {
    movies := by
      refine holdsLast_of_isAbsorbed (.head _) hmovies hs' hmovie
        (fun a b => sameRow_movie.trans hid) fun r hr a _ hsame => ?_
      obtain ⟨id, ha, hrid⟩ := sameRow_movie.1 hsame
      change ({ a.row with id := r.id, grossAmount := r.grossAmount } : MovieRow) = a.row
      rw [hrid, ← ha, hamount r hr]
      rfl
    names := by
      refine holdsLast_of_isAbsorbed (.tail _ (.head _)) hnames hs' hname
        (fun a b => sameRow_names.trans hid) fun r _ a _ hsame => ?_
      obtain ⟨id, ha, hrid⟩ := sameRow_names.1 hsame
      change ({ a.row with id := r.id } : NameRow) = a.row
      rw [hrid, ← ha]
    genres := by
      refine holdsLast_of_isAbsorbed (.tail _ (.tail _ (.head _))) hgenres hs' hgenre
        (fun a b => sameRow_genre.trans ?_) fun r _ a _ hsame => (sameRow_genre.1 hsame).symm
      simp [Genre.row]
    directings := by
      refine holdsLast_of_isAbsorbed (.tail _ (.tail _ (.tail _ (.head _)))) hdirectings hs'
        hdirecting (fun a b => sameRow_directorMapping.trans ?_)
        fun r _ a _ hsame => (sameRow_directorMapping.1 hsame).symm
      simp [Directing.row]
    castings := by
      refine holdsLast_of_isAbsorbed (.tail _ (.tail _ (.tail _ (.tail _ (.head _))))) hcastings
        hs' hcasting (fun a b => sameRow_roleMapping) fun r _ a _ hsame => ?_
      obtain ⟨hmovieId, hnameId⟩ := Prod.mk.inj (sameRow_roleMapping.1 hsame)
      change ({ r with category := a.row.category } : RoleRow) = a.row
      rw [← hmovieId, ← hnameId]
    ratings := by
      refine holdsLast_of_isAbsorbed (.tail _ (.tail _ (.tail _ (.tail _ (.tail _ (.head _))))))
        hratings hs' hrating (fun a b => sameRow_ratings.trans hid) fun r _ a _ hsame => ?_
      obtain ⟨id, ha, hrid⟩ := sameRow_ratings.1 hsame
      change ({ a.row with movieId := r.movieId } : RatingRow) = a.row
      rw [hrid, ← ha] }

end FilmReport.Dataset
