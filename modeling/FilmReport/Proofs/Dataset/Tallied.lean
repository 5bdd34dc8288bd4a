import Mathlib.Data.List.Dedup
import FilmReport.Proofs.Dataset.Upserted

/-!
What the tally of a seeding tells. It has the number of records of every list, while the tables have
one row for each key: in fresh tables a list has left as many rows as its records have different
keys (`HoldsLast.length_eq`). So the number is that of the rows where no key comes twice, as with
the movies of an accepted dataset, and is too great by the repeated records everywhere else.
-/

set_option autoImplicit false
set_option relaxedAutoImplicit false

namespace FilmReport.Dataset

open Act Store World

variable {d : Dataset} {s : Store}

section lists

variable {α κ : Type} [DecidableEq κ] {key : α → κ} {records : List α} {t : Table}
  {row : α → t.Row}

/-- A table that holds the last record with each key has as many rows as there are keys. -/
theorem HoldsLast.length_eq (h : HoldsLast s t key row records)
    (hkeys : ∀ a b, row a = row b → key a = key b) :
    (s.rowsOf t).length = (records.map key).dedup.length := by
  let lasts : List (Option t.Row) :=
    (records.map key).dedup.map fun k => (lastOf key records k).map row
  have hlast : ∀ k ∈ (records.map key).dedup, ∃ a, lastOf key records k = some a ∧ key a = k := by
    intro k hk
    obtain ⟨a, ha, rfl⟩ := List.mem_map.1 (List.mem_dedup.1 hk)
    obtain ⟨b, hb⟩ : ∃ b, lastOf key records (key a) = some b := exists_lastOf ha
    exact ⟨b, hb, (mem_of_lastOf hb).2⟩
  have hnodup : lasts.Nodup := by
    refine (List.nodup_dedup _).map_on fun k hk l hl heq => ?_
    obtain ⟨a, ha, rfl⟩ := hlast k hk
    obtain ⟨b, hb, rfl⟩ := hlast l hl
    rw [ha, hb] at heq
    exact hkeys a b (Option.some.inj heq)
  have hmem : ∀ r, r ∈ (s.rowsOf t).map some ↔ r ∈ lasts := by
    intro r
    rw [List.mem_map, List.mem_map]
    constructor
    · rintro ⟨r, hr, rfl⟩
      obtain ⟨a, ha, rfl⟩ := (h.mem_iff r).1 hr
      refine ⟨key a, List.mem_dedup.2 (List.mem_map_of_mem (mem_of_lastOf ha).1), ?_⟩
      rw [ha]
      rfl
    · rintro ⟨k, hk, rfl⟩
      obtain ⟨a, ha, rfl⟩ := hlast k hk
      refine ⟨row a, (h.mem_iff _).2 ⟨a, ha, rfl⟩, ?_⟩
      rw [ha]
      rfl
  have hperm : ((s.rowsOf t).map some).Perm lasts :=
    (List.perm_ext_iff_of_nodup (h.nodup.map (Option.some_injective _)) hnodup).2 hmem
  calc (s.rowsOf t).length = ((s.rowsOf t).map some).length := (List.length_map _).symm
    _ = lasts.length := hperm.length_eq
    _ = (records.map key).dedup.length := List.length_map _

/-- What a tally tells of a list of records under a name, and what the table of the list holds. -/
structure Tallies {α κ : Type} [DecidableEq κ] (tally : Fields) (s : Store) (name : String)
    (t : Table) (key : α → κ) (records : List α) : Prop where
  told : tally.get? name = some (.ofNat records.length)
  /-- There is one row for each key of the records. -/
  held : (s.rowsOf t).length = (records.map key).dedup.length
  most : (s.rowsOf t).length ≤ records.length
  /-- The number that is told is that of the rows just if no key comes twice. -/
  exact_iff : records.length = (s.rowsOf t).length ↔ (records.map key).Nodup

theorem HoldsLast.tallies {tally : Fields} {name : String} (h : HoldsLast s t key row records)
    (hkeys : ∀ a b, row a = row b → key a = key b)
    (htold : tally.get? name = some (.ofNat records.length)) :
    Tallies tally s name t key records := by
  have hheld := h.length_eq hkeys
  have hsublist := List.dedup_sublist (records.map key)
  have hlength : (records.map key).length = records.length := List.length_map _
  refine ⟨htold, hheld, ?_, ?_⟩
  · rw [hheld, ← hlength]
    exact hsublist.length_le
  · rw [hheld, ← hlength, ← List.dedup_eq_self]
    exact ⟨fun heq => hsublist.eq_of_length heq.symm, fun heq => by rw [heq]⟩

end lists

/-- What the tally of a seeding tells of the tables after it. -/
structure IsTallied (d : Dataset) (tally : Fields) (s : Store) : Prop where
  /-- The movies are counted right. -/
  movies : tally.get? "moviesInserted" = some (.ofNat (s.rowsOf .movie).length)
  names : Tallies tally s "namesInserted" .names Name.id d.names
  genres : Tallies tally s "genresInserted" .genre (fun g => (g.movieId, g.genre)) d.genres
  directings : Tallies tally s "directorMappingsInserted" .directorMapping
    (fun x => (x.movieId, x.nameId)) d.directings
  castings : Tallies tally s "roleMappingsInserted" .roleMapping (fun c => (c.movieId, c.nameId))
    d.castings
  ratings : Tallies tally s "ratingsInserted" .ratings Rating.movieId d.ratings

theorem Holds.isTallied (h : Holds d s) (hd : Accepted d) : IsTallied d (counts d) s := by
  have hmovies : Tallies (counts d) s "moviesInserted" .movie Movie.id d.movies :=
    h.movies.tallies (fun a b heq => Option.some.inj (congrArg MovieRow.id heq)) rfl
  exact {
    movies := by rw [hmovies.told, hmovies.exact_iff.2 hd.identified]
    names := h.names.tallies (fun a b heq => Option.some.inj (congrArg NameRow.id heq)) rfl
    genres := h.genres.tallies
      (fun a b heq => congrArg (fun r : GenreRow => (r.movieId, r.genre)) heq) rfl
    directings := h.directings.tallies
      (fun a b heq => congrArg (fun r : DirectorRow => (r.movieId, r.nameId)) heq) rfl
    castings := h.castings.tallies
      (fun a b heq => congrArg (fun r : RoleRow => (r.movieId, r.nameId)) heq) rfl
    ratings := h.ratings.tallies
      (fun a b heq => Option.some.inj (congrArg RatingRow.movieId heq)) rfl }

/-- Where no records are given, a table without rows holds the last of them. -/
theorem holdsLast_nil {α κ : Type} [DecidableEq κ] {key : α → κ} {t : Table} {row : α → t.Row}
    (h : s.rowsOf t = []) : HoldsLast s t key row [] where
  nodup := h ▸ List.nodup_nil
  mem_iff r := by
    rw [h]
    constructor
    · exact fun hr => absurd hr List.not_mem_nil
    · rintro ⟨a, ha, -⟩
      cases ha

section seeding

variable {tally : Fields} {w w' : World}

theorem demands_write {kind : RowKind} {inputs : List Json} (hne : inputs ≠ []) :
    Demands (write kind inputs) :=
  fun _ w' _ h => (exists_on_write_iff.1 ⟨w', h, rfl⟩).2.1 hne

/-- A dataset with a record is seeded only where rows can be written. -/
theorem demands_seed {item : RowKind × List Fields} (hitem : item ∈ rowsOf d)
    (hne : item.2 ≠ []) : Demands (seed d) := by
  refine Demands.after orderly_prepare fun _ => Demands.inTransaction (Demands.andThen ?_ _) _
  refine Demands.forM hitem (fun other => (whole_writeCounted other.1 _ _).orderly) ?_
  exact demands_write (mt List.map_eq_nil_iff.1 hne)

theorem tally_of_on_seed (h : (seed d).on w = (.ok tally, w')) : tally = counts d := by
  obtain ⟨⟨⟩, u, -, hseed⟩ := on_bind_eq_ok.1 h
  obtain ⟨v, v', hwork, -, -⟩ := exists_on_of_inTransaction hseed
  obtain ⟨⟨⟩, x, -, hpure⟩ := on_bind_eq_ok.1 hwork
  exact (Except.ok.inj (Prod.mk.inj hpure).1).symm

/-- Fresh tables hold the last records of a dataset that was seeded, whatever the world: where no
rows can be written, there were none to write. -/
theorem holds_of_on_seed (hd : d.Keeps) (hfresh : w.data.IsFresh)
    (h : (seed d).on w = (.ok tally, w')) : Holds d w'.data := by
  by_cases hw : w.Ready
  · exact (seeds_of_on hd hw hfresh.migrated h).holds hfresh.rows
  · have hdata : w'.data = w.data := by
      have hidle := (whole_seed d).orderly.idle (w := w) trivial hw
      rwa [h] at hidle
    have hempty : ∀ item ∈ rowsOf d, item.2 = [] := fun item hitem =>
      not_not.1 fun hne => hw (demands_seed hitem hne w w' tally h)
    have hrows := hfresh.rows
    rw [← hdata] at hrows
    simp only [rowsOf, List.forall_mem_cons, List.map_eq_nil_iff] at hempty
    simp only [Migration.datasetTables, List.forall_mem_cons] at hrows
    obtain ⟨hmovies, hnames, hgenres, hdirectings, hcastings, hratings, -⟩ := hempty
    obtain ⟨hmovie, hname, hgenre, hdirecting, hcasting, hrating, -⟩ := hrows
    exact {
      movies := hmovies ▸ holdsLast_nil hmovie
      names := hnames ▸ holdsLast_nil hname
      genres := hgenres ▸ holdsLast_nil hgenre
      directings := hdirectings ▸ holdsLast_nil hdirecting
      castings := hcastings ▸ holdsLast_nil hcasting
      ratings := hratings ▸ holdsLast_nil hrating }

/-- The tally of an accepted dataset that was seeded into fresh tables has the number of records of
each list. That is the number of rows for the movies, and for another list just where no key comes
twice in it; the table has one row for each key. -/
theorem isTallied_of_on_seed {value : Option Json} {source : String}
    (hparse : parse value source = .ok d) (hfresh : w.data.IsFresh)
    (h : (seed d).on w = (.ok tally, w')) : IsTallied d tally w'.data := by
  obtain ⟨hmovies, hratings⟩ := keeps_of_parse hparse
  rw [tally_of_on_seed h]
  exact (holds_of_on_seed ⟨hmovies, hratings⟩ hfresh h).isTallied (accepted_of_parse hparse)

/-- A film, and a person, a genre, a directing, a part and a rating of it that are given twice. -/
def doubled : Json :=
  .object
    [("generatedAt", .string "2024-01-01T00:00:00.000Z"),
     ("movies", .array [.object [("id", .string "tt1"), ("title", .string "One")]]),
     ("names", .array (twice (.object [("id", .string "nm1"), ("name", .string "A")]))),
     ("genres", .array (twice (.object [("movieId", .string "tt1"), ("genre", .string "Drama")]))),
     ("directorMappings", .array
       (twice (.object [("movieId", .string "tt1"), ("nameId", .string "nm1")]))),
     ("roleMappings", .array (twice (.object
       [("movieId", .string "tt1"), ("nameId", .string "nm1"), ("category", .string "actor")]))),
     ("ratings", .array (twice (.object [("movieId", .string "tt1"), ("avgRating", .ofNat 7)])))]
where
  twice (record : Json) : List Json := [record, record]

/-- What is given twice is counted twice, and is one row. -/
theorem isTallied_of_on_seed_doubled : ∃ d tally w', parse (some doubled) "films.json" = .ok d ∧
    (inMemory blank []).data.IsFresh ∧ (seed d).on (inMemory blank []) = (.ok tally, w') ∧
    IsTallied d tally w'.data ∧
    tally.get? "genresInserted" = some (.ofNat 2) ∧ (w'.data.rowsOf .genre).length = 1 := by
  let d : Dataset :=
    { generatedAt := "2024-01-01T00:00:00.000Z"
      movies := [⟨"tt1", "One", none, none, none, none, none, none, none⟩]
      names := [⟨"nm1", "A", none, none, none⟩, ⟨"nm1", "A", none, none, none⟩]
      genres := [⟨"tt1", "Drama"⟩, ⟨"tt1", "Drama"⟩]
      directings := [⟨"tt1", "nm1"⟩, ⟨"tt1", "nm1"⟩]
      castings := [⟨"tt1", "nm1", .actor⟩, ⟨"tt1", "nm1", .actor⟩]
      ratings := [⟨"tt1", some 7, none, none⟩, ⟨"tt1", some 7, none, none⟩] }
  have hparse : parse (some doubled) "films.json" = .ok d :=
    Query.eq_ok_of_toOption (by decide +kernel)
  have hfresh : (inMemory blank []).data.IsFresh := ⟨isMigrated_blank, by decide⟩
  have hready : (inMemory blank []).Ready := ⟨rfl, rfl⟩
  have hmovie : d.HasMovie blank "tt1" := Or.inl ⟨_, List.mem_cons_self, rfl⟩
  have hname : d.HasName blank "nm1" := Or.inl ⟨_, List.mem_cons_self, rfl⟩
  have hresolved : d.IsResolved (inMemory blank []).data := by
    constructor <;> simp only [d, List.forall_mem_cons, List.not_mem_nil, false_implies,
      implies_true, and_true, and_self] <;> assumption
  obtain ⟨hmovies, hratings⟩ := keeps_of_parse hparse
  obtain ⟨tally, w', hseed⟩ :=
    (exists_on_seed_iff ⟨hmovies, hratings⟩ hready isMigrated_blank).2 hresolved
  have htallied := isTallied_of_on_seed hparse hfresh hseed
  refine ⟨d, tally, w', hparse, hfresh, hseed, htallied, ?_, ?_⟩
  · exact htallied.genres.told
  · exact htallied.genres.held.trans (by decide)

end seeding

end FilmReport.Dataset
