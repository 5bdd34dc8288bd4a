import FilmReport.Proofs.Dataset.Batch

/-!
Which datasets can be seeded. In a store after all migrations an accepted dataset is written just if
every movie and every name that one of its records refers to is in the dataset or stored; otherwise
the fault tells of the first list of records that refers to another one, and nothing is written.
-/

set_option autoImplicit false
set_option relaxedAutoImplicit false

namespace FilmReport.Dataset

open Act Store

section references

variable (d : Dataset) (s : Store)

/-- A movie of a dataset, or one that is stored. -/
def HasMovie (id : String) : Prop :=
  (∃ m ∈ d.movies, m.id = id) ∨ id ∈ s.identifiers .movie

/-- A name of a dataset, or one that is stored. -/
def HasName (id : String) : Prop :=
  (∃ n ∈ d.names, n.id = id) ∨ id ∈ s.identifiers .names

instance (id : String) : Decidable (d.HasMovie s id) :=
  inferInstanceAs (Decidable (_ ∨ _))

instance (id : String) : Decidable (d.HasName s id) :=
  inferInstanceAs (Decidable (_ ∨ _))

/-- Every record of a dataset refers to movies and names of the dataset or of the store. -/
structure IsResolved : Prop where
  genreMovies : ∀ g ∈ d.genres, d.HasMovie s g.movieId
  directingMovies : ∀ x ∈ d.directings, d.HasMovie s x.movieId
  directingNames : ∀ x ∈ d.directings, d.HasName s x.nameId
  castingMovies : ∀ c ∈ d.castings, d.HasMovie s c.movieId
  castingNames : ∀ c ∈ d.castings, d.HasName s c.nameId
  ratingMovies : ∀ r ∈ d.ratings, d.HasMovie s r.movieId

/-- The lists of records that refer to others, in the order in which they are written: their kind,
how many records they have, and whether a record refers to what is not there. -/
def referring : List (RowKind × Nat × Bool) :=
  [(.genres, d.genres.length, d.genres.any fun g => ¬ d.HasMovie s g.movieId),
   (.directings, d.directings.length,
     d.directings.any fun x => ¬ (d.HasMovie s x.movieId ∧ d.HasName s x.nameId)),
   (.castings, d.castings.length,
     d.castings.any fun c => ¬ (d.HasMovie s c.movieId ∧ d.HasName s c.nameId)),
   (.ratings, d.ratings.length, d.ratings.any fun r => ¬ d.HasMovie s r.movieId)]

/-- The kind and the length of the first list in which a record refers to what is not there. -/
def firstUnresolved? : Option (RowKind × Nat) :=
  ((d.referring s).find? fun list => list.2.2).map fun list => (list.1, list.2.1)

theorem isResolved_iff : d.IsResolved s ↔ ∀ list ∈ d.referring s, list.2.2 = false := by
  simp only [referring, List.forall_mem_cons, List.any_eq_false, decide_eq_true_eq, not_not]
  constructor
  · intro h
    exact ⟨h.genreMovies, fun x hx => ⟨h.directingMovies x hx, h.directingNames x hx⟩,
      fun c hc => ⟨h.castingMovies c hc, h.castingNames c hc⟩, h.ratingMovies,
      List.forall_mem_nil _⟩
  · rintro ⟨hgenres, hdirectings, hcastings, hratings, -⟩
    exact ⟨hgenres, fun x hx => (hdirectings x hx).1, fun x hx => (hdirectings x hx).2,
      fun c hc => (hcastings c hc).1, fun c hc => (hcastings c hc).2, hratings⟩

end references

section batches

variable {d : Dataset} {s s' t : Store}

/-- The batches to whose rows others refer. -/
def parents (d : Dataset) : List Batch :=
  [.ofRecords .movies Movie.fields Movie.row d.movies,
   .ofRecords .names Name.fields Name.row d.names]

/-- The batches whose rows refer to others. -/
def children (d : Dataset) : List Batch :=
  [.ofRecords .genres Genre.fields Genre.row d.genres,
   .ofRecords .directings Directing.fields Directing.row d.directings,
   .ofRecords .castings Casting.fields Casting.row d.castings,
   .ofRecords .ratings Rating.fields Rating.row d.ratings]

/-- An accepted dataset. -/
structure Keeps (d : Dataset) : Prop where
  movies : ∀ m ∈ d.movies, m.Keeps
  ratings : ∀ r ∈ d.ratings, r.Keeps

theorem Keeps.isGiven_movies (hd : d.Keeps) :
    (Batch.ofRecords .movies Movie.fields Movie.row d.movies).IsGiven :=
  Batch.isGiven_ofRecords ⟨_, .head _⟩ fun m hm => gives_movie (hd.movies m hm)

theorem isGiven_names (names : List Name) :
    (Batch.ofRecords .names Name.fields Name.row names).IsGiven :=
  Batch.isGiven_ofRecords ⟨_, .tail _ (.head _)⟩ fun n _ => gives_name n

theorem Keeps.children (hd : d.Keeps) : ∀ b ∈ children d, b.IsGiven ∧ b.IsLeaf := by
  refine List.forall_mem_cons.2 ⟨⟨?_, fun _ => rfl⟩, List.forall_mem_cons.2 ⟨⟨?_, fun _ => rfl⟩,
    List.forall_mem_cons.2 ⟨⟨?_, fun _ => rfl⟩, List.forall_mem_singleton.2 ⟨?_, fun _ => rfl⟩⟩⟩⟩
  · exact Batch.isGiven_ofRecords ⟨_, .tail _ (.tail _ (.head _))⟩ fun g _ => gives_genre g
  · exact Batch.isGiven_ofRecords ⟨_, .tail _ (.tail _ (.tail _ (.head _)))⟩
      fun x _ => gives_directing x
  · exact Batch.isGiven_ofRecords ⟨_, .tail _ (.tail _ (.tail _ (.tail _ (.head _))))⟩
      fun c _ => gives_casting c
  · exact Batch.isGiven_ofRecords ⟨_, .tail _ (.tail _ (.tail _ (.tail _ (.tail _ (.head _)))))⟩
      fun r hr => gives_rating (hd.ratings r hr)

theorem exists_parents (hd : d.Keeps) (hs : s.IsMigrated) :
    ∃ t, Computes.Chain Batch.Writes (parents d) s t := by
  obtain ⟨t, ht⟩ := (Batch.exists_writes_iff hd.isGiven_movies hs).2
    (List.all_eq_true.2 fun _ _ => rfl)
  obtain ⟨htmigrated, -⟩ := Batch.of_writes hd.isGiven_movies hs ht
  obtain ⟨u, hu⟩ := (Batch.exists_writes_iff (isGiven_names d.names) htmigrated).2
    (List.all_eq_true.2 fun _ _ => rfl)
  exact ⟨u, t, ht, u, hu, rfl⟩

/-- After the movies and the names of a dataset were written, those of the dataset and those that
were stored are there. -/
theorem of_parents (hd : d.Keeps) (hs : s.IsMigrated)
    (h : Computes.Chain Batch.Writes (parents d) s t) :
    t.IsMigrated ∧ (∀ id, id ∈ t.identifiers .movie ↔ d.HasMovie s id) ∧
      ∀ id, id ∈ t.identifiers .names ↔ d.HasName s id := by
  obtain ⟨u, hu, v, hv, rfl⟩ := h
  obtain ⟨humigrated, huids⟩ := Batch.of_writes_ofRecords hd.isGiven_movies hs hu
  obtain ⟨hmigrated, hids⟩ := Batch.of_writes_ofRecords (isGiven_names d.names) humigrated hv
  replace huids : ∀ p id, id ∈ u.identifiers p ↔
      id ∈ s.identifiers p ∨ p = .movie ∧ ∃ m ∈ d.movies, some m.id = some id := huids
  replace hids : ∀ p id, id ∈ t.identifiers p ↔
      id ∈ u.identifiers p ∨ p = .names ∧ ∃ n ∈ d.names, some n.id = some id := hids
  refine ⟨hmigrated, fun id => ?_, fun id => ?_⟩
  · simp [hids, huids, HasMovie, or_comm]
  · simp [hids, huids, HasName, or_comm]

theorem listed_ofRecords {α : Type} (kind : RowKind) {fields : α → Fields}
    {row : α → kind.table.Row} {records : List α} {P : α → Prop} [DecidablePred P]
    (h : ∀ r, t.referencesHold kind.table (row r) = true ↔ P r) :
    (kind, records.length, records.any fun r => ¬ P r) =
      (kind, (Batch.ofRecords kind fields row records).inputs.length,
        !(Batch.ofRecords kind fields row records).holds t) := by
  have hholds : ∀ r, t.referencesHold kind.table (row r) = decide (P r) := fun r => by
    rw [Bool.eq_iff_iff, h, decide_eq_true_eq]
  simp [Batch.length_ofRecords, Batch.holds_ofRecords, hholds, List.not_all_eq_any_not]

theorem referring_eq (hmovies : ∀ id, id ∈ t.identifiers .movie ↔ d.HasMovie s id)
    (hnames : ∀ id, id ∈ t.identifiers .names ↔ d.HasName s id) :
    d.referring s = (children d).map fun b => (b.kind, b.inputs.length, !b.holds t) := by
  have hgenre (g : Genre) : t.referencesHold .genre g.row = true ↔ d.HasMovie s g.movieId := by
    simp [referencesHold_iff, layout, genreLayout, movieReference, Genre.row, hmovies]
  have hdirecting (x : Directing) : t.referencesHold .directorMapping x.row = true ↔
      d.HasMovie s x.movieId ∧ d.HasName s x.nameId := by
    simp [referencesHold_iff, layout, directorLayout, movieReference, nameReference,
      Directing.row, hmovies, hnames, and_comm]
  have hcasting (c : Casting) : t.referencesHold .roleMapping c.row = true ↔
      d.HasMovie s c.movieId ∧ d.HasName s c.nameId := by
    simp [referencesHold_iff, layout, roleLayout, movieReference, nameReference, Casting.row,
      hmovies, hnames, and_comm]
  have hrating (r : Rating) : t.referencesHold .ratings r.row = true ↔
      d.HasMovie s r.movieId := by
    simp [referencesHold_iff, layout, ratingLayout, movieReference, Rating.row, hmovies]
  exact congrArg₂ List.cons (listed_ofRecords .genres hgenre) <|
    congrArg₂ List.cons (listed_ofRecords .directings hdirecting) <|
    congrArg₂ List.cons (listed_ofRecords .castings hcasting) <|
    congrArg₂ List.cons (listed_ofRecords .ratings hrating) rfl

theorem ready_of_isMigrated (hs : s.IsMigrated) : ready s = .ok () := by
  have hrows : ∀ tables : List Table,
      (tables.forM fun t => (s.rows? t).map fun _ => ()) = .ok () := by
    intro tables
    induction tables with
    | nil => rfl
    | cons t rest ih =>
      obtain ⟨rows, hget⟩ := hs.exists_get t
      change ((s.rows? t).map (fun _ => ()) >>= fun _ => _) = _
      rw [rows?_eq_ok.2 ⟨rows, hget, rfl⟩]
      exact ih
  rw [ready, hrows, hs.hasAmount]
  exact hrows _

theorem computes_prepare : Computes prepare fun s _ s' => ready s = .ok () ∧ s' = s := by
  refine ((Computes.peek ready).bind fun _ => Computes.prepareTransactions).of_iff fun s _ s' => ?_
  constructor
  · rintro ⟨⟨⟩, t, ⟨hready, rfl⟩, rfl⟩
    exact ⟨hready, rfl⟩
  · rintro ⟨hready, rfl⟩
    exact ⟨(), s', ⟨hready, rfl⟩, rfl⟩

theorem seed_eq (d : Dataset) : seed d = (do
    prepare
    Act.inTransaction "dataset.seed" do
      (parents d).forM fun b => write b.kind b.inputs
      (children d).forM fun b => write b.kind b.inputs
      pure (counts d)) := by
  have hseed : seed d = (do
      prepare
      Act.inTransaction "dataset.seed" do
        (parents d ++ children d).forM fun b => write b.kind b.inputs
        pure (counts d)) := rfl
  have happend : ((parents d ++ children d).forM fun b => write b.kind b.inputs) = (do
      (parents d).forM fun b => write b.kind b.inputs
      (children d).forM fun b => write b.kind b.inputs) := List.forM_append
  rw [hseed, happend, bind_assoc]

theorem computes_seed (d : Dataset) : Computes (seed d) fun s a s' => ready s = .ok () ∧
    a = counts d ∧ ∃ t, Computes.Chain Batch.Writes (parents d) s t ∧
      Computes.Chain Batch.Writes (children d) t s' := by
  rw [seed_eq]
  refine (computes_prepare.bind fun _ => ((computes_batches (parents d)).bind fun _ =>
    (computes_batches (children d)).bind fun _ => Computes.pure (counts d)).inTransaction
      "dataset.seed").of_iff fun s a s' => ?_
  constructor
  · rintro ⟨⟨⟩, _, ⟨hready, rfl⟩, ⟨⟩, t, ht, ⟨⟩, u, hu, rfl, rfl⟩
    exact ⟨hready, rfl, t, ht, hu⟩
  · rintro ⟨hready, rfl, t, ht, hs'⟩
    exact ⟨⟨⟩, s, ⟨hready, rfl⟩, ⟨⟩, t, ht, ⟨⟩, s', hs', rfl, rfl⟩

/-- A seeding that fails reports the first list in which a record refers to what is not there. -/
theorem exists_of_on_seed_error (hd : d.Keeps) {w w' : World} (hw : w.Ready)
    (hs : w.data.IsMigrated) {e : Failure} (h : (seed d).on w = (.error e, w')) :
    ∃ kind n cause, d.firstUnresolved? w.data = some (kind, n) ∧
      e = .fault (writeFault kind (some (.ofNat n)) cause) := by
  rw [seed_eq] at h
  obtain ⟨v, hprepare, hv, hcontinues⟩ :=
    computes_prepare.exists_on (a := ()) hw ⟨ready_of_isMigrated hs, rfl⟩
  rw [on_bind_of_ok hprepare] at h
  have hready := hcontinues.ready.2 hw
  have horderly : Orderly (do
      (parents d).forM fun b => write b.kind b.inputs
      (children d).forM fun b => write b.kind b.inputs
      pure (counts d)) :=
    (computes_batches _).orderly.andThen fun _ => (computes_batches _).orderly.andThen fun _ =>
      OrderlyFrom.pure _
  obtain ⟨u, u', e', hwork, hu, huready, hfault⟩ :=
    exists_on_of_inTransaction_error horderly hready.isOpen h
  replace hu : u.data = w.data := hu.trans hv
  replace huready := huready.2 hready
  -- The movies and names are written, whatever else there is.
  obtain ⟨t, ht⟩ := exists_parents hd hs
  obtain ⟨x, hparents, rfl, hcontinues⟩ :=
    (computes_batches (parents d)).exists_on (a := ⟨⟩) huready (hu ▸ ht)
  obtain ⟨hmigrated, hmovies, hnames⟩ := of_parents hd hs ht
  rw [on_bind_of_ok hparents] at hwork
  obtain hwork | ⟨_, _, -, hpure⟩ := on_bind_eq_error.1 hwork
  · obtain ⟨b, cause, hfind, rfl⟩ := exists_of_on_batches_error hd.children
      (hcontinues.ready.2 huready) hmigrated hwork
    refine ⟨b.kind, b.inputs.length, cause, ?_, hfault _ rfl⟩
    rw [firstUnresolved?, referring_eq hmovies hnames, List.find?_map]
    simp only [Function.comp_def, hfind, Option.map_some]
  · cases (Prod.mk.inj hpure).1

/-- A dataset is written just if all its records refer to what is there. -/
theorem exists_on_seed_iff (hd : d.Keeps) {w : World} (hw : w.Ready) (hs : w.data.IsMigrated) :
    (∃ tally w', (seed d).on w = (.ok tally, w')) ↔ d.IsResolved w.data := by
  have hresolved : ∀ t, Computes.Chain Batch.Writes (parents d) w.data t →
      (d.IsResolved w.data ↔ ∀ b ∈ children d, b.holds t = true) := by
    intro t ht
    obtain ⟨-, hmovies, hnames⟩ := of_parents hd hs ht
    rw [isResolved_iff, referring_eq hmovies hnames]
    simp
  constructor
  · rintro ⟨tally, w', hon⟩
    obtain ⟨-, -, t, ht, hchildren⟩ := (computes_seed d).of_on hw hon
    obtain ⟨hmigrated, -⟩ := of_parents hd hs ht
    exact (hresolved t ht).2 (Batch.of_chain hd.children hmigrated hchildren).2.2
  · intro h
    obtain ⟨t, ht⟩ := exists_parents hd hs
    obtain ⟨hmigrated, -⟩ := of_parents hd hs ht
    obtain ⟨s', hchildren⟩ := Batch.exists_chain hd.children hmigrated ((hresolved t ht).1 h)
    obtain ⟨w', hon, -⟩ := (computes_seed d).exists_on hw
      ⟨ready_of_isMigrated hs, rfl, t, ht, hchildren⟩
    exact ⟨counts d, w', hon⟩

end batches

/-- In a store after all migrations an accepted dataset is seeded just if all its records refer to
movies and names that it has itself or that are stored; otherwise the fault names the table and the
length of the first list with a record that does not, and the data stay as they were. -/
theorem on_seed_of_parse {value : Option Json} {source : String} {d : Dataset} {w : World}
    (hparse : parse value source = .ok d) (hw : w.Ready) (hs : w.data.IsMigrated) :
    ((∃ tally w', (seed d).on w = (.ok tally, w')) ↔ d.IsResolved w.data) ∧
      (¬ d.IsResolved w.data → ∃ kind n f w', d.firstUnresolved? w.data = some (kind, n) ∧
        (seed d).on w = (.error (.fault f), w') ∧ f.code = .datasetWriteFailed ∧
        f.context = [("table", .string kind.table.name), ("items", .ofNat n)] ∧
        w'.data = w.data ∧ w'.savepoints = w.savepoints) := by
  obtain ⟨hmovies, hratings⟩ := keeps_of_parse hparse
  have hiff := exists_on_seed_iff ⟨hmovies, hratings⟩ hw hs
  refine ⟨hiff, fun hnot => ?_⟩
  rcases hon : (seed d).on w with ⟨e | tally, w'⟩
  · obtain ⟨kind, n, cause, hfirst, rfl⟩ := exists_of_on_seed_error ⟨hmovies, hratings⟩ hw hs hon
    exact ⟨kind, n, _, w', hfirst, rfl, rfl, rfl, (whole_seed d).undone hon,
      ((whole_seed d).orderly.continues_of_on hon).savepoints⟩
  · exact absurd (hiff.1 ⟨tally, w', hon⟩) hnot

/-- A film whose director is no name of the file. -/
def undirected : Json :=
  .object
    [("generatedAt", .string "2024-01-01T00:00:00.000Z"),
     ("movies", .array [.object
       [("id", .string "tt1"), ("title", .string "One"), ("year", .null), ("datePublished", .null),
        ("duration", .ofNat 90), ("country", .null), ("worldwideGrossIncome", .null),
        ("languages", .null), ("productionCompany", .null)]]),
     ("genres", .array [.object [("movieId", .string "tt1"), ("genre", .string "Drama")]]),
     ("directorMappings", .array
       [.object [("movieId", .string "tt1"), ("nameId", .string "nm1")]])]

theorem on_seed_undirected : ∃ d, parse (some undirected) "films.json" = .ok d ∧
    (World.inMemory blank []).Ready ∧ blank.IsMigrated ∧ ∃ f w',
      (seed d).on (World.inMemory blank []) = (.error (.fault f), w') ∧
      f.code = .datasetWriteFailed ∧
      f.context = [("table", .string "director_mapping"), ("items", .ofNat 1)] ∧
      w'.data = blank := by
  let d : Dataset :=
    { generatedAt := "2024-01-01T00:00:00.000Z"
      movies := [⟨"tt1", "One", none, none, some 90, none, none, none, none⟩]
      names := [], genres := [⟨"tt1", "Drama"⟩], directings := [⟨"tt1", "nm1"⟩], castings := []
      ratings := [] }
  have hparse : parse (some undirected) "films.json" = .ok d := by
    have hsome : (parse (some undirected) "films.json").toOption = some d := by decide +kernel
    rcases hparsed : parse (some undirected) "films.json" with f | d' <;> rw [hparsed] at hsome
    · cases hsome
    · rw [Option.some.inj hsome]
  have hready : (World.inMemory blank []).Ready := ⟨rfl, rfl⟩
  have hnot : ¬ d.IsResolved blank := fun h =>
    absurd (h.directingNames ⟨"tt1", "nm1"⟩ List.mem_cons_self) (by decide)
  obtain ⟨kind, n, f, w', hfirst, hon, hcode, hcontext, hdata, -⟩ :=
    (on_seed_of_parse hparse hready isMigrated_blank).2 hnot
  have hlist : d.firstUnresolved? (World.inMemory blank []).data = some (.directings, 1) := rfl
  rw [hlist] at hfirst
  obtain ⟨rfl, rfl⟩ := Prod.mk.inj (Option.some.inj hfirst)
  exact ⟨d, hparse, hready, isMigrated_blank, f, w', hon, hcode, hcontext, hdata⟩

end FilmReport.Dataset
