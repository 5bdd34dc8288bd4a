import FilmReport.Proofs.Operation.Course
import FilmReport.Proofs.Query.Catalog.AboveAverage

/-!
The queries that count all rows of a table by group. However a database was brought into its state,
the numbers of the groups add up to the number of the rows, as no group is lost and no row counts
twice, and the share of a genre is that of some of the movies (`CountsRows`).
-/

set_option autoImplicit false
set_option relaxedAutoImplicit false

namespace FilmReport

namespace Query

open Store

section Shares

open Binary64

variable {a b : ℚ}

/-- The hundredfold of a number, divided by one that is not less, is rounded twice on the way. -/
theorem exists_hundredfold (ha : 1 ≤ a) (hab : a ≤ b) (hb : b ≤ 2 ^ (1016 : ℤ)) :
    ∃ c d : ℚ, Binary64.round (a * 100) = finite c ∧ Binary64.round (c / b) = finite d ∧ 0 ≤ d ∧
      d ≤ 100 + 1 / 256 := by
  have hbpos : 0 < b := zero_lt_one.trans_le (ha.trans hab)
  have hproduct := RoundsTo.of_pos (q := a * 100) (by positivity) (by
    calc a * 100 ≤ 2 ^ (1016 : ℤ) * 2 ^ (7 : ℤ) :=
          mul_le_mul (hab.trans hb) (by norm_num) (by norm_num) (two_zpow_pos _).le
      _ = 2 ^ (1023 : ℤ) := two_zpow_mul _ _)
  have hone : (2 : ℚ) ^ (0 : ℤ) ≤ magnitude (a * 100) :=
    two_zpow_le_magnitude (by decide) (by norm_num; linarith)
  have herror := (abs_le.1 hproduct.error).2
  rw [abs_of_pos (show (0 : ℚ) < a * 100 by positivity)] at herror
  have hless : (2 : ℚ) ^ (-1075 : ℤ) ≤ 2 ^ (-53 : ℤ) := two_zpow_le (by decide)
  have hsize : magnitude (a * 100) / b ≤ 100 + 1 / 256 := by
    rw [div_le_iff₀ hbpos]
    generalize (2 : ℚ) ^ (-1075 : ℤ) = e at herror hless
    norm_num at herror hless ⊢
    linarith
  have hquotient := RoundsTo.of_pos (q := magnitude (a * 100) / b)
    (div_pos (lt_of_lt_of_le (two_zpow_pos 0) hone) hbpos)
    (hsize.trans
      ((by norm_num : (100 + 1 / 256 : ℚ) ≤ 2 ^ (7 : ℤ)).trans (two_zpow_le (by decide))))
  have hlimit : Binary64.round (100 + 1 / 256) = finite (100 + 1 / 256) := by decide +kernel
  exact ⟨_, _, hproduct.round, hquotient.round, magnitude_nonneg _,
    le_of_round hquotient.round hlimit hsize⟩

/-- The share of a part in a whole is a number from zero to a hundred, where the whole is within the
range of numbers. -/
theorem exists_share {n m : Nat} (hn : 0 < n) (hnm : n ≤ m) (hm : m ≤ 2 ^ 1016) :
    ∃ q : ℚ, rounded 2 (percentage (.int n) (.int m)) = .real (finite q) ∧ 0 ≤ q ∧ q ≤ 100 := by
  have hone : (1 : ℚ) ≤ n := by exact_mod_cast hn
  have hle : (n : ℚ) ≤ m := by exact_mod_cast hnm
  have hsize : (m : ℚ) ≤ 2 ^ (1016 : ℤ) := by exact_mod_cast hm
  have hpos : (0 : ℚ) < n := zero_lt_one.trans_le hone
  have hrange : (2 : ℚ) ^ (1016 : ℤ) ≤ 2 ^ (1023 : ℤ) := two_zpow_le (by decide)
  have hpart := (RoundsTo.of_pos hpos (hle.trans (hsize.trans hrange))).round
  have hwhole := (RoundsTo.of_pos (hpos.trans_le hle) (hsize.trans hrange)).round
  have hpartOne : (1 : ℚ) ≤ magnitude n := by
    simpa using two_zpow_le_magnitude (k := 0) (by decide) (by simpa using hone)
  have hordered : magnitude (n : ℚ) ≤ magnitude m := magnitude_mono hpos hle
  obtain ⟨c, d, hc, hd, hnonneg, hhigh⟩ := exists_hundredfold hpartOne hordered
    (magnitude_le (hpos.trans_le hle) (by decide)
      (hsize.trans (le_add_of_nonneg_right (two_zpow_pos _).le)))
  have hwholePos : magnitude (m : ℚ) ≠ 0 := (zero_lt_one.trans_le (hpartOne.trans hordered)).ne'
  have hhundred : Binary64.ofInt 100 = finite 100 := by decide +kernel
  have hcell : ∀ k : ℕ, (Cell.int k).toReal = Binary64.round (k : ℚ) := by
    intro k
    rw [Cell.toReal, ofInt, Int.cast_natCast]
  have hshare : percentage (.int n) (.int m) = .real (finite d) := by
    rw [percentage, hcell, hpart, hhundred, mul, hc, ofNumber, quotient, hcell, hwhole]
    · rw [if_neg (by simpa using hwholePos), Cell.toReal, div, if_neg hwholePos, hd, ofNumber]
      simp
    all_goals simp
  have hdround := round_of_round hd
  obtain ⟨v, hv, hrounded⟩ := exists_rounded (show 2 ≤ 4 by decide) hdround
  have hlimit : roundPlaces 2 (finite (100 + 1 / 256)) = finite 100 := by decide +kernel
  refine ⟨v, hshare ▸ hrounded, roundPlaces_nonneg (by decide) hnonneg hdround hv, ?_⟩
  exact roundPlaces_mono (by decide) hdround (by decide +kernel) hv hlimit hhigh

end Shares

section Rows

variable {ρ κ : Type} [DecidableEq κ] {code : κ → List Cell} {s : Store}

/-- Counts can be printed if the names that come can be, and the numbers of these. -/
theorem Counts.printable {names : List κ} {entries : List (κ × Nat)} (h : Counts names entries)
    {cells : κ × Nat → List Cell}
    (hcells : ∀ k ∈ names, ∀ c ∈ cells (k, names.count k), c.IsPrintable) :
    Printable (entries.map cells) := by
  rw [Printable, List.forall_mem_map]
  rintro ⟨k, n⟩ hentry
  obtain ⟨rfl, hpos⟩ := (h.mem k n).1 hentry
  exact hcells k (List.count_pos_iff.1 hpos)

/-- A number within bounds is finite. -/
theorem isPrintable_of_bounds {c : Cell} {m n : Int} (hfrom : c.IsFrom m) (hupTo : c.IsUpTo n) :
    c.IsPrintable := by
  rcases c with _ | k | (q | (_ | _) | _) | t
  case real.finite => rfl
  all_goals trivial

/-- Each directing is that of one person. -/
theorem length_directedBy (h : s.Intact) :
    (directedBy s).length = (s.rowsOf .directorMapping).length := by
  refine length_join fun d hd => ?_
  obtain ⟨n, hn, hid⟩ := List.mem_filterMap.1 (h.directingNames d hd)
  have hone := List.count_eq_one_of_mem h.nameIds (List.mem_map.2 ⟨n, hn, hid⟩)
  rw [List.count, List.countP_map] at hone
  rw [← hone]
  exact List.countP_congr fun x _ => by simp

/-- A genre is one of each movie at most. -/
theorem count_genre_le (h : s.Intact) (genre : String) :
    ((s.rowsOf .genre).map (·.genre)).count genre ≤ (s.rowsOf .movie).length := by
  let movies := ((s.rowsOf .genre).filter fun g => g.genre = genre).map (·.movieId)
  have hpairs : movies.map (fun id => (id, genre)) =
      ((s.rowsOf .genre).filter fun g => g.genre = genre).map fun g => (g.movieId, g.genre) := by
    rw [List.map_map]
    refine List.map_congr_left fun g hg => ?_
    rw [Function.comp_apply, of_decide_eq_true (List.mem_filter.1 hg).2]
  have hmovies : movies.Nodup := by
    have hnodup : (movies.map fun id => (id, genre)).Nodup :=
      hpairs ▸ h.genres.sublist (List.filter_sublist.map _)
    exact hnodup.of_map
  have hsubset : movies ⊆ s.identifiers .movie := by
    intro id hid
    obtain ⟨g, hg, rfl⟩ := List.mem_map.1 hid
    exact h.genreMovies g (List.mem_of_mem_filter hg)
  calc ((s.rowsOf .genre).map (·.genre)).count genre = movies.length := by
        rw [← countP_eq_count, List.countP_eq_length_filter, List.length_map]
    _ ≤ (s.identifiers .movie).length := (hmovies.subperm hsubset).length_le
    _ ≤ (s.rowsOf .movie).length := List.length_filterMap_le _ _

/-- A query of sorted groups, each with a total of the number of its rows. -/
theorem exists_reported {d : Definition} (hd : d ∈ catalog) {w : World} (hw : w.obstacle = none)
    (hprepare : d.statement.prepare w.data = .ok ()) (key : ρ → List Cell) (name : ρ → κ)
    (hcode : code.Injective) (hkey : ∀ x, normalKey key x = code (name x)) (total : Nat → Cell)
    (order : List By) {items : List ρ}
    (hrows : ∀ p, d.statement.rows p w.data =
      (sortBy order (grouped key (fun part => [total part.length]) items)).map (List.map .cell))
    (hlength : ∀ k, (code k).length + 1 ≤ d.statement.columns.length) :
    ∃ entries, Counts (items.map name) entries ∧
      d.Reports w (entries.map fun entry => code entry.1 ++ [total entry.2]) := by
  obtain ⟨entries, hcounts, hentries⟩ := exists_counts key name hcode hkey total order items
  refine ⟨entries, hcounts, reports_of_prepare hd hw hprepare (hentries ▸ hrows) ?_⟩
  rw [List.forall_mem_map]
  intro entry _
  rw [List.length_append]
  exact hlength entry.1

end Rows

/-- The share of some number of movies in all. -/
def shareOf (s : Store) (n : Nat) : Cell :=
  rounded 2 (percentage (.int n) (count (s.rowsOf .movie)))

theorem rows_shares (p : Params) (s : Store) : Genres.shares.statement.rows p s =
    (sortBy [.down 1, .up 0] (grouped (fun g => [.text g.genre])
      (fun gs => [shareOf s gs.length]) (s.rowsOf .genre))).map (List.map .cell) :=
  rfl

/-- What the counting queries report in a world, wherever their tables are there: numbers that add
up to those of the rows, and shares of numbers that are none of zero movies. -/
structure CountsRows (w : World) : Prop where
  years : Movies.countByYear.statement.prepare w.data = .ok () →
    ∃ entries : List (Cell × Nat),
      Counts ((w.data.rowsOf .movie).map (·.year.normal)) entries ∧
      (entries.map Prod.snd).sum = (w.data.rowsOf .movie).length ∧
      Movies.countByYear.Reports w (entries.map fun entry => [entry.1, .int entry.2]) ∧
      ((∀ m ∈ w.data.rowsOf .movie, m.year.IsPrintable) →
        Printable (entries.map fun entry => [entry.1, .int entry.2]))
  ratings : Movies.countByRating.statement.prepare w.data = .ok () →
    ∃ entries : List (Cell × Nat),
      Counts ((w.data.rowsOf .ratings).map (·.avgRating.normal)) entries ∧
      (entries.map Prod.snd).sum = (w.data.rowsOf .ratings).length ∧
      Movies.countByRating.Reports w (entries.map fun entry => [entry.1, .int entry.2]) ∧
      Printable (entries.map fun entry => [entry.1, .int entry.2])
  directings : People.moviesByDirector.statement.prepare w.data = .ok () →
    ∃ entries : List (String × Nat),
      Counts ((directedBy w.data).map (·.2.name)) entries ∧
      (entries.map Prod.snd).sum = (w.data.rowsOf .directorMapping).length ∧
      People.moviesByDirector.Reports w (entries.map fun entry => [.text entry.1, .int entry.2]) ∧
      Printable (entries.map fun entry => [.text entry.1, .int entry.2])
  shares : Genres.shares.statement.prepare w.data = .ok () →
    ∃ entries : List (String × Nat),
      Counts ((w.data.rowsOf .genre).map (·.genre)) entries ∧
      (∀ entry ∈ entries, 1 ≤ entry.2 ∧ entry.2 ≤ (w.data.rowsOf .movie).length) ∧
      Genres.shares.Reports w (entries.map fun entry => [.text entry.1, shareOf w.data entry.2]) ∧
      ((w.data.rowsOf .movie).length ≤ 2 ^ 1016 →
        Printable (entries.map fun entry => [.text entry.1, shareOf w.data entry.2]))
  /-- No store has so many rows that their number would leave the range of the format. -/
  bounded : (w.data.rowsOf .movie).length ≤ 2 ^ 1016 →
    ∀ n, 1 ≤ n → n ≤ (w.data.rowsOf .movie).length → ∃ q : ℚ,
      shareOf w.data n = .real (.finite q) ∧ 0 ≤ q ∧ q ≤ 100

theorem countsRows {w : World} (hw : w.obstacle = none) (h : w.data.Intact) : CountsRows w where
  years hprepare := by
    obtain ⟨entries, hcounts, hreports⟩ := exists_reported (d := Movies.countByYear)
      (by simp [catalog]) hw hprepare (fun m : MovieRow => [m.year]) (·.year.normal)
      List.singleton_injective (fun _ => rfl) (fun n => .int n) [.up 0] (fun _ => rfl)
      fun _ => le_rfl
    refine ⟨entries, hcounts, hcounts.total.trans (List.length_map _), hreports, fun hyears => ?_⟩
    refine hcounts.printable (List.forall_mem_map.2 fun m hm => ?_)
    simp [(hyears m hm).normal]
  ratings hprepare := by
    obtain ⟨entries, hcounts, hreports⟩ := exists_reported (d := Movies.countByRating)
      (by simp [catalog]) hw hprepare (fun r : RatingRow => [r.avgRating]) (·.avgRating.normal)
      List.singleton_injective (fun _ => rfl) (fun n => .int n) [.down 0] (fun _ => rfl)
      fun _ => le_rfl
    refine ⟨entries, hcounts, hcounts.total.trans (List.length_map _), hreports, ?_⟩
    refine hcounts.printable (List.forall_mem_map.2 fun r hr => ?_)
    simp [(isPrintable_of_bounds (h.averages r hr).1 (h.averages r hr).2).normal]
  directings hprepare := by
    obtain ⟨entries, hcounts, hreports⟩ := exists_reported (d := People.moviesByDirector)
      (by simp [catalog]) hw hprepare personName (fun x : DirectorRow × NameRow => x.2.name)
      (List.singleton_injective.comp fun _ _ => Cell.text.inj) (fun _ => rfl) (fun n => .int n)
      [.down 1, .up 0] (fun _ => rfl) fun _ => le_rfl
    refine ⟨entries, hcounts, hcounts.total.trans ?_, hreports, hcounts.printable (by simp)⟩
    rw [List.length_map, length_directedBy h]
  shares hprepare := by
    obtain ⟨entries, hcounts, hreports⟩ := exists_reported (d := Genres.shares)
      (by simp [catalog]) hw hprepare (fun g : GenreRow => [.text g.genre]) (·.genre)
      (List.singleton_injective.comp fun _ _ => Cell.text.inj) (fun _ => rfl)
      (shareOf w.data) [.down 1, .up 0] (fun p => rows_shares p w.data) fun _ => le_rfl
    refine ⟨entries, hcounts, fun entry hentry => ?_, hreports, fun hsize => ?_⟩
    · obtain ⟨hnumber, hpos⟩ := (hcounts.mem entry.1 entry.2).1 hentry
      exact ⟨hpos, hnumber ▸ count_genre_le h entry.1⟩
    · refine hcounts.printable fun genre hgenre => ?_
      obtain ⟨q, hq, -⟩ :=
        exists_share (List.count_pos_iff.2 hgenre) (count_genre_le h genre) hsize
      have hshare : (shareOf w.data
          (((w.data.rowsOf .genre).map (·.genre)).count genre)).IsPrintable := by
        rw [shareOf, count, hq]
        rfl
      simp [hshare]
  bounded hsize n hn hle := exists_share hn hle hsize

/-- However a database was brought into its state, by migrations, seeds, writes, runs and deletions
within transactions or without, the counting queries lose no row and count none twice. -/
theorem countsRows_of_mem_visited {course : Course} (h : course.IsDeclared) {w : World}
    (hempty : w.data = .empty) (houtside : w.savepoints = none) {v : World}
    (hv : v ∈ course.visited w) (hopen : v.obstacle = none) : CountsRows v :=
  countsRows hopen (Course.lawful_of_mem_visited h hempty houtside hv).intact

/-- Two films of one genre, director and year, of which one is deleted. -/
def oneLeft : Course :=
  .migrate [some ⟨0⟩] <|
  .nested "seed"
    (.call ⟨.operation (.seed
      { generatedAt := ""
        movies := [⟨"tt1", "One", some 2001, none, none, none, none, none, none⟩,
          ⟨"tt2", "Two", some 2001, none, none, none, none, none, none⟩]
        names := [⟨"nm1", "Lee", none, none, none⟩]
        genres := [⟨"tt1", "Drama"⟩, ⟨"tt2", "Drama"⟩]
        directings := [⟨"tt1", "nm1"⟩, ⟨"tt2", "nm1"⟩], castings := []
        ratings := [⟨"tt1", some 7, none, none⟩, ⟨"tt2", none, none, none⟩] }), []⟩ .done)
    (.returns ()) <|
  .call ⟨.delete .movie "id" (.text "tt2"), []⟩ .done

theorem countsRows_of_oneLeft :
    ∃ v ∈ oneLeft.visited (World.inMemory .empty []), CountsRows v ∧
      (v.data.rowsOf .movie).length = 1 ∧ (v.data.rowsOf .ratings).length = 1 ∧
      (v.data.rowsOf .directorMapping).length = 1 ∧
      ∃ entries : List (String × Nat), ("Drama", 1) ∈ entries ∧
        shareOf v.data 1 = .real (.finite 100) ∧
        Genres.shares.Reports v
          (entries.map fun entry => [.text entry.1, shareOf v.data entry.2]) := by
  let v := (oneLeft.act.on (World.inMemory .empty [])).2
  have hv : v ∈ oneLeft.visited (World.inMemory .empty []) := Course.act_mem_visited _ _
  have hdeclared : oneLeft.IsDeclared := by
    simp [oneLeft, Course.IsDeclared, Course.calls, Request.IsDeclared]
  have hopen : v.obstacle = none := by decide +kernel
  have hcounts : CountsRows v := countsRows_of_mem_visited hdeclared rfl rfl hv hopen
  have hprepare : Genres.shares.statement.prepare v.data = .ok () := needs_eq_ok (by decide +kernel)
  obtain ⟨entries, hentries, -, hreports, -⟩ := hcounts.shares hprepare
  have hone : 1 = ((v.data.rowsOf .genre).map (·.genre)).count "Drama" ∧ 0 < 1 := by decide +kernel
  exact ⟨v, hv, hcounts, by decide +kernel, by decide +kernel, by decide +kernel, entries,
    (hentries.mem "Drama" 1).2 hone, by decide +kernel, hreports⟩

end Query
end FilmReport
