import FilmReport.Proofs.Store.Insert
import FilmReport.Proofs.Query.Grouped
import FilmReport.Proofs.Query.Exported
import FilmReport.Proofs.Query.Catalog.Movies
import FilmReport.Proofs.Query.Catalog.Groups

/-!
The queries that list the best of each group. They are written in three ways: with a greatest value
sought for each row, with a table of greatest values, and with a table of counts that is compared
with itself. All of them list the leaders of the groups, where `IsLeader` compares the members of a
group with each other and knows of no greatest value.
-/

set_option autoImplicit false
set_option relaxedAutoImplicit false

namespace FilmReport

namespace Query

open Store

section Greatest

variable {cells : List Cell} {c v : Cell}

theorem le_foldl_max {α : Type} [LinearOrder α] {a first : α} {others : List α}
    (h : a ∈ first :: others) : a ≤ others.foldl max first :=
  (List.max?_le_iff List.max?_cons').1 le_rfl a h

theorem greatest_eq_null_or_mem (cells : List Cell) :
    greatest cells = .null ∨ greatest cells ∈ cells := by
  rw [greatest]
  refine List.foldlRecOn (present cells) _ (motive := fun c => c = .null ∨ c ∈ cells)
    (Or.inl rfl) ?_
  intro best hbest c hc
  split
  · exact Or.inr (List.mem_of_mem_filter hc)
  · exact hbest

theorem rank_le_greatest (h : ∀ c ∈ cells, c ≠ .real .nan) (hc : c ∈ cells) :
    c.rank ≤ (greatest cells).rank := by
  rw [(rank_greatest h).2]
  refine le_foldl_max ?_
  by_cases hnull : c.isNull = true
  · rw [Cell.isNull_eq_decide, decide_eq_true_iff] at hnull
    exact List.mem_cons.2 (Or.inl hnull)
  · have hpresent : c ∈ present cells := List.mem_filter.2 ⟨hc, by simpa using hnull⟩
    exact List.mem_cons_of_mem _ (List.mem_map_of_mem hpresent)

/-- The cells that equal the greatest one are those that hold something and have none above them. -/
theorem same_greatest_iff (h : ∀ c ∈ cells, c ≠ .real .nan) (hv : v ∈ cells) :
    v.same (greatest cells) = true ↔ v ≠ .null ∧ ∀ c ∈ cells, c.above v = false := by
  rw [Cell.same_eq_decide (h v hv) (rank_greatest h).1, decide_eq_true_iff, Ne,
    Cell.rank_eq_null_iff]
  refine and_congr_right fun hnull => ⟨fun hrank c hc => ?_, fun hnone => ?_⟩
  · rw [Cell.above_eq_false_iff (h c hc) (h v hv), hrank]
    exact Or.inr (rank_le_greatest h hc)
  · refine le_antisymm (rank_le_greatest h hv) ?_
    rcases greatest_eq_null_or_mem cells with hgreatest | hgreatest
    · rw [hgreatest]
      exact Cell.null_rank_le v
    · have hle := (Cell.above_eq_false_iff (h _ hgreatest) (h v hv)).1 (hnone _ hgreatest)
      exact hle.resolve_left hnull

end Greatest

section Leaders

variable {ρ σ : Type}

/-- A member of a group with a value, than which no member of the same group has a greater one. -/
structure IsLeader (group value : ρ → Cell) (members : List ρ) (x : ρ) : Prop where
  grouped : group x ≠ .null
  valued : value x ≠ .null
  highest : ∀ y ∈ members, (group y).same (group x) = true → (value y).above (value x) = false

instance (group value : ρ → Cell) (members : List ρ) :
    DecidablePred (IsLeader group value members) :=
  fun x => decidable_of_iff
    (group x ≠ .null ∧ value x ≠ .null ∧
      ∀ y ∈ members, (group y).same (group x) = true → (value y).above (value x) = false)
    ⟨fun h => ⟨h.1, h.2.1, h.2.2⟩, fun h => ⟨h.grouped, h.valued, h.highest⟩⟩

/-- The values of the members of a group. -/
def valuesOf (group value : ρ → Cell) (members : List ρ) (k : Cell) : List Cell :=
  (members.filter fun y => (group y).same k).map value

/-- Members that can be compared. -/
def Comparable (group value : ρ → Cell) (members : List ρ) : Prop :=
  ∀ x ∈ members, group x ≠ .real .nan ∧ value x ≠ .real .nan

variable {group value : ρ → Cell} {members : List ρ} {x : ρ}

theorem Comparable.ne_nan (h : Comparable group value members) (k : Cell) :
    ∀ c ∈ valuesOf group value members k, c ≠ .real .nan := by
  rw [valuesOf, List.forall_mem_map]
  exact fun y hy => (h y (List.mem_of_mem_filter hy)).2

/-- A leader is a member whose value is the greatest of its group. -/
theorem isLeader_iff (h : Comparable group value members) (hx : x ∈ members) :
    IsLeader group value members x ↔
      (value x).same (greatest (valuesOf group value members (group x))) = true := by
  by_cases hnull : group x = .null
  · have hnone : valuesOf group value members (group x) = [] := by
      rw [valuesOf, List.map_eq_nil_iff, List.filter_eq_nil_iff]
      intro y _
      simp [hnull, Cell.same, Cell.isNull]
    rw [hnone]
    refine iff_of_false (fun hleader => hleader.grouped hnull) ?_
    simp [greatest, present, Cell.same, Cell.isNull]
  · have hmem : value x ∈ valuesOf group value members (group x) :=
      List.mem_map_of_mem (List.mem_filter.2 ⟨hx, (Cell.same_self_iff (h x hx).1).2 hnull⟩)
    rw [same_greatest_iff (h.ne_nan _) hmem, valuesOf, List.forall_mem_map]
    simp only [List.mem_filter, and_imp]
    exact ⟨fun hleader => ⟨hleader.valued, hleader.highest⟩,
      fun hbest => ⟨hnull, hbest.1, hbest.2⟩⟩

/-- A group in which some member has a value has a leader. -/
theorem exists_isLeader (h : Comparable group value members) (hx : x ∈ members)
    (hgroup : group x ≠ .null) (hvalue : value x ≠ .null) :
    ∃ y ∈ members, IsLeader group value members y ∧ (group y).same (group x) = true := by
  have hmem : value x ∈ valuesOf group value members (group x) :=
    List.mem_map_of_mem (List.mem_filter.2 ⟨hx, (Cell.same_self_iff (h x hx).1).2 hgroup⟩)
  have hgreatest : greatest (valuesOf group value members (group x)) ≠ .null := by
    intro hnull
    have hle := rank_le_greatest (h.ne_nan _) hmem
    rw [hnull] at hle
    exact hvalue (Cell.rank_eq_null_iff.1 (le_antisymm hle (Cell.null_rank_le _)))
  obtain ⟨y, hy, hbest⟩ := List.mem_map.1 ((greatest_eq_null_or_mem _).resolve_left hgreatest)
  obtain ⟨hy, hsame⟩ := List.mem_filter.1 hy
  -- The group is the same one, seen from its leader.
  have hvalues :
      valuesOf group value members (group y) = valuesOf group value members (group x) := by
    refine congrArg (List.map value) (List.filter_congr fun z hz => ?_)
    exact Cell.same_congr (h z hz).1 (h y hy).1 (h x hx).1
      (Cell.rank_eq_of_same (h y hy).1 (h x hx).1 hsame)
  rw [← valuesOf, ← hvalues] at hbest
  refine ⟨y, hy, (isLeader_iff h hy).2 ?_, hsame⟩
  rw [← hbest, Cell.same_self_iff (h y hy).2, hbest, hvalues]
  exact hgreatest

/-- A table of the greatest amounts picks the leaders among members that have the names and amounts
of its items. -/
theorem isAmong_bests_iff {items : List σ} {name : σ → String} {amount : σ → Cell}
    {kind : ρ → String} (h : Comparable (fun x => .text (kind x)) value members)
    (hitems : ∀ k c, (∃ item ∈ items, name item = k ∧ amount item = c) ↔
      ∃ y ∈ members, kind y = k ∧ value y = c) (hx : x ∈ members) :
    isAmong [.text (kind x), value x] (bests name amount items) = true ↔
      IsLeader (fun x => .text (kind x)) value members x := by
  have hamounts : ∀ c, c ∈ amountsOf name amount items (kind x) ↔
      c ∈ valuesOf (fun x => .text (kind x)) value members (.text (kind x)) := by
    intro c
    have hright : c ∈ valuesOf (fun x => .text (kind x)) value members (.text (kind x)) ↔
        ∃ y ∈ members, kind y = kind x ∧ value y = c := by
      simp only [valuesOf, List.mem_map, List.mem_filter, Cell.same_text_iff, and_assoc]
    rw [hright, ← hitems]
    simp only [amountsOf, List.mem_map, List.mem_filter, decide_eq_true_iff, and_assoc]
  have hvalues := h.ne_nan (.text (kind x))
  have hmem : value x ∈ valuesOf (fun x => .text (kind x)) value members (.text (kind x)) :=
    List.mem_map_of_mem (List.mem_filter.2 ⟨hx, Cell.same_text_iff.2 rfl⟩)
  obtain ⟨item, hitem, hname, -⟩ := (hitems (kind x) (value x)).2 ⟨x, hx, rfl, rfl⟩
  rw [isLeader_iff h hx, isAmong_bests, and_iff_right ⟨item, hitem, hname⟩,
    same_greatest_iff (fun c hc => hvalues c ((hamounts c).1 hc)) ((hamounts _).2 hmem),
    same_greatest_iff hvalues hmem]
  simp only [hamounts]

/-- A query that lists the leaders of all groups that have one, by group and title. -/
structure ListsLeaders (d : Definition) (w : World) (group value : ρ → Cell)
    (cells : ρ → List Cell) (members : List ρ) : Prop where
  reports : d.Reports w
    (sortBy [.up 0, .up 1] ((members.filter (IsLeader group value members)).map cells))
  led : ∀ x ∈ members, group x ≠ .null → value x ≠ .null →
    ∃ y ∈ members, IsLeader group value members y ∧ (group y).same (group x) = true

variable {d : Definition} {w : World} {cells : ρ → List Cell} {chosen : ρ → Bool}

theorem listsLeaders_of_rows (hd : d ∈ catalog) (hw : Askable w)
    (h : Comparable group value members)
    (hchosen : ∀ x ∈ members, chosen x = true ↔ IsLeader group value members x)
    (hrows : ∀ p, d.statement.rows p w.data =
      (sortBy [.up 0, .up 1] ((members.filter chosen).map cells)).map (List.map .cell))
    (hlength : ∀ x, (cells x).length ≤ d.statement.columns.length) :
    ListsLeaders d w group value cells members where
  reports := by
    have hfilter : members.filter chosen = members.filter (IsLeader group value members) :=
      List.filter_congr fun x hx => by rw [Bool.eq_iff_iff, hchosen x hx, decide_eq_true_iff]
    rw [← hfilter]
    refine reports_of_rows hd hw hrows fun row hrow => ?_
    obtain ⟨x, -, rfl⟩ := List.mem_map.1 (mem_orderBy.1 hrow)
    exact hlength x
  led x hx hgroup hvalue := exists_isLeader h hx hgroup hvalue

end Leaders

section Listings

variable {w : World}

theorem highestGrossingByYear_listsLeaders (hw : Askable w) (hkept : w.data.IsKept) :
    ListsLeaders Movies.highestGrossingByYear w (·.year) (·.grossAmount)
      (fun m => [m.year, .text m.title, m.grossAmount]) (w.data.rowsOf .movie) := by
  have hcomparable : Comparable MovieRow.year MovieRow.grossAmount (w.data.rowsOf .movie) :=
    fun m hm => ⟨(hkept.movie hm).1.ne_nan, (hkept.movie hm).2.2.ne_nan⟩
  exact listsLeaders_of_rows (by simp [catalog]) hw hcomparable
    (fun m hm => (isLeader_iff hcomparable hm).symm) (fun _ => rfl) fun _ => le_rfl

/-- The ratings of a genre are those of its movies, as each is the rating of a movie. -/
theorem topRatedMovies_listsLeaders (hw : Askable w) (hkept : w.data.IsKept)
    (hratings : ∀ r ∈ w.data.rowsOf .ratings, ∀ id, r.movieId = some id →
      ∃ m ∈ w.data.rowsOf .movie, m.id = some id) :
    ListsLeaders Genres.topRatedMovies w (fun x => .text x.2.genre) (fun x => x.1.2.avgRating)
      (fun x => [.text x.2.genre, .text x.1.1.title, x.1.2.avgRating])
      (Genres.ratedGenres w.data) := by
  have hcomparable : Comparable (fun x => .text x.2.genre) (fun x => x.1.2.avgRating)
      (Genres.ratedGenres w.data) := by
    rintro ⟨⟨m, r⟩, g⟩ hx
    exact ⟨by simp, (hkept.rating (mem_join.1 (mem_join.1 hx).1).2.1).1.ne_nan⟩
  refine listsLeaders_of_rows (by simp [catalog]) hw hcomparable
    (fun x hx => isAmong_bests_iff hcomparable ?_ hx) (fun _ => rfl) fun _ => le_rfl
  intro k c
  constructor
  · rintro ⟨⟨g, r⟩, hitem, rfl, rfl⟩
    obtain ⟨hg, hr, hof⟩ := mem_join.1 hitem
    obtain ⟨m, hm, hid⟩ := hratings r hr g.movieId (of_decide_eq_true hof)
    have hrated : (m, r) ∈ ratedMovies w.data :=
      mem_join.2 ⟨hm, hr, by simp [hid, of_decide_eq_true hof]⟩
    exact ⟨((m, r), g), mem_join.2 ⟨hrated, hg, by simpa using hid⟩, rfl, rfl⟩
  · rintro ⟨⟨⟨m, r⟩, g⟩, hx, rfl, rfl⟩
    obtain ⟨hrated, hg, hof⟩ := mem_join.1 hx
    obtain ⟨-, hr, hrating⟩ := mem_join.1 hrated
    simp only [Bool.and_eq_true, decide_eq_true_eq] at hof hrating
    exact ⟨(g, r), mem_join.2 ⟨hg, hr, by simp [← hrating.2, hof]⟩, rfl, rfl⟩

theorem longestMovies_listsLeaders (hw : Askable w) (hkept : w.data.IsKept) :
    ListsLeaders Genres.longestMovies w (fun x => .text x.1.genre) (fun x => x.2.duration)
      (fun x => [.text x.1.genre, .text x.2.title, x.2.duration]) (genreMovies w.data) := by
  have hcomparable : Comparable (fun x => .text x.1.genre) (fun x => x.2.duration)
      (genreMovies w.data) :=
    fun x hx => ⟨by simp, (hkept.movie (mem_join.1 hx).2.1).2.1.ne_nan⟩
  exact listsLeaders_of_rows (by simp [catalog]) hw hcomparable
    (fun x hx => isAmong_bests_iff hcomparable (fun _ _ => Iff.rfl) hx) (fun _ => rfl)
    fun _ => le_rfl

theorem highestGrossingByLanguage_listsLeaders (hw : Askable w) (hkept : w.data.IsKept) :
    ListsLeaders Regions.highestGrossingByLanguage w (fun x => .text x.1.value)
      (fun x => x.2.grossAmount) (fun x => [.text x.1.value, .text x.2.title, x.2.grossAmount])
      (Regions.valueMovies w.data (w.data.rowsOf .movieLanguage)) := by
  have hcomparable : Comparable (fun x => .text x.1.value) (fun x => x.2.grossAmount)
      (Regions.valueMovies w.data (w.data.rowsOf .movieLanguage)) :=
    fun x hx => ⟨by simp, (hkept.movie (mem_join.1 hx).2.1).2.2.ne_nan⟩
  exact listsLeaders_of_rows (by simp [catalog]) hw hcomparable
    (fun x hx => isAmong_bests_iff hcomparable (fun _ _ => Iff.rfl) hx) (fun _ => rfl)
    fun _ => le_rfl

/-- How often a movie of a country has a genre. -/
def meetings (s : Store) (country genre : String) : Nat :=
  (join (s.rowsOf .movieCountry) (s.rowsOf .genre) fun v g => v.movieId = g.movieId).countP
    fun (v, g) => v.value = country ∧ g.genre = genre

/-- The cells of a pair of a country and a genre. -/
def meetingCells (s : Store) (k : String × String) : List Cell :=
  [.text k.1, .text k.2, .int (meetings s k.1 k.2)]

theorem exists_countryGenres (s : Store) : ∃ pairs : List (String × String), pairs.Nodup ∧
    (∀ k, k ∈ pairs ↔ 0 < meetings s k.1 k.2) ∧
      Regions.countryGenres s = pairs.map (meetingCells s) := by
  have hcode : Function.Injective fun k : String × String => [Cell.text k.1, Cell.text k.2] := by
    intro k l h
    simpa [Prod.ext_iff] using h
  obtain ⟨pairs, hnodup, hmem, hrows⟩ :=
    exists_groups (fun x : MembershipRow × GenreRow => [.text x.1.value, .text x.2.genre])
      (fun x => (x.1.value, x.2.genre)) hcode (fun _ => rfl) (fun vs => [count vs])
      (join (s.rowsOf .movieCountry) (s.rowsOf .genre) fun v g => v.movieId = g.movieId)
  have hcount : ∀ k : String × String,
      ((join (s.rowsOf .movieCountry) (s.rowsOf .genre) fun v g => v.movieId = g.movieId).filter
        fun x => (x.1.value, x.2.genre) = k).length = meetings s k.1 k.2 := by
    intro k
    rw [meetings, List.countP_eq_length_filter]
    simp only [Prod.ext_iff]
  refine ⟨pairs, hnodup, fun k => ?_, ?_⟩
  · rw [hmem, ← hcount, List.length_pos_iff, Ne, List.filter_eq_nil_iff]
    simp
  · rw [Regions.countryGenres, hrows]
    refine List.map_congr_left fun k _ => ?_
    rw [count, hcount]
    rfl

theorem commonestGenres_listsLeaders (hw : Askable w) :
    ∃ pairs : List (String × String), pairs.Nodup ∧
      (∀ k, k ∈ pairs ↔ 0 < meetings w.data k.1 k.2) ∧
      ListsLeaders Regions.commonestGenres w (fun k => .text k.1)
        (fun k => .int (meetings w.data k.1 k.2)) (meetingCells w.data) pairs := by
  obtain ⟨pairs, hnodup, hmem, hrows⟩ := exists_countryGenres w.data
  have hcomparable : Comparable (fun k : String × String => .text k.1)
      (fun k => .int (meetings w.data k.1 k.2)) pairs := fun k _ => ⟨by simp, by simp⟩
  have hfilter : ∀ chosen : List Cell → Bool, (Regions.countryGenres w.data).filter chosen =
      (pairs.filter fun k => chosen (meetingCells w.data k)).map (meetingCells w.data) := by
    intro chosen
    rw [hrows, List.filter_map]
    rfl
  refine ⟨pairs, hnodup, hmem, listsLeaders_of_rows (by simp [catalog]) hw hcomparable
    (fun k hk => ?_) (fun _ => congrArg (fun rows => (sortBy [.up 0, .up 1] rows).map _)
      (hfilter (Regions.isCommonest (Regions.countryGenres w.data)))) fun _ => le_rfl⟩
  rw [isLeader_iff hcomparable hk, Regions.isCommonest, hfilter, List.map_map]
  rfl

/-- The queries for the best of each group list the leaders of their groups, with all ties. -/
theorem listsLeaders_of_catalog (hw : Askable w) (hkept : w.data.IsKept)
    (hratings : ∀ r ∈ w.data.rowsOf .ratings, ∀ id, r.movieId = some id →
      ∃ m ∈ w.data.rowsOf .movie, m.id = some id) :
    ListsLeaders Movies.highestGrossingByYear w (·.year) (·.grossAmount)
        (fun m => [m.year, .text m.title, m.grossAmount]) (w.data.rowsOf .movie) ∧
      ListsLeaders Genres.topRatedMovies w (fun x => .text x.2.genre) (fun x => x.1.2.avgRating)
        (fun x => [.text x.2.genre, .text x.1.1.title, x.1.2.avgRating])
        (Genres.ratedGenres w.data) ∧
      ListsLeaders Genres.longestMovies w (fun x => .text x.1.genre) (fun x => x.2.duration)
        (fun x => [.text x.1.genre, .text x.2.title, x.2.duration]) (genreMovies w.data) ∧
      ListsLeaders Regions.highestGrossingByLanguage w (fun x => .text x.1.value)
        (fun x => x.2.grossAmount) (fun x => [.text x.1.value, .text x.2.title, x.2.grossAmount])
        (Regions.valueMovies w.data (w.data.rowsOf .movieLanguage)) ∧
      ∃ pairs : List (String × String), pairs.Nodup ∧
        (∀ k, k ∈ pairs ↔ 0 < meetings w.data k.1 k.2) ∧
        ListsLeaders Regions.commonestGenres w (fun k => .text k.1)
          (fun k => .int (meetings w.data k.1 k.2)) (meetingCells w.data) pairs :=
  ⟨highestGrossingByYear_listsLeaders hw hkept, topRatedMovies_listsLeaders hw hkept hratings,
    longestMovies_listsLeaders hw hkept, highestGrossingByLanguage_listsLeaders hw hkept,
    commonestGenres_listsLeaders hw⟩

/-- Two movies of one year with one amount, one without a year and one without an amount. -/
def rivals : World :=
  World.inMemory
    { Store.empty with
      movie := some (numberedFrom 1
        [⟨some "a", "Alpha", .int 2019, none, .int 64, none, none, none, none, .int 100⟩,
         ⟨some "b", "Beta", .int 2019, none, .null, none, none, none, none, .real (.finite 100)⟩,
         ⟨some "c", "Gamma", .null, none, .int 121, none, none, none, none, .int 500⟩,
         ⟨some "d", "Delta", .int 2020, none, .int 90, none, none, none, none, .null⟩])
      genre := some (numberedFrom 1 [⟨"a", "Drama"⟩, ⟨"c", "Drama"⟩])
      names := some []
      directorMapping := some []
      roleMapping := some []
      ratings := some (numberedFrom 1
        [⟨some "a", .int 7, .null, .null⟩, ⟨none, .int 9, .null, .null⟩])
      movieCountry := some []
      movieLanguage := some (numberedFrom 1 [⟨"a", .int 1, "English"⟩, ⟨"d", .int 1, "French"⟩])
      hasAmount := true } []

theorem highestGrossingByYear_reports_rivals :
    Movies.highestGrossingByYear.Reports rivals
      [[.int 2019, .text "Alpha", .int 100],
       [.int 2019, .text "Beta", .real (.finite 100)]] := by
  have hw : Askable rivals := ⟨rfl, by decide, rfl⟩
  have hkept : rivals.data.IsKept := by
    intro table
    cases table <;> decide +kernel
  have hratings : ∀ r ∈ rivals.data.rowsOf .ratings, ∀ id, r.movieId = some id →
      ∃ m ∈ rivals.data.rowsOf .movie, m.id = some id := by
    decide
  have hrows : sortBy [.up 0, .up 1] (((rivals.data.rowsOf .movie).filter
      (IsLeader MovieRow.year MovieRow.grossAmount (rivals.data.rowsOf .movie))).map
        fun m => [m.year, .text m.title, m.grossAmount]) =
      [[.int 2019, .text "Alpha", .int 100],
       [.int 2019, .text "Beta", .real (.finite 100)]] := by
    have hleaders : (rivals.data.rowsOf .movie).filter
        (IsLeader MovieRow.year MovieRow.grossAmount (rivals.data.rowsOf .movie)) =
          (rivals.data.rowsOf .movie).take 2 := by
      decide +kernel
    rw [hleaders]
    exact List.mergeSort_of_pairwise (by decide +kernel)
  exact hrows ▸ (listsLeaders_of_catalog hw hkept hratings).1.reports

end Listings

end Query
end FilmReport
