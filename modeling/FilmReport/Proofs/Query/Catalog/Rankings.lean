import Mathlib.Data.List.Dedup
import FilmReport.Proofs.Decimal.Places
import FilmReport.Proofs.Query.Grouped
import FilmReport.Proofs.Query.Exported
import FilmReport.Proofs.Query.Catalog.Movies
import FilmReport.Proofs.Query.Catalog.Groups

/-!
The queries that list the first few of a ranking. They rank by values that are rounded already, so
that candidates whose values are rounded alike stand in the order of their names. As rounding keeps
the order of the results of arithmetic (`rounded_mono`), that is the only way in which a candidate
can be left out for one of a lower value (`TopBy.passed`).
-/

set_option autoImplicit false
set_option relaxedAutoImplicit false

namespace FilmReport

/-- A result of arithmetic: nothing, or a real that can be kept. -/
structure Cell.IsResult (c : Cell) : Prop where
  form : c = .null ∨ ∃ x, c = .real x
  kept : c.IsKept

namespace Query

open Store

section Results

open Binary64

theorem isResult_null : Cell.null.IsResult :=
  ⟨Or.inl rfl, trivial⟩

theorem isResult_ofNumber_div (a b : Binary64) : (ofNumber (a.div b)).IsResult := by
  cases hquotient : a.div b with
  | nan => exact isResult_null
  | infinite negative => exact ⟨Or.inr ⟨_, rfl⟩, trivial⟩
  | finite q => exact ⟨Or.inr ⟨_, rfl⟩, round_of_div hquotient⟩

theorem isResult_average (cells : List Cell) : (average cells).IsResult := by
  unfold average
  split
  · exact isResult_null
  · exact isResult_ofNumber_div _ _

theorem isResult_quotient (a b : Cell) : (quotient a b).IsResult := by
  rcases quotient_cases a b with h | ⟨-, -, h⟩ <;> rw [h]
  · exact isResult_null
  · exact isResult_ofNumber_div _ _

theorem exists_rounded {places : ℕ} (hplaces : places ≤ 4) {q : ℚ}
    (hq : Binary64.round q = finite q) :
    ∃ v, roundPlaces places (finite q) = finite v ∧
      rounded places (.real (finite q)) = .real (finite v) := by
  obtain ⟨v, hv⟩ := exists_roundPlaces (hplaces.trans (by norm_num)) (isMultiple_of_round hq)
  exact ⟨v, hv, by rw [rounded, Cell.toReal, hv, ofNumber] <;> simp⟩

theorem rank_finite_le_iff {p q : ℚ} :
    (Cell.real (finite p)).rank ≤ (Cell.real (finite q)).rank ↔ p ≤ q := by
  simp [Cell.rank, Prod.Lex.toLex_le_toLex, ← le_iff_lt_or_eq]

theorem rank_finite_le_infinite_iff {p : ℚ} {s : Bool} :
    (Cell.real (finite p)).rank ≤ (Cell.real (infinite s)).rank ↔ s = false := by
  cases s <;> simp [Cell.rank, Prod.Lex.toLex_le_toLex]

theorem rank_infinite_le_finite_iff {q : ℚ} {s : Bool} :
    (Cell.real (infinite s)).rank ≤ (Cell.real (finite q)).rank ↔ s = true := by
  cases s <;> simp [Cell.rank, Prod.Lex.toLex_le_toLex]

/-- Rounding to decimals keeps the order of results. -/
theorem rounded_mono {places : ℕ} {c d : Cell} (hplaces : places ≤ 4) (hc : c.IsResult)
    (hd : d.IsResult) (h : c.rank ≤ d.rank) :
    (rounded places c).rank ≤ (rounded places d).rank := by
  obtain ⟨rfl | ⟨x, rfl⟩, hckept⟩ := hc
  · exact Cell.null_rank_le _
  obtain ⟨rfl | ⟨y, rfl⟩, hdkept⟩ := hd
  · cases Cell.rank_eq_null_iff.1 (h.antisymm (Cell.null_rank_le _))
  rcases x with p | s | _ <;> rcases y with q | t | _
  case finite.finite =>
    obtain ⟨v, hv, hvcell⟩ := exists_rounded hplaces hckept
    obtain ⟨w, hw, hwcell⟩ := exists_rounded hplaces hdkept
    have hle := roundPlaces_mono hplaces hckept hdkept hv hw (rank_finite_le_iff.1 h)
    rw [hvcell, hwcell]
    exact rank_finite_le_iff.2 hle
  case finite.infinite =>
    obtain ⟨v, -, hvcell⟩ := exists_rounded hplaces hckept
    rw [hvcell]
    exact rank_finite_le_infinite_iff.2 (rank_finite_le_infinite_iff.1 h)
  case infinite.finite =>
    obtain ⟨w, -, hwcell⟩ := exists_rounded hplaces hdkept
    rw [hwcell]
    exact rank_infinite_le_finite_iff.2 (rank_infinite_le_finite_iff.1 h)
  case infinite.infinite =>
    exact h
  all_goals contradiction

end Results

variable {ρ κ : Type}

/-- The first candidates by a rounded value, and the rest of them; where the rounded values are the
same, a name decides. No other candidate is passed over for one of a lower value. -/
structure TopBy (limit places : Nat) (value name : κ → Cell) (candidates listed rest : List κ) :
    Prop where
  perm : (listed ++ rest).Perm candidates
  length : listed.length = min limit candidates.length
  sorted : (listed ++ rest).Pairwise fun x y =>
    (rounded places (value y)).rank < (rounded places (value x)).rank ∨
      rounded places (value y) = rounded places (value x) ∧ (name x).rank ≤ (name y).rank
  passed : ∀ x ∈ listed, ∀ y ∈ rest, (value x).rank < (value y).rank →
    rounded places (value y) = rounded places (value x) ∧ (name x).rank ≤ (name y).rank

/-- A query that lists the first candidates by a rounded value. -/
structure ListsTop (d : Definition) (w : World) (limit places : Nat) (value name : κ → Cell)
    (cells : κ → List Cell) (candidates : List κ) : Prop where
  reports : ∃ listed rest, TopBy limit places value name candidates listed rest ∧
    d.Reports w (listed.map cells)

section Top

variable {places column : Nat} {value name : κ → Cell} {cells : κ → List Cell}
  {candidates candidates' : List κ}

theorem rankBy_le_iff (hvalue : ∀ x, cellAt (cells x) column = rounded places (value x))
    (hname : ∀ x, cellAt (cells x) 0 = name x) {x y : κ} :
    rankBy (fun x => [By.down column, By.up 0].map (By.key (cells x))) x ≤
        rankBy (fun x => [By.down column, By.up 0].map (By.key (cells x))) y ↔
      (rounded places (value y)).rank < (rounded places (value x)).rank ∨
        rounded places (value y) = rounded places (value x) ∧ (name x).rank ≤ (name y).rank := by
  have hequal : (rounded places (value y)).rank = (rounded places (value x)).rank ↔
      rounded places (value y) = rounded places (value x) :=
    ⟨rounded_eq_of_rank, congrArg Cell.rank⟩
  have hless : rankBy (fun x => [By.down column, By.up 0].map (By.key (cells x))) y <
      rankBy (fun x => [By.down column, By.up 0].map (By.key (cells x))) x ↔
        (rounded places (value x)).rank < (rounded places (value y)).rank ∨
          (rounded places (value y)).rank = (rounded places (value x)).rank ∧
            (name y).rank < (name x).rank := by
    simp [rankBy, By.key, SortKey.rank, hvalue, hname, List.cons_lt_cons_iff]
  rw [← hequal, ← not_lt, hless]
  rcases lt_trichotomy (rounded places (value x)).rank (rounded places (value y)).rank with
    h | h | h
  · simp [h, h.not_gt, h.ne']
  · simp [h]
  · simp [h, h.not_gt, h.ne]

theorem exists_topBy (limit : Nat) (hplaces : places ≤ 4) (hresult : ∀ x, (value x).IsResult)
    (hvalue : ∀ x, cellAt (cells x) column = rounded places (value x))
    (hname : ∀ x, cellAt (cells x) 0 = name x) (hnan : ∀ x ∈ candidates, name x ≠ .real .nan) :
    ∃ listed rest, TopBy limit places value name candidates listed rest ∧
      (sortBy [.down column, .up 0] (candidates.map cells)).take limit = listed.map cells := by
  let keys : κ → List SortKey := fun x => [By.down column, By.up 0].map (By.key (cells x))
  have hperm := orderBy_perm keys candidates
  have hkeys : ∀ x ∈ candidates, ∀ k ∈ keys x, k.cell ≠ .real .nan := by
    intro x hx
    simp [keys, By.key, SortKey.cell, hvalue, hname, rounded_ne_nan, hnan x hx]
  have hsorted : (orderBy keys candidates).Pairwise fun x y =>
      (rounded places (value y)).rank < (rounded places (value x)).rank ∨
        rounded places (value y) = rounded places (value x) ∧ (name x).rank ≤ (name y).rank :=
    (pairwise_orderBy hkeys).imp (rankBy_le_iff hvalue hname).1
  rw [← List.take_append_drop limit (orderBy keys candidates)] at hsorted
  refine ⟨(orderBy keys candidates).take limit, (orderBy keys candidates).drop limit,
    ⟨?_, ?_, hsorted, fun x hx y hy hlt => ?_⟩, ?_⟩
  · rwa [List.take_append_drop]
  · rw [List.length_take, hperm.length_eq]
  · have hle := rounded_mono hplaces (hresult x) (hresult y) hlt.le
    exact ((List.pairwise_append.1 hsorted).2.2 x hx y hy).resolve_left hle.not_gt
  · rw [sortBy, orderBy_map, List.map_take]

theorem listsTop_of_rows {d : Definition} (hd : d ∈ catalog) {w : World} (hw : Askable w)
    {limit : Nat} (hperm : candidates.Perm candidates') (column : Nat) (hplaces : places ≤ 4)
    (hresult : ∀ x, (value x).IsResult)
    (hvalue : ∀ x, cellAt (cells x) column = rounded places (value x))
    (hname : ∀ x, cellAt (cells x) 0 = name x) (hnan : ∀ x ∈ candidates, name x ≠ .real .nan)
    (hrows : ∀ p, d.statement.rows p w.data =
      ((sortBy [.down column, .up 0] (candidates.map cells)).take limit).map (List.map .cell))
    (hlength : ∀ x, (cells x).length ≤ d.statement.columns.length) :
    ListsTop d w limit places value name cells candidates' := by
  obtain ⟨listed, rest, htop, heq⟩ := exists_topBy limit hplaces hresult hvalue hname hnan
  refine ⟨listed, rest,
    ⟨htop.perm.trans hperm, hperm.length_eq ▸ htop.length, htop.sorted, htop.passed⟩,
    reports_of_rows hd hw (fun p => by rw [hrows, heq]) ?_⟩
  rw [List.forall_mem_map]
  exact fun x _ => hlength x

end Top

section Groups

variable [DecidableEq κ]

/-- The average rating of the rows of a name. -/
def averageOf (name : ρ × RatingRow → κ) (rows : List (ρ × RatingRow)) (k : κ) : Cell :=
  averageRating (rows.filter fun x => name x = k)

/-- The cells of a name with its average rating. -/
def averageCells (label : κ → Cell) (name : ρ × RatingRow → κ) (rows : List (ρ × RatingRow))
    (k : κ) : List Cell :=
  [label k, rounded 2 (averageOf name rows k)]

variable {label : κ → Cell} {name : ρ × RatingRow → κ} {rows : List (ρ × RatingRow)}

/-- The groups of rows are the different names. -/
theorem exists_groups_perm (key : ρ × RatingRow → List Cell) (hlabel : label.Injective)
    (hkey : ∀ x, normalKey key x = [label (name x)]) (total : List (ρ × RatingRow) → List Cell)
    (rows : List (ρ × RatingRow)) :
    ∃ groups : List κ, groups.Perm (rows.map name).dedup ∧ grouped key total rows =
      groups.map fun k => label k :: total (rows.filter fun x => name x = k) := by
  have hcode : Function.Injective fun k => [label k] :=
    fun _ _ h => hlabel (List.head_eq_of_cons_eq h)
  obtain ⟨groups, hnodup, hmem, hrows⟩ := exists_groups key name hcode hkey total rows
  refine ⟨groups, (List.perm_ext_iff_of_nodup hnodup (List.nodup_dedup _)).2 fun k => ?_, hrows⟩
  rw [hmem, List.mem_dedup, List.mem_map]

theorem listsTop_of_groups {d : Definition} (hd : d ∈ catalog) {w : World} (hw : Askable w)
    {limit : Nat} (key : ρ × RatingRow → List Cell) (hlabel : label.Injective)
    (hkey : ∀ x, normalKey key x = [label (name x)])
    (hnan : ∀ x ∈ rows, label (name x) ≠ .real .nan)
    (hrows : ∀ p, d.statement.rows p w.data = ((sortBy [.down 1, .up 0] <|
      grouped key (fun part => [rounded 2 (averageRating part)]) rows).take limit).map
        (List.map .cell))
    (hlength : 2 ≤ d.statement.columns.length) :
    ListsTop d w limit 2 (averageOf name rows) label (averageCells label name rows)
      (rows.map name).dedup := by
  obtain ⟨groups, hperm, hgroups⟩ :=
    exists_groups_perm key hlabel hkey (fun part => [rounded 2 (averageRating part)]) rows
  refine listsTop_of_rows hd hw hperm 1 (by decide) (fun _ => isResult_average _) (fun _ => rfl)
    (fun _ => rfl) (fun k hk => ?_) (fun p => ?_) fun _ => hlength
  · obtain ⟨x, hx, rfl⟩ := List.mem_map.1 (List.mem_dedup.1 (hperm.mem_iff.1 hk))
    exact hnan x hx
  · rw [hrows, hgroups]
    rfl

end Groups

section Rankings

variable {w : World}

theorem bestDirectors_listsTop (hw : Askable w) :
    ListsTop People.bestDirectors w 5 2 (averageOf (·.1.2.name) (directedRatings w.data)) .text
      (averageCells .text (·.1.2.name) (directedRatings w.data))
      ((directedRatings w.data).map (·.1.2.name)).dedup :=
  listsTop_of_groups (by simp [catalog]) hw (fun x => personName x.1) (fun _ _ => Cell.text.inj)
    (fun _ => rfl) (fun _ _ => by simp) (fun _ => rfl) le_rfl

theorem bestRated_listsTop (hw : Askable w) :
    ListsTop Genres.bestRated w 1 2 (averageOf (·.1.genre) (genreRatings w.data)) .text
      (averageCells .text (·.1.genre) (genreRatings w.data))
      ((genreRatings w.data).map (·.1.genre)).dedup :=
  listsTop_of_groups (by simp [catalog]) hw (fun x => [.text x.1.genre]) (fun _ _ => Cell.text.inj)
    (fun _ => rfl) (fun _ _ => by simp) (fun _ => rfl) le_rfl

/-- Years are one if they are equal, as an integer and a real may be. -/
theorem bestYear_listsTop (hw : Askable w) (hkept : w.data.IsKept) :
    ListsTop Movies.bestYear w 1 2 (averageOf (·.1.year.normal) (ratedMovies w.data)) id
      (averageCells id (·.1.year.normal) (ratedMovies w.data))
      ((ratedMovies w.data).map (·.1.year.normal)).dedup := by
  refine listsTop_of_groups (by simp [catalog]) hw (fun x => [x.1.year]) Function.injective_id
    (fun _ => rfl) (fun x hx => ?_) (fun _ => rfl) le_rfl
  exact Cell.normal_ne_nan (hkept.movie (mem_join.1 hx).1).1.ne_nan

/-- The roles of a name that have a rating. -/
def ratedRoles (s : Store) (name : String) : List ((RoleRow × NameRow) × RatingRow) :=
  (playedRatings s).filter fun x => x.1.2.name = name

theorem bestActors_listsTop (hw : Askable w) :
    ListsTop People.bestActors w 5 2 (averageOf (·.1.2.name) (playedRatings w.data)) .text
      (fun k => averageCells .text (·.1.2.name) (playedRatings w.data) k ++
        [count (ratedRoles w.data k)])
      (((playedRatings w.data).map (·.1.2.name)).dedup.filter fun k =>
        5 ≤ (ratedRoles w.data k).length) := by
  obtain ⟨groups, hperm, hgroups⟩ :=
    exists_groups_perm (fun x => personName x.1) (fun _ _ => Cell.text.inj) (fun _ => rfl)
      (fun part => [rounded 2 (averageRating part), count part]) (playedRatings w.data)
  have hfive : ∀ n : ℕ, Cell.above (.int n) (.int 4) = decide (5 ≤ n) := by
    intro n
    rw [Cell.above_eq_decide (by simp) (by simp), decide_eq_decide]
    simp only [Cell.rank, Prod.Lex.toLex_lt_toLex]
    norm_num
    norm_cast
  refine listsTop_of_rows (by simp [catalog]) hw (hperm.filter _) 1 (by decide)
    (fun _ => isResult_average _) (fun _ => rfl) (fun _ => rfl) (by simp) (fun p => ?_)
    fun _ => le_rfl
  have hfilter : (grouped (fun x : (RoleRow × NameRow) × RatingRow => personName x.1)
      (fun part => [rounded 2 (averageRating part), count part]) (playedRatings w.data)).filter
        (fun row => Cell.above (cellAt row 2) (.int 4)) =
      (groups.filter fun k => 5 ≤ (ratedRoles w.data k).length).map fun k =>
        averageCells .text (·.1.2.name) (playedRatings w.data) k ++
          [count (ratedRoles w.data k)] := by
    rw [hgroups, List.filter_map]
    refine congrArg (List.map _) (List.filter_congr fun k _ => hfive _)
  rw [← hfilter]
  rfl

theorem votesPerRating_listsTop (hw : Askable w) :
    ListsTop Movies.votesPerRating w 10 2 (fun x => quotient x.2.totalVotes x.2.avgRating)
      (fun x => .text x.1.title)
      (fun x => [.text x.1.title, x.2.totalVotes, x.2.avgRating,
        rounded 2 (quotient x.2.totalVotes x.2.avgRating)])
      ((ratedMovies w.data).filter fun x => isPositive x.2.avgRating) :=
  listsTop_of_rows (by simp [catalog]) hw (.refl _) 3 (by decide) (fun _ => isResult_quotient _ _)
    (fun _ => rfl) (fun _ => rfl) (by simp) (fun _ => rfl) fun _ => le_rfl

theorem ratingPerMinute_listsTop (hw : Askable w) :
    ListsTop Movies.ratingPerMinute w 10 4 (fun x => quotient x.2.avgRating x.1.duration)
      (fun x => .text x.1.title)
      (fun x => [.text x.1.title, x.1.duration, x.2.avgRating,
        rounded 4 (quotient x.2.avgRating x.1.duration)])
      ((ratedMovies w.data).filter fun x => isPositive x.1.duration) :=
  listsTop_of_rows (by simp [catalog]) hw (.refl _) 3 (by decide) (fun _ => isResult_quotient _ _)
    (fun _ => rfl) (fun _ => rfl) (by simp) (fun _ => rfl) fun _ => le_rfl

/-- The queries for the first few of a ranking list them by their rounded values, and by name where
these are the same. -/
theorem listsTop_of_catalog (hw : Askable w) (hkept : w.data.IsKept) :
    ListsTop People.bestDirectors w 5 2 (averageOf (·.1.2.name) (directedRatings w.data)) .text
        (averageCells .text (·.1.2.name) (directedRatings w.data))
        ((directedRatings w.data).map (·.1.2.name)).dedup ∧
      ListsTop Genres.bestRated w 1 2 (averageOf (·.1.genre) (genreRatings w.data)) .text
        (averageCells .text (·.1.genre) (genreRatings w.data))
        ((genreRatings w.data).map (·.1.genre)).dedup ∧
      ListsTop People.bestActors w 5 2 (averageOf (·.1.2.name) (playedRatings w.data)) .text
        (fun k => averageCells .text (·.1.2.name) (playedRatings w.data) k ++
          [count (ratedRoles w.data k)])
        (((playedRatings w.data).map (·.1.2.name)).dedup.filter fun k =>
          5 ≤ (ratedRoles w.data k).length) ∧
      ListsTop Movies.votesPerRating w 10 2 (fun x => quotient x.2.totalVotes x.2.avgRating)
        (fun x => .text x.1.title)
        (fun x => [.text x.1.title, x.2.totalVotes, x.2.avgRating,
          rounded 2 (quotient x.2.totalVotes x.2.avgRating)])
        ((ratedMovies w.data).filter fun x => isPositive x.2.avgRating) ∧
      ListsTop Movies.bestYear w 1 2 (averageOf (·.1.year.normal) (ratedMovies w.data)) id
        (averageCells id (·.1.year.normal) (ratedMovies w.data))
        ((ratedMovies w.data).map (·.1.year.normal)).dedup ∧
      ListsTop Movies.ratingPerMinute w 10 4 (fun x => quotient x.2.avgRating x.1.duration)
        (fun x => .text x.1.title)
        (fun x => [.text x.1.title, x.1.duration, x.2.avgRating,
          rounded 4 (quotient x.2.avgRating x.1.duration)])
        ((ratedMovies w.data).filter fun x => isPositive x.1.duration) :=
  ⟨bestDirectors_listsTop hw, bestRated_listsTop hw, bestActors_listsTop hw,
    votesPerRating_listsTop hw, bestYear_listsTop hw hkept, ratingPerMinute_listsTop hw⟩

/-- Two genres whose averages are rounded alike. -/
def nearTie : World :=
  World.inMemory
    { Store.empty with
      movie := some (numberedFrom 1
        [⟨some "a", "Alpha", .int 2019, none, .int 64, none, none, none, none, .null⟩,
         ⟨some "b", "Beta", .int 2019, none, .int 90, none, none, none, none, .null⟩])
      genre := some (numberedFrom 1 [⟨"a", "Action"⟩, ⟨"b", "Drama"⟩])
      names := some []
      directorMapping := some []
      roleMapping := some []
      ratings := some (numberedFrom 1
        [⟨some "a", .real (.finite (7 + 1 / 1024)), .int 10, .int 7⟩,
         ⟨some "b", .real (.finite (7 + 1 / 256)), .int 10, .int 7⟩])
      movieCountry := some []
      movieLanguage := some []
      hasAmount := true } []

theorem bestRated_reports_nearTie :
    Genres.bestRated.Reports nearTie [[.text "Action", .real (.finite 7)]] ∧
      (averageOf (·.1.genre) (genreRatings nearTie.data) "Drama").above
        (averageOf (·.1.genre) (genreRatings nearTie.data) "Action") = true := by
  have hw : Askable nearTie := ⟨rfl, by decide, rfl⟩
  have hkept : nearTie.data.IsKept := by
    intro table
    cases table <;> decide +kernel
  have hgenres : ((genreRatings nearTie.data).map (·.1.genre)).dedup = ["Action", "Drama"] := by
    decide +kernel
  obtain ⟨listed, rest, htop, hreports⟩ := (listsTop_of_catalog hw hkept).2.1.reports
  have hlength := htop.length
  rw [hgenres] at hlength
  obtain ⟨genre, rfl⟩ := List.length_eq_one_iff.1 hlength
  have hmem : ∀ k, k ∈ [genre] ++ rest ↔ k = "Action" ∨ k = "Drama" := by
    intro k
    rw [htop.perm.mem_iff, hgenres, List.mem_pair]
  have hgenre : genre = "Action" := by
    refine ((hmem genre).1 List.mem_cons_self).resolve_right ?_
    rintro rfl
    -- The other genre is left out, which has the same rounded average and the lower name.
    have hleft : "Action" ∈ rest := by simpa using (hmem "Action").2 (.inl rfl)
    exact absurd ((List.pairwise_cons.1 htop.sorted).1 "Action" hleft) (by decide +kernel)
  have hcells : averageCells .text (·.1.genre) (genreRatings nearTie.data) "Action" =
      [.text "Action", .real (.finite 7)] := by
    decide +kernel
  rw [hgenre, List.map_singleton, hcells] at hreports
  exact ⟨hreports, by decide +kernel⟩

end Rankings

end Query
end FilmReport
