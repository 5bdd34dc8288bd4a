import FilmReport.Proofs.Normalize.Splitting
import FilmReport.Proofs.Query.Exported
import FilmReport.Proofs.Query.Grouped

/-!
What the queries about countries and languages answer after a run. They count rows of memberships,
and so a movie as often as it has the country or language among its tokens; the numbers are those of
the movies just where no movie has a token twice (`tally_eq_holders_iff`, `answersRegions_of_on_run`).
-/

set_option autoImplicit false
set_option relaxedAutoImplicit false

namespace FilmReport

namespace Normalize

open Store

/-- How often a movie has a value among the tokens of its field. -/
def mentions (kind : MembershipKind) (o : SplitOptions) (value : String) (m : MovieRow) : Nat :=
  ((split (m.id.getD "") (kind.source m) o).map (·.value)).count value

/-- How often movies have a value, all together. -/
def tally (kind : MembershipKind) (o : SplitOptions) (movies : List MovieRow) (value : String) :
    Nat :=
  (movies.map (mentions kind o value)).sum

/-- The number of movies that have a value. -/
def holders (kind : MembershipKind) (o : SplitOptions) (movies : List MovieRow) (value : String) :
    Nat :=
  movies.countP fun m => mentions kind o value m ≠ 0

variable {kind : MembershipKind} {o : SplitOptions} {movies : List MovieRow} {value : String}

theorem holders_le_tally : holders kind o movies value ≤ tally kind o movies value := by
  induction movies with
  | nil => exact le_rfl
  | cons m rest ih =>
    rw [holders, List.countP_cons, ← holders, tally, List.map_cons, List.sum_cons, ← tally]
    by_cases hm : mentions kind o value m = 0
    · simpa [hm] using ih
    · simp only [hm, ne_eq, not_false_eq_true, decide_true, if_true]
      omega

/-- Movies are counted once each just where none of them has the value twice. -/
theorem tally_eq_holders_iff : tally kind o movies value = holders kind o movies value ↔
    ∀ m ∈ movies, mentions kind o value m ≤ 1 := by
  induction movies with
  | nil => simp [tally, holders]
  | cons m rest ih =>
    have hle := @holders_le_tally kind o rest value
    rw [List.forall_mem_cons, ← ih, holders, List.countP_cons, ← holders, tally, List.map_cons,
      List.sum_cons, ← tally]
    by_cases hm : mentions kind o value m = 0
    · simp [hm]
    · simp only [hm, ne_eq, not_false_eq_true, decide_true, if_true]
      omega

/-- A movie that has its language twice counts twice. -/
example :
    let m : MovieRow := ⟨some "tt1", "One", .null, none, .null, none, none,
      some "English, English", none, .null⟩
    tally .language .standard [m] "English" = 2 ∧ holders .language .standard [m] "English" = 1 := by
  decide +kernel

theorem count_membershipsOf (kind : MembershipKind) (o : SplitOptions) (movies : List MovieRow)
    (value : String) :
    ((membershipsOf kind o movies).map (·.value)).count value = tally kind o movies value := by
  rw [membershipsOf, List.map_flatMap, List.count_flatMap, tally]
  refine congrArg List.sum (List.map_congr_left fun m _ => ?_)
  rw [Function.comp_apply, List.map_map]
  rfl

theorem membershipsOf_normalMovie (kind : MembershipKind) (o : SplitOptions)
    (movies : List MovieRow) :
    membershipsOf kind o (movies.map normalMovie) = membershipsOf kind o movies := by
  rw [membershipsOf, List.flatMap_map, membershipsOf]
  refine congrArg (fun f => movies.flatMap f) (funext fun m => congrArg (List.map _) ?_)
  cases kind <;> exact split_filledText _ _ o

/-- What is published after a run are the memberships of the movies as they are then. -/
theorem Outcome.perm_published {r : Run} {s s' : Store} (h : Outcome o s r s')
    (kind : MembershipKind) : ∃ rows, s'.publishedOf kind = some rows ∧
      (rows.map (·.row)).Perm (membershipsOf kind o (s'.rowsOf .movie)) := by
  obtain ⟨rows, hrows, hperm, -⟩ := h.published kind
  refine ⟨rows, hrows, ?_⟩
  rwa [h.rowsOf_movie, membershipsOf_normalMovie]

end Normalize

namespace Query

open Store Normalize Act

/-- The cells of a group by a text: the text and what is made of its rows. -/
def groupCells (entry : String × Cell) : List Cell :=
  [.text entry.1, entry.2]

section Groups

variable {ρ : Type} (text : ρ → String) (total : List ρ → Cell) (items : List ρ)

/-- Rows grouped by a text, with one total for each group. -/
def textGroups : List (List Cell) :=
  grouped (fun x => [.text (text x)]) (fun part => [total part]) items

/-- Sorted groups are entries for the texts that come, one for each of them. -/
theorem exists_entries (order : List By) : ∃ entries : List (String × Cell),
    entries.map groupCells = sortBy order (textGroups text total items) ∧
      (entries.map Prod.fst).Nodup ∧ ∀ t c, (t, c) ∈ entries ↔
        (∃ x ∈ items, text x = t) ∧ c = total (items.filter fun x => text x = t) := by
  have hcode : Function.Injective fun t : String => [Cell.text t] := by
    intro t u h
    simpa using h
  obtain ⟨groups, hnodup, hmem, hrows⟩ := exists_groups (fun x => [.text (text x)]) text hcode
    (fun _ => rfl) (fun part => [total part]) items
  let entry : String → String × Cell := fun t => (t, total (items.filter fun x => text x = t))
  have hperm := orderBy_perm (fun t => order.map (By.key (groupCells (entry t)))) groups
  refine ⟨(orderBy (fun t => order.map (By.key (groupCells (entry t)))) groups).map entry, ?_, ?_,
    fun t c => ?_⟩
  · rw [textGroups, hrows, sortBy, orderBy_map, List.map_map]
    rfl
  · rw [List.map_map]
    exact (hperm.map _).nodup_iff.2 (by simpa [Function.comp_def, entry] using hnodup)
  · rw [List.mem_map]
    constructor
    · rintro ⟨u, hu, hentry⟩
      obtain ⟨rfl, rfl⟩ := Prod.mk.inj hentry
      exact ⟨(hmem u).1 (hperm.mem_iff.1 hu), rfl⟩
    · rintro ⟨hx, rfl⟩
      exact ⟨t, hperm.mem_iff.2 ((hmem t).2 hx), rfl⟩

end Groups

/-- Entries of values with their numbers, the greatest number first, equal ones by value. -/
structure Ranks (number : String → Nat) (entries : List (String × Nat)) : Prop where
  mem : ∀ value n, (value, n) ∈ entries ↔ n = number value ∧ 0 < n
  sorted : entries.Pairwise fun a b => b.2 < a.2 ∨ a.2 = b.2 ∧ a.1 < b.1

namespace Regions

variable {o : SplitOptions} {movies : List MovieRow} {rows : List MembershipRow}

def countCells (entry : String × Nat) : List Cell :=
  groupCells (entry.1, .int entry.2)

/-- The order of numbers downward, then of values upward. -/
def byCount (row : List Cell) : List SortKey :=
  [By.down 1, By.up 0].map (By.key row)

theorem rankBy_countCells_lt_iff {a b : String × Nat} :
    rankBy byCount (countCells b) < rankBy byCount (countCells a) ↔
      a.2 < b.2 ∨ a.2 = b.2 ∧ b.1 < a.1 := by
  simp [rankBy, byCount, countCells, groupCells, By.key, cellAt, SortKey.rank, Cell.rank,
    List.cons_lt_cons_iff, Prod.Lex.toLex_lt_toLex, eq_comm, -String.lt_iff_ltb]

/-- Sorted counts of rows by a text are a ranking of the texts by how often they come. -/
theorem exists_ranks_of_texts {ρ : Type} (text : ρ → String) {items : List ρ}
    {number : String → Nat} (hnumber : ∀ t, (items.countP fun x => text x = t) = number t) :
    ∃ entries, entries.map countCells = sortBy [.down 1, .up 0] (textGroups text count items) ∧
      Ranks number entries := by
  have htexts : Function.Injective fun t : String => [t] := fun _ _ h => List.singleton_inj.1 h
  obtain ⟨entries, hentries, hranks⟩ := exists_ranks_of_count (fun x => [.text (text x)]) text
    htexts (fun _ => rfl) lt_trichotomy (fun _ _ => rankBy_countCells_lt_iff) hnumber
  exact ⟨entries, hentries, ⟨hranks.mem, hranks.sorted⟩⟩

/-- Sorted counts of memberships are a ranking of the values by how often movies have them. -/
theorem exists_ranks {kind : MembershipKind} (hrows : rows.Perm (membershipsOf kind o movies)) :
    ∃ entries, entries.map countCells = sortBy [.down 1, .up 0] (valueCounts rows) ∧
      Ranks (tally kind o movies) entries := by
  refine exists_ranks_of_texts MembershipRow.value fun value => ?_
  rw [countP_eq_count, (hrows.map (·.value)).count_eq, count_membershipsOf]

/-- The amounts above zero of the movies of a country, each as often as its movie has the country. -/
def amountsOf (o : SplitOptions) (movies : List MovieRow) (country : String) : List Cell :=
  (movies.filter hasGross).flatMap fun m =>
    List.replicate (mentions .country o country m) m.grossAmount

/-- The share of each country of a movie with an amount above zero, in the amounts of all movies. -/
structure Shares (o : SplitOptions) (movies : List MovieRow) (entries : List (String × Cell)) :
    Prop where
  once : (entries.map Prod.fst).Nodup
  mem : ∀ country, country ∈ entries.map Prod.fst ↔
    ∃ m ∈ movies, hasGross m = true ∧ mentions .country o country m ≠ 0
  share : ∀ country share, (country, share) ∈ entries →
    ∃ amounts, amounts.Perm (amountsOf o movies country) ∧
      share = rounded 2 (percentage (sum amounts) (sum (movies.map (·.grossAmount))))

theorem sublist_of_replicate {α β : Type} {items : List α} {n : α → Nat} {f : α → β}
    (h : ∀ a ∈ items, n a ≤ 1) :
    (items.flatMap fun a => List.replicate (n a) (f a)).Sublist (items.map f) := by
  induction items with
  | nil => exact .slnil
  | cons a rest ih =>
    obtain ⟨ha, hrest⟩ := List.forall_mem_cons.1 h
    have hfirst : (List.replicate (n a) (f a)).Sublist [f a] :=
      (List.replicate_sublist_replicate (f a)).2 ha
    rw [List.flatMap_cons, List.map_cons]
    exact hfirst.append (ih hrest)

/-- The amounts of a country that no movie has twice are amounts of different movies. -/
theorem amountsOf_sublist {country : String}
    (h : ∀ m ∈ movies, mentions .country o country m ≤ 1) :
    (amountsOf o movies country).Sublist (movies.map (·.grossAmount)) :=
  (sublist_of_replicate fun m hm => h m (List.mem_of_mem_filter hm)).trans
    (List.filter_sublist.map _)

theorem filter_id_eq {m : MovieRow} (hids : (movies.map (·.id)).Nodup) (hm : m ∈ movies) :
    (movies.filter fun other => other.id = m.id) = [m] := by
  induction movies with
  | nil => exact absurd hm List.not_mem_nil
  | cons first rest ih =>
    rw [List.map_cons, List.nodup_cons] at hids
    rcases List.mem_cons.1 hm with rfl | hrest
    · have hnone : (rest.filter fun other => other.id = m.id) = [] := by
        rw [List.filter_eq_nil_iff]
        intro other hother hsame
        exact hids.1 (of_decide_eq_true hsame ▸ List.mem_map_of_mem hother)
      rw [List.filter_cons_of_pos (by simp), hnone]
    · have hne : first.id ≠ m.id := fun hsame => hids.1 (hsame ▸ List.mem_map_of_mem hrest)
      rw [List.filter_cons_of_neg (by simpa using hne), ih hids.2 hrest]

/-- A movie with the memberships in its countries. -/
def ownRows (o : SplitOptions) (m : MovieRow) : List (MembershipRow × MovieRow) :=
  (split (m.id.getD "") m.country o).map fun membership => (membership.row, m)

/-- The amount of a movie comes once for each of its memberships in a country. -/
theorem map_amount_ownRows (country : String) (m : MovieRow) :
    ((ownRows o m).filter fun x => x.1.value = country).map (fun x => x.2.grossAmount) =
      List.replicate (mentions .country o country m) m.grossAmount := by
  have hmentions : mentions .country o country m =
      ((split (m.id.getD "") m.country o).filter fun x => x.value = country).length := by
    rw [← List.countP_eq_length_filter, countP_eq_count]
    rfl
  rw [ownRows, List.filter_map, List.map_map, hmentions, ← List.map_const']
  rfl

theorem filter_hasGross_ownRows (m : MovieRow) : ((ownRows o m).filter fun x => hasGross x.2) =
    if hasGross m then ownRows o m else [] := by
  rw [ownRows, List.filter_map]
  cases hgross : hasGross m <;> simp [Function.comp_def, hgross]

theorem flatMap_filter {α β : Type} (p : α → Bool) (f : α → List β) (items : List α) :
    (items.filter p).flatMap f = items.flatMap fun a => if p a then f a else [] := by
  induction items with
  | nil => rfl
  | cons a rest ih =>
    rw [List.filter_cons, List.flatMap_cons, ← ih]
    split <;> simp

/-- The memberships in countries of movies with an amount above zero, each with its movie. -/
def grossRows (s : Store) (rows : List MembershipRow) : List (MembershipRow × MovieRow) :=
  (valueMovies s rows).filter fun x => hasGross x.2

section Shares

variable {s : Store} (hids : ((s.rowsOf .movie).map (·.id)).Nodup)
  (hidentified : Source.Identified (s.rowsOf .movie))
  (hrows : rows.Perm (membershipsOf .country o (s.rowsOf .movie)))

include hids hidentified hrows

/-- Memberships find their own movies, whose identifiers tell them apart. -/
theorem valueMovies_perm :
    (valueMovies s rows).Perm ((s.rowsOf .movie).flatMap (ownRows o)) := by
  refine (join_perm hrows (.refl _) _).trans (.of_eq ?_)
  rw [join, membershipsOf, List.flatMap_assoc]
  refine List.flatMap_congr fun m hm => ?_
  obtain ⟨id, hid, -⟩ := hidentified m hm
  rw [ownRows, List.flatMap_map,
    List.map_eq_flatMap (f := fun membership : Membership => (membership.row, m))]
  refine List.flatMap_congr fun membership hmembership => ?_
  obtain ⟨-, -, hmovie, -⟩ := exists_of_mem_split hmembership
  have hrow : membership.row.movieId = id := by
    rw [Membership.row, hmovie, hid, Option.getD_some]
  have hown : ((s.rowsOf .movie).filter fun other =>
      decide (other.id = some membership.row.movieId)) = [m] := by
    rw [← filter_id_eq hids hm, hid, hrow]
  rw [hown]
  rfl

/-- The rows of a country have its amounts. -/
theorem amounts_perm (country : String) :
    (((grossRows s rows).filter fun x => x.1.value = country).map fun x => x.2.grossAmount).Perm
      (amountsOf o (s.rowsOf .movie) country) := by
  have hperm := valueMovies_perm hids hidentified hrows
  refine (((hperm.filter _).filter _).map _).trans (.of_eq ?_)
  rw [List.filter_flatMap, List.filter_flatMap, List.map_flatMap, amountsOf, flatMap_filter]
  refine List.flatMap_congr fun m _ => ?_
  rw [filter_hasGross_ownRows]
  split
  · exact map_amount_ownRows country m
  · rfl

/-- The sorted groups of countries tell the share of each country that a movie with an amount above
zero has. -/
theorem exists_shares (order : List By) : ∃ entries,
    entries.map groupCells = sortBy order (textGroups (fun x => x.1.value)
      (fun part => rounded 2 (percentage (sum (part.map fun x => x.2.grossAmount))
        (sum ((s.rowsOf .movie).map (·.grossAmount))))) (grossRows s rows)) ∧
      Shares o (s.rowsOf .movie) entries := by
  obtain ⟨entries, hentries, hnodup, hmem⟩ := exists_entries
    (fun x : MembershipRow × MovieRow => x.1.value) (fun part =>
      rounded 2 (percentage (sum (part.map fun x => x.2.grossAmount))
        (sum ((s.rowsOf .movie).map (·.grossAmount))))) (grossRows s rows) order
  refine ⟨entries, hentries, ⟨hnodup, fun country => ?_, fun country share h => ?_⟩⟩
  · have hkeys : country ∈ entries.map Prod.fst ↔ ∃ x ∈ grossRows s rows, x.1.value = country := by
      rw [List.mem_map]
      constructor
      · rintro ⟨entry, hentry, rfl⟩
        exact ((hmem entry.1 entry.2).1 hentry).1
      · exact fun hx => ⟨(country, _), (hmem country _).2 ⟨hx, rfl⟩, rfl⟩
    have hsome : country ∈ entries.map Prod.fst ↔
        ((grossRows s rows).filter fun x => x.1.value = country) ≠ [] := by
      rw [hkeys, Ne, List.filter_eq_nil_iff]
      simp
    have hamounts := amounts_perm hids hidentified hrows country
    have hnone : ((grossRows s rows).filter fun x => x.1.value = country) = [] ↔
        amountsOf o (s.rowsOf .movie) country = [] := by
      rw [← List.map_eq_nil_iff (f := fun x => x.2.grossAmount)]
      exact ⟨fun h => (h ▸ hamounts).nil_eq.symm, fun h => (h ▸ hamounts).eq_nil⟩
    rw [hsome, Ne, hnone, amountsOf, List.flatMap_eq_nil_iff]
    simp [List.mem_filter]
  · exact ⟨_, amounts_perm hids hidentified hrows country, ((hmem country share).1 h).2⟩

end Shares

/-- What is printed of a value with its number. -/
def countRow (column numberColumn : String) (entry : String × Nat) : Row :=
  [(column, .text entry.1), (numberColumn, .number (.ofInt entry.2))]

/-- What the queries about the languages and countries of movies answer in a world, however they are
asked: the numbers that they call numbers of movies, and the shares of countries. -/
structure AnswersRegions (o : SplitOptions) (w : World) : Prop where
  language : ∃ entries, Ranks (tally .language o (w.data.rowsOf .movie)) entries ∧
    ∀ logger given p, Params.resolve given = .ok p →
      (((Runner.make logger catalog).runQuery (some (.string "Q14")) given).on w).1.map Prod.fst =
        .ok (.ok ⟨"Q14", 2, "Most common language among movies", ["language", "movie_count"],
          (entries.take 1).map (countRow "language" "movie_count")⟩)
  country : ∃ entries, Ranks (tally .country o (w.data.rowsOf .movie)) entries ∧
    ∀ logger given p, Params.resolve given = .ok p →
      (((Runner.make logger catalog).runQuery (some (.string "Q20")) given).on w).1.map Prod.fst =
        .ok (.ok ⟨"Q20", 3, "Top 5 countries by number of movies produced",
          ["country", "total_movies"], (entries.take 5).map (countRow "country" "total_movies")⟩)
  share : ∃ entries, Shares o (w.data.rowsOf .movie) entries ∧
    ∀ logger given p, Params.resolve given = .ok p →
      (((Runner.make logger catalog).runQuery (some (.string "Q30")) given).on w).1.map Prod.fst =
        .ok (.ok ⟨"Q30", 4, "Percentage contribution of each country to total worldwide gross",
          ["country", "percentage_gross"], entries.map fun entry =>
            [("country", .text entry.1), ("percentage_gross", printed entry.2)]⟩)
  /-- The numbers are numbers of movies just where no movie has the value twice. -/
  counted : ∀ kind value, tally kind o (w.data.rowsOf .movie) value =
    holders kind o (w.data.rowsOf .movie) value ↔
      ∀ m ∈ w.data.rowsOf .movie, mentions kind o value m ≤ 1
  /-- The share of a country that no movie has twice is taken of some of all amounts. -/
  different : ∀ country, (∀ m ∈ w.data.rowsOf .movie, mentions .country o country m ≤ 1) →
    (amountsOf o (w.data.rowsOf .movie) country).Sublist
      ((w.data.rowsOf .movie).map (·.grossAmount))

/-- A query that can be made ready and printed answers what is printed for its entries. -/
theorem runQuery_of_prints {d : Definition} (hd : d ∈ catalog) {w : World} (hw : w.obstacle = none)
    (hprepare : d.statement.prepare w.data = .ok ()) {given : Fields} {p : Params}
    (hgiven : Params.resolve given = .ok p) (hprints : d.statement.Prints p w.data) {α : Type}
    {entries : List α} {f : α → List Cell}
    (hrows : d.statement.rows p w.data = (entries.map f).map (List.map .cell))
    (logger : Journal.Logger) :
    (((Runner.make logger catalog).runQuery (some (.string d.id)) given).on w).1.map Prod.fst =
      .ok (.ok ⟨d.id, d.segment, d.label, d.statement.columns,
        entries.map fun entry => d.statement.columns.zip ((f entry).map printed)⟩) := by
  have hanswer := (regular_of_mem_catalog d hd).answerOn_of_prints hprepare hprints
  rw [hrows, List.map_map, List.map_map] at hanswer
  rw [Runner.on_runQuery nodup_ids_catalog hd given hw, Runner.answerTo, hgiven]
  dsimp only
  rw [hanswer]
  simp only [Function.comp_def, List.map_map, Datum.printed]

/-- After a run with options that the given fields ask for, the queries about languages and
countries count memberships. Movies are told apart by their identifiers, as in every store. -/
theorem answersRegions_of_on_run {journal : Journal.Logger} {given : Fields} {r : Run}
    {w w' : World} (hids : ((w.data.rowsOf .movie).map (·.id)).Nodup)
    (h : (Normalize.run journal given).on w = (.ok r, w')) :
    ∃ o, SplitOptions.resolve given = .ok o ∧ AnswersRegions o w' := by
  obtain ⟨o, s, hresolve, hready, hperformed, hstatus, hrecorded, hcontinues⟩ := of_on_run h
  obtain ⟨hnormalizable, hx, rfl⟩ := performed_iff.1 hperformed
  obtain ⟨hprogress, hwarnings⟩ := Prod.mk.inj hx
  have houtcome := outcome_of_normalizable hnormalizable hprogress hwarnings hstatus hrecorded
  have hw := (hcontinues.ready.2 hready).obstacle
  obtain ⟨languages, hlanguages, hlanguagePerm⟩ := houtcome.perm_published .language
  obtain ⟨countries, hcountries, hcountryPerm⟩ := houtcome.perm_published .country
  have hlanguageRows : w'.data.rowsOf .movieLanguage = languages.map (·.row) :=
    rowsOf_of_eq_some (t := .movieLanguage) hlanguages
  have hcountryRows : w'.data.rowsOf .movieCountry = countries.map (·.row) :=
    rowsOf_of_eq_some (t := .movieCountry) hcountries
  have hids' : ((w'.data.rowsOf .movie).map (·.id)).Nodup := by
    rw [houtcome.rowsOf_movie, List.map_map]
    exact hids
  have hidentified : Source.Identified (w'.data.rowsOf .movie) := by
    rw [houtcome.rowsOf_movie]
    exact (identified_map (f := normalMovie) fun _ => rfl).2 houtcome.identified
  have hasMovie : w'.data.has .movie = true :=
    (congrArg Option.isSome houtcome.movie).trans (Option.isSome_map.trans hnormalizable.movie)
  have hasLanguage : w'.data.has .movieLanguage = true := Option.isSome_of_eq_some hlanguages
  have hasCountry : w'.data.has .movieCountry = true := Option.isSome_of_eq_some hcountries
  refine ⟨o, hresolve, ⟨?_, ?_, ?_, fun kind value => tally_eq_holders_iff,
    fun country => amountsOf_sublist⟩⟩
  · obtain ⟨entries, hentries, hranks⟩ := exists_ranks hlanguagePerm
    refine ⟨entries, hranks, fun logger given p hgiven => ?_⟩
    refine runQuery_of_prints (d := commonestLanguage) (f := countCells) (by simp [catalog]) hw
      (needs_eq_ok (by simpa using hasLanguage)) hgiven commonestLanguage_prints ?_ logger
    rw [List.map_take, hentries, ← hlanguageRows]
    rfl
  · obtain ⟨entries, hentries, hranks⟩ := exists_ranks hcountryPerm
    refine ⟨entries, hranks, fun logger given p hgiven => ?_⟩
    refine runQuery_of_prints (d := busiestCountries) (f := countCells) (by simp [catalog]) hw
      (needs_eq_ok (by simpa using hasCountry)) hgiven busiestCountries_prints ?_ logger
    rw [List.map_take, hentries, ← hcountryRows]
    rfl
  · obtain ⟨entries, hentries, hshares⟩ :=
      exists_shares hids' hidentified hcountryPerm [.down 1, .up 0]
    have hprepare : needsAmount [.movieCountry, .movie] "m.worldwide_gross_num" w'.data =
        .ok () := by
      rw [needsAmount, needs_eq_ok (by simp [hasCountry, hasMovie]), houtcome.hasAmount,
        if_pos hnormalizable.hasAmount]
      rfl
    refine ⟨entries, hshares, fun logger given p hgiven => ?_⟩
    refine runQuery_of_prints (d := grossShares) (f := groupCells) (by simp [catalog]) hw hprepare
      hgiven (grossShares_prints houtcome.isTerm_grossAmount) ?_ logger
    rw [hentries, ← hcountryRows]
    rfl

/-- After a run on one film of one country. -/
theorem answersRegions_of_staleFilm :
    ∃ r w' o, (Normalize.run .quiet []).on (World.inMemory staleFilm [some ⟨0⟩]) = (.ok r, w') ∧
      SplitOptions.resolve [] = .ok o ∧ AnswersRegions o w' ∧
      tally .country o (w'.data.rowsOf .movie) "Norway" = 1 := by
  have hreturns : (Normalize.run .quiet []).returns (World.inMemory staleFilm [some ⟨0⟩])
      (fun _ w' => decide (tally .country .standard (w'.data.rowsOf .movie) "Norway" = 1)) =
        true := by
    decide +kernel
  have hstandard : SplitOptions.resolve [] = .ok .standard := eq_ok_of_toOption (by decide +kernel)
  obtain ⟨r, w', hon, hcount⟩ := exists_on_of_returns hreturns
  obtain ⟨o, hresolve, hanswers⟩ :=
    answersRegions_of_on_run (w := World.inMemory staleFilm [some ⟨0⟩])
      (List.nodup_singleton (some "tt1")) hon
  obtain rfl : SplitOptions.standard = o := Except.ok.inj (hstandard.symm.trans hresolve)
  exact ⟨r, w', _, hon, hresolve, hanswers, of_decide_eq_true hcount⟩

end Regions
end Query
end FilmReport
