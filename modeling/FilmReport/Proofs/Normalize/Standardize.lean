import FilmReport.Proofs.Operation.Orderly
import FilmReport.Proofs.Session.Computes
import FilmReport.Proofs.Store.Update

/-!
Standardization: the standard rules one after the other fill the gaps of movies, then those of
ratings, and leave everything else. Missing texts of movies get the word for missing texts, missing
amounts and ratings the number for missing numbers. Each gap is filled and counted for itself.
-/

set_option autoImplicit false
set_option relaxedAutoImplicit false

namespace FilmReport.Normalize

open Store Act

def AppliedAll : List Rule → Fields → Store → Fields → Store → Prop
  | [], counts, s, counts', s' => counts' = counts ∧ s' = s
  | r :: rest, counts, s, counts', s' =>
    ∃ n t, (r.apply s).result = .ok (n, t) ∧
      AppliedAll rest (counts.put r.name (.ofNat n)) t counts' s'

theorem computes_applyRules (counts : Fields) (rules : List Rule) :
    Computes (applyRules counts (rules.map .ok)) (AppliedAll rules counts) := by
  induction rules generalizing counts with
  | nil => exact Computes.pure counts
  | cons r rest ih =>
    refine ((Computes.pure r).bind fun r' => ((Computes.change fun s => sound_apply r' s).reporting
      _).bind fun n => ih (counts.put r'.name (.ofNat n))).of_iff fun s counts' s' => ?_
    constructor
    · rintro ⟨_, _, ⟨rfl, rfl⟩, n, t, happly, hrest⟩
      exact ⟨n, t, happly, hrest⟩
    · rintro ⟨n, t, happly, hrest⟩
      exact ⟨r, s, ⟨rfl, rfl⟩, n, t, happly, hrest⟩

theorem raising_ok_bind {α β : Type} (a : α) (f : α → Act β) :
    (raising (.ok a) >>= f) = f a := rfl

theorem computes_standardize (logger : Journal.Logger) :
    Computes (standardize logger) (AppliedAll Rule.standard []) := by
  have hrules := (computes_applyRules [] Rule.standard).inTransaction "normalizer.standardize"
  rw [standardize, standardizeBy, raising_ok_bind]
  refine (hrules.bind fun counts => (Computes.log _ _ _ _).bind fun _ =>
    Computes.pure counts).of_iff fun s counts s' => ?_
  constructor
  · rintro ⟨_, t, happlied, -, _, rfl, rfl, rfl⟩
    exact happlied
  · intro happlied
    exact ⟨counts, s', happlied, ⟨⟩, s', rfl, rfl, rfl⟩

/-- A column of a table whose missing values are filled by a rule. -/
structure Gap (t : Table) where
  rule : Rule
  column : Column t.Row
  set : t.Row → t.Row

namespace Gap

variable {t : Table}

def isIn (g : Gap t) (row : t.Row) : Bool :=
  g.rule.selects (g.column.get row)

def fill (g : Gap t) (rows : List (Numbered t.Row)) : List (Numbered t.Row) :=
  setWhere g.isIn g.set rows

/-- A rule that fills a gap of a table with all its columns. -/
structure Lawful (g : Gap t) : Prop where
  named : named? .notModifiable g.rule.table = .ok t
  column : ∀ s : Store, s.hasAmount = true → s.column? t g.rule.column = .ok g.column.numbered
  settable : Settable t g.column g.rule.sentinel g.set

/-- All rows with the gap meet the conditions of the table when it is filled. -/
def Meets (g : Gap t) (rows : List (Numbered t.Row)) : Prop :=
  ∀ n ∈ rows, g.isIn n.row = true → meetsConditions t (g.set n.row) = .ok ()

theorem Lawful.apply_eq_ok {g : Gap t} (h : g.Lawful) {s s' : Store} {n : Nat}
    (hs : s.hasAmount = true) :
    (g.rule.apply s).result = .ok (n, s') ↔ ∃ rows, s.get t = some rows ∧ g.Meets rows ∧
      n = rows.countP (fun row => g.isIn row.row) ∧ s' = s.put t (some (g.fill rows)) := by
  have hwhich : g.rule.rows t s = .ok fun row => g.isIn row.row := by
    rw [Rule.rows, h.column s hs]
    rfl
  rw [Rule.apply, h.named]
  exact h.settable.update_eq_ok (h.column s hs) hwhich

def fillAll (gaps : List (Gap t)) (rows : List (Numbered t.Row)) : List (Numbered t.Row) :=
  gaps.foldl (fun rows g => g.fill rows) rows

/-- The numbers of gaps that are filled one after the other, each under the name of its rule. -/
def countAll : List (Gap t) → Fields → List (Numbered t.Row) → Fields
  | [], counts, _ => counts
  | g :: rest, counts, rows =>
    countAll rest (counts.put g.rule.name (.ofNat (rows.countP fun row => g.isIn row.row)))
      (g.fill rows)

def MeetsAll : List (Gap t) → List (Numbered t.Row) → Prop
  | [], _ => True
  | g :: rest, rows => g.Meets rows ∧ MeetsAll rest (g.fill rows)

/-- The rules of lawful gaps fill them all. -/
theorem appliedAll_iff {gaps : List (Gap t)} (hgaps : ∀ g ∈ gaps, g.Lawful) {rest : List Rule}
    {counts counts' : Fields} {s s' : Store} {rows : List (Numbered t.Row)}
    (hs : s.hasAmount = true) (hrows : s.get t = some rows) :
    AppliedAll (gaps.map (·.rule) ++ rest) counts s counts' s' ↔ MeetsAll gaps rows ∧
      AppliedAll rest (countAll gaps counts rows) (s.put t (some (fillAll gaps rows)))
        counts' s' := by
  induction gaps generalizing counts s rows with
  | nil =>
    rw [fillAll, List.foldl_nil, ← hrows, put_get]
    exact ⟨fun h => ⟨trivial, h⟩, fun h => h.2⟩
  | cons g gaps ih =>
    obtain ⟨hg, hrest⟩ := List.forall_mem_cons.1 hgaps
    have hput := (hasAmount_put s t (some (g.fill rows))).trans hs
    have hnext := @ih hrest
      (counts.put g.rule.name (.ofNat (rows.countP fun row => g.isIn row.row))) _ _ hput
      (get_put s t (some (g.fill rows)))
    rw [put_put] at hnext
    constructor
    · rintro ⟨n, t', happly, h⟩
      obtain ⟨rows', hrows', hmeets, rfl, rfl⟩ := (hg.apply_eq_ok hs).1 happly
      obtain rfl : rows = rows' := Option.some.inj (hrows.symm.trans hrows')
      obtain ⟨hmeetsAll, hfinal⟩ := hnext.1 h
      exact ⟨⟨hmeets, hmeetsAll⟩, hfinal⟩
    · rintro ⟨⟨hmeets, hmeetsAll⟩, hfinal⟩
      exact ⟨_, _, (hg.apply_eq_ok hs).2 ⟨rows, hrows, hmeets, rfl, rfl⟩,
        hnext.2 ⟨hmeetsAll, hfinal⟩⟩

end Gap

theorem Gap.lawful_of {t : Table} {g : Gap t} (htable : g.rule.table = t.name)
    (hlower : g.rule.column.toList.map Char.toLower = g.rule.column.toList)
    (hnumber : g.rule.column ∉ numberNames)
    (hfind : (layout t).columns.find? (fun c => c.name = g.rule.column) = some g.column)
    (hsettable : Settable t g.column g.rule.sentinel g.set) : g.Lawful where
  named := by rw [htable, named?_name]
  column := by
    intro s hs
    refine column?_eq_ok hlower hnumber ?_
    rw [columnsOf_of_hasAmount hs]
    exact hfind
  settable := hsettable

/-- The gap of a text column of the movies. -/
def textGap (name : String) (get : MovieRow → Option String)
    (set : Option String → MovieRow → MovieRow) : Gap .movie :=
  ⟨⟨"movie", name, true⟩, .optionalText name get set, set (some missingWord)⟩

def amountGap : Gap .movie where
  rule := ⟨"movie", "worldwide_gross_num", false⟩
  column := .real amountColumn (·.grossAmount) fun v r => { r with grossAmount := v }
  set r := { r with grossAmount := .real (.ofInt missingNumber) }

def countryGap : Gap .movie :=
  textGap "country" (·.country) fun v r => { r with country := v }

def languagesGap : Gap .movie :=
  textGap "languages" (·.languages) fun v r => { r with languages := v }

def companyGap : Gap .movie :=
  textGap "production_company" (·.productionCompany) fun v r => { r with productionCompany := v }

def incomeGap : Gap .movie :=
  textGap "worldwide_gross_income" (·.grossIncome) fun v r => { r with grossIncome := v }

/-- The gaps of the movies, in the order in which they are filled. -/
def movieGaps : List (Gap .movie) :=
  [countryGap, languagesGap, companyGap, incomeGap, amountGap]

def averageGap : Gap .ratings where
  rule := ⟨"ratings", "avg_rating", false⟩
  column := .real "avg_rating" (·.avgRating) fun v r => { r with avgRating := v }
  set r := { r with avgRating := .real (.ofInt missingNumber) }

def votesGap : Gap .ratings where
  rule := ⟨"ratings", "total_votes", false⟩
  column := .integer "total_votes" (·.totalVotes) fun v r => { r with totalVotes := v }
  set r := { r with totalVotes := .int missingNumber }

def medianGap : Gap .ratings where
  rule := ⟨"ratings", "median_rating", false⟩
  column := .integer "median_rating" (·.medianRating) fun v r => { r with medianRating := v }
  set r := { r with medianRating := .int missingNumber }

/-- The gaps of the ratings, in the order in which they are filled. -/
def ratingGaps : List (Gap .ratings) :=
  [averageGap, votesGap, medianGap]

theorem standard_eq :
    Rule.standard = movieGaps.map (·.rule) ++ ratingGaps.map (·.rule) := rfl

theorem lawful_movieGaps : ∀ g ∈ movieGaps, g.Lawful := by
  have htext : ∀ {name : String} {get : MovieRow → Option String}
      {set : Option String → MovieRow → MovieRow}, (∀ v r, (set v r).id = r.id) →
      name.toList.map Char.toLower = name.toList → name ∉ numberNames →
      movieLayout.columns.find? (fun c => c.name = name) = some (.optionalText name get set) →
      name ≠ identifierColumn → (textGap name get set).Lawful := by
    intro name get set hid hlower hnumber hfind hidentifier
    refine Gap.lawful_of rfl hlower hnumber hfind ?_
    exact {
      put := fun row => rfl
      identity := fun row => decide_eq_true (hid _ row).symm
      numbers := by
        intro h
        have hname : name = Column.numberName := h
        exact hnumber (hname ▸ List.mem_cons_self)
      identifier := hidentifier
      keys := by
        intro key hkey hmem
        obtain rfl := List.mem_singleton.1 hkey
        exact hidentifier (List.mem_singleton.1 hmem)
      references := fun ref href => absurd href List.not_mem_nil }
  have hamount : amountGap.Lawful := by
    refine Gap.lawful_of rfl (by decide) (by decide) rfl ?_
    exact ⟨fun _ => rfl, fun _ => decide_eq_true rfl, by decide, by decide, by decide, by decide⟩
  simp only [movieGaps, List.forall_mem_cons, List.not_mem_nil, false_implies, implies_true,
    and_true]
  exact ⟨htext (fun _ _ => rfl) (by decide) (by decide) rfl (by decide),
    htext (fun _ _ => rfl) (by decide) (by decide) rfl (by decide),
    htext (fun _ _ => rfl) (by decide) (by decide) rfl (by decide),
    htext (fun _ _ => rfl) (by decide) (by decide) rfl (by decide), hamount⟩

theorem lawful_ratingGaps : ∀ g ∈ ratingGaps, g.Lawful := by
  simp only [ratingGaps, List.forall_mem_cons, List.not_mem_nil, false_implies, implies_true,
    and_true]
  refine ⟨Gap.lawful_of rfl (by decide) (by decide) rfl ?_,
    Gap.lawful_of rfl (by decide) (by decide) rfl ?_,
    Gap.lawful_of rfl (by decide) (by decide) rfl ?_⟩
  · exact ⟨fun _ => rfl, fun _ => rfl, by decide, by decide, by decide, by decide⟩
  · exact ⟨fun _ => rfl, fun _ => rfl, by decide, by decide, by decide, by decide⟩
  · exact ⟨fun _ => rfl, fun _ => rfl, by decide, by decide, by decide, by decide⟩

def isBlankText : Option String → Bool
  | none => true
  | some s => Text.trimBlank s == ""

/-- A text with the word for missing texts in place of one that is missing or blank. -/
def filledText (text : Option String) : Option String :=
  if isBlankText text then some missingWord else text

def filledNumber (missing c : Cell) : Cell :=
  if c.isNull then missing else c

def filledMovie (m : MovieRow) : MovieRow :=
  { m with
    country := filledText m.country
    languages := filledText m.languages
    productionCompany := filledText m.productionCompany
    grossIncome := filledText m.grossIncome
    grossAmount := filledNumber (.real (.ofInt missingNumber)) m.grossAmount }

def filledRating (r : RatingRow) : RatingRow :=
  { r with
    avgRating := filledNumber (.real (.ofInt missingNumber)) r.avgRating
    totalVotes := filledNumber (.int missingNumber) r.totalVotes
    medianRating := filledNumber (.int missingNumber) r.medianRating }

/-- The numbers of gaps in texts of movies, each under the name of its rule. -/
def textCounts (movies : List MovieRow) : Fields :=
  [("movie.country", .ofNat (movies.countP fun m => isBlankText m.country)),
   ("movie.languages", .ofNat (movies.countP fun m => isBlankText m.languages)),
   ("movie.production_company", .ofNat (movies.countP fun m => isBlankText m.productionCompany)),
   ("movie.worldwide_gross_income", .ofNat (movies.countP fun m => isBlankText m.grossIncome))]

/-- The numbers of gaps of movies of which `missing` are in the amounts. -/
def movieCounts (movies : List MovieRow) (missing : Nat) : Fields :=
  textCounts movies ++ [("movie.worldwide_gross_num", .ofNat missing)]

/-- The numbers of gaps of ratings, each under the name of its rule. -/
def ratingCounts (ratings : List RatingRow) : Fields :=
  [("ratings.avg_rating", .ofNat (ratings.countP fun r => r.avgRating.isNull)),
   ("ratings.total_votes", .ofNat (ratings.countP fun r => r.totalVotes.isNull)),
   ("ratings.median_rating", .ofNat (ratings.countP fun r => r.medianRating.isNull))]

/-- Rows that are changed each for itself. -/
def mapRows {ρ : Type} (f : ρ → ρ) (rows : List (Numbered ρ)) : List (Numbered ρ) :=
  rows.map fun n => { n with row := f n.row }

theorem selects_text {r : Rule} (h : r.isText = true) (x : Option String) :
    r.selects (.ofText? x) = isBlankText x := by
  cases x with
  | none => rfl
  | some s => simp [Cell.ofText?, Rule.selects, isBlankText, h]

theorem selects_number {r : Rule} (h : r.isText = false) (c : Cell) :
    r.selects c = c.isNull := by
  cases c <;> simp [Rule.selects, Cell.isNull, h]

def Gap.step {t : Table} (g : Gap t) (row : t.Row) : t.Row :=
  if g.isIn row then g.set row else row

theorem mapRows_mapRows {ρ : Type} (f g : ρ → ρ) (rows : List (Numbered ρ)) :
    mapRows g (mapRows f rows) = mapRows (fun row => g (f row)) rows := by
  rw [mapRows, mapRows, mapRows, List.map_map]
  rfl

theorem map_mapRows {ρ : Type} (f g : ρ → ρ) (rows : Option (List (Numbered ρ))) :
    (rows.map (mapRows f)).map (mapRows g) = rows.map (mapRows fun row => g (f row)) := by
  rw [Option.map_map]
  exact congrArg (fun h => rows.map h) (funext (mapRows_mapRows f g))

theorem Gap.fill_eq {t : Table} (g : Gap t) (rows : List (Numbered t.Row)) :
    g.fill rows = mapRows g.step rows := by
  rw [Gap.fill, setWhere, mapRows]
  refine List.map_congr_left fun n _ => ?_
  rw [Gap.step]
  split <;> rfl

theorem Gap.fillAll_eq {t : Table} (gaps : List (Gap t)) (rows : List (Numbered t.Row)) :
    Gap.fillAll gaps rows = mapRows (fun row => gaps.foldl (fun row g => g.step row) row) rows := by
  induction gaps generalizing rows with
  | nil =>
    rw [mapRows]
    exact (List.map_id rows).symm
  | cons g rest ih =>
    rw [Gap.fillAll, List.foldl_cons, ← Gap.fillAll, ih, Gap.fill_eq, mapRows_mapRows]
    rfl

theorem step_textGap {name : String} {get : MovieRow → Option String}
    {set : Option String → MovieRow → MovieRow} (hget : ∀ m, set (get m) m = m) (m : MovieRow) :
    (textGap name get set).step m = set (filledText (get m)) m := by
  have hin : (textGap name get set).isIn m = isBlankText (get m) := selects_text rfl (get m)
  rw [Gap.step, hin, filledText]
  split
  · rfl
  · exact (hget m).symm

theorem step_countryGap (m : MovieRow) :
    countryGap.step m = { m with country := filledText m.country } :=
  step_textGap (fun _ => rfl) m

theorem step_languagesGap (m : MovieRow) :
    languagesGap.step m = { m with languages := filledText m.languages } :=
  step_textGap (fun _ => rfl) m

theorem step_companyGap (m : MovieRow) :
    companyGap.step m = { m with productionCompany := filledText m.productionCompany } :=
  step_textGap (fun _ => rfl) m

theorem step_incomeGap (m : MovieRow) :
    incomeGap.step m = { m with grossIncome := filledText m.grossIncome } :=
  step_textGap (fun _ => rfl) m

/-- A gap of numbers, filled by writing the number for missing ones. -/
theorem Gap.step_of_number {t : Table} (g : Gap t) {row : t.Row} {missing c : Cell}
    (put : Cell → t.Row) (hin : g.isIn row = c.isNull) (hset : g.set row = put missing)
    (hput : put c = row) : g.step row = put (filledNumber missing c) := by
  rw [Gap.step, hin, filledNumber]
  split
  · exact hset
  · exact hput.symm

theorem step_amountGap (m : MovieRow) : amountGap.step m =
    { m with grossAmount := filledNumber (.real (.ofInt missingNumber)) m.grossAmount } :=
  amountGap.step_of_number (fun c => { m with grossAmount := c }) (selects_number rfl _) rfl rfl

theorem step_averageGap (r : RatingRow) : averageGap.step r =
    { r with avgRating := filledNumber (.real (.ofInt missingNumber)) r.avgRating } :=
  averageGap.step_of_number (fun c => { r with avgRating := c }) (selects_number rfl _) rfl rfl

theorem step_votesGap (r : RatingRow) : votesGap.step r =
    { r with totalVotes := filledNumber (.int missingNumber) r.totalVotes } :=
  votesGap.step_of_number (fun c => { r with totalVotes := c }) (selects_number rfl _) rfl rfl

theorem step_medianGap (r : RatingRow) : medianGap.step r =
    { r with medianRating := filledNumber (.int missingNumber) r.medianRating } :=
  medianGap.step_of_number (fun c => { r with medianRating := c }) (selects_number rfl _) rfl rfl

theorem fillAll_movieGaps (rows : List (Numbered MovieRow)) :
    Gap.fillAll movieGaps rows = mapRows filledMovie rows := by
  have hstep : (fun m => movieGaps.foldl (fun m g => g.step m) m) = filledMovie := by
    funext m
    simp only [movieGaps, List.foldl_cons, List.foldl_nil, step_countryGap, step_languagesGap,
      step_companyGap, step_incomeGap, step_amountGap]
    rfl
  rw [Gap.fillAll_eq, hstep]

theorem fillAll_ratingGaps (rows : List (Numbered RatingRow)) :
    Gap.fillAll ratingGaps rows = mapRows filledRating rows := by
  have hstep : (fun r => ratingGaps.foldl (fun r g => g.step r) r) = filledRating := by
    funext r
    simp only [ratingGaps, List.foldl_cons, List.foldl_nil, step_averageGap, step_votesGap,
      step_medianGap]
    rfl
  rw [Gap.fillAll_eq, hstep]

def Gap.count {t : Table} (g : Gap t) (rows : List (Numbered t.Row)) : Nat :=
  rows.countP fun n => g.isIn n.row

/-- A gap that is not filled along with another is counted after that one as before. -/
theorem Gap.count_fill {t : Table} {g h : Gap t} (hgap : ∀ row, h.isIn (g.step row) = h.isIn row)
    (rows : List (Numbered t.Row)) : h.count (g.fill rows) = h.count rows := by
  rw [Gap.count, Gap.count, Gap.fill_eq, mapRows, List.countP_map]
  exact congrFun (congrArg List.countP (funext fun n => hgap n.row)) rows

/-- Gaps none of which is filled along with another are counted each for itself. -/
theorem Gap.countAll_eq {t : Table} {gaps : List (Gap t)}
    (hgaps : gaps.Pairwise fun g h => ∀ row, h.isIn (g.step row) = h.isIn row) (counts : Fields)
    (rows : List (Numbered t.Row)) :
    Gap.countAll gaps counts rows =
      counts.merge (gaps.map fun g => (g.rule.name, .ofNat (g.count rows))) := by
  induction gaps generalizing counts rows with
  | nil => rfl
  | cons g rest ih =>
    obtain ⟨hg, hrest⟩ := List.pairwise_cons.1 hgaps
    have hcounts : (rest.map fun h => (h.rule.name, Json.ofNat (h.count (g.fill rows)))) =
        rest.map fun h => (h.rule.name, Json.ofNat (h.count rows)) :=
      List.map_congr_left fun h hh => by rw [Gap.count_fill (hg h hh)]
    rw [Gap.countAll, ih hrest, hcounts, List.map_cons, Fields.merge, Fields.merge,
      List.foldl_cons]
    rfl

theorem Gap.count_eq {t : Table} {g : Gap t} {p : t.Row → Bool} (h : ∀ row, g.isIn row = p row)
    (rows : List (Numbered t.Row)) : g.count rows = (rows.map (·.row)).countP p := by
  rw [Gap.count, List.countP_map]
  exact congrFun (congrArg List.countP (funext fun n => h n.row)) rows

theorem pairwise_movieGaps :
    movieGaps.Pairwise fun g h => ∀ row, h.isIn (g.step row) = h.isIn row := by
  simp only [movieGaps, List.pairwise_cons, List.forall_mem_cons, List.not_mem_nil,
    false_implies, implies_true, and_true, List.Pairwise.nil, step_countryGap, step_languagesGap,
    step_companyGap, step_incomeGap]
  refine ⟨⟨?_, ?_, ?_, ?_⟩, ⟨?_, ?_, ?_⟩, ⟨?_, ?_⟩, ?_⟩ <;> intro row <;> rfl

theorem countAll_movieGaps (rows : List (Numbered MovieRow)) :
    Gap.countAll movieGaps [] rows = movieCounts (rows.map (·.row))
      ((rows.map (·.row)).countP fun m => m.grossAmount.isNull) := by
  have hcountry := Gap.count_eq (g := countryGap) (fun m => selects_text rfl m.country) rows
  have hlanguages := Gap.count_eq (g := languagesGap) (fun m => selects_text rfl m.languages) rows
  have hcompany :=
    Gap.count_eq (g := companyGap) (fun m => selects_text rfl m.productionCompany) rows
  have hincome := Gap.count_eq (g := incomeGap) (fun m => selects_text rfl m.grossIncome) rows
  have hamount := Gap.count_eq (g := amountGap) (fun m => selects_number rfl m.grossAmount) rows
  rw [Gap.countAll_eq pairwise_movieGaps, movieCounts, textCounts, ← hcountry, ← hlanguages,
    ← hcompany, ← hincome, ← hamount]
  rfl

theorem pairwise_ratingGaps :
    ratingGaps.Pairwise fun g h => ∀ row, h.isIn (g.step row) = h.isIn row := by
  simp only [ratingGaps, List.pairwise_cons, List.forall_mem_cons, List.not_mem_nil,
    false_implies, implies_true, and_true, List.Pairwise.nil, step_averageGap, step_votesGap]
  refine ⟨⟨?_, ?_⟩, ?_⟩ <;> intro row <;> rfl

theorem countAll_ratingGaps (counts : Fields) (rows : List (Numbered RatingRow)) :
    Gap.countAll ratingGaps counts rows = counts.merge (ratingCounts (rows.map (·.row))) := by
  have haverage := Gap.count_eq (g := averageGap) (fun r => selects_number rfl r.avgRating) rows
  have hvotes := Gap.count_eq (g := votesGap) (fun r => selects_number rfl r.totalVotes) rows
  have hmedian := Gap.count_eq (g := medianGap) (fun r => selects_number rfl r.medianRating) rows
  rw [Gap.countAll_eq pairwise_ratingGaps, ratingCounts, ← haverage, ← hvotes, ← hmedian]
  rfl

def filled (s : Store) : Store :=
  { s with
    movie := s.movie.map (mapRows filledMovie)
    ratings := s.ratings.map (mapRows filledRating) }

/-- The rules of lawful gaps fill them all, if the table is there. -/
theorem Gap.exists_iff {t : Table} {g : Gap t} {gaps : List (Gap t)}
    (hgaps : ∀ h ∈ (g :: gaps), h.Lawful) {rest : List Rule} {counts counts' : Fields}
    {s s' : Store} (hs : s.hasAmount = true) :
    AppliedAll ((g :: gaps).map (·.rule) ++ rest) counts s counts' s' ↔
      ∃ rows, s.get t = some rows ∧ MeetsAll (g :: gaps) rows ∧
        AppliedAll rest (countAll (g :: gaps) counts rows)
          (s.put t (some (fillAll (g :: gaps) rows))) counts' s' := by
  constructor
  · intro h
    have hfirst := h
    obtain ⟨n, t', happly, -⟩ := hfirst
    obtain ⟨rows, hrows, -⟩ :=
      ((List.forall_mem_cons.1 hgaps).1.apply_eq_ok hs).1 happly
    exact ⟨rows, hrows, (appliedAll_iff hgaps hs hrows).1 h⟩
  · rintro ⟨rows, hrows, h⟩
    exact (appliedAll_iff hgaps hs hrows).2 h

/-- What standardization does where the amounts have their column. -/
theorem appliedAll_standard_iff {s s' : Store} {counts : Fields} (hs : s.hasAmount = true) :
    AppliedAll Rule.standard [] s counts s' ↔ ∃ movies ratings, s.movie = some movies ∧
      s.ratings = some ratings ∧ Gap.MeetsAll movieGaps movies ∧
      Gap.MeetsAll ratingGaps ratings ∧
      counts = movieCounts (movies.map (·.row))
        ((movies.map (·.row)).countP fun m => m.grossAmount.isNull) ++
          ratingCounts (ratings.map (·.row)) ∧
      s' = filled s := by
  have hfilled : ∀ {movies ratings}, s.movie = some movies → s.ratings = some ratings →
      (s.put .movie (some (mapRows filledMovie movies))).put .ratings
        (some (mapRows filledRating ratings)) = filled s := by
    intro movies ratings hmovies hratings
    rw [filled, hmovies, hratings]
    rfl
  rw [standard_eq, movieGaps, Gap.exists_iff lawful_movieGaps hs, ← movieGaps]
  constructor
  · rintro ⟨movies, hmovies, hmeets, h⟩
    have hput : (s.put .movie (some (mapRows filledMovie movies))).hasAmount = true := hs
    rw [fillAll_movieGaps, countAll_movieGaps, ← List.append_nil (ratingGaps.map _), ratingGaps,
      Gap.exists_iff lawful_ratingGaps hput, ← ratingGaps] at h
    obtain ⟨ratings, hratings, hmeets', hcounts, hs'⟩ := h
    rw [fillAll_ratingGaps, hfilled hmovies hratings] at hs'
    rw [countAll_ratingGaps] at hcounts
    exact ⟨movies, ratings, hmovies, hratings, hmeets, hmeets', hcounts, hs'⟩
  · rintro ⟨movies, ratings, hmovies, hratings, hmeets, hmeets', rfl, rfl⟩
    have hput : (s.put .movie (some (mapRows filledMovie movies))).hasAmount = true := hs
    refine ⟨movies, hmovies, hmeets, ?_⟩
    rw [fillAll_movieGaps, countAll_movieGaps, ← List.append_nil (ratingGaps.map _), ratingGaps,
      Gap.exists_iff lawful_ratingGaps hput, ← ratingGaps]
    refine ⟨ratings, hratings, hmeets', ?_, ?_⟩
    · rw [countAll_ratingGaps]
      rfl
    · rw [fillAll_ratingGaps, hfilled hmovies hratings]

end FilmReport.Normalize
