import FilmReport.Dataset.Basic
import FilmReport.Proofs.Shape.Described

/-!
The grammar of datasets. A value is well typed if its fields, and those of its records, are of the
kinds of their schema (`Typed`), and a dataset is sound if all that was read keeps the rules of its
field (`Sound`); a dataset is accepted just if it was read of a well-typed value, is sound and has
no movie twice (`accepts_iff`). What is accepted is the value with nothing but its known fields,
those that are missing filled, and is accepted again.
-/

set_option autoImplicit false
set_option relaxedAutoImplicit false

namespace FilmReport.Dataset

open Shape Checked

section Fields

variable {strict : Prop} {field : Option Json}

theorem reads_name {s : String} :
    (text 1 field).Reads strict s ↔ IsText field s ∧ (strict → s ≠ "") := by
  have hlength : 1 ≤ s.length ↔ s ≠ "" := by
    rw [Nat.one_le_iff_ne_zero, ne_eq, String.length_eq_zero_iff]
  simp only [describes_text 1 strict field s, hlength]

theorem reads_text? {o : Option String} :
    (nullable (text 0) field).Reads strict o ↔ IsNullable IsText field o := by
  rw [describes_nullable (describes_text 0) (by simp [IsText]) (by simp [IsText]) strict field o]
  simp

theorem reads_date? {o : Option String} : (nullable date field).Reads strict o ↔
    IsNullable IsText field o ∧ (strict → ∀ s ∈ o, Calendar.isDate s = true) :=
  describes_nullable describes_date (by simp [IsText]) (by simp [IsText]) strict field o

/-- The numbers of a range that are safe. -/
theorem reads_whole? {range : Range} {P : Int → Prop}
    (h : ∀ n : Int, range.broken n = [] ↔ P n) {o : Option Int} :
    (nullable (integer range) field).Reads strict o ↔
      IsNullable IsWhole field o ∧ (strict → ∀ n ∈ o, n.natAbs < 2 ^ 53 ∧ P n) := by
  have hsafe : ∀ n : Int, unsafeSize n = [] ↔ n.natAbs < 2 ^ 53 := fun n =>
    ⟨natAbs_lt_of_unsafeSize, unsafeSize_eq_nil⟩
  rw [describes_nullable (describes_integer range) (by simp [IsWhole, IsNumber])
    (by simp [IsWhole, IsNumber]) strict field o]
  simp only [hsafe, h]

theorem broken_any_iff (n : Int) : Range.any.broken n = [] ↔ True := by
  simp [Range.any, Range.broken]

theorem broken_from_iff (n : Int) : (Range.from_ 0).broken n = [] ↔ 0 ≤ n := by
  simp [Range.from_, Range.broken]

theorem broken_score_iff (n : Int) : (Range.between 0 10).broken n = [] ↔ 0 ≤ n ∧ n ≤ 10 := by
  simp only [Range.between, Range.broken, List.append_eq_nil_iff, ite_eq_right_iff, reduceCtorEq,
    imp_false, Rat.not_lt]
  norm_cast

end Fields

/-- The fields of a record that are those of a movie. -/
structure Movie.Typed (field : String → Option Json) (m : Movie) : Prop where
  id : IsText (field "id") m.id
  title : IsText (field "title") m.title
  year : IsNullable IsWhole (field "year") m.year
  datePublished : IsNullable IsText (field "datePublished") m.datePublished
  duration : IsNullable IsWhole (field "duration") m.duration
  country : IsNullable IsText (field "country") m.country
  grossIncome : IsNullable IsText (field "worldwideGrossIncome") m.grossIncome
  languages : IsNullable IsText (field "languages") m.languages
  productionCompany : IsNullable IsText (field "productionCompany") m.productionCompany

/-- The rules for the fields of a movie. -/
structure Movie.Sound (m : Movie) : Prop where
  id : m.id ≠ ""
  title : m.title ≠ ""
  year : ∀ n ∈ m.year, n.natAbs < 2 ^ 53
  datePublished : ∀ s ∈ m.datePublished, Calendar.isDate s = true
  duration : ∀ n ∈ m.duration, n.natAbs < 2 ^ 53 ∧ 0 ≤ n

theorem Movie.describes_check : Describes Movie.check (IsRecord Movie.Typed) Movie.Sound := by
  refine describes_record fun strict r m => ?_
  simp only [reads_seq, reads_functor, reads_at, reads_name, reads_text?, reads_date?,
    reads_whole? broken_any_iff, reads_whole? broken_from_iff]
  constructor
  · -- the fields are taken off from the last to the first
    rintro ⟨_, company, ⟨_, languages, ⟨_, gross, ⟨_, country, ⟨_, duration, ⟨_, date, ⟨_, year,
      ⟨_, title, ⟨id, hid, rfl⟩, htitle, rfl⟩, hyear, rfl⟩, hdate, rfl⟩, hduration, rfl⟩, hcountry,
      rfl⟩, hgross, rfl⟩, hlanguages, rfl⟩, hcompany, rfl⟩
    exact ⟨⟨hid.1, htitle.1, hyear.1, hdate.1, hduration.1, hcountry, hgross, hlanguages, hcompany⟩,
      fun h => ⟨hid.2 h, htitle.2 h, fun n hn => (hyear.2 h n hn).1, hdate.2 h, hduration.2 h⟩⟩
  · rintro ⟨htyped, hsound⟩
    exact ⟨_, m.productionCompany, ⟨_, m.languages, ⟨_, m.grossIncome, ⟨_, m.country,
      ⟨_, m.duration, ⟨_, m.datePublished, ⟨_, m.year, ⟨_, m.title,
      ⟨m.id, ⟨htyped.id, fun h => (hsound h).id⟩, rfl⟩,
      ⟨htyped.title, fun h => (hsound h).title⟩, rfl⟩,
      ⟨htyped.year, fun h n hn => ⟨(hsound h).year n hn, trivial⟩⟩, rfl⟩,
      ⟨htyped.datePublished, fun h => (hsound h).datePublished⟩, rfl⟩,
      ⟨htyped.duration, fun h => (hsound h).duration⟩, rfl⟩,
      htyped.country, rfl⟩, htyped.grossIncome, rfl⟩, htyped.languages, rfl⟩,
      htyped.productionCompany, rfl⟩

/-- The fields of a record that are those of a person. -/
structure Name.Typed (field : String → Option Json) (n : Name) : Prop where
  id : IsText (field "id") n.id
  name : IsText (field "name") n.name
  height : IsNullable IsWhole (field "height") n.height
  dateOfBirth : IsNullable IsText (field "dateOfBirth") n.dateOfBirth
  knownForMovies : IsNullable IsText (field "knownForMovies") n.knownForMovies

/-- The rules for the fields of a person. -/
structure Name.Sound (n : Name) : Prop where
  id : n.id ≠ ""
  name : n.name ≠ ""
  height : ∀ k ∈ n.height, k.natAbs < 2 ^ 53
  dateOfBirth : ∀ s ∈ n.dateOfBirth, Calendar.isDate s = true

theorem Name.describes_check : Describes Name.check (IsRecord Name.Typed) Name.Sound := by
  refine describes_record fun strict r n => ?_
  simp only [reads_seq, reads_functor, reads_at, reads_name, reads_text?, reads_date?,
    reads_whole? broken_any_iff]
  constructor
  · rintro ⟨_, known, ⟨_, birth, ⟨_, height, ⟨_, name, ⟨id, hid, rfl⟩, hname, rfl⟩, hheight, rfl⟩,
      hbirth, rfl⟩, hknown, rfl⟩
    exact ⟨⟨hid.1, hname.1, hheight.1, hbirth.1, hknown⟩,
      fun h => ⟨hid.2 h, hname.2 h, fun k hk => (hheight.2 h k hk).1, hbirth.2 h⟩⟩
  · rintro ⟨htyped, hsound⟩
    exact ⟨_, n.knownForMovies, ⟨_, n.dateOfBirth, ⟨_, n.height, ⟨_, n.name,
      ⟨n.id, ⟨htyped.id, fun h => (hsound h).id⟩, rfl⟩,
      ⟨htyped.name, fun h => (hsound h).name⟩, rfl⟩,
      ⟨htyped.height, fun h k hk => ⟨(hsound h).height k hk, trivial⟩⟩, rfl⟩,
      ⟨htyped.dateOfBirth, fun h => (hsound h).dateOfBirth⟩, rfl⟩, htyped.knownForMovies, rfl⟩

/-- The fields of a record that are those of a genre. -/
structure Genre.Typed (field : String → Option Json) (g : Genre) : Prop where
  movieId : IsText (field "movieId") g.movieId
  genre : IsText (field "genre") g.genre

/-- The rules for the fields of a genre. -/
structure Genre.Sound (g : Genre) : Prop where
  movieId : g.movieId ≠ ""
  genre : g.genre ≠ ""

theorem Genre.describes_check : Describes Genre.check (IsRecord Genre.Typed) Genre.Sound := by
  refine describes_record fun strict r g => ?_
  simp only [reads_seq, reads_functor, reads_at, reads_name]
  constructor
  · rintro ⟨_, genre, ⟨id, hid, rfl⟩, hgenre, rfl⟩
    exact ⟨⟨hid.1, hgenre.1⟩, fun h => ⟨hid.2 h, hgenre.2 h⟩⟩
  · rintro ⟨htyped, hsound⟩
    exact ⟨_, g.genre, ⟨g.movieId, ⟨htyped.movieId, fun h => (hsound h).movieId⟩, rfl⟩,
      ⟨htyped.genre, fun h => (hsound h).genre⟩, rfl⟩

/-- The fields of a record that are those of a directing. -/
structure Directing.Typed (field : String → Option Json) (d : Directing) : Prop where
  movieId : IsText (field "movieId") d.movieId
  nameId : IsText (field "nameId") d.nameId

/-- The rules for the fields of a directing. -/
structure Directing.Sound (d : Directing) : Prop where
  movieId : d.movieId ≠ ""
  nameId : d.nameId ≠ ""

theorem Directing.describes_check :
    Describes Directing.check (IsRecord Directing.Typed) Directing.Sound := by
  refine describes_record fun strict r d => ?_
  simp only [reads_seq, reads_functor, reads_at, reads_name]
  constructor
  · rintro ⟨_, name, ⟨id, hid, rfl⟩, hname, rfl⟩
    exact ⟨⟨hid.1, hname.1⟩, fun h => ⟨hid.2 h, hname.2 h⟩⟩
  · rintro ⟨htyped, hsound⟩
    exact ⟨_, d.nameId, ⟨d.movieId, ⟨htyped.movieId, fun h => (hsound h).movieId⟩, rfl⟩,
      ⟨htyped.nameId, fun h => (hsound h).nameId⟩, rfl⟩

/-- A field that is the word for a category. -/
def IsCategory (field : Option Json) (c : Category) : Prop :=
  IsText field c.text

theorem reads_category {strict : Prop} {field : Option Json} {c : Category} :
    (Category.check field).Reads strict c ↔ IsCategory field c := by
  have hlisted : ∀ c, c ∈ Category.listed := by
    intro c
    cases c <;> decide
  have hname : Category.text.Injective := by
    intro c c' h
    cases c <;> cases c' <;> first | rfl | exact absurd h (by decide)
  exact (describes_option _ hlisted hname strict field c).trans (by simp [IsCategory])

/-- The fields of a record that are those of a casting. -/
structure Casting.Typed (field : String → Option Json) (c : Casting) : Prop where
  movieId : IsText (field "movieId") c.movieId
  nameId : IsText (field "nameId") c.nameId
  category : IsCategory (field "category") c.category

/-- The rules for the fields of a casting. -/
structure Casting.Sound (c : Casting) : Prop where
  movieId : c.movieId ≠ ""
  nameId : c.nameId ≠ ""

theorem Casting.describes_check :
    Describes Casting.check (IsRecord Casting.Typed) Casting.Sound := by
  refine describes_record fun strict r c => ?_
  simp only [reads_seq, reads_functor, reads_at, reads_name, reads_category]
  constructor
  · rintro ⟨_, category, ⟨_, name, ⟨id, hid, rfl⟩, hname, rfl⟩, hcategory, rfl⟩
    exact ⟨⟨hid.1, hname.1, hcategory⟩, fun h => ⟨hid.2 h, hname.2 h⟩⟩
  · rintro ⟨htyped, hsound⟩
    exact ⟨_, c.category, ⟨_, c.nameId, ⟨c.movieId,
      ⟨htyped.movieId, fun h => (hsound h).movieId⟩, rfl⟩,
      ⟨htyped.nameId, fun h => (hsound h).nameId⟩, rfl⟩, htyped.category, rfl⟩

/-- The fields of a record that are those of a rating. -/
structure Rating.Typed (field : String → Option Json) (r : Rating) : Prop where
  movieId : IsText (field "movieId") r.movieId
  avgRating : IsNullable IsNumber (field "avgRating") r.avgRating
  totalVotes : IsNullable IsWhole (field "totalVotes") r.totalVotes
  medianRating : IsNullable IsWhole (field "medianRating") r.medianRating

/-- The rules for the fields of a rating. -/
structure Rating.Sound (r : Rating) : Prop where
  movieId : r.movieId ≠ ""
  avgRating : ∀ q ∈ r.avgRating, 0 ≤ q ∧ q ≤ 10
  totalVotes : ∀ n ∈ r.totalVotes, n.natAbs < 2 ^ 53 ∧ 0 ≤ n
  medianRating : ∀ n ∈ r.medianRating, n.natAbs < 2 ^ 53 ∧ 0 ≤ n ∧ n ≤ 10

theorem reads_score? {strict : Prop} {field : Option Json} {o : Option Rat} :
    (nullable (number (.between 0 10)) field).Reads strict o ↔
      IsNullable IsNumber field o ∧ (strict → ∀ q ∈ o, 0 ≤ q ∧ q ≤ 10) := by
  have hrange : ∀ q : Rat, (Range.between 0 10).broken q = [] ↔ 0 ≤ q ∧ q ≤ 10 := by
    intro q
    simp [Range.between, Range.broken]
  rw [describes_nullable (describes_number _) (by simp [IsNumber]) (by simp [IsNumber]) strict
    field o]
  simp only [hrange]

theorem Rating.describes_check : Describes Rating.check (IsRecord Rating.Typed) Rating.Sound := by
  refine describes_record fun strict fields r => ?_
  simp only [reads_seq, reads_functor, reads_at, reads_name, reads_score?,
    reads_whole? broken_from_iff, reads_whole? broken_score_iff]
  constructor
  · rintro ⟨_, median, ⟨_, votes, ⟨_, average, ⟨id, hid, rfl⟩, haverage, rfl⟩, hvotes, rfl⟩,
      hmedian, rfl⟩
    exact ⟨⟨hid.1, haverage.1, hvotes.1, hmedian.1⟩,
      fun h => ⟨hid.2 h, haverage.2 h, hvotes.2 h, hmedian.2 h⟩⟩
  · rintro ⟨htyped, hsound⟩
    exact ⟨_, r.medianRating, ⟨_, r.totalVotes, ⟨_, r.avgRating, ⟨r.movieId,
      ⟨htyped.movieId, fun h => (hsound h).movieId⟩, rfl⟩,
      ⟨htyped.avgRating, fun h => (hsound h).avgRating⟩, rfl⟩,
      ⟨htyped.totalVotes, fun h => (hsound h).totalVotes⟩, rfl⟩,
      ⟨htyped.medianRating, fun h => (hsound h).medianRating⟩, rfl⟩

/-- The fields of a value that are those of a dataset. -/
structure Typed (field : String → Option Json) (d : Dataset) : Prop where
  generatedAt : IsText (field "generatedAt") d.generatedAt
  movies : IsList (IsRecord Movie.Typed) (field "movies") d.movies
  names : IsListOrMissing (IsRecord Name.Typed) (field "names") d.names
  genres : IsListOrMissing (IsRecord Genre.Typed) (field "genres") d.genres
  directings : IsListOrMissing (IsRecord Directing.Typed) (field "directorMappings") d.directings
  castings : IsListOrMissing (IsRecord Casting.Typed) (field "roleMappings") d.castings
  ratings : IsListOrMissing (IsRecord Rating.Typed) (field "ratings") d.ratings

/-- The rules for all fields of a dataset. -/
structure Sound (d : Dataset) : Prop where
  generatedAt : Calendar.isDateTime d.generatedAt = true
  movies : ∀ m ∈ d.movies, m.Sound
  names : ∀ n ∈ d.names, n.Sound
  genres : ∀ g ∈ d.genres, g.Sound
  directings : ∀ g ∈ d.directings, g.Sound
  castings : ∀ c ∈ d.castings, c.Sound
  ratings : ∀ r ∈ d.ratings, r.Sound

/-- The fields of a dataset, each checked on its own. -/
def checkFields : Option Json → Checked Dataset :=
  record fun r =>
    Dataset.mk <$> at_ "generatedAt" dateTime r <*> at_ "movies" (list 0 Movie.check) r
      <*> at_ "names" (listOrEmpty Name.check) r
      <*> at_ "genres" (listOrEmpty Genre.check) r
      <*> at_ "directorMappings" (listOrEmpty Directing.check) r
      <*> at_ "roleMappings" (listOrEmpty Casting.check) r
      <*> at_ "ratings" (listOrEmpty Rating.check) r

theorem check_eq (field : Option Json) :
    check field = (checkFields field).refine fun d => duplicates [] 0 d.movies := rfl

theorem describes_checkFields : Describes checkFields (IsRecord Typed) Sound := by
  refine describes_record fun strict r d => ?_
  simp only [reads_seq, reads_functor, reads_at, describes_dateTime _ _ _,
    describes_list Movie.describes_check _ _ _,
    describes_listOrEmpty Name.describes_check _ _ _,
    describes_listOrEmpty Genre.describes_check _ _ _,
    describes_listOrEmpty Directing.describes_check _ _ _,
    describes_listOrEmpty Casting.describes_check _ _ _,
    describes_listOrEmpty Rating.describes_check _ _ _]
  constructor
  · rintro ⟨_, ratings, ⟨_, castings, ⟨_, directings, ⟨_, genres, ⟨_, names, ⟨_, movies,
      ⟨stamp, hstamp, rfl⟩, hmovies, rfl⟩, hnames, rfl⟩, hgenres, rfl⟩, hdirectings, rfl⟩,
      hcastings, rfl⟩, hratings, rfl⟩
    exact ⟨⟨hstamp.1, hmovies.1, hnames.1, hgenres.1, hdirectings.1, hcastings.1, hratings.1⟩,
      fun h => ⟨hstamp.2 h, hmovies.2 h, hnames.2 h, hgenres.2 h, hdirectings.2 h, hcastings.2 h,
        hratings.2 h⟩⟩
  · rintro ⟨htyped, hsound⟩
    exact ⟨_, d.ratings, ⟨_, d.castings, ⟨_, d.directings, ⟨_, d.genres, ⟨_, d.names,
      ⟨_, d.movies, ⟨d.generatedAt, ⟨htyped.generatedAt, fun h => (hsound h).generatedAt⟩, rfl⟩,
      ⟨htyped.movies, fun h => (hsound h).movies⟩, rfl⟩,
      ⟨htyped.names, fun h => (hsound h).names⟩, rfl⟩,
      ⟨htyped.genres, fun h => (hsound h).genres⟩, rfl⟩,
      ⟨htyped.directings, fun h => (hsound h).directings⟩, rfl⟩,
      ⟨htyped.castings, fun h => (hsound h).castings⟩, rfl⟩,
      ⟨htyped.ratings, fun h => (hsound h).ratings⟩, rfl⟩

section Plain

variable (name : String) (r : String → Option Json)

theorem plain_name : (at_ name (text 1) r).Plain :=
  plain_at (plain_text · 1) name r

theorem plain_text? : (at_ name (nullable (text 0)) r).Plain :=
  plain_at (plain_nullable · (plain_text · 0)) name r

theorem plain_date? : (at_ name (nullable date) r).Plain :=
  plain_at (plain_nullable · plain_date) name r

theorem plain_whole? (range : Range) : (at_ name (nullable (integer range)) r).Plain :=
  plain_at (plain_nullable · (plain_integer · range)) name r

theorem Movie.plain_check (field : Option Json) : (Movie.check field).Plain := by
  refine plain_record _ fun r => ?_
  have hnames := ((plain_name "id" r).map Movie.mk).seq (plain_name "title" r)
  have hdates := (hnames.seq (plain_whole? "year" r .any)).seq (plain_date? "datePublished" r)
  have htexts := (hdates.seq (plain_whole? "duration" r (.from_ 0))).seq (plain_text? "country" r)
  exact ((htexts.seq (plain_text? _ r)).seq (plain_text? _ r)).seq (plain_text? _ r)

theorem Name.plain_check (field : Option Json) : (Name.check field).Plain := by
  refine plain_record _ fun r => ?_
  have hnames := ((plain_name "id" r).map Name.mk).seq (plain_name "name" r)
  exact ((hnames.seq (plain_whole? _ r _)).seq (plain_date? _ r)).seq (plain_text? _ r)

theorem Genre.plain_check (field : Option Json) : (Genre.check field).Plain :=
  plain_record _ fun r => ((plain_name "movieId" r).map Genre.mk).seq (plain_name "genre" r)

theorem Directing.plain_check (field : Option Json) : (Directing.check field).Plain :=
  plain_record _ fun r => ((plain_name "movieId" r).map Directing.mk).seq (plain_name "nameId" r)

theorem Casting.plain_check (field : Option Json) : (Casting.check field).Plain := by
  refine plain_record _ fun r => ?_
  have hnames := ((plain_name "movieId" r).map Casting.mk).seq (plain_name "nameId" r)
  exact hnames.seq (plain_at (fun field => plain_option field) _ r)

theorem Rating.plain_check (field : Option Json) : (Rating.check field).Plain := by
  refine plain_record _ fun r => ?_
  have haverage := plain_at (plain_nullable · (plain_number · (.between 0 10))) "avgRating" r
  have hscore := ((plain_name "movieId" r).map Rating.mk).seq haverage
  exact (hscore.seq (plain_whole? _ r _)).seq (plain_whole? _ r _)

/-- What is said of the fields of a dataset is in no words of its own. -/
theorem plain_checkFields (field : Option Json) : (checkFields field).Plain := by
  refine plain_record _ fun r => ?_
  have hlist : ∀ {α : Type} {check : Option Json → Checked α}, (∀ field, (check field).Plain) →
      ∀ name, (at_ name (listOrEmpty check) r).Plain :=
    fun h name => plain_at (plain_listOrEmpty · h) name r
  have hstamp := (plain_at plain_dateTime "generatedAt" r).map Dataset.mk
  have hmovies := hstamp.seq (plain_at (plain_list · Movie.plain_check 0) "movies" r)
  have hnames := (hmovies.seq (hlist Name.plain_check "names")).seq
    (hlist Genre.plain_check "genres")
  exact ((hnames.seq (hlist Directing.plain_check _)).seq (hlist Casting.plain_check _)).seq
    (hlist Rating.plain_check _)

end Plain

section Duplicates

/-- The identifiers that came before, each with its index. -/
def repeats (ids : List String) : List (String × Nat) :=
  ids.zipIdx.filter fun x => (ids.take x.2).contains x.1

/-- The issue of an identifier that came before. -/
def duplicate : String × Nat → Issue
  | (id, n) => ⟨[.field "movies", .index n, .field "id"], .custom ("Duplicate movie id " ++ id)⟩

theorem mem_repeats {ids : List String} {id : String} {n : Nat} :
    (id, n) ∈ repeats ids ↔ ids[n]? = some id ∧ ∃ k < n, ids[k]? = some id := by
  rw [repeats, List.mem_filter, List.mem_zipIdx_iff_getElem?]
  refine and_congr_right fun hid => ?_
  rw [List.contains_iff_mem, List.mem_take_iff_getElem]
  constructor
  · rintro ⟨k, hk, hbefore⟩
    exact ⟨k, (lt_min_iff.1 hk).1, List.getElem?_eq_some_iff.2 ⟨_, hbefore⟩⟩
  · rintro ⟨k, hk, hbefore⟩
    obtain ⟨hlt, hbefore⟩ := List.getElem?_eq_some_iff.1 hbefore
    exact ⟨k, lt_min hk hlt, hbefore⟩

theorem duplicates_eq (seen : List String) (n : Nat) (movies : List Movie) :
    duplicates seen n movies = (((movies.map (·.id)).zipIdx n).filter fun x =>
      seen.contains x.1 || ((movies.map (·.id)).take (x.2 - n)).contains x.1).map duplicate := by
  induction movies generalizing seen n with
  | nil => rfl
  | cons m rest ih =>
    -- what is searched grows by the movie, whether it counts as seen or as before
    have hrest : ∀ x ∈ (rest.map (·.id)).zipIdx (n + 1),
        ((m.id :: seen).contains x.1 || ((rest.map (·.id)).take (x.2 - (n + 1))).contains x.1) =
          (seen.contains x.1 || ((m.id :: rest.map (·.id)).take (x.2 - n)).contains x.1) := by
      intro x hx
      have hle := List.le_snd_of_mem_zipIdx hx
      obtain ⟨k, hk⟩ : ∃ k, x.2 - n = k + 1 := ⟨x.2 - n - 1, by omega⟩
      have hk' : x.2 - (n + 1) = k := by omega
      rw [hk, hk', List.take_succ_cons, List.contains_cons, List.contains_cons,
        Bool.or_assoc, Bool.or_left_comm]
    rw [duplicates, ih, List.filter_congr hrest, List.map_cons, List.zipIdx_cons, List.filter_cons]
    dsimp only
    rw [Nat.sub_self, List.take_zero, List.contains_nil, Bool.or_false]
    split <;> rfl

theorem duplicates_eq_repeats (movies : List Movie) :
    duplicates [] 0 movies = (repeats (movies.map (·.id))).map duplicate := by
  simp [duplicates_eq, repeats]

theorem repeats_eq_nil_iff {ids : List String} : repeats ids = [] ↔ ids.Nodup := by
  rw [List.eq_nil_iff_forall_not_mem, List.nodup_iff_getElem?_ne_getElem?]
  constructor
  · intro h k n hkn hn hsame
    exact h (ids[n], n) (mem_repeats.2 ⟨List.getElem?_eq_getElem hn, k, hkn, by
      rw [hsame, List.getElem?_eq_getElem hn]⟩)
  · rintro h ⟨id, n⟩ hmem
    obtain ⟨hid, k, hkn, hk⟩ := mem_repeats.1 hmem
    exact h k n hkn (List.getElem?_eq_some_iff.1 hid).1 (hk.trans hid.symm)

end Duplicates

section Filled

variable {α : Type} {kinds : (String → Option Json) → α → Prop} {rule : α → Prop}
  {fields : α → Fields} {names : List String}

/-- A record with the fields of some names and no others; those that are missing are `null`. -/
def filled (names : List String) (v : Json) : Json :=
  .object (names.map fun name => (name, (v.get? name).getD .null))

/-- A list of such records; one that is missing is empty. -/
def filledAll (names : List String) : Option Json → Json
  | some (.array items) => .array (items.map (filled names))
  | _ => .array []

/-- The names of the fields of each kind of record. -/
def movieNames : List String :=
  ["id", "title", "year", "datePublished", "duration", "country", "worldwideGrossIncome",
   "languages", "productionCompany"]

def personNames : List String :=
  ["id", "name", "height", "dateOfBirth", "knownForMovies"]

def ratingNames : List String :=
  ["movieId", "avgRating", "totalVotes", "medianRating"]

/-- A dataset with its fields and no others, and so are its records; what is missing is filled. -/
def filledDataset (v : Json) : Json :=
  .object
    [("generatedAt", (v.get? "generatedAt").getD .null),
     ("movies", filledAll movieNames (v.get? "movies")),
     ("names", filledAll personNames (v.get? "names")),
     ("genres", filledAll ["movieId", "genre"] (v.get? "genres")),
     ("directorMappings", filledAll ["movieId", "nameId"] (v.get? "directorMappings")),
     ("roleMappings", filledAll ["movieId", "nameId", "category"] (v.get? "roleMappings")),
     ("ratings", filledAll ratingNames (v.get? "ratings"))]

section fields

variable {field : Option Json}

theorem getD_of_isText {s : String} (h : IsText field s) : field.getD .null = .string s := by
  rw [h]
  rfl

theorem getD_of_isText? {o : Option String} (h : IsNullable IsText field o) :
    field.getD .null = .ofOption .string o := by
  cases o with
  | none => rcases h with rfl | rfl <;> rfl
  | some s => exact getD_of_isText h

theorem getD_of_isWhole? {o : Option Int} (h : IsNullable IsWhole field o)
    (hsafe : ∀ n ∈ o, n.natAbs < 2 ^ 53) : field.getD .null = .ofOption .ofInt o := by
  cases o with
  | none => rcases h with rfl | rfl <;> rfl
  | some n =>
    rw [show field = some (.number (.finite n)) from h, Json.ofOption, Json.ofInt,
      Binary64.ofInt_of_natAbs_lt (hsafe n rfl)]
    rfl

theorem getD_of_isNumber? {o : Option Rat} (h : IsNullable IsNumber field o) :
    field.getD .null = .ofOption (fun q => .number (.finite q)) o := by
  cases o with
  | none => rcases h with rfl | rfl <;> rfl
  | some q =>
    rw [show field = some (.number (.finite q)) from h]
    rfl

end fields

/-- Records whose fields, written out, are those of the value they were read of and are read as the
same record. -/
structure Restores (kinds : (String → Option Json) → α → Prop) (rule : α → Prop)
    (fields : α → Fields) (names : List String) : Prop where
  filled : ∀ {v : Json} {a : α}, kinds (fun name => v.get? name) a → rule a →
    .object (fields a) = filled names v
  typed : ∀ {a : α}, rule a → kinds (fun name => Fields.get? name (fields a)) a

theorem isText?_ofOption (o : Option String) :
    IsNullable IsText (some (.ofOption .string o)) o := by
  cases o with
  | none => exact .inr rfl
  | some s => rfl

theorem isWhole?_ofOption {o : Option Int} (h : ∀ n ∈ o, n.natAbs < 2 ^ 53) :
    IsNullable IsWhole (some (.ofOption .ofInt o)) o := by
  cases o with
  | none => exact .inr rfl
  | some n => exact congrArg (fun x => some (Json.number x)) (Binary64.ofInt_of_natAbs_lt (h n rfl))

theorem isNumber?_ofOption (o : Option Rat) :
    IsNullable IsNumber (some (.ofOption (fun q => .number (.finite q)) o)) o := by
  cases o with
  | none => exact .inr rfl
  | some q => rfl

theorem restores_movie : Restores Movie.Typed Movie.Sound Movie.fields movieNames where
  filled h hsound := by
    rw [Dataset.filled, movieNames]
    simp only [List.map_cons, List.map_nil, getD_of_isText h.id, getD_of_isText h.title,
      getD_of_isWhole? h.year hsound.year, getD_of_isText? h.datePublished,
      getD_of_isWhole? h.duration fun n hn => (hsound.duration n hn).1, getD_of_isText? h.country,
      getD_of_isText? h.grossIncome, getD_of_isText? h.languages,
      getD_of_isText? h.productionCompany]
    rfl
  typed hsound :=
    ⟨rfl, rfl, isWhole?_ofOption hsound.year, isText?_ofOption _,
      isWhole?_ofOption fun n hn => (hsound.duration n hn).1, isText?_ofOption _,
      isText?_ofOption _, isText?_ofOption _, isText?_ofOption _⟩

theorem restores_name : Restores Name.Typed Name.Sound Name.fields personNames where
  filled h hsound := by
    rw [Dataset.filled, personNames]
    simp only [List.map_cons, List.map_nil, getD_of_isText h.id, getD_of_isText h.name,
      getD_of_isWhole? h.height hsound.height, getD_of_isText? h.dateOfBirth,
      getD_of_isText? h.knownForMovies]
    rfl
  typed hsound :=
    ⟨rfl, rfl, isWhole?_ofOption hsound.height, isText?_ofOption _, isText?_ofOption _⟩

theorem restores_genre : Restores Genre.Typed Genre.Sound Genre.fields ["movieId", "genre"] where
  filled h _ := by
    simp only [Dataset.filled, List.map_cons, List.map_nil, getD_of_isText h.movieId,
      getD_of_isText h.genre]
    rfl
  typed _ := ⟨rfl, rfl⟩

theorem restores_directing :
    Restores Directing.Typed Directing.Sound Directing.fields ["movieId", "nameId"] where
  filled h _ := by
    simp only [Dataset.filled, List.map_cons, List.map_nil, getD_of_isText h.movieId,
      getD_of_isText h.nameId]
    rfl
  typed _ := ⟨rfl, rfl⟩

theorem restores_casting :
    Restores Casting.Typed Casting.Sound Casting.fields ["movieId", "nameId", "category"] where
  filled h _ := by
    simp only [Dataset.filled, List.map_cons, List.map_nil, getD_of_isText h.movieId,
      getD_of_isText h.nameId, getD_of_isText h.category]
    rfl
  typed _ := ⟨rfl, rfl, rfl⟩

theorem restores_rating : Restores Rating.Typed Rating.Sound Rating.fields ratingNames where
  filled h hsound := by
    rw [Dataset.filled, ratingNames]
    simp only [List.map_cons, List.map_nil, getD_of_isText h.movieId,
      getD_of_isNumber? h.avgRating,
      getD_of_isWhole? h.totalVotes fun n hn => (hsound.totalVotes n hn).1,
      getD_of_isWhole? h.medianRating fun n hn => (hsound.medianRating n hn).1]
    rfl
  typed hsound :=
    ⟨rfl, isNumber?_ofOption _, isWhole?_ofOption fun n hn => (hsound.totalVotes n hn).1,
      isWhole?_ofOption fun n hn => (hsound.medianRating n hn).1⟩

section Restores

variable {field : Option Json} {as : List α}

theorem Restores.filledAll_eq (h : Restores kinds rule fields names)
    (hlist : IsList (IsRecord kinds) field as) (hrule : ∀ a ∈ as, rule a) :
    .array (as.map fun a => .object (fields a)) = filledAll names field := by
  obtain ⟨items, rfl, hitems⟩ := hlist
  rw [filledAll, Json.array.injEq]
  induction hitems with
  | nil => rfl
  | cons hitem _ ih =>
    obtain ⟨hfirst, hrest⟩ := List.forall_mem_cons.1 hrule
    obtain ⟨given, hgiven, hkinds⟩ := hitem
    obtain rfl := Option.some.inj hgiven
    rw [List.map_cons, List.map_cons, ih hrest, h.filled (v := .object given) hkinds hfirst]

theorem Restores.filledAll_eq_of_missing (h : Restores kinds rule fields names)
    (hlist : IsListOrMissing (IsRecord kinds) field as) (hrule : ∀ a ∈ as, rule a) :
    .array (as.map fun a => .object (fields a)) = filledAll names field := by
  rcases hlist with ⟨rfl, rfl⟩ | hlist
  · rfl
  · exact h.filledAll_eq hlist hrule

theorem Restores.isList (h : Restores kinds rule fields names) (hrule : ∀ a ∈ as, rule a) :
    IsList (IsRecord kinds) (some (.array (as.map fun a => .object (fields a)))) as := by
  refine ⟨_, rfl, ?_⟩
  rw [List.forall₂_map_left_iff, List.forall₂_same]
  exact fun a ha => ⟨fields a, rfl, h.typed (hrule a ha)⟩

end Restores

/-- A sound dataset is what its value shows of it. -/
theorem toJson_eq_filled {v : Json} {d : Dataset} (h : IsRecord Typed (some v) d)
    (hsound : d.Sound) : d.toJson = filledDataset v := by
  obtain ⟨given, hgiven, htyped⟩ := h
  obtain rfl := Option.some.inj hgiven
  rw [toJson, restores_movie.filledAll_eq htyped.movies hsound.movies,
    restores_name.filledAll_eq_of_missing htyped.names hsound.names,
    restores_genre.filledAll_eq_of_missing htyped.genres hsound.genres,
    restores_directing.filledAll_eq_of_missing htyped.directings hsound.directings,
    restores_casting.filledAll_eq_of_missing htyped.castings hsound.castings,
    restores_rating.filledAll_eq_of_missing htyped.ratings hsound.ratings,
    ← getD_of_isText htyped.generatedAt]
  rfl

theorem typed_toJson {d : Dataset} (h : d.Sound) : IsRecord Typed (some d.toJson) d :=
  ⟨_, rfl, rfl, restores_movie.isList h.movies, .inr (restores_name.isList h.names),
    .inr (restores_genre.isList h.genres), .inr (restores_directing.isList h.directings),
    .inr (restores_casting.isList h.castings), .inr (restores_rating.isList h.ratings)⟩

end Filled

/-- The fault of a value with issues. -/
def refusal (source : String) (issues : List Issue) : Fault :=
  .create .datasetInvalid "Dataset file has an invalid format."
    [("source", .string source), ("issues", .array (issues.map Issue.toJson))]

theorem parse_of_value {field : Option Json} {d : Dataset} (h : (check field).value = some d)
    (source : String) : parse field source =
      if (check field).issues.isEmpty then .ok d
      else .error (refusal source (check field).issues) := by
  rw [parse, toExcept, h]
  cases (check field).issues <;> rfl

theorem parse_eq_ok {field : Option Json} {source : String} {d : Dataset} :
    parse field source = .ok d ↔ (check field).Gives d := by
  rw [parse, ← toExcept_eq_ok]
  cases (check field).toExcept <;> simp

/-- A dataset is accepted just if its fields are, and no movie comes twice. -/
theorem accepts_iff {field : Option Json} {source : String} {d : Dataset} :
    parse field source = .ok d ↔
      IsRecord Typed field d ∧ d.Sound ∧ (d.movies.map (·.id)).Nodup := by
  rw [parse_eq_ok, ← reads_true, check_eq, reads_refine, describes_checkFields, true_imp_iff,
    true_imp_iff, duplicates_eq_repeats, List.map_eq_nil_iff, repeats_eq_nil_iff, and_assoc]

/-- The numbers of a sound movie are in the safe range, and its duration has no sign. -/
structure Movie.Keeps (m : Movie) : Prop where
  year : ∀ n, m.year = some n → n.natAbs < 2 ^ 53
  duration : ∀ n, m.duration = some n → 0 ≤ n ∧ n < 2 ^ 53

/-- The numbers of a sound rating keep their bounds. -/
structure Rating.Keeps (r : Rating) : Prop where
  average : ∀ q, r.avgRating = some q → 0 ≤ q ∧ q ≤ 10
  votes : ∀ n, r.totalVotes = some n → 0 ≤ n ∧ n < 2 ^ 53
  median : ∀ n, r.medianRating = some n → 0 ≤ n ∧ n ≤ 10

theorem Movie.Sound.keeps {m : Movie} (h : m.Sound) : m.Keeps where
  year := h.year
  duration n hn := by
    have hbounds := h.duration n hn
    omega

theorem Rating.Sound.keeps {r : Rating} (h : r.Sound) : r.Keeps where
  average := h.avgRating
  votes n hn := by
    have hbounds := h.totalVotes n hn
    omega
  median n hn := (h.medianRating n hn).2

/-- What an accepted dataset is: sound, and without a movie that comes twice. -/
structure Accepted (d : Dataset) : Prop where
  sound : d.Sound
  identified : (d.movies.map (·.id)).Nodup

theorem accepted_of_parse {value : Option Json} {source : String} {d : Dataset}
    (h : parse value source = .ok d) : Accepted d :=
  ⟨(accepts_iff.1 h).2.1, (accepts_iff.1 h).2.2⟩

theorem keeps_of_parse {value : Option Json} {source : String} {d : Dataset}
    (h : parse value source = .ok d) :
    (∀ m ∈ d.movies, m.Keeps) ∧ ∀ r ∈ d.ratings, r.Keeps := by
  have hsound := (accepted_of_parse h).sound
  exact ⟨fun m hm => (hsound.movies m hm).keeps, fun r hr => (hsound.ratings r hr).keeps⟩

theorem issues_of_typed {field : Option Json} {d : Dataset} (h : IsRecord Typed field d) :
    (check field).value = some d ∧ (check field).issues =
      (checkFields field).issues ++ (repeats (d.movies.map (·.id))).map duplicate := by
  have hvalue := describes_checkFields.value.2 h
  rw [check_eq, refine, hvalue]
  exact ⟨rfl, congrArg _ (duplicates_eq_repeats d.movies)⟩

/--
A value is accepted as a dataset just if it is well typed, sound and without a movie that comes
twice; what is accepted is the value with its known fields, filled, and is accepted again. Of a
well-typed value, the issues after those of single fields are those of the movies whose identifier
came before.
-/
theorem parse_by_grammar (v : Json) (source : String) :
    (∀ d, parse (some v) source = .ok d ↔
      IsRecord Typed (some v) d ∧ d.Sound ∧ (d.movies.map (·.id)).Nodup) ∧
    (∀ d, parse (some v) source = .ok d →
      d.toJson = filledDataset v ∧ ∀ again, parse (some d.toJson) again = .ok d) ∧
    ∀ d, IsRecord Typed (some v) d → ∃ flaws : List Issue,
      (∀ issue ∈ flaws, ∀ message, issue.problem ≠ .custom message) ∧ (flaws = [] ↔ d.Sound) ∧
      let issues := flaws ++ (repeats (d.movies.map (·.id))).map duplicate
      parse (some v) source = if issues.isEmpty then .ok d else .error (refusal source issues) := by
  refine ⟨fun d => accepts_iff, fun d hd => ?_, fun d hd => ?_⟩
  · obtain ⟨htyped, hsound, hnodup⟩ := accepts_iff.1 hd
    exact ⟨toJson_eq_filled htyped hsound, fun again =>
      accepts_iff.2 ⟨typed_toJson hsound, hsound, hnodup⟩⟩
  · obtain ⟨hvalue, hissues⟩ := issues_of_typed hd
    have hsound : (checkFields (some v)).issues = [] ↔ d.Sound := by
      have hgives : (checkFields (some v)).Gives d ↔ IsRecord Typed (some v) d ∧ d.Sound :=
        describes_checkFields.gives
      rw [Gives, describes_checkFields.value] at hgives
      exact ⟨fun h => (hgives.1 ⟨h, hd⟩).2, fun h => (hgives.2 ⟨hd, h⟩).1⟩
    refine ⟨(checkFields (some v)).issues, plain_checkFields _, hsound, ?_⟩
    rw [parse_of_value hvalue, hissues]

/-- A value with a movie for each of some titles, under one identifier, and an unknown field. -/
def namesakes (titles : List String) : Json :=
  .object
    [("generatedAt", .string "2020-01-01T00:00:00Z"), ("version", .null),
     ("movies", .array (titles.map fun title =>
       .object [("id", .string "tt1"), ("title", .string title), ("year", .ofInt 1999)]))]

/-- The dataset that is read of it. -/
def namesakesRead (titles : List String) : Dataset where
  generatedAt := "2020-01-01T00:00:00Z"
  movies := titles.map fun title => ⟨"tt1", title, some 1999, none, none, none, none, none, none⟩
  names := []
  genres := []
  directings := []
  castings := []
  ratings := []

theorem typed_namesakes (titles : List String) :
    IsRecord Typed (some (namesakes titles)) (namesakesRead titles) := by
  refine ⟨_, rfl, rfl, ⟨_, rfl, ?_⟩, .inl ⟨rfl, rfl⟩, .inl ⟨rfl, rfl⟩, .inl ⟨rfl, rfl⟩,
    .inl ⟨rfl, rfl⟩, .inl ⟨rfl, rfl⟩⟩
  rw [namesakesRead, List.forall₂_map_left_iff, List.forall₂_map_right_iff, List.forall₂_same]
  have hyear : Binary64.ofInt 1999 = .finite 1999 := Binary64.ofInt_of_natAbs_lt (by decide)
  intro title _
  refine ⟨_, rfl, ⟨rfl, rfl, ?_, .inl rfl, .inl rfl, .inl rfl, .inl rfl, .inl rfl, .inl rfl⟩⟩
  exact congrArg (fun x => some (Json.number x)) hyear

/-- One movie is accepted, without the unknown field; of three under one identifier, all but the
first are duplicates, besides what is wrong with a title. -/
theorem parse_by_grammar_namesakes :
    (∃ d, parse (some (namesakes ["One"])) "one" = .ok d ∧
      d.toJson = filledDataset (namesakes ["One"]) ∧ parse (some d.toJson) "again" = .ok d) ∧
    ∃ flaws : List Issue, flaws ≠ [] ∧ parse (some (namesakes ["One", "Two", ""])) "three" =
      .error (refusal "three" (flaws ++ [duplicate ("tt1", 1), duplicate ("tt1", 2)])) := by
  constructor
  · obtain ⟨haccepts, hkept, -⟩ := parse_by_grammar (namesakes ["One"]) "one"
    have hsound : (namesakesRead ["One"]).Sound := by
      refine ⟨by decide +kernel, List.forall_mem_singleton.2 ⟨by decide, by decide, ?_, ?_, ?_⟩,
        List.forall_mem_nil _, List.forall_mem_nil _, List.forall_mem_nil _, List.forall_mem_nil _,
        List.forall_mem_nil _⟩ <;> simp
    have hok := (haccepts _).2 ⟨typed_namesakes ["One"], hsound, List.nodup_singleton _⟩
    obtain ⟨hfilled, hagain⟩ := hkept _ hok
    exact ⟨_, hok, hfilled, hagain "again"⟩
  · obtain ⟨-, -, hissues⟩ := parse_by_grammar (namesakes ["One", "Two", ""]) "three"
    obtain ⟨flaws, -, hsound, hparse⟩ := hissues _ (typed_namesakes ["One", "Two", ""])
    have hunsound : ¬ (namesakesRead ["One", "Two", ""]).Sound := by
      intro h
      exact (h.movies ⟨"tt1", "", some 1999, none, none, none, none, none, none⟩
        (by decide)).title rfl
    have hrepeats : repeats ((namesakesRead ["One", "Two", ""]).movies.map (·.id)) =
        [("tt1", 1), ("tt1", 2)] := by decide
    refine ⟨flaws, mt hsound.1 hunsound, ?_⟩
    rw [hparse, hrepeats, if_neg (by simp)]
    rfl

end FilmReport.Dataset
