import FilmReport.Dataset.Basic
import FilmReport.Binary64.Basic

/-!
The sample dataset: eight movies with their people, genres and ratings. Among them are movies with
missing, blank and unreadable fields.
-/

set_option autoImplicit false
set_option relaxedAutoImplicit false

namespace FilmReport.Dataset

/-- The average nearest to a number of tenths. -/
def tenths (n : Int) : Option Rat :=
  match Binary64.round (mkRat n 10) with
  | .finite q => some q
  | _ => none

/-- The movies. -/
def sampleMovies : List Movie :=
  [⟨"tt0100001", "Harbor Lights", some 2019, some "2019-03-15", some 120,
    some "USA, UK, France, Germany", some "$ 1,234,567.89", some "English, French",
    some "Northwind Pictures"⟩,
   ⟨"tt0100002", "The Quiet Orchard", some 2019, some "2019-03-02", some 95, some "India",
    some "INR 500,000", some "Hindi, English", some "Lotus Frame Studios"⟩,
   ⟨"tt0100003", "Paper Comets", some 2018, some "2018-07-20", some 105, some "USA",
    some "$ 2,500,000", some "English", some "Northwind Pictures"⟩,
   ⟨"tt0100004", "Salt and Ember", some 2018, some "2018-11-05", some 140,
    some "France, Belgium", none, some "French", none⟩,
   ⟨"tt0100005", "Glass Meridian", some 2017, some "2017-03-28", some 88, some "", some "",
    some "", some "   "⟩,
   ⟨"tt0100006", "Lantern Season", some 2019, some "2019-08-09", some 131, some "UK, USA",
    some "$ 12.3.4", some "English, Spanish, German, Italian", some "Ridgeline Films"⟩,
   ⟨"tt0100007", "Copper Tide", some 2017, some "2017-12-01", some 99, some "USA,",
    some "$ 750,000", some "English", some "Ridgeline Films"⟩,
   ⟨"tt0100008", "Northern Static", some 2018, some "2018-03-10", some 112, some "Canada",
    some "$ 1,000,000.50", some "English, French", some "Northwind Pictures"⟩]

/-- The people. -/
def sampleNames : List Name :=
  [⟨"nm0000001", "Ava Lindqvist", some 168, some "1985-04-12", some "tt0100001"⟩,
   ⟨"nm0000002", "Tomas Reyes", some 181, some "1979-09-30", some "tt0100004"⟩,
   ⟨"nm0000003", "Priya Natarajan", some 160, some "1990-01-05", some "tt0100002"⟩,
   ⟨"nm0000004", "Olek Brandt", none, some "1968-06-18", none⟩,
   ⟨"nm0000005", "June Achterberg", none, none, some "tt0100004"⟩,
   ⟨"nm0000006", "Marcus Oyelaran", some 175, some "1988-11-21", some "tt0100003"⟩]

/-- The genres of the movies. -/
def sampleGenres : List Genre :=
  [⟨"tt0100001", "Drama"⟩, ⟨"tt0100001", "Thriller"⟩, ⟨"tt0100002", "Drama"⟩,
   ⟨"tt0100003", "Comedy"⟩, ⟨"tt0100004", "Drama"⟩, ⟨"tt0100004", "Romance"⟩,
   ⟨"tt0100005", "Thriller"⟩, ⟨"tt0100006", "Drama"⟩, ⟨"tt0100006", "Comedy"⟩,
   ⟨"tt0100006", "Adventure"⟩, ⟨"tt0100007", "Thriller"⟩, ⟨"tt0100008", "Drama"⟩]

/-- Who directed the movies. -/
def sampleDirectings : List Directing :=
  [⟨"tt0100001", "nm0000004"⟩, ⟨"tt0100003", "nm0000004"⟩, ⟨"tt0100006", "nm0000004"⟩,
   ⟨"tt0100002", "nm0000005"⟩, ⟨"tt0100004", "nm0000005"⟩, ⟨"tt0100008", "nm0000005"⟩]

/-- Who played in the movies. -/
def sampleCastings : List Casting :=
  [⟨"tt0100001", "nm0000001", .actress⟩, ⟨"tt0100001", "nm0000002", .actor⟩,
   ⟨"tt0100002", "nm0000003", .actress⟩, ⟨"tt0100003", "nm0000001", .actress⟩,
   ⟨"tt0100003", "nm0000006", .actor⟩, ⟨"tt0100004", "nm0000003", .actress⟩,
   ⟨"tt0100004", "nm0000002", .actor⟩, ⟨"tt0100006", "nm0000001", .actress⟩,
   ⟨"tt0100006", "nm0000002", .actor⟩, ⟨"tt0100006", "nm0000006", .actor⟩,
   ⟨"tt0100007", "nm0000006", .actor⟩, ⟨"tt0100008", "nm0000001", .actress⟩]

/-- The ratings of the movies. -/
def sampleRatings : List Rating :=
  [⟨"tt0100001", tenths 81, some 15000, some 8⟩, ⟨"tt0100002", tenths 74, some 900, some 7⟩,
   ⟨"tt0100003", tenths 62, some 4000, some 6⟩, ⟨"tt0100004", tenths 90, some 2500, some 10⟩,
   ⟨"tt0100005", none, none, none⟩, ⟨"tt0100006", tenths 78, some 12000, some 8⟩,
   ⟨"tt0100007", tenths 55, some 300, some 5⟩, ⟨"tt0100008", tenths 85, some 1500, some 10⟩]

/-- The sample dataset. -/
def sample : Dataset where
  generatedAt := "2026-01-15T10:00:00.000Z"
  movies := sampleMovies
  names := sampleNames
  genres := sampleGenres
  directings := sampleDirectings
  castings := sampleCastings
  ratings := sampleRatings

end FilmReport.Dataset
