import FilmReport.Query.Definition
import FilmReport.Query.Joined

/-!
Queries about the countries and languages of movies, as they were published.
-/

set_option autoImplicit false
set_option relaxedAutoImplicit false

namespace FilmReport.Query.Regions

open Store

/-- Each value of memberships with the number of its rows. -/
def valueCounts (rows : List MembershipRow) : List (List Cell) :=
  grouped (fun r => [.text r.value]) (fun rs => [count rs]) rows

/-- The language of the most movies. -/
def commonestLanguage : Definition where
  id := "Q14"
  segment := 2
  label := "Most common language among movies"
  parameters := []
  statement :=
    select
      ["SELECT language, COUNT(*) AS movie_count",
       "FROM movie_language",
       "GROUP BY language",
       "ORDER BY movie_count DESC, language ASC",
       "LIMIT 1"]
      ["language", "movie_count"] (needs [.movieLanguage]) []
      fun _ s => (sortBy [.down 1, .up 0] (valueCounts (s.rowsOf .movieLanguage))).take 1

/-- Each value of memberships with the average rating of the movies that have it. -/
def valueRatings (s : Store) (rows : List MembershipRow) : List (List Cell) :=
  grouped (fun (v, _) => [.text v.value]) (fun rs => [rounded 2 (averageRating rs)])
    (join rows (s.rowsOf .ratings) fun v r => r.movieId = some v.movieId)

/-- The average rating of the movies in each language. -/
def ratingByLanguage : Definition where
  id := "Q19"
  segment := 3
  label := "Average rating for movies in each language"
  parameters := []
  statement :=
    select
      ["SELECT ml.language,",
       "       ROUND(AVG(r.avg_rating), 2) AS avg_rating",
       "FROM movie_language ml",
       "JOIN ratings r ON ml.movie_id = r.movie_id",
       "GROUP BY ml.language",
       "ORDER BY avg_rating DESC, ml.language ASC"]
      ["language", "avg_rating"] (needs [.movieLanguage, .ratings]) []
      fun _ s => sortBy [.down 1, .up 0] (valueRatings s (s.rowsOf .movieLanguage))

/-- The five countries with the most movies. -/
def busiestCountries : Definition where
  id := "Q20"
  segment := 3
  label := "Top 5 countries by number of movies produced"
  parameters := []
  statement :=
    select
      ["SELECT mc.country, COUNT(*) AS total_movies",
       "FROM movie_country mc",
       "GROUP BY mc.country",
       "ORDER BY total_movies DESC, mc.country ASC",
       "LIMIT 5"]
      ["country", "total_movies"] (needs [.movieCountry]) []
      fun _ s => (sortBy [.down 1, .up 0] (valueCounts (s.rowsOf .movieCountry))).take 5

/-- Memberships with their movies. -/
def valueMovies (s : Store) (rows : List MembershipRow) : List (MembershipRow × MovieRow) :=
  join rows (s.rowsOf .movie) fun v m => m.id = some v.movieId

/-- The share of each country in the total amount. -/
def grossShares : Definition where
  id := "Q30"
  segment := 4
  label := "Percentage contribution of each country to total worldwide gross"
  parameters := []
  statement :=
    select
      ["SELECT mc.country,",
       "       ROUND(SUM(m.worldwide_gross_num) * 100.0 / " ++
         "(SELECT SUM(worldwide_gross_num) FROM movie), 2)",
       "         AS percentage_gross",
       "FROM movie_country mc",
       "JOIN movie m ON mc.movie_id = m.id",
       "WHERE m.worldwide_gross_num > 0",
       "GROUP BY mc.country",
       "ORDER BY percentage_gross DESC, mc.country ASC"]
      ["country", "percentage_gross"]
      (needsAmount [.movieCountry, .movie] "m.worldwide_gross_num") []
      fun _ s =>
        let whole := sum (s.rowsOf .movie |>.map (·.grossAmount))
        sortBy [.down 1, .up 0] <|
          grouped (fun (v, _) => [.text v.value])
            (fun vs => [rounded 2 (percentage (sum (vs.map fun (_, m) => m.grossAmount)) whole)])
            ((valueMovies s (s.rowsOf .movieCountry)).filter fun (_, m) => hasGross m)

/-- Each pair of a country and a genre with its number of movies. -/
def countryGenres (s : Store) : List (List Cell) :=
  grouped (fun (v, g) => [.text v.value, .text g.genre]) (fun vs => [count vs])
    (join (s.rowsOf .movieCountry) (s.rowsOf .genre) fun v g => v.movieId = g.movieId)

/-- Whether no row of the same country has a greater number. -/
def isCommonest (rows : List (List Cell)) (row : List Cell) : Bool :=
  let ofCountry := rows.filter fun other => Cell.same (cellAt other 0) (cellAt row 0)
  Cell.same (cellAt row 2) (greatest (ofCountry.map (cellAt · 2)))

/-- The commonest genres of each country. -/
def commonestGenres : Definition where
  id := "Q37"
  segment := 5
  label := "Most common genre per country"
  parameters := []
  statement :=
    select
      ["WITH country_genre AS (",
       "  SELECT mc.country, g.genre, COUNT(*) AS genre_count",
       "  FROM movie_country mc",
       "  JOIN genre g ON mc.movie_id = g.movie_id",
       "  GROUP BY mc.country, g.genre",
       ")",
       "SELECT cg.country, cg.genre, cg.genre_count",
       "FROM country_genre cg",
       "WHERE cg.genre_count = (",
       "  SELECT MAX(cg2.genre_count)",
       "  FROM country_genre cg2",
       "  WHERE cg2.country = cg.country",
       ")",
       "ORDER BY cg.country ASC, cg.genre ASC"]
      ["country", "genre", "genre_count"] (needs [.movieCountry, .genre]) []
      fun _ s =>
        sortBy [.up 0, .up 1] ((countryGenres s).filter (isCommonest (countryGenres s)))

/-- The movies with the highest amount in each language. -/
def highestGrossingByLanguage : Definition where
  id := "Q41"
  segment := 6
  label := "Highest-grossing movie for each language"
  parameters := []
  statement :=
    select
      ["SELECT ml.language, m.title, m.worldwide_gross_num",
       "FROM movie_language ml",
       "JOIN movie m ON ml.movie_id = m.id",
       "WHERE (ml.language, m.worldwide_gross_num) IN (",
       "  SELECT ml2.language, MAX(m2.worldwide_gross_num)",
       "  FROM movie_language ml2",
       "  JOIN movie m2 ON ml2.movie_id = m2.id",
       "  GROUP BY ml2.language",
       ")",
       "ORDER BY ml.language ASC, m.title ASC"]
      ["language", "title", "worldwide_gross_num"]
      (needsAmount [.movieLanguage, .movie] "m.worldwide_gross_num") []
      fun _ s =>
        let rows := valueMovies s (s.rowsOf .movieLanguage)
        let best :=
          grouped (fun (v, _) => [.text v.value])
            (fun vs => [greatest (vs.map fun (_, m) => m.grossAmount)]) rows
        sortBy [.up 0, .up 1] <|
          (rows.filter fun (v, m) => isAmong [.text v.value, m.grossAmount] best).map fun (v, m) =>
            [.text v.value, .text m.title, m.grossAmount]

/-- The average rating of the movies of each country. -/
def ratingByCountry : Definition where
  id := "Q47"
  segment := 7
  label := "Average rating per country"
  parameters := []
  statement :=
    select
      ["SELECT mc.country,",
       "       ROUND(AVG(r.avg_rating), 2) AS avg_rating",
       "FROM movie_country mc",
       "JOIN ratings r ON mc.movie_id = r.movie_id",
       "GROUP BY mc.country",
       "ORDER BY avg_rating DESC, mc.country ASC"]
      ["country", "avg_rating"] (needs [.movieCountry, .ratings]) []
      fun _ s => sortBy [.down 1, .up 0] (valueRatings s (s.rowsOf .movieCountry))

end FilmReport.Query.Regions
