import FilmReport.Query.Definition
import FilmReport.Query.Joined
import FilmReport.Calendar.Month
import FilmReport.Text.Pattern

/-!
Queries about movies: listings, counts by year, month and rating, and rankings.
-/

set_option autoImplicit false
set_option relaxedAutoImplicit false

namespace FilmReport.Query.Movies

open Store

/-- Whether a movie is of a year. -/
def isOfYear (year : Int) (m : MovieRow) : Bool :=
  m.year.same (.real (.ofInt year))

/-- The movies of a year by date of publication. -/
def releasedInYear : Definition where
  id := "Q01"
  segment := 1
  label := "List all the movies released in a given year"
  parameters := [.year]
  statement :=
    select
      ["SELECT id, title, year, date_published",
       "FROM movie",
       "WHERE year = @year",
       "ORDER BY date_published ASC, id ASC"]
      ["id", "title", "year", "date_published"] (needs [.movie]) [.year]
      fun p s =>
        sortBy [.up 3, .up 0] <|
          (s.rowsOf .movie |>.filter (isOfYear p.year)).map fun m =>
            [.ofText? m.id, .text m.title, m.year, .ofText? m.datePublished]

/-- Each year with its number of movies. -/
def yearCounts (s : Store) : List (List Cell) :=
  grouped (fun m => [m.year]) (fun ms => [count ms]) (s.rowsOf .movie)

/-- The number of movies of each year. -/
def countByYear : Definition where
  id := "Q02"
  segment := 1
  label := "Number of movies released each year"
  parameters := []
  statement :=
    select
      ["SELECT year, COUNT(*) AS total_movies",
       "FROM movie",
       "GROUP BY year",
       "ORDER BY year ASC"]
      ["year", "total_movies"] (needs [.movie]) []
      fun _ s => sortBy [.up 0] (yearCounts s)

/-- The five movies with the highest ratings. -/
def topRated : Definition where
  id := "Q03"
  segment := 1
  label := "Top 5 movies with the highest average rating"
  parameters := []
  statement :=
    select
      ["SELECT m.title, r.avg_rating",
       "FROM movie m",
       "JOIN ratings r ON m.id = r.movie_id",
       "ORDER BY r.avg_rating DESC, m.title ASC",
       "LIMIT 5"]
      ["title", "avg_rating"] (needs [.movie, .ratings]) []
      fun _ s =>
        (sortBy [.down 1, .up 0] <|
          (ratedMovies s).map fun (m, r) => [.text m.title, r.avgRating]).take 5

/-- Whether the languages of a movie name English and hold a comma. -/
def namesEnglishAndMore (m : MovieRow) : Bool :=
  match m.languages with
  | some languages => Text.like "%English%" languages && Text.like "%,%" languages
  | none => false

/-- The movies whose languages name English and are more than one. -/
def inEnglishAndMore : Definition where
  id := "Q08"
  segment := 1
  label := "Movies in English and at least one other language"
  parameters := []
  statement :=
    select
      ["SELECT title, languages",
       "FROM movie",
       "WHERE languages LIKE '%English%'",
       "  AND languages LIKE '%,%'",
       "ORDER BY title ASC"]
      ["title", "languages"] (needs [.movie]) []
      fun _ s =>
        sortBy [.up 0] <|
          (s.rowsOf .movie |>.filter namesEnglishAndMore).map fun m =>
            [.text m.title, .ofText? m.languages]

/-- Whether no movie of the same year has a greater amount. -/
def isBestOfYear (s : Store) (m : MovieRow) : Bool :=
  let ofYear := s.rowsOf .movie |>.filter fun other => other.year.same m.year
  m.grossAmount.same (greatest (ofYear.map (·.grossAmount)))

/-- The movies with the highest amount of each year. -/
def highestGrossingByYear : Definition where
  id := "Q12"
  segment := 2
  label := "Highest-grossing movie for each year"
  parameters := []
  statement :=
    select
      ["SELECT m.year, m.title, m.worldwide_gross_num",
       "FROM movie m",
       "WHERE m.worldwide_gross_num = (",
       "  SELECT MAX(m2.worldwide_gross_num)",
       "  FROM movie m2",
       "  WHERE m2.year = m.year",
       ")",
       "ORDER BY m.year ASC, m.title ASC"]
      ["year", "title", "worldwide_gross_num"] (needsAmount [.movie] "m.worldwide_gross_num") []
      fun _ s =>
        sortBy [.up 0, .up 1] <|
          (s.rowsOf .movie |>.filter (isBestOfYear s)).map fun m =>
            [m.year, .text m.title, m.grossAmount]

/-- The month of a stored date. -/
def monthCell (date : Option String) : Cell :=
  match date.bind Calendar.monthOf? with
  | some month => .int month
  | none => .null

/-- Each month with its number of movies, of those that have a date. -/
def monthCounts (movies : List MovieRow) : List (List Cell) :=
  grouped (fun m => [monthCell m.datePublished]) (fun ms => [count ms])
    (movies.filter fun m => m.datePublished.isSome)

/-- The number of movies of each month of a year. -/
def monthsOfYear : Definition where
  id := "Q15"
  segment := 2
  label := "Movies released each month of a given year"
  parameters := [.year]
  statement :=
    select
      ["SELECT CAST(strftime('%m', date_published) AS INTEGER) AS release_month,",
       "       COUNT(*) AS total_movies",
       "FROM movie",
       "WHERE year = @year",
       "  AND date_published IS NOT NULL",
       "GROUP BY release_month",
       "ORDER BY release_month ASC"]
      ["release_month", "total_movies"] (needs [.movie]) [.year]
      fun p s =>
        sortBy [.up 0] (monthCounts (s.rowsOf .movie |>.filter (isOfYear p.year)))

/-- The movies with a median rating of 10 and more than 1000 votes. -/
def perfectMedian : Definition where
  id := "Q16"
  segment := 2
  label := "Movies with a median rating of 10 and more than 1000 votes"
  parameters := []
  statement :=
    select
      ["SELECT m.title, r.median_rating, r.total_votes",
       "FROM movie m",
       "JOIN ratings r ON m.id = r.movie_id",
       "WHERE r.median_rating = 10",
       "  AND r.total_votes > 1000",
       "ORDER BY r.total_votes DESC, m.title ASC"]
      ["title", "median_rating", "total_votes"] (needs [.movie, .ratings]) []
      fun _ s =>
        sortBy [.down 2, .up 0] <|
          ((ratedMovies s).filter fun (_, r) =>
            r.medianRating.same (.int 10) && Cell.above r.totalVotes (.int 1000)).map fun (m, r) =>
              [.text m.title, r.medianRating, r.totalVotes]

/-- Whether the date of a movie is from one text to another, both included. -/
def isBetween (first last : String) (m : MovieRow) : Bool :=
  match m.datePublished with
  | some date => Text.compareBytes first date != .gt && Text.compareBytes date last != .gt
  | none => false

/-- The movies published from one date to another. -/
def releasedBetween : Definition where
  id := "Q21"
  segment := 3
  label := "Movies released between two dates"
  parameters := [.dateFrom, .dateTo]
  statement :=
    select
      ["SELECT title, date_published",
       "FROM movie",
       "WHERE date_published BETWEEN @dateFrom AND @dateTo",
       "ORDER BY date_published ASC, title ASC"]
      ["title", "date_published"] (needs [.movie]) [.dateFrom, .dateTo]
      fun p s =>
        sortBy [.up 1, .up 0] <|
          (s.rowsOf .movie |>.filter (isBetween p.dateFrom p.dateTo)).map fun m =>
            [.text m.title, .ofText? m.datePublished]

/-- The month in which most movies were published. -/
def busiestMonth : Definition where
  id := "Q31"
  segment := 4
  label := "Month with the most releases across all years"
  parameters := []
  statement :=
    select
      ["SELECT CAST(strftime('%m', date_published) AS INTEGER) AS release_month,",
       "       COUNT(*) AS total_movies",
       "FROM movie",
       "WHERE date_published IS NOT NULL",
       "GROUP BY release_month",
       "ORDER BY total_movies DESC, release_month ASC",
       "LIMIT 1"]
      ["release_month", "total_movies"] (needs [.movie]) []
      fun _ s => (sortBy [.down 1, .up 0] (monthCounts (s.rowsOf .movie))).take 1

/-- The ten movies with the most votes for their rating. -/
def votesPerRating : Definition where
  id := "Q38"
  segment := 5
  label := "Top 10 movies by votes-to-rating ratio"
  parameters := []
  statement :=
    select
      ["SELECT m.title, r.total_votes, r.avg_rating,",
       "       ROUND(r.total_votes / r.avg_rating, 2) AS votes_per_rating",
       "FROM movie m",
       "JOIN ratings r ON m.id = r.movie_id",
       "WHERE r.avg_rating > 0",
       "ORDER BY votes_per_rating DESC, m.title ASC",
       "LIMIT 10"]
      ["title", "total_votes", "avg_rating", "votes_per_rating"] (needs [.movie, .ratings]) []
      fun _ s =>
        (sortBy [.down 3, .up 0] <|
          ((ratedMovies s).filter fun (_, r) => isPositive r.avgRating).map fun (m, r) =>
            [.text m.title, r.totalVotes, r.avgRating,
             rounded 2 (quotient r.totalVotes r.avgRating)]).take 10

/-- The total amount of each year. -/
def grossByYear : Definition where
  id := "Q43"
  segment := 6
  label := "Total worldwide gross per year"
  parameters := []
  statement :=
    select
      ["SELECT year,",
       "       ROUND(SUM(worldwide_gross_num), 2) AS total_gross",
       "FROM movie",
       "WHERE worldwide_gross_num > 0",
       "GROUP BY year",
       "ORDER BY year ASC"]
      ["year", "total_gross"] (needsAmount [.movie] "worldwide_gross_num") []
      fun _ s =>
        sortBy [.up 0] <|
          grouped (fun m => [m.year]) (fun ms => [rounded 2 (sum (ms.map (·.grossAmount)))])
            (s.rowsOf .movie |>.filter hasGross)

/-- Each rating with its number of movies. -/
def ratingCounts (s : Store) : List (List Cell) :=
  grouped (fun r => [r.avgRating]) (fun rs => [count rs]) (s.rowsOf .ratings)

/-- The number of movies with each rating. -/
def countByRating : Definition where
  id := "Q45"
  segment := 6
  label := "Number of movies in each rating value"
  parameters := []
  statement :=
    select
      ["SELECT avg_rating, COUNT(*) AS movie_count",
       "FROM ratings",
       "GROUP BY avg_rating",
       "ORDER BY avg_rating DESC"]
      ["avg_rating", "movie_count"] (needs [.ratings]) []
      fun _ s => sortBy [.down 0] (ratingCounts s)

/-- The year with the highest average rating. -/
def bestYear : Definition where
  id := "Q48"
  segment := 7
  label := "Year with the highest average movie rating"
  parameters := []
  statement :=
    select
      ["SELECT m.year,",
       "       ROUND(AVG(r.avg_rating), 2) AS avg_rating",
       "FROM movie m",
       "JOIN ratings r ON m.id = r.movie_id",
       "GROUP BY m.year",
       "ORDER BY avg_rating DESC, m.year ASC",
       "LIMIT 1"]
      ["year", "avg_rating"] (needs [.movie, .ratings]) []
      fun _ s =>
        (sortBy [.down 1, .up 0] <|
          grouped (fun (m, _) => [m.year]) (fun rs => [rounded 2 (averageRating rs)])
            (ratedMovies s)).take 1

/-- The ten movies with the highest rating for their duration. -/
def ratingPerMinute : Definition where
  id := "Q50"
  segment := 7
  label := "Top 10 movies by rating-to-duration ratio"
  parameters := []
  statement :=
    select
      ["SELECT m.title, m.duration, r.avg_rating,",
       "       ROUND(r.avg_rating / m.duration, 4) AS rating_per_minute",
       "FROM movie m",
       "JOIN ratings r ON m.id = r.movie_id",
       "WHERE m.duration > 0",
       "ORDER BY rating_per_minute DESC, m.title ASC",
       "LIMIT 10"]
      ["title", "duration", "avg_rating", "rating_per_minute"] (needs [.movie, .ratings]) []
      fun _ s =>
        (sortBy [.down 3, .up 0] <|
          ((ratedMovies s).filter fun (m, _) => isPositive m.duration).map fun (m, r) =>
            [.text m.title, m.duration, r.avgRating,
             rounded 4 (quotient r.avgRating m.duration)]).take 10

end FilmReport.Query.Movies
