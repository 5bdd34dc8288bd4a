import FilmReport.Query.Definition
import FilmReport.Query.Joined

/-!
Queries about genres.
-/

set_option autoImplicit false
set_option relaxedAutoImplicit false

namespace FilmReport.Query.Genres

open Store

/-- All genres. -/
def all : Definition where
  id := "Q04"
  segment := 1
  label := "All distinct genres in the dataset"
  parameters := []
  statement :=
    select
      ["SELECT DISTINCT genre",
       "FROM genre",
       "ORDER BY genre ASC"]
      ["genre"] (needs [.genre]) []
      fun _ s => sortBy [.up 0] (keysOf (fun g => [.text g.genre]) (s.rowsOf .genre))

/-- The movies with more than one genre. -/
def moviesOfSeveral : Definition where
  id := "Q05"
  segment := 1
  label := "Movies with more than one genre"
  parameters := []
  statement :=
    select
      ["SELECT m.title, COUNT(g.genre) AS genre_count",
       "FROM movie m",
       "JOIN genre g ON m.id = g.movie_id",
       "GROUP BY m.id, m.title",
       "HAVING COUNT(g.genre) > 1",
       "ORDER BY genre_count DESC, m.title ASC"]
      ["title", "genre_count"] (needs [.movie, .genre]) []
      fun _ s =>
        sortBy [.down 1, .up 0] <|
          ((grouped (fun (_, m) => [.ofText? m.id, .text m.title]) (fun gs => [count gs])
            (genreMovies s)).filter fun row => Cell.above (cellAt row 2) (.int 1)).map (·.drop 1)

/-- The genre with the highest average rating. -/
def bestRated : Definition where
  id := "Q13"
  segment := 2
  label := "Genre with the highest average rating"
  parameters := []
  statement :=
    select
      ["SELECT g.genre,",
       "       ROUND(AVG(r.avg_rating), 2) AS avg_genre_rating",
       "FROM genre g",
       "JOIN ratings r ON g.movie_id = r.movie_id",
       "GROUP BY g.genre",
       "ORDER BY avg_genre_rating DESC, g.genre ASC",
       "LIMIT 1"]
      ["genre", "avg_genre_rating"] (needs [.genre, .ratings]) []
      fun _ s =>
        (sortBy [.down 1, .up 0] <|
          grouped (fun (g, _) => [.text g.genre]) (fun rs => [rounded 2 (averageRating rs)])
            (genreRatings s)).take 1

/-- The share of each genre in the movies. -/
def shares : Definition where
  id := "Q17"
  segment := 2
  label := "Percentage of movies in each genre"
  parameters := []
  statement :=
    select
      ["SELECT g.genre,",
       "       ROUND(COUNT(*) * 100.0 / (SELECT COUNT(*) FROM movie), 2) AS percentage",
       "FROM genre g",
       "GROUP BY g.genre",
       "ORDER BY percentage DESC, g.genre ASC"]
      ["genre", "percentage"] (needs [.genre, .movie]) []
      fun _ s =>
        sortBy [.down 1, .up 0] <|
          grouped (fun g => [.text g.genre])
            (fun gs => [rounded 2 (percentage (count gs) (count (s.rowsOf .movie)))])
            (s.rowsOf .genre)

/-- Rated movies with each of their genres. -/
def ratedGenres (s : Store) : List ((MovieRow × RatingRow) × GenreRow) :=
  join (ratedMovies s) (s.rowsOf .genre) fun (m, _) g => m.id = some g.movieId

/-- Each genre with its average rating. -/
def genreAverages (s : Store) : List (List Cell) :=
  grouped (fun (g, _) => [.text g.genre]) (fun rs => [averageRating rs]) (genreRatings s)

/-- The movies rated above the average of their genre, at most 1000. -/
def aboveAverage : Definition where
  id := "Q24"
  segment := 3
  label := "Movies rated above the average of their genre"
  parameters := []
  statement :=
    select
      ["SELECT m.title, g.genre, r.avg_rating",
       "FROM movie m",
       "JOIN ratings r ON m.id = r.movie_id",
       "JOIN genre g ON m.id = g.movie_id",
       "JOIN (",
       "  SELECT g2.genre, AVG(r2.avg_rating) AS avg_genre_rating",
       "  FROM genre g2",
       "  JOIN ratings r2 ON g2.movie_id = r2.movie_id",
       "  GROUP BY g2.genre",
       ") ga ON g.genre = ga.genre",
       "WHERE r.avg_rating > ga.avg_genre_rating",
       "ORDER BY g.genre ASC, r.avg_rating DESC, m.title ASC",
       "LIMIT 1000"]
      ["title", "genre", "avg_rating"] (needs [.movie, .ratings, .genre, .genre, .ratings]) []
      fun _ s =>
        (sortBy [.up 1, .down 2, .up 0] <|
          ((join (ratedGenres s) (genreAverages s) fun (_, g) row =>
            Cell.same (.text g.genre) (cellAt row 0)).filter fun ((mr, _), row) =>
              Cell.above mr.2.avgRating (cellAt row 1)).map fun (((m, r), g), _) =>
                [.text m.title, .text g.genre, r.avgRating]).take 1000

/-- The five genres with the highest total amount. -/
def highestGrossing : Definition where
  id := "Q25"
  segment := 4
  label := "Top 5 genres by total worldwide gross"
  parameters := []
  statement :=
    select
      ["SELECT g.genre,",
       "       ROUND(SUM(m.worldwide_gross_num), 2) AS total_gross",
       "FROM genre g",
       "JOIN movie m ON g.movie_id = m.id",
       "WHERE m.worldwide_gross_num > 0",
       "GROUP BY g.genre",
       "ORDER BY total_gross DESC, g.genre ASC",
       "LIMIT 5"]
      ["genre", "total_gross"] (needsAmount [.genre, .movie] "m.worldwide_gross_num") []
      fun _ s =>
        (sortBy [.down 1, .up 0] <|
          grouped (fun (g, _) => [.text g.genre])
            (fun gs => [rounded 2 (sum (gs.map fun (_, m) => m.grossAmount))])
            ((genreMovies s).filter fun (_, m) => hasGross m)).take 5

/-- The average duration in each genre. -/
def averageDuration : Definition where
  id := "Q26"
  segment := 4
  label := "Average movie duration per genre"
  parameters := []
  statement :=
    select
      ["SELECT g.genre,",
       "       ROUND(AVG(m.duration), 2) AS avg_duration",
       "FROM genre g",
       "JOIN movie m ON g.movie_id = m.id",
       "GROUP BY g.genre",
       "ORDER BY avg_duration DESC, g.genre ASC"]
      ["genre", "avg_duration"] (needs [.genre, .movie]) []
      fun _ s =>
        sortBy [.down 1, .up 0] <|
          grouped (fun (g, _) => [.text g.genre])
            (fun gs => [rounded 2 (average (gs.map fun (_, m) => m.duration))]) (genreMovies s)

/-- The movies with the highest rating in each genre. -/
def topRatedMovies : Definition where
  id := "Q29"
  segment := 4
  label := "Top-rated movie for each genre"
  parameters := []
  statement :=
    select
      ["SELECT g.genre, m.title, r.avg_rating",
       "FROM genre g",
       "JOIN movie m ON g.movie_id = m.id",
       "JOIN ratings r ON m.id = r.movie_id",
       "WHERE (g.genre, r.avg_rating) IN (",
       "  SELECT g2.genre, MAX(r2.avg_rating)",
       "  FROM genre g2",
       "  JOIN ratings r2 ON g2.movie_id = r2.movie_id",
       "  GROUP BY g2.genre",
       ")",
       "ORDER BY g.genre ASC, m.title ASC"]
      ["genre", "title", "avg_rating"] (needs [.genre, .movie, .ratings]) []
      fun _ s =>
        let best :=
          grouped (fun (g, _) => [.text g.genre])
            (fun rs => [greatest (rs.map fun (_, r) => r.avgRating)]) (genreRatings s)
        sortBy [.up 0, .up 1] <|
          ((ratedGenres s).filter fun ((_, r), g) =>
            isAmong [.text g.genre, r.avgRating] best).map fun ((m, r), g) =>
              [.text g.genre, .text m.title, r.avgRating]

/-- The longest movies in each genre. -/
def longestMovies : Definition where
  id := "Q33"
  segment := 5
  label := "Longest movie in each genre"
  parameters := []
  statement :=
    select
      ["SELECT g.genre, m.title, m.duration",
       "FROM genre g",
       "JOIN movie m ON g.movie_id = m.id",
       "WHERE (g.genre, m.duration) IN (",
       "  SELECT g2.genre, MAX(m2.duration)",
       "  FROM genre g2",
       "  JOIN movie m2 ON g2.movie_id = m2.id",
       "  GROUP BY g2.genre",
       ")",
       "ORDER BY g.genre ASC, m.title ASC"]
      ["genre", "title", "duration"] (needs [.genre, .movie]) []
      fun _ s =>
        let longest :=
          grouped (fun (g, _) => [.text g.genre])
            (fun ms => [greatest (ms.map fun (_, m) => m.duration)]) (genreMovies s)
        sortBy [.up 0, .up 1] <|
          ((genreMovies s).filter fun (g, m) =>
            isAmong [.text g.genre, m.duration] longest).map fun (g, m) =>
              [.text g.genre, .text m.title, m.duration]

end FilmReport.Query.Genres
