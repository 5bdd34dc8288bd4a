import FilmReport.Query.Definition
import FilmReport.Query.Joined

/-!
Queries about the people of the movies: actors, directors and who worked with whom. They are told
apart by their names.
-/

set_option autoImplicit false
set_option relaxedAutoImplicit false

namespace FilmReport.Query.People

open Store

/-- The movies in which a person played. -/
def moviesOfActor : Definition where
  id := "Q06"
  segment := 1
  label := "Movies a given actor acted in"
  parameters := [.actorName]
  statement :=
    select
      ["SELECT m.title, m.year",
       "FROM movie m",
       "JOIN role_mapping rm ON m.id = rm.movie_id",
       "JOIN names n ON rm.name_id = n.id",
       "WHERE n.name = @actorName",
       "ORDER BY m.year ASC, m.title ASC"]
      ["title", "year"] (needs [.movie, .roleMapping, .names]) [.actorName]
      fun p s =>
        sortBy [.up 1, .up 0] <|
          ((playedMovies s).filter fun ((_, n), _) => n.name = p.actorName).map fun (_, m) =>
            [.text m.title, m.year]

/-- Each name of a director with its number of directings. -/
def directorCounts (s : Store) : List (List Cell) :=
  grouped personName (fun ds => [count ds]) (directedBy s)

/-- The number of movies of each director. -/
def moviesByDirector : Definition where
  id := "Q07"
  segment := 1
  label := "Number of movies directed by each director"
  parameters := []
  statement :=
    select
      ["SELECT n.name AS director_name, COUNT(dm.movie_id) AS movies_directed",
       "FROM director_mapping dm",
       "JOIN names n ON dm.name_id = n.id",
       "GROUP BY n.name",
       "ORDER BY movies_directed DESC, director_name ASC"]
      ["director_name", "movies_directed"] (needs [.directorMapping, .names]) []
      fun _ s => sortBy [.down 1, .up 0] (directorCounts s)

/-- The five directors with the highest average rating. -/
def bestDirectors : Definition where
  id := "Q10"
  segment := 2
  label := "Top 5 directors by average movie rating"
  parameters := []
  statement :=
    select
      ["SELECT n.name AS director_name,",
       "       ROUND(AVG(r.avg_rating), 2) AS avg_director_rating",
       "FROM director_mapping dm",
       "JOIN names n ON dm.name_id = n.id",
       "JOIN ratings r ON dm.movie_id = r.movie_id",
       "GROUP BY n.name",
       "ORDER BY avg_director_rating DESC, director_name ASC",
       "LIMIT 5"]
      ["director_name", "avg_director_rating"] (needs [.directorMapping, .names, .ratings]) []
      fun _ s =>
        (sortBy [.down 1, .up 0] <|
          grouped (fun (d, _) => personName d) (fun rs => [rounded 2 (averageRating rs)])
            (directedRatings s)).take 5

/-- Each name of an actor with its number of roles. -/
def actorCounts (s : Store) : List (List Cell) :=
  grouped personName (fun ps => [count ps]) (playedBy s)

/-- The ten actors with the most movies. -/
def busiestActors : Definition where
  id := "Q11"
  segment := 2
  label := "Top 10 actors by number of movies"
  parameters := []
  statement :=
    select
      ["SELECT n.name AS actor_name,",
       "       COUNT(rm.movie_id) AS total_movies",
       "FROM role_mapping rm",
       "JOIN names n ON rm.name_id = n.id",
       "GROUP BY n.name",
       "ORDER BY total_movies DESC, actor_name ASC",
       "LIMIT 10"]
      ["actor_name", "total_movies"] (needs [.roleMapping, .names]) []
      fun _ s => (sortBy [.down 1, .up 0] (actorCounts s)).take 10

/-- The director with the most movies in one year. -/
def busiestDirectorYear : Definition where
  id := "Q22"
  segment := 3
  label := "Director with the most movies in a single year"
  parameters := []
  statement :=
    select
      ["SELECT n.name AS director_name, m.year, COUNT(*) AS total_movies",
       "FROM director_mapping dm",
       "JOIN names n ON dm.name_id = n.id",
       "JOIN movie m ON dm.movie_id = m.id",
       "GROUP BY n.name, m.year",
       "ORDER BY total_movies DESC, director_name ASC, m.year ASC",
       "LIMIT 1"]
      ["director_name", "year", "total_movies"] (needs [.directorMapping, .names, .movie]) []
      fun _ s =>
        (sortBy [.down 2, .up 0, .up 1] <|
          grouped (fun (d, m) => personName d ++ [m.year]) (fun ds => [count ds])
            (directedMovies s)).take 1

/-- The actor and the director with the most movies together. -/
def commonestPair : Definition where
  id := "Q23"
  segment := 3
  label := "Most common actor-director pair"
  parameters := []
  statement :=
    select
      ["SELECT n_actor.name AS actor_name,",
       "       n_director.name AS director_name,",
       "       COUNT(*) AS movies_together",
       "FROM role_mapping rm",
       "JOIN names n_actor ON rm.name_id = n_actor.id",
       "JOIN director_mapping dm ON rm.movie_id = dm.movie_id",
       "JOIN names n_director ON dm.name_id = n_director.id",
       "GROUP BY n_actor.name, n_director.name",
       "ORDER BY movies_together DESC, actor_name ASC, director_name ASC",
       "LIMIT 1"]
      ["actor_name", "director_name", "movies_together"]
      (needs [.roleMapping, .names, .directorMapping, .names]) []
      fun _ s =>
        (sortBy [.down 2, .up 0, .up 1] <|
          grouped (fun (p, d) => personName p ++ personName d) (fun ps => [count ps])
            (playedUnder s)).take 1

/-- The ten actors who worked with the most directors. -/
def actorsByDirectors : Definition where
  id := "Q27"
  segment := 4
  label := "Actors who worked with the most different directors"
  parameters := []
  statement :=
    select
      ["SELECT n_actor.name AS actor_name,",
       "       COUNT(DISTINCT n_director.name) AS unique_directors",
       "FROM role_mapping rm",
       "JOIN names n_actor ON rm.name_id = n_actor.id",
       "JOIN director_mapping dm ON rm.movie_id = dm.movie_id",
       "JOIN names n_director ON dm.name_id = n_director.id",
       "GROUP BY n_actor.name",
       "ORDER BY unique_directors DESC, actor_name ASC",
       "LIMIT 10"]
      ["actor_name", "unique_directors"] (needs [.roleMapping, .names, .directorMapping, .names]) []
      fun _ s =>
        (sortBy [.down 1, .up 0] <|
          grouped (fun (p, _) => personName p)
            (fun ps => [countDistinct (ps.map fun (_, d) => .text d.2.name)])
            (playedUnder s)).take 10

/-- The three commonest pairs of a director and a genre. -/
def commonestDirectorGenres : Definition where
  id := "Q28"
  segment := 4
  label := "Top 3 most common director-genre combinations"
  parameters := []
  statement :=
    select
      ["SELECT n.name AS director_name, g.genre, COUNT(*) AS total_movies",
       "FROM director_mapping dm",
       "JOIN names n ON dm.name_id = n.id",
       "JOIN genre g ON dm.movie_id = g.movie_id",
       "GROUP BY n.name, g.genre",
       "ORDER BY total_movies DESC, director_name ASC, g.genre ASC",
       "LIMIT 3"]
      ["director_name", "genre", "total_movies"] (needs [.directorMapping, .names, .genre]) []
      fun _ s =>
        (sortBy [.down 2, .up 0, .up 1] <|
          grouped (fun (d, g) => personName d ++ [.text g.genre]) (fun ds => [count ds])
            (join (directedBy s) (s.rowsOf .genre) fun d g => d.1.movieId = g.movieId)).take 3

/-- The five actors with the highest average rating, of those with five movies or more. -/
def bestActors : Definition where
  id := "Q32"
  segment := 5
  label := "Top 5 actors by average rating (at least 5 movies)"
  parameters := []
  statement :=
    select
      ["SELECT n.name AS actor_name,",
       "       ROUND(AVG(r.avg_rating), 2) AS avg_rating,",
       "       COUNT(*) AS total_movies",
       "FROM role_mapping rm",
       "JOIN names n ON rm.name_id = n.id",
       "JOIN ratings r ON rm.movie_id = r.movie_id",
       "GROUP BY n.name",
       "HAVING COUNT(*) >= 5",
       "ORDER BY avg_rating DESC, actor_name ASC",
       "LIMIT 5"]
      ["actor_name", "avg_rating", "total_movies"] (needs [.roleMapping, .names, .ratings]) []
      fun _ s =>
        (sortBy [.down 1, .up 0] <|
          (grouped (fun (p, _) => personName p)
            (fun rs => [rounded 2 (averageRating rs), count rs])
            (playedRatings s)).filter fun row => Cell.above (cellAt row 2) (.int 4)).take 5

/-- Rated movies with each of their directors. -/
def directedRated (s : Store) : List ((MovieRow × RatingRow) × (DirectorRow × NameRow)) :=
  join (ratedMovies s) (directedBy s) fun (m, _) (d, _) => m.id = some d.movieId

/-- Each director, by identifier, with the average rating of the movies directed. -/
def directorAverages (s : Store) : List (List Cell) :=
  grouped (fun (d, _) => [.text d.nameId]) (fun rs => [averageRating rs])
    (join (s.rowsOf .directorMapping) (s.rowsOf .ratings) fun d r => r.movieId = some d.movieId)

/-- The movies rated above the average of their director. -/
def aboveDirectorAverage : Definition where
  id := "Q35"
  segment := 5
  label := "Movies rated above their director's average"
  parameters := []
  statement :=
    select
      ["SELECT m.title, n.name AS director_name, r.avg_rating, dir_avg.avg_director_rating",
       "FROM movie m",
       "JOIN ratings r ON m.id = r.movie_id",
       "JOIN director_mapping dm ON m.id = dm.movie_id",
       "JOIN names n ON dm.name_id = n.id",
       "JOIN (",
       "  SELECT dm2.name_id, AVG(r2.avg_rating) AS avg_director_rating",
       "  FROM director_mapping dm2",
       "  JOIN ratings r2 ON dm2.movie_id = r2.movie_id",
       "  GROUP BY dm2.name_id",
       ") dir_avg ON dm.name_id = dir_avg.name_id",
       "WHERE r.avg_rating > dir_avg.avg_director_rating",
       "ORDER BY r.avg_rating DESC, m.title ASC"]
      ["title", "director_name", "avg_rating", "avg_director_rating"]
      (needs [.movie, .ratings, .directorMapping, .names, .directorMapping, .ratings]) []
      fun _ s =>
        sortBy [.down 2, .up 0] <|
          ((join (directedRated s) (directorAverages s) fun (_, d, _) row =>
            Cell.same (.text d.nameId) (cellAt row 0)).filter fun ((mr, _), row) =>
              Cell.above mr.2.avgRating (cellAt row 1)).map fun (((m, r), _, n), row) =>
                [.text m.title, .text n.name, r.avgRating, cellAt row 1]

/-- The actor who played in the most genres. -/
def actorByGenres : Definition where
  id := "Q36"
  segment := 5
  label := "Actor who acted in the most different genres"
  parameters := []
  statement :=
    select
      ["SELECT n.name AS actor_name, COUNT(DISTINCT g.genre) AS genre_count",
       "FROM role_mapping rm",
       "JOIN names n ON rm.name_id = n.id",
       "JOIN genre g ON rm.movie_id = g.movie_id",
       "GROUP BY n.name",
       "ORDER BY genre_count DESC, actor_name ASC",
       "LIMIT 1"]
      ["actor_name", "genre_count"] (needs [.roleMapping, .names, .genre]) []
      fun _ s =>
        (sortBy [.down 1, .up 0] <|
          grouped (fun (p, _) => personName p)
            (fun ps => [countDistinct (ps.map fun (_, g) => .text g.genre)])
            (join (playedBy s) (s.rowsOf .genre) fun p g => p.1.movieId = g.movieId)).take 1

/-- The director who worked with the most actors. -/
def directorByActors : Definition where
  id := "Q39"
  segment := 6
  label := "Director who worked with the most unique actors"
  parameters := []
  statement :=
    select
      ["SELECT n_director.name AS director_name,",
       "       COUNT(DISTINCT n_actor.name) AS unique_actors",
       "FROM director_mapping dm",
       "JOIN names n_director ON dm.name_id = n_director.id",
       "JOIN role_mapping rm ON dm.movie_id = rm.movie_id",
       "JOIN names n_actor ON rm.name_id = n_actor.id",
       "GROUP BY n_director.name",
       "ORDER BY unique_actors DESC, director_name ASC",
       "LIMIT 1"]
      ["director_name", "unique_actors"] (needs [.directorMapping, .names, .roleMapping, .names]) []
      fun _ s =>
        (sortBy [.down 1, .up 0] <|
          grouped (fun (_, d) => personName d)
            (fun ps => [countDistinct (ps.map fun (p, _) => .text p.2.name)])
            (playedUnder s)).take 1

/-- The five actors who played in movies of the most countries. -/
def actorsByCountries : Definition where
  id := "Q42"
  segment := 6
  label := "Actors who appeared in movies from the most countries"
  parameters := []
  statement :=
    select
      ["SELECT n.name AS actor_name, COUNT(DISTINCT mc.country) AS country_count",
       "FROM role_mapping rm",
       "JOIN names n ON rm.name_id = n.id",
       "JOIN movie_country mc ON rm.movie_id = mc.movie_id",
       "GROUP BY n.name",
       "ORDER BY country_count DESC, actor_name ASC",
       "LIMIT 5"]
      ["actor_name", "country_count"] (needs [.roleMapping, .names, .movieCountry]) []
      fun _ s =>
        (sortBy [.down 1, .up 0] <|
          grouped (fun (p, _) => personName p)
            (fun ps => [countDistinct (ps.map fun (_, c) => .text c.value)])
            (join (playedBy s) (s.rowsOf .movieCountry) fun p c => p.1.movieId = c.movieId)).take 5

/-- The actor with the highest total amount. -/
def highestGrossingActor : Definition where
  id := "Q44"
  segment := 6
  label := "Actor with the highest total worldwide gross"
  parameters := []
  statement :=
    select
      ["SELECT n.name AS actor_name,",
       "       ROUND(SUM(m.worldwide_gross_num), 2) AS total_actor_gross",
       "FROM role_mapping rm",
       "JOIN names n ON rm.name_id = n.id",
       "JOIN movie m ON rm.movie_id = m.id",
       "WHERE m.worldwide_gross_num > 0",
       "GROUP BY n.name",
       "ORDER BY total_actor_gross DESC, actor_name ASC",
       "LIMIT 1"]
      ["actor_name", "total_actor_gross"]
      (needsAmount [.roleMapping, .names, .movie] "m.worldwide_gross_num") []
      fun _ s =>
        (sortBy [.down 1, .up 0] <|
          grouped (fun (p, _) => personName p)
            (fun ps => [rounded 2 (sum (ps.map fun (_, m) => m.grossAmount))])
            ((playedMovies s).filter fun (_, m) => hasGross m)).take 1

/-- The five directors with the highest average amount, of those with two movies or more. -/
def highestGrossingDirectors : Definition where
  id := "Q46"
  segment := 7
  label := "Top 5 directors by average worldwide gross (at least 2 movies)"
  parameters := []
  statement :=
    select
      ["SELECT n.name AS director_name,",
       "       ROUND(AVG(m.worldwide_gross_num), 2) AS avg_gross,",
       "       COUNT(*) AS total_movies",
       "FROM director_mapping dm",
       "JOIN names n ON dm.name_id = n.id",
       "JOIN movie m ON dm.movie_id = m.id",
       "WHERE m.worldwide_gross_num > 0",
       "GROUP BY n.name",
       "HAVING COUNT(*) >= 2",
       "ORDER BY avg_gross DESC, director_name ASC",
       "LIMIT 5"]
      ["director_name", "avg_gross", "total_movies"]
      (needsAmount [.directorMapping, .names, .movie] "m.worldwide_gross_num") []
      fun _ s =>
        (sortBy [.down 1, .up 0] <|
          (grouped (fun (d, _) => personName d)
            (fun ds => [rounded 2 (average (ds.map fun (_, m) => m.grossAmount)), count ds])
            ((directedMovies s).filter fun (_, m) => hasGross m)).filter fun row =>
              Cell.above (cellAt row 2) (.int 1)).take 5

/-- The names of two persons who played in one movie, with the number of such meetings. -/
def coActorCounts (s : Store) : List (List Cell) :=
  grouped (fun (p, q) => personName p ++ personName q) (fun ps => [count ps])
    (join (playedBy s) (playedBy s) fun p q =>
      p.1.movieId = q.1.movieId && Text.compareBytes p.1.nameId q.1.nameId == .lt)

/-- The two actors with the most movies together. -/
def commonestCoActors : Definition where
  id := "Q49"
  segment := 7
  label := "Most frequent co-actor pair"
  parameters := []
  statement :=
    select
      ["SELECT n1.name AS actor_1, n2.name AS actor_2, COUNT(*) AS movies_together",
       "FROM role_mapping rm1",
       "JOIN role_mapping rm2 ON rm1.movie_id = rm2.movie_id AND rm1.name_id < rm2.name_id",
       "JOIN names n1 ON rm1.name_id = n1.id",
       "JOIN names n2 ON rm2.name_id = n2.id",
       "GROUP BY n1.name, n2.name",
       "ORDER BY movies_together DESC, actor_1 ASC, actor_2 ASC",
       "LIMIT 1"]
      ["actor_1", "actor_2", "movies_together"]
      (needs [.roleMapping, .roleMapping, .names, .names]) []
      fun _ s => (sortBy [.down 2, .up 0, .up 1] (coActorCounts s)).take 1

end FilmReport.Query.People
