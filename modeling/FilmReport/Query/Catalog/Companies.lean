import FilmReport.Query.Definition
import FilmReport.Query.Joined

/-!
Queries about production companies; the word for a missing text is none.
-/

set_option autoImplicit false
set_option relaxedAutoImplicit false

namespace FilmReport.Query.Companies

open Store

/-- The movies of a production company. -/
def moviesOf : Definition where
  id := "Q09"
  segment := 1
  label := "Movies produced by a given production company"
  parameters := [.productionCompany]
  statement :=
    select
      ["SELECT id, title, year",
       "FROM movie",
       "WHERE production_company = @productionCompany",
       "ORDER BY year ASC, title ASC"]
      ["id", "title", "year"] (needs [.movie]) [.productionCompany]
      fun p s =>
        sortBy [.up 2, .up 1] <|
          (s.rowsOf .movie |>.filter fun m => m.productionCompany = some p.productionCompany).map
            fun m => [.ofText? m.id, .text m.title, m.year]

/-- The movies with a production company. -/
def companyMovies (s : Store) : List MovieRow :=
  s.rowsOf .movie |>.filter fun m =>
    match m.productionCompany with
    | some company => company ≠ "Unknown"
    | none => false

/-- The five production companies with the highest total amount. -/
def highestGrossing : Definition where
  id := "Q18"
  segment := 3
  label := "Top 5 production companies by total worldwide gross"
  parameters := []
  statement :=
    select
      ["SELECT production_company,",
       "       ROUND(SUM(worldwide_gross_num), 2) AS total_gross",
       "FROM movie",
       "WHERE production_company <> 'Unknown'",
       "GROUP BY production_company",
       "ORDER BY total_gross DESC, production_company ASC",
       "LIMIT 5"]
      ["production_company", "total_gross"] (needsAmount [.movie] "worldwide_gross_num") []
      fun _ s =>
        (sortBy [.down 1, .up 0] <|
          grouped (fun m => [.ofText? m.productionCompany])
            (fun ms => [rounded 2 (sum (ms.map (·.grossAmount)))]) (companyMovies s)).take 5

/-- The average amount of each production company. -/
def averageGross : Definition where
  id := "Q34"
  segment := 5
  label := "Average gross income per production company"
  parameters := []
  statement :=
    select
      ["SELECT production_company,",
       "       ROUND(AVG(worldwide_gross_num), 2) AS avg_gross",
       "FROM movie",
       "WHERE production_company <> 'Unknown'",
       "  AND worldwide_gross_num > 0",
       "GROUP BY production_company",
       "ORDER BY avg_gross DESC, production_company ASC"]
      ["production_company", "avg_gross"] (needsAmount [.movie] "worldwide_gross_num") []
      fun _ s =>
        sortBy [.down 1, .up 0] <|
          grouped (fun m => [.ofText? m.productionCompany])
            (fun ms => [rounded 2 (average (ms.map (·.grossAmount)))])
            ((companyMovies s).filter hasGross)

/-- The average duration of the movies of each production company. -/
def averageDuration : Definition where
  id := "Q40"
  segment := 6
  label := "Average movie duration per production company"
  parameters := []
  statement :=
    select
      ["SELECT production_company,",
       "       ROUND(AVG(duration), 2) AS avg_duration",
       "FROM movie",
       "WHERE production_company <> 'Unknown'",
       "GROUP BY production_company",
       "ORDER BY avg_duration DESC, production_company ASC"]
      ["production_company", "avg_duration"] (needs [.movie]) []
      fun _ s =>
        sortBy [.down 1, .up 0] <|
          grouped (fun m => [.ofText? m.productionCompany])
            (fun ms => [rounded 2 (average (ms.map (·.duration)))]) (companyMovies s)

end FilmReport.Query.Companies
