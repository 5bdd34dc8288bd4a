import FilmReport.Query.Catalog.Movies
import FilmReport.Query.Catalog.People
import FilmReport.Query.Catalog.Genres
import FilmReport.Query.Catalog.Companies
import FilmReport.Query.Catalog.Regions

/-!
The catalog of the fifty queries, in the order of their identifiers.
-/

set_option autoImplicit false
set_option relaxedAutoImplicit false

namespace FilmReport.Query

/-- All queries. -/
def catalog : List Definition :=
  [Movies.releasedInYear, Movies.countByYear, Movies.topRated, Genres.all, Genres.moviesOfSeveral,
   People.moviesOfActor, People.moviesByDirector, Movies.inEnglishAndMore, Companies.moviesOf,
   People.bestDirectors, People.busiestActors, Movies.highestGrossingByYear, Genres.bestRated,
   Regions.commonestLanguage, Movies.monthsOfYear, Movies.perfectMedian, Genres.shares,
   Companies.highestGrossing, Regions.ratingByLanguage, Regions.busiestCountries,
   Movies.releasedBetween, People.busiestDirectorYear, People.commonestPair, Genres.aboveAverage,
   Genres.highestGrossing, Genres.averageDuration, People.actorsByDirectors,
   People.commonestDirectorGenres, Genres.topRatedMovies, Regions.grossShares, Movies.busiestMonth,
   People.bestActors, Genres.longestMovies, Companies.averageGross, People.aboveDirectorAverage,
   People.actorByGenres, Regions.commonestGenres, Movies.votesPerRating, People.directorByActors,
   Companies.averageDuration, Regions.highestGrossingByLanguage, People.actorsByCountries,
   Movies.grossByYear, People.highestGrossingActor, Movies.countByRating,
   People.highestGrossingDirectors, Regions.ratingByCountry, Movies.bestYear,
   People.commonestCoActors, Movies.ratingPerMinute]

end FilmReport.Query
