import FilmReport.Dataset.Write
import FilmReport.Dataset.Basic

/-!
Seeding. All rows of a dataset are written in one transaction, those that others refer to first.
-/

set_option autoImplicit false
set_option relaxedAutoImplicit false

namespace FilmReport.Dataset

/-- The rows of a dataset, kind by kind in the order in which they are written. -/
def rowsOf (d : Dataset) : List (RowKind × List Fields) :=
  [(.movies, d.movies.map (·.fields)), (.names, d.names.map (·.fields)),
   (.genres, d.genres.map (·.fields)), (.directings, d.directings.map (·.fields)),
   (.castings, d.castings.map (·.fields)), (.ratings, d.ratings.map (·.fields))]

/-- How many records of each kind a dataset had. -/
def counts (d : Dataset) : Fields :=
  [("moviesInserted", .ofNat d.movies.length), ("namesInserted", .ofNat d.names.length),
   ("genresInserted", .ofNat d.genres.length),
   ("directorMappingsInserted", .ofNat d.directings.length),
   ("roleMappingsInserted", .ofNat d.castings.length),
   ("ratingsInserted", .ofNat d.ratings.length)]

/-- Writes a dataset, all of it or nothing. -/
def seed (d : Dataset) : Act Fields := do
  prepare
  Act.inTransaction "dataset.seed" do
    (rowsOf d).forM fun (kind, rows) => write kind (rows.map Json.object)
    pure (counts d)

end FilmReport.Dataset
