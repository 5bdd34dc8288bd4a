import FilmReport.Query.Catalog.Movies
import FilmReport.Proofs.Query.Agreement

/-!
The queries about movies on two stores with the same rows.
-/

set_option autoImplicit false
set_option relaxedAutoImplicit false

namespace FilmReport.Query.Movies

open Store

variable {s s' : Store}

section BestOfYear

end BestOfYear

end FilmReport.Query.Movies
