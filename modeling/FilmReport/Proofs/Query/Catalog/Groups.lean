import FilmReport.Query.Catalog.People
import FilmReport.Proofs.Query.Agreement
import FilmReport.Query.Catalog.Companies
import FilmReport.Query.Catalog.Genres
import FilmReport.Query.Catalog.Regions

/-!
The queries about people, about production companies, about genres, and about countries and
languages, on two stores with the same rows.
-/

set_option autoImplicit false
set_option relaxedAutoImplicit false

namespace FilmReport.Query.People

open Store

variable {s s' : Store} {σ τ : Type}

end FilmReport.Query.People

namespace FilmReport.Query.Companies

open Store

variable {s s' : Store}

end FilmReport.Query.Companies

namespace FilmReport.Query.Genres

open Store

variable {s s' : Store}

end FilmReport.Query.Genres

namespace FilmReport.Query.Regions

open Store

variable {s s' : Store}

section Commonest

end Commonest

end FilmReport.Query.Regions
