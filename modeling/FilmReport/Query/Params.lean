import FilmReport.Shape.Field
import FilmReport.Fault.Basic
import FilmReport.Text.Order

/-!
Parameters of the queries: a year, an actor, a production company and a range of dates, each with a
standard value.
-/

set_option autoImplicit false
set_option relaxedAutoImplicit false

namespace FilmReport.Query

open Shape

/-- The names of the parameters. -/
inductive Param where
  | year | actorName | productionCompany | dateFrom | dateTo
deriving DecidableEq, Repr

def Param.text : Param → String
  | year => "year"
  | actorName => "actorName"
  | productionCompany => "productionCompany"
  | dateFrom => "dateFrom"
  | dateTo => "dateTo"

/-- A value for every parameter. -/
structure Params where
  year : Int
  actorName : String
  productionCompany : String
  dateFrom : String
  dateTo : String
deriving DecidableEq, Repr

namespace Params

def standard : Params :=
  ⟨2019, "Tom Hanks", "Marvel Studios", "2018-01-01", "2018-12-31"⟩

def fields (p : Params) : Fields :=
  [("year", .ofInt p.year), ("actorName", .string p.actorName),
   ("productionCompany", .string p.productionCompany), ("dateFrom", .string p.dateFrom),
   ("dateTo", .string p.dateTo)]

/-- The issue of a range that ends before it starts. -/
def backwards (p : Params) : List Issue :=
  if Text.unitsBefore p.dateTo p.dateFrom then
    [⟨[.field "dateFrom"], .custom "dateFrom must not be after dateTo"⟩]
  else []

def check (field : Option Json) : Checked Params :=
  (record (fun r =>
    Params.mk <$> at_ "year" (integer (.between 1870 2100)) r <*> at_ "actorName" (text 1) r
      <*> at_ "productionCompany" (text 1) r <*> at_ "dateFrom" date r
      <*> at_ "dateTo" date r) field).refine backwards

/-- The parameters that the given fields ask for; what they leave out is standard. -/
def resolve (given : Fields) : Except Fault Params :=
  match (check (some (.object (standard.fields.merge given)))).toExcept with
  | .ok p => .ok p
  | .error issues =>
    .error <| .create .queryParamsInvalid "Query parameters are invalid."
      [("issues", .array (issues.map Issue.toJson))]

end Params
end FilmReport.Query
