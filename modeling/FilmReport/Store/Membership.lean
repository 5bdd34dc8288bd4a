import FilmReport.Store.Write
import FilmReport.Store.Order
import FilmReport.Json.Words

/-!
The tables of memberships. Countries and languages of movies have a published table each, which
the queries read, and a staging table, which is filled before it is published.
-/

set_option autoImplicit false
set_option relaxedAutoImplicit false

namespace FilmReport

/-- What a movie is a member of. -/
inductive MembershipKind where
  | country
  | language
deriving DecidableEq, Repr

namespace MembershipKind

def text : MembershipKind → String
  | country => "country"
  | language => "language"

def listed : List MembershipKind := [country, language]

def published : MembershipKind → Table
  | country => .movieCountry
  | language => .movieLanguage

def staging : MembershipKind → Table
  | country => .stagedCountry
  | language => .stagedLanguage

def valueColumn : MembershipKind → String
  | country => "country"
  | language => "language"

/-- The column of the movies that holds the field. -/
def sourceColumn : MembershipKind → String
  | country => "country"
  | language => "languages"

/-- The field of a movie. -/
def source : MembershipKind → Store.MovieRow → Option String
  | country, m => m.country
  | language, m => m.languages

/-- The kind with a name. -/
def ofText? (name : String) : Option MembershipKind :=
  listed.find? fun kind => kind.text = name

/-- What a value asks for as the name of a kind. -/
inductive Asked where
  | kind (kind : MembershipKind)
  /-- Something that is no kind but has the name. -/
  | stray
  | nothing
deriving DecidableEq, Repr

/-- What is asked for by a value, taken for a name by its words. -/
def Asked.of (given : Option Json) : Asked :=
  match given.bind Json.words? with
  | none => .nothing
  | some name =>
    match ofText? name with
    | some found => .kind found
    | none => if Json.isCommon name then .stray else .nothing

end MembershipKind

namespace Store

/-- The published memberships. -/
def publishedRows (s : Store) : MembershipKind → Except StoreError (List MembershipRow)
  | .country => s.rows? .movieCountry
  | .language => s.rows? .movieLanguage

/-- The staged memberships. -/
def stagedRows (s : Store) : MembershipKind → Except StoreError (List MembershipRow)
  | .country => s.rows? .stagedCountry
  | .language => s.rows? .stagedLanguage

/-- Publishes one membership. -/
def publishRow (row : MembershipRow) (s : Store) : MembershipKind → Except StoreError Store
  | .country => s.insert .movieCountry .refuse row
  | .language => s.insert .movieLanguage .refuse row

/-- Stages one membership. -/
def stageRow (row : MembershipRow) (s : Store) : MembershipKind → Except StoreError Store
  | .country => s.insert .stagedCountry .refuse row
  | .language => s.insert .stagedLanguage .refuse row

/-- Memberships by movie and position. -/
def byPlace (rows : List MembershipRow) : List MembershipRow :=
  orderBy (fun r => [.up (.text r.movieId), .up r.position]) rows

/-- Publishes all staged memberships; answers how many there were. -/
def publishStaged (kind : MembershipKind) (s : Store) : Effect Nat :=
  .counting do
    let _ ← s.rows? kind.published
    let rows ← s.stagedRows kind
    s.parentsPresent kind.published
    let after ← (byPlace rows).foldlM (fun acc row => acc.publishRow row kind) s
    pure (rows.length, after)

/-- Deletes all rows of a table; answers how many there were. -/
def clear (t : Table) (s : Store) : Effect Nat :=
  .writing (s.delete t (everyRow t))

end Store
end FilmReport
