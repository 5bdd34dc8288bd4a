import Mathlib.Data.Rat.Floor
import FilmReport.Normalize.Standardize
import FilmReport.Proofs.Store.Changes

/-!
Rows of declared types. A row that is written with values of its declared types has an identifier
where it needs one and numbers where it has numbers. Together with consistency this says what can be
relied on in every store: which values are unique, which rows refer to which, and the ranges of
numbers (`Store.Lawful.intact`).
-/

set_option autoImplicit false
set_option relaxedAutoImplicit false

namespace FilmReport

namespace Cell

/-- A cell that is missing or, in the order of cells, no less than a number; every text is greater
than all numbers. -/
def IsFrom (n : Int) : Cell → Prop
  | null => True
  | int m => n ≤ m
  | real (.finite q) => (n : Rat) ≤ q
  | real (.infinite negative) => negative = false
  | real .nan => False
  | text _ => True

/-- A cell that is missing or, in the order of cells, no greater than a number. -/
def IsUpTo (n : Int) : Cell → Prop
  | null => True
  | int m => m ≤ n
  | real (.finite q) => q ≤ (n : Rat)
  | real (.infinite negative) => negative = true
  | real .nan => False
  | text _ => False

/-- A cell whose value, in a column of any kind, is there and is not the real that is no number. -/
structure IsSolid (c : Cell) : Prop where
  text : c.toText?.isSome
  integer : c.toInteger ≠ .real .nan
  real : c.toRealCell ≠ .real .nan

theorem compare_int {c : Cell} {x : Binary64} (h : c.number? = some x) (n : Int) :
    c.compare (.int n) =
      if x.lt (.finite n) then .lt else if (Binary64.finite n).lt x then .gt else .eq := by
  cases c with
  | int m =>
    obtain rfl := Option.some.inj h
    rfl
  | real y =>
    obtain rfl := Option.some.inj h
    rfl
  | _ => cases h

theorem lt_of_atLeast {n : Int} {c : Cell} {x : Binary64} (hx : c.number? = some x)
    (h : Store.atLeast n c = true) : x.lt (.finite n) = false := by
  by_contra hlt
  rw [Bool.not_eq_false] at hlt
  rw [Store.atLeast, compare_int hx, if_pos hlt] at h
  cases c with
  | null => cases hx
  | _ => cases h

theorem lt_of_atMost {n : Int} {c : Cell} {x : Binary64} (hx : c.number? = some x)
    (h : Store.atMost n c = true) (hle : x.lt (.finite n) = false) :
    (Binary64.finite n).lt x = false := by
  by_contra hlt
  rw [Bool.not_eq_false] at hlt
  rw [Store.atMost, compare_int hx, hle, hlt] at h
  cases c with
  | null => cases hx
  | _ => cases h

theorem atLeast_of_lt {n : Int} {c : Cell} {x : Binary64} (hx : c.number? = some x)
    (h : x.lt (.finite n) = false) : Store.atLeast n c = true := by
  rw [Store.atLeast, compare_int hx, h]
  cases (Binary64.finite n).lt x <;> simp

theorem atMost_of_lt {n : Int} {c : Cell} {x : Binary64} (hx : c.number? = some x)
    (h : (Binary64.finite n).lt x = false) : Store.atMost n c = true := by
  rw [Store.atMost, compare_int hx, h]
  cases x.lt (.finite n) <;> simp

theorem isFrom_of_atLeast {n : Int} {c : Cell} (h : Store.atLeast n c = true)
    (hc : c ≠ .real .nan) : c.IsFrom n := by
  cases c with
  | null => trivial
  | text s => trivial
  | int m =>
    have hle := lt_of_atLeast rfl h
    simp only [Binary64.lt, decide_eq_false_iff_not, not_lt, Rat.intCast_le_intCast] at hle
    exact hle
  | real x =>
    have hle := lt_of_atLeast rfl h
    cases x with
    | nan => exact absurd rfl hc
    | finite q => exact not_lt.1 (of_decide_eq_false hle)
    | infinite negative => exact hle

theorem isUpTo_of_atMost {n : Int} {c : Cell} (h : Store.atMost n c = true)
    (hc : c ≠ .real .nan) : c.IsUpTo n := by
  cases c with
  | null => trivial
  | text s => cases h
  | int m =>
    by_contra hlt
    have hless : m > n := not_le.1 hlt
    have hle : (Binary64.finite m).lt (.finite n) = false := by
      simp only [Binary64.lt, decide_eq_false_iff_not, not_lt, Rat.intCast_le_intCast]
      omega
    have hge := lt_of_atMost rfl h hle
    simp only [Binary64.lt, decide_eq_false_iff_not, Rat.intCast_lt_intCast] at hge
    omega
  | real x =>
    cases x with
    | nan => exact absurd rfl hc
    | finite q =>
      by_contra hlt
      have hless : (n : Rat) < q := not_le.1 hlt
      have hle : (Binary64.finite q).lt (.finite n) = false := decide_eq_false hless.le.not_gt
      exact of_decide_eq_false (lt_of_atMost rfl h hle) hless
    | infinite negative =>
      cases negative with
      | true => rfl
      | false => exact absurd (lt_of_atMost rfl h rfl) Bool.noConfusion

end Cell

/-- What is known of the rows of a table beside the conditions of its layout. -/
def Table.IsTypedRow : (t : Table) → t.Row → Prop
  | .movie, m => m.id.isSome ∧ m.duration ≠ .real .nan
  | .names, n => n.id.isSome
  | .ratings, r => r.movieId.isSome ∧ r.avgRating ≠ .real .nan ∧ r.totalVotes ≠ .real .nan ∧
      r.medianRating ≠ .real .nan
  | .movieCountry, m => ∃ n, m.position = .int n
  | .stagedCountry, m => ∃ n, m.position = .int n
  | .movieLanguage, m => ∃ n, m.position = .int n
  | .stagedLanguage, m => ∃ n, m.position = .int n
  | _, _ => True

namespace Store

variable {s s' : Store} {t : Table}

namespace Change

theorem keepsTyped_movie {value : Cell} (hvalue : value.IsSolid) :
    ∀ c ∈ (layout .movie).columns, c.Moves (· = value) fun _ old new =>
      keepsIdentity .movie old new = true → Table.movie.IsTypedRow old →
        Table.movie.IsTypedRow new := by
  simp +contextual [layout, movieLayout, keepsIdentity, Table.IsTypedRow,
    Column.moves_optionalText, Column.moves_requiredText, Column.moves_integer,
    Column.moves_real, hvalue.integer]

theorem keepsTyped_ratings {value : Cell} (hvalue : value.IsSolid) :
    ∀ c ∈ (layout .ratings).columns, c.Moves (· = value) fun _ old new =>
      keepsIdentity .ratings old new = true → Table.ratings.IsTypedRow old →
        Table.ratings.IsTypedRow new := by
  simp +contextual [layout, ratingLayout, keepsIdentity, Table.IsTypedRow,
    Column.moves_optionalText, Column.moves_integer, Column.moves_real, hvalue.text,
    hvalue.integer, hvalue.real]

end Change

/-- A consistent store with typed rows. -/
structure Lawful (s : Store) : Prop where
  consistent : s.Consistent
  typed : s.RowsMeet Table.IsTypedRow

theorem lawful_empty : Store.empty.Lawful :=
  ⟨consistent_empty, rowsMeet_empty⟩

theorem Change.preserves_lawful {c : Change} (hkeys : c.KeepsKeys)
    (htyped : c.Meets Table.IsTypedRow) : c.Preserves Lawful :=
  fun _ _ hs hs' =>
    ⟨preserves_consistent hkeys hs.consistent hs', preserves_rowsMeet htyped hs.typed hs'⟩

/-- The rows of every table of memberships, published and staged. -/
def placedRows (s : Store) : List (List MembershipRow) :=
  [s.rowsOf .movieCountry, s.rowsOf .stagedCountry, s.rowsOf .movieLanguage,
   s.rowsOf .stagedLanguage]

/-- The rows of both tables of published memberships. -/
def liveRows (s : Store) : List (List MembershipRow) :=
  [s.rowsOf .movieCountry, s.rowsOf .movieLanguage]

/-- What can be relied on in a store: which values tell rows apart, which rows are there because
others refer to them, and in which ranges numbers are. -/
structure Intact (s : Store) : Prop where
  movieIds : ((s.rowsOf .movie).map (·.id)).Nodup
  nameIds : ((s.rowsOf .names).map (·.id)).Nodup
  ratedMovies : ((s.rowsOf .ratings).map (·.movieId)).Nodup
  genres : ((s.rowsOf .genre).map fun g => (g.movieId, g.genre)).Nodup
  directings : ((s.rowsOf .directorMapping).map fun d => (d.movieId, d.nameId)).Nodup
  castings : ((s.rowsOf .roleMapping).map fun c => (c.movieId, c.nameId)).Nodup
  places : ∀ rows ∈ s.placedRows, (rows.map fun m => (m.movieId, m.position)).Nodup
  genreMovies : ∀ g ∈ s.rowsOf .genre, g.movieId ∈ s.identifiers .movie
  directingMovies : ∀ d ∈ s.rowsOf .directorMapping, d.movieId ∈ s.identifiers .movie
  directingNames : ∀ d ∈ s.rowsOf .directorMapping, d.nameId ∈ s.identifiers .names
  castingMovies : ∀ c ∈ s.rowsOf .roleMapping, c.movieId ∈ s.identifiers .movie
  castingNames : ∀ c ∈ s.rowsOf .roleMapping, c.nameId ∈ s.identifiers .names
  ratingMovies : ∀ r ∈ s.rowsOf .ratings, ∃ id ∈ s.identifiers .movie, r.movieId = some id
  liveMovies : ∀ rows ∈ s.liveRows, ∀ m ∈ rows, m.movieId ∈ s.identifiers .movie
  durations : ∀ m ∈ s.rowsOf .movie, m.duration.IsFrom 0
  averages : ∀ r ∈ s.rowsOf .ratings, r.avgRating.IsFrom 0 ∧ r.avgRating.IsUpTo 10
  medians : ∀ r ∈ s.rowsOf .ratings, r.medianRating.IsFrom 0 ∧ r.medianRating.IsUpTo 10
  votes : ∀ r ∈ s.rowsOf .ratings, r.totalVotes.IsFrom 0
  positions : ∀ rows ∈ s.placedRows, ∀ m ∈ rows, ∃ n : Int, m.position = .int n ∧ 1 ≤ n
  categories : ∀ c ∈ s.rowsOf .roleMapping, c.category = "actor" ∨ c.category = "actress"

namespace Lawful

theorem nodup {κ : Type} (h : s.Lawful) {key : Key t.Row} (hkey : key ∈ (layout t).keys)
    {f : t.Row → κ} (hf : ∀ a b, f a = f b → key.of a = key.of b)
    (hsome : ∀ row, t.IsTypedRow row → (key.of row).isSome) : ((s.rowsOf t).map f).Nodup := by
  rw [List.Nodup, List.pairwise_map]
  refine (h.consistent.keys t key hkey).imp_of_mem fun {a b} ha _ hapart hsame => ?_
  obtain ⟨cells, hcells⟩ := Option.isSome_iff_exists.1 (hsome a (h.typed t a ha))
  rw [sameKey, ← hf a b hsame, hcells] at hapart
  simp at hapart

theorem holds (h : s.Lawful) {row : t.Row} (hrow : row ∈ s.rowsOf t) :
    ∀ c ∈ (layout t).conditions, c.holds row = true :=
  meetsConditions_eq_ok.1 (h.consistent.conditions t row hrow)

theorem refers (h : s.Lawful) {row : t.Row} (hrow : row ∈ s.rowsOf t) {ref : Reference t.Row}
    (href : ref ∈ (layout t).references) {id : String} (hid : ref.of row = some id) :
    id ∈ s.identifiers ref.parent :=
  referencesHold_iff.1 (h.consistent.references t row hrow) ref href id hid

theorem rating (h : s.Lawful) {r : RatingRow} (hr : r ∈ s.rowsOf .ratings) :
    (r.avgRating.IsFrom 0 ∧ r.avgRating.IsUpTo 10) ∧ r.totalVotes.IsFrom 0 ∧
      (r.medianRating.IsFrom 0 ∧ r.medianRating.IsUpTo 10) := by
  obtain ⟨-, havg, hvotes, hmedian⟩ := h.typed .ratings r hr
  have hholds := h.holds (t := .ratings) hr
  simp only [layout, ratingLayout, List.forall_mem_cons, Bool.and_eq_true] at hholds
  obtain ⟨⟨havgFrom, havgTo⟩, hvotesFrom, ⟨hmedianFrom, hmedianTo⟩, -⟩ := hholds
  exact ⟨⟨Cell.isFrom_of_atLeast havgFrom havg, Cell.isUpTo_of_atMost havgTo havg⟩,
    Cell.isFrom_of_atLeast hvotesFrom hvotes,
    Cell.isFrom_of_atLeast hmedianFrom hmedian, Cell.isUpTo_of_atMost hmedianTo hmedian⟩

theorem intact (h : s.Lawful) : s.Intact where
  movieIds := by
    refine h.nodup (t := .movie) (List.mem_singleton_self _) ?_ fun m hm => ?_
    · exact fun a b hsame => congrArg textKey hsame
    · simpa [textKey] using hm.1
  nameIds := by
    refine h.nodup (t := .names) (List.mem_singleton_self _) ?_ fun n hn => ?_
    · exact fun a b hsame => congrArg textKey hsame
    · have hid : n.id.isSome := hn
      simpa [textKey] using hid
  ratedMovies := by
    refine h.nodup (t := .ratings) (List.mem_singleton_self _) ?_ fun r hr => ?_
    · exact fun a b hsame => congrArg textKey hsame
    · simpa [textKey] using hr.1
  genres := by
    refine h.nodup (t := .genre) (List.mem_singleton_self _) ?_ fun _ _ => rfl
    exact fun a b hsame => congrArg (fun p => some [Cell.text p.1, .text p.2]) hsame
  directings := by
    refine h.nodup (t := .directorMapping) (List.mem_singleton_self _) ?_ fun _ _ => rfl
    exact fun a b hsame => congrArg (fun p => some [Cell.text p.1, .text p.2]) hsame
  castings := by
    refine h.nodup (t := .roleMapping) (List.mem_singleton_self _) ?_ fun _ _ => rfl
    exact fun a b hsame => congrArg (fun p => some [Cell.text p.1, .text p.2]) hsame
  places := by
    have hplace : ∀ a b : MembershipRow, (a.movieId, a.position) = (b.movieId, b.position) →
        some [Cell.text a.movieId, a.position] = some [.text b.movieId, b.position] :=
      fun a b hsame => congrArg (fun p => some [Cell.text p.1, p.2]) hsame
    simp only [placedRows, List.forall_mem_cons]
    refine ⟨?_, ?_, ?_, ?_, List.forall_mem_nil _⟩
    · exact h.nodup (t := .movieCountry) (List.mem_singleton_self _) hplace fun _ _ => rfl
    · exact h.nodup (t := .stagedCountry) (List.mem_singleton_self _) hplace fun _ _ => rfl
    · exact h.nodup (t := .movieLanguage) (List.mem_singleton_self _) hplace fun _ _ => rfl
    · exact h.nodup (t := .stagedLanguage) (List.mem_singleton_self _) hplace fun _ _ => rfl
  genreMovies g hg := h.refers (t := .genre) hg (List.mem_singleton_self _) rfl
  directingMovies d hd :=
    h.refers (t := .directorMapping) hd (List.mem_cons_of_mem _ (List.mem_singleton_self _)) rfl
  directingNames d hd := h.refers (t := .directorMapping) hd List.mem_cons_self rfl
  castingMovies c hc :=
    h.refers (t := .roleMapping) hc (List.mem_cons_of_mem _ (List.mem_singleton_self _)) rfl
  castingNames c hc := h.refers (t := .roleMapping) hc List.mem_cons_self rfl
  ratingMovies r hr := by
    obtain ⟨id, hid⟩ := Option.isSome_iff_exists.1 (h.typed .ratings r hr).1
    exact ⟨id, h.refers (t := .ratings) hr (List.mem_singleton_self _) hid, hid⟩
  liveMovies := by
    simp only [liveRows, List.forall_mem_cons]
    refine ⟨fun m hm => ?_, fun m hm => ?_, List.forall_mem_nil _⟩
    · exact h.refers (t := .movieCountry) hm (List.mem_singleton_self _) rfl
    · exact h.refers (t := .movieLanguage) hm (List.mem_singleton_self _) rfl
  durations m hm :=
    Cell.isFrom_of_atLeast (h.holds (t := .movie) hm _ (List.mem_singleton_self _))
      (h.typed .movie m hm).2
  averages r hr := (h.rating hr).1
  medians r hr := (h.rating hr).2.2
  votes r hr := (h.rating hr).2.1
  positions := by
    have hposition : ∀ m : MembershipRow, (∃ n, m.position = .int n) →
        atLeast 1 m.position = true → ∃ n : Int, m.position = .int n ∧ 1 ≤ n := by
      rintro m ⟨n, hn⟩ hleast
      rw [hn] at hleast
      exact ⟨n, hn, Cell.isFrom_of_atLeast hleast Cell.noConfusion⟩
    simp only [placedRows, List.forall_mem_cons]
    refine ⟨fun m hm => ?_, fun m hm => ?_, fun m hm => ?_, fun m hm => ?_, List.forall_mem_nil _⟩
    · exact hposition m (h.typed .movieCountry m hm)
        (h.holds (t := .movieCountry) hm _ (List.mem_singleton_self _))
    · exact hposition m (h.typed .stagedCountry m hm)
        (h.holds (t := .stagedCountry) hm _ (List.mem_singleton_self _))
    · exact hposition m (h.typed .movieLanguage m hm)
        (h.holds (t := .movieLanguage) hm _ (List.mem_singleton_self _))
    · exact hposition m (h.typed .stagedLanguage m hm)
        (h.holds (t := .stagedLanguage) hm _ (List.mem_singleton_self _))
  categories c hc := by
    have hcategory := h.holds (t := .roleMapping) hc _ (List.mem_singleton_self _)
    simpa using hcategory

end Lawful

end Store
end FilmReport
