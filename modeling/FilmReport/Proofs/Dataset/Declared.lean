import FilmReport.Dataset.Seed
import FilmReport.Proofs.Store.Typed

/-!
The declared types of the values that are written. A value of its declared type is handed over as a
cell of this type, a row of such cells is typed, and where its key is taken the rule of its kind
merges it into the row that is there without touching the key.
-/

set_option autoImplicit false
set_option relaxedAutoImplicit false

namespace FilmReport.Dataset

open Store

/-- The types of named values. -/
inductive FieldType where
  | text
  | optionalText
  /-- Any number, also one that is none. -/
  | optionalNumber
  | category
deriving DecidableEq, Repr

namespace FieldType

/-- A value of a type. -/
def Has : FieldType → Json → Prop
  | text, v => ∃ s, v = .string s
  | optionalText, v => v = .null ∨ ∃ s, v = .string s
  | optionalNumber, v => v = .null ∨ ∃ x, v = .number x
  | category, v => ∃ c : Category, v = .string c.text

/-- A cell of a type. -/
def Holds : FieldType → Cell → Prop
  | text, c => ∃ s, c = .text s
  | optionalText, c => c = .null ∨ ∃ s, c = .text s
  | optionalNumber, c => c = .null ∨ ∃ x, c = .real x ∧ x ≠ .nan
  | category, c => ∃ k : Category, c = .text k.text

theorem exists_cell {type : FieldType} {v : Json} (h : type.Has v) :
    ∃ c, Cell.ofJson? v = some c ∧ type.Holds c := by
  cases type with
  | text =>
    obtain ⟨s, rfl⟩ := h
    exact ⟨_, rfl, s, rfl⟩
  | optionalText =>
    obtain rfl | ⟨s, rfl⟩ := h
    · exact ⟨_, rfl, Or.inl rfl⟩
    · exact ⟨_, rfl, Or.inr ⟨s, rfl⟩⟩
  | optionalNumber =>
    obtain rfl | ⟨x, rfl⟩ := h
    · exact ⟨_, rfl, Or.inl rfl⟩
    · cases x with
      | nan => exact ⟨_, rfl, Or.inl rfl⟩
      | finite q => exact ⟨_, rfl, Or.inr ⟨_, rfl, Binary64.noConfusion⟩⟩
      | infinite negative => exact ⟨_, rfl, Or.inr ⟨_, rfl, Binary64.noConfusion⟩⟩
  | category =>
    obtain ⟨k, rfl⟩ := h
    exact ⟨_, rfl, k, rfl⟩

end FieldType

/-- The types of the values of each kind of row, in the order of their names. -/
def declared : List (RowKind × List FieldType) :=
  [(.movies, [.text, .text, .optionalNumber, .optionalText, .optionalNumber, .optionalText,
      .optionalText, .optionalText, .optionalText]),
   (.names, [.text, .text, .optionalNumber, .optionalText, .optionalText]),
   (.genres, [.text, .text]),
   (.directings, [.text, .text]),
   (.castings, [.text, .text, .category]),
   (.ratings, [.text, .optionalNumber, .optionalNumber, .optionalNumber])]

/-- Named values of which each is there with its type. -/
def Types (names : List String) (types : List FieldType) (fields : Fields) : Prop :=
  List.Forall₂ (fun name type => ∃ v, fields.get? name = some v ∧ FieldType.Has type v) names types

/-- An input for a row of a kind with values of the declared types. -/
def RowKind.Declares (kind : RowKind) (input : Json) : Prop :=
  ∃ types, (kind, types) ∈ declared ∧ ∃ fields, input = .object fields ∧
    Types kind.parameters types fields

/-- Cells of the declared types of a kind of row. -/
def RowKind.Holds (kind : RowKind) (cells : List Cell) : Prop :=
  ∃ types, (kind, types) ∈ declared ∧ List.Forall₂ FieldType.Holds types cells

theorem Types.exists_cells {names : List String} {types : List FieldType} {fields : Fields}
    (h : Types names types fields) :
    ∃ cells, names.mapM (bindOne fields) = .ok cells ∧
      List.Forall₂ FieldType.Holds types cells := by
  induction h with
  | nil => exact ⟨[], rfl, .nil⟩
  | cons hfirst _ ih =>
    obtain ⟨v, hget, hv⟩ := hfirst
    obtain ⟨c, hc, hholds⟩ := FieldType.exists_cell hv
    obtain ⟨rest, hrest, hholdsRest⟩ := ih
    refine ⟨c :: rest, ?_, .cons hholds hholdsRest⟩
    rw [List.mapM_cons, bindOne, hget]
    dsimp only
    rw [hc, hrest]
    rfl

variable {kind : RowKind}

/-- Values of the declared types can be handed over. -/
theorem RowKind.Declares.exists_cells {input : Json} (h : kind.Declares input) :
    ∃ cells, Store.bind kind.parameters input = .ok cells ∧ kind.Holds cells := by
  obtain ⟨types, hkind, fields, rfl, htypes⟩ := h
  obtain ⟨cells, hcells, hholds⟩ := htypes.exists_cells
  exact ⟨cells, hcells, types, hkind, hholds⟩

namespace RowKind

/-- Where a key is taken, every kind of row leaves it. -/
theorem keepsKeys {types : List FieldType} (hkind : (kind, types) ∈ declared)
    (row : kind.table.Row) : (Change.insert kind.table kind.conflict row).KeepsKeys := by
  simp only [declared, List.mem_cons, List.not_mem_nil, or_false, Prod.mk.injEq] at hkind
  intro f hf
  rcases hkind with ⟨rfl, -⟩ | ⟨rfl, -⟩ | ⟨rfl, -⟩ | ⟨rfl, -⟩ | ⟨rfl, -⟩ | ⟨rfl, -⟩
  · obtain rfl := Conflict.merge.inj hf
    exact ⟨List.forall_mem_singleton.2 fun _ _ => rfl, fun _ _ => rfl, List.forall_mem_nil _,
      fun _ _ => rfl⟩
  · obtain rfl := Conflict.merge.inj hf
    exact ⟨List.forall_mem_singleton.2 fun _ _ => rfl, fun _ _ => rfl, List.forall_mem_nil _,
      fun _ _ => rfl⟩
  · cases hf
  · cases hf
  · obtain rfl := Conflict.merge.inj hf
    exact ⟨List.forall_mem_singleton.2 fun _ _ => rfl, fun _ _ => rfl,
      List.forall_mem_cons.2 ⟨fun _ _ => rfl, List.forall_mem_singleton.2 fun _ _ => rfl⟩,
      fun _ _ => rfl⟩
  · obtain rfl := Conflict.merge.inj hf
    exact ⟨List.forall_mem_singleton.2 fun _ _ => rfl, fun _ _ => rfl,
      List.forall_mem_singleton.2 fun _ _ => rfl, fun _ _ => rfl⟩

/-- The row of cells that were put into the columns of a table. -/
theorem fill_of_row {cells : List Cell} {s : Store} {row : kind.table.Row}
    (h : kind.row cells s = .ok row) :
    fill ((layout kind.table).columns.zip cells) (blankRow kind.table) = .ok row := by
  obtain ⟨_, -, h⟩ := exists_of_bind h
  obtain ⟨⟨⟩, -, h⟩ := exists_of_bind h
  exact h

end RowKind

/-- A number in an integer column. -/
theorem FieldType.toInteger_ne_nan {c : Cell} (h : optionalNumber.Holds c) :
    c.toInteger ≠ .real .nan := by
  obtain rfl | ⟨x, rfl, hx⟩ := h
  · exact Cell.noConfusion
  · rw [Cell.toInteger, Cell.integral]
    split
    · split
      · exact Cell.noConfusion
      · exact fun hnan => hx (Cell.real.inj hnan)
    · exact fun hnan => hx (Cell.real.inj hnan)

/-- A number in a real column. -/
theorem FieldType.toRealCell_ne_nan {c : Cell} (h : optionalNumber.Holds c) :
    c.toRealCell ≠ .real .nan := by
  obtain rfl | ⟨x, rfl, hx⟩ := h
  · exact Cell.noConfusion
  · exact fun hnan => hx (Cell.real.inj hnan)

namespace RowKind

/-- A row of cells of the declared types is typed, and so is what it is merged into. -/
theorem Holds.isTyped {cells : List Cell} (h : kind.Holds cells) {s : Store}
    {row : kind.table.Row} (hrow : kind.row cells s = .ok row) :
    (Change.insert kind.table kind.conflict row).Meets Table.IsTypedRow := by
  obtain ⟨types, hkind, hcells⟩ := h
  replace hrow := fill_of_row hrow
  simp only [declared, List.mem_cons, List.not_mem_nil, or_false, Prod.mk.injEq] at hkind
  rcases hkind with ⟨rfl, rfl⟩ | ⟨rfl, rfl⟩ | ⟨rfl, rfl⟩ | ⟨rfl, rfl⟩ | ⟨rfl, rfl⟩ | ⟨rfl, rfl⟩
  · obtain _ | ⟨⟨id, rfl⟩, _ | ⟨⟨title, rfl⟩, _ | ⟨-, _ | ⟨-, _ | ⟨hduration, _ | ⟨-, _ | ⟨-, _ |
      ⟨-, _ | ⟨-, _ | _⟩⟩⟩⟩⟩⟩⟩⟩⟩ := hcells
    obtain rfl := Except.ok.inj hrow
    refine ⟨⟨rfl, FieldType.toInteger_ne_nan hduration⟩, fun f hf old new hold hnew => ?_⟩
    obtain rfl := Conflict.merge.inj hf
    exact ⟨hold.1, hnew.2⟩
  · obtain _ | ⟨⟨id, rfl⟩, _ | ⟨⟨name, rfl⟩, _ | ⟨-, _ | ⟨-, _ | ⟨-, _ | _⟩⟩⟩⟩⟩ := hcells
    obtain rfl := Except.ok.inj hrow
    refine ⟨rfl, fun f hf old new hold _ => ?_⟩
    obtain rfl := Conflict.merge.inj hf
    exact hold
  · exact ⟨trivial, fun _ _ _ _ _ _ => trivial⟩
  · exact ⟨trivial, fun _ _ _ _ _ _ => trivial⟩
  · exact ⟨trivial, fun _ _ _ _ _ _ => trivial⟩
  · obtain _ | ⟨⟨movieId, rfl⟩, _ | ⟨haverage, _ | ⟨hvotes, _ | ⟨hmedian, _ | _⟩⟩⟩⟩ := hcells
    obtain rfl := Except.ok.inj hrow
    refine ⟨⟨rfl, FieldType.toRealCell_ne_nan haverage, FieldType.toInteger_ne_nan hvotes,
      FieldType.toInteger_ne_nan hmedian⟩, fun f hf old new hold hnew => ?_⟩
    obtain rfl := Conflict.merge.inj hf
    exact ⟨hold.1, hnew.2⟩

end RowKind

section records

theorem has_text? (o : Option String) : FieldType.optionalText.Has (Json.ofOption .string o) := by
  cases o with
  | none => exact Or.inl rfl
  | some s => exact Or.inr ⟨s, rfl⟩

theorem has_number? {α : Type} (f : α → Binary64) (o : Option α) :
    FieldType.optionalNumber.Has (Json.ofOption (fun a => .number (f a)) o) := by
  cases o with
  | none => exact Or.inl rfl
  | some a => exact Or.inr ⟨f a, rfl⟩

theorem declares_movie (m : Movie) : RowKind.movies.Declares (.object m.fields) := by
  refine ⟨_, List.mem_cons_self, m.fields, rfl, ?_⟩
  refine .cons ⟨_, rfl, m.id, rfl⟩ (.cons ⟨_, rfl, m.title, rfl⟩ ?_)
  refine .cons ⟨_, rfl, has_number? _ m.year⟩ (.cons ⟨_, rfl, has_text? m.datePublished⟩ ?_)
  refine .cons ⟨_, rfl, has_number? _ m.duration⟩ (.cons ⟨_, rfl, has_text? m.country⟩ ?_)
  refine .cons ⟨_, rfl, has_text? m.grossIncome⟩ (.cons ⟨_, rfl, has_text? m.languages⟩ ?_)
  exact .cons ⟨_, rfl, has_text? m.productionCompany⟩ .nil

theorem declares_name (n : Name) : RowKind.names.Declares (.object n.fields) := by
  refine ⟨_, .tail _ (.head _), n.fields, rfl, ?_⟩
  refine .cons ⟨_, rfl, n.id, rfl⟩ (.cons ⟨_, rfl, n.name, rfl⟩ ?_)
  refine .cons ⟨_, rfl, has_number? _ n.height⟩ (.cons ⟨_, rfl, has_text? n.dateOfBirth⟩ ?_)
  exact .cons ⟨_, rfl, has_text? n.knownForMovies⟩ .nil

theorem declares_genre (g : Genre) : RowKind.genres.Declares (.object g.fields) :=
  ⟨_, .tail _ (.tail _ (.head _)), g.fields, rfl,
    .cons ⟨_, rfl, g.movieId, rfl⟩ (.cons ⟨_, rfl, g.genre, rfl⟩ .nil)⟩

theorem declares_directing (d : Directing) : RowKind.directings.Declares (.object d.fields) :=
  ⟨_, .tail _ (.tail _ (.tail _ (.head _))), d.fields, rfl,
    .cons ⟨_, rfl, d.movieId, rfl⟩ (.cons ⟨_, rfl, d.nameId, rfl⟩ .nil)⟩

theorem declares_casting (c : Casting) : RowKind.castings.Declares (.object c.fields) := by
  refine ⟨_, .tail _ (.tail _ (.tail _ (.tail _ (.head _)))), c.fields, rfl, ?_⟩
  refine .cons ⟨_, rfl, c.movieId, rfl⟩ (.cons ⟨_, rfl, c.nameId, rfl⟩ ?_)
  exact .cons ⟨_, rfl, c.category, rfl⟩ .nil

theorem declares_rating (r : Rating) : RowKind.ratings.Declares (.object r.fields) := by
  refine ⟨_, .tail _ (.tail _ (.tail _ (.tail _ (.tail _ (.head _))))), r.fields, rfl, ?_⟩
  refine .cons ⟨_, rfl, r.movieId, rfl⟩ (.cons ⟨_, rfl, has_number? .finite r.avgRating⟩ ?_)
  refine .cons ⟨_, rfl, has_number? _ r.totalVotes⟩ ?_
  exact .cons ⟨_, rfl, has_number? _ r.medianRating⟩ .nil

/-- The records of a dataset have values of the declared types. -/
theorem declares_of_mem_rowsOf (d : Dataset) : ∀ rows ∈ Dataset.rowsOf d, ∀ fields ∈ rows.2,
    rows.1.Declares (.object fields) := by
  simp only [Dataset.rowsOf, List.forall_mem_cons, List.forall_mem_map]
  exact ⟨fun m _ => declares_movie m, fun n _ => declares_name n, fun g _ => declares_genre g,
    fun d _ => declares_directing d, fun c _ => declares_casting c, fun r _ => declares_rating r,
    List.forall_mem_nil _⟩

end records

end FilmReport.Dataset
