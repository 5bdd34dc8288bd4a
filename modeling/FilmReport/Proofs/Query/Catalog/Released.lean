import FilmReport.Proofs.Calendar.Order
import FilmReport.Proofs.Dataset.Batch
import FilmReport.Proofs.Operation.Course
import FilmReport.Proofs.Query.Catalog.Rankings

/-!
Movies released between two dates. Parameters are accepted just if both dates name days and the
first day is not after the last (`Params.resolve_eq_ok`), and the texts of dates that are stored, as
they come from accepted datasets, name days too; so the query, which compares nothing but texts,
lists the movies of a range of days in the order of the days.
-/

set_option autoImplicit false
set_option relaxedAutoImplicit false

namespace FilmReport

open Calendar Shape

namespace Query.Params

open Checked

variable {given : Fields} {p : Params}

/-- The fields of parameters. -/
structure Typed (field : String → Option Json) (p : Params) : Prop where
  year : IsWhole (field "year") p.year
  actorName : IsText (field "actorName") p.actorName
  productionCompany : IsText (field "productionCompany") p.productionCompany
  dateFrom : IsText (field "dateFrom") p.dateFrom
  dateTo : IsText (field "dateTo") p.dateTo

/-- The rules for single parameters. -/
structure Sound (p : Params) : Prop where
  year : 1870 ≤ p.year ∧ p.year ≤ 2100
  actorName : p.actorName ≠ ""
  productionCompany : p.productionCompany ≠ ""
  dateFrom : isDate p.dateFrom = true
  dateTo : isDate p.dateTo = true

/-- Parameters that fields ask for, of which each keeps its rules. -/
structure AskedBy (given : Fields) (p : Params) : Prop where
  typed : Typed (fun name => Fields.get? name (standard.fields.merge given)) p
  sound : p.Sound

/-- The days from which and to which the dates of parameters reach. -/
structure Spans (p : Params) (first last : Int) : Prop where
  dateFrom : day? p.dateFrom = some first
  dateTo : day? p.dateTo = some last

theorem Sound.exists_spans (h : p.Sound) : ∃ first last, p.Spans first last := by
  obtain ⟨first, hfirst⟩ := Option.isSome_iff_exists.1 ((isSome_day? p.dateFrom).trans h.dateFrom)
  obtain ⟨last, hlast⟩ := Option.isSome_iff_exists.1 ((isSome_day? p.dateTo).trans h.dateTo)
  exact ⟨first, last, hfirst, hlast⟩

/-- The fields of parameters, each checked on its own. -/
def checkFields : Option Json → Checked Params :=
  record fun r =>
    Params.mk <$> at_ "year" (integer (.between 1870 2100)) r <*> at_ "actorName" (text 1) r
      <*> at_ "productionCompany" (text 1) r <*> at_ "dateFrom" date r
      <*> at_ "dateTo" date r

theorem describes_checkFields : Describes checkFields (IsRecord Typed) Sound := by
  have hyear : ∀ n : Int, unsafeSize n = [] ∧ (Range.between 1870 2100).broken n = [] ↔
      1870 ≤ n ∧ n ≤ 2100 := by
    intro n
    have hrange : (Range.between 1870 2100).broken n = [] ↔ 1870 ≤ n ∧ n ≤ 2100 := by
      simp only [Range.between, Range.broken, List.append_eq_nil_iff, ite_eq_right_iff,
        reduceCtorEq, imp_false, Rat.not_lt]
      norm_cast
    rw [hrange, and_iff_right_of_imp]
    exact fun h => unsafeSize_eq_nil (by omega)
  refine describes_record fun strict r p => ?_
  simp only [reads_seq, reads_functor, reads_at, Dataset.reads_name, describes_date _ _ _,
    describes_integer _ _ _ _, hyear]
  constructor
  · rintro ⟨_, last, ⟨_, first, ⟨_, company, ⟨_, actor, ⟨year, hyear, rfl⟩, hactor, rfl⟩, hcompany,
      rfl⟩, hfirst, rfl⟩, hlast, rfl⟩
    exact ⟨⟨hyear.1, hactor.1, hcompany.1, hfirst.1, hlast.1⟩,
      fun h => ⟨hyear.2 h, hactor.2 h, hcompany.2 h, hfirst.2 h, hlast.2 h⟩⟩
  · rintro ⟨htyped, hsound⟩
    exact ⟨_, p.dateTo, ⟨_, p.dateFrom, ⟨_, p.productionCompany, ⟨_, p.actorName,
      ⟨p.year, ⟨htyped.year, fun h => (hsound h).year⟩, rfl⟩,
      ⟨htyped.actorName, fun h => (hsound h).actorName⟩, rfl⟩,
      ⟨htyped.productionCompany, fun h => (hsound h).productionCompany⟩, rfl⟩,
      ⟨htyped.dateFrom, fun h => (hsound h).dateFrom⟩, rfl⟩,
      ⟨htyped.dateTo, fun h => (hsound h).dateTo⟩, rfl⟩

theorem backwards_eq_nil {first last : Int} (h : p.Spans first last) :
    p.backwards = [] ↔ first ≤ last := by
  rw [backwards, ite_eq_right_iff, unitsBefore_iff_of_day? h.dateTo h.dateFrom]
  simp

/-- Parameters are accepted just if each is, and the first day is not after the last. -/
theorem resolve_eq_ok : resolve given = .ok p ↔
    AskedBy given p ∧ ∃ first last, p.Spans first last ∧ first ≤ last := by
  have hcheck : resolve given = .ok p ↔
      (check (some (.object (standard.fields.merge given)))).Gives p := by
    rw [resolve, ← toExcept_eq_ok]
    cases (check (some (.object (standard.fields.merge given)))).toExcept <;> simp
  have hrefine : ∀ field, check field = (checkFields field).refine backwards := fun _ => rfl
  rw [hcheck, ← reads_true, hrefine, reads_refine, describes_checkFields, true_imp_iff,
    true_imp_iff]
  constructor
  · rintro ⟨⟨⟨fields, hfields, htyped⟩, hsound⟩, hnone⟩
    obtain rfl := Json.object.inj (Option.some.inj hfields)
    obtain ⟨first, last, hspans⟩ := hsound.exists_spans
    exact ⟨⟨htyped, hsound⟩, first, last, hspans, (backwards_eq_nil hspans).1 hnone⟩
  · rintro ⟨⟨htyped, hsound⟩, first, last, hspans, hle⟩
    exact ⟨⟨⟨_, rfl, htyped⟩, hsound⟩, (backwards_eq_nil hspans).2 hle⟩

/-- Fields ask for no more than one value of each parameter. -/
theorem AskedBy.eq {q : Params} (hp : AskedBy given p) (hq : AskedBy given q) : p = q :=
  describes_checkFields.unique ⟨_, rfl, hp.typed⟩ ⟨_, rfl, hq.typed⟩

end Query.Params

section Dated

open Dataset Store

/-- A date that is stored is the text of one. -/
def Table.IsDated : (t : Table) → t.Row → Prop
  | .movie, m => ∀ s ∈ m.datePublished, isDate s = true
  | _, _ => True

/-- A statement that writes no dates of movies but texts of dates. -/
def Statement.WritesDates : Statement → Prop
  | .write kind cells => kind.table ≠ .movie ∨ ∃ m : Movie, m.Sound ∧ kind = .movies ∧
    Store.bind RowKind.movies.parameters (.object m.fields) = .ok cells
  | .rule r => r ∈ Normalize.Rule.standard
  | _ => True

theorem isDated_of_ne {t : Table} (h : t ≠ .movie) (row : t.Row) : t.IsDated row := by
  cases t <;> trivial

/-- The standard rules are for other columns than that of dates. -/
theorem ne_date_of_standard {s : Store} {t : Table} {r : Normalize.Rule}
    (hr : r ∈ Normalize.Rule.standard) {c : Column (Numbered t.Row)}
    (hc : s.column? t r.column = .ok c) : c.name ≠ "date_published" := by
  have hplain : ∀ r ∈ Normalize.Rule.standard, r.column.toList.map Char.toLower = r.column.toList ∧
      r.column ∉ numberNames ∧ r.column ≠ "date_published" := by decide
  obtain ⟨hlower, hnumber, hdate⟩ := hplain r hr
  rwa [name_of_column? hlower hnumber hc]

/-- What is put into another column leaves the date. -/
theorem moves_isDated (t : Table) (value : Cell) : ∀ c ∈ (layout t).columns,
    c.Moves (· = value) fun name old new => name ≠ "date_published" → t.IsDated old →
      t.IsDated new := by
  by_cases ht : t = .movie
  · subst ht
    simp +contextual [layout, movieLayout, Table.IsDated, amountColumn, Column.moves_optionalText,
      Column.moves_requiredText, Column.moves_integer, Column.moves_real]
  · intro c _ cell old new _ _ _ _
    exact isDated_of_ne ht new

/-- The row of an accepted movie has its date. -/
theorem isDated_of_bind {m : Movie} (hm : m.Sound) {cells : List Cell}
    (hcells : Store.bind RowKind.movies.parameters (.object m.fields) = .ok cells) {s : Store}
    {row : MovieRow} (hrow : RowKind.movies.row cells s = .ok row) : Table.movie.IsDated row := by
  obtain ⟨cells', hcells', hfill⟩ := (gives_movie hm.keeps).cells
  obtain rfl := Except.ok.inj (hcells.symm.trans hcells')
  obtain ⟨_, -, hrow⟩ := exists_of_bind hrow
  obtain ⟨_, -, hrow⟩ := exists_of_bind hrow
  obtain rfl := Except.ok.inj (hrow.symm.trans hfill)
  exact hm.datePublished

namespace Statement

theorem preserves_isDated {st : Statement} (h : st.WritesDates) :
    st.Preserves (RowsMeet Table.IsDated) := by
  refine preserves_of_uses fun s c hs hc => ?_
  cases st with
  | write kind cells =>
    obtain ⟨row, hrow, rfl⟩ := hc
    refine Change.preserves_rowsMeet ?_
    obtain ht | ⟨m, hm, rfl, hcells⟩ := h
    · exact ⟨isDated_of_ne ht row, fun f _ old new _ _ => isDated_of_ne ht (f old new)⟩
    · refine ⟨isDated_of_bind hm hcells hrow, fun f hf old new _ hnew => ?_⟩
      cases hf
      exact hnew
  | rule r =>
    obtain ⟨t, -, rfl⟩ := hc
    intro s₁ s₂ hs₁ hs₂
    obtain ⟨n, hupdate⟩ := exists_of_map_snd hs₂
    refine hs₁.updateColumn (fun c hfind old new hput _ => ?_) hupdate
    exact of_column? (fun _ _ _ hdated => hdated) (moves_isDated t r.sentinel) hfind rfl hput
      (ne_date_of_standard h hfind)
  | stage kind staged =>
    obtain ⟨m, -, rfl⟩ := hc
    cases kind <;> exact Change.preserves_rowsMeet (meets_refuse trivial).2
  | publish kind =>
    obtain ⟨rows, -, row, -, rfl⟩ := hc
    cases kind <;> exact Change.preserves_rowsMeet (meets_refuse trivial).2
  | record r =>
    obtain ⟨id, rfl⟩ | ⟨id, rfl⟩ := hc
    · exact Change.preserves_rowsMeet (meets_refuse trivial).2
    · exact Change.preserves_rowsMeet trivial
  | recordStep row =>
    obtain rfl := hc
    exact Change.preserves_rowsMeet (meets_refuse trivial).2
  | amounts =>
    obtain rfl := hc
    exact Change.preserves_rowsMeet fun m hm => hm
  | migrate m => obtain rfl | ⟨t, rfl⟩ := hc <;> exact Change.preserves_rowsMeet trivial
  | clear t =>
    obtain rfl := hc
    exact Change.preserves_rowsMeet trivial
  | delete t column value =>
    obtain rfl := hc
    exact Change.preserves_rowsMeet trivial
  | keepSteps =>
    obtain rfl := hc
    exact Change.preserves_rowsMeet trivial

end Statement

/-- A request that brings no movies but those of accepted datasets, and no rules but the standard
ones. -/
def Request.TakesAccepted : Request → Prop
  | .operation (.write kind _) => kind.table ≠ .movie
  | .operation (.seed d) => ∃ value source, Dataset.parse value source = .ok d
  | .operation (.standardize _ rules) => ∀ r ∈ Normalize.rulesOf rules, r ∈ Normalize.Rule.standard
  | _ => True

theorem writesDates_of_stages {kind : MembershipKind} {st : Statement}
    (h : st.Stages kind ∨ st.Publishes kind) : st.WritesDates := by
  rcases h with (rfl | ⟨_, rfl⟩) | rfl | rfl | rfl <;> trivial

theorem Request.writesDates_of_issues {request : Request} (h : request.TakesAccepted)
    {st : Statement} (hst : request.Issues st) : st.WritesDates := by
  cases request with
  | operation op =>
    cases op with
    | write kind given =>
      obtain ⟨input, -, cells, -, rfl⟩ := hst
      exact .inl h
    | seed d =>
      obtain ⟨value, source, hparse⟩ := h
      obtain ⟨⟨kind, rows⟩, hrows, fields, hfields, cells, hcells, rfl⟩ := hst
      simp only [Dataset.rowsOf, List.mem_cons, List.not_mem_nil, or_false, Prod.mk.injEq] at hrows
      rcases hrows with ⟨rfl, rfl⟩ | ⟨rfl, -⟩ | ⟨rfl, -⟩ | ⟨rfl, -⟩ | ⟨rfl, -⟩ | ⟨rfl, -⟩
      · obtain ⟨m, hm, rfl⟩ := List.mem_map.1 hfields
        exact .inr ⟨m, (accepted_of_parse hparse).sound.movies m hm, rfl, hcells⟩
      all_goals exact .inl fun ht => Table.noConfusion ht
    | coerce logger =>
      obtain rfl := hst
      trivial
    | stage asked options =>
      obtain ⟨kind, -, hst⟩ := hst
      exact writesDates_of_stages (.inl hst)
    | publish asked =>
      obtain ⟨kind, -, hst⟩ := hst
      exact writesDates_of_stages (.inr hst)
    | standardize logger rules =>
      obtain ⟨r, hr, rfl⟩ := hst
      exact h r hr
  | rebuild logger asked given =>
    obtain ⟨kind, -, hst⟩ := hst
    exact writesDates_of_stages hst
  | normalize logger given =>
    obtain (rfl | ⟨kind, hst⟩ | ⟨r, hr, rfl⟩) | ⟨r, rfl⟩ := hst
    · trivial
    · exact writesDates_of_stages hst
    · exact hr
    · trivial
  | delete t column value =>
    obtain rfl := hst
    trivial

namespace Course

variable {course : Course}

/-- A course that brings no movies but those of accepted datasets. -/
def TakesAccepted (course : Course) : Prop :=
  ∀ c ∈ course.calls, c.request.TakesAccepted

/-- Whatever else is done, the dates of the movies of accepted datasets stay texts of dates. -/
theorem TakesAccepted.isDated_of_mem_visited (h : course.TakesAccepted) {w : World}
    (hempty : w.data = .empty) (houtside : w.savepoints = none) {v : World}
    (hv : v ∈ course.visited w) : v.data.RowsMeet Table.IsDated := by
  have hall : course.Lowers fun _ => RowsMeet Table.IsDated := by
    refine ⟨fun _ _ hs => hs, fun c hc _ => ?_, fun _ => Migration.keeps fun st hst => ?_⟩
    · exact Request.keeps fun st hst =>
        Statement.preserves_isDated (Request.writesDates_of_issues (h c hc) hst)
    · obtain rfl | ⟨m, rfl⟩ | ⟨row, rfl⟩ := hst <;> exact Statement.preserves_isDated trivial
  have hw : w.Holds (RowsMeet Table.IsDated) := World.Holds.of_outside houtside
    (hempty ▸ rowsMeet_empty)
  exact (hall.holds (n := 0) hw v hv).data

end Course
end Dated

namespace Query.Movies

open Store

/-- The day on which a movie was published. -/
def dayOf (m : MovieRow) : Option Int :=
  m.datePublished.bind day?

/-- Whether a movie was published on a day from one to another. -/
def isReleased (first last : Int) (m : MovieRow) : Bool :=
  (dayOf m).any fun day => first ≤ day && day ≤ last

/-- The order of days, and on one day of titles. -/
def Precedes (m n : MovieRow) : Prop :=
  ∃ i j, dayOf m = some i ∧ dayOf n = some j ∧ (i < j ∨ i = j ∧ m.title ≤ n.title)

/-- All movies published from one day to another, in order, where the dates of all movies name
days. -/
structure ListsReleased (s : Store) (first last : Int) (listed : List MovieRow) : Prop where
  dated : ∀ m ∈ s.rowsOf .movie, m.datePublished.isSome → (dayOf m).isSome
  perm : listed.Perm ((s.rowsOf .movie).filter (isReleased first last))
  sorted : listed.Pairwise Precedes

/-- What the query shows of a movie. -/
def dateCells (m : MovieRow) : List Cell :=
  [.text m.title, .ofText? m.datePublished]

def dateKeys (m : MovieRow) : List SortKey :=
  [By.up 1, By.up 0].map (By.key (dateCells m))

variable {m n : MovieRow} {p : Params} {first last : Int}

theorem exists_day (h : Table.movie.IsDated m) {date : String}
    (hdate : m.datePublished = some date) : ∃ day, day? date = some day :=
  Option.isSome_iff_exists.1 ((isSome_day? date).trans (h date hdate))

theorem compareBytes_ne_gt_iff {s t : String} {i j : Int} (hs : day? s = some i)
    (ht : day? t = some j) : (Text.compareBytes s t != .gt) = decide (i ≤ j) := by
  rw [Bool.eq_iff_iff, bne_iff_ne, decide_eq_true_eq, Text.compareBytes_eq_cmp, ne_eq,
    cmp_eq_gt_iff, lt_iff_of_day? ht hs, not_lt]

theorem isBetween_eq (hp : p.Spans first last) (h : Table.movie.IsDated m) :
    isBetween p.dateFrom p.dateTo m = isReleased first last m := by
  rw [isBetween, isReleased, dayOf]
  cases hdate : m.datePublished with
  | none => rfl
  | some date =>
    obtain ⟨day, hday⟩ := exists_day h hdate
    rw [Option.bind_some, hday, Option.any_some]
    dsimp only
    rw [compareBytes_ne_gt_iff hp.dateFrom hday, compareBytes_ne_gt_iff hday hp.dateTo]

theorem isReleased_iff : isReleased first last m = true ↔
    ∃ day, dayOf m = some day ∧ first ≤ day ∧ day ≤ last := by
  simp [isReleased, Option.any_eq_true]

theorem precedes_of_rankBy_le (hm : isReleased first last m = true)
    (hn : isReleased first last n = true) (h : rankBy dateKeys m ≤ rankBy dateKeys n) :
    Precedes m n := by
  obtain ⟨i, hi, -⟩ := isReleased_iff.1 hm
  obtain ⟨j, hj, -⟩ := isReleased_iff.1 hn
  obtain ⟨s, hs, hdays⟩ := Option.bind_eq_some_iff.1 hi
  obtain ⟨t, ht, hdayt⟩ := Option.bind_eq_some_iff.1 hj
  have hless : rankBy dateKeys n < rankBy dateKeys m ↔ t < s ∨ t = s ∧ n.title < m.title := by
    simp [rankBy, dateKeys, dateCells, By.key, cellAt, SortKey.rank, hs, ht, Cell.ofText?,
      Cell.rank, List.cons_lt_cons_iff, Prod.Lex.toLex_lt_toLex, -String.lt_iff_ltb]
  have hnot := mt hless.2 (not_lt.2 h)
  refine ⟨i, j, hi, hj, ?_⟩
  rcases lt_trichotomy s t with hdate | rfl | hdate
  · exact .inl ((lt_iff_of_day? hdays hdayt).1 hdate)
  · have hday : i = j := Option.some.inj (hdays.symm.trans hdayt)
    exact .inr ⟨hday, not_lt.1 fun htitle => hnot (.inr ⟨rfl, htitle⟩)⟩
  · exact absurd (.inl hdate) hnot

/-- The movies that the query lists for a range of days. -/
def released (s : Store) (first last : Int) : List MovieRow :=
  orderBy dateKeys ((s.rowsOf .movie).filter (isReleased first last))

theorem listsReleased {s : Store} (h : s.RowsMeet Table.IsDated) (first last : Int) :
    ListsReleased s first last (released s first last) where
  dated m hm hsome := by
    obtain ⟨date, hdate⟩ := Option.isSome_iff_exists.1 hsome
    obtain ⟨day, hday⟩ := exists_day (h .movie m hm) hdate
    rw [dayOf, hdate, Option.bind_some, hday, Option.isSome_some]
  perm := orderBy_perm _ _
  sorted := by
    have hnan : ∀ m ∈ (s.rowsOf .movie).filter (isReleased first last), ∀ k ∈ dateKeys m,
        k.cell ≠ .real .nan := by
      intro m _
      cases hdate : m.datePublished <;>
        simp [dateKeys, dateCells, By.key, SortKey.cell, cellAt, hdate, Cell.ofText?]
    refine (pairwise_orderBy hnan).imp_of_mem fun {m n} hm hn hle => ?_
    rw [released, mem_orderBy, List.mem_filter] at hm hn
    exact precedes_of_rankBy_le hm.2 hn.2 hle

theorem rows_releasedBetween {s : Store} (h : s.RowsMeet Table.IsDated) (hp : p.Spans first last) :
    releasedBetween.statement.rows p s =
      ((released s first last).map dateCells).map (List.map .cell) := by
  have hfilter : (s.rowsOf .movie).filter (isBetween p.dateFrom p.dateTo) =
      (s.rowsOf .movie).filter (isReleased first last) :=
    List.filter_congr fun m hm => isBetween_eq hp (h .movie m hm)
  have hsorted : sortBy [.up 1, .up 0]
      (((s.rowsOf .movie).filter (isBetween p.dateFrom p.dateTo)).map dateCells) =
        (released s first last).map dateCells := by
    rw [hfilter, sortBy, orderBy_map]
    rfl
  rw [← hsorted]
  rfl

/-- What the query answers for listed movies. -/
def releasedResult (listed : List MovieRow) : Result where
  id := "Q21"
  segment := 3
  label := "Movies released between two dates"
  columns := ["title", "date_published"]
  rows := listed.map fun m =>
    [("title", .text m.title), ("date_published", printed (.ofText? m.datePublished))]

theorem asked_releasedBetween {w : World} (hw : w.obstacle = none)
    (hmovies : w.data.has .movie = true) (h : w.data.RowsMeet Table.IsDated)
    (logger : Journal.Logger) {given : Fields} (hgiven : Params.resolve given = .ok p)
    (hp : p.Spans first last) : releasedBetween.asked logger given w =
      .ok (.ok (releasedResult (released w.data first last))) := by
  have hd : releasedBetween ∈ catalog := by simp [catalog]
  have hprepare : releasedBetween.statement.prepare w.data = .ok () := by
    change needs [.movie] w.data = .ok ()
    rw [needs_cons, rows?_eq, if_pos hmovies]
    rfl
  have hrows := rows_releasedBetween h hp
  have hprintable : Printable ((released w.data first last).map dateCells) := by
    rw [Printable, List.forall_mem_map]
    simp [dateCells]
  rw [asked_eq hd hw logger hgiven, (regular_of_mem_catalog _ hd).answerOn_of_prints hprepare
    ⟨_, hrows, hprintable⟩, hrows, List.map_map, List.map_map]
  rfl

/--
Two dates are accepted just if the first does not name a later day than the last. However a database
was brought into its state with nothing but accepted datasets, the query lists the movies published
on the days of an accepted range, and no others, in the order of the days and of the titles.
-/
theorem releasedBetween_followsCalendar :
    (∀ given p, Params.AskedBy given p → ∃ first last, p.Spans first last ∧
      ((∃ q, Params.resolve given = .ok q) ↔ first ≤ last)) ∧
    ∀ course : Course, course.TakesAccepted → ∀ w : World, w.data = .empty → w.savepoints = none →
      ∀ v ∈ course.visited w, v.obstacle = none → v.data.has .movie = true →
      ∀ logger given p, Params.resolve given = .ok p → ∃ first last listed,
        p.Spans first last ∧ first ≤ last ∧ ListsReleased v.data first last listed ∧
        releasedBetween.asked logger given v = .ok (.ok (releasedResult listed)) := by
  refine ⟨fun given p hasked => ?_, fun course hcourse w hempty houtside v hv hopen hmovies logger
    given p hgiven => ?_⟩
  · obtain ⟨first, last, hspans⟩ := hasked.sound.exists_spans
    refine ⟨first, last, hspans, ?_, fun hle => ⟨p, Params.resolve_eq_ok.2
      ⟨hasked, first, last, hspans, hle⟩⟩⟩
    rintro ⟨q, hq⟩
    obtain ⟨hasked', first', last', hspans', hle⟩ := Params.resolve_eq_ok.1 hq
    obtain rfl := hasked.eq hasked'
    obtain rfl := Option.some.inj (hspans.dateFrom.symm.trans hspans'.dateFrom)
    obtain rfl := Option.some.inj (hspans.dateTo.symm.trans hspans'.dateTo)
    exact hle
  · obtain ⟨-, first, last, hspans, hle⟩ := Params.resolve_eq_ok.1 hgiven
    have hdated := hcourse.isDated_of_mem_visited hempty houtside hv
    exact ⟨first, last, _, hspans, hle, listsReleased hdated first last,
      asked_releasedBetween hopen hmovies hdated logger hgiven hspans⟩

/-- Films of the last days of February, with a leap day, and a film without a date. -/
def februaryFilms : Dataset where
  generatedAt := "2024-01-01T00:00:00Z"
  movies :=
    [film "tt1" "Leap" (some "2020-02-29"), film "tt2" "Before" (some "2020-02-28"),
     film "tt3" "After" (some "2020-03-01"), film "tt4" "Undated" none]
  names := []
  genres := []
  directings := []
  castings := []
  ratings := []
where
  film (id title : String) (date : Option String) : Dataset.Movie :=
    ⟨id, title, none, date, none, none, none, none, none⟩

theorem parse_februaryFilms : Dataset.parse (some februaryFilms.toJson) "films" =
    .ok februaryFilms := by
  have hfilm : ∀ {id title : String} {date : Option String}, id ≠ "" → title ≠ "" →
      (∀ s ∈ date, isDate s = true) → (februaryFilms.film id title date).Sound :=
    fun hid htitle hdate => ⟨hid, htitle, nofun, hdate, nofun⟩
  have hsound : februaryFilms.Sound :=
    { generatedAt := by decide +kernel
      movies := by
        simp only [februaryFilms, List.forall_mem_cons]
        exact ⟨hfilm (by decide) (by decide) (by decide +kernel),
          hfilm (by decide) (by decide) (by decide +kernel),
          hfilm (by decide) (by decide) (by decide +kernel), hfilm (by decide) (by decide) nofun,
          List.forall_mem_nil _⟩
      names := List.forall_mem_nil _
      genres := List.forall_mem_nil _
      directings := List.forall_mem_nil _
      castings := List.forall_mem_nil _
      ratings := List.forall_mem_nil _ }
  exact Dataset.accepts_iff.2 ⟨Dataset.typed_toJson hsound, hsound, by decide⟩

/-- The tables are made and the films seeded. -/
def februaryCourse : Course :=
  .migrate [some ⟨0⟩] <| .call ⟨.operation (.seed februaryFilms), []⟩ .done

/-- The dates of a range. -/
def datesOf (first last : String) : Fields :=
  [("dateFrom", .string first), ("dateTo", .string last)]

/-- Standard parameters but for the dates. -/
def between (first last : String) : Params :=
  { Params.standard with dateFrom := first, dateTo := last }

theorem askedBy_datesOf {first last : String} (hfirst : isDate first = true)
    (hlast : isDate last = true) : (between first last).AskedBy (datesOf first last) where
  typed :=
    { year := by
        have hyear : Binary64.ofInt 2019 = .finite 2019 := Binary64.ofInt_of_natAbs_lt (by decide)
        exact congrArg (fun x => some (Json.number x)) hyear
      actorName := rfl
      productionCompany := rfl
      dateFrom := rfl
      dateTo := rfl }
  sound :=
    { year := (by decide : (1870 : Int) ≤ 2019 ∧ (2019 : Int) ≤ 2100)
      actorName := (by decide : "Tom Hanks" ≠ "")
      productionCompany := (by decide : "Marvel Studios" ≠ "")
      dateFrom := hfirst
      dateTo := hlast }

/-- Of the films, one was published on the leap day; and there is no range from a day back to the
leap day. -/
theorem releasedBetween_followsCalendar_leapDay :
    (¬ ∃ q, Params.resolve (datesOf "2020-03-01" "2020-02-29") = .ok q) ∧
    ∃ v ∈ februaryCourse.visited (World.inMemory .empty []), ∃ listed,
      listed.map (·.title) = ["Leap"] ∧
      releasedBetween.asked .quiet (datesOf "2020-02-29" "2020-02-29") v =
        .ok (.ok (releasedResult listed)) := by
  obtain ⟨hdates, hlists⟩ := releasedBetween_followsCalendar
  have hday : day? "2020-02-29" = some 18321 ∧ day? "2020-03-01" = some 18322 := by decide +kernel
  have hleap : isDate "2020-02-29" = true ∧ isDate "2020-03-01" = true := by decide +kernel
  constructor
  · obtain ⟨first, last, hspans, hrange⟩ := hdates _ _ (askedBy_datesOf hleap.2 hleap.1)
    obtain rfl := Option.some.inj (hday.2.symm.trans hspans.dateFrom)
    obtain rfl := Option.some.inj (hday.1.symm.trans hspans.dateTo)
    rw [hrange]
    decide
  · have hresolve : Params.resolve (datesOf "2020-02-29" "2020-02-29") =
        .ok (between "2020-02-29" "2020-02-29") :=
      Params.resolve_eq_ok.2
        ⟨askedBy_datesOf hleap.1 hleap.1, 18321, 18321, ⟨hday.1, hday.1⟩, le_rfl⟩
    have hcourse : februaryCourse.TakesAccepted :=
      List.forall_mem_singleton.2 ⟨_, _, parse_februaryFilms⟩
    let v := (februaryCourse.act.on (World.inMemory .empty [])).2
    have hv : v ∈ februaryCourse.visited (World.inMemory .empty []) := Course.act_mem_visited _ _
    obtain ⟨first, last, listed, hspans, -, hlisted, hasked⟩ := hlists _ hcourse _ rfl rfl v hv
      (by decide +kernel) (by decide +kernel) .quiet _ _ hresolve
    obtain rfl := Option.some.inj (hday.1.symm.trans hspans.dateFrom)
    obtain rfl := Option.some.inj (hday.1.symm.trans hspans.dateTo)
    have htitles : ((v.data.rowsOf .movie).filter (isReleased 18321 18321)).map (·.title) =
        ["Leap"] := by decide +kernel
    have hperm := hlisted.perm.map (·.title)
    rw [htitles, List.perm_singleton] at hperm
    exact ⟨v, hv, listed, hperm, hasked⟩

end Query.Movies
end FilmReport
