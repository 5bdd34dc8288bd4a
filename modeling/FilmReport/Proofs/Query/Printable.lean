import FilmReport.Query.Definition
import FilmReport.Proofs.Binary64.Range
import FilmReport.Proofs.Decimal.Stored
import FilmReport.Proofs.Store.Measured
import FilmReport.Proofs.Query.Execution
import FilmReport.Proofs.Query.Sorted
import FilmReport.Proofs.Shape.Checked

/-!
Totals of cells are numbers. Sums, averages and shares of cells of bounded size can be printed, and
so can what they are rounded to. Operations on rows that a report can print keep them so, and a
statement with such rows answers.
-/

set_option autoImplicit false
set_option relaxedAutoImplicit false

namespace FilmReport

open Binary64

namespace Cell

/-- A cell that a report can print; a real must be a number. -/
def IsPrintable : Cell → Prop
  | real x => x.isFinite = true
  | _ => True

@[simp]
theorem isPrintable_null : null.IsPrintable := trivial

@[simp]
theorem isPrintable_int (n : ℤ) : (int n).IsPrintable := trivial

@[simp]
theorem isPrintable_text (s : String) : (text s).IsPrintable := trivial

@[simp]
theorem isPrintable_ofText? (t : Option String) : (ofText? t).IsPrintable := by
  cases t <;> trivial

theorem IsPrintable.ne_nan {c : Cell} (h : c.IsPrintable) : c ≠ real .nan := by
  rintro rfl
  cases h

theorem IsPrintable.normal {c : Cell} (h : c.IsPrintable) : c.normal.IsPrintable := by
  rcases c with _ | n | x | s
  · trivial
  · trivial
  · rw [Cell.normal]
    split
    · split
      · trivial
      · exact h
    · exact h
  · trivial

/-- A cell that is missing or stands for a number of bounded size. -/
def IsNumber (u k : ℤ) (c : Cell) : Prop :=
  c = null ∨ c.toReal.IsNumber u k

theorem IsNumber.isPrintable {u k : ℤ} {c : Cell} (h : c.IsNumber u k) : c.IsPrintable := by
  rcases h with rfl | ⟨q, hq, -⟩
  · trivial
  · cases c with
    | real x =>
      change x = finite q at hq
      rw [hq]
      rfl
    | _ => trivial

theorem IsTerm.isPrintable {u : ℤ} {c : Cell} (h : c.IsTerm u) : c.IsPrintable := by
  cases c with
  | real x =>
    obtain ⟨q, rfl, -⟩ := h
    rfl
  | _ => trivial

theorem IsNumber.isDivisor {u k : ℤ} {c : Cell} (h : c.IsNumber u k) (hc : c.toReal ≠ finite 0) :
    IsDivisor u c.toReal := by
  rcases h with rfl | hnumber
  · exact absurd rfl hc
  · exact hnumber.isDivisor hc

end Cell

namespace Query

variable {u w k : ℤ} {c : Cell} {cells : List Cell}

@[simp]
theorem isPrintable_count {ρ : Type} (rows : List ρ) : (count rows).IsPrintable := trivial

theorem natAbs_le_of_isStorable {n : ℤ} (h : Cell.isStorable n = true) : n.natAbs ≤ 2 ^ 63 := by
  simp only [Cell.isStorable, Bool.and_eq_true, decide_eq_true_eq] at h
  omega

namespace Tally

def Bounded (u : ℤ) : Tally → Prop
  | exact n => n.natAbs ≤ 2 ^ 63
  | approximate s => s.Bounded u

theorem Bounded.add {t : Tally} (ht : t.Bounded u) (hu : u ≤ 0) (hc : c.IsTerm u) :
    (t.add c).Bounded u := by
  have hzero : (finite 0).Within u 64 :=
    ⟨0, rfl, Or.inr (IsMultiple.zero u), by simp⟩
  cases t with
  | exact n =>
    have hstart := RunningSum.bounded_ofInt hu ht
    cases c with
    | null => exact hstart.push hzero
    | int m =>
      rw [Tally.add]
      split
      · next h => exact natAbs_le_of_isStorable h
      · exact hstart.pushInt hu hc
    | real x => exact hstart.push hc
    | text s => exact hc.elim
  | approximate s =>
    cases c with
    | null => exact RunningSum.Bounded.push ht hzero
    | int m => exact RunningSum.Bounded.pushInt ht hu hc
    | real x => exact RunningSum.Bounded.push ht hc
    | text s => exact hc.elim

theorem bounded_ofCells (hu : u ≤ 0) (h : ∀ c ∈ cells, c.IsTerm u) : (ofCells cells).Bounded u := by
  rw [ofCells]
  have hstart : (exact 0).Bounded u := Nat.zero_le _
  generalize exact 0 = t at hstart ⊢
  induction cells generalizing t with
  | nil => exact hstart
  | cons c rest ih =>
    rw [List.forall_mem_cons] at h
    exact ih h.2 _ (hstart.add hu h.1)

theorem Bounded.isNumber_value {t : Tally} (ht : t.Bounded u) (hu : u ≤ 0) :
    t.value.IsNumber u 181 := by
  cases t with
  | exact n =>
    have hsize := RunningSum.within_of_natAbs hu (n := n) (le_trans ht (by decide))
    exact (hsize.mono (by decide)).isNumber_round
  | approximate s => exact RunningSum.Bounded.isNumber_value ht

theorem Bounded.isNumber_cell {t : Tally} (ht : t.Bounded u) (hu : u ≤ 0) :
    t.cell.IsNumber u 181 := by
  have hvalue := ht.isNumber_value hu
  cases t with
  | exact n => exact Or.inr hvalue
  | approximate s =>
    obtain ⟨q, hq, hrest⟩ := hvalue
    refine Or.inr ⟨q, ?_, hrest⟩
    rw [value] at hq
    rw [cell, hq]
    rfl

end Tally

theorem toReal_ofNumber {x : Binary64} (h : x ≠ nan) : (ofNumber x).toReal = x := by
  cases x with
  | nan => exact absurd rfl h
  | _ => rfl

theorem isNumber_ofNumber {x : Binary64} (h : x.IsNumber u k) : (ofNumber x).IsNumber u k := by
  obtain ⟨q, rfl, hrest⟩ := h
  exact Or.inr ⟨q, rfl, hrest⟩

theorem isNumber_sum (hu : u ≤ 0) (h : ∀ c ∈ cells, c.IsTerm u) : (sum cells).IsNumber u 181 := by
  rw [sum]
  split
  · exact Or.inl rfl
  · refine (Tally.bounded_ofCells hu fun c hc => h c ?_).isNumber_cell hu
    exact List.mem_of_mem_filter hc

theorem isNumber_average (hu : u ≤ 0) (h : ∀ c ∈ cells, c.IsTerm u) :
    (average cells).IsNumber (-1074) 181 := by
  rw [average]
  split
  · exact Or.inl rfl
  · next hne =>
    have htally : (Tally.ofCells (present cells)).Bounded u :=
      Tally.bounded_ofCells hu fun c hc => h c (List.mem_of_mem_filter hc)
    have hlength := ofInt_ne_zero (n := (present cells).length)
      (by exact_mod_cast List.length_pos_iff.2 hne)
    exact isNumber_ofNumber ((htally.isNumber_value hu).within.isNumber_div
      (isDivisor_ofInt hlength) (by decide) (by decide))

theorem quotient_cases (a b : Cell) :
    quotient a b = .null ∨ a ≠ .null ∧ b.toReal ≠ finite 0 ∧
      quotient a b = ofNumber (a.toReal.div b.toReal) := by
  unfold quotient
  split
  · exact Or.inl rfl
  · exact Or.inl rfl
  · next hnull _ =>
    split
    · exact Or.inl rfl
    · next hzero => exact Or.inr ⟨hnull, hzero, rfl⟩

theorem isNumber_quotient {a b : Cell} (ha : a ≠ .null → a.toReal.Within u k)
    (hb : b.toReal ≠ finite 0 → IsDivisor w b.toReal) (hk : -1022 ≤ k - w) (hk' : k - w ≤ 1022) :
    (quotient a b).IsNumber (-1074) (k - w) := by
  rcases quotient_cases a b with h | ⟨hnull, hzero, h⟩ <;> rw [h]
  · exact Or.inl rfl
  · exact isNumber_ofNumber ((ha hnull).isNumber_div (hb hzero) hk hk')

theorem isNumber_percentage {part whole : Cell} (hpart : part.IsNumber u k)
    (hwhole : whole.toReal ≠ finite 0 → IsDivisor w whole.toReal) (hk : -1029 ≤ k) (hk' : k ≤ 1015)
    (hkw : -1022 ≤ k + 7 - w) (hkw' : k + 7 - w ≤ 1022) :
    (percentage part whole).IsNumber (-1074) (k + 7 - w) := by
  have hhundred : Binary64.ofInt 100 = finite 100 := by decide +kernel
  unfold percentage
  split
  · exact Or.inl rfl
  · next hnull =>
    obtain ⟨p, hp, -, hpk⟩ := hpart.resolve_left hnull
    have hsize : |p * 100| ≤ 2 ^ (k + 7) := by
      rw [← two_zpow_mul]
      exact abs_mul_le_mul hpk (by norm_num)
    have hpart : (Binary64.round (p * 100)).Within (-1074) (k + 7) :=
      within_round (Or.inl le_rfl) (by omega) (by omega)
        (hsize.trans (le_add_of_nonneg_right (two_zpow_pos _).le))
    refine isNumber_quotient (u := -1074) (fun _ => ?_) hwhole hkw hkw'
    rw [hp, hhundred, mul, toReal_ofNumber (round_ne_nan _)]
    exact hpart

/-- A number that is rounded to decimals can be printed. -/
theorem isPrintable_rounded_of_eq {places : ℕ} (hplaces : places ≤ 10) {q : ℚ}
    (hq : c.toReal = finite q) (hmultiple : IsMultiple (-1074) q) :
    (rounded places c).IsPrintable := by
  obtain ⟨v, hv⟩ := exists_roundPlaces hplaces hmultiple
  unfold rounded
  split
  · trivial
  · rw [hq, hv]
    rfl

theorem isPrintable_rounded {places : ℕ} (hplaces : places ≤ 10) (hu : -1074 ≤ u)
    (hc : c.IsNumber u k) : (rounded places c).IsPrintable := by
  rcases hc with rfl | ⟨q, hq, hmultiple, -⟩
  · trivial
  · exact isPrintable_rounded_of_eq hplaces hq (hmultiple.mono hu)

end Query
end FilmReport

namespace FilmReport

open Binary64 Store

namespace Query

variable {ρ : Type}

/-- Rows of which all cells can be printed. -/
def Printable (rows : List (List Cell)) : Prop :=
  ∀ row ∈ rows, ∀ c ∈ row, c.IsPrintable

/-- A total of which all cells can be printed, whichever of the items it is taken over. -/
def PrintableTotal (total : List ρ → List Cell) (items : List ρ) : Prop :=
  ∀ part, part.Sublist items → ∀ c ∈ total part, c.IsPrintable

namespace Printable

variable {rows : List (List Cell)} {items : List ρ}

theorem of_subset {rows' : List (List Cell)} (h : Printable rows) (hsubset : rows' ⊆ rows) :
    Printable rows' :=
  fun row hrow => h row (hsubset hrow)

theorem sortBy (h : Printable rows) (order : List By) : Printable (sortBy order rows) :=
  h.of_subset fun _ hrow => Store.mem_orderBy.1 hrow

theorem take (h : Printable rows) (n : ℕ) : Printable (rows.take n) :=
  h.of_subset (List.take_subset n rows)

theorem filter (h : Printable rows) (p : List Cell → Bool) : Printable (rows.filter p) :=
  h.of_subset fun _ hrow => List.mem_of_mem_filter hrow

theorem map_drop (h : Printable rows) (n : ℕ) : Printable (rows.map (·.drop n)) := by
  rw [Printable, List.forall_mem_map]
  exact fun row hrow c hc => h row hrow c (List.mem_of_mem_drop hc)

theorem map {f : ρ → List Cell} (h : ∀ item ∈ items, ∀ c ∈ f item, c.IsPrintable) :
    Printable (items.map f) := by
  rw [Printable, List.forall_mem_map]
  exact h

theorem keysOf {key : ρ → List Cell} (h : ∀ item ∈ items, ∀ c ∈ key item, c.IsPrintable) :
    Printable (keysOf key items) := by
  intro row hrow
  obtain ⟨item, hitem, rfl⟩ := mem_keysOf.1 hrow
  exact h item hitem

theorem grouped {key : ρ → List Cell} {total : List ρ → List Cell}
    (hkey : ∀ item ∈ items, ∀ c ∈ key item, c.IsPrintable) (htotal : PrintableTotal total items) :
    Printable (grouped key total items) := by
  intro row hrow c hc
  obtain ⟨item, hitem, rfl⟩ := mem_grouped.1 hrow
  rcases List.mem_append.1 hc with hc | hc
  · obtain ⟨d, hd, rfl⟩ := List.mem_map.1 hc
    exact (hkey item hitem d hd).normal
  · exact htotal _ List.filter_sublist c hc

end Printable

theorem isPrintable_cellAt {row : List Cell} (h : ∀ c ∈ row, c.IsPrintable) (j : ℕ) :
    (cellAt row j).IsPrintable := by
  rcases cellAt_mem_or_null row j with hmem | hnull
  · exact h _ hmem
  · rw [hnull]
    trivial

section Totals

variable {items : List ρ} {value : ρ → Cell} {u : ℤ}

theorem printableTotal_count (items : List ρ) : PrintableTotal (fun part => [count part]) items :=
  fun _ _ => by simp

theorem printableTotal_countDistinct (value : ρ → Cell) (items : List ρ) :
    PrintableTotal (fun part => [countDistinct (part.map value)]) items :=
  fun _ _ => by simp [countDistinct]

theorem PrintableTotal.append {total total' : List ρ → List Cell} (h : PrintableTotal total items)
    (h' : PrintableTotal total' items) :
    PrintableTotal (fun part => total part ++ total' part) items := by
  intro part hpart c hc
  rcases List.mem_append.1 hc with hc | hc
  · exact h part hpart c hc
  · exact h' part hpart c hc

theorem isTerm_of_sublist (h : ∀ item ∈ items, (value item).IsTerm u) {part : List ρ}
    (hpart : part.Sublist items) : ∀ c ∈ part.map value, c.IsTerm u := by
  rw [List.forall_mem_map]
  exact fun item hitem => h item (hpart.subset hitem)

theorem printableTotal_sum (hu : -1074 ≤ u) (hu' : u ≤ 0)
    (h : ∀ item ∈ items, (value item).IsTerm u) :
    PrintableTotal (fun part => [rounded 2 (sum (part.map value))]) items := by
  intro part hpart
  rw [List.forall_mem_singleton]
  exact isPrintable_rounded (by decide) hu (isNumber_sum hu' (isTerm_of_sublist h hpart))

theorem printableTotal_average (hu : u ≤ 0) (h : ∀ item ∈ items, (value item).IsTerm u) :
    PrintableTotal (fun part => [rounded 2 (average (part.map value))]) items := by
  intro part hpart
  rw [List.forall_mem_singleton]
  exact isPrintable_rounded (by decide) le_rfl (isNumber_average hu (isTerm_of_sublist h hpart))

end Totals

/-- A statement that answers cells that can be printed. -/
def Statement.Prints (st : Statement) (p : Params) (s : Store) : Prop :=
  ∃ rows, st.rows p s = rows.map (List.map .cell) ∧ Printable rows

theorem prints_select {lines columns : List String} {prepare : Store → Except StoreError Unit}
    {bound : List Param} {rows : Params → Store → List (List Cell)} {p : Params} {s : Store}
    (h : Printable (rows p s)) : (select lines columns prepare bound rows).Prints p s :=
  ⟨rows p s, rfl, h⟩

section Check

variable {id : String} {columns : List String} {n : ℕ} {c : Cell} {rows : List (List Cell)}

/-- The value that is printed for a cell. -/
def printed : Cell → Value
  | .null => .null
  | .int n => .number (.ofInt n)
  | .real x => .number x
  | .text s => .text s

/-- The value that is printed for a datum, if it can be printed. -/
def Datum.printed : Datum → Value
  | .cell c => Query.printed c
  | .blob => .null

theorem check_of_isPrintable (h : c.IsPrintable) : (Datum.cell c).check = .valid (printed c) := by
  rcases c with _ | n | x | s
  · rfl
  · rfl
  · cases x with
    | finite q => rfl
    | infinite _ => cases h
    | nan => cases h
  · rfl

theorem isPrintable_of_check (h : (Datum.cell c).check.issues = []) : c.IsPrintable := by
  rcases c with _ | n | x | s
  · trivial
  · trivial
  · cases x with
    | finite q => rfl
    | infinite _ => cases h
    | nan => cases h
  · trivial

theorem checkRow_of_isPrintable : ∀ (columns : List String) {row : List Cell},
    (∀ c ∈ row, c.IsPrintable) →
      checkRow (columns.zip (row.map .cell)) = .valid (columns.zip (row.map printed))
  | [], _, _ => rfl
  | _ :: _, [], _ => rfl
  | column :: columns, c :: row, h => by
    rw [List.forall_mem_cons] at h
    rw [List.map_cons, List.zip_cons_cons, checkRow, check_of_isPrintable h.1,
      checkRow_of_isPrintable columns h.2]
    rfl

theorem isPrintable_of_checkRow : ∀ {columns : List String} {row : List Cell},
    (checkRow (columns.zip (row.map .cell))).issues = [] → row.length ≤ columns.length →
      ∀ c ∈ row, c.IsPrintable
  | _, [], _, _ => List.forall_mem_nil _
  | [], _ :: _, _, hlength => absurd hlength (Nat.not_succ_le_zero _)
  | column :: columns, c :: row, h, hlength => by
    rw [List.map_cons, List.zip_cons_cons, checkRow] at h
    obtain ⟨hfirst, hrest⟩ := List.append_eq_nil_iff.1 h
    rw [List.forall_mem_cons]
    refine ⟨isPrintable_of_check (List.map_eq_nil_iff.1 hfirst), ?_⟩
    exact isPrintable_of_checkRow hrest (Nat.le_of_succ_le_succ hlength)

/-- Rows that can be printed are printed. -/
theorem checkRows_of_printable (id : String) (columns : List String) :
    ∀ (n : ℕ) {rows : List (List Cell)}, Printable rows →
      checkRows id columns n (rows.map (List.map .cell)) =
        .ok (rows.map fun row => columns.zip (row.map printed))
  | _, [], _ => rfl
  | n, row :: rest, h => by
    rw [Printable, List.forall_mem_cons] at h
    rw [List.map_cons, checkRows, checkRow_of_isPrintable columns h.1,
      checkRows_of_printable id columns (n + 1) h.2]
    rfl

/-- Only rows that can be printed are printed. -/
theorem printable_of_checkRows : ∀ {n : ℕ} {rows : List (List Cell)} {out : List Row},
    checkRows id columns n (rows.map (List.map .cell)) = .ok out →
      (∀ row ∈ rows, row.length ≤ columns.length) → Printable rows
  | _, [], _, _, _ => List.forall_mem_nil _
  | n, row :: rest, out, h, hlength => by
    rw [List.forall_mem_cons] at hlength
    rw [List.map_cons, checkRows] at h
    rw [Printable, List.forall_mem_cons]
    cases hrow : (checkRow (columns.zip (row.map .cell))).toExcept with
    | error issues =>
      rw [hrow] at h
      cases h
    | ok values =>
      rw [hrow] at h
      dsimp only at h
      cases hrest : checkRows id columns (n + 1) (rest.map (List.map .cell)) with
      | error f =>
        rw [hrest] at h
        cases h
      | ok out' =>
        exact ⟨isPrintable_of_checkRow (Shape.Checked.toExcept_eq_ok.1 hrow).1 hlength.1,
          printable_of_checkRows hrest hlength.2⟩

end Check

variable {d : Definition} {p : Params} {s : Store}

theorem needs_eq_ok : ∀ {tables : List Table}, (∀ table ∈ tables, s.has table = true) →
    needs tables s = .ok ()
  | [], _ => rfl
  | table :: rest, h => by
    rw [List.forall_mem_cons] at h
    rw [needs_cons, rows?_eq, if_pos h.1, needs_eq_ok h.2]
    rfl

theorem Definition.Regular.prepare_eq_ok (hd : d.Regular)
    (hs : ∀ table ∈ queried, s.has table = true) (hamount : s.hasAmount = true) :
    d.statement.prepare s = .ok () := by
  obtain ⟨tables, htables, hprepare | ⟨column, hprepare⟩⟩ := hd.prepare
  · rw [hprepare, needs_eq_ok fun table htable => hs table (htables table htable)]
  · rw [hprepare, needsAmount, needs_eq_ok fun table htable => hs table (htables table htable),
      if_pos hamount]
    rfl

/-- A definition whose statement answers cells that can be printed answers what is printed for
them. -/
theorem Definition.Regular.answerOn_of_prints (hd : d.Regular)
    (hprepare : d.statement.prepare s = .ok ()) (hprints : d.statement.Prints p s) :
    d.answerOn p s = .ok ⟨d.id, d.segment, d.label, d.statement.columns,
      (d.statement.rows p s).map fun row => d.statement.columns.zip (row.map Datum.printed)⟩ := by
  obtain ⟨rows, hrows, hprintable⟩ := hprints
  rw [hd.answerOn_eq, hprepare, hrows,
    checkRows_of_printable d.id d.statement.columns 0 hprintable, List.map_map]
  simp only [Except.map, Function.comp_def, List.map_map, Datum.printed]

theorem Definition.Regular.exists_answerOn (hd : d.Regular)
    (hs : ∀ table ∈ queried, s.has table = true) (hamount : s.hasAmount = true)
    (hprints : d.statement.Prints p s) : ∃ result, d.answerOn p s = .ok result :=
  ⟨_, hd.answerOn_of_prints (hd.prepare_eq_ok hs hamount) hprints⟩

theorem Definition.Regular.printable_of_answerOn (hd : d.Regular) {rows : List (List Cell)}
    (hrows : d.statement.rows p s = rows.map (List.map .cell))
    (hlength : ∀ row ∈ rows, row.length ≤ d.statement.columns.length) {result : Result}
    (h : d.answerOn p s = .ok result) : Printable rows := by
  rw [hd.answerOn_eq] at h
  cases hprepare : d.statement.prepare s with
  | error e =>
    rw [hprepare] at h
    cases h
  | ok u =>
    rw [hprepare, hrows] at h
    cases hcheck : checkRows d.id d.statement.columns 0 (rows.map (List.map .cell)) with
    | error f =>
      rw [hcheck] at h
      cases h
    | ok out => exact printable_of_checkRows hcheck hlength

end Query
end FilmReport
