import FilmReport.Proofs.Normalize.Standardize
import FilmReport.Proofs.Operation.Declared
import FilmReport.Proofs.Session.Reports
import FilmReport.Proofs.Store.Columns
import FilmReport.Proofs.Store.Referring

/-!
Standardization by any rules for movies and ratings, of which several may be for one column. Row by
row and column by column the first rule that finds a value missing fills it, and what a rule filled
is missing for no other (`Rule.settles_fillAll`). Under a name the answer has what the last rule of
this name filled; that is the number of rows in which the column differs where no other rule is for
it, and may be too small elsewhere (`standardizes_of_on_standardizeBy`).
-/

set_option autoImplicit false
set_option relaxedAutoImplicit false

namespace FilmReport.Normalize

open Store Act

variable {s s' : Store} {t : Table} {n : Nat}

namespace Rule

variable {r : Rule} {rules : List Rule} {c : Column (Numbered t.Row)} {old : Numbered t.Row}

/-- A rule for one of the tables that rules are declared for. -/
def IsDeclared (r : Rule) : Prop :=
  r.table = "movie" ∨ r.table = "ratings"

/-- The column of a table that a rule is for. -/
def columnIn? (r : Rule) (s : Store) (t : Table) : Option (Column (Numbered t.Row)) :=
  match named? .notModifiable r.table with
  | .ok u => if u = t then (s.column? t r.column).toOption else none
  | .error _ => none

theorem columnIn?_eq_some : r.columnIn? s t = some c ↔
    named? .notModifiable r.table = .ok t ∧ s.column? t r.column = .ok c := by
  rw [columnIn?]
  cases named? .notModifiable r.table with
  | error e => simp
  | ok u =>
    by_cases hu : u = t
    · subst hu
      cases s.column? u r.column <;> simp [Except.toOption]
    · simp [hu]

theorem columnIn?_congr (h : s'.hasAmount = s.hasAmount) : r.columnIn? s' t = r.columnIn? s t := by
  simp only [columnIn?, column?_congr h]

theorem isColumn_of_columnIn? (h : r.columnIn? s t = some c) : IsColumn t c :=
  isColumn_of_column? (columnIn?_eq_some.1 h).2

theorem IsDeclared.table (hr : r.IsDeclared) (h : r.columnIn? s t = some c) :
    t = .movie ∨ t = .ratings :=
  Statement.named?_of_declared hr (columnIn?_eq_some.1 h).1

/-- Whether a rule is for a column and finds its value missing in a row, or blank if the rule is for
texts. -/
def takes (r : Rule) (s : Store) (column : String) (row : Numbered t.Row) : Bool :=
  match r.columnIn? s t with
  | some c => c.name = column && r.selects (c.get row)
  | none => false

/-- A row after a rule that may be for its table. -/
def fill (r : Rule) (s : Store) (row : Numbered t.Row) : Numbered t.Row :=
  match r.columnIn? s t with
  | some c => if r.selects (c.get row) then (c.put r.sentinel row).toOption.getD row else row
  | none => row

/-- A row after rules that were applied one after the other. -/
def fillAll (s : Store) (rules : List Rule) (row : Numbered t.Row) : Numbered t.Row :=
  rules.foldl (fun row r => r.fill s row) row

theorem fillAll_cons (row : Numbered t.Row) :
    fillAll s (r :: rules) row = fillAll s rules (r.fill s row) := rfl

theorem selects_of_trimBlank (q : Rule) {text : String} (h : Text.trimBlank text ≠ "") :
    q.selects (.text text) = false := by
  rw [selects, beq_eq_false_iff_ne.2 h, Bool.and_false]

/-- No rule finds missing what a column, of whatever kind, keeps of a sentinel. -/
theorem selects_kept (q : Rule) {v : Cell} (hv : v ∈ kept r.sentinel) : q.selects v = false := by
  rw [sentinel] at hv
  split at hv
  · have hkept : kept (.text missingWord) =
        [.text missingWord, .text missingWord, .text missingWord] := by decide
    simp only [hkept, List.mem_cons, List.not_mem_nil, or_false, or_self] at hv
    exact hv ▸ q.selects_of_trimBlank (by decide)
  · have hkept : kept (.real (.ofInt missingNumber)) =
        [.text "0.0", .int missingNumber, .real (.ofInt missingNumber)] := by decide
    simp only [hkept, List.mem_cons, List.not_mem_nil, or_false] at hv
    rcases hv with rfl | rfl | rfl
    · exact q.selects_of_trimBlank (by decide)
    · rfl
    · rfl

/-- The numbers of rows are never missing. -/
theorem name_ne_numberName (hc : IsColumn t c) (h : r.selects (c.get old) = true) :
    c.name ≠ Column.numberName := by
  intro hname
  obtain rfl := hc.eq_of_name (Or.inl rfl) hname
  cases h

/-- A rule that takes a value gives it one that no rule takes, the same in every row, and leaves the
other columns of the row. -/
theorem IsDeclared.exists_fill (hr : r.IsDeclared) (hc : r.columnIn? s t = some c)
    (h : r.selects (c.get old) = true) :
    (∀ q : Rule, q.selects (c.get (r.fill s old)) = false) ∧
      (∀ row, ∃ x, c.put r.sentinel row = .ok x ∧ c.get (r.fill s old) = c.get x) ∧
      ∀ d, IsColumn t d → d.name ≠ c.name → d.get (r.fill s old) = d.get old := by
  have hcolumn := isColumn_of_columnIn? hc
  obtain ⟨v, hv, hput⟩ := hcolumn.exists_put (hr.table hc) (Statement.isSolid_sentinel r).text
    (name_ne_numberName hcolumn h)
  obtain ⟨new, hnew, hvalue, hothers⟩ := hput old
  have hfill : r.fill s old = new := by
    rw [fill, hc]
    dsimp only
    rw [if_pos h, hnew]
    rfl
  rw [hfill]
  refine ⟨fun q => hvalue ▸ selects_kept q hv, fun row => ?_, hothers⟩
  obtain ⟨x, hx, hkept, -⟩ := hput row
  exact ⟨x, hx, hvalue.trans hkept.symm⟩

theorem takes_eq (hr : r.columnIn? s t = some c) :
    r.takes s c.name old = r.selects (c.get old) := by
  rw [takes, hr]
  simp

theorem exists_of_takes (hc : IsColumn t c) (h : r.takes s c.name old = true) :
    r.columnIn? s t = some c ∧ r.selects (c.get old) = true := by
  rw [takes] at h
  split at h
  · next d hd =>
    rw [Bool.and_eq_true, decide_eq_true_eq] at h
    obtain rfl := (isColumn_of_columnIn? hd).eq_of_name hc h.1
    exact ⟨hd, h.2⟩
  · cases h

theorem takes_congr (hc : IsColumn t c) {new : Numbered t.Row} (h : c.get new = c.get old) :
    r.takes s c.name new = r.takes s c.name old := by
  rw [takes, takes]
  cases hd : r.columnIn? s t with
  | none => rfl
  | some d =>
    by_cases hname : d.name = c.name
    · obtain rfl := (isColumn_of_columnIn? hd).eq_of_name hc hname
      dsimp only
      rw [h]
    · simp [hname]

/-- A rule leaves the value of a column that it does not take. -/
theorem IsDeclared.get_fill (hr : r.IsDeclared) (hc : IsColumn t c)
    (h : r.takes s c.name old = false) : c.get (r.fill s old) = c.get old := by
  cases hd : r.columnIn? s t with
  | none => rw [fill, hd]
  | some d =>
    by_cases hselects : r.selects (d.get old) = true
    · obtain ⟨-, -, hothers⟩ := hr.exists_fill hd hselects
      refine hothers c hc fun hname => ?_
      rw [hname, takes_eq hd, hselects] at h
      cases h
    · rw [fill, hd]
      dsimp only
      rw [if_neg hselects]

/-- What rules make of the value of a column in a row. The first of them that takes it, if one does,
gives it what the column keeps of its sentinel in any row, and no rule takes that. -/
def Settles (rules : List Rule) (s : Store) (c : Column (Numbered t.Row))
    (old new : Numbered t.Row) : Prop :=
  match rules.find? (·.takes s c.name old) with
  | none => c.get new = c.get old
  | some r => (∀ q : Rule, q.selects (c.get new) = false) ∧
      ∀ row, ∃ x, c.put r.sentinel row = .ok x ∧ c.get new = c.get x

theorem settles_fillAll (hrules : ∀ r ∈ rules, r.IsDeclared) (hc : IsColumn t c)
    (old : Numbered t.Row) : Settles rules s c old (fillAll s rules old) := by
  induction rules generalizing old with
  | nil => rfl
  | cons r rest ih =>
    obtain ⟨hr, hrest⟩ := List.forall_mem_cons.1 hrules
    have hsettles := ih hrest (r.fill s old)
    rw [Settles] at hsettles
    rw [Settles, List.find?_cons, fillAll_cons]
    cases htakes : r.takes s c.name old with
    | true =>
      -- What the rule put there is taken by none of the rest.
      obtain ⟨hcolumn, hselects⟩ := exists_of_takes hc htakes
      obtain ⟨hplain, hkept, -⟩ := hr.exists_fill hcolumn hselects
      have hnone : rest.find? (·.takes s c.name (r.fill s old)) = none := by
        refine List.find?_eq_none.2 fun q _ hq => ?_
        exact Bool.false_ne_true ((hplain q).symm.trans (exists_of_takes hc hq).2)
      rw [hnone] at hsettles
      have hget : c.get (fillAll s rest (r.fill s old)) = c.get (r.fill s old) := hsettles
      simp only [hget]
      exact ⟨hplain, hkept⟩
    | false =>
      have hget := hr.get_fill hc htakes
      have hsame : (fun q : Rule => q.takes s c.name (r.fill s old)) = (·.takes s c.name old) :=
        funext fun q => takes_congr hc hget
      rwa [hsame, hget] at hsettles

/-- A value differs after rules just where one of them takes it, and then no rule finds it missing
any more. -/
theorem Settles.cases {new : Numbered t.Row} (hc : IsColumn t c) (h : Settles rules s c old new) :
    rules.any (·.takes s c.name old) = false ∧ c.get new = c.get old ∨
      rules.any (·.takes s c.name old) = true ∧ c.get new ≠ c.get old ∧
        ∀ q : Rule, q.selects (c.get new) = false := by
  rw [Settles] at h
  cases hfind : rules.find? (·.takes s c.name old) with
  | none =>
    rw [hfind] at h
    exact Or.inl ⟨List.any_eq_false.2 (List.find?_eq_none.1 hfind), h⟩
  | some r =>
    rw [hfind] at h
    have htakes : r.takes s c.name old = true := by simpa using List.find?_some hfind
    refine Or.inr ⟨List.any_eq_true.2 ⟨r, List.mem_of_find?_eq_some hfind, htakes⟩, ?_, h.1⟩
    intro heq
    have hselects := (exists_of_takes hc htakes).2
    rw [← heq, h.1 r] at hselects
    cases hselects

/-- Rules leave the number of a row. -/
theorem number_fillAll (hrules : ∀ r ∈ rules, r.IsDeclared) (old : Numbered t.Row) :
    (fillAll s rules old).number = old.number := by
  have hnumber : IsColumn t .number := Or.inl rfl
  have hnone : rules.any (·.takes s Column.number.name old) = false :=
    List.any_eq_false.2 fun q _ htakes =>
      name_ne_numberName hnumber (exists_of_takes hnumber htakes).2 rfl
  rcases (settles_fillAll (s := s) hrules hnumber old).cases hnumber with ⟨-, hget⟩ | ⟨hany, -⟩
  · exact Cell.int.inj hget
  · rw [hnone] at hany
    cases hany

/-- After others a rule selects what it takes and none of them takes. -/
theorem selects_fillAll (hrules : ∀ r ∈ rules, r.IsDeclared) (hr : r.columnIn? s t = some c)
    (old : Numbered t.Row) : r.selects (c.get (fillAll s rules old)) =
      (r.takes s c.name old && !rules.any (·.takes s c.name old)) := by
  have hc := isColumn_of_columnIn? hr
  rcases (settles_fillAll hrules hc old).cases hc with ⟨hany, hget⟩ | ⟨hany, -, hplain⟩
  · rw [hget, hany, takes_eq hr, Bool.not_false, Bool.and_true]
  · rw [hplain, hany, Bool.not_true, Bool.and_false]

theorem get_fillAll_ne_iff (hrules : ∀ r ∈ rules, r.IsDeclared) (hc : IsColumn t c)
    (old : Numbered t.Row) : c.get (fillAll s rules old) ≠ c.get old ↔
      rules.any (·.takes s c.name old) = true := by
  rcases (settles_fillAll hrules hc old).cases hc with ⟨hany, hget⟩ | ⟨hany, hne, -⟩
  · rw [hany]
    exact iff_of_false (fun hne => hne hget) Bool.false_ne_true
  · exact iff_of_true hne hany

theorem fill_congr (h : s'.hasAmount = s.hasAmount) (row : Numbered t.Row) :
    r.fill s' row = r.fill s row := by
  rw [fill, fill, columnIn?_congr h]

theorem fillAll_congr (h : s'.hasAmount = s.hasAmount) (row : Numbered t.Row) :
    fillAll s' rules row = fillAll s rules row := by
  simp only [fillAll, fill_congr h]

/-- What a rule does to the tables, and what it answers. -/
structure Applies (r : Rule) (s s' : Store) (n : Nat) : Prop where
  hasAmount : s'.hasAmount = s.hasAmount
  get : ∀ t, s'.get t = (s.get t).map (List.map (r.fill s))
  counted : ∃ t, ∃ c, r.columnIn? s t = some c ∧
    n = ((s.get t).getD []).countP fun row => r.selects (c.get row)

theorem applies_of_apply (h : (r.apply s).result = .ok (n, s')) : Applies r s s' n := by
  rw [apply] at h
  split at h
  · next t htable =>
    obtain ⟨rows, c, which, after, hrows, hcolumn, hwhich, hn, hfills, hs'⟩ := exists_of_update h
    rw [Rule.rows, hcolumn] at hwhich
    obtain rfl := Except.ok.inj hwhich
    have hc : r.columnIn? s t = some c := columnIn?_eq_some.2 ⟨htable, hcolumn⟩
    have hput : s' = s.put t (some (rows.map (r.fill s))) := by
      rcases hs' with rfl | ⟨hsome, hname⟩
      · rw [eq_map_of_fills (fun old new hfill => ?_) hfills]
        rw [fill, hc]
        dsimp only
        by_cases hselects : r.selects (c.get old) = true
        · rw [if_pos hselects, ((if_pos hselects).mp hfill).1]
          rfl
        · rw [if_neg hselects]
          exact (if_neg hselects).mp hfill
      · rw [hn] at hsome
        obtain ⟨row, -, hselects⟩ := List.countP_pos_iff.1 (Nat.pos_of_ne_zero hsome)
        exact absurd hname (name_ne_numberName (isColumn_of_column? hcolumn) hselects)
    refine ⟨?_, fun u => ?_, t, c, hc, ?_⟩
    · rw [hput, hasAmount_put]
    · by_cases hu : u = t
      · subst hu
        rw [hput, get_put, hrows]
        rfl
      · rw [hput, get_put_of_ne s _ hu]
        have hnone : r.columnIn? s u = none := by
          refine Option.eq_none_iff_forall_ne_some.2 fun d hd => hu ?_
          exact Except.ok.inj ((columnIn?_eq_some.1 hd).1.symm.trans htable)
        have hfill : r.fill s = (id : Numbered u.Row → Numbered u.Row) :=
          funext fun row => by rw [fill, hnone, id]
        rw [hfill, List.map_id_fun, Option.map_id_fun, id]
    · rw [hn, hrows]
      rfl
  · cases h

/-- Rules leave the tables that they are not declared for. -/
theorem fillAll_of_ne (hrules : ∀ r ∈ rules, r.IsDeclared) (hmovie : t ≠ .movie)
    (hratings : t ≠ .ratings) (row : Numbered t.Row) : fillAll s rules row = row := by
  induction rules generalizing row with
  | nil => rfl
  | cons r rest ih =>
    obtain ⟨hr, hrest⟩ := List.forall_mem_cons.1 hrules
    have hnone : r.columnIn? s t = none := Option.eq_none_iff_forall_ne_some.2 fun c hc =>
      (hr.table hc).elim hmovie hratings
    rw [fillAll_cons, fill, hnone]
    exact ih hrest row

/-- Rules for one table have one name only if they are for one column. -/
theorem eq_of_name {q : Rule} (hr : r.IsDeclared) (hq : q.IsDeclared) (h : q.name = r.name) :
    q.table = r.table ∧ q.column = r.column := by
  rw [name, name, ← String.toList_inj] at h
  simp only [String.toList_append] at h
  rcases hr with hr | hr <;> rcases hq with hq | hq <;> rw [hr, hq] at h ⊢
  · simpa [← String.toList_inj] using h
  · simp at h
  · simp at h
  · simpa [← String.toList_inj] using h

end Rule

section runs

variable {r : Rule} {rules before after : List Rule} {counts counts' : Fields}

theorem appliedAll_append : AppliedAll (before ++ after) counts s counts' s' ↔
    ∃ reached t, AppliedAll before counts s reached t ∧ AppliedAll after reached t counts' s' := by
  induction before generalizing counts s with
  | nil =>
    constructor
    · exact fun h => ⟨counts, s, ⟨rfl, rfl⟩, h⟩
    · rintro ⟨_, _, ⟨rfl, rfl⟩, h⟩
      exact h
  | cons r rest ih =>
    constructor
    · rintro ⟨n, t, happly, h⟩
      obtain ⟨reached, u, hrest, h⟩ := ih.1 h
      exact ⟨reached, u, ⟨n, t, happly, hrest⟩, h⟩
    · rintro ⟨reached, u, ⟨n, t, happly, hrest⟩, h⟩
      exact ⟨n, t, happly, ih.2 ⟨reached, u, hrest, h⟩⟩

/-- Rules answer under their own names. -/
theorem get?_of_appliedAll {name : String} (h : AppliedAll rules counts s counts' s')
    (hname : ∀ r ∈ rules, r.name ≠ name) : counts'.get? name = counts.get? name := by
  induction rules generalizing counts s with
  | nil => rw [h.1]
  | cons r rest ih =>
    obtain ⟨n, t, -, h⟩ := h
    obtain ⟨hr, hrest⟩ := List.forall_mem_cons.1 hname
    rw [ih h hrest, Fields.get?_put_of_ne _ _ hr.symm]

/-- Rules fill every row of every table, one after the other. -/
theorem get_of_appliedAll (h : AppliedAll rules counts s counts' s') :
    s'.hasAmount = s.hasAmount ∧
      ∀ t, s'.get t = (s.get t).map (List.map (Rule.fillAll s rules)) := by
  induction rules generalizing counts s with
  | nil =>
    obtain ⟨-, rfl⟩ := h
    refine ⟨rfl, fun t => ?_⟩
    have hfill : (Rule.fillAll s' [] : Numbered t.Row → Numbered t.Row) = id := rfl
    rw [hfill, List.map_id_fun, Option.map_id_fun, id]
  | cons r rest ih =>
    obtain ⟨n, u, happly, h⟩ := h
    obtain ⟨hamount, hget, -⟩ := Rule.applies_of_apply happly
    obtain ⟨hamount', hget'⟩ := ih h
    refine ⟨hamount'.trans hamount, fun t => ?_⟩
    have hfill : (Rule.fillAll u rest : Numbered t.Row → Numbered t.Row) = Rule.fillAll s rest :=
      funext fun row => Rule.fillAll_congr hamount row
    rw [hget', hget, Option.map_map, List.map_comp_map, hfill]
    rfl

/-- In how many rows of a table a column differs between two stores with the same rows. -/
def changedIn (s s' : Store) (c : Column (Numbered t.Row)) : Nat :=
  (((s.get t).getD []).zip ((s'.get t).getD [])).countP fun pair =>
    c.get pair.2 ≠ c.get pair.1

/-- What rules that were applied one after the other leave, and what they answer. -/
structure Standardizes (rules : List Rule) (counts : Fields) (s s' : Store) : Prop where
  hasAmount : s'.hasAmount = s.hasAmount
  others : ∀ t, t ≠ .movie → t ≠ .ratings → s'.get t = s.get t
  /-- Rows keep their places and numbers, and a value is changed only by the first rule that finds
  it missing. -/
  rows : ∀ t, ∃ f, s'.get t = (s.get t).map (List.map f) ∧
    ∀ row : Numbered t.Row, (f row).number = row.number ∧
      ∀ name c, s.column? t name = .ok c → Rule.Settles rules s c row (f row)
  found : ∀ r ∈ rules, ∃ t, ∃ c, r.columnIn? s t = some c
  /-- The answer under a name is that of the last rule of the name: how many values this rule finds
  missing and no rule before it does. -/
  counted : ∀ {before r after t c}, rules = before ++ r :: after →
    (∀ q ∈ after, q.name ≠ r.name) → r.columnIn? s t = some c →
      counts.get? r.name = some (.ofNat (((s.get t).getD []).countP fun row =>
        r.takes s c.name row && !before.any (·.takes s c.name row)))
  /-- A column differs in the rows in which some rule finds it missing. -/
  differs : ∀ t name c, s.column? t name = .ok c →
    changedIn s s' c = ((s.get t).getD []).countP fun row => rules.any (·.takes s c.name row)
  /-- A rule that is alone for its column answers in how many rows this differs. -/
  alone : ∀ {before r after t c}, rules = before ++ r :: after →
    (∀ q ∈ before ++ after, q.columnIn? s t ≠ some c) → r.columnIn? s t = some c →
      counts.get? r.name = some (.ofNat (changedIn s s' c))
  unnamed : ∀ name, (∀ r ∈ rules, r.name ≠ name) → counts.get? name = none

theorem changedIn_of_get (hrules : ∀ r ∈ rules, r.IsDeclared)
    (hget : s'.get t = (s.get t).map (List.map (Rule.fillAll s rules)))
    {c : Column (Numbered t.Row)} (hc : IsColumn t c) :
    changedIn s s' c = ((s.get t).getD []).countP fun row =>
      rules.any (·.takes s c.name row) := by
  have hrows : (s'.get t).getD [] = ((s.get t).getD []).map (Rule.fillAll s rules) :=
    hget ▸ Option.getD_map _ [] _
  rw [changedIn, hrows, ← List.map_prod_left_eq_zip, List.countP_map]
  refine List.countP_congr fun row _ => ?_
  rw [Function.comp_apply, decide_eq_true_eq]
  exact Rule.get_fillAll_ne_iff hrules hc row

theorem counted_of_appliedAll (hrules : ∀ q ∈ before ++ r :: after, q.IsDeclared)
    (h : AppliedAll (before ++ r :: after) counts s counts' s')
    (hname : ∀ q ∈ after, q.name ≠ r.name) {c : Column (Numbered t.Row)}
    (hc : r.columnIn? s t = some c) :
    counts'.get? r.name = some (.ofNat (((s.get t).getD []).countP fun row =>
      r.takes s c.name row && !before.any (·.takes s c.name row))) := by
  obtain ⟨reached, u, hbefore, n, v, happly, hafter⟩ := appliedAll_append.1 h
  obtain ⟨hamount, hget⟩ := get_of_appliedAll hbefore
  obtain ⟨-, -, t', c', hc', rfl⟩ := Rule.applies_of_apply happly
  rw [Rule.columnIn?_congr hamount] at hc'
  obtain rfl : t = t' := Except.ok.inj
    ((Rule.columnIn?_eq_some.1 hc).1.symm.trans (Rule.columnIn?_eq_some.1 hc').1)
  obtain rfl : c = c' := Option.some.inj (hc.symm.trans hc')
  have hrows : (u.get t).getD [] = ((s.get t).getD []).map (Rule.fillAll s before) :=
    hget t ▸ Option.getD_map _ [] _
  have hselects (row : Numbered t.Row) := Rule.selects_fillAll (s := s)
    (fun q hq => hrules q (List.mem_append_left _ hq)) hc row
  rw [get?_of_appliedAll hafter hname, Fields.get?_put_self, hrows, List.countP_map]
  simp only [Function.comp_def, hselects]

theorem standardizes_of_appliedAll (hrules : ∀ r ∈ rules, r.IsDeclared)
    (h : AppliedAll rules [] s counts s') : Standardizes rules counts s s' := by
  obtain ⟨hamount, hget⟩ := get_of_appliedAll h
  have hchanged {t : Table} {c : Column (Numbered t.Row)} (hc : IsColumn t c) :=
    changedIn_of_get hrules (hget t) hc
  refine ⟨hamount, fun t hmovie hratings => ?_, fun t => ⟨Rule.fillAll s rules, hget t, ?_⟩, ?_,
    ?_, ?_, ?_, fun name hname => ?_⟩
  · have hfill : (Rule.fillAll s rules : Numbered t.Row → Numbered t.Row) = id :=
      funext (Rule.fillAll_of_ne hrules hmovie hratings)
    rw [hget, hfill, List.map_id_fun, Option.map_id_fun, id]
  · exact fun row => ⟨Rule.number_fillAll hrules row, fun name c hc =>
      Rule.settles_fillAll hrules (isColumn_of_column? hc) row⟩
  · intro r hr
    obtain ⟨before, after, rfl⟩ := List.append_of_mem hr
    obtain ⟨_, u, hbefore, n, v, happly, -⟩ := appliedAll_append.1 h
    obtain ⟨-, -, t, c, hc, -⟩ := Rule.applies_of_apply happly
    rw [Rule.columnIn?_congr (get_of_appliedAll hbefore).1] at hc
    exact ⟨t, c, hc⟩
  · rintro before r after t c rfl hname hc
    exact counted_of_appliedAll hrules h hname hc
  · exact fun t name c hc => hchanged (isColumn_of_column? hc)
  · rintro before r after t c rfl hother hc
    have hcolumn := Rule.isColumn_of_columnIn? hc
    have htakes : ∀ q ∈ before ++ after, ∀ row, q.takes s c.name row = false := fun q hq row =>
      Bool.eq_false_iff.2 fun htakes => hother q hq (Rule.exists_of_takes hcolumn htakes).1
    have hname : ∀ q ∈ after, q.name ≠ r.name := by
      intro q hq hname
      refine hother q (List.mem_append_right _ hq) ?_
      obtain ⟨htable, hcol⟩ := Rule.eq_of_name (hrules r (by simp)) (hrules q (by simp [hq])) hname
      rw [← hc, Rule.columnIn?, Rule.columnIn?, htable, hcol]
    have hnone (row : Numbered t.Row) : before.any (·.takes s c.name row) = false ∧
        after.any (·.takes s c.name row) = false := by
      rw [← Bool.or_eq_false_iff, ← List.any_append]
      exact List.any_eq_false.2 fun q hq => Bool.eq_false_iff.1 (htakes q hq row)
    rw [counted_of_appliedAll hrules h hname hc, hchanged hcolumn]
    simp only [List.any_append, List.any_cons, hnone, Bool.not_false, Bool.and_true,
      Bool.false_or, Bool.or_false]
  · exact get?_of_appliedAll h hname

end runs

section worlds

variable {logger : Journal.Logger} {rules : List Rule} {counts : Fields} {w w' : World}

/-- The rules that are given, or none to ask for the standard ones. -/
def Rule.given (rules : Option (List Rule)) : Option Json :=
  rules.map fun rules => .array (rules.map Rule.toJson)

theorem Rule.read_toJson (r : Rule) : Rule.read r.toJson = .ok r := by
  obtain ⟨table, column, isText⟩ := r
  cases isText <;> rfl

/-- Standardization by given rules. -/
def standardizeWith (logger : Journal.Logger) (rules : List Rule) : Act Fields := do
  let counts ← Act.inTransaction "normalizer.standardize" (applyRules [] (rules.map .ok))
  Act.log (logger.withContext [("stage", .string "standardization")]) .info
    "missing values standardized" [("updated", .object counts)]
  pure counts

theorem standardizeBy_given (logger : Journal.Logger) (rules : Option (List Rule)) :
    standardizeBy logger (Rule.given rules) =
      standardizeWith logger (rules.getD Rule.standard) := by
  cases rules with
  | none => rfl
  | some rules =>
    have hread : Rule.readAll (.array (rules.map Rule.toJson)) = .ok (rules.map .ok) := by
      rw [Rule.readAll, List.map_map]
      exact congrArg _ (List.map_congr_left fun r _ => Rule.read_toJson r)
    change (do
      let counts ← Act.inTransaction "normalizer.standardize" do
        applyRules [] (← raising (Rule.readAll (.array (rules.map Rule.toJson))))
      _) = _
    rw [hread]
    rfl

theorem computes_standardizeWith (logger : Journal.Logger) (rules : List Rule) :
    Computes (standardizeWith logger rules) (AppliedAll rules []) := by
  have hrules := (computes_applyRules [] rules).inTransaction "normalizer.standardize"
  refine (hrules.bind fun counts => (Computes.log _ _ _ _).bind fun _ =>
    Computes.pure counts).of_iff fun s counts s' => ?_
  constructor
  · rintro ⟨_, t, happlied, -, _, rfl, rfl, rfl⟩
    exact happlied
  · intro happlied
    exact ⟨counts, s', happlied, ⟨⟩, s', rfl, rfl, rfl⟩

/-- Rules are applied only where rows can be written. -/
theorem demands_standardizeWith (hne : rules ≠ []) : Demands (standardizeWith logger rules) := by
  cases rules with
  | nil => exact absurd rfl hne
  | cons r rest =>
    refine Demands.andThen (Demands.inTransaction ?_ _) _
    exact ((Demands.change r.apply).reporting _).andThen _

theorem appliedAll_of_on_standardizeWith
    (h : (standardizeWith logger rules).on w = (.ok counts, w')) :
    AppliedAll rules [] w.data counts w'.data := by
  have hcomputes := computes_standardizeWith logger rules
  by_cases hw : w.Ready
  · exact hcomputes.of_on hw h
  · obtain rfl : rules = [] :=
      not_not.1 fun hne => hw (demands_standardizeWith hne w w' counts h)
    have hdata := hcomputes.orderly.idle (w := w) trivial hw
    rw [h] at hdata
    obtain ⟨answered, v, htransaction, h⟩ := on_bind_eq_ok.1 h
    obtain ⟨u, u', happlied, -, -⟩ := exists_on_of_inTransaction htransaction
    obtain rfl : [] = answered := Except.ok.inj (Prod.mk.inj happlied).1
    obtain ⟨⟨⟩, x, -, hpure⟩ := on_bind_eq_ok.1 h
    exact ⟨(Except.ok.inj (Prod.mk.inj hpure).1).symm, hdata⟩

/-- Whatever the world and the rules for movies and ratings, standardization that succeeds changes
no value but those that a rule finds missing. It answers under the name of a rule how many values
the last rule of this name filled, which is the number of rows in which the column differs where the
rule is alone for its column. -/
theorem standardizes_of_on_standardizeBy {given : Option (List Rule)}
    (hrules : ∀ r ∈ given.getD Rule.standard, r.IsDeclared)
    (h : (standardizeBy logger (Rule.given given)).on w = (.ok counts, w')) :
    Standardizes (given.getD Rule.standard) counts w.data w'.data := by
  rw [standardizeBy_given] at h
  exact standardizes_of_appliedAll hrules (appliedAll_of_on_standardizeWith h)

/-- A movie without a country. -/
def countryless : Store :=
  { blank with
    movie := some [⟨1, { blankRow .movie with id := some "tt1", title := "One" }⟩] }

/-- Where a rule is given twice, the second finds nothing to fill, and its answer is the one that
is left, although the column differs in one row. -/
theorem standardizes_of_on_standardizeBy_repeated : ∃ counts w',
    (∀ r ∈ [countryGap.rule, countryGap.rule], r.IsDeclared) ∧
    (standardizeBy .quiet (Rule.given (some [countryGap.rule, countryGap.rule]))).on
      (World.inMemory countryless []) = (.ok counts, w') ∧
    Standardizes [countryGap.rule, countryGap.rule] counts countryless w'.data ∧
    counts.get? "movie.country" = some (.ofNat 0) ∧
    changedIn countryless w'.data countryGap.column.numbered = 1 := by
  have hrules : ∀ r ∈ [countryGap.rule, countryGap.rule], r.IsDeclared := by
    simp only [List.forall_mem_cons, List.not_mem_nil, false_implies, implies_true, and_true]
    exact ⟨Or.inl rfl, Or.inl rfl⟩
  have hreturns : (standardizeBy .quiet
      (Rule.given (some [countryGap.rule, countryGap.rule]))).returns
      (World.inMemory countryless []) (fun _ _ => true) = true := by decide +kernel
  obtain ⟨counts, w', hon, -⟩ := exists_on_of_returns hreturns
  have hstandardizes : Standardizes [countryGap.rule, countryGap.rule] counts countryless w'.data :=
    standardizes_of_on_standardizeBy (by exact hrules) hon
  have hgap := lawful_movieGaps countryGap List.mem_cons_self
  have hcolumn := hgap.column countryless rfl
  have hc : countryGap.rule.columnIn? countryless .movie = some countryGap.column.numbered :=
    Rule.columnIn?_eq_some.2 ⟨hgap.named, hcolumn⟩
  have hsplit : [countryGap.rule, countryGap.rule] = [countryGap.rule] ++ countryGap.rule :: [] :=
    rfl
  have htold := hstandardizes.counted hsplit (List.forall_mem_nil _) hc
  have hdiffers := hstandardizes.differs .movie _ _ hcolumn
  simp only [List.any_cons, List.any_nil, Bool.or_false, Bool.or_self, Rule.takes_eq hc,
    Bool.and_not_self, List.countP_false] at htold hdiffers
  exact ⟨counts, w', hrules, hon, hstandardizes, htold, hdiffers⟩

end worlds

end FilmReport.Normalize
