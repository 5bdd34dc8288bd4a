import FilmReport.Report.Csv

/-!
Reading of comma-separated text. The reader goes through the characters once: commas end fields,
line feeds end records, and a field that begins with a quote goes on to the quote that is not
doubled. What is written is read back field by field (`read_written`).
-/

set_option autoImplicit false
set_option relaxedAutoImplicit false

namespace FilmReport.Report.Csv

open Query (Value Result)

/-- Where a reader stands in a field. -/
inductive Position where
  /-- Before its first character. -/
  | start
  /-- Within a field that has no quotes around it. -/
  | bare
  | quoted
  /-- After a quote within a quoted field, which ends there unless the quote is doubled. -/
  | closing
deriving DecidableEq, Repr

/-- What is read from some place on: the rest of a field, the fields after it in its record and the
records after this one. -/
structure Reading where
  field : List Char
  fields : List String
  records : List (List String)
deriving DecidableEq, Repr

namespace Reading

def empty : Reading := ⟨[], [], []⟩

/-- One more character before all that was read. -/
def push (c : Char) (r : Reading) : Reading :=
  { r with field := c :: r.field }

/-- The fields from the one that is being read on. -/
def record (r : Reading) : List String :=
  String.ofList r.field :: r.fields

/-- What was read, after a comma. -/
def comma (r : Reading) : Reading :=
  ⟨[], r.record, r.records⟩

/-- What was read, after the end of a record. -/
def lineFeed (r : Reading) : Reading :=
  ⟨[], [], r.record :: r.records⟩

end Reading

/-- Reads characters; a quote that neither opens nor closes a field makes the text unreadable, and
so does one that is never closed. -/
def scan : Position → List Char → Option Reading
  | .quoted, [] => none
  | _, [] => some .empty
  | .quoted, c :: cs => if c = '"' then scan .closing cs else (scan .quoted cs).map (.push c)
  | .closing, c :: cs =>
    if c = '"' then (scan .quoted cs).map (.push c)
    else if c = ',' then (scan .start cs).map .comma
    else if c = '\n' then (scan .start cs).map .lineFeed
    else none
  | .start, c :: cs =>
    if c = '"' then scan .quoted cs
    else if c = ',' then (scan .start cs).map .comma
    else if c = '\n' then (scan .start cs).map .lineFeed
    else (scan .bare cs).map (.push c)
  | .bare, c :: cs =>
    if c = '"' then none
    else if c = ',' then (scan .start cs).map .comma
    else if c = '\n' then (scan .start cs).map .lineFeed
    else (scan .bare cs).map (.push c)

/-- The records of a text, if it can be read. -/
def read (s : String) : Option (List (List String)) :=
  (scan .start s.toList).map fun r => r.record :: r.records

/-- Characters before all that was read. -/
def Reading.prepend (cs : List Char) (r : Reading) : Reading :=
  { r with field := cs ++ r.field }

/-- What can stand after a field. -/
def IsEnd (cs : List Char) : Prop :=
  cs = [] ∨ ∃ c rest, cs = c :: rest ∧ (c = ',' ∨ c = '\n')

theorem IsEnd.scan_eq {cs : List Char} (h : IsEnd cs) {p : Position} (hp : p ≠ .quoted) :
    scan p cs = scan .start cs := by
  rcases h with rfl | ⟨c, rest, rfl, rfl | rfl⟩ <;> cases p <;> first | rfl | exact absurd rfl hp

theorem push_prepend (c : Char) (cs : List Char) :
    Reading.push c ∘ Reading.prepend cs = Reading.prepend (c :: cs) := rfl

theorem scan_bare_append {cs rest : List Char} (hcs : cs.any isSpecial = false)
    (hrest : IsEnd rest) :
    scan .bare (cs ++ rest) = (scan .start rest).map (.prepend cs) := by
  induction cs with
  | nil => exact (hrest.scan_eq (by decide)).trans Option.map_id'.symm
  | cons c cs ih =>
    rw [List.any_cons, Bool.or_eq_false_iff] at hcs
    obtain ⟨hc, hcs⟩ := hcs
    simp only [isSpecial, Bool.or_eq_false_iff, beq_eq_false_iff_ne] at hc
    rw [List.cons_append, scan, if_neg hc.1.1.2, if_neg hc.1.1.1, if_neg hc.1.2, ih hcs,
      Option.map_map, push_prepend]

theorem scan_quoted_append (cs : List Char) {rest : List Char} (hrest : IsEnd rest) :
    scan .quoted (doubleQuotes cs ++ '"' :: rest) = (scan .start rest).map (.prepend cs) := by
  induction cs with
  | nil =>
    rw [doubleQuotes, List.nil_append, scan, if_pos rfl, hrest.scan_eq (by decide)]
    exact Option.map_id'.symm
  | cons c cs ih =>
    rw [doubleQuotes]
    split
    · next hc =>
      subst hc
      rw [List.cons_append, List.cons_append, scan, if_pos rfl, scan, if_pos rfl, ih,
        Option.map_map, push_prepend]
    · next hc =>
      rw [List.cons_append, scan, if_neg hc, ih, Option.map_map, push_prepend]

/-- A field is read back, whatever comes after it. -/
theorem scan_quote_append (s : String) {rest : List Char} (hrest : IsEnd rest) :
    scan .start ((quote s).toList ++ rest) = (scan .start rest).map (.prepend s.toList) := by
  rw [quote]
  split
  · rw [String.toList_ofList, List.cons_append, List.cons_append, List.append_assoc, scan,
      if_pos rfl]
    exact scan_quoted_append _ hrest
  · next hany =>
    rw [Bool.not_eq_true] at hany
    rw [← scan_bare_append hany hrest]
    cases hs : s.toList with
    | nil => exact (hrest.scan_eq (by decide)).symm
    | cons c cs =>
      rw [hs, List.any_cons, Bool.or_eq_false_iff, isSpecial] at hany
      simp only [Bool.or_eq_false_iff, beq_eq_false_iff_ne] at hany
      have hquote : c ≠ '"' := hany.1.1.1.2
      rw [List.cons_append, scan, scan, if_neg hquote, if_neg hquote]

theorem toList_record_cons (value : Value) {values : List Value} (h : values ≠ []) :
    (record (value :: values)).toList = (field value).toList ++ ',' :: (record values).toList := by
  rw [record, record, String.toList_intercalate, String.toList_intercalate, List.map_cons,
    List.map_cons, List.intercalate_cons_of_ne_nil]
  · simp
  · simpa using h

theorem toList_ofRows_cons (row : List Value) {rows : List (List Value)} (h : rows ≠ []) :
    (ofRows (row :: rows)).toList = (record row).toList ++ '\n' :: (ofRows rows).toList := by
  rw [ofRows, ofRows, String.toList_intercalate, String.toList_intercalate, List.map_cons,
    List.map_cons, List.intercalate_cons_of_ne_nil]
  · simp
  · simpa using h

theorem exists_scan_record {values : List Value} (h : values ≠ []) {rest : List Char}
    {records : List (List String)} (hend : IsEnd rest)
    (hrest : scan .start rest = some ⟨[], [], records⟩) :
    ∃ r, scan .start ((record values).toList ++ rest) = some r ∧
      r.record = values.map Value.print ∧ r.records = records := by
  induction values with
  | nil => exact absurd rfl h
  | cons value values ih =>
    by_cases hvalues : values = []
    · subst hvalues
      have hfield : record [value] = field value := rfl
      refine ⟨Reading.prepend value.print.toList ⟨[], [], records⟩, ?_, ?_, rfl⟩
      · rw [hfield, field, scan_quote_append _ hend, hrest]
        rfl
      · simp [Reading.record, Reading.prepend]
    · obtain ⟨r, hscan, hrecord, hrecords⟩ := ih hvalues
      have hcomma : IsEnd (',' :: ((record values).toList ++ rest)) := .inr ⟨_, _, rfl, .inl rfl⟩
      refine ⟨r.comma.prepend value.print.toList, ?_, ?_, hrecords⟩
      · rw [toList_record_cons value hvalues, List.append_assoc, field, List.cons_append,
          scan_quote_append _ hcomma, scan, if_neg (by decide), if_pos rfl, hscan]
        rfl
      · simp [Reading.record, Reading.prepend, Reading.comma, ← hrecord]

/-- What is written is read back, record by record. -/
theorem read_ofRows {rows : List (List Value)} (h : rows ≠ []) (hrows : ∀ row ∈ rows, row ≠ []) :
    read (ofRows rows) = some (rows.map fun row => row.map Value.print) := by
  suffices ∃ r, scan .start (ofRows rows).toList = some r ∧
      r.record :: r.records = rows.map fun row => row.map Value.print by
    obtain ⟨r, hscan, hr⟩ := this
    rw [read, hscan, Option.map_some, hr]
  induction rows with
  | nil => exact absurd rfl h
  | cons row rest ih =>
    have hrow : row ≠ [] := hrows row List.mem_cons_self
    by_cases hrest : rest = []
    · subst hrest
      obtain ⟨r, hscan, hrecord, hrecords⟩ := exists_scan_record hrow (.inl rfl) rfl
      rw [List.append_nil] at hscan
      exact ⟨r, hscan, by rw [hrecord, hrecords]; rfl⟩
    · obtain ⟨r', hscan', hr'⟩ := ih hrest fun row' hmem => hrows row' (List.mem_cons_of_mem _ hmem)
      have hline : scan .start ('\n' :: (ofRows rest).toList) =
          some ⟨[], [], r'.record :: r'.records⟩ := by
        rw [scan, if_neg (by decide), if_neg (by decide), if_pos rfl, hscan']
        rfl
      obtain ⟨r, hscan, hrecord, hrecords⟩ :=
        exists_scan_record hrow (.inr ⟨_, _, rfl, .inr rfl⟩) hline
      rw [← toList_ofRows_cons row hrest] at hscan
      exact ⟨r, hscan, by rw [hrecord, hrecords, hr']; rfl⟩

/-- The table of a result is read as its columns and its rows. -/
theorem read_ofResult {r : Result} (h : r.columns ≠ []) :
    read (ofResult r) =
      some (r.columns :: r.rows.map fun row => r.columns.map fun c => (row.get c).print) := by
  rw [ofResult, read_ofRows (List.cons_ne_nil _ _)]
  · simp [Function.comp_def, Value.print]
  · rintro row hrow
    rcases List.mem_cons.1 hrow with rfl | hrow
    · simpa using h
    · obtain ⟨_, -, rfl⟩ := List.mem_map.1 hrow
      simpa using h

/-- The table of a failed query is read as its cause and its statement. -/
theorem read_ofError (message sql : String) :
    read (ofError message sql) = some [["error", "query"], [message, sql]] := by
  rw [ofError, read_ofRows (List.cons_ne_nil _ _)]
  · rfl
  · simp

/-- Nothing is lost in a written text: the reader finds all rows with their cells as they are
printed, and of a result its columns and its rows in their order. -/
theorem read_written :
    (∀ rows : List (List Value), rows ≠ [] → (∀ row ∈ rows, row ≠ []) →
      read (ofRows rows) = some (rows.map fun row => row.map Value.print)) ∧
    ∀ r : Result, r.columns ≠ [] →
      read (ofResult r) =
        some (r.columns :: r.rows.map fun row => r.columns.map fun c => (row.get c).print) :=
  ⟨fun _ h hrows => read_ofRows h hrows, fun _ h => read_ofResult h⟩

/-- Rows with separators in their texts, a single empty cell, and a result whose row lacks one of
its columns. -/
theorem read_written_separators :
    read (ofRows [[.text "a,\"b\"\r\n", .null, .number (.finite 7)], [.null], [.text ""]]) =
      some [["a,\"b\"\r\n", "", "7"], [""], [""]] ∧
    read (ofResult ⟨"Q08", 1, "Pairs", ["x", "y"], [[("y", .text "p,q")]]⟩) =
      some [["x", "y"], ["", "p,q"]] := by
  refine ⟨(read_written.1 _ (by decide) (by decide)).trans ?_,
    (read_written.2 _ (by decide)).trans ?_⟩
  · decide +kernel
  · decide +kernel

end FilmReport.Report.Csv
