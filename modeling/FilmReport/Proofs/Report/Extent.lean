import Mathlib.Algebra.Order.BigOperators.Group.List
import Mathlib.Algebra.Order.Ring.Nat
import FilmReport.Report.Export

/-!
How many bytes the files of a report take at most. The bounds are generous: a character becomes six
at most in JSON and two at most in a table, and none takes more than four bytes.
-/

set_option autoImplicit false
set_option relaxedAutoImplicit false

namespace FilmReport

theorem utf8ByteSize_ofList_le (cs : List Char) :
    (String.ofList cs).utf8ByteSize ≤ 4 * cs.length := by
  induction cs with
  | nil => simp
  | cons c cs ih =>
    have hc := c.utf8Size_le_four
    rw [String.ofList_cons, String.utf8ByteSize_append, String.utf8ByteSize_singleton,
      List.length_cons]
    omega

theorem length_toList_le (s : String) : s.toList.length ≤ s.utf8ByteSize := by
  suffices ∀ cs : List Char, cs.length ≤ (String.ofList cs).utf8ByteSize by
    have h := this s.toList
    rwa [String.ofList_toList] at h
  intro cs
  induction cs with
  | nil => simp
  | cons c cs ih =>
    have hc := c.utf8Size_pos
    rw [String.ofList_cons, String.utf8ByteSize_append, String.utf8ByteSize_singleton,
      List.length_cons]
    omega

theorem utf8ByteSize_intercalate_le (separator : String) (texts : List String) :
    (separator.intercalate texts).utf8ByteSize ≤
      (texts.map fun s => s.utf8ByteSize + separator.utf8ByteSize).sum := by
  induction texts with
  | nil => simp
  | cons s texts ih =>
    cases texts with
    | nil => simp
    | cons t texts =>
      rw [String.intercalate_cons_cons, String.utf8ByteSize_append, String.utf8ByteSize_append,
        List.map_cons, List.sum_cons]
      omega

namespace Json

theorem length_escapeChar_le (c : Char) : (escapeChar c).length ≤ 6 := by
  rw [escapeChar]
  repeat' split
  all_goals simp

theorem utf8ByteSize_quote_le (s : String) :
    (quote s).utf8ByteSize ≤ 24 * s.utf8ByteSize + 2 := by
  have hchars : ∀ cs : List Char, (cs.flatMap escapeChar).length ≤ 6 * cs.length := by
    intro cs
    induction cs with
    | nil => simp
    | cons c cs ih =>
      have := length_escapeChar_le c
      rw [List.flatMap_cons, List.length_append, List.length_cons]
      omega
  have hbytes := utf8ByteSize_ofList_le (s.toList.flatMap escapeChar)
  have := hchars s.toList
  have := length_toList_le s
  have hmark : "\"".utf8ByteSize = 1 := by decide
  rw [quote, String.utf8ByteSize_append, String.utf8ByteSize_append, hmark]
  omega

theorem utf8ByteSize_lineStart_le (level : Nat) :
    (lineStart level).utf8ByteSize ≤ 8 * level + 1 := by
  have := utf8ByteSize_ofList_le (List.replicate (2 * level) ' ')
  have hend : "\n".utf8ByteSize = 1 := by decide
  rw [List.length_replicate] at this
  rw [lineStart, String.utf8ByteSize_append, hend]
  omega

mutual

/-- A bound for the bytes that a value takes at a level of indentation. -/
def extent (level : Nat) : Json → Nat
  | null => 4
  | bool _ => 5
  | number x => (numberText x).utf8ByteSize
  | string s => 24 * s.utf8ByteSize + 2
  | array items => extentItems (level + 1) items + (8 * level + 3)
  | object fields => extentFields (level + 1) fields + (8 * level + 3)

def extentItems (level : Nat) : List Json → Nat
  | [] => 0
  | item :: rest => (8 * level + 2) + extent level item + extentItems level rest

def extentFields (level : Nat) : List (String × Json) → Nat
  | [] => 0
  | (name, value) :: rest =>
    (8 * level + 2) + (24 * name.utf8ByteSize + 4) + extent level value + extentFields level rest

end

theorem marks : "[".utf8ByteSize = 1 ∧ "]".utf8ByteSize = 1 ∧ "[]".utf8ByteSize = 2 ∧
    "\x7b".utf8ByteSize = 1 ∧ "\x7d".utf8ByteSize = 1 ∧ "\x7b\x7d".utf8ByteSize = 2 ∧
    ",".utf8ByteSize = 1 ∧ ": ".utf8ByteSize = 2 := by
  decide

mutual

theorem utf8ByteSize_indented_le (level : Nat) :
    ∀ j : Json, (indented level j).utf8ByteSize ≤ extent level j
  | null => by rw [indented, extent]; decide
  | bool b => by
    rw [indented, extent]
    cases b <;> decide
  | number x => by rw [indented, extent]
  | string s => by
    rw [indented, extent]
    exact utf8ByteSize_quote_le s
  | array [] => by
    simp only [indented, extent, marks]
    omega
  | array (item :: rest) => by
    have := utf8ByteSize_indentedItems_le (level + 1) (item :: rest)
    have := utf8ByteSize_lineStart_le level
    simp only [indented, extent, String.utf8ByteSize_append, marks]
    omega
  | object [] => by
    simp only [indented, extent, marks]
    omega
  | object (field :: rest) => by
    have := utf8ByteSize_indentedFields_le (level + 1) (field :: rest)
    have := utf8ByteSize_lineStart_le level
    simp only [indented, extent, String.utf8ByteSize_append, marks]
    omega

theorem utf8ByteSize_indentedItems_le (level : Nat) :
    ∀ items : List Json, (indentedItems level items).utf8ByteSize ≤ extentItems level items
  | [] => Nat.zero_le _
  | [item] => by
    have := utf8ByteSize_indented_le level item
    have := utf8ByteSize_lineStart_le level
    simp only [indentedItems, extentItems, String.utf8ByteSize_append]
    omega
  | item :: next :: rest => by
    have := utf8ByteSize_indented_le level item
    have := utf8ByteSize_indentedItems_le level (next :: rest)
    have := utf8ByteSize_lineStart_le level
    rw [indentedItems, extentItems]
    · simp only [String.utf8ByteSize_append, marks]
      omega
    · exact List.cons_ne_nil next rest

theorem utf8ByteSize_indentedFields_le (level : Nat) :
    ∀ fields : List (String × Json),
      (indentedFields level fields).utf8ByteSize ≤ extentFields level fields
  | [] => Nat.zero_le _
  | [(name, value)] => by
    have := utf8ByteSize_quote_le name
    have := utf8ByteSize_indented_le level value
    have := utf8ByteSize_lineStart_le level
    simp only [indentedFields, extentFields, String.utf8ByteSize_append, marks]
    omega
  | (name, value) :: next :: rest => by
    have := utf8ByteSize_quote_le name
    have := utf8ByteSize_indented_le level value
    have := utf8ByteSize_indentedFields_le level (next :: rest)
    have := utf8ByteSize_lineStart_le level
    rw [indentedFields, extentFields]
    · simp only [String.utf8ByteSize_append, marks]
      omega
    · exact List.cons_ne_nil next rest

end

end Json

namespace Report.Csv

open Query (Value)

theorem length_doubleQuotes_le (cs : List Char) : (doubleQuotes cs).length ≤ 2 * cs.length := by
  induction cs with
  | nil => simp [doubleQuotes]
  | cons c cs ih =>
    rw [doubleQuotes]
    split <;> simp only [List.length_cons] <;> omega

theorem utf8ByteSize_quote_le (s : String) :
    (quote s).utf8ByteSize ≤ 8 * s.utf8ByteSize + 8 := by
  rw [quote]
  split
  · have hbytes := utf8ByteSize_ofList_le ('"' :: doubleQuotes s.toList ++ ['"'])
    have := length_doubleQuotes_le s.toList
    have := length_toList_le s
    simp only [List.cons_append, List.length_cons, List.length_append, List.length_nil] at hbytes ⊢
    omega
  · omega

/-- A bound for the bytes that rows take in a table. -/
def extent (rows : List (List Value)) : Nat :=
  (rows.map fun row => (row.map fun value => 8 * value.print.utf8ByteSize + 9).sum + 1).sum

theorem utf8ByteSize_ofRows_le (rows : List (List Value)) :
    (ofRows rows).utf8ByteSize ≤ extent rows := by
  have hfields : ∀ row ∈ rows, (record row).utf8ByteSize ≤
      (row.map fun value => 8 * value.print.utf8ByteSize + 9).sum := by
    intro row _
    refine (utf8ByteSize_intercalate_le _ _).trans ?_
    rw [List.map_map]
    exact List.sum_le_sum fun value _ => Nat.add_le_add_right (utf8ByteSize_quote_le _) 1
  refine (utf8ByteSize_intercalate_le _ _).trans ?_
  rw [List.map_map]
  exact List.sum_le_sum fun row hrow => Nat.add_le_add_right (hfields row hrow) 1

end Report.Csv

namespace Report.Batch

open Query

/-- A bound for the bytes that the table of a query takes. -/
def tableExtent (o : Runner.Outcome) : Nat :=
  match o.result with
  | .ok r => Csv.extent (r.columns.map Value.text :: r.rows.map fun row => r.columns.map row.get)
  | .error f =>
    Csv.extent [[.text "error", .text "query"],
      [.text (f.cause.getD f.message), .text o.definition.statement.text]]

theorem utf8ByteSize_table_le (o : Runner.Outcome) :
    (table o).utf8ByteSize ≤ tableExtent o := by
  rw [table, tableExtent]
  cases o.result with
  | ok r => exact Csv.utf8ByteSize_ofRows_le _
  | error f => exact Csv.utf8ByteSize_ofRows_le _

theorem utf8ByteSize_files_le {b : Batch} {stamp : String} {bound : Nat}
    (htables : b.formats.contains .csv = true → ∀ o ∈ b.outcomes, tableExtent o ≤ bound)
    (hresults : b.formats.contains .json = true → b.results.extent 0 ≤ bound)
    (hmanifest : (b.manifest stamp).extent 0 ≤ bound) :
    ∀ text ∈ b.files stamp, text.2.utf8ByteSize ≤ bound := by
  intro text htext
  rcases List.mem_append.1 htext with hfirst | hlast
  · rcases List.mem_append.1 hfirst with htable | hjson
    · split at htable
      · next hcsv =>
        obtain ⟨o, ho, rfl⟩ := List.mem_map.1 htable
        exact (utf8ByteSize_table_le o).trans (htables hcsv o ho)
      · cases htable
    · split at hjson
      · next hlisted =>
        obtain rfl := List.mem_singleton.1 hjson
        exact (Json.utf8ByteSize_indented_le 0 _).trans (hresults hlisted)
      · cases hjson
  · obtain rfl := List.mem_singleton.1 hlast
    exact (Json.utf8ByteSize_indented_le 0 _).trans hmanifest

end Report.Batch
end FilmReport
