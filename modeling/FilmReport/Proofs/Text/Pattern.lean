import Mathlib.Data.List.Infix
import FilmReport.Text.Pattern
import FilmReport.Text.Pieces

/-!
A word between two wildcards matches the texts that hold it. A word without separators and blanks is
in a text just where it is in one of its parts, and in a part just where it is in what is left of
the part without blank edges.
-/

set_option autoImplicit false
set_option relaxedAutoImplicit false

namespace FilmReport.Text

section Infix

variable {α : Type} {x : α} {part a b core left right : List α}

theorem prefix_append_cons_iff (h : x ∉ part) : part <+: a ++ x :: b ↔ part <+: a := by
  refine ⟨fun hpart => ?_, fun hpart => hpart.trans (List.prefix_append a _)⟩
  rcases Nat.lt_or_ge a.length part.length with hlong | hshort
  · have hfront : a ++ [x] <+: part :=
      List.prefix_of_prefix_length_le ⟨b, by simp⟩ hpart (by rwa [List.length_append])
    exact absurd (hfront.subset (by simp)) h
  · exact List.prefix_of_prefix_length_le hpart (List.prefix_append a _) hshort

/-- What is without an element stands before or after it. -/
theorem infix_append_cons_iff (h : x ∉ part) :
    part <:+: a ++ x :: b ↔ part <:+: a ∨ part <:+: b := by
  induction a with
  | nil =>
    have hfront := prefix_append_cons_iff (a := []) (b := b) h
    rw [List.nil_append] at hfront
    rw [List.nil_append, List.infix_cons_iff, hfront, List.prefix_nil, List.infix_nil]
  | cons c rest ih =>
    rw [List.cons_append, List.infix_cons_iff, ih, ← List.cons_append, prefix_append_cons_iff h,
      List.infix_cons_iff, or_assoc]

theorem infix_append_left_iff (hleft : ∀ c ∈ left, c ∉ part) :
    part <:+: left ++ core ↔ part <:+: core := by
  induction left with
  | nil => rfl
  | cons c rest ih =>
    rw [List.forall_mem_cons] at hleft
    have hcons := infix_append_cons_iff (a := []) (b := rest ++ core) hleft.1
    rw [List.nil_append] at hcons
    rw [List.cons_append, hcons, ih hleft.2, List.infix_nil]
    exact or_iff_right_of_imp fun hnil => hnil ▸ List.nil_infix

theorem infix_append_right_iff (hright : ∀ c ∈ right, c ∉ part) :
    part <:+: core ++ right ↔ part <:+: core := by
  rw [← List.reverse_infix, List.reverse_append, infix_append_left_iff, List.reverse_infix]
  simpa using hright

end Infix

section Words

variable {separator : Char} {word cs : List Char}

theorem infix_joined_iff (h : separator ∉ word) : ∀ {parts : List (List Char)}, parts ≠ [] →
    (word <:+: joined separator parts ↔ ∃ part ∈ parts, word <:+: part)
  | [], hne => absurd rfl hne
  | [part], _ => by simp [joined]
  | part :: second :: rest, _ => by
    rw [joined_cons _ (List.cons_ne_nil second rest), infix_append_cons_iff h,
      infix_joined_iff h (List.cons_ne_nil second rest)]
    simp

/-- A word without separators is in a list just where it is in one of the pieces. -/
theorem infix_iff_exists_piece (h : separator ∉ word) :
    word <:+: cs ↔ ∃ piece ∈ pieces separator cs, word <:+: piece := by
  rw [← infix_joined_iff h (pieces_ne_nil separator cs), joined_pieces]

/-- A word without blanks is in a list just where it is in the list without its blank edges. -/
theorem infix_trimList_iff {p : Char → Bool} (h : ∀ c ∈ word, p c = false) :
    word <:+: trimList p cs ↔ word <:+: cs := by
  obtain ⟨left, right, hcs, hleft, hright⟩ := exists_edges_trimList p cs
  have hout : ∀ c, p c = true → c ∉ word := fun c hc hmem => by simp [h c hmem] at hc
  conv_rhs => rw [hcs]
  rw [infix_append_right_iff fun c hc => hout c (hright c hc),
    infix_append_left_iff fun c hc => hout c (hleft c hc)]

end Words

section Like

variable {word cs : List Char}

/-- The same letters up to the case of ASCII letters. -/
def Reads (word part : List Char) : Prop :=
  part.map Char.toLower = word.map Char.toLower

theorem likeList_wildcard (cs : List Char) : likeList ['%'] cs = true := by
  induction cs with
  | nil => simp [likeList]
  | cons c rest ih => simp [likeList, ih]

/-- A word before a wildcard matches the lists that begin with it. -/
theorem likeList_append_wildcard (h : '%' ∉ word) :
    likeList (word ++ ['%']) cs = true ↔ ∃ part, part <+: cs ∧ Reads word part := by
  induction word generalizing cs with
  | nil => simp [likeList_wildcard, Reads]
  | cons x rest ih =>
    rw [List.mem_cons, not_or] at h
    cases cs with
    | nil =>
      simp [likeList, Ne.symm h.1, Reads]
    | cons c cs =>
      have hstep : likeList (x :: (rest ++ ['%'])) (c :: cs) =
          (sameLetter x c && likeList (rest ++ ['%']) cs) := by
        rw [likeList]
        exact Ne.symm h.1
      rw [List.cons_append, hstep, Bool.and_eq_true, ih h.2, sameLetter, beq_iff_eq]
      constructor
      · rintro ⟨hletter, part, hpart, hreads⟩
        refine ⟨c :: part, List.cons_prefix_cons.2 ⟨rfl, hpart⟩, ?_⟩
        rw [Reads, List.map_cons, List.map_cons, hletter, hreads]
      · rintro ⟨part, hpart, hreads⟩
        cases part with
        | nil => simp [Reads] at hreads
        | cons d part =>
          obtain ⟨rfl, hrest⟩ := List.cons_prefix_cons.1 hpart
          rw [Reads, List.map_cons, List.map_cons, List.cons.injEq] at hreads
          exact ⟨hreads.1.symm, part, hrest, hreads.2⟩

theorem likeList_wildcard_cons {pattern : List Char} :
    likeList ('%' :: pattern) cs = true ↔ ∃ rest, rest <:+ cs ∧ likeList pattern rest = true := by
  induction cs with
  | nil => simp [likeList]
  | cons c rest ih =>
    rw [likeList, Bool.or_eq_true, ih]
    simp only [List.suffix_cons_iff, or_and_right, exists_or, exists_eq_left]

/-- Whether a list holds a word, up to the case of ASCII letters. -/
def Holds (word cs : List Char) : Prop :=
  ∃ part, part <:+: cs ∧ Reads word part

/-- A word between two wildcards matches the lists that hold it. -/
theorem likeList_between_wildcards (h : '%' ∉ word) :
    likeList ('%' :: (word ++ ['%'])) cs = true ↔ Holds word cs := by
  rw [likeList_wildcard_cons]
  simp only [likeList_append_wildcard h]
  constructor
  · rintro ⟨rest, hrest, part, hpart, hreads⟩
    exact ⟨part, hpart.isInfix.trans hrest.isInfix, hreads⟩
  · rintro ⟨part, hpart, hreads⟩
    obtain ⟨rest, hprefix, hsuffix⟩ := List.infix_iff_prefix_suffix.1 hpart
    exact ⟨rest, hsuffix, part, hprefix, hreads⟩

theorem like_iff {pattern word text : String}
    (hpattern : pattern.toList = '%' :: (word.toList ++ ['%'])) (h : '%' ∉ word.toList) :
    like pattern text = true ↔ Holds word.toList (upToNul text).toList := by
  rw [like, hpattern, likeList_between_wildcards h]

theorem Reads.notMem {part : List Char} (h : Reads word part) {c : Char}
    (hc : c.toLower ∉ word.map Char.toLower) : c ∉ part := by
  intro hmem
  rw [← h] at hc
  exact hc (List.mem_map_of_mem hmem)

theorem holds_iff_exists_piece {separator : Char}
    (h : separator.toLower ∉ word.map Char.toLower) :
    Holds word cs ↔ ∃ piece ∈ pieces separator cs, Holds word piece := by
  constructor
  · rintro ⟨part, hpart, hreads⟩
    obtain ⟨piece, hpiece, hin⟩ := (infix_iff_exists_piece (hreads.notMem h)).1 hpart
    exact ⟨piece, hpiece, part, hin, hreads⟩
  · rintro ⟨piece, hpiece, part, hin, hreads⟩
    exact ⟨part, (infix_iff_exists_piece (hreads.notMem h)).2 ⟨piece, hpiece, hin⟩, hreads⟩

theorem holds_trimList_iff {p : Char → Bool}
    (h : ∀ c, p c = true → c.toLower ∉ word.map Char.toLower) :
    Holds word (trimList p cs) ↔ Holds word cs := by
  refine exists_congr fun part => and_congr_left fun hreads => infix_trimList_iff fun c hc => ?_
  exact Bool.eq_false_iff.2 fun hblank => hreads.notMem (h c hblank) hc

end Like

end FilmReport.Text
