/-!
Texts cut at a separator. There is one piece more than there are separators, and joining the pieces
gives the text back.
-/

set_option autoImplicit false
set_option relaxedAutoImplicit false

namespace FilmReport.Text

/-- The pieces of a list between its separators. -/
def pieces (separator : Char) : List Char → List (List Char)
  | [] => [[]]
  | c :: cs =>
    if c = separator then [] :: pieces separator cs
    else match pieces separator cs with
      | [] => [[c]]
      | piece :: rest => (c :: piece) :: rest

theorem pieces_ne_nil (separator : Char) (cs : List Char) : pieces separator cs ≠ [] := by
  cases cs with
  | nil => simp [pieces]
  | cons c cs =>
    rw [pieces]
    split
    · simp
    · split <;> simp

theorem pieces_cons_separator (separator : Char) (cs : List Char) :
    pieces separator (separator :: cs) = [] :: pieces separator cs := by
  rw [pieces, if_pos rfl]

theorem pieces_cons_of_ne {separator c : Char} (h : c ≠ separator) {cs piece : List Char}
    {rest : List (List Char)} (hcs : pieces separator cs = piece :: rest) :
    pieces separator (c :: cs) = (c :: piece) :: rest := by
  rw [pieces, if_neg h, hcs]

/-- There is one piece more than there are separators. -/
theorem length_pieces (separator : Char) (cs : List Char) :
    (pieces separator cs).length = cs.count separator + 1 := by
  induction cs with
  | nil => rfl
  | cons c cs ih =>
    by_cases h : c = separator
    · subst h
      rw [pieces_cons_separator, List.length_cons, ih, List.count_cons_self]
    · obtain ⟨piece, rest, hcs⟩ := List.exists_cons_of_ne_nil (pieces_ne_nil separator cs)
      rw [hcs] at ih
      rw [pieces_cons_of_ne h hcs, List.count_cons_of_ne h]
      exact ih

/-- No piece holds a separator. -/
theorem separator_notMem_of_mem_pieces {separator : Char} {cs piece : List Char}
    (hpiece : piece ∈ pieces separator cs) : separator ∉ piece := by
  induction cs generalizing piece with
  | nil =>
    have hnil : piece = [] := List.mem_singleton.1 hpiece
    rw [hnil]
    exact List.not_mem_nil
  | cons c cs ih =>
    by_cases h : c = separator
    · subst h
      rw [pieces_cons_separator] at hpiece
      rcases List.mem_cons.1 hpiece with rfl | hrest
      · exact List.not_mem_nil
      · exact ih hrest
    · obtain ⟨first, rest, hcs⟩ := List.exists_cons_of_ne_nil (pieces_ne_nil separator cs)
      rw [pieces_cons_of_ne h hcs] at hpiece
      rcases List.mem_cons.1 hpiece with rfl | hrest
      · intro hmem
        rcases List.mem_cons.1 hmem with heq | hfirst
        · exact h heq.symm
        · exact ih (hcs ▸ List.mem_cons_self) hfirst
      · exact ih (hcs ▸ List.mem_cons_of_mem first hrest)

/-- Lists put together with a separator between each two. -/
def joined (separator : Char) : List (List Char) → List Char
  | [] => []
  | [piece] => piece
  | piece :: rest => piece ++ separator :: joined separator rest

theorem joined_cons {separator : Char} (piece : List Char) {rest : List (List Char)}
    (h : rest ≠ []) :
    joined separator (piece :: rest) = piece ++ separator :: joined separator rest := by
  cases rest with
  | nil => exact absurd rfl h
  | cons _ _ => rfl

/-- The pieces put together are the list. -/
theorem joined_pieces (separator : Char) (cs : List Char) :
    joined separator (pieces separator cs) = cs := by
  induction cs with
  | nil => rfl
  | cons c cs ih =>
    by_cases h : c = separator
    · subst h
      rw [pieces_cons_separator, joined_cons _ (pieces_ne_nil c cs), ih]
      rfl
    · obtain ⟨piece, rest, hcs⟩ := List.exists_cons_of_ne_nil (pieces_ne_nil separator cs)
      rw [hcs] at ih
      rw [pieces_cons_of_ne h hcs]
      cases rest with
      | nil =>
        rw [← ih]
        rfl
      | cons second more =>
        rw [joined_cons _ (List.cons_ne_nil second more)] at ih ⊢
        rw [← ih]
        rfl

/-- The texts of a text between its separators. -/
def splitAt (separator : Char) (s : String) : List String :=
  (pieces separator s.toList).map String.ofList

end FilmReport.Text
