/-!
Blank edges of a text. Missing values are recognised with the four characters space, tab, line
feed and carriage return; settings are cleaned of every white-space character of Unicode.
-/

set_option autoImplicit false
set_option relaxedAutoImplicit false

namespace FilmReport.Text

/-- The list without the elements at its two ends that satisfy `p`. -/
def trimList (p : Char → Bool) (cs : List Char) : List Char :=
  ((cs.dropWhile p).reverse.dropWhile p).reverse

/-- What `trimList` takes away at the two ends satisfies `p`. -/
theorem exists_edges_trimList (p : Char → Bool) (cs : List Char) :
    ∃ left right, cs = left ++ trimList p cs ++ right ∧
      (∀ c ∈ left, p c = true) ∧ ∀ c ∈ right, p c = true := by
  refine ⟨cs.takeWhile p, ((cs.dropWhile p).reverse.takeWhile p).reverse, ?_, ?_, ?_⟩
  · rw [trimList, List.append_assoc, ← List.reverse_append, List.takeWhile_append_dropWhile,
      List.reverse_reverse, List.takeWhile_append_dropWhile]
  · intro c hc
    exact List.all_eq_true.1 List.all_takeWhile c hc
  · intro c hc
    exact List.all_eq_true.1 List.all_takeWhile c (List.mem_reverse.1 hc)

/-- The last element that `trimList` leaves does not satisfy `p`. -/
theorem getLast?_trimList {p : Char → Bool} {cs : List Char} {c : Char}
    (h : (trimList p cs).getLast? = some c) : p c = false := by
  have hhead := List.head?_dropWhile_not p (cs.dropWhile p).reverse
  rw [trimList, List.getLast?_reverse] at h
  rw [h] at hhead
  simpa using hhead

/-- The first element that `trimList` leaves does not satisfy `p`. -/
theorem head?_trimList {p : Char → Bool} {cs : List Char} {c : Char}
    (h : (trimList p cs).head? = some c) : p c = false := by
  have hhead := List.head?_dropWhile_not p cs
  obtain ⟨rest, hrest⟩ : trimList p cs <+: cs.dropWhile p := by
    rw [trimList, ← List.reverse_suffix, List.reverse_reverse]
    exact List.dropWhile_suffix p
  rw [← hrest, List.head?_append, h] at hhead
  simpa using hhead

/-- A text without the characters at its two ends that satisfy `p`. -/
def trimWith (p : Char → Bool) (s : String) : String :=
  String.ofList (trimList p s.toList)

/-- The front of a text as far as its first NUL. -/
def upToNul (s : String) : String :=
  String.ofList (s.toList.takeWhile (· != '\x00'))

/-- Space, tab, line feed or carriage return. -/
def isBlank (c : Char) : Bool :=
  c == ' ' || c == '\t' || c == '\n' || c == '\r'

/-- Strips the blanks from both ends. -/
def trimBlank (s : String) : String :=
  trimWith isBlank s

/-- White space: the Unicode spaces, the line ends and the byte order mark. -/
def isSpace (c : Char) : Bool :=
  let n := c.toNat
  (9 ≤ n && n ≤ 13) || n == 0x20 || n == 0xA0 || n == 0x1680 || (0x2000 ≤ n && n ≤ 0x200A) ||
    n == 0x2028 || n == 0x2029 || n == 0x202F || n == 0x205F || n == 0x3000 || n == 0xFEFF

/-- Strips white space from both ends. -/
def trimSpace (s : String) : String :=
  trimWith isSpace s

/-- Every blank is white space. -/
theorem isSpace_of_isBlank {c : Char} (h : isBlank c = true) : isSpace c = true := by
  simp only [isBlank, Bool.or_eq_true, beq_iff_eq] at h
  rcases h with ((h | h) | h) | h <;> subst h <;> decide

end FilmReport.Text
