import FilmReport.Proofs.Report.Files

/-!
The names of a path. An absolute path through names reads as these names (`Path.names_ofNames`), so
that a path tells what it leads to last; and what directories are made on the way to a path is there
and above it (`Files.get?_makeDirectory`).
-/

set_option autoImplicit false
set_option relaxedAutoImplicit false

namespace FilmReport

namespace Text

/-- A list without a separator is its only piece. -/
theorem pieces_of_notMem {separator : Char} {cs : List Char} (h : separator ∉ cs) :
    pieces separator cs = [cs] := by
  induction cs with
  | nil => rfl
  | cons c cs ih =>
    rw [List.mem_cons, not_or] at h
    exact pieces_cons_of_ne (fun hc => h.1 hc.symm) (ih h.2)

/-- The first piece ends at the first separator. -/
theorem pieces_append {separator : Char} {piece : List Char} (h : separator ∉ piece)
    (cs : List Char) :
    pieces separator (piece ++ separator :: cs) = piece :: pieces separator cs := by
  induction piece with
  | nil => exact pieces_cons_separator separator cs
  | cons c piece ih =>
    rw [List.mem_cons, not_or] at h
    exact pieces_cons_of_ne (fun hc => h.1 hc.symm) (ih h.2)

/-- The pieces of lists without separators that are put together are these lists. -/
theorem pieces_intercalate {separator : Char} {lists : List (List Char)} (hsome : lists ≠ [])
    (h : ∀ l ∈ lists, separator ∉ l) :
    pieces separator ([separator].intercalate lists) = lists := by
  induction lists with
  | nil => exact absurd rfl hsome
  | cons first rest ih =>
    rw [List.forall_mem_cons] at h
    by_cases hrest : rest = []
    · subst hrest
      rw [List.intercalate_singleton, pieces_of_notMem h.1]
    · rw [List.intercalate_cons_of_ne_nil hrest]
      rw [List.append_assoc, List.singleton_append, pieces_append h.1, ih hrest h.2]

end Text

namespace Path

/-- The names that a path leads through, latest first. -/
def names (path : String) : List String :=
  walk [] (segments path)

/-- A name has no slash. -/
theorem isName_iff {name : String} :
    IsName name ↔ '/' ∉ name.toList ∧ name ≠ "" ∧ name ≠ "." ∧ name ≠ ".." := by
  rw [IsName]
  constructor
  · rintro ⟨hsegments, -, hrest⟩
    have hmem : name ∈ segments name := hsegments ▸ List.mem_singleton_self name
    obtain ⟨piece, hpiece, hname⟩ := List.mem_map.1 hmem
    have hslash := Text.separator_notMem_of_mem_pieces hpiece
    exact ⟨by rwa [← hname, String.toList_ofList], hrest⟩
  · rintro ⟨hslash, hrest⟩
    refine ⟨?_, ?_, hrest⟩
    · rw [segments, Text.splitAt, Text.pieces_of_notMem hslash, List.map_singleton,
        String.ofList_toList]
    · rw [isAbsolute]
      cases hchars : name.toList with
      | nil => rfl
      | cons c cs =>
        rw [hchars, List.mem_cons, not_or] at hslash
        exact beq_eq_false_iff_ne.2 fun hc => hslash.1 (Option.some.inj hc).symm

/-- A walk through names visits them one after the other. -/
theorem walk_of_isName {path : List String} (h : ∀ name ∈ path, IsName name)
    (visited : List String) : walk visited path = path.reverse ++ visited := by
  induction path generalizing visited with
  | nil => rfl
  | cons name path ih =>
    rw [List.forall_mem_cons] at h
    obtain ⟨⟨-, -, hempty, hhere, habove⟩, hrest⟩ := h
    rw [walk, if_neg (not_or.2 ⟨hempty, hhere⟩), if_neg habove, ih hrest]
    simp

/-- Only names are visited. -/
theorem isName_of_mem_walk {visited path : List String} (hvisited : ∀ name ∈ visited, IsName name)
    (hpath : ∀ name ∈ path, '/' ∉ name.toList) : ∀ name ∈ walk visited path, IsName name := by
  induction path generalizing visited with
  | nil => exact hvisited
  | cons name path ih =>
    rw [List.forall_mem_cons] at hpath
    rw [walk]
    split
    · exact ih hvisited hpath.2
    · next hname =>
      split
      · exact ih (fun n hn => hvisited n (List.mem_of_mem_tail hn)) hpath.2
      · next habove =>
        rw [not_or] at hname
        refine ih (List.forall_mem_cons.2 ⟨?_, hvisited⟩) hpath.2
        exact isName_iff.2 ⟨hpath.1, hname.1, hname.2, habove⟩

theorem slash_notMem_of_mem_segments {path name : String} (h : name ∈ segments path) :
    '/' ∉ name.toList := by
  obtain ⟨piece, hpiece, rfl⟩ := List.mem_map.1 h
  rw [String.toList_ofList]
  exact Text.separator_notMem_of_mem_pieces hpiece

theorem isName_of_mem_names {path : String} : ∀ name ∈ names path, IsName name :=
  isName_of_mem_walk (List.forall_mem_nil _) fun _ => slash_notMem_of_mem_segments

/-- An absolute path through names reads as these names. -/
theorem names_ofNames {path : List String} (h : ∀ name ∈ path, IsName name) :
    names (ofNames path) = path.reverse := by
  have hslash : ∀ l ∈ path.map String.toList, '/' ∉ l := by
    intro l hl
    obtain ⟨name, hname, rfl⟩ := List.mem_map.1 hl
    exact (isName_iff.1 (h name hname)).1
  by_cases hsome : path = []
  · subst hsome
    decide
  · have hsegments : segments (ofNames path) = "" :: path := by
      rw [segments, Text.splitAt, ofNames, String.toList_append, String.toList_intercalate]
      change (Text.pieces '/' ('/' :: ['/'].intercalate _)).map _ = _
      rw [Text.pieces_cons_separator, Text.pieces_intercalate (by simpa using hsome) hslash]
      simp
    rw [names, hsegments, walk, if_pos (.inl rfl), walk_of_isName h, List.append_nil]

theorem names_join {name : String} (h : IsName name) (directory : String) :
    names (join directory name) = name :: names directory := by
  rw [join_of_isName h, names_ofNames]
  · simp [names]
  · refine List.forall_mem_append.2 ⟨fun n hn => ?_, List.forall_mem_singleton.2 h⟩
    exact isName_of_mem_names n (List.mem_reverse.1 hn)

/-- What is above a path has fewer names. -/
theorem length_names_of_mem_ancestors {path above : String} (h : above ∈ ancestors path) :
    (names above).length < (names path).length := by
  obtain ⟨k, hk, rfl⟩ := List.mem_map.1 h
  have hk : k < (names path).length := List.mem_range.1 hk
  rw [names_ofNames, List.reverse_reverse, List.length_drop, ← names]
  · omega
  · intro name hname
    exact isName_of_mem_names name (List.mem_of_mem_drop (List.mem_reverse.1 hname))

/-- What a directory holds is neither the directory nor above it. -/
theorem join_notMem {name : String} (h : IsName name) (directory : String) :
    join directory name ∉ directory :: ancestors directory := by
  intro hmem
  have hlength := congrArg List.length (names_join h directory)
  rw [List.length_cons] at hlength
  rcases List.mem_cons.1 hmem with hsame | habove
  · rw [hsame] at hlength
    omega
  · have hless := length_names_of_mem_ancestors habove
    omega

end Path

namespace Files

/-- Where directories are made one after the other, a path holds what it held, or it is one of them
and held nothing. -/
theorem get?_makeEach (files : Files) (paths : List String) (path : String) :
    (files.makeEach paths).2.get? path = files.get? path ∨
      path ∈ paths ∧ files.get? path = none ∧
        (files.makeEach paths).2.get? path = some .directory := by
  induction paths generalizing files with
  | nil => exact .inl rfl
  | cons first rest ih =>
    rw [makeEach]
    split
    · exact .inl rfl
    · split
      · exact (ih files).imp_right fun h => ⟨List.mem_cons_of_mem _ h.1, h.2⟩
      · exact .inl rfl
      · next hnone =>
        by_cases hsame : path = first
        · subst hsame
          have hroot : path ≠ "/" := by
            rintro rfl
            cases hnone
          have hput := get?_put_self hroot .directory files
          rcases ih (files.put path .directory) with hkept | ⟨-, hmissing, -⟩
          · exact .inr ⟨List.mem_cons_self, hnone, hkept.trans hput⟩
          · rw [hput] at hmissing
            cases hmissing
        · have hput := get?_put_of_ne hsame .directory files
          rw [← hput]
          exact (ih _).imp_right fun h => ⟨List.mem_cons_of_mem _ h.1, h.2⟩

/-- Making a directory changes nothing but paths to it and above it that led nowhere. -/
theorem get?_makeDirectory (files : Files) (directory path : String) :
    (files.makeDirectory directory).2.get? path = files.get? path ∨
      path ∈ directory :: Path.ancestors directory ∧ files.get? path = none ∧
        (files.makeDirectory directory).2.get? path = some .directory := by
  rw [makeDirectory]
  dsimp only
  split
  · exact .inl rfl
  · refine (get?_makeEach files _ path).imp_right fun ⟨hmem, hrest⟩ => ⟨?_, hrest⟩
    exact List.mem_reverse.1 (List.mem_filter.1 hmem).1

end Files
end FilmReport
