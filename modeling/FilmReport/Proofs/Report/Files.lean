import FilmReport.Report.Export
import FilmReport.Proofs.Session.Action

/-!
The files that are written into one directory. Names of their own have paths of their own there, so
each file holds in the end what was written to it (`get?_after`), whatever was written after it.
-/

set_option autoImplicit false
set_option relaxedAutoImplicit false

namespace FilmReport

namespace Path

/-- A name that leads from a directory to something in it. -/
def IsName (name : String) : Prop :=
  segments name = [name] ∧ isAbsolute name = false ∧ name ≠ "" ∧ name ≠ "." ∧ name ≠ ".."

instance (name : String) : Decidable (IsName name) :=
  inferInstanceAs (Decidable (_ ∧ _ ∧ _ ∧ _ ∧ _))

theorem join_of_isName {name : String} (h : IsName name) (directory : String) :
    join directory name = ofNames ((walk [] (segments directory)).reverse ++ [name]) := by
  obtain ⟨hsegments, habsolute, hempty, hhere, habove⟩ := h
  rw [join, resolve, habsolute, hsegments]
  simp [walk, hempty, hhere, habove]

/-- The path through a last name is that name after a lead which is the same for all of them. -/
theorem exists_lead (names : List String) :
    ∃ lead : List Char, ∀ name,
      (ofNames (names ++ [name])).toList = '/' :: (lead ++ name.toList) := by
  suffices ∃ lead : List Char, ∀ name : String,
      ['/'].intercalate ((names ++ [name]).map String.toList) = lead ++ name.toList by
    obtain ⟨lead, hlead⟩ := this
    refine ⟨lead, fun name => ?_⟩
    rw [ofNames, String.toList_append, String.toList_intercalate]
    exact congrArg _ (hlead name)
  induction names with
  | nil => exact ⟨[], fun name => by simp⟩
  | cons first names ih =>
    obtain ⟨lead, hlead⟩ := ih
    refine ⟨first.toList ++ '/' :: lead, fun name => ?_⟩
    rw [List.cons_append, List.map_cons, List.intercalate_cons_of_ne_nil (by simp), hlead]
    simp

theorem join_ne_root {directory name : String} (h : IsName name) : join directory name ≠ "/" := by
  obtain ⟨lead, hlead⟩ := exists_lead (walk [] (segments directory)).reverse
  intro hroot
  have hchars := congrArg String.toList hroot
  rw [join_of_isName h, hlead] at hchars
  have hname : name.toList = [] := (List.append_eq_nil_iff.1 (List.cons.inj hchars).2).2
  exact h.2.2.1 (String.toList_eq_nil_iff.1 hname)

theorem length_join_pos (directory name : String) : 1 ≤ (join directory name).length := by
  rw [join, resolve, ofNames, String.length_append]
  exact Nat.le_add_right 1 _

theorem join_injective {directory name other : String} (h : IsName name) (h' : IsName other)
    (hsame : join directory name = join directory other) : name = other := by
  obtain ⟨lead, hlead⟩ := exists_lead (walk [] (segments directory)).reverse
  have hchars := congrArg String.toList hsame
  rw [join_of_isName h, join_of_isName h', hlead, hlead] at hchars
  exact String.toList_inj.1 (List.append_cancel_left (List.cons.inj hchars).2)

end Path

namespace Report

open Act

/-- The files after texts were written into a directory under their names. -/
def after (directory : String) (files : Files) (texts : List (String × String)) : Files :=
  texts.foldl (fun files t => files.put (Path.join directory t.1) (.text t.2)) files

/-- What is reported of texts that were written into a directory. -/
def reportOf (directory : String) (texts : List (String × String)) : List ExportedFile :=
  texts.map fun t => ⟨t.1, Path.join directory t.1, Text.byteSize t.2⟩

variable {directory : String} {texts : List (String × String)}

theorem get?_after_of_not_mem {path : String} (h : ∀ t ∈ texts, path ≠ Path.join directory t.1)
    (files : Files) : (after directory files texts).get? path = files.get? path := by
  induction texts generalizing files with
  | nil => rfl
  | cons t texts ih =>
    rw [List.forall_mem_cons] at h
    exact (ih h.2 _).trans (Files.get?_put_of_ne h.1 _ files)

/-- Each text is found under its name, if no two have the same. -/
theorem get?_after (hnames : ∀ t ∈ texts, Path.IsName t.1) (hdistinct : (texts.map Prod.fst).Nodup)
    (files : Files) : ∀ t ∈ texts,
      (after directory files texts).get? (Path.join directory t.1) = some (.text t.2) := by
  induction texts generalizing files with
  | nil => exact List.forall_mem_nil _
  | cons t texts ih =>
    rw [List.forall_mem_cons] at hnames ⊢
    rw [List.map_cons, List.nodup_cons] at hdistinct
    refine ⟨?_, ih hnames.2 hdistinct.2 _⟩
    have hothers : ∀ t' ∈ texts, Path.join directory t.1 ≠ Path.join directory t'.1 := by
      intro t' ht' hsame
      have hname := Path.join_injective hnames.1 (hnames.2 t' ht') hsame
      exact hdistinct.1 (hname ▸ List.mem_map_of_mem ht')
    exact (get?_after_of_not_mem hothers _).trans
      (Files.get?_put_self (Path.join_ne_root hnames.1) _ files)

theorem of_on_writeFile {name content : String} {w w' : World} {f : ExportedFile}
    (h : (writeFile directory name content).on w = (.ok f, w')) :
    f = ⟨name, Path.join directory name, Text.byteSize content⟩ ∧
      w' = { w with files := w.files.put (Path.join directory name) (.text content) } := by
  rw [writeFile, on_bind, on_get] at h
  dsimp only at h
  rw [Files.write] at h
  split at h
  · next files hfiles =>
    split at hfiles
    · cases hfiles
    · split at hfiles
      · cases hfiles
      · obtain rfl := Except.ok.inj hfiles
        obtain ⟨hf, rfl⟩ := Prod.mk.inj h
        exact ⟨(Except.ok.inj hf).symm, rfl⟩
  · cases (Prod.mk.inj h).1

theorem of_on_mapM_writeFile {w w' : World} {written : List ExportedFile}
    (h : (texts.mapM fun (name, content) => writeFile directory name content).on w =
      (.ok written, w')) :
    written = reportOf directory texts ∧
      w' = { w with files := after directory w.files texts } := by
  induction texts generalizing w written with
  | nil =>
    obtain ⟨hwritten, rfl⟩ := Prod.mk.inj h
    exact ⟨(Except.ok.inj hwritten).symm, rfl⟩
  | cons t texts ih =>
    rw [List.mapM_cons] at h
    obtain ⟨f, w₁, hfile, hrest⟩ := on_bind_eq_ok.1 h
    obtain ⟨others, w₂, hothers, hpure⟩ := on_bind_eq_ok.1 hrest
    obtain ⟨hwritten, rfl⟩ := Prod.mk.inj hpure
    obtain ⟨rfl, rfl⟩ := of_on_writeFile hfile
    obtain ⟨rfl, hw'⟩ := ih hothers
    exact ⟨(Except.ok.inj hwritten).symm, hw'⟩

theorem on_makeDirectory {path : String} {w : World} {files : Files}
    (h : w.files.makeDirectory path = (.ok (), files)) :
    (makeDirectory path).on w = (.ok (), { w with files := files }) := by
  rw [makeDirectory, on_bind, on_get]
  dsimp only
  rw [h]
  rfl

/-- A file does not become a directory when texts are written. -/
theorem isDirectory_put {files : Files} {path other content : String}
    (h : files.isDirectory other = false) :
    (files.put path (.text content)).isDirectory other = false := by
  by_cases hsame : other = path
  · subst hsame
    have hroot : other ≠ "/" := by
      rintro rfl
      cases h
    rw [Files.isDirectory, Files.get?_put_self hroot]
    rfl
  · rwa [Files.isDirectory, Files.get?_put_of_ne hsame]

theorem on_writeFile {name content : String} {w : World}
    (hshort : (Path.join directory name).utf8ByteSize < Files.tooManyBytes)
    (h : w.files.isDirectory (Path.join directory name) = false) :
    (writeFile directory name content).on w =
      (.ok ⟨name, Path.join directory name, Text.byteSize content⟩,
        { w with files := w.files.put (Path.join directory name) (.text content) }) := by
  have hlong : ¬ Files.tooManyBytes ≤ (Path.join directory name).utf8ByteSize :=
    Nat.not_le.2 hshort
  rw [writeFile, on_bind, on_get]
  dsimp only
  rw [Files.write, if_neg hlong, h]
  rfl

theorem on_mapM_writeFile {w : World}
    (hshort : ∀ t ∈ texts, (Path.join directory t.1).utf8ByteSize < Files.tooManyBytes)
    (h : ∀ t ∈ texts, w.files.isDirectory (Path.join directory t.1) = false) :
    (texts.mapM fun (name, content) => writeFile directory name content).on w =
      (.ok (reportOf directory texts), { w with files := after directory w.files texts }) := by
  induction texts generalizing w with
  | nil => rfl
  | cons t texts ih =>
    rw [List.forall_mem_cons] at h hshort
    have hrest : ∀ t' ∈ texts, (w.files.put (Path.join directory t.1) (.text t.2)).isDirectory
        (Path.join directory t'.1) = false := fun t' ht' => isDirectory_put (h.2 t' ht')
    have hothers := ih (w := { w with files := w.files.put (Path.join directory t.1) (.text t.2) })
      hshort.2 hrest
    rw [List.mapM_cons, on_bind_of_ok (on_writeFile hshort.1 h.1), on_bind_of_ok hothers]
    rfl

end Report
end FilmReport
