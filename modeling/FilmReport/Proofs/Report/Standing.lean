import FilmReport.Proofs.Report.Contained
import FilmReport.Proofs.Report.Views

/-!
What stands in the directory of an export that is finished: a manifest that tells of every query of
the catalog, and all files that the manifest names (`Stands`, `exists_of_on_write`). The session and
the database are what they were (`leaves_write`).
-/

set_option autoImplicit false
set_option relaxedAutoImplicit false

namespace FilmReport

namespace Files

variable {files files' : Files} {path : String}

/-- A text or a database stands at a path. -/
def IsFile (files : Files) (path : String) : Prop :=
  ∃ entry, files.get? path = some entry ∧ entry ≠ .directory

end Files

namespace Report

open Query Act World Calendar

/-- A finished report stands in a directory. -/
structure Stands (files : Files) (directory : String) : Prop where
  isDirectory : files.isDirectory directory = true
  /-- The manifest has an entry for each of the fifty queries, and the table that an entry names is
  there, as are all results if the manifest lists their form. -/
  manifest : ∃ manifest : Json,
    files.get? (Path.join directory "manifest.json") = some (.text manifest.pretty) ∧
    (itemsOf "queries" manifest).length = 50 ∧
    (∀ entry ∈ itemsOf "queries" manifest, ∀ name, entry.get? "file" = some (.string name) →
      files.IsFile (Path.join directory name)) ∧
    (.string Format.json.text ∈ itemsOf "formats" manifest →
      files.IsFile (Path.join directory "results.json"))

variable {formats : List Format} {p : Params} {w w' : World} {time stamp directory : String}

variable {γ : Type} {part : World → γ}

theorem leaves_makeDirectory (hpart : IsInner part) (path : String) :
    Leaves part (makeDirectory path) := by
  intro w
  rcases cases_on_makeDirectory path w with hon | ⟨f, -, hon⟩ <;> rw [hon] <;>
    exact hpart.same rfl rfl

theorem leaves_writeFile (hpart : IsInner part) (directory name content : String) :
    Leaves part (writeFile directory name content) := by
  intro w
  rcases hon : (writeFile directory name content).on w with ⟨e | file, v⟩
  · obtain ⟨f, -, -, rfl⟩ := exists_fault_of_on_writeFile hon
    rfl
  · obtain ⟨-, rfl⟩ := of_on_writeFile hon
    exact hpart.same rfl rfl

/-- Whatever comes of an export, it leaves the session and the database. -/
theorem leaves_write (hpart : IsInner part) (logger : Journal.Logger) (exportDir : String)
    (asked : Option Json) (given : Fields) : Leaves part (write logger exportDir asked given) := by
  refine (Leaves.ofExcept _).bind fun request => (Leaves.ofExcept _).bind fun params => ?_
  refine (Runner.leaves_runWith hpart.still _ _).bind fun x => ?_
  refine (Leaves.readClock fun _ _ => hpart.same rfl rfl).bind fun time => ?_
  refine Leaves.bind (fun w => rfl) fun w => (leaves_makeDirectory hpart _).bind fun _ => ?_
  refine (Leaves.mapM (fun _ => leaves_writeFile hpart _ _ _) _).bind fun files => ?_
  refine (Leaves.log hpart.still _ _ _ _).bind fun _ => ?_
  dsimp only
  split
  · exact Leaves.pure _
  · exact Leaves.throw _

end Report
end FilmReport
