import FilmReport.Shape.Field

/-!
What an export reports: when and where it was written, its files with their sizes, and how many
queries succeeded and failed.
-/

set_option autoImplicit false
set_option relaxedAutoImplicit false

namespace FilmReport.Report

open Shape

/-- A written file. -/
structure ExportedFile where
  kind : String
  path : String
  sizeBytes : Int
deriving DecidableEq, Repr

def ExportedFile.toJson (f : ExportedFile) : Json :=
  .object
    [("kind", .string f.kind), ("path", .string f.path), ("sizeBytes", .ofInt f.sizeBytes)]

def ExportedFile.check : Option Json → Checked ExportedFile :=
  record fun r =>
    ExportedFile.mk <$> at_ "kind" (text 1) r <*> at_ "path" (text 1) r
      <*> at_ "sizeBytes" (integer (.from_ 0)) r

structure Summary where
  generatedAt : String
  exportDir : String
  files : List ExportedFile
  succeeded : Int
  failed : Int
deriving DecidableEq, Repr

namespace Summary

def toJson (s : Summary) : Json :=
  .object
    [("generatedAt", .string s.generatedAt), ("exportDir", .string s.exportDir),
     ("files", .array (s.files.map ExportedFile.toJson)), ("succeeded", .ofInt s.succeeded),
     ("failed", .ofInt s.failed)]

def check : Option Json → Checked Summary :=
  record fun r =>
    Summary.mk <$> at_ "generatedAt" dateTime r <*> at_ "exportDir" (text 1) r
      <*> at_ "files" (list 0 ExportedFile.check) r
      <*> at_ "succeeded" (integer (.from_ 0)) r
      <*> at_ "failed" (integer (.from_ 0)) r

end Summary
end FilmReport.Report
