import FilmReport.Proofs.Calendar.Instant
import FilmReport.Proofs.Operation.Framed
import FilmReport.Proofs.Query.Exported
import FilmReport.Proofs.Report.Exported
import FilmReport.Proofs.Report.Extent
import FilmReport.Proofs.Report.Paths
import FilmReport.Proofs.Session.Raising

/-!
What an export does to the files. It ends in one of four ways (`Ends`): what was asked for is
refused, before or after its parameters are read; it is halted after the first files of its list; or
it is finished. So a manifest stands only where all that it lists was written, and nothing is
changed outside of the directory that the export has by its time (`contained_of_on_write`).
-/

set_option autoImplicit false
set_option relaxedAutoImplicit false

namespace FilmReport.Report

open Shape Query Act Calendar World

theorem Request.exists_formats_of_read {exportDir : String} {formats : Option Json} {r : Request}
    (h : Request.read exportDir formats = .ok r) :
    ∃ kinds : List Format, r = ⟨exportDir, kinds.eraseDups⟩ := by
  rw [Request.read] at h
  split at h
  · next r' hcheck =>
    rw [Checked.toExcept_eq_ok, Request.check, Checked.gives_seq] at hcheck
    obtain ⟨_, kinds, hdir, -, rfl⟩ := hcheck
    obtain ⟨dir, hgiven, rfl⟩ := Checked.gives_functor.1 hdir
    rw [Checked.gives_within] at hgiven
    exact ⟨kinds, by rw [← Except.ok.inj h, Faithful.text 1 hgiven]⟩
  · cases h

theorem Request.code_of_read {exportDir : String} {formats : Option Json} {f : Fault}
    (h : Request.read exportDir formats = .error f) : f.code = .exportInvalidInput := by
  rw [Request.read] at h
  split at h
  · cases h
  · rw [← Except.error.inj h]
    rfl

theorem code_of_resolve {given : Fields} {f : Fault} (h : Params.resolve given = .error f) :
    f.code = .queryParamsInvalid := by
  rw [Params.resolve] at h
  split at h
  · cases h
  · rw [← Except.error.inj h]
    rfl

namespace Batch

/-- The files of a report but for its manifest, in the order in which they are written. -/
def listed (b : Batch) : List (String × String) :=
  (if b.formats.contains .csv then b.outcomes.map fun o => (tableName o, table o) else []) ++
  (if b.formats.contains .json then [("results.json", b.results.pretty)] else [])

/-- The manifest is written last. -/
theorem files_eq (stamp : String) (b : Batch) :
    b.files stamp = b.listed ++ [("manifest.json", (b.manifest stamp).pretty)] :=
  rfl

theorem toList_directoryName (time : String) :
    (directoryName time).toList =
      "queries-".toList ++ time.toList.map fun c => if c = ':' ∨ c = '.' then '-' else c := by
  rw [directoryName, String.toList_append, fileStamp]
  exact congrArg _ (String.toList_ofList ..)

/-- The name of the directory of a report is a single name. -/
theorem isName_directoryName {t : Instant} (h : t.HasPlainYear) :
    Path.IsName (directoryName t.toText) := by
  have hlong : ∀ s : String, s.toList.length < 8 → directoryName t.toText ≠ s := by
    rintro s hs rfl
    rw [toList_directoryName, List.length_append] at hs
    exact Nat.not_lt.2 (Nat.le_add_right 8 _) hs
  refine Path.isName_iff.2 ⟨?_, hlong _ (by decide), hlong _ (by decide), hlong _ (by decide)⟩
  rw [toList_directoryName, List.mem_append, not_or]
  refine ⟨by decide, fun hslash => ?_⟩
  obtain ⟨c, hc, hchar⟩ := List.mem_map.1 hslash
  split at hchar
  · cases hchar
  · subst hchar
    rcases Instant.isDigit_or_mem_of_mem_toText h hc with hdigit | hmark
    · cases hdigit
    · exact absurd hmark (by decide)

/-- It tells the instant of the report. -/
theorem eq_of_directoryName_eq {t u : Instant} (ht : t.HasPlainYear) (hu : u.HasPlainYear)
    (h : directoryName t.toText = directoryName u.toText) : t = u := by
  have hchars := congrArg String.toList h
  rw [toList_directoryName, toList_directoryName] at hchars
  have hdigit : ∀ c, isDigit c = true → (if c = ':' ∨ c = '.' then '-' else c) = c := by
    intro c hc
    refine if_neg ?_
    rintro (rfl | rfl) <;> cases hc
  exact Instant.eq_of_map_toText hdigit ht hu (List.append_cancel_left hchars)

end Batch

/-- Reports of different times are written to different directories, wherever they are asked for. -/
theorem eq_of_reportDir_eq {exportDir exportDir' : String} {t u : Instant} {w w' : World}
    (ht : t.HasPlainYear) (hu : u.HasPlainYear)
    (h : reportDir exportDir t w = reportDir exportDir' u w') : t = u := by
  have hnames := congrArg Path.names h
  rw [reportDir, reportDir, Path.names_join (Batch.isName_directoryName ht),
    Path.names_join (Batch.isName_directoryName hu)] at hnames
  exact Batch.eq_of_directoryName_eq ht hu (List.cons.inj hnames).1

/-- The directory of a report is made, or it is told that it could not be. -/
theorem cases_on_makeDirectory (path : String) (w : World) :
    (makeDirectory path).on w = (.ok (), { w with files := (w.files.makeDirectory path).2 }) ∨
      ∃ f : Fault, f.code = .exportDirCreateFailed ∧ (makeDirectory path).on w =
        (.error (.fault f), { w with files := (w.files.makeDirectory path).2 }) := by
  rw [makeDirectory, on_bind, on_get]
  dsimp only
  rcases w.files.makeDirectory path with ⟨cause | u, files⟩
  · exact .inr ⟨_, rfl, rfl⟩
  · exact .inl rfl

section Writing

variable {directory : String} {texts : List (String × String)}

theorem exists_fault_of_on_writeFile {name content : String} {w w' : World} {e : Failure}
    (h : (writeFile directory name content).on w = (.error e, w')) :
    ∃ f : Fault, e = .fault f ∧ f.code = .exportWriteFailed ∧ w' = w := by
  rw [writeFile, on_bind, on_get] at h
  dsimp only at h
  split at h
  · cases (Prod.mk.inj h).1
  · obtain ⟨he, rfl⟩ := Prod.mk.inj h
    exact ⟨_, (Except.error.inj he).symm, rfl, rfl⟩

/-- Where not all texts are written, those before one of them were. -/
theorem exists_append_of_on_mapM_writeFile {w w' : World} {e : Failure}
    (h : (texts.mapM fun (name, content) => writeFile directory name content).on w =
      (.error e, w')) :
    ∃ (f : Fault) (done : List (String × String)) (next : String × String)
      (rest : List (String × String)), texts = done ++ next :: rest ∧ e = .fault f ∧
        f.code = .exportWriteFailed ∧ w' = { w with files := after directory w.files done } := by
  induction texts generalizing w e with
  | nil => cases (Prod.mk.inj h).1
  | cons first texts ih =>
    rw [List.mapM_cons, on_bind] at h
    rcases hfirst : (writeFile directory first.1 first.2).on w with ⟨e' | file, v⟩
    · rw [hfirst] at h
      obtain ⟨he, rfl⟩ := Prod.mk.inj h
      obtain ⟨f, rfl, hcode, rfl⟩ := exists_fault_of_on_writeFile hfirst
      exact ⟨f, [], first, texts, rfl, (Except.error.inj he).symm, hcode, rfl⟩
    · rw [hfirst] at h
      dsimp only at h
      obtain ⟨-, rfl⟩ := of_on_writeFile hfirst
      rw [on_bind] at h
      rcases hrest : (texts.mapM fun (name, content) =>
          writeFile directory name content).on _ with ⟨e' | files, v'⟩
      · rw [hrest] at h
        obtain ⟨he, rfl⟩ := Prod.mk.inj h
        obtain ⟨f, done, next, rest, rfl, he', hcode, hv'⟩ := ih hrest
        exact ⟨f, first :: done, next, rest, rfl, (Except.error.inj he).symm.trans he', hcode, hv'⟩
      · rw [hrest] at h
        cases (Prod.mk.inj h).1

end Writing

/-- Writes a batch into a directory that is made for it, and reports it. -/
def writeBatch (logger : Journal.Logger) (stamp directory : String) (b : Batch) : Act Summary := do
  makeDirectory directory
  let files ← (b.files stamp).mapM fun (name, content) => writeFile directory name content
  Act.log logger .info "query report exported"
    [("reportDir", .string directory), ("files", .ofNat files.length), ("failed", .ofNat b.failed)]
  let summary : Summary :=
    ⟨b.generatedAt, directory, files, (b.outcomes.length : Int) - b.failed, b.failed⟩
  match (Summary.check (some summary.toJson)).toExcept with
  | .ok summary => pure summary
  | .error issues =>
    Act.report <| .create .exportInvalidOutput "Report export result has an invalid format."
      [("issues", .array (issues.map Issue.details))]

/-- A batch whose summary is accepted is written as a whole, or the writing is halted after the
first files of its list. -/
theorem cases_on_writeBatch (logger : Journal.Logger) {stamp directory : String} {b : Batch}
    (hcheck : (Summary.check (some (summaryOf b stamp directory).toJson)).Gives
      (summaryOf b stamp directory)) (w : World) :
    (∃ f done w', (writeBatch logger stamp directory b).on w = (.error (.fault f), w') ∧
      (f.code = .exportDirCreateFailed ∨ f.code = .exportWriteFailed) ∧ done <+: b.listed ∧
        w'.files = after directory (w.files.makeDirectory directory).2 done) ∨
    ∃ w', (writeBatch logger stamp directory b).on w = (.ok (summaryOf b stamp directory), w') ∧
      w'.files = after directory (w.files.makeDirectory directory).2 (b.files stamp) := by
  rw [writeBatch]
  rcases cases_on_makeDirectory directory w with hmade | ⟨f, hcode, hmade⟩
  · rw [on_bind_of_ok hmade]
    generalize hv : { w with files := (w.files.makeDirectory directory).2 } = v
    have hfiles : v.files = (w.files.makeDirectory directory).2 := by rw [← hv]
    rcases hwrite : ((b.files stamp).mapM fun (name, content) =>
        writeFile directory name content).on v with ⟨e | files, w'⟩
    · obtain ⟨f, done, next, rest, hsplit, rfl, hcode, rfl⟩ :=
        exists_append_of_on_mapM_writeFile hwrite
      refine .inl ⟨f, done, _, on_bind_of_error hwrite, .inr hcode, ?_, by rw [← hfiles]⟩
      have hlisted := congrArg List.dropLast hsplit
      rw [Batch.files_eq, List.dropLast_concat, List.dropLast_append_cons] at hlisted
      exact ⟨_, hlisted.symm⟩
    · obtain ⟨rfl, rfl⟩ := of_on_mapM_writeFile hwrite
      obtain ⟨journal, hlog⟩ := exists_on_log_eq logger .info "query report exported"
        [("reportDir", .string directory),
          ("files", .ofNat (reportOf directory (b.files stamp)).length),
          ("failed", .ofNat b.failed)] { v with files := after directory v.files (b.files stamp) }
      rw [on_bind_of_ok hwrite, on_bind_of_ok hlog]
      dsimp only
      rw [summaryOf] at hcheck
      rw [Checked.toExcept_eq_ok.2 hcheck]
      exact .inr ⟨_, rfl, by rw [← hfiles]; rfl⟩
  · exact .inl ⟨f, [], _, on_bind_of_error hmade, .inl hcode, List.nil_prefix, rfl⟩

section Ends

variable (exportDir : String) (formats : Option Json) (given : Fields) (t : Instant) (w : World)

/-- The files of a world after directories were made for the report of a time. -/
def prepared : Files :=
  (w.files.makeDirectory (reportDir exportDir t w)).2

/-- How an export ends that is asked for at a time: with which answer, and with which files. -/
inductive Ends : Except Failure Summary → Files → Prop
  | unread {f : Fault} (hread : Request.read exportDir formats = .error f) :
    Ends (.error (.fault f)) w.files
  | unresolved {f : Fault} (hgiven : Params.resolve given = .error f) :
    Ends (.error (.fault f)) w.files
  | halted {kinds : List Format} {p : Params} {f : Fault} {done : List (String × String)}
    (hread : Request.read exportDir formats = .ok ⟨exportDir, kinds.eraseDups⟩)
    (hgiven : Params.resolve given = .ok p)
    (hcode : f.code = .exportDirCreateFailed ∨ f.code = .exportWriteFailed)
    (hdone : done <+: (batchIn t.toText kinds p w).listed) :
    Ends (.error (.fault f)) (after (reportDir exportDir t w) (prepared exportDir t w) done)
  | finished {kinds : List Format} {p : Params}
    (hread : Request.read exportDir formats = .ok ⟨exportDir, kinds.eraseDups⟩)
    (hgiven : Params.resolve given = .ok p) :
    Ends (.ok (summaryOf (batchIn t.toText kinds p w) w.stamp (reportDir exportDir t w)))
      (after (reportDir exportDir t w) (prepared exportDir t w)
        ((batchIn t.toText kinds p w).files w.stamp))

end Ends

variable {exportDir : String} {formats : Option Json} {given : Fields} {t : Instant} {w : World}
  {clock : List (Option Instant)}

/-- An export that is asked for at a time writes one batch into one directory; what it does before
leaves the files. -/
theorem exists_on_writeBatch (logger : Journal.Logger) {kinds : List Format} {p : Params}
    (hread : Request.read exportDir formats = .ok ⟨exportDir, kinds.eraseDups⟩)
    (hgiven : Params.resolve given = .ok p) (hclock : w.clock = some t :: clock) :
    ∃ logger' v, (write logger exportDir formats given).on w =
      (writeBatch logger' w.stamp (reportDir exportDir t w) (batchIn t.toText kinds p w)).on v ∧
        v.files = w.files := by
  obtain ⟨r', v, houtcomes, hcontinues, -⟩ := Runner.exists_on_runWith
    (logger.withContext [("component", .string "query-report")]) nodup_ids_catalog p w
  have hframed := Runner.framed_runWith
    (Runner.make (logger.withContext [("component", .string "query-report")]) catalog) p
  have hfiles : v.files = w.files := hframed.files houtcomes
  have hdirectory : v.directory = w.directory := hframed.directory houtcomes
  have hstamp : v.stamp = w.stamp := congrArg (·.stamp) hcontinues.apart
  have htime := OrderlyFrom.on_readClock v
  rw [hframed.clock houtcomes, hclock] at htime
  refine ⟨logger.withContext [("component", .string "query-report")],
    v.timed (OrderlyFrom.advanced (some t :: clock)), ?_, hfiles⟩
  rw [write, on_bind_of_ok (on_ofExcept_eq_ok.2 ⟨hread, rfl⟩),
    on_bind_of_ok (on_ofExcept_eq_ok.2 ⟨hgiven, rfl⟩)]
  dsimp only
  rw [on_bind_of_ok houtcomes, on_bind_of_ok htime, on_bind_of_ok (on_get _)]
  dsimp only [timed, writeBatch, reportDir, batchIn, outcomesIn]
  rewrite [hdirectory, hstamp]
  refine congrArg (fun act : Act Summary => act.on _) ?_
  refine bind_congr fun _ => ?_
  refine bind_congr fun files => ?_
  refine bind_congr fun _ => ?_
  generalize Checked.toExcept (Summary.check _) = checked
  cases checked <;> rfl

theorem ends_of_on_write (logger : Journal.Logger) (hclock : w.clock = some t :: clock)
    (ht : t.HasPlainYear)
    (hsize : ∀ kinds p, Request.read exportDir formats = .ok ⟨exportDir, kinds.eraseDups⟩ →
      Params.resolve given = .ok p →
        ∀ text ∈ (batchIn t.toText kinds p w).files w.stamp, text.2.utf8ByteSize < 2 ^ 53) :
    Ends exportDir formats given t w ((write logger exportDir formats given).on w).1
      ((write logger exportDir formats given).on w).2.files := by
  cases hread : Request.read exportDir formats with
  | error f =>
    rw [write, hread]
    exact .unread hread
  | ok request =>
    obtain ⟨kinds, rfl⟩ := Request.exists_formats_of_read hread
    cases hgiven : Params.resolve given with
    | error f =>
      rw [write, on_bind_of_ok (on_ofExcept_eq_ok.2 ⟨hread, rfl⟩), hgiven]
      exact .unresolved hgiven
    | ok p =>
      have hcount : (batchIn t.toText kinds p w).outcomes.length < 2 ^ 53 := by
        rw [batchIn, outcomesIn, List.length_map, length_catalog]
        norm_num
      have hcheck := gives_check_summaryOf (b := batchIn t.toText kinds p w)
        (reportDir exportDir t w) (Instant.isDateTime_toText ht) (Path.length_join_pos _ _)
        isName_of_mem_files (hsize kinds p hread hgiven) hcount
      obtain ⟨logger', v, hon, hfiles⟩ := exists_on_writeBatch logger hread hgiven hclock
      rw [hon]
      rcases cases_on_writeBatch logger' hcheck v with
        ⟨f, done, w', hon', hcode, hdone, hleft⟩ | ⟨w', hon', hleft⟩
      · rw [hon', hleft, hfiles]
        exact .halted hread hgiven hcode hdone
      · rw [hon', hleft, hfiles]
        exact .finished hread hgiven

theorem mem_fileNames_of_listed {kinds : List Format} {p : Params} {time : String}
    {text : String × String} (h : text ∈ (batchIn time kinds p w).listed) :
    text.1 ∈ fileNames Format.listed ∧ text.1 ≠ "manifest.json" := by
  have hnames : ((batchIn time kinds p w).files "").map Prod.fst = fileNames kinds :=
    names_files time ""
  have hname : text.1 ∈ (batchIn time kinds p w).listed.map Prod.fst := List.mem_map_of_mem h
  have hnodup := nodup_fileNames kinds
  rw [← hnames, Batch.files_eq, List.map_append, List.nodup_append] at hnodup
  refine ⟨(fileNames_sublist kinds).subset ?_, fun hlast => ?_⟩
  · rw [← hnames, Batch.files_eq, List.map_append]
    exact List.mem_append_left _ hname
  · exact hnodup.2.2 _ hname _ (List.mem_singleton_self _) hlast

/-- What directories were made for a report, nothing else changed by it. -/
theorem get?_after_prepared {directory : String} {texts : List (String × String)} {path : String}
    (h : ∀ text ∈ texts, path ≠ Path.join directory text.1) (files : Files) :
    (after directory (files.makeDirectory directory).2 texts).get? path = files.get? path ∨
      path ∈ directory :: Path.ancestors directory ∧ files.get? path = none ∧
        (after directory (files.makeDirectory directory).2 texts).get? path = some .directory := by
  rw [get?_after_of_not_mem h]
  exact files.get?_makeDirectory directory path

/-- What an export answers and leaves of the files that is asked for at a time. -/
structure Contained (exportDir : String) (formats : Option Json) (given : Fields) (t : Instant)
    (w : World) (result : Except Failure Summary) (files : Files) : Prop where
  answers : ∀ cause, result ≠ .error (.raised cause)
  reports : ∀ s, result = .ok s →
    s.generatedAt = t.toText ∧ s.exportDir = reportDir exportDir t w
  accepted : ∀ f, result = .error (.fault f) → f.code ≠ .exportInvalidOutput
  /-- Where there is a fault the manifest stays what it was. -/
  manifest : ∀ f, result = .error (.fault f) →
    files.get? (Path.join (reportDir exportDir t w) "manifest.json") =
      w.files.get? (Path.join (reportDir exportDir t w) "manifest.json")
  /-- Where there is a fault the first files of the list were written. -/
  written : ∀ f, result = .error (.fault f) → files = w.files ∨
    ∃ kinds p done, Request.read exportDir formats = .ok ⟨exportDir, kinds.eraseDups⟩ ∧
      Params.resolve given = .ok p ∧ done <+: (batchIn t.toText kinds p w).listed ∧
        files = after (reportDir exportDir t w) (prepared exportDir t w) done
  /-- What cannot be read leaves the files alone. -/
  refused : (∀ request, Request.read exportDir formats ≠ .ok request) ∨
    (∀ p, Params.resolve given ≠ .ok p) →
      (∃ f, result = .error (.fault f)) ∧ files = w.files
  /-- Outside of its own directory no path changes but those to directories that are made. -/
  outside : ∀ path,
    (∀ name ∈ fileNames Format.listed, path ≠ Path.join (reportDir exportDir t w) name) →
      files.get? path = w.files.get? path ∨
        path ∈ reportDir exportDir t w :: Path.ancestors (reportDir exportDir t w) ∧
          w.files.get? path = none ∧ files.get? path = some .directory
  /-- No report of another time has the same directory. -/
  own : ∀ exportDir' u w', u.HasPlainYear → u ≠ t →
    reportDir exportDir' u w' ≠ reportDir exportDir t w

theorem reportDir_ne (ht : t.HasPlainYear) (exportDir' : String) (u : Instant) (w' : World)
    (hu : u.HasPlainYear) (hne : u ≠ t) : reportDir exportDir' u w' ≠ reportDir exportDir t w :=
  fun hsame => hne (eq_of_reportDir_eq hu ht hsame)

/-- An export that was refused left all files. -/
theorem contained_of_refused (ht : t.HasPlainYear) {f : Fault}
    (hcode : f.code ≠ .exportInvalidOutput) :
    Contained exportDir formats given t w (.error (.fault f)) w.files where
  answers := nofun
  reports := nofun
  accepted := by
    rintro _ ⟨⟩
    exact hcode
  manifest := fun _ _ => rfl
  written := fun _ _ => .inl rfl
  refused := fun _ => ⟨⟨_, rfl⟩, rfl⟩
  outside := fun _ _ => .inl rfl
  own := reportDir_ne ht

/-- An export that was halted has not come to its manifest. -/
theorem contained_of_halted (ht : t.HasPlainYear) {kinds : List Format} {p : Params} {f : Fault}
    {done : List (String × String)}
    (hread : Request.read exportDir formats = .ok ⟨exportDir, kinds.eraseDups⟩)
    (hgiven : Params.resolve given = .ok p)
    (hcode : f.code = .exportDirCreateFailed ∨ f.code = .exportWriteFailed)
    (hdone : done <+: (batchIn t.toText kinds p w).listed) :
    Contained exportDir formats given t w (.error (.fault f))
      (after (reportDir exportDir t w) (prepared exportDir t w) done) := by
  have hlisted : ∀ text ∈ done, text.1 ∈ fileNames Format.listed ∧ text.1 ≠ "manifest.json" :=
    fun text htext => mem_fileNames_of_listed (hdone.subset htext)
  have hmanifest : Path.IsName "manifest.json" := by decide
  exact {
    answers := nofun
    reports := nofun
    accepted := by
      rintro _ ⟨⟩ hinvalid
      rw [hinvalid] at hcode
      rcases hcode with hcode | hcode <;> cases hcode
    manifest := by
      intro _ _
      refine (get?_after_prepared (fun text htext hsame => ?_) w.files).resolve_right
        fun hmade => Path.join_notMem hmanifest _ hmade.1
      have hname := isName_of_mem_fileNames _ (hlisted text htext).1
      exact (hlisted text htext).2 (Path.join_injective hname hmanifest hsame.symm)
    written := fun _ _ => .inr ⟨kinds, p, done, hread, hgiven, hdone, rfl⟩
    refused := by
      rintro (hnone | hnone)
      · exact absurd hread (hnone _)
      · exact absurd hgiven (hnone _)
    outside := fun path hpath =>
      get?_after_prepared (fun text htext => hpath _ (hlisted text htext).1) w.files
    own := reportDir_ne ht }

/-- An export that was finished reports its time and its directory. -/
theorem contained_of_finished (ht : t.HasPlainYear) {kinds : List Format} {p : Params}
    (hread : Request.read exportDir formats = .ok ⟨exportDir, kinds.eraseDups⟩)
    (hgiven : Params.resolve given = .ok p) :
    Contained exportDir formats given t w
      (.ok (summaryOf (batchIn t.toText kinds p w) w.stamp (reportDir exportDir t w)))
      (after (reportDir exportDir t w) (prepared exportDir t w)
        ((batchIn t.toText kinds p w).files w.stamp)) := by
  have hnames : ∀ text ∈ (batchIn t.toText kinds p w).files w.stamp,
      text.1 ∈ fileNames Format.listed := fun text htext =>
    (fileNames_sublist kinds).subset (names_files t.toText w.stamp ▸ List.mem_map_of_mem htext)
  -- The summary is left closed: to look into it would be to write out the batch.
  generalize hs : summaryOf (batchIn t.toText kinds p w) w.stamp (reportDir exportDir t w) = s
  exact {
    answers := nofun
    reports := by
      rintro _ ⟨⟩
      rw [← hs]
      exact ⟨rfl, rfl⟩
    accepted := fun _ hfault => by cases hfault
    manifest := fun _ hfault => by cases hfault
    written := fun _ hfault => by cases hfault
    refused := by
      rintro (hnone | hnone)
      · exact absurd hread (hnone _)
      · exact absurd hgiven (hnone _)
    outside := fun path hpath =>
      get?_after_prepared (fun text htext => hpath _ (hnames text htext)) w.files
    own := reportDir_ne ht }

theorem contained_of_ends (ht : t.HasPlainYear) {result : Except Failure Summary} {files : Files}
    (h : Ends exportDir formats given t w result files) :
    Contained exportDir formats given t w result files := by
  cases h with
  | unread hread =>
    refine contained_of_refused ht fun hcode => ?_
    cases (Request.code_of_read hread).symm.trans hcode
  | unresolved hgiven =>
    refine contained_of_refused ht fun hcode => ?_
    cases (code_of_resolve hgiven).symm.trans hcode
  | halted hread hgiven hcode hdone => exact contained_of_halted ht hread hgiven hcode hdone
  | finished hread hgiven => exact contained_of_finished ht hread hgiven

/-- Whatever stands where an export is written, it answers; its manifest is written only after all
that it lists, and it changes nothing outside of a directory of its own. No file may be so large
that its size is no exact number. -/
theorem contained_of_on_write (logger : Journal.Logger) (hclock : w.clock = some t :: clock)
    (ht : t.HasPlainYear)
    (hsize : ∀ kinds p, Request.read exportDir formats = .ok ⟨exportDir, kinds.eraseDups⟩ →
      Params.resolve given = .ok p →
        ∀ text ∈ (batchIn t.toText kinds p w).files w.stamp, text.2.utf8ByteSize < 2 ^ 53) :
    Contained exportDir formats given t w ((write logger exportDir formats given).on w).1
      ((write logger exportDir formats given).on w).2.files :=
  contained_of_ends ht (ends_of_on_write logger hclock ht hsize)

/-- A database that was never migrated, and a directory that stands where the manifest of a report
should go. -/
def blockedManifest : World :=
  { World.inMemory .empty [some ⟨0⟩] with
    files :=
      [("/out", .directory), ("/out/queries-1970-01-01T00-00-00-000Z", .directory),
        ("/out/queries-1970-01-01T00-00-00-000Z/manifest.json", .directory)] }

/-- The results are written, and then the export is halted. -/
theorem contained_of_blockedManifest :
    ∃ f files, ((write .quiet "out" (some (.array [.string "json"])) []).on blockedManifest).1 =
        .error (.fault f) ∧
      ((write .quiet "out" (some (.array [.string "json"])) []).on blockedManifest).2.files =
        files ∧ files.length = 4 ∧
      Contained "out" (some (.array [.string "json"])) [] ⟨0⟩ blockedManifest (.error (.fault f))
        files := by
  have hread : Request.read "out" (some (.array [.string "json"])) =
      .ok ⟨"out", [Format.json].eraseDups⟩ := rfl
  have hgiven := Params.resolve_nil
  have hyear : Instant.HasPlainYear ⟨0⟩ := ⟨by decide +kernel, by decide +kernel⟩
  have hresults : (batchIn (Instant.toText ⟨0⟩) [.json] .standard
      blockedManifest).results.extent 0 ≤ 2 ^ 52 := by decide +kernel
  have hmanifest : ((batchIn (Instant.toText ⟨0⟩) [.json] .standard
      blockedManifest).manifest "").extent 0 ≤ 2 ^ 52 := by decide +kernel
  have hsize : ∀ kinds p, Request.read "out" (some (.array [.string "json"])) =
      .ok ⟨"out", kinds.eraseDups⟩ → Params.resolve [] = .ok p →
        ∀ text ∈ (batchIn (Instant.toText ⟨0⟩) kinds p blockedManifest).files "",
          text.2.utf8ByteSize < 2 ^ 53 := by
    intro kinds p hkinds hp text htext
    obtain rfl := Except.ok.inj (hgiven.symm.trans hp)
    have hsame : kinds.eraseDups = [Format.json].eraseDups :=
      congrArg Request.formats (Except.ok.inj (hkinds.symm.trans hread))
    rw [batchIn, hsame, ← batchIn] at htext
    exact (Batch.utf8ByteSize_files_le (fun hcsv => absurd hcsv (by decide)) (fun _ => hresults)
      hmanifest text htext).trans_lt (by norm_num)
  have hfailed : ((write .quiet "out" (some (.array [.string "json"])) []).on
      blockedManifest).1.toOption.isNone = true := by decide +kernel
  have hwritten : ((write .quiet "out" (some (.array [.string "json"])) []).on
      blockedManifest).2.files.length = 4 := by decide +kernel
  have hcontained := contained_of_on_write .quiet rfl hyear hsize
  cases hresult : ((write .quiet "out" (some (.array [.string "json"])) []).on
    blockedManifest).1 with
  | ok s =>
    rw [hresult] at hfailed
    cases hfailed
  | error e =>
    rw [hresult] at hcontained
    cases e with
    | fault f => exact ⟨f, _, rfl, rfl, hwritten, hcontained⟩
    | raised cause => exact absurd rfl (hcontained.answers cause)

end FilmReport.Report
