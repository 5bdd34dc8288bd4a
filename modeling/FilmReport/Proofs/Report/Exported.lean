import FilmReport.Proofs.Query.Execution
import FilmReport.Proofs.Report.Files
import FilmReport.Proofs.Shape.Checked

/-!
Finished exports. Of summaries and of requests, what is accepted is what was written or asked for.
An export that has a value wrote the files of one batch into one directory and reports them as they
were written (`exists_exported`); where nothing stands in its way it has a value
(`exists_on_write`).
-/

set_option autoImplicit false
set_option relaxedAutoImplicit false

namespace FilmReport.Report

section Checks

open Shape Checked

theorem ExportedFile.faithful_check : Faithful ExportedFile.check ExportedFile.toJson := by
  intro f g h
  simp only [check, toJson, record, gives_seq, gives_functor, at_, gives_within] at h
  obtain ⟨_, _, ⟨_, _, ⟨kind, hkind, rfl⟩, hpath, rfl⟩, hsize, rfl⟩ := h
  rw [Faithful.text 1 hkind, Faithful.text 1 hpath, Faithful.integer _ hsize]

theorem Summary.faithful_check : Faithful Summary.check Summary.toJson := by
  intro s t h
  simp only [check, toJson, record, gives_seq, gives_functor, at_, gives_within] at h
  obtain ⟨_, _, ⟨_, _, ⟨_, _, ⟨_, _, ⟨time, htime, rfl⟩, hdir, rfl⟩, hfiles, rfl⟩, hsucceeded, rfl⟩,
    hfailed, rfl⟩ := h
  rw [Faithful.dateTime htime, Faithful.text 1 hdir, ExportedFile.faithful_check.list 0 hfiles,
    Faithful.integer _ hsucceeded, Faithful.integer _ hfailed]

/-- A file is accepted if its name and its path are no empty texts and its size is exact. -/
theorem ExportedFile.gives_check {f : ExportedFile} (hkind : 1 ≤ f.kind.length)
    (hpath : 1 ≤ f.path.length) (hleast : 0 ≤ f.sizeBytes) (hsize : f.sizeBytes.natAbs < 2 ^ 53) :
    (ExportedFile.check (some f.toJson)).Gives f := by
  simp only [check, toJson, record, gives_seq, gives_functor, at_, gives_within]
  exact ⟨_, _, ⟨_, _, ⟨_, gives_text hkind, rfl⟩, gives_text hpath, rfl⟩,
    gives_integer hsize (broken_from_eq_nil hleast), rfl⟩

theorem Summary.gives_check {s : Summary} (htime : Calendar.isDateTime s.generatedAt = true)
    (hdir : 1 ≤ s.exportDir.length)
    (hfiles : ∀ f ∈ s.files, (ExportedFile.check (some f.toJson)).Gives f)
    (hsucceeded : 0 ≤ s.succeeded ∧ s.succeeded.natAbs < 2 ^ 53)
    (hfailed : 0 ≤ s.failed ∧ s.failed.natAbs < 2 ^ 53) :
    (Summary.check (some s.toJson)).Gives s := by
  simp only [check, toJson, record, gives_seq, gives_functor, at_, gives_within]
  exact ⟨_, _, ⟨_, _, ⟨_, _, ⟨_, _, ⟨_, gives_dateTime htime, rfl⟩, gives_text hdir, rfl⟩,
    gives_list hfiles, rfl⟩, gives_integer hsucceeded.2 (broken_from_eq_nil hsucceeded.1), rfl⟩,
    gives_integer hfailed.2 (broken_from_eq_nil hfailed.1), rfl⟩

theorem Format.faithful_check : Faithful Format.check fun f => .string f.text := by
  intro f g h
  cases f <;> exact (gives_valid.1 h).symm

/-- A request for forms, if it is accepted, is one for each of them once. -/
theorem Request.eq_of_read {exportDir : String} {formats : List Format} {r : Request}
    (h : Request.read exportDir (some (.array (formats.map fun f => .string f.text))) = .ok r) :
    r = ⟨exportDir, formats.eraseDups⟩ := by
  rw [Request.read] at h
  cases hcheck : (Request.check exportDir
      (some (.array (formats.map fun f => .string f.text)))).toExcept with
  | error issues =>
    rw [hcheck] at h
    cases h
  | ok r' =>
    rw [hcheck] at h
    rw [toExcept_eq_ok, Request.check, gives_seq] at hcheck
    obtain ⟨_, formats', hdir, hformats, rfl⟩ := hcheck
    obtain ⟨dir, hgiven, rfl⟩ := gives_functor.1 hdir
    rw [gives_within] at hgiven hformats
    rw [← Except.ok.inj h, Faithful.text 1 hgiven, Format.faithful_check.list 1 hformats]

theorem Format.gives_check (f : Format) : (Format.check (some (.string f.text))).Gives f := by
  cases f <;> exact gives_valid.2 rfl

theorem Request.read_eq_ok {exportDir : String} {formats : List Format}
    (hdir : 1 ≤ exportDir.length) (hformats : formats ≠ []) :
    Request.read exportDir (some (.array (formats.map fun f => .string f.text))) =
      .ok ⟨exportDir, formats.eraseDups⟩ := by
  have hlength : ¬ (formats.map fun f => Json.string f.text).length < 1 := by
    rw [List.length_map]
    exact Nat.not_lt.2 (List.length_pos_iff.2 hformats)
  obtain ⟨hissues, hvalue⟩ := gives_items (n := 0) fun f (_ : f ∈ formats) => Format.gives_check f
  have hlist : (list 1 Format.check (some (.array (formats.map fun f => .string f.text)))).Gives
      formats := by
    refine ⟨?_, hvalue⟩
    rw [list, shortness, if_neg hlength]
    exact List.append_eq_nil_iff.2 ⟨hissues, rfl⟩
  have hcheck : (Request.check exportDir
      (some (.array (formats.map fun f => .string f.text)))).Gives ⟨exportDir, formats⟩ := by
    rw [Request.check, gives_seq]
    exact ⟨_, formats, gives_functor.2 ⟨_, (gives_within _).2 (gives_text hdir), rfl⟩,
      (gives_within _).2 hlist, rfl⟩
  rw [Request.read, toExcept_eq_ok.2 hcheck]

end Checks

open Shape Query Act

/-- The outcomes of all queries of the catalog in a world. -/
def outcomesIn (p : Params) (w : World) : List Runner.Outcome :=
  catalog.map fun d => ⟨d, d.answerIn p w⟩

/-- The batch of an export, with the outcomes of all queries in a world. -/
def batchIn (time : String) (formats : List Format) (p : Params) (w : World) : Batch :=
  ⟨time, p, formats.eraseDups, outcomesIn p w⟩

/-- The names of the files of an export, in the order in which they are written. -/
def fileNames (formats : List Format) : List String :=
  (if .csv ∈ formats then catalog.map fun d => d.id ++ ".csv" else []) ++
  (if .json ∈ formats then ["results.json"] else []) ++ ["manifest.json"]

theorem fileNames_sublist (formats : List Format) :
    (fileNames formats).Sublist (fileNames Format.listed) := by
  refine List.Sublist.append (List.Sublist.append ?_ ?_) (List.Sublist.refl _)
  · split
    · exact List.Sublist.refl _
    · exact List.nil_sublist _
  · split
    · exact List.Sublist.refl _
    · exact List.nil_sublist _

theorem nodup_fileNames (formats : List Format) : (fileNames formats).Nodup := by
  have hall : (fileNames Format.listed).Nodup := by decide +kernel
  exact hall.sublist (fileNames_sublist formats)

theorem isName_of_mem_fileNames {formats : List Format} :
    ∀ name ∈ fileNames formats, Path.IsName name := by
  have hall : ∀ name ∈ fileNames Format.listed, Path.IsName name := by decide +kernel
  exact fun name hname => hall name ((fileNames_sublist formats).subset hname)

section Batch

variable {formats : List Format} {p : Params} {w : World}

theorem length_catalog : catalog.length = 50 := rfl

theorem contains_iff {time : String} {f : Format} :
    (batchIn time formats p w).formats.contains f = true ↔ f ∈ formats := by
  rw [batchIn, List.contains_iff_mem, List.mem_eraseDups]

theorem names_files (time stamp : String) :
    ((batchIn time formats p w).files stamp).map Prod.fst = fileNames formats := by
  rw [Batch.files, fileNames, List.map_append, List.map_append]
  simp only [contains_iff]
  congr 2
  · split
    · rw [batchIn, outcomesIn, List.map_map, List.map_map]
      rfl
    · rfl
  · split <;> rfl

theorem isName_of_mem_files {time stamp : String} :
    ∀ text ∈ (batchIn time formats p w).files stamp, Path.IsName text.1 := fun _ htext =>
  isName_of_mem_fileNames _ (names_files time stamp ▸ List.mem_map_of_mem htext)

end Batch

/-- What is reported of a batch that was written into a directory. -/
def summaryOf (b : Batch) (stamp directory : String) : Summary :=
  ⟨b.generatedAt, directory, reportOf directory (b.files stamp),
    (b.outcomes.length : Int) - b.failed, b.failed⟩

/-- A summary is accepted if the sizes in it are exact numbers. -/
theorem gives_check_summaryOf {b : Batch} {stamp : String} (directory : String)
    (htime : Calendar.isDateTime b.generatedAt = true) (hdir : 1 ≤ directory.length)
    (hnames : ∀ text ∈ b.files stamp, Path.IsName text.1)
    (hsize : ∀ text ∈ b.files stamp, text.2.utf8ByteSize < 2 ^ 53)
    (hcount : b.outcomes.length < 2 ^ 53) :
    (Summary.check (some (summaryOf b stamp directory).toJson)).Gives
      (summaryOf b stamp directory) := by
  have hfailed : b.failed ≤ b.outcomes.length := List.countP_le_length
  refine Summary.gives_check htime hdir ?_ ?_ ?_
  · intro f hf
    obtain ⟨text, htext, rfl⟩ := List.mem_map.1 hf
    refine ExportedFile.gives_check ?_ (Path.length_join_pos _ _) (Int.natCast_nonneg _) ?_
    · have hname := (hnames text htext).2.2.1
      exact Nat.pos_of_ne_zero fun hzero => hname (String.length_eq_zero_iff.1 hzero)
    · exact (Int.natAbs_natCast _).trans_lt (hsize text htext)
  · constructor <;> dsimp only [summaryOf] <;> omega
  · constructor <;> dsimp only [summaryOf] <;> omega

/-- What a finished export reports of a batch, and the world it leaves. -/
structure Exported (b : Batch) (stamp : String) (s : Summary) (w : World) : Prop where
  summary : s = summaryOf b stamp s.exportDir
  written : ∃ before, w.files = after s.exportDir before (b.files stamp)

theorem exists_exported {logger : Journal.Logger} {exportDir : String} {formats : List Format}
    {given : Fields} {w w' : World} {s : Summary}
    (h : (write logger exportDir (some (.array (formats.map fun f => .string f.text))) given).on w =
      (.ok s, w')) :
    ∃ p time stamp, Params.resolve given = .ok p ∧
      Exported (batchIn time formats p w) stamp s w' := by
  rw [write] at h
  obtain ⟨request, w₁, hrequest, hparams⟩ := on_bind_eq_ok.1 h
  obtain ⟨hread, rfl⟩ := on_ofExcept_eq_ok.1 hrequest
  obtain rfl := Request.eq_of_read hread
  obtain ⟨p, w₂, hresolve, hrun⟩ := on_bind_eq_ok.1 hparams
  obtain ⟨hgiven, rfl⟩ := on_ofExcept_eq_ok.1 hresolve
  obtain ⟨r', w₃, houtcomes, -⟩ := Runner.exists_on_runWith
    (logger.withContext [("component", .string "query-report")]) nodup_ids_catalog p w₂
  dsimp only at hrun
  rw [on_bind_of_ok houtcomes] at hrun
  obtain ⟨time, w₄, -, hwrite⟩ := on_bind_eq_ok.1 hrun
  rw [on_bind_of_ok (on_get w₄)] at hwrite
  obtain ⟨_, w₅, -, hmap⟩ := on_bind_eq_ok.1 hwrite
  obtain ⟨files, w₆, hfiles, hlog⟩ := on_bind_eq_ok.1 hmap
  obtain ⟨rfl, rfl⟩ := of_on_mapM_writeFile hfiles
  rw [Act.log, on_bind_of_ok (on_modify _ _)] at hlog
  refine ⟨p, time, w₄.stamp, hgiven, ?_⟩
  split at hlog
  · next s' hcheck =>
    obtain ⟨hs, rfl⟩ := Prod.mk.inj hlog
    obtain rfl := Except.ok.inj hs
    rw [Summary.faithful_check (Checked.toExcept_eq_ok.1 hcheck)]
    refine ⟨rfl, w₅.files, ?_⟩
    split <;> rfl
  · cases (Prod.mk.inj hlog).1

/-- The directory of a report that is asked for at a time. -/
def reportDir (exportDir : String) (t : Calendar.Instant) (w : World) : String :=
  Path.join (Path.resolve w.directory exportDir) (Batch.directoryName t.toText)

theorem clock_eq_of_elapsed {clock : List (Option Calendar.Instant)} {t : Option Calendar.Instant}
    (h : World.Elapsed [t] clock) : clock = [t] := by
  rcases List.suffix_cons_iff.1 h.1 with hsame | hnil
  · exact hsame
  · exact absurd (h.2 (List.suffix_nil.1 hnil)) (List.cons_ne_nil _ _)

/-- An export is finished where its directory can be made, no path to one of its files is too long
or leads to a directory, the clock tells a time, and no file becomes too large for its size to be
told. -/
theorem exists_on_write (logger : Journal.Logger) {exportDir : String} {formats : List Format}
    {given : Fields} {p : Params} {t : Calendar.Instant} {w : World} {files : Files}
    (hdir : 1 ≤ exportDir.length) (hformats : formats ≠ []) (hgiven : Params.resolve given = .ok p)
    (hclock : w.clock = [some t]) (htime : Calendar.isDateTime t.toText = true)
    (hmade : w.files.makeDirectory (reportDir exportDir t w) = (.ok (), files))
    (hshort : ∀ name ∈ fileNames formats,
      (Path.join (reportDir exportDir t w) name).utf8ByteSize < Files.tooManyBytes)
    (hfree : ∀ name ∈ fileNames formats,
      files.isDirectory (Path.join (reportDir exportDir t w) name) = false)
    (hsize : ∀ text ∈ (batchIn t.toText formats p w).files w.stamp, text.2.utf8ByteSize < 2 ^ 53) :
    ∃ s w', (write logger exportDir (some (.array (formats.map fun f => .string f.text))) given).on
      w = (.ok s, w') := by
  obtain ⟨r', v, houtcomes, hcontinues, -⟩ := Runner.exists_on_runWith
    (logger.withContext [("component", .string "query-report")]) nodup_ids_catalog p w
  have hfiles : v.files = w.files := congrArg (·.files) hcontinues.apart
  have hdirectory : v.directory = w.directory := congrArg (·.directory) hcontinues.apart
  have hstamp : v.stamp = w.stamp := congrArg (·.stamp) hcontinues.apart
  have hread : Act.readClock.on v = (.ok t.toText, v) := by
    have hv : v.clock = [some t] := clock_eq_of_elapsed (hclock ▸ hcontinues.clock)
    rw [Act.readClock, on_bind, on_get]
    dsimp only
    rw [hv]
    rfl
  have hmake := on_makeDirectory (w := v) (hfiles ▸ hmade)
  have hname : ∀ text ∈ (batchIn t.toText formats p w).files v.stamp, text.1 ∈ fileNames formats :=
    fun text htext => names_files t.toText v.stamp ▸ List.mem_map_of_mem htext
  have hwrite := on_mapM_writeFile (w := { v with files := files })
    (fun text htext => hshort _ (hname text htext)) fun text htext => hfree _ (hname text htext)
  have hcount : (batchIn t.toText formats p w).outcomes.length < 2 ^ 53 := by
    rw [batchIn, outcomesIn, List.length_map, length_catalog]
    norm_num
  have hcheck := gives_check_summaryOf (b := batchIn t.toText formats p w) (reportDir exportDir t w)
    htime (Path.length_join_pos _ _) isName_of_mem_files (hstamp ▸ hsize) hcount
  rw [reportDir] at hcheck
  rw [reportDir] at hmake hwrite
  rw [write, on_bind_of_ok (on_ofExcept_eq_ok.2 ⟨Request.read_eq_ok hdir hformats, rfl⟩),
    on_bind_of_ok (on_ofExcept_eq_ok.2 ⟨hgiven, rfl⟩)]
  dsimp only
  rw [on_bind_of_ok houtcomes, on_bind_of_ok hread, on_bind_of_ok (on_get v), hdirectory,
    on_bind_of_ok hmake]
  rw [batchIn, outcomesIn] at hwrite hcheck
  rw [on_bind_of_ok hwrite, Act.log, on_bind_of_ok (on_modify _ _)]
  rw [summaryOf] at hcheck
  rw [Checked.toExcept_eq_ok.2 hcheck]
  exact ⟨_, _, rfl⟩

end FilmReport.Report
