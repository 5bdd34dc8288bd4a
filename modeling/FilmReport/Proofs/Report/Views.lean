import FilmReport.Proofs.Query.Exported
import FilmReport.Proofs.Report.Csv
import FilmReport.Proofs.Report.Exported
import FilmReport.Proofs.Report.Extent

/-!
The three views of an export: the manifest, the file of all results and the tables. They are written
from the same outcomes and agree on each query (`views_of_on_write`): on whether it was answered and
with how many rows, on these rows, and on why it was not.
-/

set_option autoImplicit false
set_option relaxedAutoImplicit false

namespace FilmReport.Report

open Query Act

/-- The items of a list of an object. -/
def itemsOf (name : String) (j : Json) : List Json :=
  match j.get? name with
  | some (.array items) => items
  | _ => []

/-- A list of an object has an item with an identifier that meets a condition. -/
def Lists (name id : String) (meets : Json → Prop) (j : Json) : Prop :=
  ∃ item ∈ itemsOf name j, item.get? "id" = some (.string id) ∧ meets item

/-- An entry says that its query was answered with so many rows and without an error. -/
def Counts (count entry : Json) : Prop :=
  entry.get? "status" = some (.string "ok") ∧ entry.get? "rowCount" = some count ∧
    entry.get? "error" = some .null

def Fails (entry : Json) : Prop :=
  entry.get? "status" = some (.string "failed")

/-- An entry blames an error whose cause, or whose message if it has no cause, is the given one. -/
def Blames (reason : String) (entry : Json) : Prop :=
  ∃ error, entry.get? "error" = some error ∧
    (error.get? "cause").or (error.get? "message") = some (.string reason)

/-- An item of all results has the columns of a query and the given rows. -/
def HasRows (d : Definition) (rows : List Row) (item : Json) : Prop :=
  item.get? "columns" = some (.strings d.statement.columns) ∧
    item.get? "rows" = some (.array (rows.map Row.toJson))

/-- The records of a table: the columns, and the printed cells of each row. -/
def recordsOf (d : Definition) (rows : List Row) : List (List String) :=
  d.statement.columns :: rows.map fun row => d.statement.columns.map fun c => (row.get c).print

/-- The records of the table of a query that failed. -/
def recordsOfError (d : Definition) (reason : String) : List (List String) :=
  [["error", "query"], [reason, d.statement.text]]

/-- What the views of an export say of a query, of which `answer` became; results and tables are
looked at if they were asked for. -/
structure Agree (formats : List Format) (answer : Except Fault Result) (d : Definition)
    (manifest results : Json) (table : String) : Prop where
  answered : ∀ r, answer = .ok r →
    Lists "queries" d.id (Counts (.ofNat r.rows.length)) manifest ∧
      (.json ∈ formats → Lists "results" d.id (HasRows d r.rows) results) ∧
      (.csv ∈ formats → Csv.read table = some (recordsOf d r.rows))
  counts_iff_results : .json ∈ formats → ∀ count,
    Lists "queries" d.id (Counts count) manifest ↔
      ∃ rows : List Row, .ofNat rows.length = count ∧ Lists "results" d.id (HasRows d rows) results
  counts_iff_table : .csv ∈ formats → ∀ count,
    Lists "queries" d.id (Counts count) manifest ↔
      ∃ records : List (List String), .ofNat records.length = count ∧
        Csv.read table = some (d.statement.columns :: records)
  rows_eq : .json ∈ formats → .csv ∈ formats → ∀ rows,
    Lists "results" d.id (HasRows d rows) results → Csv.read table = some (recordsOf d rows)
  fails_iff_results : .json ∈ formats →
    (Lists "queries" d.id Fails manifest ↔ ¬ Lists "results" d.id (fun _ => True) results)
  fails_iff_table : .csv ∈ formats →
    (Lists "queries" d.id Fails manifest ↔
      ∃ reason, Csv.read table = some (recordsOfError d reason))
  blames : .csv ∈ formats → ∀ reason, Csv.read table = some (recordsOfError d reason) →
    Lists "queries" d.id (Blames reason) manifest

theorem toJson_injective_value : Function.Injective Value.toJson := by
  rintro (_ | x | s) (_ | y | t) h
  all_goals first | rfl | cases h
  · rfl
  · rfl

theorem toJson_injective_row : Function.Injective Row.toJson := by
  intro row row' h
  refine List.map_injective_iff.2 ?_ (Json.object.inj h)
  rintro ⟨name, value⟩ ⟨name', value'⟩ hpair
  obtain ⟨rfl, hvalue⟩ := Prod.mk.inj hpair
  rw [toJson_injective_value hvalue]

section Batch

variable {p : Params} {w : World} {b : Batch} {stamp : String} {d : Definition}

theorem reason_toJson (f : Fault) (stamp : String) :
    ((f.toJson stamp).get? "cause").or ((f.toJson stamp).get? "message") =
      some (.string (f.cause.getD f.message)) := by
  cases hcause : f.cause <;> simp [Fault.toJson, Json.get?, Fields.get?_cons, hcause]

/-- The answer of a definition is its own. -/
theorem answerIn_ok (hd : d ∈ catalog) {r : Result} (h : d.answerIn p w = .ok r) :
    r.id = d.id ∧ r.columns = d.statement.columns := by
  rw [Definition.answerIn] at h
  split at h
  · cases h
  · rw [(regular_of_mem_catalog d hd).answerOn_eq] at h
    split at h
    · cases h
    · cases hrows : checkRows d.id d.statement.columns 0 (d.statement.rows p w.data) with
      | error f =>
        rw [hrows] at h
        cases h
      | ok rows =>
        rw [hrows] at h
        rw [← Except.ok.inj h]
        exact ⟨rfl, rfl⟩

theorem itemsOf_manifest : itemsOf "queries" (b.manifest stamp) =
    b.outcomes.map (Batch.entry stamp (b.formats.contains .csv)) := rfl

theorem itemsOf_results : itemsOf "results" b.results =
    b.outcomes.filterMap fun o => o.result.toOption.map Result.toJson := rfl

theorem lists_manifest (hb : b.outcomes = outcomesIn p w) (hd : d ∈ catalog)
    {meets : Json → Prop} : Lists "queries" d.id meets (b.manifest stamp) ↔
      meets (Batch.entry stamp (b.formats.contains .csv) ⟨d, d.answerIn p w⟩) := by
  rw [Lists, itemsOf_manifest, hb, outcomesIn, List.map_map]
  constructor
  · rintro ⟨item, hitem, hid, hmeets⟩
    obtain ⟨e, he, rfl⟩ := List.mem_map.1 hitem
    have hsame : e.id = d.id := Json.string.inj (Option.some.inj hid)
    rwa [List.inj_on_of_nodup_map nodup_ids_catalog he hd hsame] at hmeets
  · intro hmeets
    exact ⟨_, List.mem_map_of_mem hd, rfl, hmeets⟩

theorem lists_results (hb : b.outcomes = outcomesIn p w) (hd : d ∈ catalog)
    {meets : Json → Prop} : Lists "results" d.id meets b.results ↔
      ∃ r, d.answerIn p w = .ok r ∧ meets r.toJson := by
  rw [Lists, itemsOf_results, hb, outcomesIn, List.filterMap_map]
  constructor
  · rintro ⟨item, hitem, hid, hmeets⟩
    obtain ⟨e, he, hwritten⟩ := List.mem_filterMap.1 hitem
    obtain ⟨r, hr, rfl⟩ := Option.map_eq_some_iff.1 hwritten
    have hanswer : e.answerIn p w = .ok r := eq_ok_of_toOption hr
    have hsame : e.id = d.id := by
      rw [← (answerIn_ok he hanswer).1]
      exact Json.string.inj (Option.some.inj hid)
    obtain rfl := List.inj_on_of_nodup_map nodup_ids_catalog he hd hsame
    exact ⟨r, hanswer, hmeets⟩
  · rintro ⟨r, hr, hmeets⟩
    refine ⟨r.toJson, List.mem_filterMap.2 ⟨d, hd, ?_⟩, ?_, hmeets⟩
    · simp [hr, Except.toOption]
    · exact congrArg (some ∘ Json.string) (answerIn_ok hd hr).1

theorem columns_of_mem_catalog :
    ∀ d ∈ catalog, d.statement.columns ≠ [] ∧ d.statement.columns ≠ ["error", "query"] := by
  simp only [catalog, List.forall_mem_cons]
  and_intros
  all_goals first | exact List.forall_mem_nil _ | decide

theorem read_table_ok (hd : d ∈ catalog) {r : Result} (h : d.answerIn p w = .ok r) :
    Csv.read (Batch.table ⟨d, .ok r⟩) = some (recordsOf d r.rows) := by
  have hcolumns := (answerIn_ok hd h).2
  refine (Csv.read_ofResult ?_).trans ?_
  · rw [hcolumns]
    exact (columns_of_mem_catalog d hd).1
  · rw [hcolumns, recordsOf]

theorem read_table_error (d : Definition) (f : Fault) :
    Csv.read (Batch.table ⟨d, .error f⟩) = some (recordsOfError d (f.cause.getD f.message)) :=
  Csv.read_ofError _ _

/-- No table is both that of an answer and that of an error. -/
theorem recordsOfError_ne (hd : d ∈ catalog) (reason : String) (records : List (List String)) :
    recordsOfError d reason ≠ d.statement.columns :: records := by
  intro h
  exact (columns_of_mem_catalog d hd).2 (List.cons.inj h).1.symm

theorem hasRows_toJson (hd : d ∈ catalog) {r : Result} (h : d.answerIn p w = .ok r)
    {rows : List Row} : HasRows d rows r.toJson ↔ rows = r.rows := by
  have hcolumns := (answerIn_ok hd h).2
  constructor
  · rintro ⟨-, hrows⟩
    have hsame := Json.array.inj (Option.some.inj hrows)
    exact (List.map_injective_iff.2 toJson_injective_row hsame).symm
  · rintro rfl
    exact ⟨congrArg (some ∘ Json.strings) hcolumns, rfl⟩

variable {formats : List Format}

/-- The views agree on a query that was answered. -/
theorem agree_ok (hb : b.outcomes = outcomesIn p w) (hd : d ∈ catalog) {r : Result}
    (hr : d.answerIn p w = .ok r) :
    Agree formats (d.answerIn p w) d (b.manifest stamp) b.results
      (Batch.table ⟨d, d.answerIn p w⟩) := by
  have hmanifest : ∀ {meets}, Lists "queries" d.id meets (b.manifest stamp) ↔
      meets (Batch.entry stamp (b.formats.contains .csv) ⟨d, .ok r⟩) := by
    intro meets
    rw [lists_manifest hb hd, hr]
  have hresults : ∀ {meets}, Lists "results" d.id meets b.results ↔ meets r.toJson := by
    intro meets
    rw [lists_results hb hd, hr]
    simp
  have htable := read_table_ok hd hr
  have hcounts : ∀ {count}, Lists "queries" d.id (Counts count) (b.manifest stamp) ↔
      Json.ofNat r.rows.length = count := by
    intro count
    rw [hmanifest]
    exact ⟨fun h => Option.some.inj h.2.1, fun h => ⟨rfl, congrArg some h, rfl⟩⟩
  have hanswered : ¬ Lists "queries" d.id Fails (b.manifest stamp) := by
    rw [hmanifest]
    intro h
    exact absurd (Json.string.inj (Option.some.inj h)) (by decide)
  rw [hr]
  exact {
    answered := by
      intro r' hr'
      obtain rfl := Except.ok.inj hr'
      exact ⟨hcounts.2 rfl, fun _ => hresults.2 ((hasRows_toJson hd hr).2 rfl), fun _ => htable⟩
    counts_iff_results := by
      intro _ count
      simp only [hcounts, hresults, hasRows_toJson hd hr, exists_eq_right]
    counts_iff_table := by
      intro _ count
      rw [hcounts, htable]
      constructor
      · intro h
        exact ⟨_, by rwa [List.length_map], rfl⟩
      · rintro ⟨records, hcount, hrecords⟩
        rw [← (List.cons.inj (Option.some.inj hrecords)).2, List.length_map] at hcount
        exact hcount
    rows_eq := by
      intro _ _ rows hrows
      rw [(hasRows_toJson hd hr).1 (hresults.1 hrows), htable]
    fails_iff_results := fun _ => iff_of_false hanswered (not_not.2 (hresults.2 trivial))
    fails_iff_table := by
      refine fun _ => iff_of_false hanswered ?_
      rintro ⟨reason, hreason⟩
      rw [htable] at hreason
      exact recordsOfError_ne hd reason _ (Option.some.inj hreason).symm
    blames := by
      intro _ reason hreason
      rw [htable] at hreason
      exact absurd (Option.some.inj hreason).symm (recordsOfError_ne hd reason _) }

/-- The views agree on a query that failed. -/
theorem agree_error (hb : b.outcomes = outcomesIn p w) (hd : d ∈ catalog) {f : Fault}
    (hf : d.answerIn p w = .error f) :
    Agree formats (d.answerIn p w) d (b.manifest stamp) b.results
      (Batch.table ⟨d, d.answerIn p w⟩) := by
  have hmanifest : ∀ {meets}, Lists "queries" d.id meets (b.manifest stamp) ↔
      meets (Batch.entry stamp (b.formats.contains .csv) ⟨d, .error f⟩) := by
    intro meets
    rw [lists_manifest hb hd, hf]
  have hresults : ∀ {meets}, ¬ Lists "results" d.id meets b.results := by
    intro meets h
    obtain ⟨r, hr, -⟩ := (lists_results hb hd).1 h
    rw [hf] at hr
    cases hr
  have htable := read_table_error d f
  have hcounts : ∀ {count}, ¬ Lists "queries" d.id (Counts count) (b.manifest stamp) := by
    intro count h
    rw [hmanifest] at h
    exact absurd (Json.string.inj (Option.some.inj h.1)) (by decide)
  have hfails : Lists "queries" d.id Fails (b.manifest stamp) := hmanifest.2 rfl
  rw [hf]
  exact {
    answered := fun r hr => by cases hr
    counts_iff_results := by
      refine fun _ count => iff_of_false hcounts ?_
      rintro ⟨rows, -, hrows⟩
      exact hresults hrows
    counts_iff_table := by
      refine fun _ count => iff_of_false hcounts ?_
      rintro ⟨records, -, hrecords⟩
      rw [htable] at hrecords
      exact recordsOfError_ne hd _ _ (Option.some.inj hrecords)
    rows_eq := fun _ _ rows hrows => absurd hrows hresults
    fails_iff_results := fun _ => iff_of_true hfails hresults
    fails_iff_table := fun _ => iff_of_true hfails ⟨_, htable⟩
    blames := by
      intro _ reason hreason
      rw [htable] at hreason
      have hrecord := (List.cons.inj (List.cons.inj (Option.some.inj hreason)).2).1
      rw [← (List.cons.inj hrecord).1]
      exact hmanifest.2 ⟨f.toJson stamp, rfl, reason_toJson f stamp⟩ }

theorem agree (formats : List Format) (hb : b.outcomes = outcomesIn p w) (hd : d ∈ catalog) :
    Agree formats (d.answerIn p w) d (b.manifest stamp) b.results
      (Batch.table ⟨d, d.answerIn p w⟩) := by
  cases hanswer : d.answerIn p w with
  | ok r => exact hanswer ▸ agree_ok hb hd hanswer
  | error f => exact hanswer ▸ agree_error hb hd hanswer

end Batch

/-- What an export that was asked for the given forms leaves, and what is reported of it. -/
structure Views (formats : List Format) (p : Params) (w : World) (s : Summary) (files : Files) :
    Prop where
  kinds : s.files.map (·.kind) = fileNames formats
  nodup : (s.files.map (·.kind)).Nodup
  /-- Each file is there with as many bytes as are reported. -/
  held : ∀ f ∈ s.files, f.path = Path.join s.exportDir f.kind ∧
    ∃ text, files.get? f.path = some (.text text) ∧ f.sizeBytes = text.utf8ByteSize
  total : s.succeeded + s.failed = 50
  failed : s.failed = (catalog.map fun d => d.answerIn p w).countP fun answer => !answer.isOk
  agree : ∃ manifest results : Json,
    files.get? (Path.join s.exportDir "manifest.json") = some (.text manifest.pretty) ∧
    (.json ∈ formats →
      files.get? (Path.join s.exportDir "results.json") = some (.text results.pretty)) ∧
    (itemsOf "queries" manifest).map (·.get? "id") = catalog.map (fun d => some (.string d.id)) ∧
    ∀ d ∈ catalog, ∃ table,
      (.csv ∈ formats →
        files.get? (Path.join s.exportDir (d.id ++ ".csv")) = some (.text table)) ∧
      Agree formats (d.answerIn p w) d manifest results table

theorem failed_batchIn (time : String) (formats : List Format) (p : Params) (w : World) :
    (batchIn time formats p w).failed =
      (catalog.map fun d => d.answerIn p w).countP fun answer => !answer.isOk := by
  rw [Batch.failed, batchIn, outcomesIn, List.countP_map, List.countP_map]
  refine List.countP_congr fun d _ => ?_
  rw [Function.comp, Function.comp, Runner.Outcome.failed]
  cases d.answerIn p w <;> rfl

theorem views_of_exported {formats : List Format} {p : Params} {w w' : World} {time stamp : String}
    {s : Summary} (h : Exported (batchIn time formats p w) stamp s w') :
    Views formats p w s w'.files := by
  obtain ⟨before, hwritten⟩ := h.written
  have hfiles : s.files = reportOf s.exportDir ((batchIn time formats p w).files stamp) :=
    congrArg (·.files) h.summary
  have hsucceeded : s.succeeded =
      ((batchIn time formats p w).outcomes.length : Int) - (batchIn time formats p w).failed :=
    congrArg (·.succeeded) h.summary
  have hfailed : s.failed = (batchIn time formats p w).failed := congrArg (·.failed) h.summary
  have hkinds : s.files.map (·.kind) = fileNames formats := by
    rw [← names_files time stamp, hfiles, reportOf, List.map_map]
    rfl
  have hget : ∀ text ∈ (batchIn time formats p w).files stamp,
      w'.files.get? (Path.join s.exportDir text.1) = some (.text text.2) := by
    rw [hwritten]
    exact get?_after isName_of_mem_files (names_files time stamp ▸ nodup_fileNames formats) before
  exact {
    kinds := hkinds
    nodup := hkinds ▸ nodup_fileNames formats
    held := by
      intro f hf
      rw [hfiles] at hf
      obtain ⟨text, htext, rfl⟩ := List.mem_map.1 hf
      exact ⟨rfl, text.2, hget text htext, rfl⟩
    total := by
      rw [hsucceeded, hfailed, sub_add_cancel, batchIn, outcomesIn, List.length_map, length_catalog]
      rfl
    failed := by rw [hfailed, failed_batchIn]
    agree := by
      refine ⟨(batchIn time formats p w).manifest stamp, (batchIn time formats p w).results,
        hget ("manifest.json", _) ?_, fun hjson => hget ("results.json", _) ?_, ?_, fun d hd =>
        ⟨Batch.table ⟨d, d.answerIn p w⟩, fun hcsv => hget (d.id ++ ".csv", _) ?_,
          agree formats rfl hd⟩⟩
      · exact List.mem_append_right _ (List.mem_singleton_self _)
      · refine List.mem_append_left _ (List.mem_append_right _ ?_)
        rw [if_pos (contains_iff.2 hjson)]
        exact List.mem_singleton_self _
      · rw [itemsOf_manifest, batchIn, outcomesIn, List.map_map, List.map_map]
        rfl
      · refine List.mem_append_left _ (List.mem_append_left _ ?_)
        rw [if_pos (contains_iff.2 hcsv)]
        exact List.mem_map.2 ⟨_, List.mem_map_of_mem hd, rfl⟩ }

/-- An export that is finished has written three views of one batch, which agree on every query of
the catalog. -/
theorem views_of_on_write {logger : Journal.Logger} {exportDir : String} {formats : List Format}
    {given : Fields} {w w' : World} {s : Summary}
    (h : (write logger exportDir (some (.array (formats.map fun f => .string f.text))) given).on w =
      (.ok s, w')) :
    ∃ p, Params.resolve given = .ok p ∧ Views formats p w s w'.files := by
  obtain ⟨p, time, stamp, hgiven, hexported⟩ := exists_exported h
  exact ⟨p, hgiven, views_of_exported hexported⟩

/-- A database with one genre, in which the table of languages is missing. -/
def withoutLanguages : World :=
  World.inMemory { Store.empty with
    movie := some [], hasAmount := true, names := some [], genre := some [⟨1, ⟨"a", "Drama"⟩⟩],
    directorMapping := some [], roleMapping := some [], ratings := some [],
    movieCountry := some [] } [some ⟨0⟩]

/-- Three queries fail for want of a table; both forms are asked for, one of them twice. -/
theorem views_of_withoutLanguages :
    ∃ s w', (write .quiet "out"
        (some (.array ([Format.json, .csv, .json].map fun f => .string f.text))) []).on
          withoutLanguages = (.ok s, w') ∧
      Views [.json, .csv, .json] .standard withoutLanguages s w'.files ∧ s.failed = 3 := by
  have hgiven := Params.resolve_nil
  have htables : ∀ o ∈ outcomesIn .standard withoutLanguages, Batch.tableExtent o ≤ 2 ^ 52 := by
    decide +kernel
  have hresults : (batchIn (Calendar.Instant.toText ⟨0⟩) [.json, .csv, .json] .standard
      withoutLanguages).results.extent 0 ≤ 2 ^ 52 := by decide +kernel
  have hmanifest : ((batchIn (Calendar.Instant.toText ⟨0⟩) [.json, .csv, .json] .standard
      withoutLanguages).manifest "").extent 0 ≤ 2 ^ 52 := by decide +kernel
  have hmade : (withoutLanguages.files.makeDirectory
      (reportDir "out" ⟨0⟩ withoutLanguages)).1.toOption = some () := by decide +kernel
  have hshort : ∀ name ∈ fileNames [.json, .csv, .json],
      (Path.join (reportDir "out" ⟨0⟩ withoutLanguages) name).utf8ByteSize <
        Files.tooManyBytes := by
    decide +kernel
  have hfree : ∀ name ∈ fileNames [.json, .csv, .json],
      (withoutLanguages.files.makeDirectory (reportDir "out" ⟨0⟩ withoutLanguages)).2.isDirectory
        (Path.join (reportDir "out" ⟨0⟩ withoutLanguages) name) = false := by decide +kernel
  have hfailed : ((catalog.map fun d => d.answerIn .standard withoutLanguages).countP fun answer =>
      !answer.isOk) = 3 := by decide +kernel
  obtain ⟨s, w', hon⟩ := exists_on_write .quiet (by decide) (List.cons_ne_nil _ _) hgiven rfl
    (by decide +kernel) (Prod.ext (eq_ok_of_toOption hmade) rfl) hshort hfree fun text htext =>
      (Batch.utf8ByteSize_files_le (fun _ => htables) (fun _ => hresults) hmanifest text
        htext).trans_lt (by norm_num)
  obtain ⟨p, hp, hviews⟩ := views_of_on_write hon
  obtain rfl := Except.ok.inj (hgiven.symm.trans hp)
  exact ⟨s, w', hon, hviews, by rw [hviews.failed, hfailed]; rfl⟩

end FilmReport.Report
