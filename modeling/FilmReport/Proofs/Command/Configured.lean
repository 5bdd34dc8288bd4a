import FilmReport.Command.Run
import FilmReport.Proofs.Dataset.Batch
import FilmReport.Proofs.Normalize.Amount
import FilmReport.Proofs.Operation.Migrated
import FilmReport.Proofs.Shape.Checked

/-!
Settings from an environment, and runs with them. The settings depend only on what is left of the
known variables after white space is stripped, so an environment may be tidied before it is read
(`Settings.load_tidied`). The options of the memberships that they hold pass the check of a run and
come out of it as they are (`Settings.resolve_of_load`). Of all stages of the work only the
normalization asks for options; so no fault that a run with settings reports says that options are
invalid, whatever the environment and the world (`Settings.configures_of_nodup`).
-/

set_option autoImplicit false
set_option relaxedAutoImplicit false

namespace FilmReport

open Act

namespace Text

/-- Nothing is left to strip from what was stripped. -/
theorem trimSpace_trimSpace (s : String) : trimSpace (trimSpace s) = trimSpace s := by
  rw [trimSpace, trimSpace, trimWith, trimWith, String.toList_ofList, String.ofList_inj]
  refine trims_iff.1 ⟨⟨[], [], ?_, ?_, ?_⟩, fun _ => head?_trimList, fun _ => getLast?_trimList⟩
  · rw [List.nil_append, List.append_nil]
  · exact List.forall_mem_nil _
  · exact List.forall_mem_nil _

end Text

namespace Settings

open Shape Checked Normalize

variable {env env' : Environment} {cwd : String} {settings : Settings}

section tidying

/-- The settings depend only on what is left of the known variables. -/
theorem load_congr (h : ∀ name ∈ variableNames, cleaned? env' name = cleaned? env name)
    (cwd : String) : load env' cwd = load env cwd := by
  simp only [variableNames, List.forall_mem_cons] at h
  obtain ⟨hdb, hdataset, hexport, hlevel, hlimit, hblank, -⟩ := h
  have hcheck : check env' = check env := by
    simp only [check, at_, hdb, hdataset, hexport, hlevel, hlimit, hblank]
  rw [load, load, hcheck]

/-- Every value without white space at its ends. -/
def trimmed (env : Environment) : Environment :=
  env.map fun v => (v.1, Text.trimSpace v.2)

/-- The variables of which something is left. -/
def withoutBlank (env : Environment) : Environment :=
  env.filter fun v => Text.trimSpace v.2 ≠ ""

/-- The variables that are known. -/
def withoutUnknown (env : Environment) : Environment :=
  env.filter fun v => variableNames.contains v.1

theorem cleaned?_cons (v : String × String) (rest : Environment) (name : String) :
    cleaned? (v :: rest) name =
      if v.1 = name then if Text.trimSpace v.2 = "" then none else some (Text.trimSpace v.2)
      else cleaned? rest name := by
  rw [cleaned?, List.find?_cons]
  by_cases hname : v.1 = name
  · simp [hname]
  · simp [hname, cleaned?]

theorem cleaned?_trimmed (env : Environment) (name : String) :
    cleaned? (trimmed env) name = cleaned? env name := by
  induction env with
  | nil => rfl
  | cons v rest ih =>
    have hcons : trimmed (v :: rest) = (v.1, Text.trimSpace v.2) :: trimmed rest := rfl
    rw [hcons, cleaned?_cons, cleaned?_cons, Text.trimSpace_trimSpace, ih]

theorem cleaned?_of_not_mem {name : String} (h : name ∉ env.map Prod.fst) :
    cleaned? env name = none := by
  have hnone : env.find? (fun v => v.1 = name) = none := by
    refine List.find?_eq_none.2 fun v hv hname => h ?_
    exact of_decide_eq_true hname ▸ List.mem_map_of_mem hv
  rw [cleaned?, hnone]

/-- Where no two variables have one name, those that are blank are as good as absent. -/
theorem cleaned?_withoutBlank (hnames : (env.map Prod.fst).Nodup) (name : String) :
    cleaned? (withoutBlank env) name = cleaned? env name := by
  induction env with
  | nil => rfl
  | cons v rest ih =>
    rw [List.map_cons, List.nodup_cons] at hnames
    replace ih := ih hnames.2
    rw [withoutBlank, List.filter_cons, ← withoutBlank]
    split
    · rw [cleaned?_cons, cleaned?_cons, ih]
    · next hblank =>
      rw [decide_eq_true_eq, not_not] at hblank
      rw [ih, cleaned?_cons, if_pos hblank]
      split
      · next hname => exact cleaned?_of_not_mem (hname ▸ hnames.1)
      · rfl

theorem cleaned?_withoutUnknown {name : String} (hname : name ∈ variableNames) :
    cleaned? (withoutUnknown env) name = cleaned? env name := by
  induction env with
  | nil => rfl
  | cons v rest ih =>
    rw [withoutUnknown, List.filter_cons, ← withoutUnknown]
    split
    · rw [cleaned?_cons, cleaned?_cons, ih]
    · next hunknown =>
      rw [ih, cleaned?_cons, if_neg]
      rintro rfl
      exact hunknown (List.contains_iff_mem.2 hname)

/-- An environment in which every value is stripped, no variable is blank and all are known. -/
def tidied (env : Environment) : Environment :=
  withoutUnknown (withoutBlank (trimmed env))

/-- An environment may be tidied before the settings are read. -/
theorem load_tidied (hnames : (env.map Prod.fst).Nodup) (cwd : String) :
    load (tidied env) cwd = load env cwd := by
  have htrimmed : (trimmed env).map Prod.fst = env.map Prod.fst := by
    rw [trimmed, List.map_map]
    rfl
  refine load_congr (fun name hname => ?_) cwd
  rw [tidied, cleaned?_withoutUnknown hname, cleaned?_withoutBlank (htrimmed.symm ▸ hnames),
    cleaned?_trimmed]

end tidying

theorem broken_between {least most n : ℤ} :
    (Range.between least most).broken n = [] ↔ least ≤ n ∧ n ≤ most := by
  simp [Range.between, Range.broken]

/-- A limit within the bounds of the settings is within those of a run. -/
theorem gives_options {n : ℤ} {blank : Bool} (hn : 1 ≤ n ∧ n ≤ 32) :
    (SplitOptions.check (some (.object (SplitOptions.standard.fields.merge
      (SplitOptions.fields ⟨.finite n, blank⟩))))).Gives ⟨.finite n, blank⟩ := by
  have hmerge : SplitOptions.standard.fields.merge (SplitOptions.fields ⟨.finite n, blank⟩) =
      SplitOptions.fields ⟨.finite n, blank⟩ := rfl
  have hlimit : (integer (.between 1 100) (some (.number (.finite n)))).Gives n := by
    have hsize : n.natAbs < 2 ^ 53 := by omega
    rw [← Binary64.ofInt_of_natAbs_lt hsize]
    exact gives_integer hsize (broken_between.2 ⟨hn.1, by omega⟩)
  simp only [hmerge, SplitOptions.check, record, at_, gives_seq, gives_functor, gives_within]
  exact ⟨_, blank, ⟨n, hlimit, rfl⟩, gives_valid.2 rfl, rfl⟩

theorem exists_limit_of_check (h : (check env).Gives settings) :
    ∃ n : ℤ, (1 ≤ n ∧ n ≤ 32) ∧ ∃ blank, settings.membership = ⟨.finite n, blank⟩ := by
  simp only [check, at_, gives_seq, gives_functor, gives_within] at h
  obtain ⟨_, blank, ⟨_, n, ⟨_, _, ⟨_, _, ⟨_, _, ⟨_, -, rfl⟩, -, rfl⟩, -, rfl⟩, -, rfl⟩, hlimit,
    rfl⟩, -, rfl⟩ := h
  refine ⟨n, ?_, blank, rfl⟩
  cases hvalue : cleaned? env "REELSTATS_MEMBERSHIP_TOKEN_LIMIT" with
  | none =>
    rw [hvalue] at hlimit
    obtain rfl := gives_valid.1 hlimit
    omega
  | some value =>
    rw [hvalue] at hlimit
    exact broken_between.1 (of_gives_integer hlimit).2

/-- The options in settings pass the check of a run, which answers them as they are. -/
theorem resolve_of_load (h : load env cwd = .ok settings) :
    SplitOptions.resolve settings.membership.fields = .ok settings.membership := by
  rw [load] at h
  cases hcheck : (check env).toExcept with
  | error issues =>
    rw [hcheck] at h
    cases h
  | ok s =>
    rw [hcheck] at h
    obtain rfl := Except.ok.inj h
    obtain ⟨n, hn, blank, hmembership⟩ := exists_limit_of_check (toExcept_eq_ok.1 hcheck)
    dsimp only
    rw [hmembership, SplitOptions.resolve, toExcept_eq_ok.2 (gives_options hn)]

end Settings

/-- A fault that does not say that options are invalid. -/
def Fault.SparesOptions (f : Fault) : Prop :=
  f.code ≠ .optionsInvalid

theorem Act.Reports.transaction {α : Type} {work : Act α} (h : Reports work Fault.SparesOptions)
    (operation : String) : Reports (Act.inTransaction operation work) Fault.SparesOptions :=
  h.inTransaction fun _ => Fault.Code.noConfusion

theorem Migration.spares_run : Reports run Fault.SparesOptions := by
  have hmissing (names : List String) (steps : List Migration) (done : Applied) :
      Reports (applyMissing names done steps) Fault.SparesOptions := by
    induction steps generalizing done with
    | nil => exact Reports.pure _
    | cons m rest ih =>
      rw [applyMissing]
      split
      · exact ih _
      · refine Reports.bind (Reports.reporting ?_ fun _ => Fault.Code.noConfusion) fun _ => ih _
        exact (reports_perform m).mono fun _ => False.elim
  refine Reports.bind (Reports.reporting ?_ fun _ => Fault.Code.noConfusion) fun names =>
    hmissing _ _ _
  exact reports_recorded.mono fun _ => False.elim

namespace Dataset

theorem spares_load {path : String} {content : Except String String} {f : Fault}
    (h : load path content = .error f) : f.SparesOptions := by
  unfold load at h
  split at h
  · obtain rfl := Except.error.inj h
    exact Fault.Code.noConfusion
  · split at h
    · rw [parse] at h
      split at h
      · cases h
      · obtain rfl := Except.error.inj h
        exact Fault.Code.noConfusion
    · obtain rfl := Except.error.inj h
      exact Fault.Code.noConfusion

theorem spares_seed (d : Dataset) : Reports (seed d) Fault.SparesOptions := by
  refine Reports.bind ((Reports.peek _).bind fun _ => Reports.prepareTransactions) fun _ => ?_
  refine Reports.transaction ((Reports.forM (fun item => ?_) _).bind fun _ => Reports.pure _) _
  refine Reports.reporting (Reports.transact ?_) fun _ => Fault.Code.noConfusion
  exact Reports.forM (fun given => (reports_writeRow _ given).mono fun _ => False.elim) _

end Dataset

namespace Normalize

theorem spares_coerce (logger : Journal.Logger) :
    Reports (coerce logger) Fault.SparesOptions := by
  refine Reports.transaction (Reports.reporting ?_ fun _ => Fault.Code.noConfusion) _
  refine (Reports.look _).bind fun rows => (Reports.look _).bind fun _ => ?_
  split
  · exact Reports.report Fault.Code.noConfusion
  · next sources _ =>
    -- What follows the change, which is made only where there are sources.
    have hwarned : Reports (do
        (Coercion.ofSources sources).warnings.forM fun w =>
          Act.log (logger.withContext [("stage", .string "gross-income")]) .warning w.message
            w.context
        pure (Coercion.ofSources sources)) Fault.SparesOptions :=
      (Reports.forM (fun _ => Reports.log _ _ _ _) _).bind fun _ => Reports.pure _
    dsimp only
    split
    · exact hwarned
    · exact (Reports.change _).bind fun _ => hwarned

theorem spares_rebuildWith (logger : Journal.Logger) (kind : MembershipKind)
    (options : SplitOptions) : Reports (rebuildWith logger kind options) Fault.SparesOptions := by
  have hstage : Reports (stage kind options) Fault.SparesOptions := by
    refine Reports.transaction (Reports.reporting ?_ fun _ => Fault.Code.noConfusion) _
    refine (Reports.look _).bind fun rows => (Reports.change _).bind fun _ => ?_
    split
    · exact Reports.report Fault.Code.noConfusion
    · dsimp only
      split
      · exact Reports.pure _
      · exact (Reports.change _).bind fun _ => Reports.pure _
  have hpublish : Reports (publish kind) Fault.SparesOptions := by
    refine Reports.transaction (Reports.reporting ?_ fun _ => Fault.Code.noConfusion) _
    exact (Reports.change _).bind fun _ => (Reports.change _).bind fun n =>
      (Reports.change _).bind fun _ => Reports.pure n
  exact hstage.bind fun _ => hpublish.bind fun _ => (Reports.log _ _ _ _).bind fun _ =>
    Reports.pure _

theorem spares_standardize (logger : Journal.Logger) :
    Reports (standardize logger) Fault.SparesOptions := by
  have hraising {α : Type} (r : Except Cause α) : Reports (raising r) Fault.SparesOptions := by
    cases r with
    | ok a => exact Reports.pure a
    | error cause => exact Reports.raised cause
  have hrules (rules : List (Except Cause Rule)) (counts : Fields) :
      Reports (applyRules counts rules) Fault.SparesOptions := by
    induction rules generalizing counts with
    | nil => exact Reports.pure _
    | cons rule rest ih =>
      refine (hraising rule).bind fun r => Reports.bind ?_ fun n => ih _
      exact (Reports.change _).reporting fun _ => Fault.Code.noConfusion
  refine Reports.bind (Reports.transaction ?_ _) fun counts => ?_
  · exact (hraising _).bind fun rules => hrules _ _
  · exact (Reports.log _ _ _ _).bind fun _ => Reports.pure _

theorem spares_recordRun (r : RunRecord) : Reports (recordRun r) Fault.SparesOptions :=
  (Reports.change _).reporting fun _ => Fault.Code.noConfusion

namespace Stages

theorem spares_fail {α : Type} (st : Stages) (progress : Progress) {fault : Fault}
    (hfault : fault.SparesOptions) :
    Reports (st.fail progress fault : Act α) Fault.SparesOptions := by
  refine (Reports.log _ _ _ _).bind fun _ => Reports.readClock.bind fun finishedAt => ?_
  refine (spares_recordRun _).outcome_bind (fun _ => ?_) (fun f _ => ?_) fun cause => ?_
  · exact Reports.report hfault
  · exact (Reports.log _ _ _ _).bind fun _ => Reports.report hfault
  · exact (Reports.raised cause).bind fun _ => Reports.report hfault

/-- A stage reports what its action does. -/
theorem spares_stage {α : Type} (st : Stages) (progress : Progress) {act : Act α}
    (h : Reports act Fault.SparesOptions) :
    Reports (st.stage progress act) Fault.SparesOptions :=
  h.outcome_bind (fun a => Reports.pure a) (fun _ hfault => st.spares_fail progress hfault)
    fun cause => Reports.raised cause

theorem spares_perform (st : Stages) : Reports st.perform Fault.SparesOptions := by
  refine (st.spares_stage _ (spares_coerce _)).bind fun gross => ?_
  refine (Reports.log _ _ _ _).bind fun _ => ?_
  refine (st.spares_stage _ (spares_rebuildWith _ _ _)).bind fun country => ?_
  refine (st.spares_stage _ (spares_rebuildWith _ _ _)).bind fun language => ?_
  exact (st.spares_stage _ (spares_standardize _)).bind fun counts => Reports.pure _

end Stages

/-- A run with options that pass their check does not report that they are invalid. -/
theorem spares_run {logger : Journal.Logger} {given : Fields} {options : SplitOptions}
    (h : SplitOptions.resolve given = .ok options) :
    Reports (run logger given) Fault.SparesOptions := by
  refine (Reports.ofExcept fun f hf => ?_).bind fun options => Reports.readClock.bind fun _ => ?_
  · rw [h] at hf
    cases hf
  refine (Reports.log _ _ _ _).bind fun _ => (Stages.spares_perform _).bind fun done => ?_
  refine Reports.readClock.bind fun _ => (spares_recordRun _).bind fun runId => ?_
  exact (Reports.log _ _ _ _).bind fun _ => Reports.pure _

end Normalize

namespace Query.Runner

theorem spares_checkRows {id : String} {columns : List String} {n : Nat}
    {data : List (List Datum)} {f : Fault} (h : checkRows id columns n data = .error f) :
    f.SparesOptions := by
  induction data generalizing n with
  | nil => cases h
  | cons row rest ih =>
    rw [checkRows] at h
    split at h
    · cases hrest : checkRows id columns (n + 1) rest with
      | error e =>
        rw [hrest] at h
        obtain rfl := Except.error.inj h
        exact ih hrest
      | ok rows =>
        rw [hrest] at h
        cases h
    · obtain rfl := Except.error.inj h
      exact Fault.Code.noConfusion

theorem spares_execute (r : Runner) (d : Definition) (p : Params) :
    Reports (r.execute d p) Fault.SparesOptions := by
  have hready : Reports (r.ready d) Fault.SparesOptions := by
    rw [ready]
    split
    · exact Reports.pure _
    · exact (Reports.peek _).bind fun _ => Reports.pure _
  have hanswer (st : Statement) : Reports (r.answer d st p) Fault.SparesOptions := by
    refine Reports.bind ?_ fun data => (Reports.ofExcept fun f hf => spares_checkRows hf).bind
      fun rows => (Reports.log _ _ _ _).bind fun _ => Reports.pure _
    rw [Statement.run]
    have hrows : Reports (do
        requireOpen
        ofStore (bindParams d.parameters st.bound)
        look fun s => do
          st.prepare s
          pure (st.rows p s)) Fault.SparesOptions :=
      Reports.requireOpen.bind fun _ => (Reports.ofStore _).bind fun _ => Reports.look _
    dsimp only
    split
    · exact hrows
    · exact (Reports.raised _).bind fun _ => hrows
  refine hready.outcome_bind (fun st => ?_) (fun _ _ => Reports.pure _) fun _ => Reports.pure _
  exact (hanswer st).outcome_bind (fun _ => Reports.pure _) (fun _ _ => Reports.pure _)
    fun _ => Reports.pure _

theorem spares_runWith (r : Runner) (p : Params) :
    Reports (r.runWith p) Fault.SparesOptions := by
  have hall (definitions : List Definition) (r : Runner) :
      Reports (executeAll p r definitions) Fault.SparesOptions := by
    induction definitions generalizing r with
    | nil => exact Reports.pure _
    | cons d rest ih =>
      refine (r.spares_execute d p).bind fun executed => ?_
      have hrest : Reports (do
          let done ← executeAll p executed.2 rest
          pure (⟨d, executed.1⟩ :: done.1, done.2)) Fault.SparesOptions :=
        (ih executed.2).bind fun _ => Reports.pure _
      dsimp only
      split
      · exact hrest
      · exact (Reports.log _ _ _ _).bind fun _ => hrest
  exact (hall _ _).bind fun _ => (Reports.log _ _ _ _).bind fun _ => Reports.pure _

end Query.Runner

theorem Report.spares_write (logger : Journal.Logger) (exportDir : String) (formats : Option Json)
    (given : Fields) : Reports (write logger exportDir formats given) Fault.SparesOptions := by
  have hmade (path : String) : Reports (makeDirectory path) Fault.SparesOptions := by
    refine Reports.get.bind fun w => (Reports.set _).bind fun _ => ?_
    split
    · exact Reports.pure _
    · exact Reports.report Fault.Code.noConfusion
  have hwritten (directory name content : String) :
      Reports (writeFile directory name content) Fault.SparesOptions := by
    refine Reports.get.bind fun w => ?_
    split
    · exact (Reports.set _).bind fun _ => Reports.pure _
    · exact Reports.report Fault.Code.noConfusion
  refine (Reports.ofExcept fun f hf => ?_).bind fun request => ?_
  · rw [Request.read] at hf
    split at hf
    · cases hf
    · obtain rfl := Except.error.inj hf
      exact Fault.Code.noConfusion
  refine (Reports.ofExcept fun f hf => ?_).bind fun params => ?_
  · rw [Query.Params.resolve] at hf
    split at hf
    · cases hf
    · obtain rfl := Except.error.inj hf
      exact Fault.Code.noConfusion
  refine (Query.Runner.spares_runWith _ _).bind fun ran => Reports.readClock.bind fun _ => ?_
  refine Reports.get.bind fun w => (hmade _).bind fun _ => ?_
  refine (Reports.mapM (fun file => hwritten _ _ _) _).bind fun files => ?_
  refine (Reports.log _ _ _ _).bind fun _ => ?_
  dsimp only
  split
  · exact Reports.pure _
  · exact Reports.report Fault.Code.noConfusion

namespace Command

theorem spares_work {logger : Journal.Logger} {settings : Settings}
    {options : Normalize.SplitOptions}
    (h : Normalize.SplitOptions.resolve settings.membership.fields = .ok options)
    (args : Arguments) : Reports (work logger settings args) Fault.SparesOptions := by
  have hsetUp (dataset : Option String) :
      Reports (setUp logger settings dataset) Fault.SparesOptions := by
    cases dataset with
    | none => exact Reports.report Fault.Code.noConfusion
    | some path =>
      refine Reports.get.bind fun w => ?_
      refine (Reports.ofExcept fun f hf => Dataset.spares_load hf).bind fun d => ?_
      refine (Dataset.spares_seed d).bind fun counts => (Reports.log _ _ _ _).bind fun _ => ?_
      exact (Normalize.spares_run h).bind fun _ => Reports.pure _
  refine Migration.spares_run.bind fun migrated => (Reports.log _ _ _ _).bind fun _ => ?_
  have hreport : Reports (do
      let summary ← Report.write logger (args.exportDir.getD settings.exportDir)
        (some (.strings (args.formats.map Report.Format.text))) []
      Act.log logger .info "report ready"
        [("exportDir", .string summary.exportDir), ("succeeded", .ofInt summary.succeeded),
         ("failed", .ofInt summary.failed)]) Fault.SparesOptions :=
    (Report.spares_write _ _ _ _).bind fun _ => Reports.log _ _ _ _
  dsimp only
  split
  · exact hreport
  · exact (hsetUp _).bind fun _ => hreport

end Command

namespace Settings

/-- Settings that are read from an environment suit the normalization, and what they are read from
may be tidied. -/
structure Configures (env : Environment) (cwd : String) : Prop where
  /-- The options pass their check as they are. -/
  resolves : ∀ s, load env cwd = .ok s →
    Normalize.SplitOptions.resolve s.membership.fields = .ok s.membership
  /-- The normalization does not find them invalid. -/
  runs : ∀ s logger, load env cwd = .ok s →
    Reports (Normalize.run logger s.membership.fields) Fault.SparesOptions
  /-- Nor does any other part of the work of the program. -/
  works : ∀ s logger args, load env cwd = .ok s →
    Reports (Command.work logger s args) Fault.SparesOptions
  tidied : load (tidied env) cwd = load env cwd

/-- Environments with one value for each of their variables configure runs. -/
theorem configures_of_nodup {env : Environment} (hnames : (env.map Prod.fst).Nodup)
    (cwd : String) : Configures env cwd where
  resolves _ h := resolve_of_load h
  runs _ _ h := Normalize.spares_run (resolve_of_load h)
  works _ _ args h := Command.spares_work (resolve_of_load h) args
  tidied := load_tidied hnames cwd

/-- A hexadecimal limit between spaces, a blank variable and one that is not known. -/
def loose : Environment :=
  [("REELSTATS_MEMBERSHIP_TOKEN_LIMIT", " 0x10 "), ("REELSTATS_LOG_LEVEL", "  "),
   ("PATH", "/bin")]

theorem configures_of_nodup_loose :
    (loose.map Prod.fst).Nodup ∧
      tidied loose = [("REELSTATS_MEMBERSHIP_TOKEN_LIMIT", "0x10")] ∧
      (load loose "/work").toOption.map Settings.membership = some ⟨.finite 16, true⟩ ∧
      Configures loose "/work" :=
  ⟨by decide, by decide +kernel, by decide +kernel, configures_of_nodup (by decide) "/work"⟩

end Settings

end FilmReport
