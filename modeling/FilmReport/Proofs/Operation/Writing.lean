import FilmReport.Proofs.Dataset.Batch
import FilmReport.Proofs.Normalize.Failure
import FilmReport.Proofs.Session.Along

/-!
Statement by statement: staging, publishing, rebuilding and the writing of movies as scripts
(`Writing.act_script`), and what they commit on their way (`Writing.settles`). Each commit is a
whole stage, a whole publication or a whole batch of movies.
-/

set_option autoImplicit false
set_option relaxedAutoImplicit false

namespace FilmReport

open Dataset Normalize Store Act World

namespace Script

variable {α β : Type}

theorem Orderly.pure (a : α) : (pure a : Script α).Orderly := trivial

theorem Orderly.raise (e : Failure) : (raise e : Script α).Orderly := trivial

theorem Orderly.peek (f : Store → Except StoreError α) : (does (.peek f)).Orderly :=
  ⟨OrderlyFrom.peek f, fun _ => trivial⟩

theorem Orderly.look (f : Store → Except StoreError α) : (does (.look f)).Orderly :=
  ⟨OrderlyFrom.look f, fun _ => trivial⟩

theorem Orderly.change {f : Store → Effect α} (hf : ∀ s, (f s).Sound s) :
    (does (.change f)).Orderly :=
  ⟨OrderlyFrom.change fun s _ => hf s, fun _ => trivial⟩

theorem Orderly.bind {script : Script α} {f : α → Script β} (h : script.Orderly)
    (hf : ∀ a, (f a).Orderly) : (script >>= f).Orderly := by
  change (script.bind f).Orderly
  induction script with
  | ends r =>
    cases r with
    | ok a => exact hf a
    | error e => exact trivial
  | next deed rest ih => exact ⟨h.1, fun r => ih r (h.2 r)⟩

theorem Orderly.reporting {script : Script α} (h : script.Orderly) (fault : String → Fault) :
    (script.reporting fault).Orderly := by
  induction script with
  | ends r => exact trivial
  | next deed rest ih => exact ⟨h.1, fun r => ih r (h.2 r)⟩

theorem Orderly.forM {f : β → Script PUnit} (hf : ∀ b, (f b).Orderly) (items : List β) :
    (items.forM f).Orderly := by
  induction items with
  | nil => exact trivial
  | cons b rest ih => exact (hf b).bind fun _ => ih

def ofStore : Except StoreError α → Script α
  | .ok a => pure a
  | .error e => raise (.raised (.store e))

@[simp]
theorem act_ofStore (r : Except StoreError α) : (ofStore r).act = Act.ofStore r := by
  cases r <;> rfl

/-- What staging does inside of its transaction. The rows are staged in one deed: no other session
could see some of them before the transaction ends. -/
def staging (kind : MembershipKind) (options : SplitOptions) : Script Rebuild :=
  reporting (rebuildFault kind "staging") do
    let rows ← does (.look fun s => s.rows? .movie)
    let _ ← does (.change fun s => s.clear kind.staging)
    match Source.read "raw" kind.source (byId rows) with
    | .error issues => raise (.fault (shapelessRebuild kind issues))
    | .ok sources => do
      let staged := memberships sources options
      if staged.isEmpty then pure () else does (.change (stageAll kind staged))
      pure (Rebuild.ofSources kind sources options)

def stage (kind : MembershipKind) (options : SplitOptions) : Script Rebuild :=
  inTransaction ("normalizer.membership." ++ kind.text ++ ".stage") (staging kind options)

/-- What publishing does inside of its transaction: it deletes what was published, publishes what is
staged and deletes this. -/
def publishing (kind : MembershipKind) : Script Nat :=
  reporting (rebuildFault kind "publish") do
    let _ ← does (.change fun s => s.clear kind.published)
    let n ← does (.change fun s => s.publishStaged kind)
    let _ ← does (.change fun s => s.clear kind.staging)
    pure n

def publish (kind : MembershipKind) : Script Nat :=
  inTransaction ("normalizer.membership." ++ kind.text ++ ".publish") (publishing kind)

def rebuildWith (logger : Journal.Logger) (kind : MembershipKind) (options : SplitOptions) :
    Script Rebuild := do
  let logger := logger.withContext [("stage", .string "membership"), ("kind", .string kind.text)]
  let staged ← stage kind options
  let rows ← publish kind
  does <| .log logger .info "membership table rebuilt"
    [("table", .string kind.published.name), ("rows", .ofNat rows),
     ("truncatedMovies", .ofNat staged.truncatedMovies),
     ("blankTokens", .ofNat staged.blankTokens)]
  pure { staged with insertedRows := rows }

/-- Staging of nothing that is a kind, which fails. -/
def lostStaging (asked : Option Json) (work : Script Rebuild) : Script Rebuild :=
  inTransaction "normalizer.membership.stage" (work.reporting (askedFault asked "staging"))

def stageAsked (asked : Option Json) (options : SplitOptions) : Script Rebuild :=
  match MembershipKind.Asked.of asked with
  | .kind kind => stage kind options
  | .stray =>
    lostStaging asked do
      does (.peek fun s => (s.rows? .movie).map fun _ => ())
      raise (.raised (.store (.noSuchColumn "undefined")))
  | .nothing => lostStaging asked (raise (.raised (.noField "undefined" "sourceColumn")))

/-- Publishing of nothing that is a kind, which fails. -/
def lostPublishing (asked : Option Json) (work : Script Nat) : Script Nat :=
  inTransaction "normalizer.membership.publish" (work.reporting (askedFault asked "publish"))

def publishAsked (asked : Option Json) : Script Nat :=
  match MembershipKind.Asked.of asked with
  | .kind kind => publish kind
  | .stray => lostPublishing asked (does (.peek fun _ => .error (.noSuchTable "undefined")))
  | .nothing => lostPublishing asked (raise (.raised (.noField "undefined" "table")))

def rebuild (logger : Journal.Logger) (asked : Option Json) (given : Fields) : Script Rebuild :=
  match SplitOptions.resolve given with
  | .error fault => raise (.fault fault)
  | .ok options =>
    match MembershipKind.Asked.of asked with
    | .kind kind => rebuildWith logger kind options
    | _ => stageAsked asked options

/-- Writes one row. -/
def writeRow (kind : RowKind) (given : Json) : Script Unit := do
  let cells ← ofStore (Store.bind kind.parameters given)
  does (.change (kind.insert cells))

def writeCounted (kind : RowKind) (inputs : List Json) (items : Nat) : Script Unit :=
  (transact (inputs.forM (writeRow kind))).reporting (writeFault kind (some (.ofNat items)))

def writeAll (kind : RowKind) (given : Option Json) : Script Unit :=
  match given with
  | none => raise (.raised (.noField "undefined" "length"))
  | some .null => raise (.raised (.noField "null" "length"))
  | some (.array inputs) => writeCounted kind inputs inputs.length
  | some (.string text) =>
    let characters := text.toList.map fun c => Json.string (String.singleton c)
    writeCounted kind characters (Text.units text).length
  | some value =>
    (transact (raise (.raised (.other "inputs is not iterable")))).reporting
      (writeFault kind (value.get? "length"))

@[simp]
theorem act_stage (kind : MembershipKind) (options : SplitOptions) :
    (stage kind options).act = Normalize.stage kind options := by
  rw [stage, act_inTransaction, staging, act_reporting, Normalize.stage]
  congr 2
  rw [act_bind, act_does]
  congr 1
  funext rows
  rw [act_bind, act_does]
  congr 1
  funext _
  cases Source.read "raw" kind.source (byId rows) with
  | error issues => rfl
  | ok sources =>
    dsimp only
    split
    · rfl
    · rw [act_bind, act_does]
      rfl

@[simp]
theorem act_publish (kind : MembershipKind) : (publish kind).act = Normalize.publish kind := by
  simp only [publish, act_inTransaction, publishing, act_reporting, act_bind, act_does, act_pure,
    Normalize.publish]
  rfl

@[simp]
theorem act_rebuildWith (logger : Journal.Logger) (kind : MembershipKind) (options : SplitOptions) :
    (rebuildWith logger kind options).act = Normalize.rebuildWith logger kind options := by
  simp only [rebuildWith, act_bind, act_stage, act_publish, act_does, act_pure,
    Normalize.rebuildWith]
  rfl

@[simp]
theorem act_stageAsked (asked : Option Json) (options : SplitOptions) :
    (stageAsked asked options).act = Normalize.stageAsked asked options := by
  rw [stageAsked, Normalize.stageAsked]
  cases MembershipKind.Asked.of asked with
  | kind kind => exact act_stage kind options
  | stray =>
    simp only [lostStaging, act_inTransaction, act_reporting, act_bind, act_does, act_raise]
    rfl
  | nothing =>
    simp only [lostStaging, act_inTransaction, act_reporting, act_raise]
    rfl

@[simp]
theorem act_publishAsked (asked : Option Json) :
    (publishAsked asked).act = Normalize.publishAsked asked := by
  rw [publishAsked, Normalize.publishAsked]
  cases MembershipKind.Asked.of asked with
  | kind kind => exact act_publish kind
  | stray =>
    simp only [lostPublishing, act_inTransaction, act_reporting, act_does]
    rfl
  | nothing =>
    simp only [lostPublishing, act_inTransaction, act_reporting, act_raise]
    rfl

@[simp]
theorem act_rebuild (logger : Journal.Logger) (asked : Option Json) (given : Fields) :
    (rebuild logger asked given).act = Normalize.rebuild logger asked given := by
  rw [rebuild, Normalize.rebuild]
  cases SplitOptions.resolve given with
  | error fault => rfl
  | ok options =>
    change (match MembershipKind.Asked.of asked with
      | .kind kind => rebuildWith logger kind options
      | _ => stageAsked asked options).act = _
    cases MembershipKind.Asked.of asked with
    | kind kind => exact act_rebuildWith logger kind options
    | stray => exact act_stageAsked asked options
    | nothing => exact act_stageAsked asked options

theorem act_writeRow (kind : RowKind) (given : Json) :
    (writeRow kind given).act = Dataset.writeRow kind given := by
  simp only [writeRow, act_bind, act_ofStore, act_does, Dataset.writeRow]
  rfl

theorem act_writeCounted (kind : RowKind) (inputs : List Json) (items : Nat) :
    (writeCounted kind inputs items).act = Dataset.writeCounted kind inputs items := by
  rw [writeCounted, act_reporting, act_transact, act_forM, funext (act_writeRow kind),
    Dataset.writeCounted]

@[simp]
theorem act_writeAll (kind : RowKind) (given : Option Json) :
    (writeAll kind given).act = Dataset.writeAll kind given := by
  rcases given with _ | value
  · rfl
  cases value with
  | null => rfl
  | array inputs => exact act_writeCounted kind inputs _
  | string text => exact act_writeCounted kind _ _
  | bool _ => simp only [writeAll, act_reporting, act_transact, act_raise]; rfl
  | number _ => simp only [writeAll, act_reporting, act_transact, act_raise]; rfl
  | object _ => simp only [writeAll, act_reporting, act_transact, act_raise]; rfl

theorem Orderly.act {script : Script α} (h : script.Orderly) : Act.Orderly script.act := by
  induction script with
  | ends r => exact OrderlyFrom.of_constant fun _ => rfl
  | next deed rest ih => exact h.1.outcome.andThen fun r => ih r (h.2 r)

theorem orderly_staging (kind : MembershipKind) (options : SplitOptions) :
    (staging kind options).Orderly := by
  refine ((Orderly.look _).bind fun rows => ?_).reporting _
  refine (Orderly.change (sound_clear kind.staging)).bind fun _ => ?_
  split
  · exact .raise _
  · dsimp only
    split
    · exact .pure _
    · exact (Orderly.change (sound_stageAll kind _)).bind fun _ => .pure _

theorem orderly_publishing (kind : MembershipKind) : (publishing kind).Orderly := by
  refine ((Orderly.change (sound_clear kind.published)).bind fun _ => ?_).reporting _
  refine (Orderly.change (sound_publishStaged kind)).bind fun n => ?_
  exact (Orderly.change (sound_clear kind.staging)).bind fun _ => .pure n

theorem orderly_writeRow (kind : RowKind) (given : Json) : (writeRow kind given).Orderly := by
  refine Orderly.bind ?_ fun cells => .change (sound_insert kind cells)
  cases Store.bind kind.parameters given with
  | ok cells => exact .pure _
  | error e => exact .raise _

end Script

/-- The memberships of a kind are staged. -/
def Stages (s s' : Store) : Prop :=
  ∃ kind options r, Staged kind options s r s'

/-- The staged memberships of a kind are published. -/
def Publishes (s s' : Store) : Prop :=
  ∃ kind n, Published kind s n s'

/-- All movies of a batch are written. -/
def WritesMovies (s s' : Store) : Prop :=
  ∃ inputs, Computes.Chain RowKind.movies.Writes inputs s s'

/-- What one commit makes of the data committed before: it stages, publishes or writes movies, and
all that it should. -/
inductive Advances (s s' : Store) : Prop where
  | staged : Stages s s' → Advances s s'
  | published : Publishes s s' → Advances s s'
  | written : WritesMovies s s' → Advances s s'

namespace Script

variable {α β : Type}

/-- A script that makes only commits that `made` allows where it begins in no transaction, and ends
in none itself. -/
def Settles (made : Store → Store → Prop) (script : Script α) : Prop :=
  ∀ w : World, w.session.isOpen = true → w.savepoints = none →
    script.Along (Commits made) (fun _ v => v.session.isOpen = true ∧ v.savepoints = none) w

namespace Settles

variable {made : Store → Store → Prop}

theorem ends (r : Except Failure α) : Settles made (.ends r) :=
  fun _ hopen houtside => ⟨hopen, houtside⟩

theorem mono {script : Script α} {made' : Store → Store → Prop} (h : script.Settles made)
    (hmade : ∀ s s', made s s' → made' s s') : script.Settles made' :=
  fun w hopen houtside => (h w hopen houtside).mono
    (fun d d' => Or.imp_right (And.imp_right (hmade d.store d'.store))) fun _ _ hv => hv

theorem bind {script : Script α} {f : α → Script β} (h : script.Settles made)
    (hf : ∀ a, (f a).Settles made) : (script >>= f).Settles made := by
  intro w hopen houtside
  refine along_bind.2 ((h w hopen houtside).mono (fun _ _ h => h) ?_)
  rintro (e | a) v ⟨hopen', houtside'⟩
  · exact ⟨hopen', houtside'⟩
  · exact hf a v hopen' houtside'

theorem reporting {script : Script α} (h : script.Settles made) (fault : String → Fault) :
    (script.reporting fault).Settles made :=
  fun w hopen houtside => along_ending.2 (h w hopen houtside)

theorem log (logger : Journal.Logger) (level : Journal.Level) (message : String)
    (context : Fields) : (does (.log logger level message context)).Settles made := by
  intro w hopen houtside
  have hlog := (OrderlyFrom.log (P := fun _ => True) logger level message context).continues
    (w := w) trivial
  refine ⟨.inl ?_, hlog.isOpen.trans hopen, hlog.savepoints.trans houtside⟩
  rw [Deed.act, Act.log, on_modify]
  cases logger.entry? w.stamp level message context <;> exact .refl _

theorem transact {work : Script α} (hwork : work.Orderly)
    (h : ∀ w a v, (Act.transact work.act).on w = (.ok a, v) → made w.data v.data) :
    (transact work).Settles made := by
  intro w hopen houtside
  refine (along_transact hwork hopen houtside (h w)).mono (fun _ _ h => h) fun r v hon => ?_
  have hcontinues := hwork.act.transact.continues_of_on hon
  exact ⟨hcontinues.isOpen.trans hopen, hcontinues.savepoints.trans houtside⟩

theorem inTransaction {operation : String} {work : Script α} (hwork : work.Orderly)
    (h : ∀ w a v, (Act.inTransaction operation work.act).on w = (.ok a, v) →
      made w.data v.data) : (inTransaction operation work).Settles made := by
  intro w hopen houtside
  refine (along_inTransaction hwork hopen houtside (h w)).mono (fun _ _ h => h) fun r v hon => ?_
  have hcontinues := (hwork.act.inTransaction operation).continues_of_on hon
  exact ⟨hcontinues.isOpen.trans hopen, hcontinues.savepoints.trans houtside⟩

/-- Work that never has a value commits nothing. -/
theorem of_failing {operation : String} {work : Script α} (hwork : work.Orderly)
    (h : ∀ w a v, work.act.on w ≠ (.ok a, v)) :
    (Script.inTransaction operation work).Settles made := by
  refine inTransaction hwork fun w a v hon => ?_
  obtain ⟨u, u', hu, -⟩ := exists_on_of_inTransaction hon
  exact absurd hu (h u a u')

theorem stage (kind : MembershipKind) (options : SplitOptions) :
    (stage kind options).Settles Stages := by
  refine inTransaction (orderly_staging kind options) fun w r v hon => ⟨kind, options, r, ?_⟩
  rw [← act_inTransaction] at hon
  have hstage : (Normalize.stage kind options).on w = (.ok r, v) := act_stage kind options ▸ hon
  exact (computes_stage kind options).of_on (demands_stage kind options w v r hstage) hstage

theorem publish (kind : MembershipKind) : (publish kind).Settles Publishes := by
  refine inTransaction (orderly_publishing kind) fun w n v hon => ⟨kind, n, ?_⟩
  rw [← act_inTransaction] at hon
  have hpublish : (Normalize.publish kind).on w = (.ok n, v) := act_publish kind ▸ hon
  exact (computes_publish kind).of_on (demands_publish kind w v n hpublish) hpublish

theorem stageAsked (asked : Option Json) (options : SplitOptions) :
    (stageAsked asked options).Settles Stages := by
  rw [Script.stageAsked]
  split
  · exact stage _ options
  · refine of_failing (((Orderly.peek _).bind fun _ => .raise _).reporting _) fun w a v hon => ?_
    rw [act_reporting, on_reporting_eq_ok, act_bind, on_bind_eq_ok] at hon
    obtain ⟨_, _, -, hraise⟩ := hon
    cases (Prod.mk.inj hraise).1
  · refine of_failing ((Orderly.raise _).reporting _) fun w a v hon => ?_
    rw [act_reporting, on_reporting_eq_ok] at hon
    cases (Prod.mk.inj hon).1

theorem publishAsked (asked : Option Json) : (publishAsked asked).Settles Publishes := by
  rw [Script.publishAsked]
  split
  · exact publish _
  · refine of_failing ((Orderly.peek _).reporting _) fun w a v hon => ?_
    rw [act_reporting, on_reporting_eq_ok, act_does, Deed.act, on_peek] at hon
    cases hobstacle : w.obstacle <;> rw [hobstacle] at hon <;> cases (Prod.mk.inj hon).1
  · refine of_failing ((Orderly.raise _).reporting _) fun w a v hon => ?_
    rw [act_reporting, on_reporting_eq_ok] at hon
    cases (Prod.mk.inj hon).1

theorem rebuild (logger : Journal.Logger) (asked : Option Json) (given : Fields) :
    (rebuild logger asked given).Settles fun s s' => Stages s s' ∨ Publishes s s' := by
  rw [Script.rebuild]
  split
  · exact ends _
  · split
    · refine bind ((stage _ _).mono fun _ _ => .inl) fun staged => ?_
      refine bind ((publish _).mono fun _ _ => .inr) fun rows => ?_
      exact bind (log _ _ _ _) fun _ => ends _
    · exact (stageAsked asked _).mono fun _ _ => .inl

theorem chain_of_on {inputs : List Json} {w v : World}
    (hon : (inputs.forM (Dataset.writeRow .movies)).on w = (.ok (), v)) :
    Computes.Chain RowKind.movies.Writes inputs w.data v.data := by
  induction inputs generalizing w with
  | nil =>
    obtain ⟨-, rfl⟩ := Prod.mk.inj hon
    rfl
  | cons input rest ih =>
    obtain ⟨⟨⟩, u, hrow, hrest⟩ := on_bind_eq_ok.1 hon
    obtain ⟨cells, u', hcells, hinsert⟩ := on_bind_eq_ok.1 hrow
    have hready : u'.Ready := (ready_of_on_change hinsert).1
    have hready' : w.Ready := ((OrderlyFrom.ofStore _).continues_of_on hcells).ready.1 hready
    exact ⟨u.data, (computes_writeRow .movies input).of_on hready' hrow, ih hrest⟩

theorem writeCounted (inputs : List Json) (items : Nat) :
    (writeCounted .movies inputs items).Settles WritesMovies := by
  have hwork : (inputs.forM (writeRow .movies)).Orderly :=
    Orderly.forM (orderly_writeRow .movies) inputs
  refine (transact hwork fun w a v hon => ?_).reporting _
  rw [act_forM, funext (act_writeRow .movies)] at hon
  cases hopen : w.session.isOpen with
  | false =>
    rw [on_transact_of_closed hopen] at hon
    cases (Prod.mk.inj hon).1
  | true =>
    obtain ⟨w', hon', -, hdata, -⟩ :=
      (orderly_writeRows .movies inputs).on_transact hopen trivial
    rw [hon'] at hon
    obtain ⟨hresult, rfl⟩ := Prod.mk.inj hon
    rw [hresult] at hdata
    have hchain := chain_of_on (Prod.ext hresult rfl : _ = (Except.ok (), _))
    rw [data_entered] at hchain
    exact ⟨inputs, hdata ▸ hchain⟩

theorem writeAll (given : Option Json) : (writeAll .movies given).Settles WritesMovies := by
  have hfails : ∀ fault, Settles WritesMovies ((Script.transact (raise
      (.raised (.other "inputs is not iterable")) : Script Unit)).reporting fault) := by
    refine fun fault => (transact (.raise _) fun w a v hon => ?_).reporting fault
    obtain ⟨nesting, u, -, hrest⟩ := on_bind_eq_ok.1 hon
    obtain ⟨result, u', hwork, hleave⟩ := on_bind_eq_ok.1 hrest
    obtain rfl := result_of_on_leave hleave
    cases (Prod.mk.inj (of_on_outcome hwork)).1
  rcases given with _ | value
  · exact ends _
  cases value with
  | null => exact ends _
  | array inputs => exact writeCounted inputs _
  | string text => exact writeCounted _ _
  | bool _ => exact hfails _
  | number _ => exact hfails _
  | object _ => exact hfails _

end Settles
end Script

/-- What the writer does with the dataset. -/
inductive Writing where
  | stage (asked : Option Json) (options : SplitOptions)
  | publish (asked : Option Json)
  | rebuild (logger : Journal.Logger) (asked : Option Json) (given : Fields)
  | movies (given : Option Json)

namespace Writing

def act : Writing → Act Unit
  | stage asked options => do
    let _ ← stageAsked asked options
  | publish asked => do
    let _ ← publishAsked asked
  | rebuild logger asked given => do
    let _ ← Normalize.rebuild logger asked given
  | movies given => writeAll .movies given

/-- The statements of which it consists. -/
def script : Writing → Script Unit
  | stage asked options => do
    let _ ← Script.stageAsked asked options
  | publish asked => do
    let _ ← Script.publishAsked asked
  | rebuild logger asked given => do
    let _ ← Script.rebuild logger asked given
  | movies given => Script.writeAll .movies given

theorem act_script (writing : Writing) : writing.script.act = writing.act := by
  cases writing with
  | stage asked options =>
    simp only [script, Script.act_bind, Script.act_stageAsked, Script.act_pure, act]
  | publish asked =>
    simp only [script, Script.act_bind, Script.act_publishAsked, Script.act_pure, act]
  | rebuild logger asked given =>
    simp only [script, Script.act_bind, Script.act_rebuild, Script.act_pure, act]
  | movies given => exact Script.act_writeAll .movies given

/-- What its commits make of the data. -/
def Makes : Writing → Store → Store → Prop
  | stage _ _ => Stages
  | publish _ => Publishes
  | rebuild _ _ _ => fun s s' => Stages s s' ∨ Publishes s s'
  | movies _ => WritesMovies

theorem settles (writing : Writing) : writing.script.Settles writing.Makes := by
  cases writing with
  | stage asked options => exact (Script.Settles.stageAsked asked options).bind fun _ => .ends _
  | publish asked => exact (Script.Settles.publishAsked asked).bind fun _ => .ends _
  | rebuild logger asked given =>
    exact (Script.Settles.rebuild logger asked given).bind fun _ => .ends _
  | movies given => exact Script.Settles.writeAll given

theorem Makes.advances {writing : Writing} {s s' : Store} (h : writing.Makes s s') :
    Advances s s' := by
  cases writing with
  | stage => exact .staged h
  | publish => exact .published h
  | rebuild => exact h.elim .staged .published
  | movies => exact .written h

/-- Whether the work publishes nothing. -/
def isQuiet : Writing → Bool
  | stage _ _ => true
  | movies _ => true
  | publish _ => false
  | rebuild _ _ _ => false

end Writing
end FilmReport
