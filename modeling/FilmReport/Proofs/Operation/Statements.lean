import FilmReport.Proofs.Operation.Call
import FilmReport.Proofs.Session.Keeps
import FilmReport.Proofs.Store.Changes

/-!
The statements that change rows. Every request and every migration is made of a few kinds of
statements, each of which is made of changes; a property that all these changes preserve is kept by
the request, whatever comes of it (`Request.keeps`).
-/

set_option autoImplicit false
set_option relaxedAutoImplicit false

namespace FilmReport

open Dataset Normalize Store Act

variable {α : Type} {I : Store → Prop}

/-- A statement that changes rows. -/
inductive Statement where
  | write (kind : RowKind) (cells : List Cell)
  | clear (t : Table)
  | stage (kind : MembershipKind) (staged : List Membership)
  | publish (kind : MembershipKind)
  | amounts
  | rule (r : Rule)
  | record (r : RunRecord)
  | delete (t : Table) (column : String) (value : Cell)
  /-- The tables of a migration are made. -/
  | migrate (m : Migration)
  /-- The table that records migrations is made. -/
  | keepSteps
  | recordStep (row : MigrationRow)

namespace Statement

/-- The store that a statement leaves, unless it fails. -/
def after : Statement → Store → Except StoreError Store
  | write kind cells, s => (kind.insert cells s).result.map Prod.snd
  | clear t, s => (s.clear t).result.map Prod.snd
  | stage kind staged, s => (stageAll kind staged s).result.map Prod.snd
  | publish kind, s => (s.publishStaged kind).result.map Prod.snd
  | amounts, s => .ok (setAmounts s)
  | rule r, s => (r.apply s).result.map Prod.snd
  | record r, s => (addRun r s).map Prod.snd
  | delete t column value, s => (s.delete t (whereEquals t column value)).map Prod.snd
  | migrate m, s => m.apply s
  | keepSteps, s => .ok (s.create .schemaMigrations)
  | recordStep row, s => s.insert .schemaMigrations .refuse row

/-- A property that a statement preserves. -/
def Preserves (I : Store → Prop) (st : Statement) : Prop :=
  ∀ ⦃s s' : Store⦄, I s → st.after s = .ok s' → I s'

/-- A membership is staged. -/
def staging : MembershipKind → MembershipRow → Change
  | .country, row => .insert .stagedCountry .refuse row
  | .language, row => .insert .stagedLanguage .refuse row

/-- A membership is published. -/
def publishing : MembershipKind → MembershipRow → Change
  | .country, row => .insert .movieCountry .refuse row
  | .language, row => .insert .movieLanguage .refuse row

/-- The changes that a statement is made of. -/
def Uses (s : Store) : Statement → Change → Prop
  | write kind cells, c => ∃ row, kind.row cells s = .ok row ∧
    c = .insert kind.table kind.conflict row
  | clear t, c => c = .delete t (everyRow t)
  | stage kind staged, c => ∃ m ∈ staged, c = staging kind m.row
  | publish kind, c => ∃ rows, s.stagedRows kind = .ok rows ∧ ∃ row ∈ rows, c = publishing kind row
  | amounts, c => c = .amounts
  | rule r, c => ∃ t, named? .notModifiable r.table = .ok t ∧
    c = .update t r.column r.sentinel (r.rows t)
  | record r, c => (∃ id, c = .insert .normalizationRuns .refuse (r.row id)) ∨
    ∃ id, c = .count .normalizationRuns id
  | delete t column value, c => c = .delete t (whereEquals t column value)
  | migrate _, c => c = .widen ∨ ∃ t, c = .create t
  | keepSteps, c => c = .create .schemaMigrations
  | recordStep row, c => c = .insert .schemaMigrations .refuse row

theorem map_snd_storing (r : Except StoreError Store) (wrote : Bool) :
    (Effect.storing r wrote).result.map Prod.snd = r := by
  cases r <;> rfl

theorem of_foldlM {β : Type} {rows : List β} {f : Store → β → Except StoreError Store}
    (h : ∀ row ∈ rows, ∀ {s s' : Store}, I s → f s row = .ok s' → I s') {s s' : Store} (hs : I s)
    (hs' : rows.foldlM f s = .ok s') : I s' := by
  induction rows generalizing s with
  | nil => exact Except.ok.inj hs' ▸ hs
  | cons row rest ih =>
    obtain ⟨s₁, hrow, hrest⟩ := exists_of_bind hs'
    rw [List.forall_mem_cons] at h
    exact ih h.2 (h.1 hs hrow) hrest

theorem of_createAll {tables : List Table} (h : ∀ t, (Change.create t).Preserves I) {s : Store}
    (hs : I s) : I (Migration.createAll tables s) := by
  induction tables generalizing s with
  | nil => exact hs
  | cons t rest ih => exact ih (h t hs rfl)

/-- What every change of a statement preserves, the statement preserves. -/
theorem preserves_of_uses {st : Statement} (h : ∀ s c, I s → st.Uses s c → c.Preserves I) :
    st.Preserves I := by
  intro s s' hs hs'
  cases st with
  | write kind cells =>
    rw [after, RowKind.insert] at hs'
    rcases hrow : kind.row cells s with e | row <;> rw [hrow] at hs'
    · cases hs'
    · rw [map_snd_storing] at hs'
      exact h s _ hs ⟨row, hrow, rfl⟩ hs hs'
  | clear t => exact h s _ hs rfl hs hs'
  | stage kind staged =>
    rw [after, stageAll, map_snd_storing] at hs'
    refine of_foldlM (fun m hm {s₁ s₂} hs₁ hs₂ => ?_) hs hs'
    refine h s _ hs ⟨m, hm, rfl⟩ hs₁ ?_
    cases kind <;> exact hs₂
  | publish kind =>
    obtain ⟨n, hs'⟩ := exists_of_map_snd hs'
    obtain ⟨_, -, hs'⟩ := exists_of_bind hs'
    obtain ⟨rows, hrows, hs'⟩ := exists_of_bind hs'
    obtain ⟨⟨⟩, -, hs'⟩ := exists_of_bind hs'
    obtain ⟨after, hafter, hs'⟩ := exists_of_bind hs'
    obtain ⟨-, rfl⟩ := Prod.mk.inj (Except.ok.inj hs')
    refine of_foldlM (fun row hrow {s₁ s₂} hs₁ hs₂ => ?_) hs hafter
    refine h s _ hs ⟨rows, hrows, row, mem_orderBy.1 hrow, rfl⟩ hs₁ ?_
    cases kind <;> exact hs₂
  | amounts => exact h s _ hs rfl hs hs'
  | rule r =>
    obtain ⟨n, hs'⟩ := exists_of_map_snd hs'
    rw [Rule.apply] at hs'
    rcases ht : named? .notModifiable r.table with e | t <;> rw [ht] at hs'
    · cases hs'
    · exact h s _ hs ⟨t, ht, rfl⟩ hs (congrArg (Except.map Prod.snd) hs')
  | record r =>
    obtain ⟨id, hs'⟩ := exists_of_map_snd hs'
    obtain ⟨rows, -, hs'⟩ := exists_of_bind hs'
    dsimp only at hs'
    split at hs'
    · obtain ⟨after, hafter, hs'⟩ := exists_of_bind hs'
      obtain ⟨-, rfl⟩ := Prod.mk.inj (Except.ok.inj hs')
      exact h s _ hs (Or.inr ⟨_, rfl⟩) (h s _ hs (Or.inl ⟨_, rfl⟩) hs hafter) rfl
    · cases hs'
  | delete t column value => exact h s _ hs rfl hs hs'
  | migrate m =>
    have hcreate : ∀ t, (Change.create t).Preserves I := fun t => h s _ hs (Or.inr ⟨t, rfl⟩)
    cases m with
    | dataset => exact Except.ok.inj hs' ▸ of_createAll hcreate hs
    | normalization =>
      rcases hadd : Migration.addAmount s with e | s₁
      · rw [after, Migration.apply, hadd] at hs'
        cases hs'
      · rw [after, Migration.apply, hadd] at hs'
        exact Except.ok.inj hs' ▸ of_createAll hcreate (h s _ hs (Or.inl rfl) hs hadd)
  | keepSteps => exact h s _ hs rfl hs hs'
  | recordStep row => exact h s _ hs rfl hs hs'

theorem keeps_change {st : Statement} (h : st.Preserves I) {f : Store → Effect α}
    (hf : ∀ s, (f s).result.map Prod.snd = st.after s) : Keeps I (change f) := by
  refine Keeps.change fun s hs a s' hs' => h hs ?_
  rw [← hf, hs']
  rfl

end Statement

/-- The items of a value that can be gone through. -/
def Dataset.itemsOf : Option Json → List Json
  | some (.array inputs) => inputs
  | some (.string text) => text.toList.map fun c => .string (String.singleton c)
  | _ => []

/-- What a value gives as rules, or the standard ones. -/
def Normalize.rulesGiven : Option Json → Except Cause (List (Except Cause Rule))
  | none | some .null => .ok (Rule.standard.map .ok)
  | some value => Rule.readAll value

/-- The rules among what is given as rules. -/
def Normalize.rulesOf (given : Option Json) : List Rule :=
  match rulesGiven given with
  | .ok rules => rules.filterMap Except.toOption
  | .error _ => []

/-- A statement that writes a row for an input. -/
def Statement.Writes (kind : RowKind) (input : Json) (st : Statement) : Prop :=
  ∃ cells, Store.bind kind.parameters input = .ok cells ∧ st = .write kind cells

/-- A statement of a staging. -/
def Statement.Stages (kind : MembershipKind) (st : Statement) : Prop :=
  st = .clear kind.staging ∨ ∃ staged, st = .stage kind staged

/-- A statement of a publishing. -/
def Statement.Publishes (kind : MembershipKind) (st : Statement) : Prop :=
  st = .clear kind.published ∨ st = .publish kind ∨ st = .clear kind.staging

/-- The statements of a run before its recording. -/
def Statement.Normalizes (st : Statement) : Prop :=
  st = .amounts ∨ (∃ kind, st.Stages kind ∨ st.Publishes kind) ∨ ∃ r ∈ Rule.standard, st = .rule r

/-- The statements of an operation. -/
def Operation.Issues : Operation → Statement → Prop
  | write kind given, st => ∃ input ∈ itemsOf given, st.Writes kind input
  | seed d, st => ∃ rows ∈ Dataset.rowsOf d, ∃ fields ∈ rows.2, st.Writes rows.1 (.object fields)
  | coerce _, st => st = .amounts
  | stage asked _, st => ∃ kind, MembershipKind.Asked.of asked = .kind kind ∧ st.Stages kind
  | publish asked, st => ∃ kind, MembershipKind.Asked.of asked = .kind kind ∧ st.Publishes kind
  | standardize _ rules, st => ∃ r ∈ rulesOf rules, st = .rule r

/-- The statements of a request. -/
def Request.Issues : Request → Statement → Prop
  | operation op, st => op.Issues st
  | rebuild _ asked _, st =>
    ∃ kind, MembershipKind.Asked.of asked = .kind kind ∧ (st.Stages kind ∨ st.Publishes kind)
  | normalize _ _, st => st.Normalizes ∨ ∃ r, st = .record r
  | delete t column value, st => st = .delete t column value

section keeps

open Statement

theorem keeps_writeRow {kind : RowKind} {input : Json}
    (h : ∀ st, Statement.Writes kind input st → st.Preserves I) :
    Keeps I (writeRow kind input) := by
  rw [writeRow]
  cases hcells : Store.bind kind.parameters input with
  | error e => exact Keeps.raise e
  | ok cells => exact keeps_change (h _ ⟨cells, hcells, rfl⟩) fun _ => rfl

theorem keeps_writeCounted {kind : RowKind} {inputs : List Json} (items : Nat)
    (h : ∀ input ∈ inputs, ∀ st, Statement.Writes kind input st → st.Preserves I) :
    Keeps I (writeCounted kind inputs items) :=
  (Keeps.forM fun input hinput => keeps_writeRow (h input hinput)).transact.reporting _

theorem keeps_writeAll {kind : RowKind} {given : Option Json}
    (h : ∀ input ∈ itemsOf given, ∀ st, Statement.Writes kind input st → st.Preserves I) :
    Keeps I (writeAll kind given) := by
  rcases given with _ | value
  · exact Keeps.throw _
  cases value with
  | null => exact Keeps.throw _
  | array inputs => exact keeps_writeCounted _ h
  | string text => exact keeps_writeCounted _ h
  | bool _ => exact (Keeps.throw _).transact.reporting _
  | number _ => exact (Keeps.throw _).transact.reporting _
  | object _ => exact (Keeps.throw _).transact.reporting _

theorem keeps_seed {d : Dataset} (h : ∀ rows ∈ Dataset.rowsOf d, ∀ fields ∈ rows.2,
    ∀ st, Statement.Writes rows.1 (.object fields) st → st.Preserves I) : Keeps I (seed d) := by
  refine ((Keeps.peek _).bind fun _ => Keeps.prepareTransactions).bind fun _ => ?_
  refine Keeps.inTransaction ((Keeps.forM fun rows hrows => ?_).bind fun _ => Keeps.pure _) _
  refine keeps_writeCounted _ fun input hinput => ?_
  obtain ⟨fields, hfields, rfl⟩ := List.mem_map.1 hinput
  exact h rows hrows fields hfields

theorem keeps_coerce (logger : Journal.Logger) (h : Statement.amounts.Preserves I) :
    Keeps I (coerce logger) := by
  refine (Keeps.reporting ?_ _).inTransaction _
  refine (Keeps.look _).bind fun rows => (Keeps.look _).bind fun _ => ?_
  split
  · exact Keeps.throw _
  · have hwarn (log : Fault → Act Unit) (c : Coercion) (hlog : ∀ w, Keeps I (log w)) :
        Keeps I (do c.warnings.forM log; pure c) :=
      (Keeps.forM fun w _ => hlog w).bind fun _ => Keeps.pure c
    dsimp only
    split
    · exact hwarn _ _ fun w => Keeps.log _ _ _ _
    · refine (keeps_change h fun _ => rfl).bind fun _ => ?_
      exact hwarn _ _ fun w => Keeps.log _ _ _ _

theorem keeps_stage {kind : MembershipKind} (options : SplitOptions)
    (h : ∀ st, Statement.Stages kind st → st.Preserves I) : Keeps I (stage kind options) := by
  refine (Keeps.reporting ?_ _).inTransaction _
  refine (Keeps.look _).bind fun rows => ?_
  refine (keeps_change (h _ (Or.inl rfl)) fun _ => rfl).bind fun _ => ?_
  split
  · exact Keeps.throw _
  · dsimp only
    split
    · exact Keeps.pure _
    · exact (keeps_change (h _ (Or.inr ⟨_, rfl⟩)) fun _ => rfl).bind fun _ => Keeps.pure _

theorem keeps_publish {kind : MembershipKind}
    (h : ∀ st, Statement.Publishes kind st → st.Preserves I) : Keeps I (publish kind) := by
  refine (Keeps.reporting ?_ _).inTransaction _
  refine (keeps_change (h _ (Or.inl rfl)) fun _ => rfl).bind fun _ => ?_
  refine (keeps_change (h _ (Or.inr (Or.inl rfl))) fun _ => rfl).bind fun n => ?_
  exact (keeps_change (h _ (Or.inr (Or.inr rfl))) fun _ => rfl).bind fun _ => Keeps.pure _

theorem keeps_stageAsked {asked : Option Json} (options : SplitOptions)
    (h : ∀ kind, MembershipKind.Asked.of asked = .kind kind →
      ∀ st, Statement.Stages kind st → st.Preserves I) : Keeps I (stageAsked asked options) := by
  rw [stageAsked]
  split
  · next kind hkind => exact keeps_stage options (h kind hkind)
  · exact (((Keeps.peek _).bind fun _ => Keeps.raise _).reporting _).inTransaction _
  · exact ((Keeps.throw _).reporting _).inTransaction _

theorem keeps_publishAsked {asked : Option Json}
    (h : ∀ kind, MembershipKind.Asked.of asked = .kind kind →
      ∀ st, Statement.Publishes kind st → st.Preserves I) : Keeps I (publishAsked asked) := by
  rw [publishAsked]
  split
  · next kind hkind => exact keeps_publish (h kind hkind)
  · exact ((Keeps.peek _).reporting _).inTransaction _
  · exact ((Keeps.throw _).reporting _).inTransaction _

theorem keeps_rebuildWith {kind : MembershipKind} (logger : Journal.Logger)
    (options : SplitOptions)
    (h : ∀ st, Statement.Stages kind st ∨ Statement.Publishes kind st → st.Preserves I) :
    Keeps I (rebuildWith logger kind options) := by
  refine (keeps_stage options fun st hst => h st (Or.inl hst)).bind fun staged => ?_
  refine (keeps_publish fun st hst => h st (Or.inr hst)).bind fun rows => ?_
  exact (Keeps.log _ _ _ _).bind fun _ => Keeps.pure _

theorem keeps_raising_bind {β : Type} {r : Except Cause α} {f : α → Act β}
    (h : ∀ a, r = .ok a → Keeps I (f a)) : Keeps I (raising r >>= f) := by
  cases r with
  | ok a => exact h a rfl
  | error cause => exact fun w hw => hw

theorem keeps_applyRules {rules : List (Except Cause Rule)} (counts : Fields)
    (h : ∀ r ∈ rules.filterMap Except.toOption, (Statement.rule r).Preserves I) :
    Keeps I (applyRules counts rules) := by
  induction rules generalizing counts with
  | nil => exact Keeps.pure _
  | cons rule rest ih =>
    refine keeps_raising_bind fun r hr => ?_
    subst hr
    obtain ⟨hr, hrest⟩ := List.forall_mem_cons.1 h
    exact ((keeps_change hr fun _ => rfl).reporting _).bind fun n => ih _ hrest

theorem keeps_standardizeBy {rules : Option Json} (logger : Journal.Logger)
    (h : ∀ r ∈ rulesOf rules, (Statement.rule r).Preserves I) :
    Keeps I (standardizeBy logger rules) := by
  refine Keeps.bind (Keeps.inTransaction (keeps_raising_bind fun items hitems => ?_) _)
    fun counts => (Keeps.log _ _ _ _).bind fun _ => Keeps.pure _
  have hgiven : rulesGiven rules = .ok items := hitems
  rw [rulesOf, hgiven] at h
  exact keeps_applyRules _ h

section run

variable {J : Store → Prop}

/-- A recording that, of data with one property, makes data with another. -/
def Statement.Records (I J : Store → Prop) : Prop :=
  ∀ r ⦃s s' : Store⦄, I s → (Statement.record r).after s = .ok s' → J s'

theorem keepsTo_recordRun (hmono : ∀ s, I s → J s) (h : Records I J) (r : RunRecord) :
    KeepsTo I J (recordRun r) := by
  refine (keepsTo_change hmono fun s hs id s' hs' => h r hs ?_).reporting _
  exact congrArg (Except.map Prod.snd) (show addRun r s = .ok (id, s') from hs')

theorem keepsTo_fail (hmono : ∀ s, I s → J s) (h : Records I J) (st : Normalize.Stages)
    (progress : Progress) (fault : Fault) : KeepsTo I J (st.fail progress fault : Act α) := by
  refine ((Keeps.log _ _ _ _).until hmono).andTo fun _ => ?_
  refine (Keeps.readClock.until hmono).andTo fun finishedAt => ?_
  refine (keepsTo_recordRun hmono h _).outcome.bind (fun r => ?_) fun _ hs => hs
  split
  · exact Keeps.throw _
  · exact (Keeps.log _ _ _ _).bind fun _ => Keeps.throw _
  · exact (Keeps.throw _).bind fun _ => Keeps.throw _

/-- A stage that fails ends with a recording, one that does not goes on without. -/
theorem keepsUntil_attempt (hmono : ∀ s, I s → J s) (h : Records I J) (st : Normalize.Stages)
    (progress : Progress) {act : Act α} (hact : Keeps I act) :
    KeepsUntil I J (st.stage progress act) := by
  have hto : KeepsTo I J (st.stage progress act) := by
    refine (hact.outcome.until hmono).andTo fun r => ?_
    split
    · exact (Keeps.pure _).to hmono
    · exact keepsTo_fail hmono h st progress _
    · exact (Keeps.throw _).to hmono
  intro w hw
  have hafter := hto w hw
  rcases hon : (st.stage progress act).on w with ⟨e | a, v⟩
  · rw [hon] at hafter
    exact hafter
  · have hact' := hact w hw
    rw [Normalize.Stages.on_stage_eq_ok.1 hon] at hact'
    exact hact'

/-- A run records itself once at most. -/
theorem keepsTo_run (hmono : ∀ s, I s → J s) (hrecord : Records I J)
    (h : ∀ st, Statement.Normalizes st → st.Preserves I) (logger : Journal.Logger)
    (given : Fields) : KeepsTo I J (Normalize.run logger given) := by
  have hrebuild (kind : MembershipKind) (logger : Journal.Logger) (options : SplitOptions) :
      Keeps I (rebuildWith logger kind options) :=
    keeps_rebuildWith logger options fun st hst => h st (Or.inr (Or.inl ⟨kind, hst⟩))
  have hrules : ∀ r ∈ rulesOf none, (Statement.rule r).Preserves I := fun r hr =>
    h _ (Or.inr (Or.inr ⟨r, hr, rfl⟩))
  have hattempt {β : Type} (st : Normalize.Stages) (progress : Progress) {act : Act β}
      (hact : Keeps I act) : KeepsUntil I J (st.stage progress act) :=
    keepsUntil_attempt hmono hrecord st progress hact
  have hperform (st : Normalize.Stages) : KeepsUntil I J st.perform := by
    refine (hattempt st _ (keeps_coerce _ (h _ (Or.inl rfl)))).bind fun gross => ?_
    refine ((Keeps.log _ _ _ _).until hmono).bind fun _ => ?_
    refine (hattempt st _ (hrebuild _ _ _)).bind fun country => ?_
    refine (hattempt st _ (hrebuild _ _ _)).bind fun language => ?_
    refine (hattempt st _ (keeps_standardizeBy _ hrules)).bind fun _ => ?_
    exact (Keeps.pure _).until hmono
  refine ((Keeps.ofExcept _).until hmono).andTo fun options => ?_
  refine (Keeps.readClock.until hmono).andTo fun startedAt => ?_
  refine ((Keeps.log _ _ _ _).until hmono).andTo fun _ => ?_
  refine (hperform _).andTo fun (progress, warnings) => ?_
  refine (Keeps.readClock.until hmono).andTo fun finishedAt => ?_
  refine (keepsTo_recordRun hmono hrecord _).bind (fun runId => ?_) fun _ hs => hs
  exact (Keeps.log _ _ _ _).bind fun _ => Keeps.pure _

end run

end keeps

theorem Operation.keeps {op : Operation} (h : ∀ st, op.Issues st → st.Preserves I) :
    Keeps I op.act := by
  cases op with
  | write kind given =>
    exact keeps_writeAll fun input hinput st hst => h st ⟨input, hinput, hst⟩
  | seed d =>
    exact keeps_seed fun rows hrows fields hfields st hst =>
      h st ⟨rows, hrows, fields, hfields, hst⟩
  | coerce logger => exact keeps_coerce logger (h _ rfl)
  | stage asked options =>
    exact keeps_stageAsked options fun kind hkind st hst => h st ⟨kind, hkind, hst⟩
  | publish asked => exact keeps_publishAsked fun kind hkind st hst => h st ⟨kind, hkind, hst⟩
  | standardize logger rules => exact keeps_standardizeBy logger fun r hr => h _ ⟨r, hr, rfl⟩

/-- A request keeps what all its statements preserve. -/
theorem Request.keeps {request : Request} (h : ∀ st, request.Issues st → st.Preserves I) :
    Keeps I request.act := by
  cases request with
  | operation op => exact (Operation.keeps h).bind fun _ => Keeps.pure _
  | rebuild logger asked given =>
    refine Keeps.bind ((Keeps.ofExcept _).bind fun options => ?_) fun _ => Keeps.pure _
    cases hkind : MembershipKind.Asked.of asked with
    | kind kind => exact keeps_rebuildWith logger options fun st hst => h st ⟨kind, hkind, hst⟩
    | stray =>
      refine keeps_stageAsked options fun kind hkind' => ?_
      rw [hkind] at hkind'
      cases hkind'
    | nothing =>
      refine keeps_stageAsked options fun kind hkind' => ?_
      rw [hkind] at hkind'
      cases hkind'
  | normalize logger given =>
    refine Keeps.bind ?_ fun _ => Keeps.pure _
    exact keepsTo_run (fun _ hs => hs) (fun r => h _ (Or.inr ⟨r, rfl⟩))
      (fun st hst => h st (Or.inl hst)) logger given
  | delete t column value =>
    refine Keeps.bind (Statement.keeps_change (h _ rfl) fun s => ?_) fun _ => Keeps.pure _
    rfl

/-- The statements of a migration. -/
def Migration.Issues (st : Statement) : Prop :=
  st = .keepSteps ∨ (∃ m, st = .migrate m) ∨ ∃ row, st = .recordStep row

/-- Migrations keep what all their statements preserve. -/
theorem Migration.keeps (h : ∀ st, Migration.Issues st → st.Preserves I) :
    Keeps I Migration.run := by
  have hperform (m : Migration) : Keeps I (perform m) := by
    refine Keeps.prepareTransactions.bind fun _ => Keeps.transact ?_
    refine (Statement.keeps_change (h _ (Or.inr (Or.inl ⟨m, rfl⟩))) fun s => ?_).bind fun _ => ?_
    · exact Statement.map_snd_storing _ _
    · refine Keeps.readClock.bind fun now => ?_
      exact Statement.keeps_change (h _ (Or.inr (Or.inr ⟨_, rfl⟩))) fun s =>
        Statement.map_snd_storing _ _
  have hmissing (names : List String) (steps : List Migration) (done : Applied) :
      Keeps I (applyMissing names done steps) := by
    induction steps generalizing done with
    | nil => exact Keeps.pure _
    | cons m rest ih =>
      rw [applyMissing]
      split
      · exact ih _
      · exact ((hperform m).reporting _).bind fun _ => ih _
  refine Keeps.bind (Keeps.reporting ?_ _) fun names => hmissing _ _ _
  refine (Keeps.look _).bind fun present => ?_
  cases present with
  | true => exact Keeps.look _
  | false =>
    exact (Statement.keeps_change (h _ (Or.inl rfl)) fun _ => rfl).bind fun _ => Keeps.look _

end FilmReport
