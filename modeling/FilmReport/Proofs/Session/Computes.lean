import FilmReport.Proofs.Session.Whole

/-!
What orderly actions compute. In a world in which statements can be run and rows written, whether an
action has a value, which one, and which data it leaves depends on the data alone; the relation
between data, value and data after is put together from those of the parts of the action. Where an
action with a value leads follows from what holds before it, part by part; what an action preserves
it preserves whatever comes of it.
-/

set_option autoImplicit false
set_option relaxedAutoImplicit false

namespace FilmReport

namespace World

theorem Ready.isOpen {w : World} (h : w.Ready) : w.session.isOpen = true := by
  cases hopen : w.session.isOpen with
  | true => rfl
  | false =>
    have hobstacle := h.obstacle
    rw [World.obstacle, hopen] at hobstacle
    cases hobstacle

/-- The clock gives an instant at every reading. -/
def Ticks (w : World) : Prop :=
  w.clock ≠ [] ∧ ∀ reading ∈ w.clock, reading.isSome

theorem Continues.ticks {w w' : World} (h : Continues w w') (hw : w.Ticks) : w'.Ticks :=
  ⟨fun hnil => hw.1 (h.clock.2 hnil), fun reading hreading => hw.2 reading (h.clock.1.mem hreading)⟩

end World

namespace Act

open World

variable {α β : Type}

/-- An orderly action has the value `a` and leaves the data `s'` where it finds the data `s` just if
the relation holds between them. -/
structure Computes (act : Act α) (R : Store → α → Store → Prop) : Prop where
  orderly : Orderly act
  iff : ∀ {w : World}, w.Ready → ∀ {a : α} {s' : Store},
    ((act.on w).1 = .ok a ∧ (act.on w).2.data = s') ↔ R w.data a s'

/-- Logging leaves the data. -/
theorem data_log (logger : Journal.Logger) (level : Journal.Level) (message : String)
    (context : Fields) (w : World) : ((log logger level message context).on w).2.data = w.data := by
  rw [log, on_modify]
  cases logger.entry? w.stamp level message context <;> rfl

/-- Reading the clock leaves the data. -/
theorem data_readClock (w : World) : (readClock.on w).2.data = w.data := by
  rw [OrderlyFrom.on_readClock]
  rfl

theorem of_on_readClock {w w' : World} {stamp : String} (h : readClock.on w = (.ok stamp, w')) :
    Continues w w' ∧ w'.data = w.data := by
  have hdata := data_readClock w
  rw [h] at hdata
  exact ⟨OrderlyFrom.readClock.continues_of_on h, hdata⟩

theorem exists_on_readClock {w : World} (hw : w.Ticks) :
    ∃ stamp w', readClock.on w = (.ok stamp, w') ∧ w'.data = w.data ∧ Continues w w' := by
  obtain ⟨hne, hsome⟩ := hw
  cases hclock : w.clock with
  | nil => exact absurd hclock hne
  | cons reading rest =>
    obtain ⟨t, rfl⟩ := Option.isSome_iff_exists.1 (hsome reading (hclock ▸ List.mem_cons_self))
    have hon := OrderlyFrom.on_readClock w
    rw [hclock] at hon
    have hstep := of_on_readClock hon
    exact ⟨t.toText, _, hon, hstep.2, hstep.1⟩

theorem exists_on_log (logger : Journal.Logger) (level : Journal.Level) (message : String)
    (context : Fields) (w : World) : ∃ w', (log logger level message context).on w = (.ok ⟨⟩, w') ∧
      w'.data = w.data ∧ Continues w w' := by
  have hlog : Orderly (log logger level message context) := OrderlyFrom.log _ _ _ _
  exact ⟨_, rfl, data_log logger level message context w, hlog.continues trivial⟩

theorem of_on_log {logger : Journal.Logger} {level : Journal.Level} {message : String}
    {context : Fields} {w w' : World} {u : PUnit}
    (h : (log logger level message context).on w = (.ok u, w')) :
    Continues w w' ∧ w'.data = w.data := by
  have hdata := data_log logger level message context w
  rw [h] at hdata
  exact ⟨(OrderlyFrom.log logger level message context).continues_of_on h, hdata⟩

theorem on_change_of_ready {f : Store → Effect α} {w : World} (hw : w.Ready) {a : α} {s' : Store}
    (h : (f w.data).result = .ok (a, s')) :
    (change f).on w = (.ok a, w.claimed.kept s' (f w.data).wrote) := by
  rw [on_change, hw.obstacle, hw.refusal, h]

/-- A change has a value only in a world that is ready. -/
theorem ready_of_on_change {f : Store → Effect α} {w w' : World} {a : α}
    (h : (change f).on w = (.ok a, w')) :
    w.Ready ∧ ∃ s', (f w.data).result = .ok (a, s') := by
  rw [on_change] at h
  cases hobstacle : w.obstacle with
  | some e =>
    rw [hobstacle] at h
    cases (Prod.mk.inj h).1
  | none =>
    rw [hobstacle] at h
    rcases hresult : (f w.data).result with e | ⟨b, s'⟩
    · rw [hresult] at h
      dsimp only at h
      split at h
      · cases (Prod.mk.inj h).1
      · split at h <;> cases (Prod.mk.inj h).1
    · rw [hresult] at h
      cases hrefusal : w.refusal with
      | some e =>
        rw [hrefusal] at h
        cases (Prod.mk.inj h).1
      | none =>
        rw [hrefusal] at h
        obtain rfl := Except.ok.inj (Prod.mk.inj h).1
        exact ⟨⟨hobstacle, hrefusal⟩, s', rfl⟩

namespace Computes

theorem of_iff {act : Act α} {R R' : Store → α → Store → Prop} (h : Computes act R)
    (hR : ∀ s a s', R s a s' ↔ R' s a s') : Computes act R' :=
  ⟨h.orderly, fun hw => (h.iff hw).trans (hR _ _ _)⟩

/-- A computation in a world that is ready. -/
theorem exists_on {act : Act α} {R : Store → α → Store → Prop} (h : Computes act R) {w : World}
    (hw : w.Ready) {a : α} {s' : Store} (hR : R w.data a s') :
    ∃ w', act.on w = (.ok a, w') ∧ w'.data = s' ∧ Continues w w' := by
  obtain ⟨hvalue, hdata⟩ := (h.iff hw).2 hR
  exact ⟨(act.on w).2, Prod.ext hvalue rfl, hdata, h.orderly.continues trivial⟩

theorem of_on {act : Act α} {R : Store → α → Store → Prop} (h : Computes act R) {w w' : World}
    (hw : w.Ready) {a : α} (hon : act.on w = (.ok a, w')) : R w.data a w'.data := by
  refine (h.iff hw).1 ⟨?_, ?_⟩
  · rw [hon]
  · rw [hon]

theorem pure (a : α) : Computes (pure a : Act α) fun s b s' => b = a ∧ s' = s where
  orderly := OrderlyFrom.pure a
  iff := by
    intro w _ b s'
    rw [on_pure]
    constructor
    · rintro ⟨hvalue, hdata⟩
      exact ⟨(Except.ok.inj hvalue).symm, hdata.symm⟩
    · rintro ⟨rfl, rfl⟩
      exact ⟨rfl, rfl⟩

theorem throw (e : Failure) : Computes (throw e : Act α) fun _ _ _ => False where
  orderly := OrderlyFrom.throw e
  iff := by
    intro w _ a s'
    rw [on_throw]
    constructor
    · intro h
      cases h.1
    · exact False.elim

theorem bind {act : Act α} {f : α → Act β} {R : Store → α → Store → Prop}
    {S : α → Store → β → Store → Prop} (h : Computes act R) (hf : ∀ a, Computes (f a) (S a)) :
    Computes (act >>= f) fun s b s' => ∃ a t, R s a t ∧ S a t b s' where
  orderly := h.orderly.andThen fun a => (hf a).orderly
  iff := by
    intro w hw b s'
    have hready : (act.on w).2.Ready := (h.orderly.continues trivial).ready.2 hw
    rw [on_bind]
    constructor
    · rintro ⟨hvalue, hdata⟩
      rcases hact : act.on w with ⟨e | a, v⟩
      · rw [hact] at hvalue
        cases hvalue
      · rw [hact] at hvalue hdata hready
        exact ⟨a, v.data, h.of_on hw hact, ((hf a).iff hready).1 ⟨hvalue, hdata⟩⟩
    · rintro ⟨a, t, hR, hS⟩
      obtain ⟨v, hact, rfl, -⟩ := h.exists_on hw hR
      rw [hact] at hready ⊢
      exact ((hf a).iff hready).2 hS

theorem look (f : Store → Except StoreError α) :
    Computes (look f) fun s a s' => f s = .ok a ∧ s' = s where
  orderly := OrderlyFrom.look f
  iff := by
    intro w hw a s'
    rw [on_look, hw.obstacle]
    cases hf : f w.data with
    | error e =>
      constructor <;> intro h <;> cases h.1
    | ok b =>
      dsimp only
      constructor
      · rintro ⟨hvalue, hdata⟩
        exact ⟨congrArg _ (Except.ok.inj hvalue), hdata.symm.trans (data_looked w)⟩
      · rintro ⟨hvalue, rfl⟩
        exact ⟨congrArg _ (Except.ok.inj hvalue), data_looked w⟩

theorem change {f : Store → Effect α} (hf : ∀ s, (f s).Sound s) :
    Computes (change f) fun s a s' => (f s).result = .ok (a, s') where
  orderly := OrderlyFrom.change fun s _ => hf s
  iff := by
    intro w hw a s'
    rw [on_change, hw.obstacle, hw.refusal]
    rcases hresult : (f w.data).result with e | ⟨b, s⟩
    · constructor
      · intro h
        dsimp only at h
        split at h
        · cases h.1
        · cases h.1
      · intro h
        cases h
    · have hdata := data_kept fun hwrote => (hf w.data).idle hwrote hresult
      constructor
      · rintro ⟨hvalue, rfl⟩
        rw [Except.ok.inj hvalue, hdata]
      · intro h
        obtain ⟨rfl, rfl⟩ := Prod.mk.inj (Except.ok.inj h)
        exact ⟨rfl, hdata⟩

theorem log (logger : Journal.Logger) (level : Journal.Level) (message : String)
    (context : Fields) : Computes (log logger level message context) fun s _ s' => s' = s where
  orderly := OrderlyFrom.log logger level message context
  iff := by
    intro w _ a s'
    rw [data_log]
    exact ⟨fun h => h.2.symm, fun h => ⟨rfl, h.symm⟩⟩

theorem reporting {act : Act α} {R : Store → α → Store → Prop} (h : Computes act R)
    (fault : String → Fault) : Computes (act.reporting fault) R where
  orderly := h.orderly.reporting fault
  iff := by
    intro w hw a s'
    rw [on_reporting, ← h.iff hw]
    rcases act.on w with ⟨(_ | _) | _, v⟩
    · constructor <;> intro h <;> cases h.1
    · constructor <;> intro h <;> cases h.1
    · exact Iff.rfl

theorem transact {work : Act α} {R : Store → α → Store → Prop} (h : Computes work R) :
    Computes (transact work) R where
  orderly := h.orderly.transact
  iff := by
    intro w hw a s'
    obtain ⟨w', hon, -, hdata, -⟩ := h.orderly.on_transact hw.isOpen trivial
    rw [hon, hdata, ← data_entered w, ← h.iff ((ready_entered w).2 hw)]
    cases (work.on w.entered).1 with
    | error e =>
      constructor <;> intro h <;> cases h.1
    | ok b => exact Iff.rfl

theorem inTransaction {work : Act α} {R : Store → α → Store → Prop} (h : Computes work R)
    (operation : String) : Computes (inTransaction operation work) R where
  orderly := h.orderly.inTransaction operation
  iff := by
    intro w hw a s'
    have horderly : Orderly prepareTransactions := OrderlyFrom.prepareTransactions
    have hready := (horderly.continues (w := w) trivial).ready.2 hw
    have hdata := data_prepareTransactions w
    rw [Act.inTransaction, on_bind_of_ok (on_prepareTransactions hw.isOpen)]
    rw [on_prepareTransactions hw.isOpen] at hready hdata
    rw [← hdata]
    exact (h.transact.reporting _).iff hready

theorem ofStore (r : Except StoreError α) :
    Computes (ofStore r) fun s a s' => r = .ok a ∧ s' = s := by
  cases r with
  | ok b =>
    refine (pure b).of_iff fun s a s' => and_congr_left' ?_
    exact ⟨fun h => h ▸ rfl, fun h => (Except.ok.inj h).symm⟩
  | error e =>
    refine (throw _).of_iff fun s a s' => ⟨False.elim, ?_⟩
    rintro ⟨h, -⟩
    cases h

theorem peek (f : Store → Except StoreError α) :
    Computes (peek f) fun s a s' => f s = .ok a ∧ s' = s where
  orderly := OrderlyFrom.peek f
  iff := by
    intro w hw a s'
    rw [on_peek, hw.obstacle]
    cases hf : f w.data with
    | error e => constructor <;> intro h <;> cases h.1
    | ok b =>
      constructor
      · rintro ⟨hvalue, rfl⟩
        exact ⟨congrArg _ (Except.ok.inj hvalue), rfl⟩
      · rintro ⟨hvalue, rfl⟩
        exact ⟨congrArg _ (Except.ok.inj hvalue), rfl⟩

theorem prepareTransactions : Computes prepareTransactions fun s _ s' => s' = s where
  orderly := OrderlyFrom.prepareTransactions
  iff := by
    intro w hw a s'
    rw [data_prepareTransactions, on_prepareTransactions hw.isOpen]
    exact ⟨fun h => h.2.symm, fun h => ⟨rfl, h.symm⟩⟩

/-- Steps one after the other. -/
def Chain (R : β → Store → Store → Prop) : List β → Store → Store → Prop
  | [], s, s' => s' = s
  | b :: rest, s, s' => ∃ t, R b s t ∧ Chain R rest t s'

theorem chain_append {R : β → Store → Store → Prop} {items more : List β} {s s' : Store} :
    Chain R (items ++ more) s s' ↔ ∃ t, Chain R items s t ∧ Chain R more t s' := by
  induction items generalizing s with
  | nil => exact ⟨fun h => ⟨s, rfl, h⟩, fun ⟨_, ht, h⟩ => ht ▸ h⟩
  | cons b rest ih =>
    simp only [List.cons_append, Chain, ih]
    constructor
    · rintro ⟨u, hb, t, hrest, hmore⟩
      exact ⟨t, ⟨u, hb, hrest⟩, hmore⟩
    · rintro ⟨t, ⟨u, hb, hrest⟩, hmore⟩
      exact ⟨u, hb, t, hrest, hmore⟩

theorem forM {f : β → Act PUnit} {R : β → Store → Store → Prop}
    (hf : ∀ b, Computes (f b) fun s _ s' => R b s s') (items : List β) :
    Computes (items.forM f) fun s _ s' => Chain R items s s' := by
  induction items with
  | nil => exact (pure _).of_iff fun s a s' => ⟨fun h => h.2, fun h => ⟨rfl, h⟩⟩
  | cons b rest ih =>
    exact ((hf b).bind fun _ => ih).of_iff fun s a s' =>
      ⟨fun ⟨_, t, hb, hrest⟩ => ⟨t, hb, hrest⟩, fun ⟨t, hb, hrest⟩ => ⟨⟨⟩, t, hb, hrest⟩⟩

/-- Steps that leave the data leave them together. -/
theorem chain_eq {items : List β} {s s' : Store} :
    Chain (fun _ s s' => s' = s) items s s' ↔ s' = s := by
  induction items generalizing s with
  | nil => exact Iff.rfl
  | cons b rest ih => exact ⟨fun ⟨_, ht, h⟩ => ht ▸ ih.1 h, fun h => ⟨s, rfl, ih.2 h⟩⟩

end Computes
end Act
end FilmReport

namespace FilmReport.Act

open World

variable {α β : Type}

namespace Leads

variable {P Q R : Store → Prop}

theorem of_data {act : Act α} (h : ∀ w, (act.on w).2.data = w.data) : Leads P act P := by
  intro w w' a hw hon
  have hdata := h w
  rw [hon] at hdata
  exact hdata ▸ hw

theorem bind {act : Act α} {f : α → Act β} (h : Leads P act Q) (hf : ∀ a, Leads Q (f a) R) :
    Leads P (act >>= f) R := by
  intro w w' b hw hon
  obtain ⟨a, v, hact, hrest⟩ := on_bind_eq_ok.1 hon
  exact hf a (h hw hact) hrest

theorem pure (a : α) : Leads P (pure a : Act α) P :=
  of_data fun _ => rfl

theorem look (f : Store → Except StoreError α) : Leads P (look f) P := by
  refine of_data fun w => ?_
  rw [on_look]
  cases w.obstacle with
  | some e => rfl
  | none =>
    cases f w.data with
    | error e => rfl
    | ok a => exact data_looked w

theorem change {f : Store → Effect α} (hf : ∀ s, (f s).Sound s)
    (h : ∀ s a s', P s → (f s).result = .ok (a, s') → Q s') : Leads P (change f) Q := by
  intro w w' a hw hon
  exact h _ a _ hw ((Computes.change hf).of_on (ready_of_on_change hon).1 hon)

theorem reporting {act : Act α} (h : Leads P act Q) (fault : String → Fault) :
    Leads P (act.reporting fault) Q := by
  intro w w' a hw hon
  rw [on_reporting] at hon
  obtain ⟨hvalue, rfl⟩ := Prod.mk.inj hon
  rcases hact : act.on w with ⟨(_ | _) | b, v⟩ <;> rw [hact] at hvalue
  · cases hvalue
  · cases hvalue
  · exact h hw hact

theorem transact {work : Act α} (hwork : Orderly work) (h : Leads P work Q) :
    Leads P (transact work) Q := by
  intro w w' a hw hon
  cases hopen : w.session.isOpen with
  | false =>
    rw [on_transact_of_closed hopen] at hon
    cases (Prod.mk.inj hon).1
  | true =>
    obtain ⟨v, hv, -, hdata, -⟩ := hwork.on_transact hopen trivial
    rw [hv] at hon
    obtain ⟨hvalue, rfl⟩ := Prod.mk.inj hon
    rw [hdata, hvalue]
    refine h (w := w.entered) (a := a) ?_ (Prod.ext hvalue rfl)
    rw [data_entered]
    exact hw

theorem inTransaction {work : Act α} (hwork : Orderly work) (h : Leads P work Q)
    (operation : String) : Leads P (inTransaction operation work) Q :=
  bind (of_data data_prepareTransactions) fun _ => reporting (transact hwork h) _

theorem forM {f : β → Act PUnit} {items : List β} (h : ∀ b ∈ items, Leads P (f b) P) :
    Leads P (items.forM f) P := by
  induction items with
  | nil => exact pure _
  | cons b rest ih =>
    rw [List.forall_mem_cons] at h
    exact bind h.1 fun _ => ih h.2

end Leads

variable {I : Store → Prop}

/-- An action after which the data have a property if they had it before. -/
def Preserves (I : Store → Prop) (act : Act α) : Prop :=
  ∀ w : World, I w.data → I (act.on w).2.data

namespace Preserves

theorem leads {act : Act α} (h : Preserves I act) : Leads I act I := by
  intro w w' a hw hon
  have hafter := h w hw
  rw [hon] at hafter
  exact hafter

theorem of_data {act : Act α} (h : ∀ w, (act.on w).2.data = w.data) : Preserves I act := by
  intro w hw
  rw [h w]
  exact hw

theorem bind {act : Act α} {f : α → Act β} (h : Preserves I act) (hf : ∀ a, Preserves I (f a)) :
    Preserves I (act >>= f) := by
  intro w hw
  have hafter := h w hw
  rw [on_bind]
  rcases hon : act.on w with ⟨e | a, v⟩
  · rw [hon] at hafter
    exact hafter
  · rw [hon] at hafter
    exact hf a v hafter

theorem outcome {act : Act α} (h : Preserves I act) : Preserves I act.outcome :=
  fun w hw => h w hw

theorem log (logger : Journal.Logger) (level : Journal.Level) (message : String)
    (context : Fields) : Preserves I (log logger level message context) :=
  of_data (data_log logger level message context)

theorem readClock : Preserves I readClock :=
  of_data data_readClock

end Preserves

/-- What is done whole preserves what it preserves if it is done. -/
theorem Whole.preserves {act : Act α} {R : Store → α → Store → Prop} (hact : Whole act)
    (hcomputes : Computes act R) (hR : ∀ {s a s'}, R s a s' → I s → I s') : Preserves I act := by
  intro w hw
  by_cases hready : w.Ready
  · rcases hon : act.on w with ⟨e | a, v⟩
    · rw [hact.undone hon]
      exact hw
    · exact hR (hcomputes.of_on hready hon) hw
  · rw [hact.orderly.idle trivial hready]
    exact hw

end FilmReport.Act
