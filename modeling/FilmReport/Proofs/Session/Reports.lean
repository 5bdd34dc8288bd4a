import FilmReport.Proofs.Session.Computes

/-!
Failures of actions: which faults an action can report (`Act.Reports`), which actions have a value
only where rows can be written (`Act.Demands`), and what a statement that fails leaves.
-/

set_option autoImplicit false
set_option relaxedAutoImplicit false

namespace FilmReport.Act

open World

variable {α β : Type}

/-- Two actions one after the other fail just if the first one does or the second after it. -/
theorem on_bind_eq_error {act : Act α} {f : α → Act β} {w w' : World} {e : Failure} :
    (act >>= f).on w = (.error e, w') ↔
      act.on w = (.error e, w') ∨ ∃ a v, act.on w = (.ok a, v) ∧ (f a).on v = (.error e, w') := by
  rw [on_bind]
  rcases act.on w with ⟨e' | a, v⟩
  · constructor
    · intro h
      obtain ⟨he, rfl⟩ := Prod.mk.inj h
      rw [Except.error.inj he]
      exact .inl rfl
    · rintro (h | ⟨_, _, h, _⟩)
      · obtain ⟨he, rfl⟩ := Prod.mk.inj h
        rw [Except.error.inj he]
      · cases (Prod.mk.inj h).1
  · constructor
    · intro h
      exact .inr ⟨a, v, rfl, h⟩
    · rintro (h | ⟨a', v', h, hf⟩)
      · cases (Prod.mk.inj h).1
      · obtain ⟨ha, rfl⟩ := Prod.mk.inj h
        obtain rfl := Except.ok.inj ha
        exact hf

/-- Reporting what is raised makes no failure of a value, and no value of a failure. -/
theorem exists_on_of_reporting_error {act : Act α} {fault : String → Fault} {w w' : World}
    {e : Failure} (h : (act.reporting fault).on w = (.error e, w')) :
    ∃ e', act.on w = (.error e', w') := by
  rw [on_reporting] at h
  obtain ⟨hresult, rfl⟩ := Prod.mk.inj h
  rcases hact : act.on w with ⟨e' | a, v⟩
  · exact ⟨e', rfl⟩
  · rw [hact] at hresult
    cases hresult

theorem on_reporting_eq_ok {act : Act α} {fault : String → Fault} {w w' : World} {a : α} :
    (act.reporting fault).on w = (.ok a, w') ↔ act.on w = (.ok a, w') := by
  rw [on_reporting]
  rcases act.on w with ⟨(f | cause) | b, v⟩
  · constructor <;> intro h <;> cases (Prod.mk.inj h).1
  · constructor <;> intro h <;> cases (Prod.mk.inj h).1
  · exact Iff.rfl

theorem of_on_outcome {act : Act α} {w w' : World} {r : Except Failure α}
    (h : act.outcome.on w = (.ok r, w')) : act.on w = (r, w') := by
  rw [on_outcome] at h
  obtain ⟨hresult, rfl⟩ := Prod.mk.inj h
  exact Prod.ext (Except.ok.inj hresult) rfl

theorem of_on_look {f : Store → Except StoreError α} {w w' : World} {a : α}
    (h : (look f).on w = (.ok a, w')) : f w.data = .ok a ∧ w'.data = w.data := by
  rw [on_look] at h
  cases hobstacle : w.obstacle with
  | some e =>
    rw [hobstacle] at h
    cases (Prod.mk.inj h).1
  | none =>
    rw [hobstacle] at h
    cases hf : f w.data with
    | error e =>
      rw [hf] at h
      cases (Prod.mk.inj h).1
    | ok b =>
      rw [hf] at h
      obtain ⟨hvalue, rfl⟩ := Prod.mk.inj h
      exact ⟨congrArg Except.ok (Except.ok.inj hvalue), data_looked w⟩

/-- A transaction ends with a value only if its work had it. -/
theorem result_of_on_leave {nesting : Nesting} {result : Except Failure α} {w w' : World} {a : α}
    (h : (leave nesting result).on w = (.ok a, w')) : result = .ok a := by
  obtain ⟨r, v, hfinish, h⟩ := on_bind_eq_ok.1 h
  rcases r with e | b
  · obtain ⟨_, u, -, h⟩ := on_bind_eq_ok.1 h
    cases (Prod.mk.inj h).1
  · obtain rfl := Except.ok.inj (Prod.mk.inj h).1
    have hfinish := of_on_outcome hfinish
    cases result with
    | error e => cases (Prod.mk.inj hfinish).1
    | ok c =>
      obtain ⟨_, u, -, hpure⟩ := on_bind_eq_ok.1 hfinish
      rw [Except.ok.inj (Prod.mk.inj hpure).1]

/-- Work that has a value in a transaction of its own has it in a world with the same data, in which
rows can be written just if they can in the world around. -/
theorem exists_on_of_inTransaction {work : Act α} {operation : String} {w w' : World} {a : α}
    (h : (inTransaction operation work).on w = (.ok a, w')) :
    ∃ v v', work.on v = (.ok a, v') ∧ v.data = w.data ∧ (v.Ready ↔ w.Ready) := by
  obtain ⟨_, u, hprepare, h⟩ := on_bind_eq_ok.1 h
  have hdata : u.data = w.data := by
    have hprepared := data_prepareTransactions w
    rw [hprepare] at hprepared
    exact hprepared
  have hready : u.Ready ↔ w.Ready :=
    (OrderlyFrom.prepareTransactions.continues_of_on hprepare).ready
  obtain ⟨nesting, v, henter, h⟩ := on_bind_eq_ok.1 (on_reporting_eq_ok.1 h)
  have hentered : v = u.entered := by
    cases hopen : u.session.isOpen with
    | false =>
      rw [on_enter_of_closed hopen] at henter
      cases (Prod.mk.inj henter).1
    | true =>
      cases hin : u.savepoints with
      | none =>
        rw [on_enter_outermost hopen hin] at henter
        rw [entered_of_outside hin, (Prod.mk.inj henter).2]
      | some stack =>
        have hin := Option.isSome_of_eq_some hin
        rw [on_enter_inner hopen hin] at henter
        rw [entered_of_inside hin, (Prod.mk.inj henter).2]
  obtain ⟨result, v', hwork, hleave⟩ := on_bind_eq_ok.1 h
  obtain rfl := result_of_on_leave hleave
  refine ⟨v, v', of_on_outcome hwork, ?_, ?_⟩
  · rw [hentered]
    exact (data_entered u).trans hdata
  · rw [hentered]
    exact (ready_entered u).trans hready

/-- Actions for the items of a list fail where the first of them does that fails. -/
theorem exists_of_on_forM_error {f : β → Act PUnit} {items : List β} {w w' : World} {e : Failure}
    (h : (items.forM f).on w = (.error e, w')) : ∃ done b rest v, items = done ++ b :: rest ∧
      (done.forM f).on w = (.ok ⟨⟩, v) ∧ (f b).on v = (.error e, w') := by
  induction items generalizing w with
  | nil => cases (Prod.mk.inj h).1
  | cons b rest ih =>
    rcases on_bind_eq_error.1 h with hb | ⟨_, u, hb, hrest⟩
    · exact ⟨[], b, rest, w, rfl, rfl, hb⟩
    · obtain ⟨done, c, more, v, rfl, hdone, hc⟩ := ih hrest
      exact ⟨b :: done, c, more, v, rfl, (on_bind_of_ok hb).trans hdone, hc⟩

/-- A transaction of work that fails reports how it fails. -/
theorem exists_on_of_inTransaction_error {work : Act α} (hwork : Orderly work)
    {operation : String} {w w' : World} {e : Failure} (hopen : w.session.isOpen = true)
    (h : (inTransaction operation work).on w = (.error e, w')) :
    ∃ v v' e', work.on v = (.error e', v') ∧ v.data = w.data ∧ (v.Ready ↔ w.Ready) ∧
      ∀ f, e' = .fault f → e = .fault f := by
  have hprepare := on_prepareTransactions hopen
  have hcontinues := OrderlyFrom.prepareTransactions.continues_of_on hprepare
  have hdata := data_prepareTransactions w
  rw [hprepare] at hdata
  rw [Act.inTransaction, on_bind_of_ok hprepare, on_reporting] at h
  obtain ⟨u, hon, -⟩ := hwork.on_transact (hcontinues.isOpen.trans hopen) trivial
  rw [hon] at h
  rcases hrun : work.on (World.entered _) with ⟨e' | a, v'⟩ <;> rw [hrun] at h
  · refine ⟨_, v', e', hrun, (data_entered _).trans hdata,
      (ready_entered _).trans hcontinues.ready, ?_⟩
    rintro f rfl
    exact (Except.error.inj (Prod.mk.inj h).1).symm
  · cases (Prod.mk.inj h).1

/-- Every fault that an action can report has a property. -/
def Reports (act : Act α) (P : Fault → Prop) : Prop :=
  ∀ (w w' : World) (f : Fault), act.on w = (.error (.fault f), w') → P f

namespace Reports

variable {P : Fault → Prop}

theorem pure (a : α) : Reports (pure a : Act α) P := by
  intro w w' f h
  cases (Prod.mk.inj h).1

theorem raised (cause : Cause) : Reports (throw (.raised cause) : Act α) P := by
  intro w w' f h
  cases (Prod.mk.inj h).1

theorem ofStore (r : Except StoreError α) : Reports (ofStore r) P := by
  cases r with
  | ok a => exact pure a
  | error e => exact raised _

theorem report {f : Fault} (hf : P f) : Reports (report f : Act α) P := by
  intro w w' g h
  obtain rfl := Failure.fault.inj (Except.error.inj (Prod.mk.inj h).1)
  exact hf

theorem bind {act : Act α} {f : α → Act β} (h : Reports act P) (hf : ∀ a, Reports (f a) P) :
    Reports (act >>= f) P := by
  intro w w' g hon
  rcases on_bind_eq_error.1 hon with hact | ⟨a, v, -, hrest⟩
  · exact h w w' g hact
  · exact hf a v w' g hrest

theorem forM {f : β → Act PUnit} (hf : ∀ b, Reports (f b) P) (items : List β) :
    Reports (items.forM f) P := by
  induction items with
  | nil => exact pure _
  | cons b rest ih => exact (hf b).bind fun _ => ih

theorem log (logger : Journal.Logger) (level : Journal.Level) (message : String)
    (context : Fields) : Reports (log logger level message context) P := by
  intro w w' f h
  cases (Prod.mk.inj h).1

theorem readClock : Reports readClock P := by
  intro w w' f h
  rw [OrderlyFrom.on_readClock] at h
  obtain ⟨hresult, -⟩ := Prod.mk.inj h
  split at hresult <;> cases hresult

theorem look (f : Store → Except StoreError α) : Reports (look f) P := by
  intro w w' g h
  rw [on_look] at h
  cases hobstacle : w.obstacle with
  | some e =>
    rw [hobstacle] at h
    cases (Prod.mk.inj h).1
  | none =>
    rw [hobstacle] at h
    cases hf : f w.data <;> rw [hf] at h <;> cases (Prod.mk.inj h).1

/-- A change raises what goes wrong. -/
theorem change (f : Store → Effect α) : Reports (change f) P := by
  intro w w' g h
  rw [on_change] at h
  cases hobstacle : w.obstacle with
  | some e =>
    rw [hobstacle] at h
    cases (Prod.mk.inj h).1
  | none =>
    rw [hobstacle] at h
    rcases hresult : (f w.data).result with e | ⟨a, s⟩ <;> rw [hresult] at h <;> dsimp only at h
    · split at h
      · cases (Prod.mk.inj h).1
      · split at h <;> cases (Prod.mk.inj h).1
    · split at h <;> cases (Prod.mk.inj h).1

theorem reporting {act : Act α} (h : Reports act P) {fault : String → Fault}
    (hfault : ∀ cause, P (fault cause)) : Reports (act.reporting fault) P := by
  intro w w' f hon
  rw [on_reporting] at hon
  obtain ⟨hresult, -⟩ := Prod.mk.inj hon
  rcases hact : act.on w with ⟨(g | cause) | a, v⟩ <;> rw [hact] at hresult
  · obtain rfl := Failure.fault.inj (Except.error.inj hresult)
    exact h w v g hact
  · obtain rfl := Failure.fault.inj (Except.error.inj hresult)
    exact hfault _
  · cases hresult

/-- Where nothing else is reported, a failure that is reported is one that was raised. -/
theorem exists_of_on_reporting_error {act : Act α} (h : Reports act fun _ => False)
    {fault : String → Fault} {w w' : World} {e : Failure}
    (hon : (act.reporting fault).on w = (.error e, w')) : ∃ cause, e = .fault (fault cause) := by
  rw [on_reporting] at hon
  rcases hact : act.on w with ⟨(f | cause) | a, v⟩ <;> rw [hact] at hon
  · exact (h w v f hact).elim
  · exact ⟨cause.message, (Except.error.inj (Prod.mk.inj hon).1).symm⟩
  · cases (Prod.mk.inj hon).1

theorem get : Reports (get : Act World) P := by
  intro w w' f h
  cases (Prod.mk.inj h).1

theorem set (v : World) : Reports (set v : Act PUnit) P := by
  intro w w' f h
  cases (Prod.mk.inj h).1

theorem modify (f : World → World) : Reports (modify f : Act PUnit) P := by
  intro w w' g h
  cases (Prod.mk.inj h).1

theorem requireOpen : Reports requireOpen P := by
  refine get.bind fun w => ?_
  split
  · exact pure _
  · exact raised _

theorem prepareTransactions : Reports prepareTransactions P := by
  refine get.bind fun w => ?_
  split
  · exact pure _
  · exact requireOpen.bind fun _ => modify _

theorem begin : Reports (begin false) P := by
  refine requireOpen.bind fun _ => get.bind fun w => ?_
  split
  · exact raised _
  · exact (set _).bind fun _ => pure _

theorem save : Reports save P :=
  requireOpen.bind fun _ => modify _

theorem release : Reports release P := by
  refine requireOpen.bind fun _ => get.bind fun w => ?_
  split
  · exact set _
  · exact raised _

theorem restore : Reports restore P := by
  refine requireOpen.bind fun _ => get.bind fun w => ?_
  split
  · exact set _
  · exact raised _

theorem commit : Reports commit P := by
  refine requireOpen.bind fun _ => get.bind fun w => ?_
  split
  · exact raised _
  · exact set _

theorem rollback : Reports rollback P := by
  refine requireOpen.bind fun _ => get.bind fun w => ?_
  split
  · exact set _
  · exact raised _

theorem enter : Reports enter P := by
  refine get.bind fun w => ?_
  split
  · exact save.bind fun _ => pure _
  · exact begin.bind fun _ => pure _

theorem conclude (nesting : Nesting) : Reports (conclude nesting) P := by
  cases nesting with
  | outermost => exact commit
  | inner => exact release

theorem abandon (nesting : Nesting) : Reports (abandon nesting) P := by
  refine get.bind fun w => ?_
  split
  · cases nesting with
    | outermost => exact rollback
    | inner => exact restore.bind fun _ => release
  · exact pure _

/-- The end of a transaction reports only what its work reported. -/
theorem leave (nesting : Nesting) (result : Except Failure α) :
    Reports (leave nesting result) fun f => result = .error (.fault f) := by
  intro w w' f h
  obtain h | ⟨r, v, hfinish, h⟩ := on_bind_eq_error.1 h
  · cases (Prod.mk.inj h).1
  have hfinish := of_on_outcome hfinish
  rcases r with e | a
  · obtain h | ⟨_, u, -, h⟩ := on_bind_eq_error.1 h
    · exact (abandon (P := fun _ => False) nesting v w' f h).elim
    · obtain rfl := Except.error.inj (Prod.mk.inj h).1
      cases result with
      | error e => exact congrArg _ (Except.error.inj (Prod.mk.inj hfinish).1)
      | ok b =>
        have hconclude : Reports (do Act.conclude nesting; Pure.pure b) fun _ => False :=
          (conclude nesting).bind fun _ => pure b
        exact (hconclude w v f hfinish).elim
  · cases (Prod.mk.inj h).1

theorem transact {work : Act α} (h : Reports work P) : Reports (transact work) P := by
  refine enter.bind fun nesting => ?_
  intro w w' f hon
  obtain hon | ⟨result, v, hwork, hleave⟩ := on_bind_eq_error.1 hon
  · cases (Prod.mk.inj hon).1
  · obtain rfl := leave nesting result v w' f hleave
    exact h w v f (of_on_outcome hwork)

theorem mono {Q : Fault → Prop} {act : Act α} (h : Reports act P) (hPQ : ∀ f, P f → Q f) :
    Reports act Q :=
  fun w w' f hon => hPQ f (h w w' f hon)

theorem ofExcept {r : Except Fault α} (h : ∀ f, r = .error f → P f) : Reports (ofExcept r) P := by
  cases r with
  | ok a => exact pure a
  | error f => exact report (h f rfl)

theorem peek (f : Store → Except StoreError α) : Reports (peek f) P := by
  intro w w' g h
  rw [on_peek] at h
  cases hobstacle : w.obstacle with
  | some e =>
    rw [hobstacle] at h
    cases (Prod.mk.inj h).1
  | none =>
    rw [hobstacle] at h
    cases hf : f w.data <;> rw [hf] at h <;> cases (Prod.mk.inj h).1

/-- What goes on with the outcome of an action goes on with its value, or with a failure that is a
fault of the action or was raised. -/
theorem outcome_bind {act : Act α} {f : Except Failure α → Act β} (h : Reports act P)
    (hok : ∀ a, Reports (f (.ok a)) P)
    (hfault : ∀ g, P g → Reports (f (.error (.fault g))) P)
    (hraised : ∀ cause, Reports (f (.error (.raised cause))) P) :
    Reports (act.outcome >>= f) P := by
  intro w w' g hon
  rcases on_bind_eq_error.1 hon with hact | ⟨r, v, hact, hrest⟩
  · cases (Prod.mk.inj hact).1
  replace hact := of_on_outcome hact
  rcases r with (e | cause) | a
  · exact hfault e (h w v e hact) v w' g hrest
  · exact hraised cause v w' g hrest
  · exact hok a v w' g hrest

theorem mapM {f : β → Act α} (hf : ∀ b, Reports (f b) P) (items : List β) :
    Reports (items.mapM f) P := by
  induction items with
  | nil => exact pure _
  | cons b rest ih =>
    rw [List.mapM_cons]
    exact (hf b).bind fun _ => ih.bind fun _ => pure _

/-- A transaction of a name reports what its work reports, or that something was raised in it. -/
theorem inTransaction {work : Act α} (h : Reports work P) {operation : String}
    (hfault : ∀ cause, P (transactionFault operation cause)) :
    Reports (inTransaction operation work) P :=
  prepareTransactions.bind fun _ => h.transact.reporting hfault

end Reports

/-- An action that has a value only in a world in which rows can be written. -/
def Demands (act : Act α) : Prop :=
  ∀ (w w' : World) (a : α), act.on w = (.ok a, w') → w.Ready

namespace Demands

theorem change (f : Store → Effect α) : Demands (change f) :=
  fun _ _ _ h => (ready_of_on_change h).1

theorem reporting {act : Act α} (h : Demands act) (fault : String → Fault) :
    Demands (act.reporting fault) :=
  fun w w' a hon => h w w' a (on_reporting_eq_ok.1 hon)

/-- What demands may be followed by anything. -/
theorem andThen {act : Act α} (h : Demands act) (f : α → Act β) : Demands (act >>= f) := by
  intro w w' b hon
  obtain ⟨a, v, hact, -⟩ := on_bind_eq_ok.1 hon
  exact h w v a hact

/-- What is orderly may go before. -/
theorem after {act : Act α} {f : α → Act β} (horderly : Orderly act) (h : ∀ a, Demands (f a)) :
    Demands (act >>= f) := by
  intro w w' b hon
  obtain ⟨a, v, hact, hrest⟩ := on_bind_eq_ok.1 hon
  exact (horderly.continues_of_on hact).ready.1 (h a v w' b hrest)

/-- One of the actions for the items of a list may demand for all of them. -/
theorem forM {f : β → Act PUnit} {items : List β} {b : β} (hb : b ∈ items)
    (horderly : ∀ c, Orderly (f c)) (h : Demands (f b)) : Demands (items.forM f) := by
  induction items with
  | nil => cases hb
  | cons c rest ih =>
    cases hb with
    | head => exact h.andThen _
    | tail _ hb => exact after (horderly c) fun _ => ih hb

theorem inTransaction {work : Act α} (h : Demands work) (operation : String) :
    Demands (inTransaction operation work) := by
  intro w w' a hon
  obtain ⟨v, v', hv, -, hready⟩ := exists_on_of_inTransaction hon
  exact hready.1 (h v v' a hv)

end Demands

/-- A change that fails leaves the data, unless it finds no room within a transaction. -/
theorem data_of_on_change_error {f : Store → Effect α} {w w' : World} {e : Failure}
    (h : (change f).on w = (.error e, w'))
    (hroom : w.savepoints = none ∨ (f w.data).result ≠ .error .full) : w'.data = w.data := by
  rw [on_change] at h
  cases hobstacle : w.obstacle with
  | some e' =>
    rw [hobstacle] at h
    rw [← (Prod.mk.inj h).2]
  | none =>
    rw [hobstacle] at h
    rcases hresult : (f w.data).result with e' | ⟨a, s⟩ <;> rw [hresult] at h hroom <;>
      dsimp only at h
    · split at h
      · rw [← (Prod.mk.inj h).2]
      · split at h
        · rw [← (Prod.mk.inj h).2]
        · rw [← (Prod.mk.inj h).2]
          split
          · next hfull =>
            rcases hroom with hnone | hroom
            · rcases w with ⟨⟨_, _, _, _, _, _, _, _, _, _ | _⟩, _⟩
              · change (if _ then _ else _ : Database).store = _
                split <;> rfl
              · cases hnone
            · exact absurd (congrArg _ hfull) hroom
          · rw [noted_claimed, data_kept fun _ => rfl]
    · split at h
      · rw [← (Prod.mk.inj h).2]
      · cases (Prod.mk.inj h).1

end FilmReport.Act
