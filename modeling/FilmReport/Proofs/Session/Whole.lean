import FilmReport.Proofs.Session.Continuation
import FilmReport.Proofs.Session.Orderly

/-!
Beginnings and ends of transactions. Whatever continues the world in which a transaction was entered
is led back by its end to a world that continues the one before: with the data that the transaction
left if it was kept (`World.data_committed`, `World.data_released`), and with those from before it
if it was undone (`World.data_withdrawn`, `World.data_restored`).

So actions are done whole or not at all. A transaction around an orderly action keeps what the action
did if it has a value and takes all of it back if it has none (`Act.on_transact`), and is itself
orderly.
-/

set_option autoImplicit false
set_option relaxedAutoImplicit false

namespace FilmReport

namespace World

theorem apart_begun {w : World} (h : w.savepoints = none) : w.begun.apart = w.apart := by
  rcases w with ⟨⟨_, _, _, _, _, _, _, _, _, _ | _⟩, _⟩
  · rfl
  · cases h

theorem apart_committed (v : World) : v.committed.apart = v.apart.holding v.committed.data := by
  rcases v with ⟨⟨number, _, _, _, _, _, _, _, _, _ | ⟨_ | ⟨_, _, _, wrote⟩, _⟩⟩,
    ⟨_, _, _ | n, _, _⟩⟩
  any_goals rfl
  by_cases hn : n = number
  · cases wrote <;>
      simp [apart, committed, published, holding, Session.writes, Session.isLockedOut,
        Database.committed, hn]
  · simp [apart, committed, published, holding, Session.writes, Session.isLockedOut, hn]

theorem apart_withdrawn (v : World) :
    (Act.withdrawn v).apart = v.apart.holding (Act.withdrawn v).data := by
  rcases v with ⟨⟨number, _, _, _, _, _, _, _, _, _⟩, ⟨_, _, _ | n, _, _⟩⟩
  · rfl
  · by_cases hn : n = number <;>
      simp [apart, Act.withdrawn, holding, Session.writes, Session.isLockedOut, hn]

theorem data_begun {w : World} (h : w.savepoints = none) : w.begun.data = w.data :=
  congrArg (·.database.store) (apart_begun h)

/-- A commit keeps the data that the transaction left. -/
theorem data_committed {w v : World} (h : w.savepoints = none) (hv : Continues w.begun v) :
    v.committed.data = v.data := by
  have hwithin := hv.within rfl
  have hstore : v.database.store = w.data :=
    hwithin.store.trans (data_of_savepoints_eq_none h).symm
  have hidle := fun hw => (hwithin.idle hw).2.trans (data_begun h)
  have hwriting := hwithin.writing
  have hnumber := hv.number
  rcases v with ⟨⟨number, _, _, _, _, _, _, _, _, _ | ⟨_ | ⟨_, _, working, wrote⟩, _⟩⟩, database⟩
  any_goals rfl
  cases wrote with
  | true =>
    have hwriter : database.writer = some number := by
      rcases hwriting rfl with hw | hw
      · cases hw
      · exact hw.trans (congrArg some hnumber.symm)
    change World.data ⟨_, published _, _, _, _, _, _⟩ = _
    simp [published, Session.writes, hwriter, World.data, Session.data, Database.committed]
  | false =>
    have hworking : working = database.store := (hidle rfl).trans hstore.symm
    change (published _).store = _
    cases hw : decide (database.writer = some number) <;>
      simp [published, Session.writes, hw, World.data, Session.data, hworking]

theorem data_withdrawn {w v : World} (h : w.savepoints = none) (hv : Continues w.begun v) :
    (Act.withdrawn v).data = w.data := by
  have hstore : (Act.withdrawn v).data = v.database.store := by
    change (if _ then _ else _ : Database).store = _
    split <;> rfl
  rw [hstore, (hv.within rfl).store]
  exact (data_of_savepoints_eq_none h).symm

theorem Continues.committed {w v : World} (h : w.savepoints = none) (hv : Continues w.begun v) :
    Continues w v.committed where
  apart := by
    rw [apart_committed, hv.apart, apart_begun h]
    rfl
  savepoints := h.symm
  within hin := by simp [h] at hin
  clock := hv.clock

theorem Continues.withdrawn {w v : World} (h : w.savepoints = none) (hv : Continues w.begun v) :
    Continues w (Act.withdrawn v) where
  apart := by
    rw [apart_withdrawn, hv.apart, apart_begun h]
    rfl
  savepoints := h.symm
  within hin := by simp [h] at hin
  clock := hv.clock

theorem sight_saved (w : World) : w.saved.sight = w.sight := by
  rcases w with ⟨⟨_, _, _, _, _, _, _, _, _, _ | ⟨_ | _, _⟩⟩, _⟩ <;> rfl

theorem data_saved (w : World) : w.saved.data = w.data := by
  rw [data_eq_sight, data_eq_sight, sight_saved]

theorem apart_saved (w : World) : w.saved.apart = w.apart := by
  rw [apart, data_saved]
  rfl

theorem sight_released (w : World) : w.released.sight = w.sight := by
  rcases w with ⟨⟨_, _, _, _, _, _, _, _, _, _ | ⟨_ | _, _⟩⟩, _⟩ <;> rfl

theorem data_released (w : World) : w.released.data = w.data := by
  rw [data_eq_sight, data_eq_sight, sight_released]

theorem apart_released (w : World) : w.released.apart = w.apart := by
  rw [apart, data_released]
  rfl

theorem apart_restored (w : World) : w.restored.apart = w.apart.holding w.restored.data := rfl

theorem savepoints_saved {w : World} {stack : List (Option Store)} (h : w.savepoints = some stack) :
    w.saved.savepoints =
      some ((w.session.transaction.bind (·.view)).map (·.working) :: stack) := by
  rcases w with ⟨⟨_, _, _, _, _, _, _, _, _, _ | ⟨_, _⟩⟩, _⟩
  · cases h
  · obtain rfl := Option.some.inj h
    rfl

/-- The newest savepoint gives back the data that were there when it was set. -/
theorem data_restored {w v : World} (h : w.savepoints.isSome) (hv : Continues w.saved v) :
    v.restored.data = w.data := by
  obtain ⟨stack, hstack⟩ := Option.isSome_iff_exists.1 h
  have hsaved := hv.savepoints.trans (savepoints_saved hstack)
  have hwithin := hv.within (by rw [savepoints_saved hstack]; rfl)
  have hidle := fun hw => (hwithin.idle hw).2.trans (data_saved w)
  have hbase := hwithin.sight_base.trans (congrArg View.base (sight_saved w))
  rcases v with ⟨⟨_, _, _, _, _, _, _, _, _, _ | ⟨_ | view, savepoints⟩⟩, _⟩
  · cases hsaved
  · exact hidle rfl
  · obtain rfl : savepoints = _ := Option.some.inj hsaved
    change ((w.session.transaction.bind (·.view)).map (·.working)).getD view.base = w.data
    rw [show view.base = w.sight.base from hbase]
    rcases w with ⟨⟨_, _, _, _, _, _, _, _, _, _ | ⟨_ | _, _⟩⟩, _⟩ <;> rfl

theorem Continues.released {w v : World} (h : w.savepoints.isSome) (hv : Continues w.saved v) :
    Continues w v.released := by
  obtain ⟨stack, hstack⟩ := Option.isSome_iff_exists.1 h
  have hsaved := hv.savepoints.trans (savepoints_saved hstack)
  have hwithin := hv.within (by rw [savepoints_saved hstack]; rfl)
  refine ⟨?_, ?_, fun _ => ?_, hv.clock⟩
  · rw [apart_released, hv.apart, apart_saved, data_released]
    rfl
  · rcases v with ⟨⟨_, _, _, _, _, _, _, _, _, _ | ⟨_, _⟩⟩, _⟩
    · cases hsaved
    · obtain rfl := Option.some.inj hsaved
      exact hstack.symm
  · exact ((Within.of_sight (sight_saved w) rfl).trans hwithin rfl).trans
      (Within.of_sight (sight_released v) rfl) hv.number

theorem Continues.restored {w v : World} (h : w.savepoints.isSome) (hv : Continues w.saved v) :
    Continues w v.restored := by
  have hdata := data_restored h hv
  obtain ⟨stack, hstack⟩ := Option.isSome_iff_exists.1 h
  have hsaved := hv.savepoints.trans (savepoints_saved hstack)
  have hwithin := (Within.of_sight (sight_saved w) rfl).trans
    (hv.within (by rw [savepoints_saved hstack]; rfl)) rfl
  have hsight : v.restored.sight = { v.sight with working := v.restored.data } := by
    rcases v with ⟨⟨_, _, _, _, _, _, _, _, _, _ | ⟨_ | _, _⟩⟩, _⟩
    · cases hsaved
    · rfl
    · rfl
  refine ⟨?_, ?_, fun _ => ?_, hv.clock⟩
  · rw [apart_restored, hv.apart, apart_saved]
    rfl
  · rcases v with ⟨⟨_, _, _, _, _, _, _, _, _, _ | ⟨_, _⟩⟩, _⟩
    · cases hsaved
    · obtain rfl := Option.some.inj hsaved
      exact hstack.symm
  · exact {
      store := hwithin.store
      version := hwithin.version
      sight_version := by rw [hsight]; exact hwithin.sight_version
      sight_base := by rw [hsight]; exact hwithin.sight_base
      idle := by
        intro hw
        rw [hsight] at hw
        exact ⟨(hwithin.idle hw).1, hdata⟩
      writing := by
        intro hw
        rw [hsight] at hw
        exact hwithin.writing hw
      holding := hwithin.holding }

/-- The world in which the work of a transaction begins. -/
def entered (w : World) : World :=
  if w.savepoints.isSome then w.saved else w.begun

theorem entered_of_outside {w : World} (h : w.savepoints = none) : w.entered = w.begun := by
  rw [entered, h]
  rfl

theorem entered_of_inside {w : World} (h : w.savepoints.isSome) : w.entered = w.saved := by
  rw [entered, if_pos h]

theorem apart_entered (w : World) : w.entered.apart = w.apart := by
  cases h : w.savepoints with
  | none => rw [entered_of_outside h, apart_begun h]
  | some stack => rw [entered_of_inside (Option.isSome_of_eq_some h), apart_saved]

theorem data_entered (w : World) : w.entered.data = w.data :=
  congrArg (·.database.store) (apart_entered w)

theorem isOpen_entered (w : World) : w.entered.session.isOpen = w.session.isOpen :=
  congrArg (·.session.isOpen) (apart_entered w)

theorem isStale_entered (w : World) :
    w.entered.session.isStale w.entered.database = w.session.isStale w.database := by
  cases h : w.savepoints with
  | none =>
    rw [entered_of_outside h, isStale_of_savepoints_eq_none h]
    rfl
  | some stack =>
    rw [entered_of_inside (Option.isSome_of_eq_some h), isStale_eq, isStale_eq, sight_saved]
    rfl

theorem ready_entered (w : World) : w.entered.Ready ↔ w.Ready := by
  have hobstacle : w.entered.obstacle = w.obstacle := by
    rw [← obstacle_apart w.entered, apart_entered, obstacle_apart]
  have hrefusal : w.entered.refusal = w.refusal := by
    have hreadonly : w.entered.session.readonly = w.session.readonly :=
      congrArg (·.session.readonly) (apart_entered w)
    have hlocked : w.entered.session.isLockedOut w.entered.database =
        w.session.isLockedOut w.database := by
      rw [← isLockedOut_apart w.entered, apart_entered, isLockedOut_apart]
    rw [refusal, refusal, hreadonly, hlocked, isStale_entered]
  constructor
  · rintro ⟨h, h'⟩
    exact ⟨hobstacle ▸ h, hrefusal ▸ h'⟩
  · rintro ⟨h, h'⟩
    exact ⟨hobstacle.trans h, hrefusal.trans h'⟩

end World
end FilmReport

namespace FilmReport

namespace World

theorem Alike.entered {w v : World} (h : Alike w v) : Alike w.entered v.entered where
  apart := by rw [apart_entered, apart_entered, h.apart]
  isOpen := (isOpen_entered w).trans h.isOpen
  left := (isStale_entered w).trans h.left
  right := (isStale_entered v).trans h.right

end World

namespace Act

open World

variable {α β : Type} {P : Store → Prop}

theorem on_transact_of_closed {w : World} (hclosed : w.session.isOpen = false) (work : Act α) :
    (transact work).on w = (.error (.raised (.store .notOpen)), w) :=
  on_bind_of_error (on_enter_of_closed hclosed)

/--
All or nothing: a transaction keeps the data of its work if this has a value, and takes back
everything if it has none; either way what was before and around it goes on.
-/
theorem on_transact {work : Act α} {w : World} (hopen : w.session.isOpen = true)
    (hcontinues : Continues w.entered (work.on w.entered).2) :
    ∃ w', (transact work).on w = ((work.on w.entered).1, w') ∧ Continues w w' ∧
      w'.data = (match (work.on w.entered).1 with
        | .ok _ => (work.on w.entered).2.data
        | .error _ => w.data) ∧
      w'.clock = (work.on w.entered).2.clock := by
  rcases hrun : work.on w.entered with ⟨r, v⟩
  rw [hrun] at hcontinues
  have hopen' : v.session.isOpen = true :=
    hcontinues.isOpen.trans ((isOpen_entered w).trans hopen)
  cases h : w.savepoints with
  | none =>
    rw [entered_of_outside h] at hcontinues hrun
    have hin : v.savepoints.isSome := by rw [hcontinues.savepoints]; rfl
    have hon : (transact work).on w = (leave .outermost r).on v := by
      rw [transact, on_bind_of_ok (on_enter_outermost hopen h), on_bind, on_outcome, hrun]
    rw [on_leave_outermost hopen' hin] at hon
    cases r with
    | ok a => exact ⟨_, hon, hcontinues.committed h, data_committed h hcontinues, rfl⟩
    | error e => exact ⟨_, hon, hcontinues.withdrawn h, data_withdrawn h hcontinues, rfl⟩
  | some stack =>
    have hin := Option.isSome_of_eq_some h
    rw [entered_of_inside hin] at hcontinues hrun
    have hon : (transact work).on w = (leave .inner r).on v := by
      rw [transact, on_bind_of_ok (on_enter_inner hopen hin), on_bind, on_outcome, hrun]
    rw [on_leave_inner hopen' (hcontinues.savepoints.trans (savepoints_saved h))] at hon
    cases r with
    | ok a => exact ⟨_, hon, hcontinues.released hin, data_released v, rfl⟩
    | error e => exact ⟨_, hon, hcontinues.restored hin, data_restored hin hcontinues, rfl⟩

namespace OrderlyFrom

theorem on_transact {work : Act α} (hwork : OrderlyFrom P work) {w : World}
    (hopen : w.session.isOpen = true) (hw : P w.data) :
    ∃ w', (Act.transact work).on w = ((work.on w.entered).1, w') ∧ Continues w w' ∧
      w'.data = (match (work.on w.entered).1 with
        | .ok _ => (work.on w.entered).2.data
        | .error _ => w.data) ∧
      w'.clock = (work.on w.entered).2.clock :=
  Act.on_transact hopen (hwork.continues (by rw [data_entered]; exact hw))

theorem transact {work : Act α} (hwork : OrderlyFrom P work) : OrderlyFrom P (transact work) where
  continues := by
    intro w hw
    cases hopen : w.session.isOpen with
    | false =>
      rw [on_transact_of_closed hopen]
      exact Continues.refl w
    | true =>
      obtain ⟨w', hon, hcontinues, -⟩ := hwork.on_transact hopen hw
      rw [hon]
      exact hcontinues
  alike := by
    intro w v hw halike
    have hv : P v.data := halike.data ▸ hw
    obtain ⟨hresult, hrest⟩ := hwork.alike (by rw [data_entered]; exact hw) halike.entered
    obtain ⟨w', hon, hcontinues, hdata, hclock⟩ := hwork.on_transact halike.isOpen hw
    obtain ⟨v', hon', hcontinues', hdata', hclock'⟩ := hwork.on_transact halike.isOpen_right hv
    rw [hon, hon']
    refine ⟨hresult, halike.continues hcontinues hcontinues' ?_ ?_⟩
    · rw [hdata, hdata', hresult, hrest.data, halike.data]
    · rw [hclock, hclock', hrest.clock]
  idle := by
    intro w hw hready
    cases hopen : w.session.isOpen with
    | false => rw [on_transact_of_closed hopen]
    | true =>
      obtain ⟨w', hon, -, hdata, -⟩ := hwork.on_transact hopen hw
      have hwithin : (work.on w.entered).2.data = w.entered.data :=
        hwork.idle (by rw [data_entered]; exact hw) fun h => hready ((ready_entered w).1 h)
      rw [hon, hdata, hwithin, data_entered]
      cases (work.on w.entered).1 <;> rfl

theorem inTransaction {work : Act α} (hwork : OrderlyFrom P work) (operation : String) :
    OrderlyFrom P (inTransaction operation work) := by
  refine prepareTransactions.bind (Q := P) ?_ fun _ => hwork.transact.reporting _
  intro w w' a hw hon
  rw [← data_prepareTransactions w, hon] at hw
  exact hw

end OrderlyFrom

/-- An action that leaves the data as they were if it has no value. -/
structure Whole (act : Act α) : Prop where
  orderly : Orderly act
  undone : ∀ {w w' : World} {e : Failure}, act.on w = (.error e, w') → w'.data = w.data

namespace Whole

theorem throw (e : Failure) : Whole (throw e : Act α) where
  orderly := OrderlyFrom.throw e
  undone := by
    intro w w' e' h
    rw [on_throw] at h
    rw [(Prod.mk.inj h).2]

theorem transact {work : Act α} (hwork : Orderly work) : Whole (transact work) where
  orderly := hwork.transact
  undone := by
    intro w w' e h
    cases hopen : w.session.isOpen with
    | false =>
      rw [on_transact_of_closed hopen] at h
      rw [(Prod.mk.inj h).2]
    | true =>
      obtain ⟨v, hon, -, hdata, -⟩ := hwork.on_transact hopen trivial
      rw [hon] at h
      obtain ⟨hresult, rfl⟩ := Prod.mk.inj h
      rw [hdata, hresult]

theorem reporting {act : Act α} (h : Whole act) (fault : String → Fault) :
    Whole (act.reporting fault) where
  orderly := h.orderly.reporting fault
  undone := by
    intro w w' e hon
    rw [on_reporting] at hon
    obtain ⟨hresult, rfl⟩ := Prod.mk.inj hon
    rcases hact : act.on w with ⟨e' | a, v⟩
    · exact h.undone hact
    · rw [hact] at hresult
      cases hresult

/-- What leaves the data alone may go before. -/
theorem after {act : Act α} {f : α → Act β} (horderly : Orderly act)
    (hdata : ∀ w, (act.on w).2.data = w.data) (h : ∀ a, Whole (f a)) : Whole (act >>= f) where
  orderly := horderly.andThen fun a => (h a).orderly
  undone := by
    intro w w' e hon
    have hdata := hdata w
    rw [on_bind] at hon
    rcases hact : act.on w with ⟨e' | a, v⟩
    · rw [hact] at hon hdata
      rw [← (Prod.mk.inj hon).2]
      exact hdata
    · rw [hact] at hon hdata
      exact ((h a).undone hon).trans hdata

/-- What never fails may follow. -/
theorem before {act : Act α} {f : α → Act β} (h : Whole act) (horderly : ∀ a, Orderly (f a))
    (hvalue : ∀ a w, ∃ b, ((f a).on w).1 = .ok b) : Whole (act >>= f) where
  orderly := h.orderly.andThen horderly
  undone := by
    intro w w' e hon
    rw [on_bind] at hon
    rcases hact : act.on w with ⟨e' | a, v⟩
    · rw [hact] at hon
      obtain ⟨-, rfl⟩ := Prod.mk.inj hon
      exact h.undone hact
    · rw [hact] at hon
      obtain ⟨b, hb⟩ := hvalue a v
      have herror : ((f a).on v).1 = .error e := congrArg Prod.fst hon
      rw [hb] at herror
      cases herror

theorem inTransaction {work : Act α} (hwork : Orderly work) (operation : String) :
    Whole (inTransaction operation work) :=
  after OrderlyFrom.prepareTransactions data_prepareTransactions fun _ =>
    (transact hwork).reporting _

end Whole
end Act
end FilmReport
