import FilmReport.Proofs.Session.Continuation
import FilmReport.Proofs.Store.Sound

/-!
Orderly actions. An orderly action continues the world in which it begins, and does the same in
all worlds that look alike from outside of all transactions: what it answers and which data it
leaves does not depend on the transaction in which it runs. Where no row can be written, it leaves
the data as they are.
-/

set_option autoImplicit false
set_option relaxedAutoImplicit false

namespace FilmReport

namespace World

/-- Two worlds in which the session is open on the last commit and that are the same from outside of
all transactions. -/
structure Alike (w v : World) : Prop where
  apart : w.apart = v.apart
  isOpen : w.session.isOpen = true
  left : w.session.isStale w.database = false
  right : v.session.isStale v.database = false

namespace Alike

variable {w v : World}

theorem data (h : Alike w v) : w.data = v.data :=
  congrArg (·.database.store) h.apart

theorem clock (h : Alike w v) : w.clock = v.clock :=
  congrArg (·.clock) h.apart

theorem isOpen_right (h : Alike w v) : v.session.isOpen = true :=
  (congrArg (·.session.isOpen) h.apart).symm.trans h.isOpen

theorem obstacle (h : Alike w v) : w.obstacle = v.obstacle := by
  rw [← obstacle_apart w, ← obstacle_apart v, h.apart]

theorem refusal (h : Alike w v) : w.refusal = v.refusal := by
  have hreadonly : w.session.readonly = v.session.readonly :=
    congrArg (·.session.readonly) h.apart
  have hlocked : w.session.isLockedOut w.database = v.session.isLockedOut v.database := by
    rw [← isLockedOut_apart w, ← isLockedOut_apart v, h.apart]
  rw [World.refusal, World.refusal, h.left, h.right, hreadonly, hlocked]

/-- What continues two worlds that are alike is alike if it agrees in data and clock. -/
theorem continues {w' v' : World} (h : Alike w v) (hw : Continues w w') (hv : Continues v v')
    (hdata : w'.data = v'.data) (hclock : w'.clock = v'.clock) : Alike w' v' where
  apart := by rw [hw.apart, hv.apart, h.apart, hdata, hclock]
  isOpen := hw.isOpen.trans h.isOpen
  left := hw.isStale.trans h.left
  right := hv.isStale.trans h.right

/-- Worlds that are alike stay so when both keep the same data. -/
theorem kept {s : Store} {b c : Bool} (h : Alike w v) (hrefusal : w.refusal = none)
    (hb : b = false → s = w.data) (hc : c = false → s = w.data) :
    Alike (w.claimed.kept s b) (v.claimed.kept s c) := by
  have hc' : c = false → s = v.data := fun hidle => (hc hidle).trans h.data
  refine h.continues (Continues.kept hrefusal hb)
    (Continues.kept (h.refusal.symm.trans hrefusal) hc') ?_ ?_
  · rw [data_kept hb, data_kept hc']
  · rw [clock_kept, clock_kept, h.clock]

end Alike
end World

namespace Act

open World

variable {α β : Type} {P Q : Store → Prop}

/-- An action that, begun with data with the property `P`, continues its world, does the same in all
worlds that are alike and changes nothing where no row can be written. -/
structure OrderlyFrom (P : Store → Prop) (act : Act α) : Prop where
  continues : ∀ {w : World}, P w.data → Continues w (act.on w).2
  alike : ∀ {w v : World}, P w.data → Alike w v →
    (act.on w).1 = (act.on v).1 ∧ Alike (act.on w).2 (act.on v).2
  idle : ∀ {w : World}, P w.data → ¬ w.Ready → (act.on w).2.data = w.data

/-- An action that is orderly whatever the data are. -/
abbrev Orderly (act : Act α) : Prop :=
  OrderlyFrom (fun _ => True) act

/-- An action that leaves data with the property `Q` if it has a value. -/
def Leads (P : Store → Prop) (act : Act α) (Q : Store → Prop) : Prop :=
  ∀ {w w' : World} {a : α}, P w.data → act.on w = (.ok a, w') → Q w'.data

/-- Making transactions ready leaves the data. -/
theorem data_prepareTransactions (w : World) :
    (prepareTransactions.on w).2.data = w.data := by
  cases hopen : w.session.isOpen with
  | false => rw [on_prepareTransactions_of_closed hopen]
  | true =>
    rw [on_prepareTransactions hopen]
    rfl

namespace OrderlyFrom

theorem continues_of_on {act : Act α} (h : Orderly act) {w w' : World} {r : Except Failure α}
    (hon : act.on w = (r, w')) : Continues w w' := by
  have hcontinues : Continues w (act.on w).2 := h.continues trivial
  rw [hon] at hcontinues
  exact hcontinues

theorem mono {act : Act α} (h : OrderlyFrom P act) (hQ : ∀ s, Q s → P s) : OrderlyFrom Q act :=
  ⟨fun hw => h.continues (hQ _ hw), fun hw => h.alike (hQ _ hw), fun hw => h.idle (hQ _ hw)⟩

/-- An action that leaves the world as it is and does so whatever the transaction is. -/
theorem of_constant {act : Act α} {r : Except Failure α} (h : ∀ w, act.on w = (r, w)) :
    OrderlyFrom P act where
  continues := by
    intro w _
    rw [h]
    exact Continues.refl w
  alike := by
    intro w v _ halike
    rw [h, h]
    exact ⟨rfl, halike⟩
  idle := by
    intro w _ _
    rw [h]

theorem pure (a : α) : OrderlyFrom P (pure a : Act α) :=
  of_constant (on_pure a)

theorem throw (e : Failure) : OrderlyFrom P (throw e : Act α) :=
  of_constant (on_throw e)

theorem bind {act : Act α} {f : α → Act β} (h : OrderlyFrom P act) (hleads : Leads P act Q)
    (hf : ∀ a, OrderlyFrom Q (f a)) : OrderlyFrom P (act >>= f) where
  continues := by
    intro w hw
    have hcontinues := h.continues hw
    rw [on_bind]
    rcases hact : act.on w with ⟨e | a, w'⟩
    · rw [hact] at hcontinues
      exact hcontinues
    · rw [hact] at hcontinues
      exact hcontinues.trans ((hf a).continues (hleads hw hact))
  alike := by
    intro w v hw halike
    obtain ⟨hresult, hrest⟩ := h.alike hw halike
    rw [on_bind, on_bind]
    rcases hact : act.on w with ⟨e | a, w'⟩
    all_goals
      rcases hact' : act.on v with ⟨r, v'⟩
      rw [hact, hact'] at hresult hrest
      obtain rfl : _ = r := hresult
    · exact ⟨rfl, hrest⟩
    · exact (hf a).alike (hleads hw hact) hrest
  idle := by
    intro w hw hready
    have hdata := h.idle hw hready
    have hcontinues := h.continues hw
    rw [on_bind]
    rcases hact : act.on w with ⟨e | a, w'⟩
    · rw [hact] at hdata
      exact hdata
    · rw [hact] at hdata hcontinues
      have hready' : ¬ w'.Ready := fun h' => hready (hcontinues.ready.1 h')
      exact ((hf a).idle (hleads hw hact) hready').trans hdata

/-- Orderly actions one after the other are orderly. -/
theorem andThen {act : Act α} {f : α → Act β} (h : OrderlyFrom P act)
    (hf : ∀ a, Orderly (f a)) : OrderlyFrom P (act >>= f) :=
  h.bind (fun _ _ => trivial) hf

/-- An action for each item of a list is orderly if each one is. -/
theorem forM {f : β → Act PUnit} (hf : ∀ b, Orderly (f b)) (items : List β) :
    Orderly (items.forM f) := by
  induction items with
  | nil => exact pure _
  | cons b rest ih => exact (hf b).andThen fun _ => ih

theorem ofExcept (r : Except Fault α) : OrderlyFrom P (ofExcept r) := by
  cases r with
  | ok a => exact pure a
  | error f => exact throw _

theorem ofStore (r : Except StoreError α) : OrderlyFrom P (ofStore r) := by
  cases r with
  | ok a => exact pure a
  | error e => exact throw _

theorem outcome {act : Act α} (h : OrderlyFrom P act) : OrderlyFrom P act.outcome where
  continues hw := h.continues hw
  alike hw halike := by
    obtain ⟨hresult, hrest⟩ := h.alike hw halike
    exact ⟨congrArg Except.ok hresult, hrest⟩
  idle hw hready := h.idle hw hready

theorem reporting {act : Act α} (h : OrderlyFrom P act) (fault : String → Fault) :
    OrderlyFrom P (act.reporting fault) where
  continues := by
    intro w hw
    rw [on_reporting]
    exact h.continues hw
  alike := by
    intro w v hw halike
    obtain ⟨hresult, hrest⟩ := h.alike hw halike
    rw [on_reporting, on_reporting, hresult]
    exact ⟨rfl, hrest⟩
  idle := by
    intro w hw hready
    rw [on_reporting]
    exact h.idle hw hready

theorem requireOpen : OrderlyFrom P requireOpen where
  continues := by
    intro w _
    rw [on_requireOpen]
    split <;> exact Continues.refl w
  alike := by
    intro w v _ halike
    rw [on_requireOpen, on_requireOpen, if_pos halike.isOpen, if_pos halike.isOpen_right]
    exact ⟨rfl, halike⟩
  idle := by
    intro w _ _
    rw [on_requireOpen]
    split <;> rfl

theorem peek (f : Store → Except StoreError α) : OrderlyFrom P (peek f) where
  continues := by
    intro w _
    rw [on_peek]
    cases w.obstacle with
    | some e => exact Continues.refl w
    | none => cases f w.data <;> exact Continues.refl w
  alike := by
    intro w v _ halike
    rw [on_peek, on_peek, halike.obstacle, halike.data]
    cases v.obstacle with
    | some e => exact ⟨rfl, halike⟩
    | none => cases f v.data <;> exact ⟨rfl, halike⟩
  idle := by
    intro w _ _
    rw [on_peek]
    cases w.obstacle with
    | some e => rfl
    | none => cases f w.data <;> rfl

theorem look (f : Store → Except StoreError α) : OrderlyFrom P (look f) where
  continues := by
    intro w _
    rw [on_look]
    cases w.obstacle with
    | some e => exact Continues.refl w
    | none =>
      cases f w.data with
      | error e => exact Continues.refl w
      | ok a => exact Continues.looked w
  alike := by
    intro w v _ halike
    rw [on_look, on_look, halike.obstacle, halike.data]
    cases v.obstacle with
    | some e => exact ⟨rfl, halike⟩
    | none =>
      cases f v.data with
      | error e => exact ⟨rfl, halike⟩
      | ok a =>
        refine ⟨rfl, halike.continues (Continues.looked w) (Continues.looked v) ?_ halike.clock⟩
        rw [data_looked, data_looked, halike.data]
  idle := by
    intro w _ _
    rw [on_look]
    cases w.obstacle with
    | some e => rfl
    | none =>
      cases f w.data with
      | error e => rfl
      | ok a => exact data_looked w

theorem log (logger : Journal.Logger) (level : Journal.Level) (message : String)
    (context : Fields) : OrderlyFrom P (log logger level message context) := by
  have h : ∀ w : World, ∃ journal,
      (Act.log logger level message context).on w = (.ok ⟨⟩, { w with journal := journal }) := by
    intro w
    rw [Act.log, on_modify]
    cases logger.entry? w.stamp level message context with
    | none => exact ⟨w.journal, rfl⟩
    | some entry => exact ⟨w.journal ++ [entry], rfl⟩
  refine ⟨fun {w} _ => ?_, fun {w v} _ halike => ?_, fun {w} _ _ => ?_⟩
  · obtain ⟨journal, hw⟩ := h w
    rw [hw]
    exact ⟨rfl, rfl, fun _ => Within.of_sight rfl rfl, Elapsed.refl w.clock⟩
  · obtain ⟨journal, hw⟩ := h w
    obtain ⟨journal', hv⟩ := h v
    rw [hw, hv]
    exact ⟨rfl, halike.apart, halike.isOpen, halike.left, halike.right⟩
  · obtain ⟨journal, hw⟩ := h w
    rw [hw]
    rfl

/-- A clock after a reading. -/
def advanced : List (Option Calendar.Instant) → List (Option Calendar.Instant)
  | _ :: next :: rest => next :: rest
  | clock => clock

theorem elapsed_advanced (clock : List (Option Calendar.Instant)) :
    Elapsed clock (advanced clock) := by
  rcases clock with _ | ⟨first, _ | ⟨next, rest⟩⟩
  · exact Elapsed.refl []
  · exact Elapsed.refl [first]
  · refine ⟨List.suffix_cons first (next :: rest), fun h => ?_⟩
    cases h

/-- What a reading of the clock does. -/
theorem on_readClock (w : World) :
    readClock.on w =
      (match w.clock with
        | some t :: _ => .ok t.toText
        | _ => .error (.raised .noInstant),
        w.timed (advanced w.clock)) := by
  rw [readClock, on_bind, on_get]
  rcases w with ⟨_, _, _, _, _ | ⟨_ | t, _ | ⟨_, _⟩⟩, _, _⟩ <;> rfl

theorem continues_advanced (w : World) : Continues w (w.timed (advanced w.clock)) :=
  ⟨rfl, rfl, fun _ => Within.of_sight rfl rfl, elapsed_advanced w.clock⟩

theorem readClock : OrderlyFrom P readClock where
  continues := by
    intro w _
    rw [on_readClock]
    exact continues_advanced w
  alike := by
    intro w v _ halike
    have hcontinues := continues_advanced w
    rw [halike.clock] at hcontinues
    rw [on_readClock, on_readClock, halike.clock]
    exact ⟨rfl, halike.continues hcontinues (continues_advanced v) halike.data rfl⟩
  idle := by
    intro w _ _
    rw [on_readClock]
    rfl

theorem change {f : Store → Effect α} (hf : ∀ s, P s → (f s).Sound s) :
    OrderlyFrom P (change f) where
  continues := by
    intro w hw
    obtain ⟨hroom, hidle⟩ := hf _ hw
    rw [on_change]
    cases w.obstacle with
    | some e => exact Continues.refl w
    | none =>
      rcases hresult : (f w.data).result with e | ⟨a, s⟩ <;> dsimp only
      · by_cases hbefore : e.beforeRun = true
        · rw [if_pos hbefore]
          exact Continues.refl w
        · rw [if_neg hbefore]
          cases hrefusal : w.refusal with
          | some e' => exact Continues.refl w
          | none =>
            have hfull : e ≠ .full := fun he => hroom (he ▸ hresult)
            dsimp only
            rw [if_neg hfull, noted_claimed]
            exact Continues.kept hrefusal fun _ => rfl
      · cases hrefusal : w.refusal with
        | some e => exact Continues.refl w
        | none => exact Continues.kept hrefusal fun hwrote => hidle hwrote hresult
  alike := by
    intro w v hw halike
    obtain ⟨hroom, hidle⟩ := hf _ hw
    rw [on_change, on_change, ← halike.obstacle, ← halike.data, ← halike.refusal]
    cases w.obstacle with
    | some e => exact ⟨rfl, halike⟩
    | none =>
      rcases hresult : (f w.data).result with e | ⟨a, s⟩ <;> dsimp only
      · by_cases hbefore : e.beforeRun = true
        · rw [if_pos hbefore, if_pos hbefore]
          exact ⟨rfl, halike⟩
        · rw [if_neg hbefore, if_neg hbefore]
          cases hrefusal : w.refusal with
          | some e' => exact ⟨rfl, halike⟩
          | none =>
            have hfull : e ≠ .full := fun he => hroom (he ▸ hresult)
            dsimp only
            rw [if_neg hfull, if_neg hfull, noted_claimed, noted_claimed, ← halike.data]
            exact ⟨rfl, halike.kept hrefusal (fun _ => rfl) (fun _ => rfl)⟩
      · cases hrefusal : w.refusal with
        | some e => exact ⟨rfl, halike⟩
        | none =>
          have hs : (f w.data).wrote = false → s = w.data := fun hwrote => hidle hwrote hresult
          exact ⟨rfl, halike.kept hrefusal hs hs⟩
  idle := by
    intro w _ hready
    rw [on_change]
    cases hobstacle : w.obstacle with
    | some e => rfl
    | none =>
      cases hrefusal : w.refusal with
      | none => exact absurd ⟨hobstacle, hrefusal⟩ hready
      | some e =>
        rcases (f w.data).result with e' | ⟨a, s⟩ <;> dsimp only
        split <;> rfl

theorem prepareTransactions : OrderlyFrom P prepareTransactions where
  continues := by
    intro w _
    cases hopen : w.session.isOpen with
    | false =>
      rw [on_prepareTransactions_of_closed hopen]
      exact Continues.refl w
    | true =>
      rw [on_prepareTransactions hopen]
      exact ⟨rfl, rfl, fun _ => Within.of_sight rfl rfl, Elapsed.refl w.clock⟩
  alike := by
    intro w v _ halike
    rw [on_prepareTransactions halike.isOpen, on_prepareTransactions halike.isOpen_right]
    exact ⟨rfl, halike.apart, halike.isOpen, halike.left, halike.right⟩
  idle := fun _ _ => Act.data_prepareTransactions _

end OrderlyFrom
end Act
end FilmReport
