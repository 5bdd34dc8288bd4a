import FilmReport.Proofs.Session.Framed
import FilmReport.Proofs.Session.Reports

/-!
Actions that raise. A fault that an action reports is an answer; a cause that it raises goes through
to whoever asked (`Act.Raises`). For each way of putting actions together it is said where the whole
raises. What is done in a transaction is reported, so that only making the transaction statements
ready can raise.
-/

set_option autoImplicit false
set_option relaxedAutoImplicit false

namespace FilmReport

/-- The next reading of a clock is no instant. -/
def Stuck (clock : List (Option Calendar.Instant)) : Prop :=
  ∀ t, clock.head? ≠ some (some t)

/-- The session is closed, and its transaction statements were never made ready. -/
def World.Shut (w : World) : Prop :=
  w.session.isOpen = false ∧ w.session.prepared = false

theorem World.isOpen_of_obstacle {w : World} (h : w.obstacle = none) :
    w.session.isOpen = true := by
  cases hopen : w.session.isOpen with
  | true => rfl
  | false =>
    rw [World.obstacle, hopen] at h
    cases h

namespace Act

variable {α β : Type}

/-- An action that does not answer in a world, but raises a cause. -/
def Raises (act : Act α) (w : World) : Prop :=
  ∃ cause w', act.on w = (.error (.raised cause), w')

theorem not_raises_of_on {act : Act α} {w w' : World} {a : α} (h : act.on w = (.ok a, w')) :
    ¬ Raises act w := by
  rintro ⟨cause, v, hraised⟩
  rw [h] at hraised
  cases (Prod.mk.inj hraised).1

/-- Two actions one after the other raise just if the first one does or the second after it. -/
theorem raises_bind {act : Act α} {f : α → Act β} {w : World} :
    Raises (act >>= f) w ↔ Raises act w ∨ ∃ a v, act.on w = (.ok a, v) ∧ Raises (f a) v := by
  constructor
  · rintro ⟨cause, w', h⟩
    rcases on_bind_eq_error.1 h with hact | ⟨a, v, hact, hf⟩
    · exact .inl ⟨cause, w', hact⟩
    · exact .inr ⟨a, v, hact, cause, w', hf⟩
  · rintro (⟨cause, w', hact⟩ | ⟨a, v, hact, cause, w', hf⟩)
    · exact ⟨cause, w', on_bind_of_error hact⟩
    · exact ⟨cause, w', (on_bind_of_ok hact).trans hf⟩

theorem raises_bind_of_ok {act : Act α} {f : α → Act β} {w v : World} {a : α}
    (h : act.on w = (.ok a, v)) : Raises (act >>= f) w ↔ Raises (f a) v := by
  rw [Raises, on_bind_of_ok h]
  exact Iff.rfl

/-- An action that never raises: it has a value or reports a fault, whatever the world is. -/
def Answers (act : Act α) : Prop :=
  ∀ w : World, ¬ Raises act w

namespace Answers

theorem pure (a : α) : Answers (pure a : Act α) :=
  fun w => not_raises_of_on (on_pure a w)

theorem report (fault : Fault) : Answers (report fault : Act α) := by
  rintro w ⟨cause, v, h⟩
  cases (Prod.mk.inj h).1

theorem get : Answers (get : Act World) :=
  fun w => not_raises_of_on (on_get w)

theorem set (v : World) : Answers (set v : Act PUnit) :=
  fun w => not_raises_of_on (on_set v w)

theorem outcome (act : Act α) : Answers act.outcome :=
  fun w => not_raises_of_on (on_outcome act w)

theorem ofExcept (r : Except Fault α) : Answers (ofExcept r) := by
  cases r with
  | ok a => exact pure a
  | error fault => exact report fault

/-- What is reported is not raised. -/
theorem reporting (act : Act α) (fault : String → Fault) : Answers (act.reporting fault) := by
  rintro w ⟨cause, w', h⟩
  rw [on_reporting] at h
  rcases hact : act.on w with ⟨(f | c) | a, v⟩ <;> rw [hact] at h <;> cases (Prod.mk.inj h).1

theorem log (logger : Journal.Logger) (level : Journal.Level) (message : String)
    (context : Fields) : Answers (log logger level message context) := by
  rintro w ⟨cause, v, h⟩
  cases (Prod.mk.inj h).1

theorem bind {act : Act α} {f : α → Act β} (h : Answers act) (hf : ∀ a, Answers (f a)) :
    Answers (act >>= f) := by
  intro w hraises
  rcases raises_bind.1 hraises with hact | ⟨a, v, -, hraises⟩
  · exact h w hact
  · exact hf a v hraises

theorem mapM {f : β → Act α} (hf : ∀ b, Answers (f b)) (items : List β) :
    Answers (items.mapM f) := by
  induction items with
  | nil => exact pure _
  | cons b rest ih =>
    rw [List.mapM_cons]
    exact (hf b).bind fun a => ih.bind fun values => pure _

end Answers

/-- What follows makes no difference if it answers. -/
theorem raises_andThen {act : Act α} {f : α → Act β} (hf : ∀ a, Answers (f a)) {w : World} :
    Raises (act >>= f) w ↔ Raises act w := by
  refine raises_bind.trans ⟨?_, .inl⟩
  rintro (h | ⟨a, v, -, h⟩)
  · exact h
  · exact absurd h (hf a v)

/-- What goes before makes no difference if it answers, but for the world that it leaves. -/
theorem Answers.raises_after {act : Act α} {f : α → Act β} (h : Answers act) {w : World} :
    Raises (act >>= f) w ↔ ∃ a v, act.on w = (.ok a, v) ∧ Raises (f a) v :=
  raises_bind.trans (or_iff_right (h w))

theorem raises_ofExcept_bind {r : Except Fault α} {f : α → Act β} {w : World} :
    Raises (ofExcept r >>= f) w ↔ ∃ a, r = .ok a ∧ Raises (f a) w := by
  constructor
  · intro h
    obtain ⟨a, v, hr, hf⟩ := (Answers.ofExcept r).raises_after.1 h
    obtain ⟨hvalue, rfl⟩ := on_ofExcept_eq_ok.1 hr
    exact ⟨a, hvalue, hf⟩
  · rintro ⟨a, rfl, hf⟩
    exact (raises_bind_of_ok (on_pure a w)).2 hf

/-- A reading of the clock raises just where there is no instant to read. -/
theorem raises_readClock {w : World} : Raises readClock w ↔ Stuck w.clock := by
  rw [Raises, OrderlyFrom.on_readClock, Stuck]
  rcases w.clock with _ | ⟨_ | t, rest⟩
  · simp
  · simp
  · simp

theorem raises_prepareTransactions {w : World} : Raises prepareTransactions w ↔ w.Shut := by
  rw [World.Shut]
  rcases w with ⟨⟨_, _, _, _, _, _, _, isOpen, prepared, _⟩, _⟩
  cases isOpen with
  | true =>
    rw [Raises, on_prepareTransactions rfl]
    simp
  | false =>
    cases prepared with
    | true => exact ⟨fun h => absurd h (Answers.pure _ _), fun h => nomatch h.2⟩
    | false => exact ⟨fun _ => ⟨rfl, rfl⟩, fun _ => ⟨_, _, rfl⟩⟩

/-- Making something ready raises where no statement can be made ready, and where its check
fails. -/
theorem raises_peek {f : Store → Except StoreError α} {w : World} :
    Raises (peek f) w ↔ w.obstacle ≠ none ∨ ∃ e, f w.data = .error e := by
  rw [Raises, on_peek]
  cases w.obstacle with
  | some e => simp
  | none => cases f w.data <;> simp

theorem of_on_peek {f : Store → Except StoreError α} {w w' : World} {a : α}
    (h : (peek f).on w = (.ok a, w')) : w.obstacle = none ∧ f w.data = .ok a ∧ w' = w := by
  rw [on_peek] at h
  cases hobstacle : w.obstacle with
  | some e =>
    rw [hobstacle] at h
    cases (Prod.mk.inj h).1
  | none =>
    rw [hobstacle] at h
    cases hf : f w.data <;> rw [hf] at h
    · cases (Prod.mk.inj h).1
    · obtain ⟨hvalue, rfl⟩ := Prod.mk.inj h
      exact ⟨rfl, congrArg Except.ok (Except.ok.inj hvalue), rfl⟩

/-- A transaction of a name raises just where its statements cannot be made ready. -/
theorem raises_inTransaction {operation : String} {work : Act α} {w : World} :
    Raises (inTransaction operation work) w ↔ w.Shut :=
  (raises_andThen fun _ => Answers.reporting _ _).trans raises_prepareTransactions

/-- A transaction is not entered in a closed session. -/
theorem isOpen_of_on_inTransaction {operation : String} {work : Act α} {w w' : World} {a : α}
    (h : (inTransaction operation work).on w = (.ok a, w')) : w.session.isOpen = true := by
  obtain ⟨_, u, hprepare, h⟩ := on_bind_eq_ok.1 h
  obtain ⟨nesting, v, henter, -⟩ := on_bind_eq_ok.1 (on_reporting_eq_ok.1 h)
  rw [← Framed.prepareTransactions.isOpen hprepare]
  cases hopen : u.session.isOpen with
  | true => rfl
  | false =>
    rw [on_enter_of_closed hopen] at henter
    cases (Prod.mk.inj henter).1

end Act
end FilmReport
