import FilmReport.Session.Transaction

/-!
What single actions do in a world. An action is applied to a world with `Act.on`; for each way of
putting actions together and for each statement one lemma says what its outcome is and which world
it leaves.
-/

set_option autoImplicit false
set_option relaxedAutoImplicit false

namespace FilmReport

namespace World

/-- The data that statements of the session work on. -/
def data (w : World) : Store :=
  w.session.data w.database

/-- Why no statement on the tables can be made ready, if none can. -/
def obstacle (w : World) : Option StoreError :=
  if !w.session.isOpen then some .notOpen
  else if !w.session.isReadable then some .notADatabase
  else none

/-- Why the session does not get the right to write, if it does not get it. -/
def refusal (w : World) : Option StoreError :=
  if w.session.readonly then some .readOnly
  else if w.session.isLockedOut w.database then some .locked
  else if w.session.isStale w.database then some .stale
  else none

/-- The view of the transaction, or the one that a look would give it. -/
def sight (w : World) : View :=
  match w.session.transaction.bind (·.view) with
  | some v => v
  | none => ⟨w.database.version, w.database.store, w.database.store, false⟩

/-- The world with another transaction in its session. -/
def mapTransaction (f : Transaction → Transaction) (w : World) : World :=
  { w with session := { w.session with transaction := w.session.transaction.map f } }

def looked (w : World) : World :=
  w.mapTransaction fun t => { t with view := some w.sight }

/-- The world after the right to write was taken. -/
def claimed (w : World) : World :=
  if w.session.transaction.isSome then
    { w.looked with database := { w.database with writer := some w.session.number } }
  else w

def noted (f : View → View) (w : World) : World :=
  w.mapTransaction fun t => { t with view := t.view.map f }

def kept (data : Store) (wrote : Bool) (w : World) : World :=
  if w.session.transaction.isSome then
    w.noted fun v => { v with working := data, wrote := v.wrote || wrote }
  else if wrote then { w with database := w.database.committed data }
  else w

def begun (w : World) : World :=
  { w with session := { w.session with transaction := some ⟨none, []⟩ } }

def saved (w : World) : World :=
  w.mapTransaction fun t => { t with savepoints := t.view.map (·.working) :: t.savepoints }

/-- The world after the newest savepoint was forgotten. -/
def released (w : World) : World :=
  w.mapTransaction fun t => { t with savepoints := t.savepoints.tail }

/-- The world after the data were taken back to the newest savepoint and this was forgotten. -/
def restored (w : World) : World :=
  w.mapTransaction fun t =>
    { view := t.view.map fun v => { v with working := t.savepoints.head?.join.getD v.base }
      savepoints := t.savepoints.tail }

/-- The database that a commit leaves. -/
def published (w : World) : Database :=
  match w.session.transaction.bind (·.view) with
  | some view =>
    if w.session.writes w.database then
      let released := { w.database with writer := none }
      if view.wrote then released.committed view.working else released
    else w.database
  | none => w.database

def committed (w : World) : World :=
  { w with session := { w.session with transaction := none }, database := w.published }

/-- The savepoints of the transaction, if there is one. -/
def savepoints (w : World) : Option (List (Option Store)) :=
  w.session.transaction.map (·.savepoints)

/-- The world of an open session on given data in memory. -/
def inMemory (s : Store) (clock : List (Option Calendar.Instant)) : World where
  session := ⟨1, 1, ":memory:", .memory, false, true, 5000, true, false, none⟩
  database := ⟨s, 0, none, false, false, 0⟩
  files := []
  directory := "/"
  clock := clock
  stamp := ""
  journal := []

theorem looked_eq (w : World) : { w with session := w.session.looked w.database } = w.looked := by
  rcases w with ⟨⟨_, _, _, _, _, _, _, _, _, _ | ⟨_ | _, _⟩⟩, _⟩ <;> rfl

end World

namespace Act

variable {α β : Type}

/-- What an action does in a world: its outcome and the world that it leaves. -/
def on (act : Act α) (w : World) : Except Failure α × World :=
  act w

@[simp]
theorem on_pure (a : α) (w : World) : (pure a : Act α).on w = (.ok a, w) := rfl

@[simp]
theorem on_throw (e : Failure) (w : World) : (throw e : Act α).on w = (.error e, w) := rfl

theorem on_bind (act : Act α) (f : α → Act β) (w : World) :
    (act >>= f).on w =
      match act.on w with
      | (.ok a, w') => (f a).on w'
      | (.error e, w') => (.error e, w') := by
  change ExceptT.bindCont f _ _ = _
  simp only [on]
  cases h : act w with
  | mk r w' => cases r <;> rfl

theorem on_bind_of_ok {act : Act α} {f : α → Act β} {w w' : World} {a : α}
    (h : act.on w = (.ok a, w')) : (act >>= f).on w = (f a).on w' := by
  rw [on_bind, h]

theorem on_bind_of_error {act : Act α} {f : α → Act β} {w w' : World} {e : Failure}
    (h : act.on w = (.error e, w')) : (act >>= f).on w = (.error e, w') := by
  rw [on_bind, h]

/-- Whether a computation has a value that meets a condition. -/
def returns (act : Act α) (w : World) (p : α → World → Bool) : Bool :=
  match act.on w with
  | (.ok a, w') => p a w'
  | (.error _, _) => false

/-- Whether a computation fails with a fault that meets a condition. -/
def faults (act : Act α) (w : World) (p : Fault → World → Bool) : Bool :=
  match act.on w with
  | (.error (.fault fault), w') => p fault w'
  | _ => false

theorem exists_on_of_returns {act : Act α} {w : World} {p : α → World → Bool}
    (h : act.returns w p = true) : ∃ a w', act.on w = (.ok a, w') ∧ p a w' = true := by
  rw [returns] at h
  rcases hon : act.on w with ⟨e | a, w'⟩ <;> rw [hon] at h
  · cases h
  · exact ⟨a, w', rfl, h⟩

theorem exists_on_of_faults {act : Act α} {w : World} {p : Fault → World → Bool}
    (h : act.faults w p = true) :
    ∃ fault w', act.on w = (.error (.fault fault), w') ∧ p fault w' = true := by
  rw [faults] at h
  rcases hon : act.on w with ⟨(fault | cause) | a, w'⟩ <;> rw [hon] at h
  · exact ⟨fault, w', rfl, h⟩
  · cases h
  · cases h

/-- Two actions one after the other have a value just if both have one. -/
theorem on_bind_eq_ok {act : Act α} {f : α → Act β} {w w' : World} {b : β} :
    (act >>= f).on w = (.ok b, w') ↔
      ∃ a v, act.on w = (.ok a, v) ∧ (f a).on v = (.ok b, w') := by
  rw [on_bind]
  rcases act.on w with ⟨e | a, v⟩
  · constructor
    · intro h
      cases (Prod.mk.inj h).1
    · rintro ⟨_, _, h, _⟩
      cases (Prod.mk.inj h).1
  · constructor
    · intro h
      exact ⟨a, v, rfl, h⟩
    · rintro ⟨a', v', h, hf⟩
      obtain ⟨ha, rfl⟩ := Prod.mk.inj h
      obtain rfl := Except.ok.inj ha
      exact hf

@[simp]
theorem on_get (w : World) : (get : Act World).on w = (.ok w, w) := rfl

@[simp]
theorem on_set (v w : World) : (set v : Act PUnit).on w = (.ok ⟨⟩, v) := rfl

@[simp]
theorem on_modify (f : World → World) (w : World) :
    (modify f : Act PUnit).on w = (.ok ⟨⟩, f w) := rfl

@[simp]
theorem on_outcome (act : Act α) (w : World) :
    act.outcome.on w = (.ok (act.on w).1, (act.on w).2) := rfl

@[simp]
theorem on_raise (e : StoreError) (w : World) :
    (raise e : Act α).on w = (.error (.raised (.store e)), w) := rfl

theorem on_ofExcept (r : Except Fault α) (w : World) :
    (ofExcept r).on w = (r.mapError .fault, w) := by
  cases r <;> rfl

theorem on_ofExcept_eq_ok {r : Except Fault α} {w w' : World} {a : α} :
    (ofExcept r).on w = (.ok a, w') ↔ r = .ok a ∧ w' = w := by
  rw [on_ofExcept]
  cases r with
  | ok b =>
    change (Except.ok b, w) = (.ok a, w') ↔ _
    simp [eq_comm]
  | error fault =>
    change (Except.error (Failure.fault fault), w) = (.ok a, w') ↔ _
    simp

/-- The outcome of an action whose raised causes are reported. -/
def reported (fault : String → Fault) : Except Failure α → Except Failure α
  | .ok a => .ok a
  | .error (.fault f) => .error (.fault f)
  | .error (.raised cause) => .error (.fault (fault cause.message))

theorem on_reporting (fault : String → Fault) (act : Act α) (w : World) :
    (act.reporting fault).on w = (reported fault (act.on w).1, (act.on w).2) := by
  rw [reporting, on_bind, on_outcome]
  rcases act.on w with ⟨(_ | _) | _, w'⟩ <;> rfl

theorem on_requireOpen (w : World) :
    requireOpen.on w =
      if w.session.isOpen then (.ok (), w) else (.error (.raised (.store .notOpen)), w) := by
  rw [requireOpen, on_bind, on_get]
  cases h : w.session.isOpen <;> simp [h]

theorem on_requireReadable (w : World) :
    requireReadable.on w =
      match w.obstacle with
      | some e => (.error (.raised (.store e)), w)
      | none => (.ok (), w) := by
  rw [requireReadable, on_bind, on_requireOpen]
  cases ho : w.session.isOpen with
  | false => simp [World.obstacle, ho]
  | true =>
    simp only [if_true, on_bind, on_get]
    cases hr : w.session.isReadable <;> simp [World.obstacle, ho, hr]

theorem on_peek (f : Store → Except StoreError α) (w : World) :
    (peek f).on w =
      match w.obstacle with
      | some e => (.error (.raised (.store e)), w)
      | none =>
        match f w.data with
        | .ok a => (.ok a, w)
        | .error e => (.error (.raised (.store e)), w) := by
  rw [peek, on_bind, on_requireReadable]
  cases w.obstacle with
  | some e => rfl
  | none =>
    simp only [on_bind, on_get]
    change Act.on (ofStore (f w.data)) w = _
    cases f w.data <;> rfl

theorem on_look (f : Store → Except StoreError α) (w : World) :
    (look f).on w =
      match w.obstacle with
      | some e => (.error (.raised (.store e)), w)
      | none =>
        match f w.data with
        | .ok a => (.ok a, w.looked)
        | .error e => (.error (.raised (.store e)), w) := by
  rw [look, on_bind, on_peek]
  cases w.obstacle with
  | some e => rfl
  | none =>
    cases f w.data with
    | error e => rfl
    | ok a => simp only [on_bind, on_modify, on_pure, World.looked_eq]

theorem on_claim (w : World) :
    claim.on w =
      match w.refusal with
      | some e => (.error (.raised (.store e)), w)
      | none => (.ok (), w.claimed) := by
  rw [claim, on_bind, on_get, World.refusal, World.claimed, ← World.looked_eq]
  by_cases hr : w.session.readonly = true
  · simp [hr]
  by_cases hl : w.session.isLockedOut w.database = true
  · simp [hr, hl]
  by_cases hs : w.session.isStale w.database = true
  · simp [hr, hl, hs]
  by_cases ht : w.session.transaction.isSome = true <;> simp [hr, hl, hs, ht]

theorem on_note (f : View → View) (w : World) : (note f).on w = (.ok ⟨⟩, w.noted f) := by
  rcases w with ⟨⟨_, _, _, _, _, _, _, _, _, _ | _⟩, _⟩ <;> rfl

theorem on_keep (data : Store) (wrote : Bool) (w : World) :
    (keep data wrote).on w = (.ok ⟨⟩, w.kept data wrote) := by
  rw [keep, on_bind, on_get, World.kept]
  by_cases ht : w.session.transaction.isSome = true
  · simp [ht, on_note]
  · cases wrote <;> simp [ht]

/-- What a change does: its own errors come before those of a missing right to write only if they
are found before it runs. -/
theorem on_change (f : Store → Effect α) (w : World) :
    (change f).on w =
      match w.obstacle with
      | some e => (.error (.raised (.store e)), w)
      | none =>
        match (f w.data).result with
        | .ok (a, s) =>
          match w.refusal with
          | some e => (.error (.raised (.store e)), w)
          | none => (.ok a, w.claimed.kept s (f w.data).wrote)
        | .error e =>
          if e.beforeRun then (.error (.raised (.store e)), w)
          else
            match w.refusal with
            | some e' => (.error (.raised (.store e')), w)
            | none =>
              (.error (.raised (.store e)),
                if e = .full then withdrawn w.claimed
                else w.claimed.noted fun v => { v with wrote := v.wrote || (f w.data).wrote }) := by
  rw [change, on_bind, on_requireReadable]
  cases w.obstacle with
  | some e => rfl
  | none =>
    simp only [on_bind, on_get]
    change Act.on (match (f w.data).result with | .ok (a, data) => _ | .error e => _) w = _
    generalize hf : f w.data = effect
    rw [show f (w.session.data w.database) = effect from hf]
    obtain ⟨r, wrote⟩ := effect
    cases r with
    | ok p =>
      obtain ⟨a, s⟩ := p
      simp only [on_bind, on_claim]
      cases w.refusal with
      | some e => rfl
      | none => simp only [on_keep, on_pure]
    | error e =>
      by_cases hb : e.beforeRun = true
      · simp only [hb, if_true, on_raise]
      · simp only [hb, Bool.false_eq_true, if_false, on_bind, on_claim]
        cases w.refusal with
        | some e' => rfl
        | none =>
          by_cases he : e = .full
          · simp only [he, if_true, on_bind, on_modify, on_raise]
          · simp only [he, if_false, on_bind, on_note, on_raise]

theorem on_prepareTransactions {w : World} (hopen : w.session.isOpen = true) :
    prepareTransactions.on w =
      (.ok (), { w with session := { w.session with prepared := true } }) := by
  rcases w with ⟨⟨_, _, _, _, _, _, _, _, prepared, _⟩, _⟩
  obtain rfl : _ = true := hopen
  cases prepared <;> rfl

theorem on_prepareTransactions_of_closed {w : World} (hclosed : w.session.isOpen = false) :
    (prepareTransactions.on w).2 = w := by
  rcases w with ⟨⟨_, _, _, _, _, _, _, _, prepared, _⟩, _⟩
  obtain rfl : _ = false := hclosed
  cases prepared <;> rfl

theorem on_enter_of_closed {w : World} (hclosed : w.session.isOpen = false) :
    enter.on w = (.error (.raised (.store .notOpen)), w) := by
  rcases w with ⟨⟨_, _, _, _, _, _, _, _, _, _⟩, _⟩
  obtain rfl : _ = false := hclosed
  rfl

theorem on_enter_outermost {w : World} (hopen : w.session.isOpen = true)
    (h : w.savepoints = none) : enter.on w = (.ok .outermost, w.begun) := by
  rcases w with ⟨⟨_, _, _, _, _, _, _, _, _, _ | _⟩, _⟩
  · obtain rfl : _ = true := hopen
    rfl
  · cases h

theorem on_enter_inner {w : World} (hopen : w.session.isOpen = true)
    (h : w.savepoints.isSome = true) : enter.on w = (.ok .inner, w.saved) := by
  rcases w with ⟨⟨_, _, _, _, _, _, _, _, _, _ | _⟩, _⟩
  · cases h
  · obtain rfl : _ = true := hopen
    rfl

theorem on_leave_outermost {w : World} (hopen : w.session.isOpen = true)
    (h : w.savepoints.isSome = true) (result : Except Failure α) :
    (leave .outermost result).on w =
      (result,
        match result with
        | .ok _ => w.committed
        | .error _ => withdrawn w) := by
  rcases w with ⟨⟨_, _, _, _, _, _, _, _, _, _ | ⟨_ | _, _⟩⟩, _⟩
  · cases h
  all_goals
    obtain rfl : _ = true := hopen
    cases result <;> rfl

theorem on_leave_inner {w : World} (hopen : w.session.isOpen = true) {saved : Option Store}
    {stack : List (Option Store)} (h : w.savepoints = some (saved :: stack))
    (result : Except Failure α) :
    (leave .inner result).on w =
      (result,
        match result with
        | .ok _ => w.released
        | .error _ => w.restored) := by
  rcases w with ⟨⟨_, _, _, _, _, _, _, _, _, _ | ⟨_, savepoints⟩⟩, _⟩
  · cases h
  · obtain rfl : _ = true := hopen
    obtain rfl : savepoints = saved :: stack := Option.some.inj h
    cases result <;> rfl

end Act
end FilmReport
