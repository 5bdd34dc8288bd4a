import FilmReport.Proofs.Session.Action

/-!
What an action keeps of the world around it. Seen from outside of all transactions a world that an
action leaves differs from the world it began in by its data and its clock at most
(`World.Continues.apart`); within a transaction the savepoints and the last commit stay, and the
data are those of the last commit as long as nothing was written (`World.Within`).
-/

set_option autoImplicit false
set_option relaxedAutoImplicit false

namespace FilmReport

namespace World

/-- The world with other data committed. -/
def holding (s : Store) (w : World) : World :=
  { w with database := { w.database with store := s } }

/-- The world with another clock. -/
def timed (clock : List (Option Calendar.Instant)) (w : World) : World :=
  { w with clock := clock }

/--
The world as if its session were in no transaction and what it sees were committed. What the journal
holds, how many commits there were and whether this session writes is left out of account.
-/
def apart (w : World) : World :=
  { w with
    session := { w.session with transaction := none, prepared := true }
    database :=
      { w.database with
        store := w.data
        version := 0
        writer := if w.session.isLockedOut w.database then w.database.writer else none }
    journal := [] }

theorem data_eq_sight (w : World) : w.data = w.sight.working := by
  rw [data, Session.data, sight]
  cases w.session.transaction.bind (·.view) <;> rfl

@[simp]
theorem data_apart (w : World) : w.apart.data = w.data := rfl

@[simp]
theorem data_timed (w : World) (clock : List (Option Calendar.Instant)) :
    (w.timed clock).data = w.data := rfl

@[simp]
theorem obstacle_apart (w : World) : w.apart.obstacle = w.obstacle := rfl

theorem isLockedOut_apart (w : World) :
    w.apart.session.isLockedOut w.apart.database = w.session.isLockedOut w.database := by
  cases hw : w.database.writer with
  | none => simp [apart, Session.isLockedOut, hw]
  | some n => by_cases hn : n = w.session.number <;> simp [apart, Session.isLockedOut, hw, hn]

/-- What happens to the transaction and the database while an action runs within it. -/
structure Within (w w' : World) : Prop where
  store : w'.database.store = w.database.store
  version : w'.database.version = w.database.version
  sight_version : w'.sight.version = w.sight.version
  sight_base : w'.sight.base = w.sight.base
  /-- As long as nothing was written, the data are what they were. -/
  idle : w'.sight.wrote = false → w.sight.wrote = false ∧ w'.data = w.data
  /-- Whoever wrote has the right to write. -/
  writing : w'.sight.wrote = true →
    w.sight.wrote = true ∨ w'.database.writer = some w.session.number
  holding : w.database.writer = some w.session.number →
    w'.database.writer = some w.session.number

theorem Within.refl (w : World) : Within w w :=
  ⟨rfl, rfl, rfl, rfl, fun h => ⟨h, rfl⟩, fun h => .inl h, fun h => h⟩

theorem Within.trans {u v w : World} (h : Within u v) (h' : Within v w)
    (number : v.session.number = u.session.number) : Within u w where
  store := h'.store.trans h.store
  version := h'.version.trans h.version
  sight_version := h'.sight_version.trans h.sight_version
  sight_base := h'.sight_base.trans h.sight_base
  idle hw := by
    obtain ⟨hv, hdata⟩ := h'.idle hw
    obtain ⟨hu, hdata'⟩ := h.idle hv
    exact ⟨hu, hdata.trans hdata'⟩
  writing hw := by
    rcases h'.writing hw with hv | hv
    · rcases h.writing hv with hu | hu
      · exact .inl hu
      · exact .inr (number ▸ h'.holding (number ▸ hu))
    · exact .inr (number ▸ hv)
  holding hu := number ▸ h'.holding (number ▸ h.holding hu)

/-- A clock that went on: some readings are gone, but never the last one. -/
def Elapsed (before after : List (Option Calendar.Instant)) : Prop :=
  after <:+ before ∧ (after = [] → before = [])

namespace Elapsed

theorem refl (clock : List (Option Calendar.Instant)) : Elapsed clock clock :=
  ⟨List.suffix_refl clock, id⟩

theorem trans {a b c : List (Option Calendar.Instant)} (h : Elapsed a b) (h' : Elapsed b c) :
    Elapsed a c :=
  ⟨h'.1.trans h.1, fun hc => h.2 (h'.2 hc)⟩

end Elapsed

/-- A world that an action may leave which began in `w`. -/
structure Continues (w w' : World) : Prop where
  apart : w'.apart = (w.apart.holding w'.data).timed w'.clock
  savepoints : w'.savepoints = w.savepoints
  within : w.savepoints.isSome → Within w w'
  clock : Elapsed w.clock w'.clock

namespace Continues

theorem number {w w' : World} (h : Continues w w') : w'.session.number = w.session.number :=
  congrArg (·.session.number) h.apart

theorem isOpen {w w' : World} (h : Continues w w') : w'.session.isOpen = w.session.isOpen :=
  congrArg (·.session.isOpen) h.apart

theorem obstacle {w w' : World} (h : Continues w w') : w'.obstacle = w.obstacle := by
  rw [← obstacle_apart w', h.apart]
  rfl

theorem refl (w : World) : Continues w w :=
  ⟨rfl, rfl, fun _ => Within.refl w, Elapsed.refl w.clock⟩

theorem trans {u v w : World} (h : Continues u v) (h' : Continues v w) : Continues u w where
  apart := by rw [h'.apart, h.apart]; rfl
  savepoints := h'.savepoints.trans h.savepoints
  within hu := (h.within hu).trans (h'.within (h.savepoints ▸ hu)) h.number
  clock := h.clock.trans h'.clock

end Continues

theorem data_of_savepoints_eq_none {w : World} (h : w.savepoints = none) :
    w.data = w.database.store := by
  rcases w with ⟨⟨_, _, _, _, _, _, _, _, _, _ | _⟩, _⟩
  · rfl
  · cases h

/-- A look changes neither the data nor anything that a transaction keeps. -/
theorem Within.of_sight {w w' : World} (hs : w'.sight = w.sight) (hd : w'.database = w.database) :
    Within w w' where
  store := by rw [hd]
  version := by rw [hd]
  sight_version := by rw [hs]
  sight_base := by rw [hs]
  idle h := ⟨hs ▸ h, by rw [data_eq_sight, data_eq_sight, hs]⟩
  writing h := .inl (hs ▸ h)
  holding h := by rw [hd]; exact h

theorem sight_looked (w : World) : w.looked.sight = w.sight := by
  rcases w with ⟨⟨_, _, _, _, _, _, _, _, _, _ | ⟨_ | _, _⟩⟩, _⟩ <;> rfl

theorem data_looked (w : World) : w.looked.data = w.data := by
  rw [data_eq_sight, data_eq_sight, sight_looked]

theorem Continues.looked (w : World) : Continues w w.looked where
  apart := by rw [data_looked, World.apart, data_looked]; rfl
  savepoints := by rcases w with ⟨⟨_, _, _, _, _, _, _, _, _, _ | _⟩, _⟩ <;> rfl
  within _ := Within.of_sight (sight_looked w) rfl
  clock := Elapsed.refl w.clock

theorem sight_kept {w : World} (h : w.savepoints.isSome) (s : Store) (wrote : Bool) :
    (w.claimed.kept s wrote).sight =
      { w.sight with working := s, wrote := w.sight.wrote || wrote } := by
  rcases w with ⟨⟨_, _, _, _, _, _, _, _, _, _ | ⟨_ | _, _⟩⟩, _⟩
  · cases h
  · rfl
  · rfl

theorem database_kept {w : World} (h : w.savepoints.isSome) (s : Store) (wrote : Bool) :
    (w.claimed.kept s wrote).database = { w.database with writer := some w.session.number } := by
  rcases w with ⟨⟨_, _, _, _, _, _, _, _, _, _ | ⟨_ | _, _⟩⟩, _⟩
  · cases h
  · rfl
  · rfl

theorem kept_of_savepoints_eq_none {w : World} (h : w.savepoints = none) (s : Store)
    (wrote : Bool) :
    w.claimed.kept s wrote =
      if wrote then { w with database := w.database.committed s } else w := by
  rcases w with ⟨⟨_, _, _, _, _, _, _, _, _, _ | _⟩, _⟩
  · rfl
  · cases h

theorem data_kept {w : World} {s : Store} {wrote : Bool} (hs : wrote = false → s = w.data) :
    (w.claimed.kept s wrote).data = s := by
  cases h : w.savepoints with
  | some stack => rw [data_eq_sight, sight_kept (Option.isSome_of_eq_some h)]
  | none =>
    rw [kept_of_savepoints_eq_none h]
    cases wrote with
    | true => exact data_of_savepoints_eq_none h
    | false => exact (hs rfl).symm

theorem clock_kept (w : World) (s : Store) (wrote : Bool) :
    (w.claimed.kept s wrote).clock = w.clock := by
  rcases w with ⟨⟨_, _, _, _, _, _, _, _, _, _ | ⟨_ | _, _⟩⟩, _⟩ <;> cases wrote <;> rfl

theorem isLockedOut_of_refusal {w : World} (h : w.refusal = none) :
    w.session.isLockedOut w.database = false := by
  cases hl : w.session.isLockedOut w.database with
  | false => rfl
  | true =>
    rw [refusal, hl] at h
    cases hr : w.session.readonly <;> simp [hr] at h

theorem apart_kept {w : World} (h : w.refusal = none) {s : Store} {wrote : Bool}
    (hs : wrote = false → s = w.data) :
    (w.claimed.kept s wrote).apart = w.apart.holding s := by
  have hdata := data_kept hs
  have hl := isLockedOut_of_refusal h
  rw [apart, hdata, apart, hl]
  rcases w with ⟨⟨_, _, _, _, _, _, _, _, _, _ | ⟨_ | _, _⟩⟩, ⟨_, _, writer, _, _⟩⟩
  · cases wrote <;> simp_all [claimed, kept, holding, Session.isLockedOut, Database.committed]
  · simp_all [claimed, kept, holding, Session.isLockedOut, looked, mapTransaction, noted]
  · simp_all [claimed, kept, holding, Session.isLockedOut, looked, mapTransaction, noted]

theorem Continues.kept {w : World} (h : w.refusal = none) {s : Store} {wrote : Bool}
    (hs : wrote = false → s = w.data) : Continues w (w.claimed.kept s wrote) where
  apart := by
    rw [apart_kept h hs, data_kept hs]
    rcases w with ⟨⟨_, _, _, _, _, _, _, _, _, _ | ⟨_ | _, _⟩⟩, _⟩ <;> cases wrote <;> rfl
  savepoints := by
    rcases w with ⟨⟨_, _, _, _, _, _, _, _, _, _ | ⟨_ | _, _⟩⟩, _⟩ <;> cases wrote <;> rfl
  within hin := by
    have hsight := sight_kept hin s wrote
    have hdatabase := database_kept hin s wrote
    exact {
      store := by rw [hdatabase]
      version := by rw [hdatabase]
      sight_version := by rw [hsight]
      sight_base := by rw [hsight]
      idle := by
        intro hidle
        rw [hsight] at hidle
        obtain ⟨hw, hwrote⟩ := Bool.or_eq_false_iff.1 hidle
        exact ⟨hw, (data_kept hs).trans (hs hwrote)⟩
      writing := fun _ => .inr (by rw [hdatabase])
      holding := fun _ => by rw [hdatabase] }
  clock := by
    rw [clock_kept]
    exact Elapsed.refl w.clock

/-- A failed statement that wrote leaves the world as if it had written what was there. -/
theorem noted_claimed (w : World) (wrote : Bool) :
    (w.claimed.noted fun v => { v with wrote := v.wrote || wrote }) =
      w.claimed.kept w.data (wrote && w.savepoints.isSome) := by
  rcases w with ⟨⟨_, _, _, _, _, _, _, _, _, _ | ⟨_ | _, _⟩⟩, _⟩ <;> cases wrote <;> rfl

theorem isStale_eq (w : World) :
    w.session.isStale w.database = decide (w.sight.version ≠ w.database.version) := by
  rcases w with ⟨⟨_, _, _, _, _, _, _, _, _, _ | ⟨_ | _, _⟩⟩, _⟩
  · exact (decide_eq_false (fun h => h rfl)).symm
  · exact (decide_eq_false (fun h => h rfl)).symm
  · rfl

theorem isStale_of_savepoints_eq_none {w : World} (h : w.savepoints = none) :
    w.session.isStale w.database = false := by
  rcases w with ⟨⟨_, _, _, _, _, _, _, _, _, _ | _⟩, _⟩
  · rfl
  · cases h

theorem Continues.isStale {w w' : World} (h : Continues w w') :
    w'.session.isStale w'.database = w.session.isStale w.database := by
  cases hw : w.savepoints with
  | none =>
    rw [isStale_of_savepoints_eq_none hw, isStale_of_savepoints_eq_none (h.savepoints.trans hw)]
  | some stack =>
    have hwithin := h.within (Option.isSome_of_eq_some hw)
    rw [isStale_eq, isStale_eq, hwithin.sight_version, hwithin.version]

/-- A world in which statements can be run and rows be written. -/
structure Ready (w : World) : Prop where
  obstacle : w.obstacle = none
  refusal : w.refusal = none

theorem Continues.refusal {w w' : World} (h : Continues w w') : w'.refusal = w.refusal := by
  have hreadonly : w'.session.readonly = w.session.readonly :=
    congrArg (·.session.readonly) h.apart
  have hlocked : w'.session.isLockedOut w'.database = w.session.isLockedOut w.database := by
    rw [← isLockedOut_apart w', h.apart, ← isLockedOut_apart w]
    rfl
  rw [World.refusal, World.refusal, hreadonly, hlocked, h.isStale]

theorem Continues.ready {w w' : World} (h : Continues w w') : w'.Ready ↔ w.Ready := by
  constructor
  · intro hready
    exact ⟨h.obstacle.symm.trans hready.obstacle, h.refusal.symm.trans hready.refusal⟩
  · intro hready
    exact ⟨h.obstacle.trans hready.obstacle, h.refusal.trans hready.refusal⟩

end World
end FilmReport
