import FilmReport.Proofs.Session.Script

/-!
What other sessions can see of a script on its way. Each deed takes the database one step
(`Script.Along`); a transaction that is not within another one leaves what is committed as it is up
to its end, where all of its work is committed at once or nothing of it (`Script.along_transact`).
-/

set_option autoImplicit false
set_option relaxedAutoImplicit false

namespace FilmReport

open Act World

namespace World

/-- What no deed of a session changes. -/
def frame (w : World) : World :=
  { w with
    session := { w.session with transaction := none, prepared := true }
    database := { w.database with store := .empty, version := 0, writer := none }
    journal := [] }

/-- The world with another journal. -/
def logged (journal : List Journal.Entry) (w : World) : World :=
  { w with journal := journal }

/-- The world with the transaction statements made ready. -/
def prepared (w : World) : World :=
  { w with session := { w.session with prepared := true } }

/-- The world after the data were taken back to the newest savepoint, which stays. -/
def rewound (w : World) : World :=
  w.mapTransaction fun t =>
    { t with view := t.view.map fun v =>
        { v with working := t.savepoints.head?.join.getD v.base } }

/-- What beginning, ending or dividing a transaction can make of a world. -/
inductive Turns (w : World) : World → Prop where
  | same : Turns w w
  | prepared : Turns w w.prepared
  | begun : w.savepoints = none → Turns w w.begun
  | committed : Turns w w.committed
  | withdrawn : Turns w (Act.withdrawn w)
  | saved : Turns w w.saved
  | released : Turns w w.released
  | rewound : Turns w w.rewound

/-- What a single deed can make of a world. -/
inductive Becomes (w : World) : World → Prop where
  | turned {w' : World} : Turns w w' → Becomes w w'
  | looked : Becomes w w.looked
  | kept (s : Store) (wrote : Bool) : Becomes w (w.claimed.kept s wrote)
  /-- There was no room, and the transaction was given up. -/
  | lost : Becomes w (Act.withdrawn w.claimed)
  | logged (journal : List Journal.Entry) : Becomes w (w.logged journal)

@[simp]
theorem obstacle_logged (w : World) (journal : List Journal.Entry) :
    (w.logged journal).obstacle = w.obstacle := rfl

@[simp]
theorem data_logged (w : World) (journal : List Journal.Entry) :
    (w.logged journal).data = w.data := rfl

@[simp]
theorem refusal_logged (w : World) (journal : List Journal.Entry) :
    (w.logged journal).refusal = w.refusal := rfl

theorem claimed_logged (w : World) (journal : List Journal.Entry) :
    (w.logged journal).claimed = w.claimed.logged journal := by
  rcases w with ⟨⟨_, _, _, _, _, _, _, _, _, _ | _⟩, _⟩ <;> rfl

theorem kept_logged (w : World) (s : Store) (wrote : Bool) (journal : List Journal.Entry) :
    (w.logged journal).kept s wrote = (w.kept s wrote).logged journal := by
  rcases w with ⟨⟨_, _, _, _, _, _, _, _, _, _ | _⟩, _⟩ <;> cases wrote <;> rfl

theorem frame_claimed (w : World) : w.claimed.frame = w.frame := by
  rw [claimed]
  split <;> rfl

theorem frame_withdrawn (w : World) : (withdrawn w).frame = w.frame := by
  rw [frame, withdrawn]
  dsimp only
  split <;> rfl

theorem writer_claimed {w : World} {n : Nat} (hn : n ≠ w.session.number)
    (h : w.claimed.database.writer = some n) : w.database.writer = some n := by
  rw [claimed] at h
  split at h
  · exact absurd (Option.some.inj h).symm hn
  · exact h

theorem writer_withdrawn {w : World} {n : Nat} (h : (withdrawn w).database.writer = some n) :
    w.database.writer = some n := by
  rw [withdrawn] at h
  dsimp only at h
  split at h
  · cases h
  · exact h

variable {w w' : World} {n : Nat}

theorem Turns.frame (h : Turns w w') : w'.frame = w.frame := by
  cases h with
  | committed =>
    rw [World.frame, World.committed, published]
    dsimp only
    split
    · split
      · split <;> rfl
      · rfl
    · rfl
  | withdrawn => exact frame_withdrawn w
  | _ => rfl

/-- A deed changes nothing but the data, the transaction, the right to write and the journal. -/
theorem Becomes.frame (h : Becomes w w') : w'.frame = w.frame := by
  cases h with
  | turned h => exact h.frame
  | kept s wrote =>
    rw [World.kept]
    split
    · exact frame_claimed w
    · split <;> exact frame_claimed w
  | lost => exact (frame_withdrawn _).trans (frame_claimed w)
  | _ => rfl

theorem Turns.writer (h : Turns w w') (hw : w'.database.writer = some n) :
    w.database.writer = some n := by
  cases h with
  | committed =>
    rw [World.committed, published] at hw
    dsimp only at hw
    split at hw
    · split at hw
      · split at hw <;> cases hw
      · exact hw
    · exact hw
  | withdrawn => exact writer_withdrawn hw
  | _ => exact hw

/-- A deed gives the right to write to no other session. -/
theorem Becomes.writer (h : Becomes w w') (hn : n ≠ w.session.number)
    (hw : w'.database.writer = some n) : w.database.writer = some n := by
  cases h with
  | turned h => exact h.writer hw
  | kept s wrote =>
    rw [World.kept] at hw
    split at hw
    · exact writer_claimed hn hw
    · split at hw <;> exact writer_claimed hn hw
  | lost => exact writer_claimed hn (writer_withdrawn hw)
  | _ => exact hw

end World

theorem Bracket.turns_on (b : Bracket) (w : World) : Turns w (b.act.on w).2 := by
  cases b with
  | prepare =>
    cases hopen : w.session.isOpen with
    | false =>
      rw [act, on_prepareTransactions_of_closed hopen]
      exact .same
    | true =>
      rw [act, on_prepareTransactions hopen]
      exact .prepared
  | begin =>
    rcases w with ⟨⟨_, _, _, _, _, _, _, _ | _, _, _ | _⟩, _⟩
    all_goals first | exact .same | exact .begun rfl
  | commit =>
    rcases w with ⟨⟨_, _, _, _, _, _, _, _ | _, _, _ | ⟨_ | _, _⟩⟩, _⟩
    all_goals first | exact .same | exact .committed
  | rollback =>
    rcases w with ⟨⟨_, _, _, _, _, _, _, _ | _, _, _ | _⟩, _⟩
    all_goals first | exact .same | exact .withdrawn
  | save =>
    rcases w with ⟨⟨_, _, _, _, _, _, _, _ | _, _, _ | _⟩, _⟩
    all_goals first | exact .same | exact .saved
  | release =>
    rcases w with ⟨⟨_, _, _, _, _, _, _, _ | _, _, _ | ⟨_, _ | _⟩⟩, _⟩
    all_goals first | exact .same | exact .released
  | restore =>
    rcases w with ⟨⟨_, _, _, _, _, _, _, _ | _, _, _ | ⟨_, _ | ⟨_ | _, _⟩⟩⟩, _⟩
    all_goals first | exact .same | exact .rewound

theorem Bracket.on_logged (b : Bracket) (w : World) (journal : List Journal.Entry) :
    b.act.on (w.logged journal) = ((b.act.on w).1, (b.act.on w).2.logged journal) := by
  cases b with
  | prepare => rcases w with ⟨⟨_, _, _, _, _, _, _, _ | _, _ | _, _⟩, _⟩ <;> rfl
  | begin => rcases w with ⟨⟨_, _, _, _, _, _, _, _ | _, _, _ | _⟩, _⟩ <;> rfl
  | commit => rcases w with ⟨⟨_, _, _, _, _, _, _, _ | _, _, _ | ⟨_ | _, _⟩⟩, _⟩ <;> rfl
  | rollback => rcases w with ⟨⟨_, _, _, _, _, _, _, _ | _, _, _ | _⟩, _⟩ <;> rfl
  | save => rcases w with ⟨⟨_, _, _, _, _, _, _, _ | _, _, _ | _⟩, _⟩ <;> rfl
  | release => rcases w with ⟨⟨_, _, _, _, _, _, _, _ | _, _, _ | ⟨_, _ | _⟩⟩, _⟩ <;> rfl
  | restore => rcases w with ⟨⟨_, _, _, _, _, _, _, _ | _, _, _ | ⟨_, _ | ⟨_ | _, _⟩⟩⟩, _⟩ <;> rfl

namespace Deed

variable {α : Type}

/-- What there is of deeds: each makes of a world what `World.Becomes` lists. -/
theorem becomes_on (deed : Deed α) (w : World) : Becomes w (deed.act.on w).2 := by
  cases deed with
  | bracket b => exact .turned (b.turns_on w)
  | isWithin => exact .turned .same
  | peek f =>
    rw [act, on_peek]
    cases w.obstacle with
    | some e => exact .turned .same
    | none => cases f w.data <;> exact .turned .same
  | look f =>
    rw [act, on_look]
    cases w.obstacle with
    | some e => exact .turned .same
    | none =>
      cases f w.data with
      | error e => exact .turned .same
      | ok a => exact .looked
  | change f =>
    rw [act, on_change]
    cases w.obstacle with
    | some e => exact .turned .same
    | none =>
      rcases (f w.data).result with e | ⟨a, s⟩ <;> dsimp only
      · split
        · exact .turned .same
        · cases w.refusal with
          | some e' => exact .turned .same
          | none =>
            dsimp only
            split
            · exact .lost
            · rw [noted_claimed]
              exact .kept _ _
      · cases w.refusal with
        | some e => exact .turned .same
        | none => exact .kept s _
  | log logger level message context =>
    rw [act, Act.log, on_modify]
    cases logger.entry? w.stamp level message context with
    | none => exact .turned .same
    | some entry => exact .logged _

/-- No deed looks at the journal. -/
theorem on_logged (deed : Deed α) (w : World) (journal : List Journal.Entry) :
    ∃ journal', deed.act.on (w.logged journal) =
      ((deed.act.on w).1, (deed.act.on w).2.logged journal') := by
  cases deed with
  | bracket b => exact ⟨journal, b.on_logged w journal⟩
  | isWithin => exact ⟨journal, rfl⟩
  | peek f =>
    rw [act, on_peek, on_peek, obstacle_logged, data_logged]
    cases w.obstacle with
    | some e => exact ⟨journal, rfl⟩
    | none => cases f w.data <;> exact ⟨journal, rfl⟩
  | look f =>
    rw [act, on_look, on_look, obstacle_logged, data_logged]
    cases w.obstacle with
    | some e => exact ⟨journal, rfl⟩
    | none => cases f w.data <;> exact ⟨journal, rfl⟩
  | change f =>
    rw [act, on_change, on_change, obstacle_logged, data_logged, refusal_logged, claimed_logged]
    cases w.obstacle with
    | some e => exact ⟨journal, rfl⟩
    | none =>
      rcases (f w.data).result with e | ⟨a, s⟩ <;> dsimp only
      · split
        · exact ⟨journal, rfl⟩
        · cases w.refusal with
          | some e' => exact ⟨journal, rfl⟩
          | none => exact ⟨journal, by dsimp only; split <;> rfl⟩
      · cases w.refusal with
        | some e => exact ⟨journal, rfl⟩
        | none => exact ⟨journal, congrArg (Prod.mk _) (kept_logged w.claimed s _ journal)⟩
  | log logger level message context =>
    rw [act, Act.log, on_modify, on_modify, show (w.logged journal).stamp = w.stamp from rfl]
    cases logger.entry? w.stamp level message context with
    | none => exact ⟨journal, rfl⟩
    | some entry => exact ⟨journal ++ [entry], rfl⟩

end Deed

namespace Script

variable {α β : Type}

/-- Every deed of a script begun in a world takes the database a step of `R`, and in the end `Q`
holds of the result and the world. -/
def Along (R : Database → Database → Prop) (Q : Except Failure α → World → Prop) :
    Script α → World → Prop
  | ends r, w => Q r w
  | next deed rest, w => R w.database (deed.act.on w).2.database ∧
    Along R Q (rest (deed.act.on w).1) (deed.act.on w).2

/-- Every deed of a script is orderly. -/
def Orderly : Script α → Prop
  | ends _ => True
  | next deed rest => Act.Orderly deed.act ∧ ∀ r, (rest r).Orderly

/-- Nothing is committed. -/
def Stays (d d' : Database) : Prop :=
  d'.store = d.store ∧ d'.version = d.version

/-- Nothing is committed, or a new version that `made` allows. -/
def Commits (made : Store → Store → Prop) (d d' : Database) : Prop :=
  Stays d d' ∨ d'.version = d.version + 1 ∧ made d.store d'.store

section

variable {R R' : Database → Database → Prop} {Q Q' : Except Failure α → World → Prop}

theorem Along.mono {script : Script α} {w : World} (h : script.Along R Q w)
    (hR : ∀ d d', R d d' → R' d d') (hQ : ∀ r v, Q r v → Q' r v) : script.Along R' Q' w := by
  induction script generalizing w with
  | ends r => exact hQ r w h
  | next deed rest ih => exact ⟨hR _ _ h.1, ih _ h.2⟩

/-- In the end there is the result of the script, and the world that it leaves. -/
theorem Along.of_on {script : Script α} {w : World} (h : script.Along R Q w) :
    script.Along R (fun r v => Q r v ∧ script.act.on w = (r, v)) w := by
  induction script generalizing w with
  | ends r => exact ⟨h, rfl⟩
  | next deed rest ih =>
    refine ⟨h.1, ?_⟩
    rw [on_next]
    exact ih _ h.2

theorem along_ending {g : Except Failure α → Except Failure β}
    {Q : Except Failure β → World → Prop} {script : Script α} {w : World} :
    (script.ending g).Along R Q w ↔ script.Along R (fun r v => Q (g r) v) w := by
  induction script generalizing w with
  | ends r => exact Iff.rfl
  | next deed rest ih => exact and_congr_right fun _ => ih _

theorem along_bind {f : α → Script β} {Q : Except Failure β → World → Prop} {script : Script α}
    {w : World} :
    (script >>= f).Along R Q w ↔ script.Along R
      (fun r v => match r with
        | .ok a => (f a).Along R Q v
        | .error e => Q (.error e) v) w := by
  change (script.bind f).Along R Q w ↔ _
  induction script generalizing w with
  | ends r => cases r <;> exact Iff.rfl
  | next deed rest ih => exact and_congr_right fun _ => ih _

/-- A journal makes no difference. -/
theorem Along.logged {script : Script α} {w : World} (h : script.Along R Q w)
    (hQ : ∀ r v journal, Q r v → Q r (v.logged journal)) (journal : List Journal.Entry) :
    script.Along R Q (w.logged journal) := by
  induction script generalizing w journal with
  | ends r => exact hQ r w journal h
  | next deed rest ih =>
    obtain ⟨journal', hon⟩ := deed.on_logged w journal
    rw [Along, hon]
    exact ⟨h.1, ih _ h.2 journal'⟩

end

/-- Orderly work within a transaction commits nothing, and goes on in its world. -/
theorem Orderly.along {script : Script α} (h : script.Orderly) {w : World}
    (hin : w.savepoints.isSome) : script.Along Stays (fun _ v => Continues w v) w := by
  induction script generalizing w with
  | ends r => exact Continues.refl w
  | next deed rest ih =>
    have hcontinues : Continues w (deed.act.on w).2 := h.1.continues trivial
    have hwithin := hcontinues.within hin
    have hin' : (deed.act.on w).2.savepoints.isSome := by
      rw [hcontinues.savepoints]
      exact hin
    refine ⟨⟨hwithin.store, hwithin.version⟩, ?_⟩
    exact (ih _ (h.2 _) hin').mono (fun _ _ h => h) fun r v hv => hcontinues.trans hv

theorem Stays.refl (d : Database) : Stays d d :=
  ⟨rfl, rfl⟩

section

variable {made : Store → Store → Prop} {w v : World}

/-- A commit keeps all that the transaction left, or nothing new. -/
theorem commits_committed (hmade : made v.database.store v.committed.data) :
    Commits made v.database v.committed.database := by
  rcases v with ⟨⟨number, _, _, _, _, _, _, _, _, _ | ⟨_ | ⟨_, _, _, wrote⟩, _⟩⟩, d⟩
  · exact .inl (.refl d)
  · exact .inl (.refl d)
  · by_cases hwrites : d.writer = some number
    · cases wrote with
      | true =>
        refine .inr ?_
        simp only [World.committed, published, Session.writes, hwrites, World.data, Session.data,
          Database.committed, decide_true, if_true, Option.bind_some, Option.bind_none]
          at hmade ⊢
        exact ⟨trivial, hmade⟩
      | false =>
        refine .inl ?_
        simp [World.committed, published, Session.writes, hwrites, Stays]
    · refine .inl ?_
      simp [World.committed, published, Session.writes, hwrites, Stays]

theorem stays_withdrawn (v : World) : Stays v.database (withdrawn v).database := by
  rw [withdrawn]
  dsimp only
  split <;> exact .refl v.database

variable {Q : Except Failure Nesting → World → Prop}

theorem along_enter (hopen : w.session.isOpen = true) (houtside : w.savepoints = none)
    (h : Q (.ok .outermost) w.begun) : enter.Along (Commits made) Q w := by
  rcases w with ⟨⟨_, _, _, _, _, _, _, _, _, _ | _⟩, d⟩
  · obtain rfl : _ = true := hopen
    exact ⟨.inl (.refl d), .inl (.refl d), h⟩
  · cases houtside

variable {Q : Except Failure α → World → Prop}

theorem along_leave_ok (hopen : v.session.isOpen = true) (hin : v.savepoints.isSome = true)
    (hmade : made v.database.store v.committed.data) {a : α} (h : Q (.ok a) v.committed) :
    (leave .outermost (.ok a)).Along (Commits made) Q v := by
  have hcommits := commits_committed hmade
  rcases v with ⟨⟨_, _, _, _, _, _, _, _, _, _ | ⟨_ | _, _⟩⟩, d⟩
  · cases hin
  all_goals
    obtain rfl : _ = true := hopen
    exact ⟨hcommits, h⟩

theorem along_leave_error (hopen : v.session.isOpen = true) (hin : v.savepoints.isSome = true)
    {e : Failure} (h : Q (.error e) (withdrawn v)) :
    (leave .outermost (.error e)).Along (Commits made) Q v := by
  have hstays := stays_withdrawn v
  rcases v with ⟨⟨_, _, _, _, _, _, _, _, _, _ | _⟩, d⟩
  · cases hin
  · obtain rfl : _ = true := hopen
    exact ⟨.inl (.refl d), .inl hstays, h⟩

/--
A transaction that is not within another one commits once at most, and then what it has done when it
answers.
-/
theorem along_transact {work : Script α} (hwork : work.Orderly) (hopen : w.session.isOpen = true)
    (houtside : w.savepoints = none)
    (hmade : ∀ a v, (Act.transact work.act).on w = (.ok a, v) → made w.data v.data) :
    (transact work).Along (Commits made)
      (fun r v => (Act.transact work.act).on w = (r, v)) w := by
  refine along_bind.2 (along_enter hopen houtside (along_bind.2 (along_ending.2 ?_)))
  refine (hwork.along rfl).of_on.mono (fun _ _ h => .inl h) ?_
  rintro r v ⟨hcontinues, hrun⟩
  have hopen' : v.session.isOpen = true := hcontinues.isOpen.trans hopen
  have hin : v.savepoints.isSome = true := by
    rw [hcontinues.savepoints]
    rfl
  have hon : (Act.transact work.act).on w = (Act.leave .outermost r).on v := by
    rw [Act.transact, on_bind_of_ok (on_enter_outermost hopen houtside), on_bind, on_outcome, hrun]
  rw [on_leave_outermost hopen' hin] at hon
  cases r with
  | ok a =>
    have hstore : v.database.store = w.data :=
      (hcontinues.within rfl).store.trans (data_of_savepoints_eq_none houtside).symm
    refine along_leave_ok hopen' hin ?_ hon
    rw [hstore]
    exact hmade a _ hon
  | error e => exact along_leave_error hopen' hin hon

theorem along_inTransaction {operation : String} {work : Script α} (hwork : work.Orderly)
    (hopen : w.session.isOpen = true) (houtside : w.savepoints = none)
    (hmade : ∀ a v, (Act.inTransaction operation work.act).on w = (.ok a, v) →
      made w.data v.data) :
    (inTransaction operation work).Along (Commits made)
      (fun r v => (Act.inTransaction operation work.act).on w = (r, v)) w := by
  have hprepare : prepareTransactions.on w = (.ok (), w.prepared) := on_prepareTransactions hopen
  have hon : ∀ r v, (Act.transact work.act).on w.prepared = (r, v) →
      (Act.inTransaction operation work.act).on w =
        (reported (transactionFault operation) r, v) := by
    intro r v h
    rw [Act.inTransaction, on_bind_of_ok hprepare, on_reporting, h]
  refine along_bind.2 ?_
  rw [does, Along, Deed.act, Bracket.act, hprepare]
  refine ⟨.inl (.refl _), along_ending.2 ?_⟩
  have htransact := along_transact (w := w.prepared) hwork hopen houtside fun a v h =>
    hmade a v (hon _ _ h)
  exact htransact.mono (fun _ _ h => h) hon

end

end Script
end FilmReport
