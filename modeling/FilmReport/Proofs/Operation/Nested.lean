import FilmReport.Proofs.Normalize.Outcome
import FilmReport.Proofs.Operation.Call

/-!
Transactions within transactions. A tree of nested transactions does to the data what those of its
calls do, one after the other, around which no transaction failed; a transaction that fails takes
back its own part of the tree and nothing else.
-/

set_option autoImplicit false
set_option relaxedAutoImplicit false

namespace FilmReport

open World Act

variable {α : Type}

/-- How the work of a transaction ends. -/
inductive Ending (α : Type) where
  | returns (value : α)
  | reports (fault : Fault)
  | raises (cause : Cause)

namespace Ending

def act : Ending α → Act α
  | returns value => pure value
  | reports fault => throw (.fault fault)
  | raises cause => throw (.raised cause)

/-- What a transaction with a name answers whose work ends so. -/
def answer (name : String) : Ending α → Except Failure α
  | returns value => .ok value
  | reports fault => .error (.fault fault)
  | raises cause => .error (.fault (transactionFault name cause.message))

/-- Whether what the transaction did is kept. -/
def keeps : Ending α → Bool
  | returns _ => true
  | _ => false

end Ending

/-- The work of a transaction: calls and transactions within it, one after the other. Whatever comes
of them, the work goes on. -/
inductive Work where
  | done
  | call (c : Call) (rest : Work)
  | nested (name : String) (inner : Work) (ending : Ending Unit) (rest : Work)

namespace Work

def act : Work → Act Unit
  | done => pure ()
  | call c rest => do
    c.act
    rest.act
  | nested name inner ending rest => do
    let _ ← Act.outcome <| Act.inTransaction name do
      inner.act
      ending.act
    rest.act

def transaction (name : String) (work : Work) (ending : Ending α) : Act α :=
  Act.inTransaction name do
    work.act
    ending.act

/-- The calls around which no transaction fails, in their order. -/
def kept : Work → List Call
  | done => []
  | call c rest => c :: rest.kept
  | nested _ inner ending rest => (if ending.keeps then inner.kept else []) ++ rest.kept

/-- The world in which the work of a transaction begins. -/
def inside (w : World) : World :=
  (prepareTransactions.on w).2.entered

theorem data_inside (w : World) : (inside w).data = w.data :=
  (data_entered _).trans (data_prepareTransactions w)

/-- Whenever a run is asked for, there is a number for it. -/
def Fits : Work → World → Prop
  | done, _ => True
  | call c rest, w => c.request.Fits w.data ∧ rest.Fits (c.act.on w).2
  | nested name inner ending rest, w =>
    inner.Fits (inside w) ∧ rest.Fits ((transaction name inner ending).on w).2

/-- Work that goes on where it began and does what its kept calls do. -/
def Refines (work : Work) : Prop :=
  ∀ {w v : World}, Alike w v → work.Fits w →
    ∃ w', work.act.on w = (.ok ⟨⟩, w') ∧ Continues w w' ∧ w'.clock = w.clock ∧
      Alike w' (Call.run work.kept v)

theorem on_ending (ending : Ending α) (w : World) :
    ending.act.on w = (match ending with
      | .returns value => .ok value
      | .reports fault => .error (.fault fault)
      | .raises cause => .error (.raised cause), w) := by
  cases ending <;> rfl

theorem alike_inside {w v : World} (h : Alike w v) : Alike (inside w) v := by
  rw [inside, on_prepareTransactions h.isOpen]
  exact ⟨(apart_entered _).trans h.apart, (isOpen_entered _).trans h.isOpen,
    (isStale_entered _).trans h.left, h.right⟩

/-- What goes on with the same data and clock is alike. -/
theorem alike_of_continues {w w' v : World} (h : Alike w v) (hcontinues : Continues w w')
    (hdata : w'.data = w.data) (hclock : w'.clock = w.clock) : Alike w' v :=
  h.continues hcontinues (Continues.refl v) (hdata.trans h.data) (hclock.trans h.clock)

/-- A transaction around work keeps it if it ends with a value and takes it back otherwise. -/
theorem on_transaction {work : Work} (hwork : work.Refines) (name : String) (ending : Ending α)
    {w v : World} (h : Alike w v) (hfits : work.Fits (inside w)) :
    ∃ w', (transaction name work ending).on w = (ending.answer name, w') ∧ Continues w w' ∧
      w'.clock = w.clock ∧ Alike w' (if ending.keeps then Call.run work.kept v else v) := by
  obtain ⟨u, hon, hwithin, hclock, halike⟩ := hwork (alike_inside h) hfits
  let w₁ := (prepareTransactions.on w).2
  have hprepared : prepareTransactions.on w = (.ok ⟨⟩, w₁) :=
    Prod.ext (by rw [on_prepareTransactions h.isOpen]) rfl
  have hprepares : Orderly prepareTransactions := OrderlyFrom.prepareTransactions
  have hbefore : Continues w w₁ := hprepares.continues trivial
  have hbody := (on_bind_of_ok (f := fun _ => ending.act) hon).trans (on_ending ending u)
  have hgoes : Continues w₁.entered ((work.act >>= fun _ => ending.act).on w₁.entered).2 := by
    change Continues (inside w) ((work.act >>= fun _ => ending.act).on (inside w)).2
    rw [hbody]
    exact hwithin
  obtain ⟨w', htransact, hafter, hdata, hclock'⟩ :=
    on_transact (hbefore.isOpen.trans h.isOpen) hgoes
  rw [show w₁.entered = inside w from rfl, hbody] at htransact hdata hclock'
  have hcontinues := hbefore.trans hafter
  have hclock'' : w'.clock = w.clock :=
    hclock'.trans (hclock.trans ((alike_inside h).clock.trans h.clock.symm))
  have hanswer : (transaction name work ending).on w = (ending.answer name, w') := by
    rw [transaction, inTransaction, on_bind_of_ok hprepared, on_reporting, htransact]
    cases ending <;> rfl
  refine ⟨w', hanswer, hcontinues, hclock'', ?_⟩
  have hundone : w'.data = w.data → Alike w' v := fun hdata =>
    alike_of_continues h hcontinues hdata hclock''
  cases ending with
  | reports fault => exact hundone (hdata.trans (data_prepareTransactions w))
  | raises cause => exact hundone (hdata.trans (data_prepareTransactions w))
  | returns value =>
    have hapart : w'.apart = u.apart := by
      rw [hafter.apart, hwithin.apart, hdata, hclock', inside, apart_entered]
    exact ⟨hapart.trans halike.apart, hcontinues.isOpen.trans h.isOpen,
      hcontinues.isStale.trans h.left, halike.right⟩

/-- Whatever work does is done by its kept calls alone. -/
theorem refines (work : Work) : work.Refines := by
  induction work with
  | done =>
    intro w v h _
    exact ⟨w, rfl, Continues.refl w, rfl, h⟩
  | call c rest ih =>
    intro w v h hfits
    obtain ⟨hcall, hrest⟩ := hfits
    have hcontinues := Call.continues hcall
    obtain ⟨w', hon, hlater, hclock, halike⟩ := ih (Call.alike hcall h) hrest
    exact ⟨w', hon, hcontinues.trans hlater, hclock, halike⟩
  | nested name inner ending rest ihinner ih =>
    intro w v h hfits
    obtain ⟨hinner, hrest⟩ := hfits
    obtain ⟨u, hon, hcontinues, hclock, halike⟩ := on_transaction ihinner name ending h hinner
    rw [hon] at hrest
    obtain ⟨w', hon', hlater, hclock', halike'⟩ := ih halike hrest
    refine ⟨w', ?_, hcontinues.trans hlater, hclock'.trans hclock, ?_⟩
    · have houtcome : (transaction name inner ending).outcome.on w =
          (.ok (ending.answer name), u) := by
        rw [on_outcome, hon]
      exact (on_bind_of_ok houtcome).trans hon'
    · rw [kept, Call.run_append]
      cases ending <;> exact halike'

/--
What a tree of nested transactions does, begun by a session that is open on the last commit, in a
transaction or in none: it answers as its work ends, and leaves the data that its kept calls leave
when they are made one after the other, or those that were there before if its work fails. The
transaction around it goes on as it was; if there is none, the data are committed.
-/
theorem on_transaction_of_isOpen (name : String) (work : Work) (ending : Ending α) {w : World}
    (hopen : w.session.isOpen = true) (hstale : w.session.isStale w.database = false)
    (hfits : work.Fits (inside w)) :
    ∃ w', (transaction name work ending).on w = (ending.answer name, w') ∧
      w'.data = (if ending.keeps then Call.run work.kept w else w).data ∧
      w'.savepoints = w.savepoints ∧ (w.savepoints = none → w'.database.store = w'.data) := by
  obtain ⟨w', hon, hcontinues, -, halike⟩ :=
    on_transaction work.refines name ending ⟨rfl, hopen, hstale, hstale⟩ hfits
  refine ⟨w', hon, halike.data, hcontinues.savepoints, fun hnone => ?_⟩
  exact (data_of_savepoints_eq_none (hcontinues.savepoints.trans hnone)).symm

/-- A movie is deleted, but only within a transaction that fails; in one that does not, there is a
run. -/
def deletionUndone : Work :=
  .nested "deletion" (.call ⟨.delete .movie "id" (.text "tt1"), []⟩ .done)
    (.raises (.other "boom"))
    (.nested "run" (.call ⟨.normalize .quiet [], [some ⟨0⟩]⟩ .done) (.returns ()) .done)

theorem data_of_deletionUndone :
    (World.inMemory Normalize.staleFilm []).session.isOpen = true ∧
      (World.inMemory Normalize.staleFilm []).session.isStale
        (World.inMemory Normalize.staleFilm []).database = false ∧
      deletionUndone.Fits (inside (World.inMemory Normalize.staleFilm [])) ∧
      ∃ w', (transaction "all" deletionUndone (.returns 1)).on
          (World.inMemory Normalize.staleFilm []) = (.ok 1, w') ∧
        w'.data = (Call.run [⟨.normalize .quiet [], [some ⟨0⟩]⟩]
          (World.inMemory Normalize.staleFilm [])).data := by
  have hnumber : ∀ {w : World}, Cell.isStorable (Normalize.runNumber w.data) = true →
      (Request.normalize .quiet []).Fits w.data := fun h _ => h
  have hfits : deletionUndone.Fits (inside (World.inMemory Normalize.staleFilm [])) := by
    refine ⟨⟨trivial, trivial⟩, ⟨hnumber ?_, trivial⟩, trivial⟩
    decide +kernel
  obtain ⟨w', hon, hdata, -, -⟩ := on_transaction_of_isOpen "all" deletionUndone (.returns 1)
    (w := World.inMemory Normalize.staleFilm []) rfl rfl hfits
  exact ⟨rfl, rfl, hfits, w', hon, hdata⟩

/-- The film after a run that got the last of all numbers. -/
def lastNumber : Store :=
  { Normalize.staleFilm with
    normalizationRuns :=
      some [⟨1, Normalize.RunRecord.row ⟨.completed, "", "", .start, .standard, none⟩
        9223372036854775807⟩] }

def deletionThenRun : Work :=
  .call ⟨.delete .movie "id" (.text "tt1"), []⟩
    (.call ⟨.normalize .quiet [], [some ⟨0⟩]⟩ .done)

/-- A run for which there is no number ends the transaction around it: though its work ends with a
value, the transaction fails, and what was done before the run is lost. -/
theorem not_kept_of_lastNumber :
    ∃ f w', (transaction "all" deletionThenRun (.returns ())).on
        (World.inMemory lastNumber []) = (.error (.fault f), w') ∧
      f.code = .dbTransactionFailed ∧
      f.cause = some "cannot commit - no transaction is active" ∧
      w'.data ≠ (Call.run deletionThenRun.kept (World.inMemory lastNumber [])).data := by
  have hfaults : (transaction "all" deletionThenRun (.returns ())).faults
      (World.inMemory lastNumber []) (fun f w' => decide (f.code = .dbTransactionFailed ∧
        f.cause = some "cannot commit - no transaction is active" ∧
        w'.data ≠ (Call.run deletionThenRun.kept (World.inMemory lastNumber [])).data)) =
      true := by
    decide +kernel
  obtain ⟨f, w', hon, hlost⟩ := exists_on_of_faults hfaults
  exact ⟨f, w', hon, of_decide_eq_true hlost⟩

end Work
end FilmReport
