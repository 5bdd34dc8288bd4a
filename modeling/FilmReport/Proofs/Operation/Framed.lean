import FilmReport.Normalize.Run
import FilmReport.Proofs.Session.Framed
import FilmReport.Query.Execution

/-!
Operations that leave the clock and the files alone: the stages of a normalization and the queries.
-/

set_option autoImplicit false
set_option relaxedAutoImplicit false

namespace FilmReport

open Act

namespace Normalize

theorem framed_coerce (logger : Journal.Logger) : Framed (coerce logger) := by
  refine Framed.inTransaction (Framed.reporting ?_ _) _
  refine (Framed.look _).bind fun rows => (Framed.look _).bind fun _ => ?_
  have hwarn : ∀ (log : Fault → Act Unit) (c : Coercion), (∀ w, Framed (log w)) →
      Framed (do c.warnings.forM log; pure c) :=
    fun log c hlog => (Framed.forM hlog _).bind fun _ => Framed.pure c
  split
  · exact Framed.throw _
  · dsimp only
    split
    · exact hwarn _ _ fun w => Framed.log _ _ _ _
    · exact (Framed.change _).bind fun _ => hwarn _ _ fun w => Framed.log _ _ _ _

theorem framed_stage (kind : MembershipKind) (options : SplitOptions) :
    Framed (stage kind options) := by
  refine Framed.inTransaction (Framed.reporting ?_ _) _
  refine (Framed.look _).bind fun rows => (Framed.change _).bind fun _ => ?_
  split
  · exact Framed.throw _
  · dsimp only
    split
    · exact Framed.pure _
    · exact (Framed.change _).bind fun _ => Framed.pure _

theorem framed_publish (kind : MembershipKind) : Framed (publish kind) := by
  refine Framed.inTransaction (Framed.reporting ?_ _) _
  exact (Framed.change _).bind fun _ => (Framed.change _).bind fun n =>
    (Framed.change _).bind fun _ => Framed.pure n

theorem framed_rebuildWith (logger : Journal.Logger) (kind : MembershipKind)
    (options : SplitOptions) : Framed (rebuildWith logger kind options) :=
  (framed_stage kind options).bind fun _ => (framed_publish kind).bind fun _ =>
    (Framed.log _ _ _ _).bind fun _ => Framed.pure _

theorem framed_raising {α : Type} (r : Except Cause α) : Framed (raising r) := by
  cases r with
  | ok a => exact Framed.pure a
  | error cause => exact Framed.throw _

theorem framed_applyRules (counts : Fields) (rules : List (Except Cause Rule)) :
    Framed (applyRules counts rules) := by
  induction rules generalizing counts with
  | nil => exact Framed.pure counts
  | cons rule rest ih =>
    exact (framed_raising rule).bind fun r => ((Framed.change _).reporting _).bind fun n => ih _

theorem framed_standardizeBy (logger : Journal.Logger) (given : Option Json) :
    Framed (standardizeBy logger given) := by
  refine (Framed.inTransaction ?_ _).bind fun counts =>
    (Framed.log _ _ _ _).bind fun _ => Framed.pure counts
  exact (framed_raising _).bind fun rules => framed_applyRules [] rules

end Normalize

namespace Query

variable {γ : Type} {part : World → γ}

theorem leaves_run (hpart : World.IsStill part) (st : Statement) (d : Definition) (p : Params) :
    Leaves part (st.run d p) := by
  have hrest := Leaves.requireOpen.bind fun _ =>
    (Leaves.ofStore (bindParams d.parameters st.bound)).bind fun _ => Leaves.look hpart fun s => do
      st.prepare s
      pure (st.rows p s)
  rw [Statement.run]
  split
  · exact hrest
  · exact (Leaves.throw _).bind fun _ => hrest

namespace Runner

theorem leaves_ready (r : Runner) (d : Definition) : Leaves part (r.ready d) := by
  rw [ready]
  split
  · exact Leaves.pure _
  · exact (Leaves.peek _).bind fun _ => Leaves.pure _

theorem leaves_answer (hpart : World.IsStill part) (r : Runner) (d : Definition) (st : Statement)
    (p : Params) : Leaves part (r.answer d st p) :=
  (leaves_run hpart st d p).bind fun _ => (Leaves.ofExcept _).bind fun _ =>
    (Leaves.log hpart _ _ _ _).bind fun _ => Leaves.pure _

theorem leaves_execute (hpart : World.IsStill part) (r : Runner) (d : Definition) (p : Params) :
    Leaves part (r.execute d p) := by
  refine (leaves_ready r d).outcome.bind fun ready => ?_
  split
  · exact Leaves.pure _
  · refine (leaves_answer hpart _ _ _ _).outcome.bind fun answered => ?_
    split <;> exact Leaves.pure _

theorem leaves_executeAll (hpart : World.IsStill part) (p : Params)
    (definitions : List Definition) (r : Runner) :
    Leaves part (executeAll p r definitions) := by
  induction definitions generalizing r with
  | nil => exact Leaves.pure _
  | cons d rest ih =>
    refine (leaves_execute hpart r d p).bind fun (result, next) => ?_
    have hrest := (ih next).bind fun (x : List Outcome × Runner) =>
      Leaves.pure (⟨d, result⟩ :: x.1, x.2)
    cases result with
    | ok result => exact hrest
    | error fault => exact (Leaves.log hpart _ _ _ _).bind fun _ => hrest

/-- Running queries changes nothing but the view of the session's transaction and the journal. -/
theorem leaves_runWith (hpart : World.IsStill part) (r : Runner) (p : Params) :
    Leaves part (r.runWith p) :=
  (leaves_executeAll hpart p r.definitions r).bind fun _ =>
    (Leaves.log hpart _ _ _ _).bind fun _ => Leaves.pure _

theorem framed_runWith (r : Runner) (p : Params) : Framed (r.runWith p) :=
  leaves_runWith World.isStill_frame r p

end Runner
end Query
end FilmReport
