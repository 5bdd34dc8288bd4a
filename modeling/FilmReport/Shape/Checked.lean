import FilmReport.Shape.Issue

/-!
Checked values. A check collects every issue instead of stopping at the first, and still yields a
value unless an issue left none; only then can a check of the whole value follow.
-/

set_option autoImplicit false
set_option relaxedAutoImplicit false

namespace FilmReport.Shape

/-- The issues of a check and the value read, which is missing when an issue stopped the check. -/
structure Checked (α : Type) where
  issues : List Issue
  value : Option α

namespace Checked

variable {α β γ : Type}

/-- A value without issues. -/
def valid (a : α) : Checked α := ⟨[], some a⟩

/-- One problem that leaves no value. -/
def stop (p : Problem) : Checked α := ⟨[⟨[], p⟩], none⟩

/-- A value with problems of its own. -/
def flawed (problems : List Problem) (a : α) : Checked α :=
  ⟨problems.map fun p => ⟨[], p⟩, some a⟩

def map (f : α → β) (c : Checked α) : Checked β :=
  ⟨c.issues, c.value.map f⟩

/-- The check seen from one step further out. -/
def within (step : Step) (c : Checked α) : Checked α :=
  ⟨c.issues.map (Issue.within step), c.value⟩

/-- Both checks: the issues of the first, then those of the second. -/
def and (f : Checked (α → β)) (c : Unit → Checked α) : Checked β :=
  let d := c ()
  ⟨f.issues ++ d.issues, f.value.bind fun g => d.value.map g⟩

instance : Functor Checked where
  map f c := c.map f

instance : Seq Checked where
  seq := and

instance : Pure Checked where
  pure := valid

/-- A check of the whole value, which runs if there is one. -/
def refine (more : α → List Issue) (c : Checked α) : Checked α :=
  match c.value with
  | some a => ⟨c.issues ++ more a, c.value⟩
  | none => c

/-- The value, if the check found no issue at all. -/
def toExcept (c : Checked α) : Except (List Issue) α :=
  match c.issues, c.value with
  | [], some a => .ok a
  | issues, _ => .error issues

/-- Checks every item at its index. -/
def items (check : Json → Checked α) : Nat → List Json → Checked (List α)
  | _, [] => valid []
  | n, item :: rest =>
    and (((check item).within (.index n)).map List.cons) fun _ => items check (n + 1) rest

end Checked
end FilmReport.Shape
