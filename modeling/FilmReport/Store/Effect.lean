import FilmReport.Store.Error
import FilmReport.Store.Table

/-!
What a statement does to the store. Beside its answer or its error a statement says whether it wrote
anything: a failure takes what was written back, but a transaction in which something was written
is a new version of the data even so.
-/

set_option autoImplicit false
set_option relaxedAutoImplicit false

namespace FilmReport

/-- What became of a statement. -/
structure Effect (α : Type) where
  /-- The answer and the store after it, or why the statement failed. -/
  result : Except StoreError (α × Store)
  wrote : Bool

namespace Effect

variable {α : Type}

/-- A statement that answers. -/
def done (answer : α) (after : Store) (wrote : Bool) : Effect α :=
  ⟨.ok (answer, after), wrote⟩

/-- A statement that fails. -/
def failed (error : StoreError) (wrote : Bool) : Effect α :=
  ⟨.error error, wrote⟩

/-- A statement that writes unless it fails. -/
def writing (result : Except StoreError (α × Store)) : Effect α :=
  ⟨result, result.isOk⟩

/-- A statement without an answer. -/
def storing (result : Except StoreError Store) (wrote : Bool) : Effect Unit :=
  ⟨result.map fun s => ((), s), wrote⟩

/-- A statement that writes if its answer, a number of rows, is not zero. -/
def counting (result : Except StoreError (Nat × Store)) : Effect Nat :=
  ⟨result, match result with
    | .ok (n, _) => n ≠ 0
    | .error _ => false⟩

end Effect
end FilmReport
