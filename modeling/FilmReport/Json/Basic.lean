import FilmReport.Binary64.Basic

/-!
JSON values. Objects keep the order in which their names first came; setting a name again keeps
its place.
-/

set_option autoImplicit false
set_option relaxedAutoImplicit false

namespace FilmReport

/-- A JSON value; numbers are binary64. -/
inductive Json where
  | null
  | bool (value : Bool)
  | number (value : Binary64)
  | string (value : String)
  | array (items : List Json)
  | object (fields : List (String × Json))
deriving Repr, Inhabited

/-- Named values in the order in which the names first came. -/
abbrev Fields := List (String × Json)

namespace Fields

/-- Gives a name a value: in its place if the name is there, at the end otherwise. -/
def put (name : String) (value : Json) : Fields → Fields
  | [] => [(name, value)]
  | (n, v) :: rest => if n = name then (n, value) :: rest else (n, v) :: put name value rest

def get? (name : String) (fields : Fields) : Option Json :=
  (fields.find? fun field => field.1 = name).map Prod.snd

@[simp]
theorem get?_nil (name : String) : get? name [] = none := rfl

theorem get?_cons (name n : String) (v : Json) (rest : Fields) :
    get? name ((n, v) :: rest) = if n = name then some v else get? name rest := by
  by_cases h : n = name <;> simp [get?, h]

/-- A name has the value that it was given last. -/
theorem get?_put_self (name : String) (value : Json) (fields : Fields) :
    get? name (put name value fields) = some value := by
  induction fields with
  | nil => simp [put, get?_cons]
  | cons field rest ih =>
    obtain ⟨n, v⟩ := field
    by_cases h : n = name
    · simp [put, get?_cons, h]
    · simp [put, get?_cons, h, ih]

/-- A value given to one name leaves the others as they are. -/
theorem get?_put_of_ne {name other : String} (value : Json) (fields : Fields)
    (h : other ≠ name) : get? other (put name value fields) = get? other fields := by
  induction fields with
  | nil => simp [put, get?_cons, h.symm]
  | cons field rest ih =>
    obtain ⟨n, v⟩ := field
    by_cases hn : n = name
    · subst hn
      simp [put, get?_cons, h.symm]
    · simp [put, get?_cons, hn, ih]

/-- A field that is there if its value is. -/
def ofOption (name : String) : Option Json → Fields
  | some value => [(name, value)]
  | none => []

/-- The first fields with those of the second put over them. -/
def merge (fields more : Fields) : Fields :=
  more.foldl (fun acc field => put field.1 field.2 acc) fields

end Fields

namespace Json

/-- The field of an object; none for a missing field and for every other value. -/
def get? (name : String) : Json → Option Json
  | object fields => Fields.get? name fields
  | _ => none

def ofNat (n : Nat) : Json :=
  number (.ofInt n)

def ofInt (n : Int) : Json :=
  number (.ofInt n)

def ofOption {α : Type} (f : α → Json) : Option α → Json
  | some a => f a
  | none => null

def strings (items : List String) : Json :=
  array (items.map string)

/-- The name of the kind of a value. -/
def kindName : Json → String
  | null => "null"
  | bool _ => "boolean"
  | number _ => "number"
  | string _ => "string"
  | array _ => "array"
  | object _ => "object"

end Json
end FilmReport
