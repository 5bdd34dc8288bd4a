import FilmReport.Binary64.Basic

/-!
Arithmetic of binary64 numbers: each result is the exact one rounded once. A sum is compensated:
beside the running total it carries the part that each addition lost, and adds it once at the end. A
large integer is added in two parts that are exact numbers.
-/

set_option autoImplicit false
set_option relaxedAutoImplicit false

namespace FilmReport.Binary64

def neg : Binary64 → Binary64
  | finite q => finite (-q)
  | infinite negative => infinite (!negative)
  | nan => nan

def add : Binary64 → Binary64 → Binary64
  | finite a, finite b => round (a + b)
  | finite _, infinite s => infinite s
  | infinite s, finite _ => infinite s
  | infinite s, infinite t => if s = t then infinite s else nan
  | _, _ => nan

def sub (a b : Binary64) : Binary64 :=
  add a (neg b)

/-- Whether a number is below zero. -/
def isNegative : Binary64 → Bool
  | finite q => q < 0
  | infinite negative => negative
  | nan => false

def mul : Binary64 → Binary64 → Binary64
  | finite a, finite b => round (a * b)
  | finite a, infinite s => if a = 0 then nan else infinite (decide (a < 0) != s)
  | infinite s, finite b => if b = 0 then nan else infinite (s != decide (b < 0))
  | infinite s, infinite t => infinite (s != t)
  | _, _ => nan

def div : Binary64 → Binary64 → Binary64
  | finite a, finite b =>
    if b = 0 then (if a = 0 then nan else infinite (decide (a < 0))) else round (a / b)
  | finite _, infinite _ => finite 0
  | infinite s, finite b => infinite (s != decide (b < 0))
  | _, _ => nan

def abs : Binary64 → Binary64
  | finite q => finite (if q < 0 then -q else q)
  | infinite _ => infinite false
  | nan => nan

/-- A running total and the sum of the rounding errors made on the way. -/
structure RunningSum where
  total : Binary64
  lost : Binary64
deriving DecidableEq, Repr

namespace RunningSum

/-- Adds a number; what the rounded total misses goes to `lost`. -/
def push (s : RunningSum) (x : Binary64) : RunningSum :=
  let t := add s.total x
  let error :=
    if lt (abs x) (abs s.total) then add (sub s.total t) x else add (sub x t) s.total
  ⟨t, add s.lost error⟩

/-- From this size on, integers are added in two parts. -/
def splitSize : Nat := 4503599627370496

/-- A large integer as a multiple of `2 ^ 14` and what is left. -/
def parts (n : Int) : Int × Int :=
  let small := n.tmod 16384
  (n - small, small)

theorem parts_fst_add_parts_snd (n : Int) : (parts n).1 + (parts n).2 = n := by
  simp only [parts]
  omega

/-- The sum that starts from an integer. -/
def ofInt (n : Int) : RunningSum :=
  if splitSize ≤ n.natAbs then ⟨Binary64.ofInt (parts n).1, Binary64.ofInt (parts n).2⟩
  else ⟨Binary64.ofInt n, finite 0⟩

/-- Adds an integer. -/
def pushInt (s : RunningSum) (n : Int) : RunningSum :=
  if splitSize ≤ n.natAbs then
    (s.push (Binary64.ofInt (parts n).1)).push (Binary64.ofInt (parts n).2)
  else s.push (Binary64.ofInt n)

/-- The sum with the lost part restored, when that part is a number. -/
def value (s : RunningSum) : Binary64 :=
  if s.lost.isFinite then add s.total s.lost else s.total

end RunningSum
end FilmReport.Binary64
