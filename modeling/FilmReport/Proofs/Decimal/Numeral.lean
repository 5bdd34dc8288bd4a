import Mathlib.Data.List.DropRight
import Mathlib.Data.List.Induction
import Mathlib.Data.List.TakeWhile
import Mathlib.Tactic.Linarith
import Mathlib.Tactic.Ring
import FilmReport.Decimal.Basic

/-!
The number that a run of decimal digits writes. Zeros in front count for nothing, zeros at the end
for powers of ten, and a number is written by its own digits.
-/

set_option autoImplicit false
set_option relaxedAutoImplicit false

namespace FilmReport

theorem digitValue_le {c : Char} (h : isDigit c = true) : digitValue c ≤ 9 := by
  have hnine : c ≤ '9' := by
    rw [isDigit, Bool.and_eq_true, decide_eq_true_eq, decide_eq_true_eq] at h
    exact h.2
  have hle : c.toNat ≤ 57 := hnine
  rw [digitValue]
  exact Nat.sub_le_of_le_add hle

theorem digitValue_pos {c : Char} (h : isDigit c = true) (hzero : c ≠ '0') : 0 < digitValue c := by
  have hle : 48 ≤ c.toNat := by
    rw [isDigit, Bool.and_eq_true, decide_eq_true_eq, decide_eq_true_eq] at h
    exact h.1
  have hne : c.toNat ≠ 48 := fun hsame => hzero (Char.toNat_inj.1 hsame)
  change 0 < c.toNat - 48
  omega

theorem digitsValue_concat (cs : List Char) (c : Char) :
    digitsValue (cs ++ [c]) = 10 * digitsValue cs + digitValue c := by
  rw [digitsValue, List.foldl_append]
  rfl

theorem digitsValue_singleton (c : Char) : digitsValue [c] = digitValue c := by
  simp [digitsValue]

theorem digitsValue_lt {cs : List Char} (h : ∀ c ∈ cs, isDigit c = true) :
    digitsValue cs < 10 ^ cs.length := by
  induction cs using List.reverseRecOn with
  | nil => decide
  | append_singleton cs c ih =>
    rw [List.forall_mem_append, List.forall_mem_singleton] at h
    have hlast := digitValue_le h.2
    have hfirst := ih h.1
    rw [digitsValue_concat, List.length_append, List.length_singleton, pow_succ]
    omega

theorem digitsValue_append (cs ds : List Char) :
    digitsValue (cs ++ ds) = digitsValue cs * 10 ^ ds.length + digitsValue ds := by
  induction ds using List.reverseRecOn with
  | nil => simp [digitsValue]
  | append_singleton ds d ih =>
    rw [← List.append_assoc, digitsValue_concat, digitsValue_concat, ih, List.length_append,
      List.length_singleton, pow_succ]
    ring

theorem digitsValue_cons (c : Char) (cs : List Char) :
    digitsValue (c :: cs) = digitValue c * 10 ^ cs.length + digitsValue cs := by
  rw [← List.singleton_append, digitsValue_append, digitsValue_singleton]

/-- Zeros in front count for nothing. -/
theorem digitsValue_dropWhile_zero (cs : List Char) :
    digitsValue (cs.dropWhile (· == '0')) = digitsValue cs := by
  induction cs with
  | nil => rfl
  | cons c cs ih =>
    by_cases hc : c = '0'
    · subst hc
      exact ih
    · rw [List.dropWhile_cons_of_neg (by simpa using hc)]

/-- A number has so many digits behind its zeros in front as it takes to write it. -/
theorem length_dropWhile_zero_le_iff {cs : List Char} (h : ∀ c ∈ cs, isDigit c = true) (k : ℕ) :
    (cs.dropWhile (· == '0')).length ≤ k ↔ digitsValue cs < 10 ^ k := by
  have hdigits : ∀ c ∈ cs.dropWhile (· == '0'), isDigit c = true :=
    fun c hc => h c ((List.dropWhile_sublist _).subset hc)
  have hhead := List.head?_dropWhile_not (· == '0') cs
  rw [← digitsValue_dropWhile_zero]
  generalize cs.dropWhile (· == '0') = ds at *
  constructor
  · intro hlength
    exact (digitsValue_lt hdigits).trans_le (Nat.pow_le_pow_right (by decide) hlength)
  · intro hlt
    cases ds with
    | nil => exact Nat.zero_le k
    | cons d ds =>
      have hd : 1 ≤ digitValue d :=
        digitValue_pos (hdigits d List.mem_cons_self) (by simpa using hhead)
      have hle : 10 ^ ds.length ≤ digitsValue (d :: ds) := by
        rw [digitsValue_cons]
        nlinarith [Nat.pow_pos (n := ds.length) (show 0 < 10 by decide)]
      exact (Nat.pow_lt_pow_iff_right (by decide)).1 (hle.trans_lt hlt)

theorem digitsValue_replicate_zero (k : ℕ) : digitsValue (List.replicate k '0') = 0 := by
  induction k with
  | zero => rfl
  | succ k ih => exact ih

/-- Zeros at the end count for powers of ten. -/
theorem exists_rdropWhile_zero (cs : List Char) :
    ∃ z, cs.length = (cs.rdropWhile (· == '0')).length + z ∧ ∀ ds,
      digitsValue (ds ++ cs) = digitsValue (ds ++ cs.rdropWhile (· == '0')) * 10 ^ z := by
  have hzeros : cs.rtakeWhile (· == '0') =
      List.replicate (cs.rtakeWhile (· == '0')).length '0' :=
    List.eq_replicate_of_mem fun c hc => by simpa using List.mem_rtakeWhile_imp hc
  have hparts := List.rdropWhile_append_rtakeWhile (p := (· == '0')) (l := cs)
  refine ⟨(cs.rtakeWhile (· == '0')).length, ?_, fun ds => ?_⟩
  · rw [← List.length_append, hparts]
  · conv_lhs => rw [← hparts, ← List.append_assoc, digitsValue_append, hzeros,
      digitsValue_replicate_zero, List.length_replicate, add_zero]

theorem digitsValue_toDigits (n : ℕ) : digitsValue (Nat.toDigits 10 n) = n :=
  Nat.ofDigitChars_toDigits (by decide) (Nat.le_refl 10)

end FilmReport
