import Mathlib.Data.Rat.Lemmas
import FilmReport.Shape.Field
import FilmReport.Proofs.Binary64.Range

/-!
Checks that give a value without an issue. Of a value that was written out, the checks that a writer
can rely on accept nothing but this value, and they accept it if it keeps their bounds.
-/

set_option autoImplicit false
set_option relaxedAutoImplicit false

namespace FilmReport.Shape

namespace Checked

variable {α β γ : Type}

/-- A check without issues that yields a value. -/
def Gives (c : Checked α) (a : α) : Prop :=
  c.issues = [] ∧ c.value = some a

variable {a : α} {b : β} {c : Checked α}

theorem toExcept_eq_ok : c.toExcept = .ok a ↔ c.Gives a := by
  rcases c with ⟨_ | ⟨issue, issues⟩, _ | b⟩ <;> simp [toExcept, Gives]

@[simp]
theorem gives_valid {b : α} : (valid b).Gives a ↔ b = a := by
  simp [valid, Gives]

@[simp]
theorem not_gives_stop (p : Problem) : ¬ (stop p : Checked α).Gives a := by
  simp [stop, Gives]

@[simp]
theorem gives_flawed {problems : List Problem} {b : α} :
    (flawed problems b).Gives a ↔ problems = [] ∧ b = a := by
  simp [flawed, Gives]

@[simp]
theorem gives_map {f : α → β} : (c.map f).Gives b ↔ ∃ a, c.Gives a ∧ f a = b := by
  simp [map, Gives, and_assoc]

@[simp]
theorem gives_within (step : Step) : (c.within step).Gives a ↔ c.Gives a := by
  simp [within, Gives]

theorem gives_and {f : Checked (α → β)} {c : Unit → Checked α} :
    (f.and c).Gives b ↔ ∃ g a, f.Gives g ∧ (c ()).Gives a ∧ g a = b := by
  simp only [and, Gives, List.append_eq_nil_iff, Option.bind_eq_some_iff, Option.map_eq_some_iff]
  constructor
  · rintro ⟨⟨hf, hc⟩, g, hg, a, ha, rfl⟩
    exact ⟨g, a, ⟨hf, hg⟩, ⟨hc, ha⟩, rfl⟩
  · rintro ⟨g, a, ⟨hf, hg⟩, ⟨hc, ha⟩, rfl⟩
    exact ⟨⟨hf, hc⟩, g, hg, a, ha, rfl⟩

@[simp]
theorem gives_functor {f : α → β} : (f <$> c).Gives b ↔ ∃ a, c.Gives a ∧ f a = b :=
  gives_map

@[simp]
theorem gives_seq {f : Checked (α → β)} {c : Checked α} :
    (f <*> c).Gives b ↔ ∃ g a, f.Gives g ∧ c.Gives a ∧ g a = b :=
  gives_and

theorem Gives.of_refine {more : α → List Issue} (h : (c.refine more).Gives a) : c.Gives a := by
  rcases c with ⟨issues, _ | b⟩
  · exact h
  · exact ⟨(List.append_eq_nil_iff.1 h.1).1, h.2⟩

end Checked

section Fields

open Checked

variable {α : Type} {check : Option Json → Checked α} {field : Option Json}

theorem of_gives_integer {range : Range} {n : Int} (h : (integer range field).Gives n) :
    unsafeSize n = [] ∧ range.broken n = [] := by
  unfold integer at h
  split at h
  · next q =>
    split at h
    · next hwhole =>
      obtain ⟨hnone, rfl⟩ := gives_flawed.1 h
      obtain ⟨hsize, hrange⟩ := List.append_eq_nil_iff.1 hnone
      rw [← Rat.coe_int_num_of_den_eq_one hwhole] at hrange
      exact ⟨hsize, hrange⟩
    · exact absurd h (not_gives_stop _)
  · exact absurd h (not_gives_stop _)

theorem natAbs_lt_of_unsafeSize {n : Int} (h : unsafeSize n = []) : n.natAbs < 2 ^ 53 := by
  rw [unsafeSize, safeLimit] at h
  split at h
  · cases h
  · split at h
    · cases h
    · omega

end Fields

open Checked

variable {α : Type} {check : Option Json → Checked α} {write : α → Json}

/-- What a check accepts of a written value is that value. -/
def Faithful (check : Option Json → Checked α) (write : α → Json) : Prop :=
  ∀ {a b : α}, (check (some (write a))).Gives b → b = a

namespace Faithful

theorem text (least : Nat) : Faithful (text least) .string := fun h =>
  (gives_flawed.1 h).2.symm

theorem dateTime : Faithful dateTime .string := fun h =>
  (gives_flawed.1 h).2.symm

/-- Also an integer that is no number of the format is not taken for another. -/
theorem integer (range : Range) : Faithful (integer range) .ofInt := by
  intro n m h
  have hsize := natAbs_lt_of_unsafeSize (of_gives_integer h).1
  unfold Shape.integer at h
  split at h
  · next q hq =>
    split at h
    · next hwhole =>
      obtain ⟨-, rfl⟩ := gives_flawed.1 h
      have hround : Binary64.ofInt n = .finite q := Json.number.inj (Option.some.inj hq)
      rw [← Rat.coe_int_num_of_den_eq_one hwhole] at hround
      exact (Binary64.eq_of_ofInt hround hsize).symm
    · exact absurd h (not_gives_stop _)
  · exact absurd h (not_gives_stop _)

theorem items (h : Faithful check write) : ∀ {n : Nat} {as bs : List α},
    (Checked.items (fun item => check (some item)) n (as.map write)).Gives bs → bs = as
  | _, [], _, hbs => (gives_valid.1 hbs).symm
  | _, _ :: _, _, hbs => by
    rw [List.map_cons, Checked.items, gives_and] at hbs
    obtain ⟨g, rest, hg, hrest, rfl⟩ := hbs
    obtain ⟨b, hb, rfl⟩ := gives_map.1 hg
    rw [gives_within] at hb
    rw [h hb, h.items hrest]

theorem list (h : Faithful check write) (least : Nat) :
    Faithful (list least check) fun as => .array (as.map write) := by
  intro as bs hbs
  exact h.items ⟨(List.append_eq_nil_iff.1 hbs.1).1, hbs.2⟩

end Faithful

section Accepted

theorem gives_text {least : Nat} {s : String} (h : least ≤ s.length) :
    (text least (some (.string s))).Gives s := by
  rw [text, gives_flawed, shortness, if_neg (by omega)]
  exact ⟨rfl, rfl⟩

theorem gives_dateTime {s : String} (h : Calendar.isDateTime s = true) :
    (dateTime (some (.string s))).Gives s := by
  rw [dateTime, gives_flawed, if_pos h]
  exact ⟨rfl, rfl⟩

theorem unsafeSize_eq_nil {n : Int} (h : n.natAbs < 2 ^ 53) : unsafeSize n = [] := by
  rw [unsafeSize, safeLimit, if_neg (by omega), if_neg (by omega)]

theorem gives_integer {range : Range} {n : Int} (h : n.natAbs < 2 ^ 53)
    (hrange : range.broken n = []) : (integer range (some (.ofInt n))).Gives n := by
  rw [Json.ofInt, Binary64.ofInt_of_natAbs_lt h, integer]
  simp [hrange, unsafeSize_eq_nil h]

theorem broken_from_eq_nil {least : Int} {n : Int} (h : least ≤ n) :
    (Range.from_ least).broken n = [] := by
  simp [Range.from_, Range.broken, h]

theorem gives_items : ∀ {n : Nat} {as : List α}, (∀ a ∈ as, (check (some (write a))).Gives a) →
    (Checked.items (fun item => check (some item)) n (as.map write)).Gives as
  | _, [], _ => gives_valid.2 rfl
  | n, a :: as, h => by
    rw [List.forall_mem_cons] at h
    rw [List.map_cons, Checked.items, gives_and]
    exact ⟨_, as, gives_map.2 ⟨a, (gives_within _).2 h.1, rfl⟩, gives_items h.2, rfl⟩

theorem gives_list {as : List α} (h : ∀ a ∈ as, (check (some (write a))).Gives a) :
    (list 0 check (some (.array (as.map write)))).Gives as := by
  obtain ⟨hissues, hvalue⟩ := gives_items (n := 0) h
  exact ⟨by simp [list, shortness, hissues], hvalue⟩

end Accepted
end FilmReport.Shape
