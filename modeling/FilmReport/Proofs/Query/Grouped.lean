import Mathlib.Algebra.BigOperators.Group.Multiset.Basic
import Mathlib.Algebra.BigOperators.Ring.List
import Mathlib.Algebra.Order.BigOperators.Group.List
import Mathlib.Algebra.Order.Group.Nat
import Mathlib.Algebra.Ring.Nat
import Mathlib.Data.List.Dedup
import Mathlib.Data.List.Nodup
import Mathlib.Data.Set.List
import FilmReport.Query.Relation
import FilmReport.Proofs.Query.Sorted

/-!
Groups as their keys: where rows are grouped by a name, written as cells, the groups are the names
that come, each with what is made of the rows of that name. A count of rows is a sum of ones, and a
sum over the pairs of a join is a sum over both sides, in whichever order.
-/

set_option autoImplicit false
set_option relaxedAutoImplicit false

namespace FilmReport

/-- Rows that are made of items are put in order as the items are. -/
theorem Store.orderBy_map {α ρ : Type} (keys : ρ → List SortKey) (f : α → ρ) (items : List α) :
    orderBy keys (items.map f) = (orderBy (fun x => keys (f x)) items).map f := by
  rw [orderBy, orderBy, List.map_mergeSort]
  exact fun _ _ _ _ => rfl

namespace Query

open Store

variable {ρ κ : Type} [DecidableEq κ] {code : κ → List Cell}

theorem exists_groups (key : ρ → List Cell) (name : ρ → κ) (hcode : code.Injective)
    (hkey : ∀ x, normalKey key x = code (name x)) (total : List ρ → List Cell) (items : List ρ) :
    ∃ groups : List κ, groups.Nodup ∧ (∀ k, k ∈ groups ↔ ∃ x ∈ items, name x = k) ∧
      grouped key total items =
        groups.map fun k => code k ++ total (items.filter fun x => name x = k) := by
  have hrange : keysOf (normalKey key) items ∈ Set.range (List.map code) := by
    rw [Set.range_list_map]
    intro k hk
    obtain ⟨x, -, rfl⟩ := mem_keysOf.1 hk
    exact ⟨name x, (hkey x).symm⟩
  obtain ⟨groups, hgroups⟩ := hrange
  have hsame : ∀ x k, normalKey key x = code k ↔ name x = k := by
    intro x k
    rw [hkey, hcode.eq_iff]
  refine ⟨groups, ?_, fun k => ?_, ?_⟩
  · have hnodup := nodup_keysOf (normalKey key) items
    rw [← hgroups] at hnodup
    exact hnodup.of_map
  · rw [← List.mem_map_of_injective hcode, hgroups, mem_keysOf]
    simp only [hsame]
  · rw [grouped, ← hgroups, List.map_map]
    refine List.map_congr_left fun k _ => ?_
    simp only [Function.comp_apply, withKey, hsame]

/-- There are no more groups than rows. -/
theorem length_grouped_le (key : ρ → List Cell) (total : List ρ → List Cell) (items : List ρ) :
    (grouped key total items).length ≤ items.length := by
  have hkeys : (keysOf (normalKey key) items).length ≤ items.length := by
    induction items with
    | nil => exact le_rfl
    | cons row rest ih => exact Nat.succ_le_succ ((List.length_filter_le _ _).trans ih)
  rwa [grouped, List.length_map]

section Counts

variable {texts : κ → List String}

/-- The cells of a name with its number. -/
def countedCells {κ : Type} (texts : κ → List String) (entry : κ × Nat) : List Cell :=
  (texts entry.1).map .text ++ [.int entry.2]

theorem countedCells_ne_nan {κ : Type} (texts : κ → List String) (entry : κ × Nat) :
    ∀ c ∈ countedCells texts entry, c ≠ .real .nan := by
  simp [countedCells, or_imp, forall_and]

/-- Names with their numbers, the greatest number first, equal ones in the order of the names. -/
structure RanksBy (before : κ → κ → Prop) (number : κ → Nat) (entries : List (κ × Nat)) :
    Prop where
  mem : ∀ k n, (k, n) ∈ entries ↔ n = number k ∧ 0 < n
  sorted : entries.Pairwise fun a b => b.2 < a.2 ∨ a.2 = b.2 ∧ before a.1 b.1

/-- As many rows have a name as it comes among theirs. -/
theorem countP_eq_count (name : ρ → κ) (items : List ρ) (k : κ) :
    (items.countP fun x => name x = k) = (items.map name).count k := by
  rw [List.count, List.countP_map]
  exact List.countP_congr fun x _ => by simp

/-- Each of some names once, with the number of times that it comes. -/
structure Counts (names : List κ) (entries : List (κ × Nat)) : Prop where
  once : (entries.map Prod.fst).Nodup
  mem : ∀ k n, (k, n) ∈ entries ↔ n = names.count k ∧ 0 < n
  total : (entries.map Prod.snd).sum = names.length

/-- Sorted counts of rows count the names of these, and add up to the number of the rows. -/
theorem exists_counts (key : ρ → List Cell) (name : ρ → κ) (hcode : code.Injective)
    (hkey : ∀ x, normalKey key x = code (name x)) (total : Nat → Cell) (order : List By)
    (items : List ρ) : ∃ entries, Counts (items.map name) entries ∧
      entries.map (fun entry => code entry.1 ++ [total entry.2]) =
        sortBy order (grouped key (fun part => [total part.length]) items) := by
  obtain ⟨groups, hnodup, hmem, hrows⟩ :=
    exists_groups key name hcode hkey (fun part => [total part.length]) items
  have hcount : ∀ k, (items.filter fun x => name x = k).length = (items.map name).count k := by
    intro k
    rw [← List.countP_eq_length_filter, countP_eq_count]
  let entry : κ → κ × Nat := fun k => (k, (items.map name).count k)
  let cells : κ × Nat → List Cell := fun entry => code entry.1 ++ [total entry.2]
  have hcells : grouped key (fun part => [total part.length]) items =
      (groups.map entry).map cells := by
    rw [hrows, List.map_map]
    refine List.map_congr_left fun k _ => ?_
    rw [hcount]
    rfl
  have hnames : groups.Perm (items.map name).dedup := by
    refine (List.perm_ext_iff_of_nodup hnodup (List.nodup_dedup _)).2 fun k => ?_
    rw [hmem, List.mem_dedup, List.mem_map]
  have hperm := orderBy_perm (fun entry => order.map (By.key (cells entry))) (groups.map entry)
  refine ⟨_, ⟨?_, fun k n => ?_, ?_⟩, by rw [hcells, sortBy, orderBy_map]⟩
  · rw [(hperm.map _).nodup_iff, List.map_map]
    simpa [Function.comp_def, entry] using hnodup
  · rw [hperm.mem_iff, List.mem_map]
    have hpos : k ∈ groups ↔ 0 < (items.map name).count k := by
      rw [hmem, List.count_pos_iff, List.mem_map]
    constructor
    · rintro ⟨l, hl, hentry⟩
      obtain ⟨rfl, rfl⟩ := Prod.mk.inj hentry
      exact ⟨rfl, hpos.1 hl⟩
    · rintro ⟨rfl, hn⟩
      exact ⟨k, hpos.2 hn, rfl⟩
  · rw [(hperm.map _).sum_eq, List.map_map, ← List.sum_map_count_dedup_eq_length]
    exact (hnames.map _).sum_eq

variable {before : κ → κ → Prop} {order : List By}

/-- Sorted counts rank the names that come by how often they come, where the order of the rows is
that of a ranking. -/
theorem exists_ranks_of_count (key : ρ → List Cell) (name : ρ → κ) (htexts : texts.Injective)
    (hkey : ∀ x, key x = (texts (name x)).map .text)
    (htotal : ∀ a b, before a b ∨ a = b ∨ before b a)
    (horder : ∀ a b : κ × Nat,
      rankBy (fun row => order.map (By.key row)) (countedCells texts b) <
          rankBy (fun row => order.map (By.key row)) (countedCells texts a) ↔
        a.2 < b.2 ∨ a.2 = b.2 ∧ before b.1 a.1)
    {items : List ρ} {number : κ → Nat}
    (hnumber : ∀ k, (items.countP fun x => name x = k) = number k) :
    ∃ entries, entries.map (countedCells texts) =
        sortBy order (grouped key (fun part => [count part]) items) ∧
      RanksBy before number entries := by
  have hcode : Function.Injective fun k => (texts k).map Cell.text :=
    (List.map_injective_iff.2 fun _ _ h => Cell.text.inj h).comp htexts
  have hnormal : ∀ x, normalKey key x = (texts (name x)).map .text := by
    intro x
    rw [normalKey, hkey, List.map_map]
    rfl
  obtain ⟨entries, hcounts, hentries⟩ :=
    exists_counts key name hcode hnormal (fun n => .int n) order items
  have hrows : entries.map (countedCells texts) =
      sortBy order (grouped key (fun part => [count part]) items) := hentries
  refine ⟨entries, hrows, ⟨fun k n => by rw [hcounts.mem, ← countP_eq_count, hnumber], ?_⟩⟩
  have hnan : ∀ row ∈ grouped key (fun part => [count part]) items,
      ∀ key ∈ order.map (By.key row), key.cell ≠ .real .nan := by
    intro row hrow
    have hmem : row ∈ sortBy order (grouped key (fun part => [count part]) items) :=
      mem_orderBy.2 hrow
    rw [← hrows] at hmem
    obtain ⟨entry, -, rfl⟩ := List.mem_map.1 hmem
    exact ne_nan_of_mem_keys (countedCells_ne_nan texts entry) order
  have hsorted := pairwise_orderBy hnan
  rw [← sortBy, ← hrows, List.pairwise_map] at hsorted
  have hapart := hcounts.once
  rw [List.Nodup, List.pairwise_map] at hapart
  refine (hsorted.and hapart).imp fun {a b} h => ?_
  have hnot := mt (horder a b).2 (not_lt.2 h.1)
  rcases lt_trichotomy a.2 b.2 with hlt | heq | hgt
  · exact absurd (Or.inl hlt) hnot
  · rcases htotal a.1 b.1 with hlt | hsame | hgt
    · exact Or.inr ⟨heq, hlt⟩
    · exact absurd hsame h.2
    · exact absurd (Or.inr ⟨heq, hgt⟩) hnot
  · exact Or.inl hgt

end Counts

end Query
end FilmReport

namespace FilmReport.Query

variable {α β : Type} {items : List α} {f g : α → Nat}

/-- The sum of a number over items. -/
def sumOver (items : List α) (f : α → Nat) : Nat :=
  (items.map f).sum

@[simp]
theorem sumOver_cons (x : α) (rest : List α) (f : α → Nat) :
    sumOver (x :: rest) f = f x + sumOver rest f := by
  rw [sumOver, List.map_cons, List.sum_cons, ← sumOver]

theorem sumOver_congr (h : ∀ x ∈ items, f x = g x) : sumOver items f = sumOver items g :=
  congrArg List.sum (List.map_congr_left h)

theorem mul_sumOver (n : Nat) (items : List α) (f : α → Nat) :
    n * sumOver items f = sumOver items fun x => n * f x :=
  (List.sum_map_mul_left items f n).symm

theorem sumOver_comm (left : List α) (right : List β) (f : α → β → Nat) :
    (sumOver left fun a => sumOver right fun b => f a b) =
      sumOver right fun b => sumOver left fun a => f a b := by
  have hsums := Multiset.sum_map_sum_map (left : Multiset α) (right : Multiset β) (f := f)
  simp only [Multiset.map_coe, Multiset.sum_coe] at hsums
  exact hsums

theorem sumOver_mul_sumOver (left : List α) (right : List β) (f : α → Nat) (g : β → Nat) :
    sumOver left f * sumOver right g =
      sumOver left fun a => sumOver right fun b => f a * g b := by
  rw [Nat.mul_comm, mul_sumOver]
  refine sumOver_congr fun a _ => ?_
  rw [Nat.mul_comm, mul_sumOver]

theorem le_sumOver {x : α} (hx : x ∈ items) (f : α → Nat) : f x ≤ sumOver items f :=
  List.le_sum_of_mem (List.mem_map_of_mem hx)

theorem sumOver_eq_zero_iff : sumOver items f = 0 ↔ ∀ x ∈ items, f x = 0 := by
  rw [sumOver, List.sum_eq_zero_iff, List.forall_mem_map]

theorem sumOver_pos_iff : 0 < sumOver items f ↔ ∃ x ∈ items, 0 < f x := by
  rw [Nat.pos_iff_ne_zero, Ne, sumOver_eq_zero_iff]
  simp [Nat.pos_iff_ne_zero]

/-- A sum is what one item gives to it just where the others give nothing. -/
theorem sumOver_eq_iff (hitems : items.Nodup) {x : α} (hx : x ∈ items) :
    sumOver items f = f x ↔ ∀ y ∈ items, y ≠ x → f y = 0 := by
  classical
  have hsplit : sumOver items f = f x + sumOver (items.erase x) f := by
    rw [← sumOver_cons]
    exact ((List.perm_cons_erase hx).map f).sum_eq
  rw [hsplit, Nat.add_eq_left, sumOver_eq_zero_iff]
  simp only [hitems.mem_erase_iff, and_imp]
  exact ⟨fun h y hy hne => h y hne hy, fun h y hne hy => h y hy hne⟩

theorem countP_eq_sumOver (p : α → Bool) (items : List α) :
    items.countP p = sumOver items fun x => (p x).toNat := by
  induction items with
  | nil => rfl
  | cons x rest ih =>
    rw [List.countP_cons, ih, sumOver_cons, Nat.add_comm]
    cases p x <;> rfl

theorem sumOver_filter (p : α → Bool) (items : List α) (f : α → Nat) :
    sumOver (items.filter p) f = sumOver items fun x => (p x).toNat * f x := by
  induction items with
  | nil => rfl
  | cons x rest ih =>
    rw [List.filter_cons, sumOver_cons, ← ih]
    cases p x <;> simp

theorem sumOver_join (left : List α) (right : List β) (on : α → β → Bool) (f : α × β → Nat) :
    sumOver (join left right on) f =
      sumOver left fun a => sumOver right fun b => (on a b).toNat * f (a, b) := by
  induction left with
  | nil => rfl
  | cons a rest ih =>
    rw [sumOver_cons, ← ih, ← sumOver_filter, join, List.flatMap_cons, sumOver, List.map_append,
      List.sum_append, List.map_map]
    rfl

/-- Where every row has just one partner, a join puts it beside each. -/
theorem join_eq_map {left : List α} {right : List β} {on : α → β → Bool} {partner : α → β}
    (h : ∀ a ∈ left, right.filter (on a) = [partner a]) :
    join left right on = left.map fun a => (a, partner a) := by
  rw [join, List.map_eq_flatMap]
  refine List.flatMap_congr fun a ha => ?_
  rw [h a ha]
  rfl

/-- A join in which each row has one partner has as many rows. -/
theorem length_join {left : List α} {right : List β} {on : α → β → Bool}
    (h : ∀ a ∈ left, right.countP (on a) = 1) : (join left right on).length = left.length := by
  induction left with
  | nil => rfl
  | cons a rest ih =>
    rw [List.forall_mem_cons] at h
    rw [join, List.flatMap_cons, List.length_append, ← join, ih h.2, List.length_map,
      ← List.countP_eq_length_filter, h.1, List.length_cons, Nat.add_comm]

/-- Different rows make different pairs. -/
theorem nodup_join {left : List α} {right : List β} (hleft : left.Nodup) (hright : right.Nodup)
    (on : α → β → Bool) : (join left right on).Nodup := by
  have hjoin : join left right on = (left.product right).filter fun x => on x.1 x.2 := by
    rw [join, List.product, List.filter_flatMap]
    refine List.flatMap_congr fun a _ => ?_
    rw [List.filter_map]
    rfl
  rw [hjoin]
  exact (hleft.product hright).filter _

/-- A condition on the left rows of a join is one on its left side. -/
theorem filter_join (left : List α) (right : List β) (on : α → β → Bool) (p : α → Bool) :
    ((join left right on).filter fun x => p x.1) = join (left.filter p) right on := by
  induction left with
  | nil => rfl
  | cons a rest ih =>
    rw [join, List.flatMap_cons, List.filter_append, ← join, ih, List.filter_map, List.filter_cons]
    cases hp : p a <;> simp [join, Function.comp_def, hp]

end FilmReport.Query
