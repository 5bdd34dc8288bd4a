import Mathlib.Tactic.Ring
import FilmReport.Proofs.Operation.Course
import FilmReport.Proofs.Query.Grouped
import FilmReport.Proofs.Query.Exported
import FilmReport.Proofs.Query.Catalog.Memberships

/-!
What the queries about people count. They join persons by their identifiers and group them by their
names, so that a name stands for all who bear it: its number is the sum of theirs. It is the number
of a single person just where the namesakes have done nothing (`CountsByName.own`).
-/

set_option autoImplicit false
set_option relaxedAutoImplicit false

namespace FilmReport.Query.People

open Store Regions

/-- The persons of a name. -/
def bearers (s : Store) (name : String) : List NameRow :=
  (s.rowsOf .names).filter fun n => n.name = name

/-- A number of the persons of a name, all together. -/
def byName (s : Store) (number : NameRow → Nat) (name : String) : Nat :=
  sumOver (bearers s name) number

/-- Names with the numbers of those who bear them. -/
structure CountsByName (s : Store) (number : NameRow → Nat) (entries : List (String × Nat)) :
    Prop where
  ranks : Ranks (byName s number) entries
  /-- A name has the number of a person if no other person of that name has any. -/
  own : ∀ n ∈ s.rowsOf .names, byName s number n.name = number n ↔
    ∀ other ∈ s.rowsOf .names, other.name = n.name → other ≠ n → number other = 0
  /-- If no two persons with a number bear one name, there is one entry for each such person. -/
  apart : (∀ n ∈ s.rowsOf .names, ∀ other ∈ s.rowsOf .names,
      0 < number n → 0 < number other → other.name = n.name → other = n) →
    entries.Perm (((s.rowsOf .names).filter fun n => 0 < number n).map fun n => (n.name, number n))

section Counts

variable {s : Store} {number : NameRow → Nat} {entries : List (String × Nat)}

theorem byName_eq_iff (h : (s.rowsOf .names).Nodup) {n : NameRow} (hn : n ∈ s.rowsOf .names) :
    byName s number n.name = number n ↔
      ∀ other ∈ s.rowsOf .names, other.name = n.name → other ≠ n → number other = 0 := by
  have hbearer : n ∈ bearers s n.name := List.mem_filter.2 ⟨hn, decide_eq_true rfl⟩
  have hbearers : (bearers s n.name).Nodup := h.filter _
  rw [byName, sumOver_eq_iff hbearers hbearer]
  simp only [bearers, List.mem_filter, decide_eq_true_eq, and_imp]

theorem byName_pos_iff {name : String} :
    0 < byName s number name ↔ ∃ n ∈ s.rowsOf .names, n.name = name ∧ 0 < number n := by
  simp only [byName, sumOver_pos_iff, bearers, List.mem_filter, decide_eq_true_eq, and_assoc]

theorem countsByName_of_ranks (h : (s.rowsOf .names).Nodup)
    (hranks : Ranks (byName s number) entries) : CountsByName s number entries where
  ranks := hranks
  own _ hn := byName_eq_iff h hn
  apart hapart := by
    have hown : ∀ n ∈ s.rowsOf .names, 0 < number n → byName s number n.name = number n := by
      intro n hn hpos
      refine (byName_eq_iff h hn).2 fun other hother hname hne => ?_
      by_contra hother'
      exact hne (hapart n hn other hother hpos (Nat.pos_of_ne_zero hother') hname)
    have hentries : entries.Nodup := hranks.sorted.imp fun {a b} hab heq => by
      rcases hab with hlt | ⟨-, hlt⟩ <;> rw [heq] at hlt <;> exact lt_irrefl _ hlt
    have hpersons : (((s.rowsOf .names).filter fun n => 0 < number n).map
        fun n => (n.name, number n)).Nodup := by
      refine (h.filter _).map_on fun n hn other hother heq => ?_
      rw [List.mem_filter, decide_eq_true_iff] at hn hother
      exact hapart other hother.1 n hn.1 hother.2 hn.2 (Prod.mk.inj heq).1
    rw [List.perm_ext_iff_of_nodup hentries hpersons]
    rintro ⟨name, k⟩
    simp only [hranks.mem, List.mem_map, List.mem_filter, decide_eq_true_eq, Prod.mk.injEq]
    constructor
    · rintro ⟨rfl, hpos⟩
      obtain ⟨n, hn, rfl, hn'⟩ := byName_pos_iff.1 hpos
      exact ⟨n, ⟨hn, hn'⟩, rfl, (hown n hn hn').symm⟩
    · rintro ⟨n, ⟨hn, hpos⟩, rfl, rfl⟩
      exact ⟨(hown n hn hpos).symm, hpos⟩

/-- Rows joined with persons are as many for a name as there are rows for its bearers. -/
theorem countP_name_join {σ : Type} (nameId : σ → String) (rows : List σ) (name : String) :
    ((join rows (s.rowsOf .names) fun row n => n.id = some (nameId row)).countP fun x =>
      x.2.name = name) =
        byName s (fun n => rows.countP fun row => n.id = some (nameId row)) name := by
  rw [countP_eq_sumOver, sumOver_join, sumOver_comm, byName, bearers, sumOver_filter]
  refine sumOver_congr fun n _ => ?_
  rw [countP_eq_sumOver, mul_sumOver]
  refine sumOver_congr fun row _ => ?_
  rw [Nat.mul_comm]

end Counts

/-- The number of movies that a person directed. -/
def directingsOf (s : Store) (n : NameRow) : Nat :=
  (s.rowsOf .directorMapping).countP fun d => n.id = some d.nameId

/-- The number of movies in which a person played. -/
def rolesOf (s : Store) (n : NameRow) : Nat :=
  (s.rowsOf .roleMapping).countP fun c => n.id = some c.nameId

/-- Whether a person played in a movie. -/
def plays (s : Store) (n : NameRow) (m : MovieRow) : Bool :=
  (s.rowsOf .roleMapping).any fun c => n.id = some c.nameId && m.id = some c.movieId

/-- The number of movies in which two persons played both. -/
def sharedMovies (s : Store) (p q : NameRow) : Nat :=
  (s.rowsOf .movie).countP fun m => plays s p m && plays s q m

/-- Whether the identifier of a person is before that of another. -/
def precedes (p q : NameRow) : Bool :=
  match p.id, q.id with
  | some a, some b => decide (a < b)
  | _, _ => false

/-- The movies that two persons share, counted where the first precedes the second. -/
def sharedInOrder (s : Store) (p q : NameRow) : Nat :=
  if precedes p q then sharedMovies s p q else 0

/-- The movies that persons of two names share, all pairs together. -/
def byNames (s : Store) (k : String × String) : Nat :=
  sumOver (bearers s k.1) fun p => sumOver (bearers s k.2) (sharedInOrder s p)

section Shared

variable {s : Store}

/-- How often a person played in a movie, once at most. -/
theorem toNat_plays (hcastings : ((s.rowsOf .roleMapping).map fun c => (c.movieId, c.nameId)).Nodup)
    (n : NameRow) (m : MovieRow) : (plays s n m).toNat =
      (s.rowsOf .roleMapping).countP fun c => n.id = some c.nameId && m.id = some c.movieId := by
  have hle : ((s.rowsOf .roleMapping).countP fun c =>
      n.id = some c.nameId && m.id = some c.movieId) ≤ 1 := by
    cases n.id with
    | none => simp
    | some person =>
      cases m.id with
      | none => simp
      | some movie =>
        refine le_trans (le_of_eq ?_) (List.nodup_iff_count_le_one.1 hcastings (movie, person))
        rw [List.count, List.countP_map]
        refine List.countP_congr fun c _ => ?_
        simp only [Function.comp_apply, beq_iff_eq, Prod.mk.injEq, Bool.and_eq_true,
          decide_eq_true_eq, Option.some.injEq]
        constructor <;> rintro ⟨rfl, rfl⟩ <;> exact ⟨rfl, rfl⟩
  rw [plays]
  cases hany : (s.rowsOf .roleMapping).any fun c =>
      n.id = some c.nameId && m.id = some c.movieId with
  | true =>
    have hpos := List.countP_pos_iff.2 (List.any_eq_true.1 hany)
    exact le_antisymm hpos hle
  | false =>
    exact (List.countP_eq_zero.2 (List.any_eq_false.1 hany)).symm

/-- One movie has an identifier to which a role refers. -/
theorem countP_movie_of_role (h : s.Intact) {c c' : RoleRow} (hc : c ∈ s.rowsOf .roleMapping) :
    ((s.rowsOf .movie).countP fun m => m.id = some c.movieId && m.id = some c'.movieId) =
      (decide (c.movieId = c'.movieId)).toNat := by
  by_cases hsame : c.movieId = c'.movieId
  · have hmovie : some c.movieId ∈ (s.rowsOf .movie).map (·.id) := by
      obtain ⟨m, hm, hid⟩ := List.mem_filterMap.1 (h.castingMovies c hc)
      exact List.mem_map.2 ⟨m, hm, hid⟩
    have hone := List.count_eq_one_of_mem h.movieIds hmovie
    rw [List.count, List.countP_map] at hone
    rw [← hsame, decide_eq_true rfl, Bool.toNat_true, ← hone]
    refine List.countP_congr fun m _ => ?_
    simp
  · rw [decide_eq_false hsame, Bool.toNat_false, List.countP_eq_zero]
    intro m _ hm
    rw [Bool.and_eq_true, decide_eq_true_iff, decide_eq_true_iff] at hm
    exact hsame (Option.some.inj (hm.1.symm.trans hm.2))

theorem toNat_and (a b : Bool) : (a && b).toNat = a.toNat * b.toNat := by
  cases a <;> cases b <;> rfl

/-- Two persons share as many movies as there are pairs of their roles in one movie. -/
theorem sharedMovies_eq (h : s.Intact) (p q : NameRow) : sharedMovies s p q =
    sumOver (s.rowsOf .roleMapping) fun c => sumOver (s.rowsOf .roleMapping) fun c' =>
      (decide (p.id = some c.nameId)).toNat * ((decide (q.id = some c'.nameId)).toNat *
        (decide (c.movieId = c'.movieId)).toNat) := by
  have hmovies : sharedMovies s p q = sumOver (s.rowsOf .movie) fun m =>
      sumOver (s.rowsOf .roleMapping) fun c => sumOver (s.rowsOf .roleMapping) fun c' =>
        (p.id = some c.nameId && m.id = some c.movieId).toNat *
          (q.id = some c'.nameId && m.id = some c'.movieId).toNat := by
    rw [sharedMovies, countP_eq_sumOver]
    refine sumOver_congr fun m _ => ?_
    rw [toNat_and, toNat_plays h.castings, toNat_plays h.castings, countP_eq_sumOver,
      countP_eq_sumOver, sumOver_mul_sumOver]
  rw [hmovies, sumOver_comm]
  refine sumOver_congr fun c hc => ?_
  rw [sumOver_comm]
  refine sumOver_congr fun c' _ => ?_
  rw [← countP_movie_of_role h hc, countP_eq_sumOver, mul_sumOver, mul_sumOver]
  refine sumOver_congr fun m _ => ?_
  rw [toNat_and, toNat_and, toNat_and]
  ring

theorem countP_names_coActors (h : s.Intact) (k : String × String) :
    ((join (playedBy s) (playedBy s) fun p q => p.1.movieId = q.1.movieId &&
      Text.compareBytes p.1.nameId q.1.nameId == .lt).countP fun x =>
        (x.1.2.name, x.2.2.name) = k) = byNames s k := by
  have hterm : ∀ (p q : NameRow) (c c' : RoleRow),
      (decide (p.id = some c.nameId)).toNat * ((decide (q.id = some c'.nameId)).toNat *
        ((decide (c.movieId = c'.movieId) &&
          Text.compareBytes c.nameId c'.nameId == .lt).toNat *
            (decide ((p.name, q.name) = k)).toNat)) =
      (decide (p.name = k.1)).toNat * ((decide (q.name = k.2)).toNat * ((precedes p q).toNat *
        ((decide (p.id = some c.nameId)).toNat * ((decide (q.id = some c'.nameId)).toNat *
          (decide (c.movieId = c'.movieId)).toNat)))) := by
    intro p q c c'
    by_cases hp : p.id = some c.nameId
    · by_cases hq : q.id = some c'.nameId
      · have hbefore : (Text.compareBytes c.nameId c'.nameId == .lt) = precedes p q := by
          rw [precedes, hp, hq, Text.compareBytes_eq_cmp, Bool.eq_iff_iff, beq_iff_eq,
            cmp_eq_lt_iff, decide_eq_true_iff]
        have hnames : decide ((p.name, q.name) = k) =
            (decide (p.name = k.1) && decide (q.name = k.2)) := by
          rw [Bool.eq_iff_iff]
          simp [Prod.ext_iff]
        rw [hbefore, hnames, toNat_and, toNat_and]
        ring
      · simp [hq]
    · simp [hp]
  have hright : byNames s k = sumOver (s.rowsOf .names) fun p => sumOver (s.rowsOf .names) fun q =>
      sumOver (s.rowsOf .roleMapping) fun c => sumOver (s.rowsOf .roleMapping) fun c' =>
        (decide (p.name = k.1)).toNat * ((decide (q.name = k.2)).toNat * ((precedes p q).toNat *
          ((decide (p.id = some c.nameId)).toNat * ((decide (q.id = some c'.nameId)).toNat *
            (decide (c.movieId = c'.movieId)).toNat)))) := by
    rw [byNames, bearers, bearers, sumOver_filter]
    refine sumOver_congr fun p _ => ?_
    rw [sumOver_filter, mul_sumOver]
    refine sumOver_congr fun q _ => ?_
    have hshared : sharedInOrder s p q = (precedes p q).toNat * sharedMovies s p q := by
      rw [sharedInOrder]
      cases precedes p q <;> simp
    rw [hshared, sharedMovies_eq h]
    simp only [mul_sumOver]
  rw [countP_eq_sumOver, hright]
  simp only [playedBy, sumOver_join, mul_sumOver, hterm]
  rw [sumOver_comm]
  refine sumOver_congr fun p _ => ?_
  rw [sumOver_congr fun c _ => sumOver_comm _ _ _, sumOver_comm]

theorem sharedMovies_comm (s : Store) (p q : NameRow) :
    sharedMovies s p q = sharedMovies s q p := by
  simp only [sharedMovies, Bool.and_comm]

/-- Who shares a movie played in it, and has an identifier. -/
theorem rolesOf_pos_of_sharedMovies_pos {p q : NameRow} (h : 0 < sharedMovies s p q) :
    0 < rolesOf s p ∧ ∃ id, p.id = some id := by
  obtain ⟨m, -, hm⟩ := List.countP_pos_iff.1 h
  obtain ⟨c, hc, hrole⟩ := List.any_eq_true.1 (Bool.and_eq_true_iff.1 hm).1
  have hid := (Bool.and_eq_true_iff.1 hrole).1
  exact ⟨List.countP_pos_iff.2 ⟨c, hc, hid⟩, _, of_decide_eq_true hid⟩

/-- Of two persons who share a movie one precedes the other. -/
theorem precedes_or_precedes (h : s.Intact) {p q : NameRow} (hp : p ∈ s.rowsOf .names)
    (hq : q ∈ s.rowsOf .names) (hne : p ≠ q) (hshared : 0 < sharedMovies s p q) :
    precedes p q = true ∨ precedes q p = true := by
  obtain ⟨-, a, ha⟩ := rolesOf_pos_of_sharedMovies_pos hshared
  obtain ⟨-, b, hb⟩ := rolesOf_pos_of_sharedMovies_pos (sharedMovies_comm s p q ▸ hshared)
  have hids : a ≠ b := by
    rintro rfl
    exact hne (List.inj_on_of_nodup_map h.nameIds hp hq (ha.trans hb.symm))
  simpa [precedes, ha, hb] using lt_or_gt_of_ne hids

theorem sharedMovies_le_byNames {p q : NameRow} (hp : p ∈ s.rowsOf .names)
    (hq : q ∈ s.rowsOf .names) (h : precedes p q = true) :
    sharedMovies s p q ≤ byNames s (p.name, q.name) := by
  have hbearer : ∀ n ∈ s.rowsOf .names, n ∈ bearers s n.name :=
    fun n hn => List.mem_filter.2 ⟨hn, decide_eq_true rfl⟩
  calc sharedMovies s p q = sharedInOrder s p q := (if_pos h).symm
    _ ≤ sumOver (bearers s q.name) (sharedInOrder s p) := le_sumOver (hbearer q hq) _
    _ ≤ byNames s (p.name, q.name) :=
      le_sumOver (hbearer p hp) fun p => sumOver (bearers s q.name) (sharedInOrder s p)

theorem precedes_irrefl (p : NameRow) : precedes p p = false := by
  rw [precedes]
  cases p.id <;> simp

/-- Two names have what two persons share, if nobody else of these names has played. -/
theorem byNames_eq_sharedMovies (hnames : (s.rowsOf .names).Nodup)
    (hapart : ∀ n ∈ s.rowsOf .names, ∀ other ∈ s.rowsOf .names,
      0 < rolesOf s n → 0 < rolesOf s other → other.name = n.name → other = n)
    {p q : NameRow} (hp : p ∈ s.rowsOf .names) (hq : q ∈ s.rowsOf .names)
    (h : precedes p q = true) (hshared : 0 < sharedMovies s p q) :
    byNames s (p.name, q.name) = sharedMovies s p q := by
  have hnodup : ∀ name, (bearers s name).Nodup := fun name => hnames.filter _
  have hbearer : ∀ {n}, n ∈ s.rowsOf .names → n ∈ bearers s n.name :=
    fun hn => List.mem_filter.2 ⟨hn, decide_eq_true rfl⟩
  have halone : ∀ {n other}, n ∈ s.rowsOf .names → 0 < rolesOf s n → other ∈ bearers s n.name →
      other ≠ n → rolesOf s other = 0 := by
    intro n other hn hroles hother hne
    obtain ⟨hother, hname⟩ := List.mem_filter.1 hother
    by_contra hpos
    exact hne (hapart n hn other hother hroles (Nat.pos_of_ne_zero hpos) (of_decide_eq_true hname))
  have hnone : ∀ {n}, rolesOf s n = 0 → ∀ other,
      sharedInOrder s n other = 0 ∧ sharedInOrder s other n = 0 := by
    intro n hroles other
    have hzero : sharedMovies s n other = 0 := by
      by_contra hpos
      exact (rolesOf_pos_of_sharedMovies_pos (Nat.pos_of_ne_zero hpos)).1.ne' hroles
    simp [sharedInOrder, hzero, sharedMovies_comm s other n]
  have hp' := (rolesOf_pos_of_sharedMovies_pos hshared).1
  have hq' := (rolesOf_pos_of_sharedMovies_pos (sharedMovies_comm s p q ▸ hshared)).1
  have hfirst : byNames s (p.name, q.name) = sumOver (bearers s q.name) (sharedInOrder s p) :=
    (sumOver_eq_iff (hnodup p.name) (hbearer hp)).2 fun other hother hne =>
      sumOver_eq_zero_iff.2 fun third _ => (hnone (halone hp hp' hother hne) third).1
  have hsecond : sumOver (bearers s q.name) (sharedInOrder s p) = sharedInOrder s p q :=
    (sumOver_eq_iff (hnodup q.name) (hbearer hq)).2 fun other hother hne =>
      (hnone (halone hq hq' hother hne) p).2
  rw [hfirst, hsecond, sharedInOrder, if_pos h]

end Shared

/-- Two names in order, the first ones deciding. -/
def NamesBefore (a b : String × String) : Prop :=
  a.1 < b.1 ∨ a.1 = b.1 ∧ a.2 < b.2

/-- Pairs of names with the movies that their bearers share, the first of them the commonest. -/
structure PairsByNames (s : Store) (entries : List ((String × String) × Nat)) : Prop where
  ranks : RanksBy NamesBefore (byNames s) entries
  /-- No two persons share more movies than the first pair of names has. -/
  bound : ∀ p ∈ s.rowsOf .names, ∀ q ∈ s.rowsOf .names, p ≠ q → 0 < sharedMovies s p q →
    ∃ first rest, entries = first :: rest ∧ sharedMovies s p q ≤ first.2
  /-- If no two persons with a role bear one name, two persons share as many. -/
  apart : (∀ n ∈ s.rowsOf .names, ∀ other ∈ s.rowsOf .names,
      0 < rolesOf s n → 0 < rolesOf s other → other.name = n.name → other = n) →
    ∀ first rest, entries = first :: rest → ∃ p ∈ s.rowsOf .names, ∃ q ∈ s.rowsOf .names,
      p ≠ q ∧ first = ((p.name, q.name), sharedMovies s p q)

theorem pairsByNames_of_ranks {s : Store} (h : s.Intact) {entries : List ((String × String) × Nat)}
    (hranks : RanksBy NamesBefore (byNames s) entries) : PairsByNames s entries where
  ranks := hranks
  bound p hp q hq hne hshared := by
    have hentry : ∃ entry ∈ entries, sharedMovies s p q ≤ entry.2 := by
      rcases precedes_or_precedes h hp hq hne hshared with hbefore | hbefore
      · have hle := sharedMovies_le_byNames hp hq hbefore
        exact ⟨_, (hranks.mem _ _).2 ⟨rfl, hshared.trans_le hle⟩, hle⟩
      · have hle := sharedMovies_le_byNames hq hp hbefore
        rw [sharedMovies_comm] at hshared ⊢
        exact ⟨_, (hranks.mem _ _).2 ⟨rfl, hshared.trans_le hle⟩, hle⟩
    obtain ⟨entry, hmem, hle⟩ := hentry
    cases hentries : entries with
    | nil => simp [hentries] at hmem
    | cons first rest =>
      refine ⟨first, rest, rfl, hle.trans ?_⟩
      have hsorted := hranks.sorted
      rw [hentries, List.pairwise_cons] at hsorted
      rw [hentries] at hmem
      rcases List.mem_cons.1 hmem with rfl | hrest
      · exact le_rfl
      · rcases hsorted.1 entry hrest with hlt | ⟨heq, -⟩
        · exact hlt.le
        · exact heq.ge
  apart hapart first rest hentries := by
    obtain ⟨⟨name, name'⟩, n⟩ := first
    have hnames : (s.rowsOf .names).Nodup := h.nameIds.of_map
    obtain ⟨rfl, hpos⟩ := (hranks.mem (name, name') n).1 (hentries ▸ List.mem_cons_self)
    obtain ⟨p, hbearer, hsome⟩ := sumOver_pos_iff.1 hpos
    obtain ⟨q, hbearer', hshared⟩ := sumOver_pos_iff.1 hsome
    obtain ⟨hp, hname⟩ := List.mem_filter.1 hbearer
    obtain ⟨hq, hname'⟩ := List.mem_filter.1 hbearer'
    obtain rfl := of_decide_eq_true hname
    obtain rfl := of_decide_eq_true hname'
    rw [sharedInOrder] at hshared
    split at hshared
    · next hbefore =>
      refine ⟨p, hp, q, hq, ?_, ?_⟩
      · rintro rfl
        exact Bool.false_ne_true ((precedes_irrefl p).symm.trans hbefore)
      · rw [byNames_eq_sharedMovies hnames hapart hp hq hbefore hshared]
    · exact absurd hshared (lt_irrefl 0)

theorem rankBy_pairs_lt_iff {a b : (String × String) × Nat} :
    rankBy (fun row => [By.down 2, By.up 0, By.up 1].map (By.key row))
        (countedCells (fun k => [k.1, k.2]) b) <
      rankBy (fun row => [By.down 2, By.up 0, By.up 1].map (By.key row))
        (countedCells (fun k => [k.1, k.2]) a) ↔
      a.2 < b.2 ∨ a.2 = b.2 ∧ NamesBefore b.1 a.1 := by
  simp [rankBy, countedCells, By.key, cellAt, SortKey.rank, Cell.rank, NamesBefore,
    List.cons_lt_cons_iff, Prod.Lex.toLex_lt_toLex, eq_comm, -String.lt_iff_ltb]

theorem namesBefore_or (a b : String × String) : NamesBefore a b ∨ a = b ∨ NamesBefore b a := by
  rcases lt_trichotomy a.1 b.1 with h | h | h
  · exact .inl (.inl h)
  · rcases lt_trichotomy a.2 b.2 with h' | h' | h'
    · exact .inl (.inr ⟨h, h'⟩)
    · exact .inr (.inl (Prod.ext h h'))
    · exact .inr (.inr (.inr ⟨h.symm, h'⟩))
  · exact .inr (.inr (.inl h))

/-- The queries about directings, roles and shared movies count by names: a name has what its
bearers have together, which is what one person has only if the others have nothing. -/
theorem reports_byName {w : World} (hw : Askable w) (h : w.data.Intact) :
    (∃ directors, CountsByName w.data (directingsOf w.data) directors ∧
        moviesByDirector.Reports w (directors.map countCells)) ∧
      (∃ actors, CountsByName w.data (rolesOf w.data) actors ∧
        busiestActors.Reports w ((actors.take 10).map countCells)) ∧
      ∃ pairs, PairsByNames w.data pairs ∧
        commonestCoActors.Reports w ((pairs.take 1).map (countedCells fun k => [k.1, k.2])) := by
  have hnames : (w.data.rowsOf .names).Nodup := h.nameIds.of_map
  refine ⟨?_, ?_, ?_⟩
  · obtain ⟨directors, hrows, hranks⟩ := exists_ranks_of_texts
      (fun x : DirectorRow × NameRow => x.2.name)
      (countP_name_join _ (w.data.rowsOf .directorMapping))
    refine ⟨directors, countsByName_of_ranks hnames hranks,
      reports_of_rows (by simp [catalog]) hw (fun _ => congrArg _ hrows.symm) ?_⟩
    rw [List.forall_mem_map]
    exact fun _ _ => le_rfl
  · obtain ⟨actors, hrows, hranks⟩ := exists_ranks_of_texts
      (fun x : RoleRow × NameRow => x.2.name) (countP_name_join _ (w.data.rowsOf .roleMapping))
    refine ⟨actors, countsByName_of_ranks hnames hranks,
      reports_of_rows (by simp [catalog]) hw (fun _ => ?_) ?_⟩
    · rw [List.map_take, hrows]
      rfl
    · rw [List.forall_mem_map]
      exact fun _ _ => le_rfl
  · have htexts : Function.Injective fun k : String × String => [k.1, k.2] := by
      intro k l heq
      simpa [Prod.ext_iff] using heq
    obtain ⟨pairs, hrows, hranks⟩ := exists_ranks_of_count
      (fun x : (RoleRow × NameRow) × (RoleRow × NameRow) => personName x.1 ++ personName x.2)
      (fun x => (x.1.2.name, x.2.2.name)) htexts (fun _ => rfl) namesBefore_or
      (fun _ _ => rankBy_pairs_lt_iff) (countP_names_coActors h)
    refine ⟨pairs, pairsByNames_of_ranks h hranks,
      reports_of_rows (by simp [catalog]) hw (fun _ => ?_) ?_⟩
    · rw [List.map_take, hrows]
      rfl
    · rw [List.forall_mem_map]
      exact fun _ _ => le_rfl

/-- Two persons of one name, each of whom directed a film. -/
def twoLees : Course :=
  .migrate [some ⟨0⟩] <|
  .nested "seed"
    (.call ⟨.operation (.seed
      { generatedAt := ""
        movies := [⟨"tt1", "One", none, none, none, none, none, none, none⟩,
          ⟨"tt2", "Two", none, none, none, none, none, none, none⟩]
        names := [⟨"nm1", "Lee", none, none, none⟩, ⟨"nm2", "Lee", none, none, none⟩]
        genres := [], directings := [⟨"tt1", "nm1"⟩, ⟨"tt2", "nm2"⟩], castings := []
        ratings := [] }), []⟩ .done)
    (.returns ())
    .done

theorem reports_byName_twoLees :
    ∃ v ∈ twoLees.visited (World.inMemory .empty []), Askable v ∧ v.data.Intact ∧
      (v.data.rowsOf .names).map (directingsOf v.data) = [1, 1] ∧
      ∃ directors : List (String × Nat), ("Lee", 2) ∈ directors ∧
        moviesByDirector.Reports v (directors.map countCells) := by
  let v := (twoLees.act.on (World.inMemory .empty [])).2
  have hv : v ∈ twoLees.visited (World.inMemory .empty []) := Course.act_mem_visited _ _
  have hdeclared : twoLees.IsDeclared := List.forall_mem_singleton.2 trivial
  have hintact : v.data.Intact := (Course.lawful_of_mem_visited hdeclared rfl rfl hv).intact
  have hw : Askable v := ⟨by decide +kernel, by decide +kernel, by decide +kernel⟩
  have hones : (v.data.rowsOf .names).map (directingsOf v.data) = [1, 1] := by decide +kernel
  have htwo : 2 = byName v.data (directingsOf v.data) "Lee" ∧ 0 < 2 := by decide +kernel
  obtain ⟨directors, hcounts, hreports⟩ := (reports_byName hw hintact).1
  exact ⟨v, hv, hw, hintact, hones, directors, (hcounts.ranks.mem "Lee" 2).2 htwo, hreports⟩

end FilmReport.Query.People
