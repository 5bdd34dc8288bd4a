import Mathlib.Data.List.Forall2
import FilmReport.Proofs.Shape.Checked

/-!
Checks in other words. A check reads the fields of a kind and accepts what keeps a rule
(`Describes`): the kind decides whether there is a value at all, the rule whether there are issues.
What a record or a list is made of is described by its parts. None of these checks says anything in
words of its own (`Checked.Plain`).
-/

set_option autoImplicit false
set_option relaxedAutoImplicit false

namespace FilmReport.Shape

namespace Checked

variable {α β : Type} {strict : Prop} {a : α} {b : β} {c : Checked α}

/-- What a check reads of a value, if `strict` without an issue. -/
def Reads (strict : Prop) (c : Checked α) (a : α) : Prop :=
  c.value = some a ∧ (strict → c.issues = [])

theorem reads_true : c.Reads True a ↔ c.Gives a := by
  rw [Reads, Gives, true_imp_iff, and_comm]

theorem reads_false : c.Reads False a ↔ c.value = some a := by
  rw [Reads, false_imp_iff, and_true]

@[simp]
theorem reads_valid {b : α} : (valid b).Reads strict a ↔ b = a := by
  simp [valid, Reads]

@[simp]
theorem not_reads_stop (p : Problem) : ¬ (stop p : Checked α).Reads strict a := by
  simp [stop, Reads]

@[simp]
theorem reads_flawed {problems : List Problem} {b : α} :
    (flawed problems b).Reads strict a ↔ b = a ∧ (strict → problems = []) := by
  simp [flawed, Reads]

@[simp]
theorem reads_map {f : α → β} : (c.map f).Reads strict b ↔ ∃ a, c.Reads strict a ∧ f a = b := by
  simp only [map, Reads, Option.map_eq_some_iff]
  constructor
  · rintro ⟨⟨a, ha, hb⟩, hnone⟩
    exact ⟨a, ⟨ha, hnone⟩, hb⟩
  · rintro ⟨a, ⟨ha, hnone⟩, hb⟩
    exact ⟨⟨a, ha, hb⟩, hnone⟩

@[simp]
theorem reads_within (step : Step) : (c.within step).Reads strict a ↔ c.Reads strict a := by
  simp [within, Reads]

theorem reads_and {f : Checked (α → β)} {c : Unit → Checked α} :
    (f.and c).Reads strict b ↔ ∃ g a, f.Reads strict g ∧ (c ()).Reads strict a ∧ g a = b := by
  simp only [and, Reads, List.append_eq_nil_iff, Option.bind_eq_some_iff, Option.map_eq_some_iff]
  constructor
  · rintro ⟨⟨g, hg, a, ha, rfl⟩, hnone⟩
    exact ⟨g, a, ⟨hg, fun h => (hnone h).1⟩, ⟨ha, fun h => (hnone h).2⟩, rfl⟩
  · rintro ⟨g, a, ⟨hg, hf⟩, ⟨ha, hc⟩, rfl⟩
    exact ⟨⟨g, hg, a, ha, rfl⟩, fun h => ⟨hf h, hc h⟩⟩

@[simp]
theorem reads_functor {f : α → β} : (f <$> c).Reads strict b ↔ ∃ a, c.Reads strict a ∧ f a = b :=
  reads_map

@[simp]
theorem reads_seq {f : Checked (α → β)} {c : Checked α} :
    (f <*> c).Reads strict b ↔ ∃ g a, f.Reads strict g ∧ c.Reads strict a ∧ g a = b :=
  reads_and

theorem reads_refine {more : α → List Issue} :
    (c.refine more).Reads strict a ↔ c.Reads strict a ∧ (strict → more a = []) := by
  rcases c with ⟨issues, _ | b⟩
  · simp [refine, Reads]
  · simp only [refine, Reads, List.append_eq_nil_iff, Option.some.injEq]
    constructor
    · rintro ⟨rfl, hnone⟩
      exact ⟨⟨rfl, fun h => (hnone h).1⟩, fun h => (hnone h).2⟩
    · rintro ⟨⟨rfl, hnone⟩, hmore⟩
      exact ⟨rfl, fun h => ⟨hnone h, hmore h⟩⟩

/-- The items of a list are read one by one. -/
theorem reads_items {check : Json → Checked α} : ∀ {n : Nat} {items : List Json} {as : List α},
    (Checked.items check n items).Reads strict as ↔
      List.Forall₂ (fun item a => (check item).Reads strict a) items as
  | _, [], as => by
    rw [Checked.items, reads_valid, List.forall₂_nil_left_iff, eq_comm]
  | n, item :: items, as => by
    rw [Checked.items, List.forall₂_cons_left_iff, reads_and]
    simp only [reads_items, reads_map, reads_within]
    constructor
    · rintro ⟨_, rest, ⟨a, ha, rfl⟩, hrest, rfl⟩
      exact ⟨a, rest, ha, hrest, rfl⟩
    · rintro ⟨a, rest, ha, hrest, rfl⟩
      exact ⟨_, rest, ⟨a, ha, rfl⟩, hrest, rfl⟩

end Checked

section Described

open Checked

variable {α : Type} {check : Option Json → Checked α} {kind : Option Json → α → Prop}
  {rule : α → Prop}

/-- A check that reads the fields of a kind, and accepts what keeps a rule. -/
def Describes (check : Option Json → Checked α) (kind : Option Json → α → Prop)
    (rule : α → Prop) : Prop :=
  ∀ strict field a, (check field).Reads strict a ↔ kind field a ∧ (strict → rule a)

theorem Describes.gives (h : Describes check kind rule) {field : Option Json} {a : α} :
    (check field).Gives a ↔ kind field a ∧ rule a := by
  rw [← reads_true, h, true_imp_iff]

theorem Describes.value (h : Describes check kind rule) {field : Option Json} {a : α} :
    (check field).value = some a ↔ kind field a := by
  rw [← reads_false, h, false_imp_iff, and_true]

/-- A field is read as one value at most. -/
theorem Describes.unique (h : Describes check kind rule) {field : Option Json} {a b : α}
    (ha : kind field a) (hb : kind field b) : a = b :=
  Option.some.inj ((h.value.2 ha).symm.trans (h.value.2 hb))

/-- A field that is a text. -/
def IsText (field : Option Json) (s : String) : Prop :=
  field = some (.string s)

/-- A field that is a finite number. -/
def IsNumber (field : Option Json) (q : Rat) : Prop :=
  field = some (.number (.finite q))

/-- A field that is a whole number. -/
def IsWhole (field : Option Json) (n : Int) : Prop :=
  IsNumber field n

/-- A field that is missing or `null`, or else of a kind. -/
def IsNullable (kind : Option Json → α → Prop) (field : Option Json) : Option α → Prop
  | none => field = none ∨ field = some .null
  | some a => kind field a

/-- A field that is a list, with items of a kind. -/
def IsList (kind : Option Json → α → Prop) (field : Option Json) (as : List α) : Prop :=
  ∃ items, field = some (.array items) ∧ List.Forall₂ (fun item a => kind (some item) a) items as

/-- A field that is a list with items of a kind, or is missing and stands for an empty one. -/
def IsListOrMissing (kind : Option Json → α → Prop) (field : Option Json) (as : List α) : Prop :=
  field = none ∧ as = [] ∨ IsList kind field as

/-- A field that is an object whose fields are of some kinds. -/
def IsRecord (kinds : (String → Option Json) → α → Prop) (field : Option Json) (a : α) : Prop :=
  ∃ fields, field = some (.object fields) ∧ kinds (fun name => Fields.get? name fields) a

theorem describes_text (least : Nat) :
    Describes (text least) IsText fun s => least ≤ s.length := by
  intro strict field s
  rw [IsText]
  unfold text
  split
  · next t =>
    rw [reads_flawed, Option.some_inj, Json.string.injEq, shortness]
    refine and_congr_right fun hsame => imp_congr_right fun _ => ?_
    subst hsame
    split <;> simp <;> omega
  · next hother =>
    refine iff_of_false (fun h => by cases h.1) ?_
    rintro ⟨rfl, -⟩
    exact hother s rfl

theorem describes_date : Describes date IsText fun s => Calendar.isDate s = true := by
  intro strict field s
  rw [IsText]
  unfold date
  split
  · next t =>
    rw [reads_flawed, Option.some_inj, Json.string.injEq]
    refine and_congr_right fun hsame => imp_congr_right fun _ => ?_
    subst hsame
    split <;> simp [*]
  · next hother =>
    refine iff_of_false (not_reads_stop _) ?_
    rintro ⟨rfl, -⟩
    exact hother s rfl

theorem describes_dateTime : Describes dateTime IsText fun s => Calendar.isDateTime s = true := by
  intro strict field s
  rw [IsText]
  unfold dateTime
  split
  · next t =>
    rw [reads_flawed, Option.some_inj, Json.string.injEq]
    refine and_congr_right fun hsame => imp_congr_right fun _ => ?_
    subst hsame
    split <;> simp [*]
  · next hother =>
    refine iff_of_false (not_reads_stop _) ?_
    rintro ⟨rfl, -⟩
    exact hother s rfl

theorem describes_number (range : Range) :
    Describes (number range) IsNumber fun q => range.broken q = [] := by
  intro strict field q
  rw [IsNumber]
  unfold number
  split
  · next p =>
    rw [reads_flawed, Option.some_inj, Json.number.injEq, Binary64.finite.injEq]
    refine and_congr_right fun hsame => ?_
    rw [hsame]
  · next hother =>
    refine iff_of_false (not_reads_stop _) ?_
    rintro ⟨rfl, -⟩
    exact hother q rfl

theorem describes_integer (range : Range) :
    Describes (integer range) IsWhole fun n => unsafeSize n = [] ∧ range.broken n = [] := by
  intro strict field n
  rw [IsWhole, IsNumber]
  unfold integer
  split
  · next q =>
    rw [Option.some_inj, Json.number.injEq, Binary64.finite.injEq]
    split
    · next hwhole =>
      have hq := Rat.coe_int_num_of_den_eq_one hwhole
      rw [reads_flawed, List.append_eq_nil_iff]
      constructor
      · rintro ⟨rfl, hnone⟩
        exact ⟨hq.symm, fun h => hq.symm ▸ hnone h⟩
      · rintro ⟨rfl, hnone⟩
        exact ⟨rfl, hnone⟩
    · next hfraction =>
      refine iff_of_false (not_reads_stop _) ?_
      rintro ⟨rfl, -⟩
      exact hfraction rfl
  · next hother =>
    refine iff_of_false (not_reads_stop _) ?_
    rintro ⟨rfl, -⟩
    exact hother n rfl

theorem describes_nullable (h : Describes check kind rule) (hnone : ∀ a, ¬ kind none a)
    (hnull : ∀ a, ¬ kind (some .null) a) :
    Describes (nullable check) (IsNullable kind) fun o => ∀ a ∈ o, rule a := by
  intro strict field o
  unfold nullable
  split
  · cases o <;> simp [IsNullable, hnone]
  · cases o <;> simp [IsNullable, hnull]
  · next v hv =>
    rw [reads_map]
    cases o with
    | none => simpa [IsNullable] using hv
    | some a => simp [IsNullable, h strict (some v)]

theorem forall₂_and_right {ι : Type} {R : ι → α → Prop} {p : α → Prop} {items : List ι}
    {as : List α} : List.Forall₂ (fun i a => R i a ∧ p a) items as ↔
      List.Forall₂ R items as ∧ ∀ a ∈ as, p a := by
  induction as generalizing items with
  | nil => simp
  | cons a as ih =>
    simp only [List.forall₂_cons_right_iff, ih, List.forall_mem_cons]
    constructor
    · rintro ⟨i, rest, ⟨hi, ha⟩, ⟨hrest, has⟩, rfl⟩
      exact ⟨⟨i, rest, hi, hrest, rfl⟩, ha, has⟩
    · rintro ⟨⟨i, rest, hi, hrest, rfl⟩, ha, has⟩
      exact ⟨i, rest, ⟨hi, ha⟩, ⟨hrest, has⟩, rfl⟩

theorem describes_list (h : Describes check kind rule) :
    Describes (list 0 check) (IsList kind) fun as => ∀ a ∈ as, rule a := by
  intro strict field as
  rw [IsList]
  unfold list
  split
  · next items =>
    have hshort : (shortness 0 (some (.array items))).map (fun p => (⟨[], p⟩ : Issue)) = [] := rfl
    dsimp only
    rw [hshort, List.append_nil]
    refine reads_items.trans ?_
    simp only [h _ _ _, Option.some_inj, Json.array.injEq]
    rw [forall₂_and_right, exists_eq_left']
    exact and_congr_right fun _ => ⟨fun h hs a ha => h a ha hs, fun h a ha hs => h hs a ha⟩
  · next hother =>
    refine iff_of_false (fun h => by cases h.1) ?_
    rintro ⟨⟨items, rfl, -⟩, -⟩
    exact hother items rfl

theorem describes_listOrEmpty (h : Describes check kind rule) :
    Describes (listOrEmpty check) (IsListOrMissing kind) fun as => ∀ a ∈ as, rule a := by
  intro strict field as
  unfold listOrEmpty
  split
  · rw [reads_valid, IsListOrMissing, IsList]
    constructor
    · rintro rfl
      exact ⟨.inl ⟨rfl, rfl⟩, fun _ => List.forall_mem_nil _⟩
    · rintro ⟨⟨-, rfl⟩ | ⟨items, hfield, -⟩, -⟩
      · rfl
      · cases hfield
  · next v =>
    rw [describes_list h strict (some v) as, IsListOrMissing]
    simp

theorem describes_option {listed : List α} {name : α → String} (names : List String)
    (hlisted : ∀ a, a ∈ listed) (hname : name.Injective) :
    Describes (option listed name names) (fun field a => IsText field (name a)) fun _ => True := by
  intro strict field a
  simp only [IsText, implies_true, and_true]
  unfold option
  split
  · next s =>
    rw [Option.some_inj, Json.string.injEq]
    cases hfind : listed.find? fun b => name b = s with
    | some b =>
      have hb : name b = s := by simpa using List.find?_some hfind
      rw [← hb, hname.eq_iff]
      exact reads_valid
    | none =>
      refine iff_of_false (not_reads_stop _) ?_
      rintro rfl
      exact List.find?_eq_none.1 hfind a (hlisted a) (decide_eq_true rfl)
  · next hother =>
    refine iff_of_false (not_reads_stop _) ?_
    rintro rfl
    exact hother _ rfl

theorem describes_record {check : (String → Option Json) → Checked α}
    {kinds : (String → Option Json) → α → Prop}
    (h : ∀ strict r a, (check r).Reads strict a ↔ kinds r a ∧ (strict → rule a)) :
    Describes (record check) (IsRecord kinds) rule := by
  intro strict field a
  rw [IsRecord]
  unfold record
  split
  · rw [h]
    simp
  · next hother =>
    refine iff_of_false (not_reads_stop _) ?_
    rintro ⟨⟨fields, rfl, -⟩, -⟩
    exact hother fields rfl

theorem reads_at {strict : Prop} {a : α} (name : String) (r : String → Option Json) :
    (at_ name check r).Reads strict a ↔ (check (r name)).Reads strict a :=
  reads_within _

/-- A check whose issues have no message of their own. -/
def Checked.Plain {α : Type} (c : Checked α) : Prop :=
  ∀ issue ∈ c.issues, ∀ message, issue.problem ≠ .custom message

section Plain

variable {α β : Type} {check : Option Json → Checked α} (field : Option Json)

theorem plain_of_problems {problems : List Problem} {value : Option α}
    (h : ∀ p ∈ problems, ∀ message, p ≠ .custom message) :
    Plain ⟨problems.map fun p => ⟨[], p⟩, value⟩ :=
  List.forall_mem_map.2 h

theorem plain_valid (a : α) : (valid a).Plain :=
  List.forall_mem_nil _

theorem Checked.Plain.map {c : Checked α} (h : c.Plain) (f : α → β) : (c.map f).Plain :=
  h

theorem Checked.Plain.within {c : Checked α} (h : c.Plain) (step : Step) : (c.within step).Plain :=
  List.forall_mem_map.2 h

theorem Checked.Plain.and {f : Checked (α → β)} {c : Unit → Checked α} (hf : f.Plain)
    (hc : (c ()).Plain) : (f.and c).Plain :=
  List.forall_mem_append.2 ⟨hf, hc⟩

theorem Checked.Plain.seq {f : Checked (α → β)} {c : Checked α} (hf : f.Plain) (hc : c.Plain) :
    (f <*> c).Plain :=
  hf.and hc

theorem plain_wrong (expected : String) (field : Option Json) (message : String) :
    wrong expected field ≠ .custom message :=
  Problem.noConfusion

theorem plain_stop {p : Problem} (h : ∀ message, p ≠ .custom message) :
    (stop p : Checked α).Plain :=
  List.forall_mem_singleton.2 h

theorem plain_shortness (least : Nat) (field : Option Json) :
    ∀ p ∈ shortness least field, ∀ message, p ≠ .custom message := by
  unfold shortness
  split
  · split <;> simp
  · split <;> simp
  · split <;> simp
  · exact List.forall_mem_nil _

theorem plain_broken (range : Range) (q : Rat) :
    ∀ p ∈ range.broken q, ∀ message, p ≠ .custom message := by
  rw [Range.broken, List.forall_mem_append]
  constructor
  · cases range.least with
    | none => exact List.forall_mem_nil _
    | some least =>
      dsimp only
      split <;> simp
  · cases range.most with
    | none => exact List.forall_mem_nil _
    | some most =>
      dsimp only
      split <;> simp

theorem plain_text (least : Nat) : (text least field).Plain := by
  unfold text
  split
  · exact plain_of_problems (plain_shortness least _)
  · exact plain_of_problems (List.forall_mem_cons.2 ⟨plain_wrong _ _, plain_shortness least _⟩)

theorem plain_date : (date field).Plain := by
  unfold date
  split
  · refine plain_of_problems ?_
    split <;> simp
  · exact plain_stop (plain_wrong _ _)

theorem plain_dateTime : (dateTime field).Plain := by
  unfold dateTime
  split
  · refine plain_of_problems ?_
    split <;> simp
  · exact plain_stop (plain_wrong _ _)

theorem plain_number (range : Range) : (number range field).Plain := by
  unfold number
  split
  · exact plain_of_problems (plain_broken range _)
  · exact plain_stop (plain_wrong _ _)

theorem plain_integer (range : Range) : (integer range field).Plain := by
  unfold integer
  split
  · split
    · refine plain_of_problems (List.forall_mem_append.2 ⟨?_, plain_broken range _⟩)
      unfold unsafeSize
      split
      · simp
      · split <;> simp
    · exact plain_stop fun _ => Problem.noConfusion
  · exact plain_stop (plain_wrong _ _)

theorem plain_option {listed : List α} {name : α → String} {names : List String} :
    (option listed name names field).Plain := by
  unfold option
  dsimp only
  split
  · exact plain_valid _
  · exact plain_stop fun _ => Problem.noConfusion

theorem plain_nullable (h : ∀ field, (check field).Plain) : (nullable check field).Plain := by
  unfold nullable
  split
  · exact plain_valid _
  · exact plain_valid _
  · exact (h _).map _

theorem plain_items {check : Json → Checked α} (h : ∀ item, (check item).Plain) :
    ∀ (n : Nat) (items : List Json), (Checked.items check n items).Plain
  | _, [] => plain_valid _
  | n, item :: items => (((h item).within _).map _).and (plain_items h (n + 1) items)

theorem plain_list (h : ∀ field, (check field).Plain) (least : Nat) :
    (list least check field).Plain := by
  unfold list
  split
  · refine List.forall_mem_append.2 ⟨plain_items (fun item => h _) 0 _, ?_⟩
    exact List.forall_mem_map.2 (plain_shortness least _)
  · exact plain_of_problems (List.forall_mem_cons.2 ⟨plain_wrong _ _, plain_shortness least _⟩)

theorem plain_listOrEmpty (h : ∀ field, (check field).Plain) :
    (listOrEmpty check field).Plain := by
  unfold listOrEmpty
  split
  · exact plain_valid _
  · exact plain_list _ h 0

theorem plain_record {check : (String → Option Json) → Checked α} (h : ∀ r, (check r).Plain) :
    (record check field).Plain := by
  unfold record
  split
  · exact h _
  · exact plain_stop (plain_wrong _ _)

theorem plain_at (h : ∀ field, (check field).Plain) (name : String) (r : String → Option Json) :
    (at_ name check r).Plain :=
  (h (r name)).within _

end Plain

end Described
end FilmReport.Shape
