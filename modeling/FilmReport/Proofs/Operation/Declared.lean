import FilmReport.Proofs.Dataset.Declared
import FilmReport.Proofs.Operation.Statements

/-!
Requests whose inputs have the declared types. Whatever such a request does, it leaves a lawful
store lawful, it takes no number of a run but for a run, and no movie goes away unless movies are
deleted.
-/

set_option autoImplicit false
set_option relaxedAutoImplicit false

namespace FilmReport

open Dataset Normalize Store Act

/-- Rows beside which there are numbers for `n` more runs. -/
def Table.LeavesRoom (n : Nat) : (t : Table) → t.Row → Prop
  | .normalizationRuns, r => r.id + n < 2 ^ 63
  | .sequences, q => 0 ≤ q.last.toWhole ∧ q.last.toWhole + n < 2 ^ 63
  | _, _ => True

/-- There are numbers for `n` more runs. -/
structure Store.HasRoom (n : Nat) (s : Store) : Prop where
  room : n < 2 ^ 63
  rows : s.RowsMeet (Table.LeavesRoom n)

section room

variable {n : Nat} {s s' : Store}

theorem Store.HasRoom.mono {m : Nat} (h : s.HasRoom n) (hm : m ≤ n) : s.HasRoom m where
  room := by
    have := h.room
    omega
  rows t row hrow := by
    have hroom := h.rows t row hrow
    cases t with
    | normalizationRuns =>
      rw [Table.LeavesRoom] at hroom ⊢
      omega
    | sequences =>
      rw [Table.LeavesRoom] at hroom ⊢
      omega
    | _ => trivial

theorem hasRoom_empty (h : n < 2 ^ 63) : Store.empty.HasRoom n :=
  ⟨h, rowsMeet_empty⟩

theorem lastGiven_le (h : s.HasRoom (n + 1)) :
    0 ≤ s.lastGiven .normalizationRuns ∧ s.lastGiven .normalizationRuns + (n + 1) < 2 ^ 63 := by
  have hroom := h.room
  rw [lastGiven]
  split
  · next row hfind =>
    have hmem := List.mem_of_find?_eq_some hfind
    have hrow := h.rows .sequences row.row (List.mem_map_of_mem hmem)
    rw [Table.LeavesRoom] at hrow
    exact_mod_cast hrow
  · exact ⟨Int.le_refl 0, by omega⟩

/-- The number of the next run leaves room for one run less. -/
theorem runNumber_lt (h : s.HasRoom (n + 1)) : 0 < runNumber s ∧ runNumber s + n < 2 ^ 63 := by
  obtain ⟨hfrom, hto⟩ := lastGiven_le h
  have hroom := h.room
  have hgreater := given_lt_nextRun (s.lastGiven .normalizationRuns) (s.rowsOf .normalizationRuns)
  have hrows : ∀ row ∈ s.rowsOf .normalizationRuns, row.id ≤ 2 ^ 63 - (n + 1) - 1 := by
    intro row hrow
    have hrow := h.rows .normalizationRuns row hrow
    rw [Table.LeavesRoom] at hrow
    push_cast at hrow
    omega
  have hnext : nextRun (s.lastGiven .normalizationRuns) (s.rowsOf .normalizationRuns) ≤
      2 ^ 63 - (n + 1) - 1 + 1 := nextRun_le (by omega) hrows fun _ => by omega
  rw [runNumber]
  omega

theorem hasNumber_of_hasRoom (h : s.HasRoom (n + 1)) : HasNumber s := by
  intro _
  obtain ⟨hfrom, hto⟩ := runNumber_lt h
  rw [Cell.isStorable, Bool.and_eq_true, decide_eq_true_eq, decide_eq_true_eq]
  omega

theorem hasRoom_of_addRun {r : RunRecord} {id : Int} (h : s.HasRoom (n + 1))
    (hadd : addRun r s = .ok (id, s')) : s'.HasRoom n := by
  obtain ⟨hfrom, hto⟩ := runNumber_lt h
  have hless : s.HasRoom n := h.mono (Nat.le_succ n)
  obtain ⟨rows, hrows, hadd⟩ := exists_of_bind hadd
  obtain ⟨numbered, hget, rfl⟩ := rows?_eq_ok.1 hrows
  dsimp only at hadd
  split at hadd
  · obtain ⟨after, hafter, hadd⟩ := exists_of_bind hadd
    obtain ⟨-, rfl⟩ := Prod.mk.inj (Except.ok.inj hadd)
    rw [← rowsOf_of_eq_some hget] at hafter ⊢
    have hrow : Table.normalizationRuns.LeavesRoom n (r.row (runNumber s)) := hto
    have hinsert := hless.rows.insert hrow (fun f hf => by cases hf) hafter
    exact ⟨hless.room, hinsert.giveLast ⟨hfrom.le, hto⟩⟩
  · cases hadd

end room

namespace Statement

variable {st : Statement}

/-- A statement that writes values of the declared types. -/
def IsDeclared : Statement → Prop
  | write kind cells => kind.Holds cells
  | rule r => r.table = "movie" ∨ r.table = "ratings"
  | _ => True

/-- A statement that deletes no movies. -/
def SparesMovies : Statement → Prop
  | clear t => t ≠ .movie
  | delete t _ _ => t ≠ .movie
  | _ => True

theorem named?_of_declared {r : Rule} (h : r.table = "movie" ∨ r.table = "ratings") {t : Table}
    (ht : named? .notModifiable r.table = .ok t) : t = .movie ∨ t = .ratings := by
  rcases h with h | h <;> rw [h] at ht
  · exact Or.inl (Except.ok.inj (ht.symm.trans (named?_name _ .movie)))
  · exact Or.inr (Except.ok.inj (ht.symm.trans (named?_name _ .ratings)))

theorem isSolid_sentinel (r : Rule) : r.sentinel.IsSolid := by
  rw [Rule.sentinel]
  split
  · exact ⟨by decide, by decide, by decide⟩
  · exact ⟨by decide, by decide, by decide⟩

theorem meets_refuse {P : (t : Table) → t.Row → Prop} {t : Table} {row : t.Row} (h : P t row) :
    (Change.insert t .refuse row).KeepsKeys ∧ (Change.insert t .refuse row).Meets P :=
  ⟨fun _ hf => (by cases hf), h, fun _ hf => (by cases hf)⟩

/-- What is staged has positions, so what is published has them, too. -/
theorem lawful_of_uses (h : st.IsDeclared) {s : Store} (hs : s.RowsMeet Table.IsTypedRow)
    {c : Change} (hc : st.Uses s c) : c.KeepsKeys ∧ c.Meets Table.IsTypedRow := by
  cases st with
  | write kind cells =>
    obtain ⟨row, hrow, rfl⟩ := hc
    obtain ⟨types, hkind, hcells⟩ := h
    exact ⟨RowKind.keepsKeys hkind row, RowKind.Holds.isTyped ⟨types, hkind, hcells⟩ hrow⟩
  | stage kind staged =>
    obtain ⟨m, -, rfl⟩ := hc
    cases kind <;> exact meets_refuse ⟨m.position, rfl⟩
  | publish kind =>
    obtain ⟨rows, hrows, row, hrow, rfl⟩ := hc
    cases kind with
    | country =>
      obtain ⟨numbered, hget, rfl⟩ := rows?_eq_ok.1 hrows
      rw [← rowsOf_of_eq_some hget] at hrow
      exact meets_refuse (t := .movieCountry) (hs .stagedCountry row hrow)
    | language =>
      obtain ⟨numbered, hget, rfl⟩ := rows?_eq_ok.1 hrows
      rw [← rowsOf_of_eq_some hget] at hrow
      exact meets_refuse (t := .movieLanguage) (hs .stagedLanguage row hrow)
  | rule r =>
    obtain ⟨t, ht, rfl⟩ := hc
    refine ⟨trivial, ?_⟩
    obtain rfl | rfl := named?_of_declared h ht
    · exact Change.keepsTyped_movie (isSolid_sentinel r)
    · exact Change.keepsTyped_ratings (isSolid_sentinel r)
  | record r =>
    obtain ⟨id, rfl⟩ | ⟨id, rfl⟩ := hc
    · exact meets_refuse trivial
    · exact ⟨trivial, trivial⟩
  | recordStep row =>
    obtain rfl := hc
    exact meets_refuse trivial
  | amounts =>
    obtain rfl := hc
    exact ⟨trivial, fun m hm => hm⟩
  | migrate m => obtain rfl | ⟨t, rfl⟩ := hc <;> exact ⟨trivial, trivial⟩
  | clear t =>
    obtain rfl := hc
    exact ⟨trivial, trivial⟩
  | delete t column value =>
    obtain rfl := hc
    exact ⟨trivial, trivial⟩
  | keepSteps =>
    obtain rfl := hc
    exact ⟨trivial, trivial⟩

theorem preserves_lawful (h : st.IsDeclared) : st.Preserves Lawful := by
  refine preserves_of_uses fun s c hs hc => ?_
  obtain ⟨hkeys, htyped⟩ := lawful_of_uses h hs.typed hc
  exact Change.preserves_lawful hkeys htyped

theorem sparesMovies_of_uses (h : st.SparesMovies) {s : Store} {c : Change} (hc : st.Uses s c) :
    c.SparesMovies := by
  cases c with
  | delete t which =>
    cases st with
    | clear u =>
      obtain ⟨rfl, -⟩ := Change.delete.inj hc
      exact h
    | delete u column value =>
      obtain ⟨rfl, -⟩ := Change.delete.inj hc
      exact h
    | stage kind staged =>
      obtain ⟨m, -, hc⟩ := hc
      cases kind <;> cases hc
    | publish kind =>
      obtain ⟨rows, -, row, -, hc⟩ := hc
      cases kind <;> cases hc
    | _ => simp [Uses] at hc
  | _ => trivial

/-- No movie goes away unless movies are deleted, and none is renamed. -/
theorem preserves_mem_identifiers (h : st.IsDeclared) (hmovies : st.SparesMovies) (id : String) :
    st.Preserves fun s => s.Lawful ∧ id ∈ s.identifiers .movie := by
  refine preserves_of_uses (I := fun s => s.Lawful ∧ id ∈ s.identifiers .movie)
    fun s c hs hc => ?_
  obtain ⟨hkeys, htyped⟩ := lawful_of_uses h hs.1.typed hc
  intro s₁ s₂ hs₁ hs₂
  exact ⟨Change.preserves_lawful hkeys htyped hs₁.1 hs₂,
    Change.preserves_mem_identifiers hkeys (sparesMovies_of_uses hmovies hc) id hs₁.2 hs₂⟩

theorem leavesRoom_of_declared {kind : RowKind} {types : List FieldType}
    (hkind : (kind, types) ∈ declared) (n : Nat) (row : kind.table.Row) :
    kind.table.LeavesRoom n row := by
  simp only [declared, List.mem_cons, List.not_mem_nil, or_false, Prod.mk.injEq] at hkind
  rcases hkind with ⟨rfl, -⟩ | ⟨rfl, -⟩ | ⟨rfl, -⟩ | ⟨rfl, -⟩ | ⟨rfl, -⟩ | ⟨rfl, -⟩ <;> trivial

/-- Only records of runs take numbers of runs. -/
theorem preserves_hasRoom (h : st.IsDeclared) (hrecord : ∀ r, st ≠ .record r) (n : Nat) :
    st.Preserves (HasRoom n) := by
  have hmeets : ∀ s c, st.Uses s c → c.Meets (Table.LeavesRoom n) := by
    intro s c hc
    cases st with
    | write kind cells =>
      obtain ⟨row, hrow, rfl⟩ := hc
      obtain ⟨types, hkind, -⟩ := h
      have hroom := leavesRoom_of_declared hkind n
      exact ⟨hroom row, fun f _ old new _ _ => hroom (f old new)⟩
    | stage kind staged =>
      obtain ⟨m, -, rfl⟩ := hc
      cases kind <;> exact (meets_refuse trivial).2
    | publish kind =>
      obtain ⟨rows, -, row, -, rfl⟩ := hc
      cases kind <;> exact (meets_refuse trivial).2
    | rule r =>
      obtain ⟨t, ht, rfl⟩ := hc
      obtain rfl | rfl := named?_of_declared h ht <;> exact fun _ _ _ _ _ _ _ _ _ => trivial
    | record r => exact absurd rfl (hrecord r)
    | recordStep row =>
      obtain rfl := hc
      exact (meets_refuse trivial).2
    | amounts =>
      obtain rfl := hc
      exact fun _ _ => trivial
    | migrate m => obtain rfl | ⟨t, rfl⟩ := hc <;> trivial
    | clear t =>
      obtain rfl := hc
      trivial
    | delete t column value =>
      obtain rfl := hc
      trivial
    | keepSteps =>
      obtain rfl := hc
      trivial
  have hrows : st.Preserves (RowsMeet (Table.LeavesRoom n)) :=
    preserves_of_uses fun s c _ hc => Change.preserves_rowsMeet (hmeets s c hc)
  intro s s' hs hs'
  exact ⟨hs.room, hrows hs.rows hs'⟩

theorem records_hasRoom (n : Nat) : Records (HasRoom (n + 1)) (HasRoom n) := by
  intro r s s' hs hs'
  obtain ⟨id, hadd⟩ := exists_of_map_snd hs'
  exact hasRoom_of_addRun hs hadd

/-- A statement of declared inputs that neither deletes movies nor records a run. -/
structure IsPlain (st : Statement) : Prop where
  declared : st.IsDeclared
  sparesMovies : st.SparesMovies
  recordless : ∀ r, st ≠ .record r

end Statement

namespace Request

variable {request : Request} {st : Statement}

/-- A request whose inputs have the declared types. -/
def IsDeclared : Request → Prop
  | operation (.write kind given) => ∀ input ∈ itemsOf given, kind.Declares input
  | operation (.standardize _ rules) =>
    ∀ r ∈ rulesOf rules, r.table = "movie" ∨ r.table = "ratings"
  | _ => True

/-- The runs that a request records at most. -/
def runs : Request → Nat
  | normalize _ _ => 1
  | _ => 0

/-- A request that deletes no movies. -/
def SparesMovies : Request → Prop
  | delete t _ _ => t ≠ .movie
  | _ => True

theorem isPlain_of_writes {kind : RowKind} {input : Json} (h : kind.Declares input)
    (hst : st.Writes kind input) : st.IsPlain := by
  obtain ⟨cells, hcells, rfl⟩ := hst
  obtain ⟨cells', hcells', hholds⟩ := h.exists_cells
  rw [Except.ok.inj (hcells.symm.trans hcells')]
  exact ⟨hholds, trivial, fun r => Statement.noConfusion⟩

theorem isPlain_of_stages {kind : MembershipKind} (hst : st.Stages kind ∨ st.Publishes kind) :
    st.IsPlain := by
  have hstaging : kind.staging ≠ .movie := by cases kind <;> decide
  have hpublished : kind.published ≠ .movie := by cases kind <;> decide
  rcases hst with (rfl | ⟨staged, rfl⟩) | rfl | rfl | rfl
  · exact ⟨trivial, hstaging, fun r => Statement.noConfusion⟩
  · exact ⟨trivial, trivial, fun r => Statement.noConfusion⟩
  · exact ⟨trivial, hpublished, fun r => Statement.noConfusion⟩
  · exact ⟨trivial, trivial, fun r => Statement.noConfusion⟩
  · exact ⟨trivial, hstaging, fun r => Statement.noConfusion⟩

theorem isPlain_of_rule {r : Rule} (h : r.table = "movie" ∨ r.table = "ratings") :
    (Statement.rule r).IsPlain :=
  ⟨h, trivial, fun _ => Statement.noConfusion⟩

theorem isPlain_of_normalizes (hst : st.Normalizes) : st.IsPlain := by
  obtain rfl | ⟨kind, hst⟩ | ⟨r, hr, rfl⟩ := hst
  · exact ⟨trivial, trivial, fun r => Statement.noConfusion⟩
  · exact isPlain_of_stages hst
  · have hstandard : ∀ r ∈ Rule.standard, r.table = "movie" ∨ r.table = "ratings" := by decide
    exact isPlain_of_rule (hstandard r hr)

/-- The statements of a request with declared inputs, deletions and records of runs apart. -/
theorem isPlain_of_issues (h : request.IsDeclared) (hst : request.Issues st) :
    st.IsPlain ∨ (∃ t column value, request = .delete t column value ∧
      st = .delete t column value) ∨ request.runs = 1 ∧ ∃ r, st = .record r := by
  cases request with
  | operation op =>
    refine Or.inl ?_
    cases op with
    | write kind given =>
      obtain ⟨input, hinput, hst⟩ := hst
      exact isPlain_of_writes (h input hinput) hst
    | seed d =>
      obtain ⟨rows, hrows, fields, hfields, hst⟩ := hst
      exact isPlain_of_writes (declares_of_mem_rowsOf d rows hrows fields hfields) hst
    | coerce logger =>
      obtain rfl := hst
      exact ⟨trivial, trivial, fun r => Statement.noConfusion⟩
    | stage asked options =>
      obtain ⟨kind, -, hst⟩ := hst
      exact isPlain_of_stages (Or.inl hst)
    | publish asked =>
      obtain ⟨kind, -, hst⟩ := hst
      exact isPlain_of_stages (Or.inr hst)
    | standardize logger rules =>
      obtain ⟨r, hr, rfl⟩ := hst
      exact isPlain_of_rule (h r hr)
  | rebuild logger asked given =>
    obtain ⟨kind, -, hst⟩ := hst
    exact Or.inl (isPlain_of_stages hst)
  | normalize logger given =>
    exact hst.imp isPlain_of_normalizes fun hrecord => Or.inr ⟨rfl, hrecord⟩
  | delete t column value => exact Or.inr (Or.inl ⟨t, column, value, rfl, hst⟩)

theorem keeps_lawful (h : request.IsDeclared) : Keeps Lawful request.act := by
  refine Request.keeps fun st hst => Statement.preserves_lawful ?_
  obtain hplain | ⟨t, column, value, -, rfl⟩ | ⟨-, r, rfl⟩ := isPlain_of_issues h hst
  · exact hplain.declared
  · trivial
  · trivial

/-- A request that deletes no movies leaves all of them, under their identifiers. -/
theorem keeps_mem_identifiers (h : request.IsDeclared) (hmovies : request.SparesMovies)
    (id : String) : Keeps (fun s => s.Lawful ∧ id ∈ s.identifiers .movie) request.act := by
  refine Request.keeps fun st hst => ?_
  have hst : st.IsDeclared ∧ st.SparesMovies := by
    obtain hplain | ⟨t, column, value, rfl, rfl⟩ | ⟨-, r, rfl⟩ := isPlain_of_issues h hst
    · exact ⟨hplain.declared, hplain.sparesMovies⟩
    · exact ⟨trivial, hmovies⟩
    · exact ⟨trivial, trivial⟩
  exact Statement.preserves_mem_identifiers hst.1 hst.2 id

theorem keepsTo_hasRoom (h : request.IsDeclared) (n : Nat) :
    KeepsTo (HasRoom (request.runs + n)) (HasRoom n) request.act := by
  have hplain : request.runs = 0 → Keeps (HasRoom n) request.act := by
    intro hruns
    refine Request.keeps fun st hst => ?_
    have hst : st.IsDeclared ∧ ∀ r, st ≠ .record r := by
      obtain hplain | ⟨t, column, value, -, rfl⟩ | ⟨hone, -⟩ := isPlain_of_issues h hst
      · exact ⟨hplain.declared, hplain.recordless⟩
      · exact ⟨trivial, fun r => Statement.noConfusion⟩
      · exact absurd (hruns.symm.trans hone) Nat.zero_ne_one
    exact Statement.preserves_hasRoom hst.1 hst.2 n
  cases request with
  | normalize logger given =>
    have hmono : ∀ s, HasRoom (n + 1) s → HasRoom n s := fun s hs => hs.mono (Nat.le_succ n)
    have hrun := keepsTo_run hmono (Statement.records_hasRoom n) (fun st hst =>
      have hplain := isPlain_of_normalizes hst
      Statement.preserves_hasRoom hplain.declared hplain.recordless (n + 1)) logger given
    rw [show (normalize logger given).runs + n = n + 1 from Nat.add_comm 1 n]
    exact hrun.bind (fun _ => Keeps.pure _) fun _ hs => hs
  | _ =>
    change KeepsTo (HasRoom (0 + n)) (HasRoom n) _
    rw [Nat.zero_add]
    exact hplain rfl

/-- A request is orderly where there are numbers for its runs. -/
theorem orderly_of_hasRoom (request : Request) (n : Nat) :
    OrderlyFrom (HasRoom (request.runs + n)) request.act := by
  refine request.orderly.mono fun s hs => ?_
  cases request with
  | normalize logger given =>
    exact hasNumber_of_hasRoom (n := n) (Nat.add_comm 1 n ▸ hs)
  | _ => trivial

end Request

theorem Migration.isPlain_of_issues {st : Statement} (h : Migration.Issues st) : st.IsPlain := by
  obtain rfl | ⟨m, rfl⟩ | ⟨row, rfl⟩ := h <;>
    exact ⟨trivial, trivial, fun r => Statement.noConfusion⟩

end FilmReport
