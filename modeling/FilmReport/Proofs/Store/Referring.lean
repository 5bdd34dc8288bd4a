import FilmReport.Proofs.Store.Changes

/-!
Rows beside the rows that they refer to. In a store after all migrations a row that meets the
conditions of its table can be written just if the rows to which it refers are there: its key is
free, or it goes to the row that has it (`Store.IsMigrated.exists_insert_iff`).
-/

set_option autoImplicit false
set_option relaxedAutoImplicit false

namespace FilmReport.Store

variable {s s' : Store} {t u : Table}

theorem sameKey_iff {ρ : Type} {key : Key ρ} {a b : ρ} : sameKey key a b = true ↔
    ∃ k l, key.of a = some k ∧ key.of b = some l ∧ k.map Cell.normal = l.map Cell.normal := by
  rw [sameKey]
  cases key.of a <;> cases key.of b <;> simp

/-- Keys of texts are the same only if the texts are. -/
theorem texts_eq_of_sameKey {ρ : Type} {key : Key ρ} {texts : ρ → Option (List String)}
    (hof : ∀ row, key.of row = (texts row).map (List.map Cell.text)) {a b : ρ}
    (h : sameKey key a b = true) : texts a = texts b := by
  obtain ⟨k, l, ha, hb, hsame⟩ := sameKey_iff.1 h
  rw [hof] at ha hb
  obtain ⟨as, has, rfl⟩ := Option.map_eq_some_iff.1 ha
  obtain ⟨bs, hbs, rfl⟩ := Option.map_eq_some_iff.1 hb
  have hnormal : Cell.normal ∘ Cell.text = Cell.text := rfl
  rw [List.map_map, List.map_map, hnormal] at hsame
  have hinjective : Function.Injective Cell.text := fun _ _ => Cell.text.inj
  rw [has, hbs, hinjective.list_map hsame]

/-- A table with a single key, which tells to what a row refers and how others refer to it. -/
structure Keyed (t : Table) (key : Key t.Row) : Prop where
  keys : (layout t).keys = [key]
  references : ∀ ref ∈ (layout t).references, ∀ a b, sameKey key a b = true → ref.of a = ref.of b
  ids : ∀ a b, sameKey key a b = true → idOf t a = idOf t b

theorem Keyed.of_texts {key : Key t.Row} (texts : t.Row → Option (List String))
    (hkeys : (layout t).keys = [key])
    (hof : ∀ row, key.of row = (texts row).map (List.map Cell.text))
    (hreferences : ∀ ref ∈ (layout t).references, ∀ a b, texts a = texts b → ref.of a = ref.of b)
    (hids : ∀ a b, texts a = texts b → idOf t a = idOf t b) : Keyed t key where
  keys := hkeys
  references ref href a b h := hreferences ref href a b (texts_eq_of_sameKey hof h)
  ids a b h := hids a b (texts_eq_of_sameKey hof h)

theorem map_singleton_inj {a b : Option String}
    (h : (a.map fun s => [s]) = b.map fun s => [s]) : a = b :=
  Option.map_injective List.singleton_injective h

theorem textKey_eq (id : Option String) :
    textKey id = (id.map fun s => [s]).map (List.map .text) := by
  cases id <;> rfl

theorem pair_inj {a b c d : String} (h : some [a, b] = some [c, d]) : a = c ∧ b = d := by
  simpa using h

/-- The tables of a dataset have a single key each. -/
theorem exists_keyed (ht : t ∈ [Table.movie, .names, .genre, .directorMapping, .roleMapping,
    .ratings]) : ∃ key, Keyed t key := by
  simp only [List.mem_cons, List.not_mem_nil, or_false] at ht
  rcases ht with rfl | rfl | rfl | rfl | rfl | rfl
  · exact ⟨_, .of_texts (fun (m : MovieRow) => m.id.map fun s => [s]) rfl
      (fun m => textKey_eq m.id) (List.forall_mem_nil _) fun _ _ => map_singleton_inj⟩
  · exact ⟨_, .of_texts (fun (n : NameRow) => n.id.map fun s => [s]) rfl
      (fun n => textKey_eq n.id) (List.forall_mem_nil _) fun _ _ => map_singleton_inj⟩
  · refine ⟨_, .of_texts (fun (g : GenreRow) => some [g.movieId, g.genre]) rfl
      (fun _ => rfl) (List.forall_mem_singleton.2 fun a b h => ?_) fun _ _ _ => rfl⟩
    exact congrArg some (pair_inj h).1
  · refine ⟨_, .of_texts (fun (d : DirectorRow) => some [d.movieId, d.nameId]) rfl
      (fun _ => rfl) (List.forall_mem_cons.2 ⟨fun a b h => ?_, ?_⟩) fun _ _ _ => rfl⟩
    · exact congrArg some (pair_inj h).2
    · exact List.forall_mem_singleton.2 fun a b h => congrArg some (pair_inj h).1
  · refine ⟨_, .of_texts (fun (r : RoleRow) => some [r.movieId, r.nameId]) rfl
      (fun _ => rfl) (List.forall_mem_cons.2 ⟨fun a b h => ?_, ?_⟩) fun _ _ _ => rfl⟩
    · exact congrArg some (pair_inj h).2
    · exact List.forall_mem_singleton.2 fun a b h => congrArg some (pair_inj h).1
  · exact ⟨_, .of_texts (fun (r : RatingRow) => r.movieId.map fun s => [s]) rfl
      (fun r => textKey_eq r.movieId)
      (List.forall_mem_singleton.2 fun _ _ => map_singleton_inj) fun _ _ _ => rfl⟩

/-- A store after all migrations: every table is there, and the rows keep the keys, the conditions
and the references of their tables. -/
structure IsMigrated (s : Store) : Prop where
  tables : ∀ t, s.has t = true
  hasAmount : s.hasAmount = true
  consistent : s.Consistent

variable {key : Key t.Row} {conflict : Conflict t.Row} {row : t.Row}

theorem parentsPresent_eq_ok :
    s.parentsPresent t = .ok () ↔ ∀ ref ∈ (layout t).references, s.has ref.parent = true := by
  rw [Store.parentsPresent]
  cases hfind : (layout t).references.find? fun ref => !s.has ref.parent with
  | none => exact iff_of_true rfl (by simpa using hfind)
  | some ref =>
    have habsent := List.find?_some hfind
    refine iff_of_false (fun h => by cases h) fun h => ?_
    rw [h ref (List.mem_of_find?_eq_some hfind)] at habsent
    cases habsent

namespace IsMigrated

theorem parentsPresent (hs : s.IsMigrated) (t : Table) : s.parentsPresent t = .ok () :=
  parentsPresent_eq_ok.2 fun ref _ => hs.tables ref.parent

theorem exists_get (hs : s.IsMigrated) (t : Table) : ∃ rows, s.get t = some rows :=
  Option.isSome_iff_exists.1 (hs.tables t)

theorem insert (hs : s.IsMigrated) (hmerge : ∀ f, conflict = .merge f → Merges t f)
    (h : s.insert t conflict row = .ok s') : s'.IsMigrated where
  tables u := has_of_insert (hs.tables u) h
  hasAmount := (hasAmount_of_insert h).trans hs.hasAmount
  consistent := hs.consistent.insert hmerge h

end IsMigrated

/-- The store in which every table is there and has no rows. -/
def blank : Store where
  movie := some []
  names := some []
  genre := some []
  directorMapping := some []
  roleMapping := some []
  ratings := some []
  movieCountry := some []
  stagedCountry := some []
  movieLanguage := some []
  stagedLanguage := some []
  normalizationRuns := some []
  schemaMigrations := some []
  sequences := some []
  hasAmount := true

theorem isMigrated_blank : blank.IsMigrated where
  tables t := by cases t <;> rfl
  hasAmount := rfl
  consistent := consistent_empty.of_rowsOf fun t _ => by cases t <;> rfl

theorem Keyed.sameRow_eq (hkey : Keyed t key) (a b : t.Row) : sameRow t a b = sameKey key a b := by
  rw [sameRow, hkey.keys]

theorem Keyed.keysFree_iff (hkey : Keyed t key) {rows : List t.Row} :
    keysFree t rows row = .ok () ↔ ∀ other ∈ rows, sameRow t row other = false := by
  simp only [keysFree_eq_ok, hkey.keys, List.forall_mem_singleton, hkey.sameRow_eq]

/-- The store with a row added to those of its table, if its key is free and its references hold. -/
def append (t : Table) (numbered : List (Numbered t.Row)) (row : t.Row) (s : Store) :
    Except StoreError Store := do
  keysFree t (numbered.map (·.row)) row
  if s.referencesHold t row then
    pure (s.put t (some (numbered ++ [⟨nextNumber numbered, row⟩])))
  else throw .foreignKey

theorem insert_eq {numbered : List (Numbered t.Row)} (hget : s.get t = some numbered)
    (hparents : s.parentsPresent t = .ok ()) (hconditions : meetsConditions t row = .ok ())
    (conflict : Conflict t.Row) : s.insert t conflict row =
      match conflict with
      | .refuse => append t numbered row s
      | .keep =>
        if (numbered.map (·.row)).any (sameRow t row) then .ok s else append t numbered row s
      | .merge f =>
        match (numbered.map (·.row)).find? (sameRow t row) with
        | some old => do
          meetsConditions t (f old row)
          pure (s.put t (some (numbered.map fun n =>
            if sameRow t row n.row then { n with row := f n.row row } else n)))
        | none => append t numbered row s := by
  have hnumbered : s.numbered? t = .ok numbered := by rw [numbered?, hget]
  rw [Store.insert, hnumbered]
  change (s.parentsPresent t >>= fun _ => _) = _
  rw [hparents]
  change (meetsConditions t row >>= fun _ => _) = _
  rw [hconditions]
  rfl

/-- What any insertion needs. -/
theorem insertable_of_insert (h : s.insert t conflict row = .ok s') :
    s.has t = true ∧ s.parentsPresent t = .ok () ∧ meetsConditions t row = .ok () := by
  obtain ⟨old, hget, -⟩ := insert_cases h
  obtain ⟨_, -, h⟩ := exists_of_bind h
  obtain ⟨⟨⟩, hparents, h⟩ := exists_of_bind h
  obtain ⟨⟨⟩, hconditions, -⟩ := exists_of_bind h
  exact ⟨Option.isSome_of_eq_some hget, hparents, hconditions⟩

/-- A row goes to the row that has its key, or it is added if its references hold. -/
theorem exists_insert_iff (hkey : Keyed t key) (hthere : s.has t = true)
    (hparents : s.parentsPresent t = .ok ()) (hconditions : meetsConditions t row = .ok ())
    (hconflict : conflict ≠ .refuse) (hmerge : ∀ f, conflict = .merge f → Merges t f) :
    (∃ s', s.insert t conflict row = .ok s') ↔
      (∃ old ∈ s.rowsOf t, sameRow t row old = true) ∨ s.referencesHold t row = true := by
  obtain ⟨numbered, hget⟩ := Option.isSome_iff_exists.1 hthere
  rw [rowsOf_of_eq_some hget]
  constructor
  · rintro ⟨s', h⟩
    obtain ⟨numbered', hget', hcases⟩ := insert_cases h
    obtain rfl := Option.some.inj (hget.symm.trans hget')
    rcases hcases with ⟨hadmits, -⟩ | ⟨-, ⟨n, hn, hsame⟩, -⟩ | ⟨f, -, ⟨n, hn, hsame⟩, -⟩
    · exact Or.inr hadmits.references
    · exact Or.inl ⟨n.row, List.mem_map_of_mem hn, hsame⟩
    · exact Or.inl ⟨n.row, List.mem_map_of_mem hn, hsame⟩
  · intro h
    have happend (hnone : ∀ old ∈ numbered.map (·.row), ¬ sameRow t row old = true) :
        ∃ s', append t numbered row s = .ok s' := by
      have hholds := h.resolve_left fun ⟨old, hold, hsame⟩ => hnone old hold hsame
      rw [append, hkey.keysFree_iff.2 fun old hold => Bool.eq_false_iff.2 (hnone old hold)]
      exact ⟨_, if_pos hholds⟩
    rw [insert_eq hget hparents hconditions]
    cases conflict with
    | refuse => exact absurd rfl hconflict
    | keep =>
      dsimp only
      split
      · exact ⟨s, rfl⟩
      · next hany =>
        exact happend fun old hold hsame => hany (List.any_eq_true.2 ⟨old, hold, hsame⟩)
    | merge f =>
      dsimp only
      split
      · rw [(hmerge f rfl).conditions, hconditions]
        exact ⟨_, rfl⟩
      · next hfind => exact happend (List.find?_eq_none.1 hfind)

/-- Where all references hold, a row can be written just if those of its own do. -/
theorem IsMigrated.exists_insert_iff (hs : s.IsMigrated) (hkey : Keyed t key)
    (hconditions : meetsConditions t row = .ok ()) (hconflict : conflict ≠ .refuse)
    (hmerge : ∀ f, conflict = .merge f → Merges t f) :
    (∃ s', s.insert t conflict row = .ok s') ↔ s.referencesHold t row = true := by
  rw [Store.exists_insert_iff hkey (hs.tables t) (hs.parentsPresent t) hconditions hconflict hmerge]
  refine or_iff_right_of_imp ?_
  rintro ⟨old, hold, hsame⟩
  rw [hkey.sameRow_eq] at hsame
  have hholds := referencesHold_iff.1 (hs.consistent.references t old hold)
  refine referencesHold_iff.2 fun ref href id hid => hholds ref href id ?_
  rw [← hkey.references ref href row old hsame, hid]

/-- After a row was written, the identifiers are those before and its own. -/
theorem mem_identifiers_insert (hkey : Keyed t key)
    (hmerge : ∀ f, conflict = .merge f → Merges t f) (h : s.insert t conflict row = .ok s')
    {id : String} : id ∈ s'.identifiers u ↔
      id ∈ s.identifiers u ∨ u = t ∧ idOf t row = some id := by
  have hkept : ∀ {u id}, id ∈ s.identifiers u → id ∈ s'.identifiers u :=
    mem_identifiers_of_insert (fun f hf => (hmerge f hf).ids) h
  obtain ⟨rows, hget, hcases⟩ := insert_cases h
  have hrows := rowsOf_of_eq_some hget
  constructor
  · intro hid
    obtain ⟨after, rfl, hafter⟩ := exists_of_insert h
    obtain ⟨new, hnew, hidOf⟩ := mem_identifiers.1 hid
    by_cases hu : u = t
    · subst hu
      rw [rowsOf_put] at hnew
      obtain ⟨n, hn, rfl⟩ := List.mem_map.1 hnew
      obtain hold | hrow | ⟨f, old, hold, hf, hmerged⟩ := hafter n hn
      · exact Or.inl (mem_identifiers.2 ⟨n.row, hold, hidOf⟩)
      · exact Or.inr ⟨rfl, hrow ▸ hidOf⟩
      · rw [hmerged, (hmerge f hf).ids] at hidOf
        exact Or.inl (mem_identifiers.2 ⟨old, hold, hidOf⟩)
    · rw [rowsOf_put_of_ne s _ hu] at hnew
      exact Or.inl (mem_identifiers.2 ⟨new, hnew, hidOf⟩)
  · rintro (hid | ⟨rfl, hid⟩)
    · exact hkept hid
    have hsame : (∃ n ∈ rows, sameRow u row n.row = true) → id ∈ s'.identifiers u := by
      rintro ⟨n, hn, hsame⟩
      rw [hkey.sameRow_eq] at hsame
      refine hkept (mem_identifiers.2 ⟨n.row, hrows ▸ List.mem_map_of_mem hn, ?_⟩)
      rw [← hkey.ids _ _ hsame, hid]
    rcases hcases with ⟨-, rfl⟩ | ⟨-, hthere, -⟩ | ⟨f, -, hthere, -⟩
    · rw [mem_identifiers, rowsOf_put]
      exact ⟨row, List.mem_map.2 ⟨_, List.mem_append_right _ (List.mem_singleton_self _), rfl⟩, hid⟩
    · exact hsame hthere
    · exact hsame hthere

end FilmReport.Store
