import FilmReport.Proofs.Store.Consistent

/-!
The tables of memberships under their kinds: what is staged and what is published, clearing,
staging and publishing. Rows can be inserted one after the other just if no two of them share a key
and each meets the conditions and the references of its table; so memberships that can be staged can
be published just if all their movies are there (`Store.publishable_iff`).
-/

set_option autoImplicit false
set_option relaxedAutoImplicit false

namespace FilmReport.Store

/-- What is staged of a kind. -/
def stagedOf (s : Store) : MembershipKind → Option (List (Numbered MembershipRow))
  | .country => s.stagedCountry
  | .language => s.stagedLanguage

/-- What is published of a kind. -/
def publishedOf (s : Store) : MembershipKind → Option (List (Numbered MembershipRow))
  | .country => s.movieCountry
  | .language => s.movieLanguage

def withStaged (s : Store) (rows : List (Numbered MembershipRow)) : MembershipKind → Store
  | .country => { s with stagedCountry := some rows }
  | .language => { s with stagedLanguage := some rows }

def withPublished (s : Store) (rows : List (Numbered MembershipRow)) : MembershipKind → Store
  | .country => { s with movieCountry := some rows }
  | .language => { s with movieLanguage := some rows }

/-- Rows that can be staged where nothing is staged. -/
def Stageable (s : Store) (rows : List MembershipRow) : MembershipKind → Prop
  | .country => s.AdmitsAll .stagedCountry [] rows
  | .language => s.AdmitsAll .stagedLanguage [] rows

/-- Rows that can be published where nothing is published. -/
def Publishable (s : Store) (rows : List MembershipRow) : MembershipKind → Prop
  | .country => s.AdmitsAll .movieCountry [] rows
  | .language => s.AdmitsAll .movieLanguage [] rows

/-- Clearing a table to which no other refers. -/
theorem clear_eq_ok {t : Table} (hchildren : childrenOf t = []) {s s' : Store} {n : Nat} :
    (s.clear t).result = .ok (n, s') ↔ ∃ rows, s.get t = some rows ∧
      s.parentsPresent t = .ok () ∧ n = rows.length ∧ s' = s.put t (some []) := by
  have hdeletable : s.deletable t = s.parentsPresent t := by
    rw [deletable, hchildren]
    cases s.parentsPresent t with
    | error e => rfl
    | ok u => rfl
  have hnone : ∀ rows : List (Numbered t.Row), (rows.filter fun _ => !true) = [] :=
    fun rows => List.filter_eq_nil_iff.2 fun row _ => by simp
  change s.delete t (everyRow t) = _ ↔ _
  constructor
  · intro h
    obtain ⟨rows, hrows, h⟩ := exists_of_bind h
    obtain ⟨selects, hselects, h⟩ := exists_of_bind h
    obtain ⟨⟨⟩, hparents, h⟩ := exists_of_bind h
    obtain rfl := Except.ok.inj hselects
    obtain ⟨hn, hs'⟩ := Prod.mk.inj (Except.ok.inj h)
    refine ⟨rows, get_of_numbered? hrows, hdeletable ▸ hparents, ?_, ?_⟩
    · rw [← hn]
      simp
    · rw [← hs', hchildren, hnone]
      rfl
  · rintro ⟨rows, hrows, hparents, rfl, rfl⟩
    have hnumbered : s.numbered? t = .ok rows := by rw [numbered?, hrows]
    rw [delete, hnumbered]
    change (s.deletable t >>= fun _ => _) = _
    rw [hdeletable, hparents]
    change Except.ok (_, (childrenOf t).foldl _ (s.put t (some (rows.filter fun _ => !true)))) = _
    rw [hchildren, hnone]
    simp

theorem clear_staged_eq_ok {kind : MembershipKind} {s s' : Store} {n : Nat} :
    (s.clear kind.staging).result = .ok (n, s') ↔ ∃ old, s.stagedOf kind = some old ∧
      n = old.length ∧ s' = s.withStaged [] kind := by
  cases kind with
  | country =>
    refine (clear_eq_ok (t := .stagedCountry) (by decide)).trans ?_
    exact exists_congr fun old => and_congr_right fun _ => and_iff_right rfl
  | language =>
    refine (clear_eq_ok (t := .stagedLanguage) (by decide)).trans ?_
    exact exists_congr fun old => and_congr_right fun _ => and_iff_right rfl

theorem parentsPresent_of_references {s : Store} {t : Table} {ref : Reference t.Row}
    (h : (layout t).references = [ref]) :
    s.parentsPresent t = .ok () ↔ s.has ref.parent = true := by
  rw [parentsPresent, h, List.find?_singleton]
  cases s.has ref.parent with
  | true => exact ⟨fun _ => rfl, fun _ => rfl⟩
  | false => constructor <;> intro h <;> cases h

theorem parentsPresent_published {s : Store} (kind : MembershipKind) :
    s.parentsPresent kind.published = .ok () ↔ s.movie.isSome := by
  cases kind with
  | country => exact parentsPresent_of_references (t := .movieCountry) rfl
  | language => exact parentsPresent_of_references (t := .movieLanguage) rfl

theorem clear_published_eq_ok {kind : MembershipKind} {s s' : Store} {n : Nat} :
    (s.clear kind.published).result = .ok (n, s') ↔ ∃ old, s.publishedOf kind = some old ∧
      s.movie.isSome ∧ n = old.length ∧ s' = s.withPublished [] kind := by
  have hparents := parentsPresent_published (s := s) kind
  cases kind with
  | country =>
    rw [← hparents]
    exact clear_eq_ok (t := .movieCountry) (by decide)
  | language =>
    rw [← hparents]
    exact clear_eq_ok (t := .movieLanguage) (by decide)

theorem stageable_withStaged {kind : MembershipKind} {s : Store} {rows : List MembershipRow}
    (old : List (Numbered MembershipRow)) :
    (s.withStaged old kind).Stageable rows kind ↔ s.Stageable rows kind := by
  cases kind with
  | country =>
    have h := SameParents.put .stagedCountry s (some old)
    exact ⟨h.symm.admitsAll, h.admitsAll⟩
  | language =>
    have h := SameParents.put .stagedLanguage s (some old)
    exact ⟨h.symm.admitsAll, h.admitsAll⟩

theorem stagedOf_withStaged (kind : MembershipKind) (s : Store)
    (rows : List (Numbered MembershipRow)) :
    (s.withStaged rows kind).stagedOf kind = some rows := by
  cases kind <;> rfl

theorem withStaged_withStaged (kind : MembershipKind) (s : Store)
    (rows rows' : List (Numbered MembershipRow)) :
    (s.withStaged rows kind).withStaged rows' kind = s.withStaged rows' kind := by
  cases kind <;> rfl

theorem publishable_withPublished {kind : MembershipKind} {s : Store} {rows : List MembershipRow}
    (old : List (Numbered MembershipRow)) :
    (s.withPublished old kind).Publishable rows kind ↔ s.Publishable rows kind := by
  cases kind with
  | country =>
    have h := SameParents.put .movieCountry s (some old)
    exact ⟨h.symm.admitsAll, h.admitsAll⟩
  | language =>
    have h := SameParents.put .movieLanguage s (some old)
    exact ⟨h.symm.admitsAll, h.admitsAll⟩

theorem publishedOf_withPublished (kind : MembershipKind) (s : Store)
    (rows : List (Numbered MembershipRow)) :
    (s.withPublished rows kind).publishedOf kind = some rows := by
  cases kind <;> rfl

theorem stagedOf_withPublished (kind : MembershipKind) (s : Store)
    (rows : List (Numbered MembershipRow)) :
    (s.withPublished rows kind).stagedOf kind = s.stagedOf kind := by
  cases kind <;> rfl

theorem movie_withPublished (kind : MembershipKind) (s : Store)
    (rows : List (Numbered MembershipRow)) : (s.withPublished rows kind).movie = s.movie := by
  cases kind <;> rfl

theorem withPublished_withPublished (kind : MembershipKind) (s : Store)
    (rows rows' : List (Numbered MembershipRow)) :
    (s.withPublished rows kind).withPublished rows' kind = s.withPublished rows' kind := by
  cases kind <;> rfl

theorem publishedOf_withStaged (kind staged : MembershipKind) (s : Store)
    (rows : List (Numbered MembershipRow)) :
    (s.withStaged rows staged).publishedOf kind = s.publishedOf kind := by
  cases staged <;> cases kind <;> rfl

theorem movie_withStaged (kind : MembershipKind) (s : Store)
    (rows : List (Numbered MembershipRow)) : (s.withStaged rows kind).movie = s.movie := by
  cases kind <;> rfl

theorem publishable_withStaged {kind : MembershipKind} {s : Store} {rows : List MembershipRow}
    (staged : List (Numbered MembershipRow)) :
    (s.withStaged staged kind).Publishable rows kind ↔ s.Publishable rows kind := by
  have h : ∀ t : Table, SameParents t s (s.withStaged staged kind) := by
    intro t
    refine SameParents.of_get fun ref href => ?_
    have hparent : ref.parent = .movie ∨ ref.parent = .names := parent_eq t ref href
    rcases hparent with h | h <;> rw [h] <;> cases kind <;> rfl
  cases kind with
  | country => exact ⟨(h .movieCountry).symm.admitsAll, (h .movieCountry).admitsAll⟩
  | language => exact ⟨(h .movieLanguage).symm.admitsAll, (h .movieLanguage).admitsAll⟩

theorem withStaged_withPublished (kind : MembershipKind) (s : Store)
    (staged rows rows' : List (Numbered MembershipRow)) :
    ((s.withStaged staged kind).withPublished rows kind).withStaged rows' kind =
      (s.withPublished rows kind).withStaged rows' kind := by
  cases kind <;> rfl

/-- Staging rows where nothing is staged. -/
theorem stageRows_eq_ok {kind : MembershipKind} {s s' : Store} {rows : List MembershipRow}
    (hold : s.stagedOf kind = some []) :
    rows.foldlM (fun acc row => acc.stageRow row kind) s = .ok s' ↔
      s.Stageable rows kind ∧ s' = s.withStaged (numberedFrom 1 rows) kind := by
  cases kind with
  | country => exact insertAll_eq_ok (t := .stagedCountry) hold
  | language => exact insertAll_eq_ok (t := .stagedLanguage) hold

/-- Publishing rows where nothing is published. -/
theorem publishRows_eq_ok {kind : MembershipKind} {s s' : Store} {rows : List MembershipRow}
    (hold : s.publishedOf kind = some []) :
    rows.foldlM (fun acc row => acc.publishRow row kind) s = .ok s' ↔
      s.Publishable rows kind ∧ s' = s.withPublished (numberedFrom 1 rows) kind := by
  cases kind with
  | country => exact insertAll_eq_ok (t := .movieCountry) hold
  | language => exact insertAll_eq_ok (t := .movieLanguage) hold

theorem stagedRows_eq_ok {kind : MembershipKind} {s : Store} {rows : List MembershipRow} :
    s.stagedRows kind = .ok rows ↔ ∃ numbered, s.stagedOf kind = some numbered ∧
      rows = numbered.map (·.row) := by
  cases kind with
  | country => exact rows?_eq_ok (t := .stagedCountry)
  | language => exact rows?_eq_ok (t := .stagedLanguage)

theorem publishStaged_eq_ok {kind : MembershipKind} {s s' : Store} {n : Nat}
    (hold : s.publishedOf kind = some []) :
    (s.publishStaged kind).result = .ok (n, s') ↔ ∃ staged, s.stagedOf kind = some staged ∧
      s.movie.isSome ∧ s.Publishable (byPlace (staged.map (·.row))) kind ∧ n = staged.length ∧
      s' = s.withPublished (numberedFrom 1 (byPlace (staged.map (·.row)))) kind := by
  have hpublished : ∃ rows, s.rows? kind.published = .ok rows := by
    cases kind with
    | country => exact ⟨_, rows?_eq_ok.2 ⟨[], hold, rfl⟩⟩
    | language => exact ⟨_, rows?_eq_ok.2 ⟨[], hold, rfl⟩⟩
  obtain ⟨old, hrows⟩ := hpublished
  change (s.rows? kind.published >>= fun _ => _) = _ ↔ _
  rw [hrows]
  change (s.stagedRows kind >>= fun rows => _) = _ ↔ _
  constructor
  · intro h
    obtain ⟨rows, hstaged, h⟩ := exists_of_bind h
    obtain ⟨⟨⟩, hparents, h⟩ := exists_of_bind h
    obtain ⟨after, hafter, h⟩ := exists_of_bind h
    obtain ⟨rfl, rfl⟩ := Prod.mk.inj (Except.ok.inj h)
    obtain ⟨staged, hget, rfl⟩ := stagedRows_eq_ok.1 hstaged
    obtain ⟨hpublishable, hs'⟩ := (publishRows_eq_ok hold).1 hafter
    exact ⟨staged, hget, (parentsPresent_published kind).1 hparents, hpublishable,
      List.length_map _, hs'⟩
  · rintro ⟨staged, hget, hmovie, hpublishable, rfl, rfl⟩
    rw [stagedRows_eq_ok.2 ⟨staged, hget, rfl⟩]
    change (s.parentsPresent kind.published >>= fun _ => _) = _
    rw [(parentsPresent_published kind).2 hmovie]
    change ((byPlace (staged.map (·.row))).foldlM (fun acc row => acc.publishRow row kind) s >>=
      fun after => Except.ok (_, after)) = _
    rw [(publishRows_eq_ok hold).2 ⟨hpublishable, rfl⟩, List.length_map]
    rfl

section Together

variable {s : Store} {t : Table}

/-- Rows can be inserted beside others if all of them together keep their keys apart and each new
one meets the conditions and the references. -/
theorem admitsAll_iff (hparents : s.parentsPresent t = .ok ()) {old rows : List t.Row}
    (hold : KeysApart t old) : s.AdmitsAll t old rows ↔ KeysApart t (old ++ rows) ∧
      ∀ row ∈ rows, meetsConditions t row = .ok () ∧ s.referencesHold t row = true := by
  induction rows generalizing old with
  | nil =>
    rw [List.append_nil]
    exact ⟨fun _ => ⟨hold, List.forall_mem_nil _⟩, fun _ => trivial⟩
  | cons row rest ih =>
    have happend : old ++ row :: rest = (old ++ [row]) ++ rest := by simp
    rw [AdmitsAll, List.forall_mem_cons, happend]
    have hone : KeysApart t (old ++ [row]) ↔ keysFree t old row = .ok () := by
      have hperm := List.perm_append_singleton row old
      constructor
      · exact fun h => (KeysApart.cons_iff.1 (h.perm hperm)).1
      · exact fun h => (KeysApart.cons_iff.2 ⟨h, hold⟩).perm hperm.symm
    constructor
    · rintro ⟨hadmits, hrest⟩
      obtain ⟨hkeys, hmeet⟩ := (ih (hone.2 hadmits.keys)).1 hrest
      exact ⟨hkeys, ⟨hadmits.conditions, hadmits.references⟩, hmeet⟩
    · rintro ⟨hkeys, ⟨hconditions, hreferences⟩, hmeet⟩
      have hbefore := hkeys.sublist (List.sublist_append_left _ _)
      exact ⟨⟨hparents, hconditions, hone.1 hbefore, hreferences⟩,
        (ih hbefore).2 ⟨hkeys, hmeet⟩⟩

/-- The key of memberships. -/
def placeKey : Key MembershipRow :=
  ⟨["movie_id", "position"], true, fun r => some [.text r.movieId, r.position]⟩

/-- Memberships whose places are apart and counted from 1. -/
structure WellPlaced (rows : List MembershipRow) : Prop where
  apart : rows.Pairwise fun a b => sameKey placeKey a b = false
  positions : ∀ m ∈ rows, atLeast 1 m.position = true

theorem wellPlaced_iff {rows : List MembershipRow} : WellPlaced rows ↔
    (rows.Pairwise fun a b => sameKey placeKey a b = false) ∧
      ∀ m ∈ rows, atLeast 1 m.position = true :=
  ⟨fun h => ⟨h.apart, h.positions⟩, fun h => ⟨h.1, h.2⟩⟩

theorem WellPlaced.perm {rows rows' : List MembershipRow} (h : WellPlaced rows)
    (hperm : rows.Perm rows') : WellPlaced rows' where
  apart := h.apart.perm hperm fun {a b} hab => (sameKey_comm placeKey b a).trans hab
  positions m hm := h.positions m (hperm.mem_iff.2 hm)

/-- Nothing but the places of memberships matters for staging. -/
theorem stageable_iff {kind : MembershipKind} {rows : List MembershipRow} :
    s.Stageable rows kind ↔ WellPlaced rows := by
  rw [wellPlaced_iff]
  cases kind with
  | country =>
    rw [Stageable, admitsAll_iff rfl .nil]
    simp [KeysApart, placeKey, meetsConditions_eq_ok, referencesHold_iff, layout, membershipLayout]
  | language =>
    rw [Stageable, admitsAll_iff rfl .nil]
    simp [KeysApart, placeKey, meetsConditions_eq_ok, referencesHold_iff, layout, membershipLayout]

/-- Memberships that can be staged can be published just if their movies are there. -/
theorem publishable_iff {kind : MembershipKind} {rows : List MembershipRow}
    (hmovie : s.movie.isSome) : s.Publishable rows kind ↔
      WellPlaced rows ∧ ∀ m ∈ rows, m.movieId ∈ s.identifiers .movie := by
  have hparents := (parentsPresent_published (s := s) kind).2 hmovie
  rw [wellPlaced_iff]
  cases kind with
  | country =>
    rw [Publishable, admitsAll_iff (t := .movieCountry) hparents .nil]
    simp [KeysApart, placeKey, meetsConditions_eq_ok, referencesHold_iff, layout, membershipLayout,
      movieReference, forall_and, and_assoc]
  | language =>
    rw [Publishable, admitsAll_iff (t := .movieLanguage) hparents .nil]
    simp [KeysApart, placeKey, meetsConditions_eq_ok, referencesHold_iff, layout, membershipLayout,
      movieReference, forall_and, and_assoc]

end Together
end FilmReport.Store
