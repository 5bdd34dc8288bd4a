import FilmReport.Proofs.Normalize.Again
import FilmReport.Proofs.Normalize.Amount
import FilmReport.Proofs.Normalize.Failure
import FilmReport.Proofs.Store.Columns

/-!
Standardization and rebuilding in either order. A text that is blank for one of them is blank for
the other, though they find its blank edges in different ways; so what standardization leaves of a
text means the same amount and has the same memberships as the text itself, and a rebuild before it
and one after it leave the same tables (`rebuild_standardize_comm`).
-/

set_option autoImplicit false
set_option relaxedAutoImplicit false

namespace FilmReport

namespace Text

/-- Space, tab, line feed and carriage return by their codes. -/
def blankCodes : List Char := [Char.ofNat 32, Char.ofNat 9, Char.ofNat 10, Char.ofNat 13]

/-- A text without those of the given characters that stand at its two ends. -/
def trimOf (cut : List Char) (s : String) : String :=
  trimWith cut.contains s

theorem trimOf_blankCodes (s : String) : trimOf blankCodes s = trimBlank s := by
  refine congrArg (trimWith · s) (funext fun c => ?_)
  rw [Bool.eq_iff_iff]
  simp [isBlank, blankCodes, or_assoc]

/-- A sweep from the left that goes on to the first place from which on everything satisfies `p`,
and leaves out what is there. -/
def sweepEnd (p : Char → Bool) : List Char → List Char
  | [] => []
  | c :: cs => if (c :: cs).all p then [] else c :: sweepEnd p cs

/-- A sweep that leaves out what satisfies `p`, first where the list begins and then where it ends
with it. -/
def sweepEdges (p : Char → Bool) (cs : List Char) : List Char :=
  sweepEnd p (cs.dropWhile p)

theorem sweepEnd_of_all {p : Char → Bool} {cs : List Char} (h : ∀ c ∈ cs, p c = true) :
    sweepEnd p cs = [] := by
  cases cs with
  | nil => rfl
  | cons c cs => rw [sweepEnd, if_pos (List.all_eq_true.2 h)]

theorem sweepEnd_append {p : Char → Bool} {core right : List Char}
    (hlast : ∀ c, core.getLast? = some c → p c = false) (hright : ∀ c ∈ right, p c = true) :
    sweepEnd p (core ++ right) = core := by
  induction core with
  | nil => exact sweepEnd_of_all hright
  | cons c core ih =>
    have hmore : ¬ ((c :: core ++ right).all p = true) := by
      obtain ⟨d, hd⟩ : ∃ d, (c :: core).getLast? = some d := ⟨_, List.getLast?_cons⟩
      intro hall
      have hp := List.all_eq_true.1 hall d
        (List.mem_append_left _ (List.mem_of_getLast? hd))
      rw [hlast d hd] at hp
      cases hp
    rw [List.cons_append, sweepEnd, ← List.cons_append, if_neg hmore, ih]
    intro d hd
    refine hlast d ?_
    cases core with
    | nil => cases hd
    | cons e core => rw [List.getLast?_cons_cons, hd]

/-- Both ways to find the edges of a list agree, whatever they take for blank. -/
theorem sweepEdges_eq (p : Char → Bool) (cs : List Char) : sweepEdges p cs = trimList p cs := by
  obtain ⟨⟨left, right, hcs, hleft, hright⟩, hfirst, hlast⟩ :=
    trims_iff.2 (rfl : trimList p cs = trimList p cs)
  rw [sweepEdges]
  generalize trimList p cs = core at *
  subst hcs
  cases core with
  | nil =>
    refine sweepEnd_of_all fun c hc => ?_
    have hmem := (List.dropWhile_suffix p).subset hc
    rw [List.append_nil] at hmem
    exact (List.mem_append.1 hmem).elim (hleft c) (hright c)
  | cons c core =>
    rw [List.append_assoc, dropWhile_append_of_forall hleft (by simpa using hfirst)]
    exact sweepEnd_append hlast hright

/-- A text without the blanks that a sweep finds at its two ends. -/
def sweepBlank (s : String) : String :=
  String.ofList (sweepEdges isBlank s.toList)

theorem sweepBlank_eq (s : String) : sweepBlank s = trimBlank s := by
  rw [sweepBlank, sweepEdges_eq, trimBlank, trimWith]

end Text

namespace Normalize

open Store Act

/-- What the rules for texts leave of a text: the word for missing texts where it is missing or
nothing but blanks. -/
def leftText (text : Option String) : Option String :=
  match text with
  | none => some missingWord
  | some s => if Text.trimOf Text.blankCodes s = "" then some missingWord else some s

theorem leftText_eq (text : Option String) : leftText text = filledText text := by
  cases text with
  | none => rfl
  | some s => simp only [leftText, Text.trimOf_blankCodes, filledText, isBlankText, beq_iff_eq]

/-- Every rule for texts writes its word just where it leaves another text than it found. -/
theorem Rule.written_eq {r : Rule} (h : r.isText = true) (text : Option String) :
    (if r.selects (.ofText? text) then r.sentinel else .ofText? text) =
      Cell.ofText? (leftText text) := by
  rw [selects_text h, leftText_eq, filledText, Rule.sentinel, if_pos h]
  split <;> rfl

theorem segmentCount_filledText (text : Option String) :
    segmentCount (filledText text) = segmentCount text := by
  have hmissing : ∀ {t : Option String}, isMissing t = true → segmentCount t = 0 := by
    intro t ht
    cases t with
    | none => rfl
    | some s => rw [segmentCount, if_pos ht]
  rw [filledText]
  split
  · next h => rw [hmissing isMissing_missingWord, hmissing (isMissing_of_isBlankText h)]
  · rfl

/-- Staging the fields of movies does the same before and after their gaps are filled. -/
theorem ofSources_filledMovie (kind : MembershipKind) (options : SplitOptions)
    (movies : List MovieRow) :
    Rebuild.ofSources kind (sourcesOf kind (movies.map filledMovie)) options =
      Rebuild.ofSources kind (sourcesOf kind movies) options := by
  let fill (source : Source) : Source := { source with raw := filledText source.raw }
  have hsources : sourcesOf kind (movies.map filledMovie) = (sourcesOf kind movies).map fill := by
    rw [sourcesOf, sourcesOf, byId_map (f := filledMovie) fun _ => rfl, List.map_map, List.map_map]
    cases kind <;> rfl
  have hmemberships : memberships ((sourcesOf kind movies).map fill) options =
      memberships (sourcesOf kind movies) options := by
    rw [memberships, memberships, List.flatMap_map]
    exact congrArg (fun g => (sourcesOf kind movies).flatMap g)
      (funext fun source => split_filledText source.movieId source.raw options)
  have htruncated : isTruncated options ∘ fill = isTruncated options := by
    funext source
    rw [Function.comp_apply, isTruncated, isTruncated, segmentCount_filledText]
  rw [Rebuild.ofSources, Rebuild.ofSources, hsources, hmemberships, List.countP_map, htruncated,
    List.length_map]

theorem membershipRows_filledMovie (kind : MembershipKind) (options : SplitOptions)
    (movies : List MovieRow) :
    membershipRows kind options (movies.map filledMovie) = membershipRows kind options movies := by
  refine membershipRows_map (f := filledMovie) (fun _ => rfl) (fun id m => ?_) movies
  cases kind <;> exact split_filledText id _ options

/-- Filling gaps is no matter to a rebuild, nor is a rebuild to filling them. -/
theorem rebuilt_filled_iff {kind : MembershipKind} {options : SplitOptions} {s s' : Store}
    {r : Rebuild} : Rebuilt kind options (filled s) r s' ↔
      ∃ t, Rebuilt kind options s r t ∧ s' = filled t := by
  have hfilled : ∀ rows, ((filled s).withPublished rows kind).withStaged [] kind =
      filled ((s.withPublished rows kind).withStaged [] kind) := by
    intro rows
    cases kind <;> rfl
  have hstaged : (filled s).stagedOf kind = s.stagedOf kind := by
    cases kind <;> rfl
  have hpublished : (filled s).publishedOf kind = s.publishedOf kind := by
    cases kind <;> rfl
  have hidentified : ∀ movies, Source.Identified (List.map filledMovie movies) ↔
      Source.Identified movies :=
    fun movies => identified_map (f := filledMovie) fun _ => rfl
  have hpublishable : ∀ rows, (filled s).Publishable rows kind ↔ s.Publishable rows kind :=
    fun rows => publishable_congr fun t =>
      sameParents_of_mapRows (f := filledMovie) (fun _ => rfl) rfl rfl
  constructor
  · rintro ⟨filledMovies, hmovie, h⟩
    obtain ⟨movies, hmovies, rfl⟩ := Option.map_eq_some_iff.1 hmovie
    rw [map_row_mapRows, membershipRows_filledMovie, ofSources_filledMovie, hfilled, hstaged,
      hpublished, hidentified, hpublishable, stageable_congr] at h
    obtain ⟨hold, hold', hids, hstageable, hadmitted, hr, hs'⟩ := h
    exact ⟨_, ⟨movies, hmovies, hold, hold', hids, hstageable, hadmitted, hr, rfl⟩, hs'⟩
  · rintro ⟨t, ⟨movies, hmovies, hold, hold', hids, hstageable, hadmitted, hr, rfl⟩, hs'⟩
    refine ⟨mapRows filledMovie movies, by rw [filled, hmovies]; rfl, ?_⟩
    rw [map_row_mapRows, membershipRows_filledMovie, ofSources_filledMovie, hfilled, hstaged,
      hpublished, hidentified, hpublishable, stageable_congr]
    exact ⟨hold, hold', hids, hstageable, hadmitted, hr, hs'⟩

/-- The amounts of movies have their column where it is found. -/
theorem hasAmount_of_column? {s : Store} {c : Column (Numbered MovieRow)}
    (h : s.column? .movie amountColumn = .ok c) : s.hasAmount = true := by
  by_contra hamount
  have hlower : amountColumn.toLower = amountColumn := toLower_eq_self (by decide)
  have hnumber : numberNames.contains amountColumn = false := by decide
  have hnone : (s.columnsOf .movie).find? (fun c => c.name = amountColumn) = none := by
    rw [List.find?_eq_none]
    intro c hc
    rw [columnsOf, List.mem_filter] at hc
    simpa [hamount] using hc.2
  rw [column?, hlower, hnumber] at h
  simp only [Bool.false_eq_true, if_false, hlower, hnone] at h
  cases h

theorem hasAmount_of_apply {r : Rule} {s s' : Store} {n : Nat}
    (h : (r.apply s).result = .ok (n, s')) : s'.hasAmount = s.hasAmount := by
  rw [Rule.apply] at h
  split at h
  · obtain ⟨rows, rfl⟩ := exists_put_of_update h
    exact hasAmount_put s _ rows
  · cases h

theorem hasAmount_of_apply_amountGap {s s' : Store} {n : Nat}
    (h : (amountGap.rule.apply s).result = .ok (n, s')) : s.hasAmount = true := by
  have hnamed : named? StoreError.notModifiable amountGap.rule.table = .ok Table.movie :=
    named?_name _ .movie
  rw [Rule.apply, hnamed] at h
  dsimp only at h
  rw [Store.update] at h
  rcases hready : s.updatable .movie amountGap.rule.column (amountGap.rule.rows .movie) with
    e | ⟨rows, column, selects⟩ <;> rw [hready] at h
  · cases h
  · exact hasAmount_of_column? (updatable_eq_ok hready).2.1

theorem hasAmount_of_appliedAll {rules : List Rule} {counts counts' : Fields} {s s' : Store}
    (hrule : amountGap.rule ∈ rules) (h : AppliedAll rules counts s counts' s') :
    s.hasAmount = true := by
  induction rules generalizing counts s with
  | nil => exact absurd hrule List.not_mem_nil
  | cons r rest ih =>
    obtain ⟨n, t, happly, happlied⟩ := h
    rcases List.mem_cons.1 hrule with rfl | hrest
    · exact hasAmount_of_apply_amountGap happly
    · rw [← hasAmount_of_apply happly]
      exact ih hrest happlied

/-- Standardization has the same counts before and after a rebuild, and leaves the same rows. -/
theorem appliedAll_of_rebuilt {kind : MembershipKind} {options : SplitOptions} {s t : Store}
    {r : Rebuild} (h : Rebuilt kind options s r t) {counts : Fields} {s' : Store} :
    AppliedAll Rule.standard [] t counts s' ↔
      AppliedAll Rule.standard [] s counts (filled s) ∧ s' = filled t := by
  obtain ⟨-, -, -, -, -, -, -, -, rfl⟩ := h
  have hrule : amountGap.rule ∈ Rule.standard := by decide
  constructor
  · intro happlied
    have ht := hasAmount_of_appliedAll hrule happlied
    have hs : s.hasAmount = true := by
      cases kind <;> exact ht
    obtain ⟨movies, ratings, hmovies, hratings, hmeets, hmeets', hcounts, hs'⟩ :=
      (appliedAll_standard_iff ht).1 happlied
    refine ⟨(appliedAll_standard_iff hs).2 ⟨movies, ratings, ?_, ?_, hmeets, hmeets', hcounts,
      rfl⟩, hs'⟩
    · cases kind <;> exact hmovies
    · cases kind <;> exact hratings
  · rintro ⟨happlied, rfl⟩
    have hs := hasAmount_of_appliedAll hrule happlied
    obtain ⟨movies, ratings, hmovies, hratings, hmeets, hmeets', hcounts, -⟩ :=
      (appliedAll_standard_iff hs).1 happlied
    have ht : ∀ rows, ((s.withPublished rows kind).withStaged [] kind).hasAmount = true := by
      intro rows
      cases kind <;> exact hs
    refine (appliedAll_standard_iff (ht _)).2 ⟨movies, ratings, ?_, ?_, hmeets, hmeets', hcounts,
      rfl⟩
    · cases kind <;> exact hmovies
    · cases kind <;> exact hratings

/-- A rebuild and then standardization come to what standardization and then a rebuild do. -/
theorem exists_rebuilt_applied_iff {kind : MembershipKind} {options : SplitOptions} {s s' : Store}
    {r : Rebuild} {counts : Fields} :
    (∃ t, Rebuilt kind options s r t ∧ AppliedAll Rule.standard [] t counts s') ↔
      ∃ t, AppliedAll Rule.standard [] s counts t ∧ Rebuilt kind options t r s' := by
  constructor
  · rintro ⟨t, hrebuilt, happlied⟩
    obtain ⟨hfills, hs'⟩ := (appliedAll_of_rebuilt hrebuilt).1 happlied
    exact ⟨filled s, hfills, rebuilt_filled_iff.2 ⟨t, hrebuilt, hs'⟩⟩
  · rintro ⟨t, happlied, hrebuilt⟩
    obtain ⟨-, -, -, -, -, -, -, rfl⟩ :=
      (appliedAll_standard_iff (hasAmount_of_appliedAll (by decide) happlied)).1 happlied
    obtain ⟨u, hbefore, hs'⟩ := rebuilt_filled_iff.1 hrebuilt
    exact ⟨u, hbefore, (appliedAll_of_rebuilt hbefore).2 ⟨happlied, hs'⟩⟩

theorem demands_standardize (logger : Journal.Logger) : Demands (standardize logger) := by
  rw [standardize, standardizeBy, raising_ok_bind]
  refine Demands.andThen (Demands.inTransaction ?_ _) _
  exact ((Demands.change _).reporting _).andThen _

/-- A rebuild that has an answer found a kind and options in what it was given. -/
theorem on_rebuild_eq_ok {logger : Journal.Logger} {asked : Option Json} {given : Fields}
    {w w' : World} {r : Rebuild} : (rebuild logger asked given).on w = (.ok r, w') ↔
      ∃ kind options, MembershipKind.Asked.of asked = .kind kind ∧
        SplitOptions.resolve given = .ok options ∧
        (rebuildWith logger kind options).on w = (.ok r, w') := by
  rw [rebuild, on_bind_eq_ok]
  constructor
  · rintro ⟨options, v, hasks, h⟩
    obtain ⟨hresolve, rfl⟩ := on_ofExcept_eq_ok.1 hasks
    split at h
    · next kind hkind => exact ⟨kind, options, hkind, hresolve, h⟩
    · next hasked => exact absurd h (not_on_stageAsked hasked)
  · rintro ⟨kind, options, hkind, hresolve, h⟩
    refine ⟨options, w, on_ofExcept_eq_ok.2 ⟨hresolve, rfl⟩, ?_⟩
    rw [hkind]
    exact h

/-- What a rebuild of what is asked for does. -/
theorem computes_rebuild (logger : Journal.Logger) (asked : Option Json) (given : Fields) :
    Computes (rebuild logger asked given) fun s r s' =>
      ∃ kind options, MembershipKind.Asked.of asked = .kind kind ∧
        SplitOptions.resolve given = .ok options ∧ Rebuilt kind options s r s' where
  orderly := orderly_rebuild logger asked given
  iff := by
    intro w hw r s'
    constructor
    · rintro ⟨hvalue, rfl⟩
      obtain ⟨kind, options, hkind, hresolve, hon⟩ := on_rebuild_eq_ok.1 (Prod.ext hvalue rfl)
      exact ⟨kind, options, hkind, hresolve, (computes_rebuildWith logger kind options).of_on hw hon⟩
    · rintro ⟨kind, options, hkind, hresolve, hrebuilt⟩
      obtain ⟨w', hon, hdata, -⟩ :=
        (computes_rebuildWith logger kind options).exists_on hw hrebuilt
      rw [on_rebuild_eq_ok.2 ⟨kind, options, hkind, hresolve, hon⟩]
      exact ⟨rfl, hdata⟩

theorem demands_rebuild (logger : Journal.Logger) (asked : Option Json) (given : Fields) :
    Demands (rebuild logger asked given) := by
  intro w w' r h
  obtain ⟨kind, options, -, -, hon⟩ := on_rebuild_eq_ok.1 h
  exact demands_rebuildWith logger kind options w w' r hon

/-- Two actions one after the other, the first of which demands a world that is ready. -/
theorem exists_on_pair_iff {α β γ : Type} {act : Act α} {next : Act β} {f : α → β → γ}
    {R : Store → α → Store → Prop} {S : Store → β → Store → Prop} (hact : Computes act R)
    (hnext : Computes next S) (hdemands : Demands act) {w : World} {c : γ} {s : Store} :
    (∃ w', (do let a ← act; let b ← next; pure (f a b)).on w = (.ok c, w') ∧ w'.data = s) ↔
      w.Ready ∧ ∃ a b t, R w.data a t ∧ S t b s ∧ c = f a b := by
  have hpair : Computes (do let a ← act; let b ← next; pure (f a b)) fun s c s' =>
      ∃ a b t, R s a t ∧ S t b s' ∧ c = f a b := by
    refine (hact.bind fun a => hnext.bind fun b => Computes.pure (f a b)).of_iff fun s c s' => ?_
    constructor
    · rintro ⟨a, t, hR, b, u, hS, rfl, rfl⟩
      exact ⟨a, b, t, hR, hS, rfl⟩
    · rintro ⟨a, b, t, hR, hS, rfl⟩
      exact ⟨a, t, hR, b, s', hS, rfl, rfl⟩
  constructor
  · rintro ⟨w', hon, rfl⟩
    obtain ⟨a, v, hon', -⟩ := on_bind_eq_ok.1 hon
    have hready := hdemands w v a hon'
    exact ⟨hready, hpair.of_on hready hon⟩
  · rintro ⟨hready, h⟩
    obtain ⟨w', hon, hdata, -⟩ := hpair.exists_on hready h
    exact ⟨w', hon, hdata⟩

/--
A sweep and the codes of the blanks find the same edges of a text, so what standardization leaves of
a text means the same amount as the text, and has the same memberships. A rebuild of what is asked
for and then standardization therefore have the answers `r` and `counts` and leave the data `s` just
if standardization and then the rebuild do, whatever the data were.
-/
theorem rebuild_standardize_comm :
    (∀ s : String, Text.sweepBlank s = Text.trimOf Text.blankCodes s) ∧
    (∀ text : Option String,
      (∀ rule : Rule, rule.isText = true →
        (if rule.selects (.ofText? text) then rule.sentinel else .ofText? text) =
          Cell.ofText? (leftText text)) ∧
      Amount.read (leftText text) = Amount.read text ∧
      ∀ (id : String) (options : SplitOptions),
        split id (leftText text) options = split id text options) ∧
    ∀ (logger logger' : Journal.Logger) (asked : Option Json) (given : Fields) (w : World)
      (r : Rebuild) (counts : Fields) (s : Store),
      (∃ w', (do let r ← rebuild logger asked given; let counts ← standardize logger'
                 pure (r, counts)).on w = (.ok (r, counts), w') ∧ w'.data = s) ↔
        ∃ w', (do let counts ← standardize logger'; let r ← rebuild logger asked given
                  pure (r, counts)).on w = (.ok (r, counts), w') ∧ w'.data = s := by
  refine ⟨fun s => (Text.sweepBlank_eq s).trans (Text.trimOf_blankCodes s).symm,
    fun text => ⟨fun rule hrule => rule.written_eq hrule text, ?_, fun id options => ?_⟩, ?_⟩
  · rw [leftText_eq, read_filledText]
  · rw [leftText_eq, split_filledText]
  · intro logger logger' asked given w r counts s
    have hrebuild := computes_rebuild logger asked given
    have hstandardize := computes_standardize logger'
    rw [exists_on_pair_iff hrebuild hstandardize (demands_rebuild logger asked given),
      exists_on_pair_iff hstandardize hrebuild (demands_standardize logger') (f := fun n r => (r, n))]
    refine and_congr_right fun _ => ?_
    constructor
    · rintro ⟨_, _, t, ⟨kind, options, hkind, hresolve, hrebuilt⟩, happlied, hanswer⟩
      obtain ⟨rfl, rfl⟩ := Prod.mk.inj hanswer
      obtain ⟨u, hfills, hafter⟩ := exists_rebuilt_applied_iff.1 ⟨t, hrebuilt, happlied⟩
      exact ⟨counts, r, u, hfills, ⟨kind, options, hkind, hresolve, hafter⟩, rfl⟩
    · rintro ⟨_, _, t, happlied, ⟨kind, options, hkind, hresolve, hrebuilt⟩, hanswer⟩
      obtain ⟨rfl, rfl⟩ := Prod.mk.inj hanswer
      obtain ⟨u, hbefore, hfills⟩ := exists_rebuilt_applied_iff.2 ⟨t, happlied, hrebuilt⟩
      exact ⟨r, counts, u, ⟨kind, options, hkind, hresolve, hbefore⟩, hfills, rfl⟩

end Normalize
end FilmReport
