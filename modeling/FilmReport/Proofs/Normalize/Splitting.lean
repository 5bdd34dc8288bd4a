import FilmReport.Proofs.Normalize.Again
import FilmReport.Proofs.Normalize.Amount
import FilmReport.Proofs.Normalize.Failure
import FilmReport.Proofs.Report.Paths

/-!
What splitting a field gives, and what staging the split fields of all movies counts. The memberships
of a field are its trimmed parts between commas, as far as the limit goes, numbered from 1; a larger
limit gives the same ones and more (`fieldLaws`). What a staging answers agrees with what it leaves,
but for the movies that it counts as cut short where the limit is less than zero or no number
(`staging_of_on_stageAsked`).
-/

set_option autoImplicit false
set_option relaxedAutoImplicit false

namespace FilmReport

namespace Text

variable {separator : Char} {cs : List Char} {parts : List (List Char)}

/-- The parts of a list that separators stand between. -/
structure IsCut (separator : Char) (cs : List Char) (parts : List (List Char)) : Prop where
  ne_nil : parts ≠ []
  free : ∀ part ∈ parts, separator ∉ part
  whole : [separator].intercalate parts = cs

theorem joined_eq_intercalate (separator : Char) (parts : List (List Char)) :
    joined separator parts = [separator].intercalate parts := by
  induction parts with
  | nil => rfl
  | cons part rest ih =>
    by_cases hrest : rest = []
    · subst hrest
      rw [List.intercalate_singleton]
      rfl
    · rw [joined_cons part hrest, List.intercalate_cons_of_ne_nil hrest, ih, List.append_assoc,
        List.singleton_append]

theorem isCut_iff : IsCut separator cs parts ↔ pieces separator cs = parts := by
  constructor
  · rintro ⟨hne, hfree, rfl⟩
    exact pieces_intercalate hne hfree
  · rintro rfl
    refine ⟨pieces_ne_nil separator cs, fun part => separator_notMem_of_mem_pieces, ?_⟩
    rw [← joined_eq_intercalate, joined_pieces]

end Text

namespace Normalize

open Store Act

namespace SplitOptions

variable {o o' : SplitOptions} {α β : Type}

/-- How many of a number of items the limit lets pass: a fraction of one is cut off, and below zero
there is none. -/
def passed (o : SplitOptions) (n : Nat) : Nat :=
  match o.tokenLimit with
  | .finite q => min (q.num.tdiv q.den).toNat n
  | .infinite negative => if negative then 0 else n
  | .nan => 0

theorem toNat_floor (q : Rat) : q.floor.toNat = (q.num.tdiv q.den).toNat := by
  rw [Rat.floor_def]
  by_cases hq : 0 ≤ q.num
  · rw [Int.tdiv_eq_ediv_of_nonneg hq]
  · have hfloor : q.num / (q.den : Int) ≤ 0 :=
      Int.ediv_nonpos_of_nonpos_of_neg (by omega) (by positivity)
    have htrunc : q.num.tdiv q.den ≤ 0 := by
      have hneg : 0 ≤ (-q.num).tdiv q.den := Int.tdiv_nonneg (by omega) (by positivity)
      rw [Int.neg_tdiv] at hneg
      omega
    rw [Int.toNat_of_nonpos hfloor, Int.toNat_of_nonpos htrunc]

/-- What is kept of a list is where it begins. -/
theorem keep_isPrefix (o : SplitOptions) (items : List α) : o.keep items <+: items := by
  rw [keep]
  split
  · exact List.take_prefix _ _
  · exact List.prefix_rfl
  · exact List.nil_prefix

theorem length_keep (o : SplitOptions) (items : List α) :
    (o.keep items).length = o.passed items.length := by
  obtain ⟨limit, blank⟩ := o
  rw [keep, passed]
  cases limit with
  | finite q => rw [List.length_take, toNat_floor]
  | infinite negative => cases negative <;> rfl
  | nan => rfl

/-- A larger limit lets no fewer pass. -/
theorem passed_mono (h : o.tokenLimit.le o'.tokenLimit = true) (n : Nat) :
    o.passed n ≤ o'.passed n := by
  obtain ⟨limit, blank⟩ := o
  obtain ⟨limit', blank'⟩ := o'
  rw [passed, passed]
  cases limit with
  | finite q =>
    cases limit' with
    | finite q' =>
      have hle : q ≤ q' := by
        simpa [Binary64.le, Binary64.lt] using h
      dsimp only
      rw [← toNat_floor, ← toNat_floor]
      have hfloor := Int.toNat_le_toNat (Int.floor_mono hle)
      exact min_le_min_right n hfloor
    | infinite negative =>
      cases negative with
      | true => simp [Binary64.le, Binary64.lt] at h
      | false => exact min_le_right _ n
    | nan => simp [Binary64.le] at h
  | infinite negative =>
    cases negative with
    | true => exact Nat.zero_le _
    | false =>
      cases limit' with
      | finite q' => simp [Binary64.le, Binary64.lt] at h
      | infinite negative' =>
        cases negative' with
        | true => simp [Binary64.le, Binary64.lt] at h
        | false => exact le_rfl
      | nan => simp [Binary64.le] at h
  | nan => exact Nat.zero_le _

theorem keep_isPrefix_keep (h : o.tokenLimit.le o'.tokenLimit = true) (items : List α) :
    o.keep items <+: o'.keep items := by
  refine List.prefix_of_prefix_length_le (keep_isPrefix o items) (keep_isPrefix o' items) ?_
  rw [length_keep, length_keep]
  exact passed_mono h items.length

end SplitOptions

theorem length_numbered (movieId : String) (n : Nat) (values : List String) :
    (numbered movieId n values).length = values.length := by
  rw [← List.length_map (f := Membership.value), map_value_numbered]

theorem numbered_append (movieId : String) (n : Nat) (values more : List String) :
    numbered movieId n (values ++ more) =
      numbered movieId n values ++ numbered movieId (n + values.length) more := by
  induction values generalizing n with
  | nil => rfl
  | cons value rest ih =>
    rw [List.cons_append, numbered, numbered, ih, List.cons_append, List.length_cons,
      Nat.add_right_comm, ← Nat.add_assoc]

theorem numbered_isPrefix (movieId : String) (n : Nat) {values values' : List String}
    (h : values <+: values') : numbered movieId n values <+: numbered movieId n values' := by
  obtain ⟨more, rfl⟩ := h
  rw [numbered_append]
  exact List.prefix_append _ _

/-- A larger limit keeps the same tokens and more. -/
theorem tokens_isPrefix {o o' : SplitOptions} (hblank : o.emitBlank = o'.emitBlank)
    (h : o.tokenLimit.le o'.tokenLimit = true) (text : String) :
    tokens text o <+: tokens text o' := by
  have hkept := (SplitOptions.keep_isPrefix_keep h (segments text)).map Text.trimBlank
  rw [tokens, tokens, hblank]
  split
  · exact hkept
  · exact hkept.filter _

/-- A token is a part of the field between commas without its blank edges. -/
theorem exists_segment_of_mem_tokens {text token : String} {o : SplitOptions}
    (h : token ∈ tokens text o) : ∃ part ∈ Text.pieces ',' text.toList,
      token.toList = Text.trimList Text.isBlank part := by
  have hkept : token ∈ (o.keep (segments text)).map Text.trimBlank := by
    rw [tokens] at h
    split at h
    · exact h
    · exact (List.mem_filter.1 h).1
  obtain ⟨segment, hsegment, rfl⟩ := List.mem_map.1 hkept
  obtain ⟨part, hpart, rfl⟩ := List.mem_map.1 ((o.keep_isPrefix _).subset hsegment)
  refine ⟨part, hpart, ?_⟩
  rw [Text.trimBlank, Text.trimWith, String.toList_ofList, String.toList_ofList]

theorem comma_notMem_of_mem_tokens {text token : String} {o : SplitOptions}
    (h : token ∈ tokens text o) : ',' ∉ token.toList := by
  obtain ⟨part, hpart, htoken⟩ := exists_segment_of_mem_tokens h
  intro hcomma
  rw [htoken] at hcomma
  obtain ⟨left, right, hedges, -⟩ := Text.exists_edges_trimList Text.isBlank part
  refine Text.separator_notMem_of_mem_pieces hpart ?_
  rw [hedges]
  exact List.mem_append_left _ (List.mem_append_right _ hcomma)

/-- Where empty tokens are kept, each token is the part in its place without its blank edges. -/
theorem getElem?_tokens {text token : String} {o : SplitOptions} (hblank : o.emitBlank = true)
    {k : Nat} (h : (tokens text o)[k]? = some token) :
    ∃ part, (Text.pieces ',' text.toList)[k]? = some part ∧
      Text.Trims Text.isBlank part token.toList := by
  have hkept : tokens text o <+: (segments text).map Text.trimBlank := by
    rw [tokens, if_pos hblank]
    exact (o.keep_isPrefix _).map _
  obtain ⟨hk, hat⟩ := List.getElem?_eq_some_iff.1 h
  have hall := List.prefix_iff_getElem?.1 hkept k hk
  rw [hat] at hall
  rw [segments, Text.splitAt, List.map_map, List.getElem?_map, Option.map_eq_some_iff] at hall
  obtain ⟨part, hpart, rfl⟩ := hall
  refine ⟨part, hpart, Text.trims_iff.2 ?_⟩
  rw [Function.comp_apply, Text.trimBlank, Text.trimWith, String.toList_ofList,
    String.toList_ofList]

theorem length_segments (text : String) :
    (segments text).length = text.toList.count ',' + 1 := by
  rw [segments, Text.splitAt, List.length_map, Text.length_pieces]

theorem split_of_not_isMissing {text : String} (h : isMissing (some text) = false) (id : String)
    (o : SplitOptions) : split id (some text) o = numbered id 1 (tokens text o) := by
  rw [split, if_neg (by rw [h]; exact Bool.false_ne_true)]

/-- What is split is a text, and its memberships are its tokens. -/
theorem exists_of_mem_split {id : String} {raw : Option String} {o : SplitOptions} {m : Membership}
    (h : m ∈ split id raw o) :
    ∃ text, raw = some text ∧ m.movieId = id ∧ m.value ∈ tokens text o := by
  cases raw with
  | none => exact absurd h List.not_mem_nil
  | some text =>
    rw [split] at h
    split at h
    · exact absurd h List.not_mem_nil
    · refine ⟨text, rfl, movieId_of_mem_numbered h, ?_⟩
      rw [← map_value_numbered id 1 (tokens text o)]
      exact List.mem_map_of_mem h

/-- What splitting a field of a movie gives. -/
structure FieldLaws (id : String) (raw : Option String) (o : SplitOptions) : Prop where
  absent : raw = none → split id raw o = []
  missing : ∀ text, raw = some text → Amount.IsMissing text → split id raw o = []
  positions : (split id raw o).map (·.position) = List.range' 1 (split id raw o).length
  movie : ∀ m ∈ split id raw o, m.movieId = id
  /-- With empty tokens there is one membership for each part as far as the limit goes, and its value
  is the part in its place without its blank edges. -/
  parts : ∀ text, raw = some text → ¬ Amount.IsMissing text → o.emitBlank = true →
    (split id raw o).length = o.passed (text.toList.count ',' + 1) ∧
    ∃ parts, Text.IsCut ',' text.toList parts ∧
      ∀ (k : Nat) (m : Membership), (split id raw o)[k]? = some m →
        ∃ part, parts[k]? = some part ∧ Text.Trims Text.isBlank part m.value.toList
  /-- Without empty tokens the others are there, in their order. -/
  others : o.emitBlank = false → (split id raw o).map (·.value) =
    ((split id raw { o with emitBlank := true }).map (·.value)).filter fun value => value ≠ ""
  comma : ∀ m ∈ split id raw o, ',' ∉ m.value.toList
  edges : ∀ m ∈ split id raw o, ∀ c,
    m.value.toList.head? = some c ∨ m.value.toList.getLast? = some c → Text.isBlank c = false
  /-- A larger limit gives the same memberships and more. -/
  larger : ∀ limit, o.tokenLimit.le limit = true →
    split id raw o <+: split id raw { o with tokenLimit := limit }

theorem fieldLaws (id : String) (raw : Option String) (o : SplitOptions) : FieldLaws id raw o where
  absent := by
    rintro rfl
    rfl
  missing := by
    rintro text rfl hmissing
    exact split_of_isMissing (Amount.isMissing_iff.1 hmissing) id o
  positions := by
    cases raw with
    | none => rfl
    | some text =>
      rw [split]
      split
      · rfl
      · rw [map_position_numbered, length_numbered]
  movie := by
    intro m hm
    obtain ⟨text, -, hid, -⟩ := exists_of_mem_split hm
    exact hid
  parts := by
    rintro text rfl hmissing hblank
    rw [split_of_not_isMissing (Amount.isMissing_eq_false_iff.2 hmissing) id o]
    constructor
    · rw [length_numbered, tokens, if_pos hblank, List.length_map, SplitOptions.length_keep,
        length_segments]
    · refine ⟨_, Text.isCut_iff.2 rfl, fun k m hm => getElem?_tokens hblank (o := o) ?_⟩
      rw [← map_value_numbered id 1 (tokens text o), List.getElem?_map, hm]
      rfl
  others := by
    intro hblank
    cases raw with
    | none => rfl
    | some text =>
      rw [split, split]
      split
      · rfl
      · rw [map_value_numbered, map_value_numbered, tokens, if_neg (by simp [hblank]), tokens,
          if_pos rfl]
        rfl
  comma := by
    intro m hm
    obtain ⟨text, -, -, htoken⟩ := exists_of_mem_split hm
    exact comma_notMem_of_mem_tokens htoken
  edges := by
    intro m hm c hc
    obtain ⟨text, -, -, htoken⟩ := exists_of_mem_split hm
    obtain ⟨part, hpart, hvalue⟩ := exists_segment_of_mem_tokens htoken
    rw [hvalue] at hc
    exact hc.elim Text.head?_trimList Text.getLast?_trimList
  larger := by
    intro limit hle
    cases raw with
    | none => exact List.prefix_rfl
    | some text =>
      rw [split, split]
      split
      · exact List.prefix_rfl
      · exact numbered_isPrefix id 1
          (@tokens_isPrefix o { o with tokenLimit := limit } rfl hle text)

/-- A field of three parts, the second of them blank, of which two are kept. -/
theorem fieldLaws_two : ¬ Amount.IsMissing "USA, ,UK" ∧
    split "tt1" (some "USA, ,UK") ⟨.finite 2, true⟩ = [⟨"tt1", 1, "USA"⟩, ⟨"tt1", 2, ""⟩] ∧
    FieldLaws "tt1" (some "USA, ,UK") ⟨.finite 2, true⟩ :=
  ⟨Amount.isMissing_eq_false_iff.1 (by decide +kernel), by decide +kernel,
    fieldLaws "tt1" (some "USA, ,UK") ⟨.finite 2, true⟩⟩

/-- Whether the limit cuts parts of a field off. -/
def isCutShort (o : SplitOptions) (raw : Option String) : Bool :=
  match raw with
  | none => false
  | some text =>
    !isMissing raw && decide ((o.keep (segments text)).length < (segments text).length)

/-- A limit that is not less than zero is less than a number of items just where it cuts off some of
them. -/
theorem SplitOptions.length_keep_lt_iff {o : SplitOptions} {α : Type}
    (h : (Binary64.finite 0).le o.tokenLimit = true) (items : List α) :
    (o.keep items).length < items.length ↔
      o.tokenLimit.lt (.finite (items.length : Nat)) = true := by
  obtain ⟨limit, blank⟩ := o
  rw [keep]
  cases limit with
  | finite q =>
    have hq : 0 ≤ q := by
      simpa [Binary64.le, Binary64.lt] using h
    have hfloor : (q.floor.toNat : Int) = q.floor := Int.toNat_of_nonneg (Int.floor_nonneg.2 hq)
    have hlt : ⌊q⌋ < (items.length : Int) ↔ q < ((items.length : Int) : Rat) := Int.floor_lt
    change q.floor < _ ↔ _ at hlt
    dsimp only
    rw [List.length_take, Binary64.lt, decide_eq_true_eq]
    rw [← Int.cast_natCast, ← hlt]
    omega
  | infinite negative =>
    cases negative with
    | true => simp [Binary64.le, Binary64.lt] at h
    | false => simp [Binary64.lt]
  | nan => simp [Binary64.le] at h

/-- The two counts of parts, before and after the limit, agree on what is cut short where the limit
is not less than zero. -/
theorem isTruncated_eq {o : SplitOptions} (h : (Binary64.finite 0).le o.tokenLimit = true)
    (source : Source) : isTruncated o source = isCutShort o source.raw := by
  have hnone : o.tokenLimit.lt (.finite (0 : Nat)) = false := by
    obtain ⟨limit, blank⟩ := o
    cases limit with
    | finite q => simpa [Binary64.le, Binary64.lt] using h
    | infinite negative => cases negative <;> simp_all [Binary64.le, Binary64.lt]
    | nan => rfl
  rw [isTruncated]
  cases source.raw with
  | none => exact hnone
  | some text =>
    rw [segmentCount, isCutShort]
    cases hmissing : isMissing (some text) with
    | true => exact hnone
    | false =>
      rw [if_neg Bool.false_ne_true, Bool.not_false, Bool.true_and, Bool.eq_iff_iff,
        decide_eq_true_iff, SplitOptions.length_keep_lt_iff h]

/-- A limit less than zero is less than every count of parts. -/
theorem isTruncated_of_lt_zero {o : SplitOptions} (h : o.tokenLimit.lt (.finite 0) = true)
    (source : Source) : isTruncated o source = true := by
  rw [isTruncated]
  obtain ⟨limit, blank⟩ := o
  cases limit with
  | finite q =>
    have hq : q < 0 := by
      simpa [Binary64.lt] using h
    have hcount : (0 : Rat) ≤ (segmentCount source.raw : Rat) := Nat.cast_nonneg _
    simpa [Binary64.lt] using hq.trans_le hcount
  | infinite negative =>
    cases negative with
    | true => rfl
    | false => simp [Binary64.lt] at h
  | nan => simp [Binary64.lt] at h

/-- What a staging of the fields of all movies leaves and answers: `s` is the store before it and
`s'` the one after it. -/
structure Staging (kind : MembershipKind) (o : SplitOptions) (s : Store) (r : Rebuild)
    (s' : Store) : Prop where
  /-- The memberships of all movies and no others, whatever was staged before. -/
  rows : ∃ rows, s'.stagedOf kind = some rows ∧
    (rows.map (·.row)).Perm (membershipsOf kind o (s.rowsOf .movie)) ∧
    r.insertedRows = rows.length ∧ r.blankTokens = rows.countP fun n => n.row.value == ""
  others : ∀ t, t ≠ kind.staging → s'.get t = s.get t
  hasAmount : s'.hasAmount = s.hasAmount
  sameKind : r.kind = kind
  sourceMovies : r.sourceMovies = (s.rowsOf .movie).length
  /-- The movies with something in the field of which the limit cuts a part off. -/
  truncatedMovies : (Binary64.finite 0).le o.tokenLimit = true → r.truncatedMovies =
    (s.rowsOf .movie).countP fun m => isCutShort o (kind.source m)
  /-- A limit less than zero counts the movies with nothing in the field too. -/
  belowZero : o.tokenLimit.lt (.finite 0) = true → r.truncatedMovies = (s.rowsOf .movie).length
  noNumber : o.tokenLimit = .nan → r.truncatedMovies = 0

theorem get_withStaged {kind : MembershipKind} {t : Table} (h : t ≠ kind.staging) (s : Store)
    (rows : List (Numbered MembershipRow)) : (s.withStaged rows kind).get t = s.get t := by
  cases kind <;> cases t <;> first | rfl | exact absurd rfl h

theorem Staged.staging {kind : MembershipKind} {o : SplitOptions} {s s' : Store} {r : Rebuild}
    (h : Staged kind o s r s') : Staging kind o s r s' := by
  obtain ⟨movies, old, hmovies, -, -, -, rfl, rfl⟩ := h
  have hrows : s.rowsOf .movie = movies.map (·.row) := rowsOf_of_eq_some hmovies
  rw [← hrows]
  have hperm : (byId (s.rowsOf .movie)).Perm (s.rowsOf .movie) := orderBy_perm _ _
  have htruncated : (Rebuild.ofSources kind (sourcesOf kind (s.rowsOf .movie)) o).truncatedMovies =
      (s.rowsOf .movie).countP (isTruncated o ∘ Source.ofMovie kind.source) := by
    rw [← hperm.countP_eq, ← List.countP_map]
    rfl
  exact {
    rows := by
      refine ⟨_, stagedOf_withStaged kind s _, ?_, ?_, ?_⟩
      · rw [map_row_numberedFrom]
        exact (orderBy_perm _ _).symm.trans (perm_membershipRows kind o _)
      · rw [length_numberedFrom, membershipRows, List.length_map]
        rfl
      · have hvalues := congrArg (List.countP fun row : MembershipRow => row.value == "")
          (map_row_numberedFrom 1 (membershipRows kind o (s.rowsOf .movie)))
        rw [List.countP_map, membershipRows, List.countP_map] at hvalues
        exact hvalues.symm
    others := fun t ht => get_withStaged ht s _
    hasAmount := by
      cases kind <;> rfl
    sameKind := rfl
    sourceMovies := by
      change (sourcesOf kind _).length = _
      rw [sourcesOf, List.length_map, hperm.length_eq]
    truncatedMovies := by
      intro hlimit
      rw [htruncated]
      refine congrArg (fun p => (s.rowsOf .movie).countP p) (funext fun m => ?_)
      exact isTruncated_eq hlimit _
    belowZero := by
      intro hlimit
      rw [htruncated, List.countP_eq_length]
      exact fun m _ => isTruncated_of_lt_zero hlimit _
    noNumber := by
      intro hlimit
      rw [htruncated, List.countP_eq_zero]
      intro m _
      rw [Function.comp_apply, isTruncated, hlimit]
      exact Bool.false_ne_true }

/-- A staging of what is asked for that has an answer left the memberships of all movies, and its
answer tells what it left; with a limit that is not less than zero it also tells how many movies the
limit cut short. -/
theorem staging_of_on_stageAsked {asked : Option Json} {o : SplitOptions} {w w' : World}
    {r : Rebuild} (h : (stageAsked asked o).on w = (.ok r, w')) :
    ∃ kind, MembershipKind.Asked.of asked = .kind kind ∧ Staging kind o w.data r w'.data := by
  cases hasked : MembershipKind.Asked.of asked with
  | kind kind =>
    rw [stageAsked, hasked] at h
    exact ⟨kind, rfl, ((computes_stage kind o).of_on (demands_stage kind o w w' r h) h).staging⟩
  | stray => exact absurd h (not_on_stageAsked (by simp [hasked]))
  | nothing => exact absurd h (not_on_stageAsked (by simp [hasked]))

/-- A film without languages counts as cut short where the limit is less than zero. -/
theorem staging_of_staleFilm : ∃ r w',
    (stageAsked (some (.string "language")) ⟨.finite (-1), true⟩).on
      (World.inMemory staleFilm [some ⟨0⟩]) = (.ok r, w') ∧
    r = ⟨.language, 1, 0, 1, 0⟩ ∧
    (∀ m ∈ staleFilm.rowsOf .movie, isMissing m.languages = true) ∧
    ∃ kind, MembershipKind.Asked.of (some (.string "language")) = .kind kind ∧
      Staging kind ⟨.finite (-1), true⟩ (World.inMemory staleFilm [some ⟨0⟩]).data r w'.data := by
  have hreturns : (stageAsked (some (.string "language")) ⟨.finite (-1), true⟩).returns
      (World.inMemory staleFilm [some ⟨0⟩])
      (fun r _ => decide (r = ⟨.language, 1, 0, 1, 0⟩)) = true := by
    decide +kernel
  obtain ⟨r, w', hon, hr⟩ := exists_on_of_returns hreturns
  exact ⟨r, w', hon, of_decide_eq_true hr, by decide +kernel, staging_of_on_stageAsked hon⟩

end Normalize
end FilmReport
