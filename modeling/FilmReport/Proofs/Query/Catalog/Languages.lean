import FilmReport.Proofs.Normalize.Splitting
import FilmReport.Proofs.Query.Exported
import FilmReport.Proofs.Store.Insert
import FilmReport.Proofs.Text.Pattern

/-!
The movies in English and more. They are found by two patterns on the text of their languages, and
not by the languages into which the text is split. What the patterns ask of the languages is that
there are two or more of them, be they blank or the same, and that English is part of the name of
one (`namesEnglishAndMore_iff`).
-/

set_option autoImplicit false
set_option relaxedAutoImplicit false

namespace FilmReport

namespace Normalize

open Text

/-- The languages of a text: its parts between commas without their blank edges. -/
def languagesOf (text : Option String) : List String :=
  (split "" text ⟨.infinite false, true⟩).map (·.value)

theorem languagesOf_of_isMissing {text : Option String} (h : isMissing text = true) :
    languagesOf text = [] := by
  rw [languagesOf, split_of_isMissing h, List.map_nil]

theorem languagesOf_of_not_isMissing {text : String} (h : isMissing (some text) = false) :
    languagesOf (some text) = (segments text).map trimBlank := by
  rw [languagesOf, split_of_not_isMissing h, map_value_numbered]
  rfl

theorem comma_notMem_of_isMissing {text : String} (h : isMissing (some text) = true) :
    ',' ∉ text.toList := by
  obtain ⟨core, htrims, hcore⟩ := Amount.isMissing_iff.2 h
  obtain ⟨left, right, hedges, hleft, hright⟩ := htrims.edges
  have hblank : isBlank ',' = false := by decide
  have hword : ',' ∉ core := by
    rcases hcore with rfl | rfl <;> decide
  rw [hedges, List.mem_append, List.mem_append, not_or, not_or]
  exact ⟨⟨fun hmem => by simp [hleft _ hmem] at hblank, hword⟩,
    fun hmem => by simp [hright _ hmem] at hblank⟩

theorem two_le_length_languagesOf_iff {text : String} :
    2 ≤ (languagesOf (some text)).length ↔ ',' ∈ text.toList := by
  cases h : isMissing (some text) with
  | true => simp [languagesOf_of_isMissing h, comma_notMem_of_isMissing h]
  | false =>
    rw [languagesOf_of_not_isMissing h, List.length_map, length_segments, ← List.count_pos_iff]
    omega

/-- A word without commas and blanks is in a text just where it is in one of its languages. -/
theorem exists_holds_languagesOf_iff {text : String} {word : List Char}
    (h : isMissing (some text) = false) (hcomma : ','.toLower ∉ word.map Char.toLower)
    (hblank : ∀ c, isBlank c = true → c.toLower ∉ word.map Char.toLower) :
    (∃ t ∈ languagesOf (some text), Holds word t.toList) ↔ Holds word text.toList := by
  have htrim : ∀ piece : List Char, Holds word (trimBlank (String.ofList piece)).toList ↔
      Holds word piece := by
    intro piece
    rw [trimBlank, trimWith, String.toList_ofList, String.toList_ofList]
    exact holds_trimList_iff hblank
  rw [languagesOf_of_not_isMissing h, segments, splitAt, List.map_map,
    holds_iff_exists_piece hcomma]
  simp only [List.mem_map, exists_exists_and_eq_and, Function.comp_apply, htrim]

end Normalize

namespace Query.Movies

open Store Normalize Text

variable {m : MovieRow}

/-- The text of the languages of a movie without what follows its first NUL. -/
def frontLanguages (m : MovieRow) : Option String :=
  m.languages.map upToNul

/-- Two languages or more, be they blank or the same, with English in the name of one of them. -/
def NamesEnglishAmongSeveral (m : MovieRow) : Prop :=
  2 ≤ (languagesOf (frontLanguages m)).length ∧
    ∃ t ∈ languagesOf (frontLanguages m), Holds "English".toList t.toList

theorem eq_comma_of_toLower {c : Char} (h : c.toLower = ',') : c = ',' := by
  delta Char.toLower at h
  split at h
  · next hupper =>
    have hval : (c.val + ('a'.val - 'A'.val)).toNat = 44 := congrArg (fun d => d.val.toNat) h
    have hlow : 65 ≤ c.val.toNat := UInt32.le_iff_toNat_le.1 hupper.1
    have hhigh : c.val.toNat ≤ 90 := UInt32.le_iff_toNat_le.1 hupper.2
    rw [UInt32.toNat_add, show ('a'.val - 'A'.val).toNat = 32 from rfl] at hval
    omega
  · exact h

theorem holds_comma_iff {cs : List Char} : Holds ",".toList cs ↔ ',' ∈ cs := by
  constructor
  · rintro ⟨part, hpart, hreads⟩
    obtain ⟨c, rest, rfl, hc, -⟩ := List.map_eq_cons_iff.1 hreads
    exact eq_comma_of_toLower hc ▸ hpart.subset List.mem_cons_self
  · intro hmem
    obtain ⟨left, right, rfl⟩ := List.append_of_mem hmem
    exact ⟨[','], ⟨left, right, by simp⟩, rfl⟩

theorem namesEnglishAndMore_iff : namesEnglishAndMore m = true ↔ NamesEnglishAmongSeveral m := by
  rw [namesEnglishAndMore, NamesEnglishAmongSeveral, frontLanguages]
  cases m.languages with
  | none => simp [languagesOf, split]
  | some text =>
    have henglish : like "%English%" text = true ↔ Holds "English".toList (upToNul text).toList :=
      like_iff (by decide) (by decide)
    have hcomma : like "%,%" text = true ↔ Holds ",".toList (upToNul text).toList :=
      like_iff (by decide) (by decide)
    rw [Bool.and_eq_true, henglish, hcomma, holds_comma_iff, and_comm, Option.map_some,
      two_le_length_languagesOf_iff]
    refine and_congr_right fun hcomma => ?_
    cases hmissing : isMissing (some (upToNul text)) with
    | true => exact absurd hcomma (comma_notMem_of_isMissing hmissing)
    | false =>
      refine (exists_holds_languagesOf_iff hmissing (by decide) fun c hc => ?_).symm
      simp only [isBlank, Bool.or_eq_true, beq_iff_eq] at hc
      rcases hc with ((rfl | rfl) | rfl) | rfl <;> decide

instance : DecidablePred NamesEnglishAmongSeveral :=
  fun _ => decidable_of_iff _ namesEnglishAndMore_iff

theorem filter_namesEnglishAmongSeveral (movies : List MovieRow) :
    movies.filter (fun m => NamesEnglishAmongSeveral m) = movies.filter namesEnglishAndMore :=
  List.filter_congr fun m _ => by rw [Bool.eq_iff_iff, decide_eq_true_iff, namesEnglishAndMore_iff]

/-- English among the languages of a movie, and another one with it. -/
def InEnglishAndAnother (m : MovieRow) : Prop :=
  "English" ∈ languagesOf m.languages ∧ ∃ t ∈ languagesOf m.languages, t ≠ "" ∧ t ≠ "English"

instance : DecidablePred InEnglishAndAnother :=
  fun m => inferInstanceAs (Decidable ("English" ∈ languagesOf m.languages ∧
    ∃ t ∈ languagesOf m.languages, t ≠ "" ∧ t ≠ "English"))

/-- Languages that are all there, all different, and English only by that name. -/
structure PlainLanguages (m : MovieRow) : Prop where
  nodup : (languagesOf m.languages).Nodup
  present : "" ∉ languagesOf m.languages
  english : ∀ t ∈ languagesOf m.languages, Holds "English".toList t.toList → t = "English"

/-- No NUL in the languages of a movie. -/
def IsNulFree (m : MovieRow) : Prop :=
  ∀ text, m.languages = some text → '\x00' ∉ text.toList

theorem frontLanguages_eq (h : IsNulFree m) :
    frontLanguages m = m.languages := by
  rw [frontLanguages]
  cases hlanguages : m.languages with
  | none => rfl
  | some text =>
    have hfront : text.toList.takeWhile (· != '\x00') = text.toList := by
      rw [List.takeWhile_eq_self_iff]
      intro c hc
      exact bne_iff_ne.2 fun hnul => h text hlanguages (hnul ▸ hc)
    rw [Option.map_some, upToNul, hfront, String.ofList_toList]

theorem namesEnglishAmongSeveral_of_inEnglishAndAnother
    (hnul : IsNulFree m) (h : InEnglishAndAnother m) :
    NamesEnglishAmongSeveral m := by
  obtain ⟨henglish, t, ht, -, hother⟩ := h
  rw [NamesEnglishAmongSeveral, frontLanguages_eq hnul]
  refine ⟨?_, "English", henglish, _, List.infix_rfl, rfl⟩
  by_contra hshort
  have hlength : (languagesOf m.languages).length = 1 := by
    have hpos := List.length_pos_of_mem ht
    omega
  obtain ⟨only, honly⟩ := List.length_eq_one_iff.1 hlength
  rw [honly, List.mem_singleton] at henglish ht
  exact hother (ht.trans henglish.symm)

theorem namesEnglishAmongSeveral_iff (hnul : IsNulFree m) (h : PlainLanguages m) :
    NamesEnglishAmongSeveral m ↔ InEnglishAndAnother m := by
  refine ⟨fun hseveral => ?_, namesEnglishAmongSeveral_of_inEnglishAndAnother hnul⟩
  rw [NamesEnglishAmongSeveral, frontLanguages_eq hnul] at hseveral
  obtain ⟨hlength, t, ht, hholds⟩ := hseveral
  refine ⟨h.english t ht hholds ▸ ht, ?_⟩
  by_contra hnone
  push Not at hnone
  have hall : ∀ t ∈ languagesOf m.languages, t = "English" :=
    fun t ht => hnone t ht fun hblank => h.present (hblank ▸ ht)
  have hnodup := h.nodup
  rw [List.eq_replicate_of_mem hall, List.nodup_replicate] at hnodup
  omega

/-- What is listed are the movies with two languages or more and English in the name of one; among
them are all those in English and another language, and no others where the languages are plain. -/
theorem inEnglishAndMore_reports {w : World} (hw : Askable w) :
    inEnglishAndMore.Reports w (sortBy [.up 0] <|
        (w.data.rowsOf .movie |>.filter fun m => NamesEnglishAmongSeveral m).map fun m =>
          [.text m.title, .ofText? m.languages]) ∧
      (∀ m, IsNulFree m → InEnglishAndAnother m → NamesEnglishAmongSeveral m) ∧
      ∀ m, IsNulFree m → PlainLanguages m →
        (NamesEnglishAmongSeveral m ↔ InEnglishAndAnother m) := by
  refine ⟨reports_of_rows (by simp [catalog]) hw (fun _ => ?_) fun row hrow => ?_,
    fun _ => namesEnglishAmongSeveral_of_inEnglishAndAnother, fun _ => namesEnglishAmongSeveral_iff⟩
  · rw [filter_namesEnglishAmongSeveral]
    rfl
  · obtain ⟨m, -, rfl⟩ := List.mem_map.1 (mem_orderBy.1 hrow)
    exact le_rfl

def spoken (id title languages : String) : MovieRow :=
  ⟨some id, title, .null, none, .null, none, none, some languages, none, .null⟩

/-- Four movies whose languages hold a comma; in English and another language is the first alone. -/
def polyglots : World :=
  World.inMemory
    { Store.empty with
      movie := some (numberedFrom 1
        [spoken "a" "Alpha" "English, French", spoken "b" "Beta" "English,",
         spoken "c" "Gamma" "Old English, French", spoken "d" "Delta" "French, German"])
      genre := some []
      names := some []
      directorMapping := some []
      roleMapping := some []
      ratings := some []
      movieCountry := some []
      movieLanguage := some []
      hasAmount := true } []

theorem inEnglishAndMore_reports_polyglots :
    (polyglots.data.rowsOf .movie).filter (fun m => InEnglishAndAnother m) =
        [spoken "a" "Alpha" "English, French"] ∧
      inEnglishAndMore.Reports polyglots
        [[.text "Alpha", .text "English, French"], [.text "Beta", .text "English,"],
         [.text "Gamma", .text "Old English, French"]] := by
  have hrows : (sortBy [.up 0] <|
      (polyglots.data.rowsOf .movie |>.filter fun m => NamesEnglishAmongSeveral m).map fun m =>
        [.text m.title, .ofText? m.languages]) =
      [[.text "Alpha", .text "English, French"], [.text "Beta", .text "English,"],
       [.text "Gamma", .text "Old English, French"]] := by
    have hfilter : (polyglots.data.rowsOf .movie).filter namesEnglishAndMore =
        [spoken "a" "Alpha" "English, French", spoken "b" "Beta" "English,",
         spoken "c" "Gamma" "Old English, French"] := by
      decide +kernel
    rw [filter_namesEnglishAmongSeveral, hfilter]
    exact List.mergeSort_of_pairwise (by decide)
  exact ⟨by decide +kernel, hrows ▸ (inEnglishAndMore_reports ⟨rfl, by decide, rfl⟩).1⟩

end Query.Movies
end FilmReport
