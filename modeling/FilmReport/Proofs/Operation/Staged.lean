import FilmReport.Proofs.Normalize.Failure
import FilmReport.Proofs.Operation.Lasting
import FilmReport.Proofs.Store.Membership

/-!
Staging long before publishing. Whatever is done in between that neither stages nor publishes the
kind, publishing puts the memberships that were staged in place of the published ones if their
movies are there, and does nothing otherwise; before it no membership comes, and only those of
deleted movies go (`Course.on_publish_of_stage`).
-/

set_option autoImplicit false
set_option relaxedAutoImplicit false

namespace FilmReport

open World Act Store Normalize

namespace Normalize

variable {kind : MembershipKind} {options : SplitOptions} {w v : World} {r : Rebuild}

/-- Staging leaves a store after all migrations. -/
theorem isMigrated_of_on_stage (hw : w.data.IsMigrated)
    (h : (stage kind options).on w = (.ok r, v)) : v.data.IsMigrated := by
  -- Staging one kind spares the other one.
  obtain ⟨other, hother⟩ : ∃ other, kind ≠ other := by
    cases kind with
    | country => exact ⟨.language, by decide⟩
    | language => exact ⟨.country, by decide⟩
  have hkeeps : Keeps (w.data.Kept other) (stage kind options) :=
    keeps_stage options fun st hst => Statement.preserves_kept
      (Request.spares_of_stages hother (Or.inl hst))
      (Request.isPlain_of_stages (Or.inl hst)).sparesMovies
  have hkept := (whole_stage kind options).orderly.data_of_keeps hkeeps trivial (Kept.refl hw)
  rw [h] at hkept
  exact hkept.isMigrated

/-- What is staged after a staging are the memberships of all movies. -/
theorem staged_of_on_stage (h : (stage kind options).on w = (.ok r, v)) :
    ∃ rows, v.data.stagedOf kind = some rows ∧ WellPlaced (rows.map (·.row)) ∧
      (rows.map (·.row)).Perm (membershipsOf kind options (w.data.rowsOf .movie)) ∧
      v.data.live kind = w.data.live kind := by
  have hready := demands_stage kind options w v r h
  obtain ⟨movies, old, hmovies, -, -, hstageable, -, hdata⟩ :=
    (computes_stage kind options).of_on hready h
  refine ⟨_, hdata ▸ stagedOf_withStaged kind _ _, ?_, ?_, ?_⟩
  · rw [map_row_numberedFrom]
    exact stageable_iff.1 hstageable
  · rw [map_row_numberedFrom, rowsOf_of_eq_some (t := .movie) hmovies]
    exact (orderBy_perm _ _).symm.trans (perm_membershipRows kind options _)
  · rw [live, live, hdata, publishedOf_withStaged]

/-- Publishing that fails reports where it failed. -/
theorem exists_of_on_publish_error (hw : w.Ready) {e : Failure}
    (h : (publish kind).on w = (.error e, v)) :
    ∃ cause, e = .fault (rebuildFault kind "publish" cause) := by
  let work : Act Nat := do
    let _ ← Act.change fun s => s.clear kind.published
    let n ← Act.change fun s => s.publishStaged kind
    let _ ← Act.change fun s => s.clear kind.staging
    pure n
  have horderly : Orderly work :=
    (OrderlyFrom.change fun s _ => sound_clear kind.published s).andThen fun _ =>
      (OrderlyFrom.change fun s _ => sound_publishStaged kind s).andThen fun n =>
        (OrderlyFrom.change fun s _ => sound_clear kind.staging s).andThen fun _ =>
          OrderlyFrom.pure n
  have hraises : Reports work fun _ => False :=
    (Reports.change _).bind fun _ => (Reports.change _).bind fun n =>
      (Reports.change _).bind fun _ => Reports.pure n
  obtain ⟨u, u', e', hon, -, -, hfault⟩ :=
    exists_on_of_inTransaction_error (horderly.reporting _) hw.isOpen h
  obtain ⟨cause, rfl⟩ := hraises.exists_of_on_reporting_error hon
  exact ⟨cause, hfault _ rfl⟩

/-- Well-placed memberships that are staged are published if their movies are there, and stay staged
otherwise. -/
theorem on_publish_of_staged (hw : w.Ready) (hs : w.data.IsMigrated)
    {rows : List (Numbered MembershipRow)} (hstaged : w.data.stagedOf kind = some rows)
    (hplaced : WellPlaced (rows.map (·.row))) :
    ((∀ m ∈ rows, m.row.movieId ∈ w.data.identifiers .movie) →
      ∃ v, (publish kind).on w = (.ok rows.length, v) ∧
        v.data.publishedOf kind = some (numberedFrom 1 (byPlace (rows.map (·.row)))) ∧
        v.data.stagedOf kind = some []) ∧
    ((∃ m ∈ rows, m.row.movieId ∉ w.data.identifiers .movie) →
      ∃ cause v, (publish kind).on w = (.error (.fault (rebuildFault kind "publish" cause)), v) ∧
        v.data = w.data) := by
  have hperm : (byPlace (rows.map (·.row))).Perm (rows.map (·.row)) := orderBy_perm _ _
  have hmovie : w.data.movie.isSome := hs.tables .movie
  have hpublishable : w.data.Publishable (byPlace (rows.map (·.row))) kind ↔
      ∀ m ∈ rows, m.row.movieId ∈ w.data.identifiers .movie := by
    rw [publishable_iff hmovie, and_iff_right (hplaced.perm hperm.symm)]
    simp only [hperm.mem_iff, List.forall_mem_map]
  constructor
  · intro hmovies
    obtain ⟨old, hold⟩ : ∃ old, w.data.publishedOf kind = some old := by
      cases kind with
      | country => exact hs.exists_get .movieCountry
      | language => exact hs.exists_get .movieLanguage
    obtain ⟨v, hon, hdata, -⟩ := (computes_publish kind).exists_on hw
      ⟨old, rows, hold, hstaged, hmovie, hpublishable.2 hmovies, rfl, rfl⟩
    refine ⟨v, hon, ?_, ?_⟩
    · rw [hdata, publishedOf_withStaged, publishedOf_withPublished]
    · rw [hdata, stagedOf_withStaged]
  · rintro ⟨m, hm, hgone⟩
    rcases hon : (publish kind).on w with ⟨e | n, v⟩
    · obtain ⟨cause, rfl⟩ := exists_of_on_publish_error hw hon
      exact ⟨cause, v, rfl, (whole_publish kind).undone hon⟩
    · obtain ⟨old, staged, -, hstaged', -, hadmitted, -⟩ := (computes_publish kind).of_on hw hon
      obtain rfl := Option.some.inj (hstaged.symm.trans hstaged')
      exact absurd (hpublishable.1 hadmitted m hm) hgone

end Normalize

namespace Course

variable {kind : MembershipKind} {options : SplitOptions} {w v : World} {r : Rebuild}
  {course : Course}

/--
After a staging and whatever else is done that neither stages nor publishes the kind, a publishing
answers how many memberships were staged and leaves just these, as the movies gave them when they
were staged, if all their movies are there; otherwise it fails and leaves everything as it was.
Until then no membership is published that was not before, and one that was is gone only where its
movie was not there on the way.
-/
theorem on_publish_of_stage (hw : w.data.IsMigrated)
    (hstage : (stage kind options).on w = (.ok r, v)) (hspares : course.Spares kind) :
    let staged := membershipsOf kind options (w.data.rowsOf .movie)
    let u := (course.act.on v).2
    (∀ x ∈ course.visited v, (x.data.live kind).Sublist (w.data.live kind) ∧
      ∃ seen, course.Reaches v seen x ∧ ∀ m ∈ w.data.live kind, m ∈ x.data.live kind ∨
        ∃ y ∈ seen, m.row.movieId ∉ y.data.identifiers .movie) ∧
    ((∀ m ∈ staged, m.movieId ∈ u.data.identifiers .movie) →
      ∃ x rows, (publish kind).on u = (.ok staged.length, x) ∧
        x.data.publishedOf kind = some rows ∧ (rows.map (·.row)).Perm staged ∧
        x.data.stagedOf kind = some []) ∧
    ((∃ m ∈ staged, m.movieId ∉ u.data.identifiers .movie) →
      ∃ cause x, (publish kind).on u = (.error (.fault (rebuildFault kind "publish" cause)), x) ∧
        x.data = u.data) := by
  intro staged u
  have hv := isMigrated_of_on_stage hw hstage
  obtain ⟨rows, hrows, hplaced, hperm, hlive⟩ := staged_of_on_stage hstage
  have hready : u.Ready := by
    have hstaged := (whole_stage kind options).orderly.continues_of_on hstage
    have hcourse : Continues v u := (orderly_of_spares hspares).continues trivial
    exact (hstaged.trans hcourse).ready.2 (demands_stage kind options w v r hstage)
  obtain ⟨hu, hkept⟩ := isMigrated_of_spares hspares hv
  obtain ⟨hpublishes, hfails⟩ := on_publish_of_staged hready hu (hkept.trans hrows) hplaced
  have hmem : ∀ m, m ∈ staged ↔ ∃ n ∈ rows, n.row = m := fun m => by
    rw [← hperm.mem_iff, List.mem_map]
  refine ⟨fun x hx => ?_, fun hmovies => ?_, fun hgone => ?_⟩
  · obtain ⟨seen, hseen⟩ := exists_reaches hx
    have hlasts := hseen.lasts hspares hv
    rw [← hlive]
    exact ⟨hlasts.live, seen, hseen, hlasts.lost⟩
  · obtain ⟨x, hon, hpublished, hempty⟩ :=
      hpublishes fun n hn => hmovies _ ((hmem _).2 ⟨n, hn, rfl⟩)
    have hlength : rows.length = staged.length := by
      rw [← hperm.length_eq, List.length_map]
    refine ⟨x, _, hlength ▸ hon, hpublished, ?_, hempty⟩
    rw [map_row_numberedFrom]
    exact (orderBy_perm _ _).trans hperm
  · obtain ⟨m, hm, hgone⟩ := hgone
    obtain ⟨n, hn, rfl⟩ := (hmem m).1 hm
    exact hfails ⟨n, hn, hgone⟩

/-- A film with two countries. -/
def twoCountries : MovieRow :=
  ⟨some "tt1", "Film", .null, none, .null, some "Chad, Peru", none, none, none, .null⟩

/-- The film, which is published with a third country. -/
def published : Store :=
  { blank with
    movie := some [⟨1, twoCountries⟩]
    movieCountry := some [⟨1, ⟨"tt1", .int 1, "Togo"⟩⟩] }

theorem isMigrated_published : published.IsMigrated := by
  have hrefuse {t : Table} : ∀ f : t.Row → t.Row → t.Row, Conflict.refuse = .merge f → Merges t f :=
    fun f hf => (by cases hf)
  have hfilm : blank.insert .movie .refuse twoCountries =
      .ok { blank with movie := some [⟨1, twoCountries⟩] } := rfl
  have htogo : Store.insert .movieCountry .refuse (⟨"tt1", .int 1, "Togo"⟩ : MembershipRow)
      { blank with movie := some [⟨1, twoCountries⟩] } = .ok published := rfl
  exact (isMigrated_blank.insert hrefuse hfilm).insert hrefuse htogo

/-- The film gets another country; then it is deleted and written again. -/
def edits : Course :=
  .call ⟨.operation (.write .movies (some (.array [film "Fiji"]))), []⟩ <|
  .call ⟨.delete .movie "id" (.text "tt1"), []⟩ <|
  .call ⟨.operation (.write .movies (some (.array [film "Oman"]))), []⟩ .done
where
  film (country : String) : Json :=
    .object (Dataset.Movie.fields
      ⟨"tt1", "Film", none, none, none, some country, none, none, none⟩)

theorem spares_edits : edits.Spares .country := by
  have hmovies : ∃ types, (Dataset.RowKind.movies, types) ∈ Dataset.declared := ⟨_, .head _⟩
  have hdeletes : Table.movie ∉ MembershipKind.country.tables := by decide
  exact List.forall_mem_cons.2 ⟨hmovies,
    List.forall_mem_cons.2 ⟨hdeletes, List.forall_mem_singleton.2 hmovies⟩⟩

/-- The countries of the film as it was when they were staged are published. -/
theorem on_publish_of_edits : published.IsMigrated ∧ edits.Spares .country ∧
    ∃ r v, (stage .country .standard).on (World.inMemory published []) = (.ok r, v) ∧
      ∃ x rows, (publish .country).on (edits.act.on v).2 = (.ok 2, x) ∧
        x.data.publishedOf .country = some rows ∧
        (rows.map (·.row)).Perm [⟨"tt1", .int 1, "Chad"⟩, ⟨"tt1", .int 2, "Peru"⟩] := by
  let w := World.inMemory published []
  have hreturns : (stage .country .standard).returns w (fun _ _ => true) = true := by
    decide +kernel
  obtain ⟨r, v, hon, -⟩ := exists_on_of_returns hreturns
  have hstaged : membershipsOf .country .standard (w.data.rowsOf .movie) =
      [⟨"tt1", .int 1, "Chad"⟩, ⟨"tt1", .int 2, "Peru"⟩] := by
    decide +kernel
  have hthere : "tt1" ∈
      (edits.act.on ((stage .country .standard).on w).2).2.data.identifiers .movie := by
    decide +kernel
  obtain ⟨-, hpublishes, -⟩ := on_publish_of_stage (w := w) isMigrated_published hon spares_edits
  rw [hon] at hthere
  rw [hstaged] at hpublishes
  obtain ⟨x, rows, hpublish, hrows, hperm, -⟩ :=
    hpublishes (List.forall_mem_cons.2 ⟨hthere, List.forall_mem_singleton.2 hthere⟩)
  exact ⟨isMigrated_published, spares_edits, r, v, hon, x, rows, hpublish, hrows, hperm⟩

end Course
end FilmReport
