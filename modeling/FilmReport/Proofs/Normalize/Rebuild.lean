import FilmReport.Proofs.Operation.Orderly
import FilmReport.Proofs.Session.Computes
import FilmReport.Proofs.Store.Insert
import FilmReport.Proofs.Store.Membership

/-!
Coercion of amounts, and rebuilding of memberships: which movies can be read as sources, what a
coercion computes, and what staging, publishing and both together compute.
-/

set_option autoImplicit false
set_option relaxedAutoImplicit false

namespace FilmReport.Normalize

open Shape

theorem text_of_le {least : Nat} {s : String} (h : least ≤ s.length) :
    Shape.text least (some (.string s)) = .valid s := by
  rw [Shape.text, shortness, if_neg (Nat.not_lt.2 h)]
  rfl

/-- A text that may be missing has every shape that is asked of it. -/
theorem nullable_text (value : Option String) :
    nullable (Shape.text 0) (some (Json.ofOption .string value)) = .valid value := by
  cases value with
  | none => rfl
  | some s =>
    change (Shape.text 0 (some (.string s))).map some = _
    rw [text_of_le (Nat.zero_le _)]
    rfl

namespace Source

/-- A field has the shape of a source just if its movie has an identifier that is not empty. -/
theorem check_eq_ok {rawName : String} (hname : rawName ≠ "movieId") {id raw : Option String}
    {source : Source} :
    (check rawName (some (.object (fields rawName id raw)))).toExcept = .ok source ↔
      id = some source.movieId ∧ source.movieId ≠ "" ∧ raw = source.raw := by
  have hid : Fields.get? "movieId" (fields rawName id raw) = some (Json.ofOption .string id) := by
    rw [fields, Fields.get?_cons, if_pos rfl]
  have hraw : Fields.get? rawName (fields rawName id raw) = some (Json.ofOption .string raw) := by
    rw [fields, Fields.get?_cons, if_neg hname.symm, Fields.get?_cons, if_pos rfl]
  rw [check, record, at_, at_, hid, hraw, nullable_text]
  obtain ⟨movieId, text⟩ := source
  cases id with
  | none =>
    constructor <;> intro h
    · cases h
    · cases h.1
  | some s =>
    change ((Source.mk <$> (Shape.text 1 (some (.string s))).within (.field "movieId") <*>
      (Checked.valid raw).within (.field rawName) : Checked Source)).toExcept = _ ↔ _
    by_cases hs : s = ""
    · subst hs
      constructor
      · intro h
        cases h
      · rintro ⟨hmovie, hne, -⟩
        exact absurd (Option.some.inj hmovie).symm hne
    · have hlength : 1 ≤ s.length :=
        Nat.one_le_iff_ne_zero.2 fun h => hs (String.length_eq_zero_iff.1 h)
      rw [text_of_le hlength]
      constructor
      · intro h
        obtain ⟨rfl, rfl⟩ := Source.mk.inj (Except.ok.inj h)
        exact ⟨rfl, hs, rfl⟩
      · rintro ⟨hmovie, -, rfl⟩
        rw [Option.some.inj hmovie]
        rfl

/-- The source that a movie with an identifier is. -/
def ofMovie (raw : Store.MovieRow → Option String) (m : Store.MovieRow) : Source :=
  ⟨m.id.getD "", raw m⟩

/-- All movies have an identifier that is not empty. -/
def Identified (rows : List Store.MovieRow) : Prop :=
  ∀ m ∈ rows, ∃ id, m.id = some id ∧ id ≠ ""

theorem read_eq_ok {rawName : String} (hname : rawName ≠ "movieId")
    {raw : Store.MovieRow → Option String} {rows : List Store.MovieRow} {sources : List Source} :
    read rawName raw rows = .ok sources ↔ Identified rows ∧ sources = rows.map (ofMovie raw) := by
  induction rows generalizing sources with
  | nil =>
    constructor
    · intro h
      exact ⟨fun m hm => absurd hm List.not_mem_nil, (Except.ok.inj h).symm⟩
    · rintro ⟨-, rfl⟩
      rfl
  | cons m rest ih =>
    rw [read]
    cases hcheck : (check rawName (some (.object (fields rawName m.id (raw m))))).toExcept with
    | error issues =>
      constructor
      · intro h
        cases h
      · intro h
        obtain ⟨id, hid, hne⟩ := h.1 m List.mem_cons_self
        have hok : (check rawName (some (.object (fields rawName m.id (raw m))))).toExcept =
            .ok ⟨id, raw m⟩ := (check_eq_ok hname).2 ⟨hid, hne, rfl⟩
        rw [hcheck] at hok
        cases hok
    | ok source =>
      obtain ⟨hid, hne, hraw⟩ := (check_eq_ok hname).1 hcheck
      have hsource : source = ofMovie raw m := by
        rw [ofMovie, hid, hraw]
        rfl
      dsimp only
      constructor
      · intro h
        cases hrest : read rawName raw rest with
        | error issues =>
          rw [hrest] at h
          cases h
        | ok found =>
          rw [hrest] at h
          obtain ⟨hidentified, rfl⟩ := ih.1 hrest
          refine ⟨List.forall_mem_cons.2 ⟨⟨_, hid, hne⟩, hidentified⟩, ?_⟩
          rw [List.map_cons, ← hsource]
          exact (Except.ok.inj h).symm
      · rintro ⟨hidentified, rfl⟩
        rw [ih.2 ⟨(List.forall_mem_cons.1 hidentified).2, rfl⟩, hsource]
        rfl

end Source

open Store Act

theorem identified_byId {rows : List MovieRow} :
    Source.Identified (byId rows) ↔ Source.Identified rows := by
  constructor
  · intro h m hm
    exact h m (mem_orderBy.2 hm)
  · intro h m hm
    exact h m (mem_orderBy.1 hm)

/-- What a coercion does: every movie has an identifier, and the amounts are set. -/
def Coerced (s : Store) (c : Coercion) (s' : Store) : Prop :=
  ∃ movies, s.movie = some movies ∧ s.hasAmount = true ∧
    Source.Identified (movies.map (·.row)) ∧
    c = Coercion.ofSources ((byId (movies.map (·.row))).map (Source.ofMovie (·.grossIncome))) ∧
    s' = setAmounts s

theorem setAmounts_nil {s : Store} (h : s.movie = some []) : setAmounts s = s := by
  obtain ⟨movie, _, _, _, _, _, _, _, _, _, _, _, _, _⟩ := s
  obtain rfl : movie = some [] := h
  rfl

theorem amountsWritable_eq_ok {s : Store} {u : Unit} :
    amountsWritable s = .ok u ↔ s.hasAmount = true := by
  rw [amountsWritable]
  cases s.hasAmount
  · constructor <;> intro h <;> cases h
  · exact ⟨fun _ => rfl, fun _ => rfl⟩

/-- Movies are read as sources if they all are some; else nothing is done. -/
theorem computes_read {α : Type} {rawName : String} (hname : rawName ≠ "movieId")
    {raw : MovieRow → Option String} {rows : List MovieRow} {fault : List Issue → Fault}
    {f : List Source → Act α} {R : Store → α → Store → Prop}
    (hf : Computes (f ((byId rows).map (Source.ofMovie raw))) R) :
    Computes (match Source.read rawName raw (byId rows) with
      | .error issues => report (fault issues)
      | .ok sources => f sources) fun s a s' => Source.Identified rows ∧ R s a s' := by
  cases hread : Source.read rawName raw (byId rows) with
  | error issues =>
    refine (Computes.throw _).of_iff fun s a s' => ⟨False.elim, ?_⟩
    rintro ⟨hidentified, -⟩
    rw [(Source.read_eq_ok hname).2 ⟨identified_byId.2 hidentified, rfl⟩] at hread
    cases hread
  | ok sources =>
    obtain ⟨hidentified, rfl⟩ := (Source.read_eq_ok hname).1 hread
    refine hf.of_iff fun s a s' => ⟨fun h => ⟨identified_byId.1 hidentified, h⟩, fun h => h.2⟩

theorem isEmpty_sources (raw : MovieRow → Option String) (rows : List MovieRow) :
    ((byId rows).map (Source.ofMovie raw)).isEmpty = rows.isEmpty := by
  rw [List.isEmpty_map, Bool.eq_iff_iff, List.isEmpty_iff_length_eq_zero,
    List.isEmpty_iff_length_eq_zero, byId, (orderBy_perm _ rows).length_eq]

/-- Without movies it makes no difference whether the amounts are set. -/
theorem ite_setAmounts {s : Store} {movies : List (Numbered MovieRow)}
    (h : s.movie = some movies) :
    (if (movies.map (·.row)).isEmpty then s else setAmounts s) = setAmounts s := by
  split
  · next hempty =>
    rw [List.isEmpty_map, List.isEmpty_iff] at hempty
    exact (setAmounts_nil (hempty ▸ h)).symm
  · rfl

/-- The warnings of a coercion are written without a trace in the data. -/
theorem computes_warnings {log : Fault → Act Unit}
    (hlog : ∀ w, Computes (log w) fun s _ s' => s' = s) (c : Coercion) :
    Computes (c.warnings.forM log >>= fun _ => pure c) fun s c' s' => c' = c ∧ s' = s := by
  refine (((Computes.forM hlog c.warnings).of_iff fun _ _ _ => Computes.chain_eq).bind fun _ =>
    Computes.pure c).of_iff ?_
  intro s c' s'
  constructor
  · rintro ⟨-, t, rfl, h⟩
    exact h
  · intro h
    exact ⟨⟨⟩, s, rfl, h⟩

theorem computes_coerce (logger : Journal.Logger) : Computes (coerce logger) Coerced := by
  refine ((((Computes.look _).bind (S := fun rows s c s' => s.hasAmount = true ∧
    Source.Identified rows ∧
    c = Coercion.ofSources ((byId rows).map (Source.ofMovie (·.grossIncome))) ∧
    s' = if rows.isEmpty then s else setAmounts s) fun rows => ?_).reporting _).inTransaction
    _).of_iff ?_
  · refine ((Computes.look _).bind fun _ => computes_read (by decide)
      (R := fun s c s' =>
        c = Coercion.ofSources ((byId rows).map (Source.ofMovie (·.grossIncome))) ∧
        s' = if rows.isEmpty then s else setAmounts s) ?_).of_iff ?_
    · rw [isEmpty_sources]
      split
      · exact computes_warnings (fun w => Computes.log _ _ _ _) _
      · refine ((Computes.change fun s => sound_done () (setAmounts s) s).bind fun _ =>
          computes_warnings (fun w => Computes.log _ _ _ _) _).of_iff fun s c s' => ?_
        constructor
        · rintro ⟨u, t, hset, rfl, rfl⟩
          obtain ⟨-, rfl⟩ := Prod.mk.inj (Except.ok.inj hset)
          exact ⟨rfl, rfl⟩
        · rintro ⟨rfl, rfl⟩
          exact ⟨(), _, rfl, rfl, rfl⟩
    · intro s c s'
      constructor
      · rintro ⟨u, t, ⟨hamount, rfl⟩, h⟩
        exact ⟨amountsWritable_eq_ok.1 hamount, h⟩
      · rintro ⟨hamount, h⟩
        exact ⟨(), s, ⟨amountsWritable_eq_ok.2 hamount, rfl⟩, h⟩
  · intro s c s'
    constructor
    · rintro ⟨rows, t, ⟨hrows, rfl⟩, hamount, hidentified, rfl, rfl⟩
      obtain ⟨movies, hmovies, rfl⟩ := rows?_eq_ok.1 hrows
      exact ⟨movies, hmovies, hamount, hidentified, rfl, ite_setAmounts hmovies⟩
    · rintro ⟨movies, hmovies, hamount, hidentified, rfl, rfl⟩
      exact ⟨_, s, ⟨rows?_eq_ok.2 ⟨movies, hmovies, rfl⟩, rfl⟩, hamount, hidentified, rfl,
        (ite_setAmounts hmovies).symm⟩

end FilmReport.Normalize

namespace FilmReport.Normalize

open Store Act

/-- The sources that movies are for a kind, in the order of their identifiers. -/
def sourcesOf (kind : MembershipKind) (movies : List MovieRow) : List Source :=
  (byId movies).map (Source.ofMovie kind.source)

/-- The rows of the memberships of movies, in the order of their identifiers. -/
def membershipRows (kind : MembershipKind) (options : SplitOptions) (movies : List MovieRow) :
    List MembershipRow :=
  (memberships (sourcesOf kind movies) options).map Membership.row

/-- What staging does: the memberships of all movies stand in place of what was staged. -/
def Staged (kind : MembershipKind) (options : SplitOptions) (s : Store) (r : Rebuild)
    (s' : Store) : Prop :=
  ∃ movies old, s.movie = some movies ∧ s.stagedOf kind = some old ∧
    Source.Identified (movies.map (·.row)) ∧
    s.Stageable (membershipRows kind options (movies.map (·.row))) kind ∧
    r = Rebuild.ofSources kind (sourcesOf kind (movies.map (·.row))) options ∧
    s' = s.withStaged (numberedFrom 1 (membershipRows kind options (movies.map (·.row)))) kind

theorem stageAll_eq_ok {kind : MembershipKind} {staged : List Membership} {s s' : Store}
    {u : Unit} (hold : s.stagedOf kind = some []) :
    (stageAll kind staged s).result = .ok (u, s') ↔ s.Stageable (staged.map Membership.row) kind ∧
      s' = s.withStaged (numberedFrom 1 (staged.map Membership.row)) kind := by
  rw [← stageRows_eq_ok hold, List.foldlM_map]
  change (staged.foldlM (fun (acc : Store) (m : Membership) => acc.stageRow m.row kind) s).map _ =
    _ ↔ _
  cases staged.foldlM (fun (acc : Store) (m : Membership) => acc.stageRow m.row kind) s with
  | error e =>
    constructor <;> intro h <;> cases h
  | ok t =>
    constructor
    · intro h
      rw [(Prod.mk.inj (Except.ok.inj h)).2]
    · intro h
      rw [Except.ok.inj h]
      rfl

/-- Nothing is written where there is nothing to stage. -/
theorem computes_stageAll (kind : MembershipKind) (staged : List Membership) (answer : Rebuild) :
    Computes (do if staged.isEmpty then pure () else Act.change (stageAll kind staged)
                 pure answer)
      fun s r s' => r = answer ∧ (stageAll kind staged s).result = .ok ((), s') := by
  change Computes (if staged.isEmpty = true then _ else _) _
  split
  · next hempty =>
    refine (Computes.pure _).of_iff fun s r s' => ?_
    rw [List.isEmpty_iff.1 hempty]
    constructor
    · rintro ⟨rfl, rfl⟩
      exact ⟨rfl, rfl⟩
    · rintro ⟨rfl, hresult⟩
      exact ⟨rfl, (Prod.mk.inj (Except.ok.inj hresult)).2.symm⟩
  · refine ((Computes.change fun s => sound_stageAll kind _ s).bind fun _ =>
      Computes.pure _).of_iff fun s r s' => ?_
    constructor
    · rintro ⟨u, t, hresult, rfl, rfl⟩
      exact ⟨rfl, hresult⟩
    · rintro ⟨rfl, hresult⟩
      exact ⟨(), s', hresult, rfl, rfl⟩

/-- The table is cleared before, so that only what is staged counts. -/
theorem clear_stageAll_iff {kind : MembershipKind} {staged : List Membership} {s s' : Store} :
    (∃ n t, (s.clear kind.staging).result = .ok (n, t) ∧
        (stageAll kind staged t).result = .ok ((), s')) ↔
      ∃ old, s.stagedOf kind = some old ∧ s.Stageable (staged.map Membership.row) kind ∧
        s' = s.withStaged (numberedFrom 1 (staged.map Membership.row)) kind := by
  constructor
  · rintro ⟨n, t, hclear, hresult⟩
    obtain ⟨old, hold, -, rfl⟩ := clear_staged_eq_ok.1 hclear
    obtain ⟨hstageable, rfl⟩ := (stageAll_eq_ok (stagedOf_withStaged kind s [])).1 hresult
    exact ⟨old, hold, (stageable_withStaged []).1 hstageable, withStaged_withStaged kind s _ _⟩
  · rintro ⟨old, hold, hstageable, rfl⟩
    refine ⟨old.length, s.withStaged [] kind, clear_staged_eq_ok.2 ⟨old, hold, rfl, rfl⟩,
      (stageAll_eq_ok (stagedOf_withStaged kind s [])).2 ⟨?_, ?_⟩⟩
    · exact (stageable_withStaged []).2 hstageable
    · exact (withStaged_withStaged kind s _ _).symm

theorem computes_stage (kind : MembershipKind) (options : SplitOptions) :
    Computes (stage kind options) (Staged kind options) := by
  refine ((((Computes.look _).bind fun rows => (Computes.change fun s =>
    sound_clear kind.staging s).bind fun _ => computes_read (by decide)
      (computes_stageAll kind (memberships (sourcesOf kind rows) options)
        (Rebuild.ofSources kind (sourcesOf kind rows) options))).reporting
          _).inTransaction _).of_iff ?_
  intro s r s'
  constructor
  · rintro ⟨rows, t, ⟨hrows, rfl⟩, n, u, hclear, hidentified, rfl, hresult⟩
    obtain ⟨movies, hmovies, rfl⟩ := rows?_eq_ok.1 hrows
    obtain ⟨old, hold, hstaged⟩ := clear_stageAll_iff.1 ⟨n, u, hclear, hresult⟩
    exact ⟨movies, old, hmovies, hold, hidentified, hstaged.1, rfl, hstaged.2⟩
  · rintro ⟨movies, old, hmovies, hold, hidentified, hstageable, rfl, hs'⟩
    obtain ⟨n, u, hclear, hresult⟩ := clear_stageAll_iff.2 ⟨old, hold, hstageable, hs'⟩
    exact ⟨_, s, ⟨rows?_eq_ok.2 ⟨movies, hmovies, rfl⟩, rfl⟩, n, u, hclear, hidentified, rfl,
      hresult⟩

/-- What publishing does: what is staged stands in place of what was published. -/
def Published (kind : MembershipKind) (s : Store) (n : Nat) (s' : Store) : Prop :=
  ∃ old staged, s.publishedOf kind = some old ∧ s.stagedOf kind = some staged ∧
    s.movie.isSome ∧ s.Publishable (byPlace (staged.map (·.row))) kind ∧ n = staged.length ∧
    s' = (s.withPublished (numberedFrom 1 (byPlace (staged.map (·.row)))) kind).withStaged [] kind

theorem computes_publish (kind : MembershipKind) : Computes (publish kind) (Published kind) := by
  refine ((((Computes.change fun s => sound_clear kind.published s).bind fun _ =>
    (Computes.change fun s => sound_publishStaged kind s).bind fun n =>
    (Computes.change fun s => sound_clear kind.staging s).bind fun _ =>
    Computes.pure n).reporting _).inTransaction _).of_iff fun s n s' => ?_
  constructor
  · rintro ⟨k, t, hclear, m, u, hpublish, l, v, hunstage, rfl, rfl⟩
    obtain ⟨old, hold, hmovie, -, rfl⟩ := clear_published_eq_ok.1 hclear
    obtain ⟨staged, hstaged, -, hpublishable, rfl, rfl⟩ :=
      (publishStaged_eq_ok (publishedOf_withPublished kind s [])).1 hpublish
    obtain ⟨-, -, -, rfl⟩ := clear_staged_eq_ok.1 hunstage
    rw [stagedOf_withPublished] at hstaged
    exact ⟨old, staged, hold, hstaged, hmovie, (publishable_withPublished []).1 hpublishable, rfl,
      congrArg (fun t => withStaged t [] kind) (withPublished_withPublished kind s _ _)⟩
  · rintro ⟨old, staged, hold, hstaged, hmovie, hpublishable, rfl, rfl⟩
    have hmovie' : (s.withPublished [] kind).movie.isSome := by
      rw [movie_withPublished]
      exact hmovie
    have hstaged' : (s.withPublished [] kind).stagedOf kind = some staged :=
      (stagedOf_withPublished kind s []).trans hstaged
    refine ⟨_, _, clear_published_eq_ok.2 ⟨old, hold, hmovie, rfl, rfl⟩, _, _,
      (publishStaged_eq_ok (publishedOf_withPublished kind s [])).2
        ⟨staged, hstaged', hmovie', (publishable_withPublished []).2 hpublishable, rfl, rfl⟩,
      staged.length, _, clear_staged_eq_ok.2 ⟨staged, ?_, rfl, rfl⟩, rfl, ?_⟩
    · rw [stagedOf_withPublished, hstaged']
    · rw [withPublished_withPublished]

/-- What a rebuild does: the memberships of all movies stand in place of what was published, and
nothing is staged. -/
def Rebuilt (kind : MembershipKind) (options : SplitOptions) (s : Store) (r : Rebuild)
    (s' : Store) : Prop :=
  ∃ movies, s.movie = some movies ∧ (s.stagedOf kind).isSome ∧ (s.publishedOf kind).isSome ∧
    Source.Identified (movies.map (·.row)) ∧
    s.Stageable (membershipRows kind options (movies.map (·.row))) kind ∧
    s.Publishable (byPlace (membershipRows kind options (movies.map (·.row)))) kind ∧
    r = { Rebuild.ofSources kind (sourcesOf kind (movies.map (·.row))) options with
      insertedRows := (membershipRows kind options (movies.map (·.row))).length } ∧
    s' = (s.withPublished
      (numberedFrom 1 (byPlace (membershipRows kind options (movies.map (·.row))))) kind).withStaged
        [] kind

theorem computes_rebuildWith (logger : Journal.Logger) (kind : MembershipKind)
    (options : SplitOptions) :
    Computes (rebuildWith logger kind options) (Rebuilt kind options) := by
  refine ((computes_stage kind options).bind fun staged => (computes_publish kind).bind fun rows =>
    (Computes.log _ _ _ _).bind fun _ => Computes.pure _).of_iff fun s r s' => ?_
  constructor
  · rintro ⟨staged, t, ⟨movies, old, hmovies, hold, hidentified, hstageable, rfl, rfl⟩, n, u,
      ⟨old', numbered, hold', hnumbered, -, hpublishable, rfl, rfl⟩, -, _, rfl, rfl, rfl⟩
    rw [publishedOf_withStaged] at hold'
    obtain rfl := Option.some.inj ((stagedOf_withStaged kind s _).symm.trans hnumbered)
    rw [map_row_numberedFrom, publishable_withStaged] at hpublishable
    rw [map_row_numberedFrom, length_numberedFrom, withStaged_withPublished]
    exact ⟨movies, hmovies, Option.isSome_of_eq_some hold, Option.isSome_of_eq_some hold',
      hidentified, hstageable, hpublishable, rfl, rfl⟩
  · rintro ⟨movies, hmovies, hold, hold', hidentified, hstageable, hpublishable, rfl, rfl⟩
    obtain ⟨old, hold⟩ := Option.isSome_iff_exists.1 hold
    obtain ⟨old', hold'⟩ := Option.isSome_iff_exists.1 hold'
    refine ⟨_, _, ⟨movies, old, hmovies, hold, hidentified, hstageable, rfl, rfl⟩, _, _,
      ⟨old', _, (publishedOf_withStaged kind kind s _).trans hold', stagedOf_withStaged kind s _,
        ?_, ?_, rfl, rfl⟩, ⟨⟩, _, rfl, ?_, ?_⟩
    · rw [movie_withStaged, hmovies]
      rfl
    · rw [map_row_numberedFrom, publishable_withStaged]
      exact hpublishable
    · rw [length_numberedFrom]
    · rw [map_row_numberedFrom, withStaged_withPublished]

theorem orderly_rebuild (logger : Journal.Logger) (asked : Option Json) (given : Fields) :
    Orderly (rebuild logger asked given) := by
  refine (OrderlyFrom.ofExcept _).andThen fun options => ?_
  split
  · exact (computes_rebuildWith logger _ options).orderly
  · exact (whole_stageAsked asked options).orderly

end FilmReport.Normalize
