import FilmReport.Proofs.Operation.Course
import FilmReport.Proofs.Store.Avoided
import FilmReport.Proofs.Session.Reports

/-!
Requests that spare a kind of memberships: they neither stage nor publish it. What is staged of the
kind outlives them, and of what is published only the rows of deleted movies go away.

Courses of such requests. At every place to which one leads, within transactions and after those that
failed, what was staged of the kind is still staged, and of what was published only the memberships
of movies that were deleted on the way are gone.
-/

set_option autoImplicit false
set_option relaxedAutoImplicit false

namespace FilmReport

open Dataset Normalize Store Act

variable {kind : MembershipKind} {s s' : Store}

/-- The tables of a kind of memberships. -/
def MembershipKind.tables (kind : MembershipKind) : List Table :=
  [kind.published, kind.staging]

theorem MembershipKind.movie_notMem_tables (kind : MembershipKind) : .movie ∉ kind.tables := by
  cases kind <;> decide

/-- The tables of two kinds are different. -/
theorem MembershipKind.notMem_tables_of_ne {other : MembershipKind} (h : other ≠ kind) {t : Table}
    (ht : t ∈ other.tables) : t ∉ kind.tables := by
  cases kind <;> cases other <;> first | exact absurd rfl h | (revert t; decide)

/-- The published memberships of a kind with their numbers. -/
def Store.live (kind : MembershipKind) (s : Store) : List (Numbered MembershipRow) :=
  (s.publishedOf kind).getD []

namespace Store

/-- A store after all migrations in which the tables of a kind are what they are in another one. -/
structure Kept (kind : MembershipKind) (s s' : Store) : Prop where
  isMigrated : s'.IsMigrated
  tables : ∀ t ∈ kind.tables, s'.get t = s.get t

/-- A store after all migrations in which the staged memberships of a kind are what they are in
another one, and the published ones are, but for some whose movie is not there. -/
structure Thinned (kind : MembershipKind) (s s' : Store) : Prop where
  isMigrated : s'.IsMigrated
  staged : s'.stagedOf kind = s.stagedOf kind
  live : (s'.live kind).Sublist (s.live kind)
  lost : ∀ m ∈ s.live kind, m ∈ s'.live kind ∨ m.row.movieId ∉ s'.identifiers .movie

theorem Kept.thinned (h : s.Kept kind s') : s.Thinned kind s' := by
  have hpublished : s'.publishedOf kind = s.publishedOf kind := by
    have hget := h.tables _ List.mem_cons_self
    cases kind <;> exact hget
  have hlive : s'.live kind = s.live kind := congrArg (·.getD []) hpublished
  refine ⟨h.isMigrated, ?_, by rw [hlive], fun m hm => Or.inl (by rwa [hlive])⟩
  have hget := h.tables _ (List.mem_cons_of_mem _ List.mem_cons_self)
  cases kind <;> exact hget

theorem Kept.refl (hs : s.IsMigrated) : s.Kept kind s :=
  ⟨hs, fun _ _ => rfl⟩

/-- Memberships refer to movies only. -/
theorem parent_eq_movie : ∀ t ∈ kind.tables, ∀ ref ∈ (layout t).references,
    ref.parent = .movie := by
  cases kind <;> decide

namespace Change

variable {c : Change}

theorem preserves_kept (hkeys : c.KeepsKeys) (hmovies : c.SparesMovies)
    (h : ∀ t ∈ kind.tables, c.Avoids t) : c.Preserves (s.Kept kind) := by
  intro s₁ s₂ hs hs'
  refine ⟨preserves_isMigrated hkeys hs.isMigrated hs', fun t ht => ?_⟩
  refine (get_of_avoids (h t ht) ?_ hs.isMigrated hs').trans (hs.tables t ht)
  rintro u which rfl ref href
  rw [parent_eq_movie t ht ref href]
  exact Ne.symm hmovies

/-- A deletion of movies takes their memberships along. -/
theorem live_of_delete_movie (hs : s.IsMigrated) {which : Selection .movie} {n : Nat}
    (h : s.delete .movie which = .ok (n, s')) : (s'.live kind).Sublist (s.live kind) ∧
      ∀ m ∈ s.live kind, m ∈ s'.live kind ∨ m.row.movieId ∉ s'.identifiers .movie := by
  have hrows : ∃ rows kept, s.publishedOf kind = some rows ∧ s'.publishedOf kind = some kept ∧
      kept.Sublist rows ∧ ∀ m ∈ rows, m ∈ kept ∨ m.row.movieId ∉ s'.identifiers .movie := by
    cases kind with
    | country =>
      have hof : ∀ ref ∈ (layout .movieCountry).references, ∀ row : MembershipRow,
          ref.of row = some row.movieId := List.forall_mem_singleton.2 fun _ => rfl
      obtain ⟨rows, hget⟩ := hs.exists_get .movieCountry
      obtain ⟨kept, hkept, hlost⟩ := mem_of_delete_movie hs.consistent h (by decide) hof hget
      exact ⟨rows, kept, hget, hkept, hlost⟩
    | language =>
      have hof : ∀ ref ∈ (layout .movieLanguage).references, ∀ row : MembershipRow,
          ref.of row = some row.movieId := List.forall_mem_singleton.2 fun _ => rfl
      obtain ⟨rows, hget⟩ := hs.exists_get .movieLanguage
      obtain ⟨kept, hkept, hlost⟩ := mem_of_delete_movie hs.consistent h (by decide) hof hget
      exact ⟨rows, kept, hget, hkept, hlost⟩
  obtain ⟨rows, kept, hrows, hkept, hlost⟩ := hrows
  rw [live, live, hrows, hkept]
  exact hlost

theorem preserves_thinned_delete (which : Selection .movie) :
    (Change.delete .movie which).Preserves (s.Thinned kind) := by
  intro s₁ s₂ hs hs'
  obtain ⟨n, hdelete⟩ := exists_of_map_snd hs'
  have hmovies : (s₂.live kind).Sublist (s₁.live kind) ∧ _ :=
    live_of_delete_movie hs.isMigrated hdelete
  have hstaged : s₂.stagedOf kind = s₁.stagedOf kind := by
    cases kind with
    | country => exact get_of_delete (u := .stagedCountry) (by decide) (by decide) hdelete
    | language => exact get_of_delete (u := .stagedLanguage) (by decide) (by decide) hdelete
  have hkeys : (Change.delete .movie which).KeepsKeys := trivial
  refine ⟨preserves_isMigrated hkeys hs.isMigrated hs', hstaged.trans hs.staged,
    hmovies.1.trans hs.live, fun m hm => ?_⟩
  rcases hs.lost m hm with hthere | hgone
  · exact hmovies.2 m hthere
  · exact Or.inr (notMem_identifiers_of_delete hdelete hgone)

end Change
end Store

namespace Statement

variable {st : Statement}

/-- A statement that writes in no table of a kind of memberships. -/
def Spares (kind : MembershipKind) : Statement → Prop
  | write written _ => ∃ types, (written, types) ∈ declared
  | clear t => t ∉ kind.tables
  | stage other _ => other ≠ kind
  | publish other => other ≠ kind
  | rule r => ∀ t, named? .notModifiable r.table = .ok t → t ∉ kind.tables
  | delete t _ _ => t ∉ kind.tables
  | _ => True

theorem avoids_of_uses (h : st.Spares kind) {c : Change} (hc : st.Uses s c) :
    c.KeepsKeys ∧ ∀ t ∈ kind.tables, c.Avoids t := by
  have hne {u : Table} (hu : u ∉ kind.tables) : ∀ t ∈ kind.tables, u ≠ t :=
    fun t ht hut => hu (hut ▸ ht)
  have hrefuse {u : Table} (hu : u ∉ kind.tables) (row : u.Row) :
      (Change.insert u .refuse row).KeepsKeys ∧
        ∀ t ∈ kind.tables, (Change.insert u .refuse row).Avoids t :=
    ⟨fun _ hf => (by cases hf), hne hu⟩
  cases st with
  | write written cells =>
    obtain ⟨row, -, rfl⟩ := hc
    obtain ⟨types, hdeclared⟩ := h
    refine ⟨RowKind.keepsKeys hdeclared row, hne ?_⟩
    have hall : ∀ x ∈ declared, x.1.table ∉ kind.tables := by cases kind <;> decide
    exact hall _ hdeclared
  | stage other staged =>
    obtain ⟨m, -, rfl⟩ := hc
    have hstaging : other.staging ∉ kind.tables :=
      MembershipKind.notMem_tables_of_ne h (List.mem_cons_of_mem _ List.mem_cons_self)
    cases other <;> exact hrefuse hstaging m.row
  | publish other =>
    obtain ⟨rows, -, row, -, rfl⟩ := hc
    have hpublished : other.published ∉ kind.tables :=
      MembershipKind.notMem_tables_of_ne h List.mem_cons_self
    cases other <;> exact hrefuse hpublished row
  | rule r =>
    obtain ⟨t, ht, rfl⟩ := hc
    exact ⟨trivial, hne (h t ht)⟩
  | record r =>
    have hruns : Table.normalizationRuns ∉ kind.tables := by cases kind <;> decide
    have hsequences : Table.sequences ∉ kind.tables := by cases kind <;> decide
    obtain ⟨id, rfl⟩ | ⟨id, rfl⟩ := hc
    · exact hrefuse hruns (r.row id)
    · exact ⟨trivial, fun t ht => (hne hsequences t ht).symm⟩
  | recordStep row =>
    obtain rfl := hc
    have hsteps : Table.schemaMigrations ∉ kind.tables := by cases kind <;> decide
    exact hrefuse hsteps row
  | amounts =>
    obtain rfl := hc
    exact ⟨trivial, fun t ht => (hne kind.movie_notMem_tables t ht).symm⟩
  | migrate m => obtain rfl | ⟨t, rfl⟩ := hc <;> exact ⟨trivial, fun _ _ => trivial⟩
  | clear t =>
    obtain rfl := hc
    exact ⟨trivial, hne h⟩
  | delete t column value =>
    obtain rfl := hc
    exact ⟨trivial, hne h⟩
  | keepSteps =>
    obtain rfl := hc
    exact ⟨trivial, fun _ _ => trivial⟩

theorem preserves_kept (h : st.Spares kind) (hmovies : st.SparesMovies) :
    st.Preserves (s.Kept kind) := by
  refine preserves_of_uses fun s₁ c _ hc => ?_
  obtain ⟨hkeys, havoids⟩ := avoids_of_uses h hc
  exact Change.preserves_kept hkeys (sparesMovies_of_uses hmovies hc) havoids

theorem preserves_thinned_delete (column : String) (value : Cell) :
    (delete .movie column value).Preserves (s.Thinned kind) := by
  refine preserves_of_uses fun s₁ c _ hc => ?_
  obtain rfl := hc
  exact Change.preserves_thinned_delete _

end Statement

namespace Request

variable {request : Request} {st : Statement}

/-- A request that neither stages nor publishes a kind of memberships, nor writes or deletes in its
tables otherwise. -/
def Spares (kind : MembershipKind) : Request → Prop
  | operation (.write written _) => ∃ types, (written, types) ∈ declared
  | operation (.stage asked _) => MembershipKind.Asked.of asked ≠ .kind kind
  | operation (.publish asked) => MembershipKind.Asked.of asked ≠ .kind kind
  | operation (.standardize _ rules) =>
    ∀ r ∈ rulesOf rules, ∀ t, named? .notModifiable r.table = .ok t → t ∉ kind.tables
  | rebuild _ asked _ => MembershipKind.Asked.of asked ≠ .kind kind
  | normalize _ _ => False
  | delete t _ _ => t ∉ kind.tables
  | _ => True

theorem spares_of_stages {other : MembershipKind} (h : other ≠ kind)
    (hst : st.Stages other ∨ st.Publishes other) : st.Spares kind := by
  have htables : ∀ t ∈ other.tables, t ∉ kind.tables :=
    fun t ht => MembershipKind.notMem_tables_of_ne h ht
  rw [MembershipKind.tables, List.forall_mem_cons, List.forall_mem_singleton] at htables
  rcases hst with (rfl | ⟨staged, rfl⟩) | rfl | rfl | rfl
  · exact htables.2
  · exact h
  · exact htables.1
  · exact h
  · exact htables.2

/-- The statements of a request that spares a kind, deletions apart. -/
theorem spares_of_issues (h : request.Spares kind) (hst : request.Issues st) :
    st.Spares kind ∧ (st.SparesMovies ∨ ∃ column value, request = .delete .movie column value) := by
  have hof {asked : Option Json} (hasked : MembershipKind.Asked.of asked ≠ .kind kind)
      {other : MembershipKind} (hother : MembershipKind.Asked.of asked = .kind other)
      (hst : st.Stages other ∨ st.Publishes other) : st.Spares kind ∧ st.SparesMovies := by
    refine ⟨spares_of_stages ?_ hst, (isPlain_of_stages hst).sparesMovies⟩
    rintro rfl
    exact hasked hother
  cases request with
  | operation op =>
    suffices hboth : st.Spares kind ∧ st.SparesMovies from hboth.imp_right Or.inl
    cases op with
    | write written given =>
      obtain ⟨input, -, cells, -, rfl⟩ := hst
      exact ⟨h, trivial⟩
    | seed d =>
      obtain ⟨rows, hrows, fields, hfields, cells, -, rfl⟩ := hst
      obtain ⟨types, hdeclared, -⟩ := declares_of_mem_rowsOf d rows hrows fields hfields
      exact ⟨⟨types, hdeclared⟩, trivial⟩
    | coerce logger =>
      obtain rfl := hst
      exact ⟨trivial, trivial⟩
    | stage asked options =>
      obtain ⟨other, hother, hst⟩ := hst
      exact hof h hother (Or.inl hst)
    | publish asked =>
      obtain ⟨other, hother, hst⟩ := hst
      exact hof h hother (Or.inr hst)
    | standardize logger rules =>
      obtain ⟨r, hr, rfl⟩ := hst
      exact ⟨h r hr, trivial⟩
  | rebuild logger asked given =>
    obtain ⟨other, hother, hst⟩ := hst
    obtain ⟨hspares, hmovies⟩ := hof h hother hst
    exact ⟨hspares, Or.inl hmovies⟩
  | normalize logger given => exact absurd h id
  | delete t column value =>
    obtain rfl := hst
    refine ⟨h, ?_⟩
    by_cases ht : t = .movie
    · subst ht
      exact Or.inr ⟨column, value, rfl⟩
    · exact Or.inl ht

theorem orderly_of_spares (h : request.Spares kind) : Orderly request.act := by
  refine request.orderly.mono fun s _ => ?_
  cases request with
  | normalize logger given => exact absurd h id
  | _ => trivial

/-- A request that spares a kind leaves what is staged of it, and of what is published all but the
memberships of movies that it deleted. -/
theorem thinned_of_spares (h : request.Spares kind) {w : World} (hw : w.data.IsMigrated) :
    w.data.Thinned kind (request.act.on w).2.data := by
  have hdata {I : Store → Prop} (hkeeps : Keeps I request.act) (hI : I w.data) :
      I (request.act.on w).2.data :=
    (orderly_of_spares h).data_of_keeps hkeeps trivial hI
  by_cases hdelete : ∃ column value, request = .delete .movie column value
  · obtain ⟨column, value, rfl⟩ := hdelete
    refine hdata (Request.keeps fun st hst => ?_) (Kept.refl hw).thinned
    obtain rfl := hst
    exact Statement.preserves_thinned_delete column value
  · refine (hdata (I := w.data.Kept kind) (Request.keeps fun st hst => ?_) (Kept.refl hw)).thinned
    obtain ⟨hspares, hmovies⟩ := spares_of_issues h hst
    exact Statement.preserves_kept hspares (hmovies.resolve_right hdelete)

end Request

theorem Migration.kept_of_on {w : World} (hw : w.data.IsMigrated) :
    w.data.Kept kind (Migration.run.on w).2.data := by
  refine Migration.orderly_run.data_of_keeps (Migration.keeps fun st hst => ?_) trivial
    (Kept.refl hw)
  have hspares : st.Spares kind := by obtain rfl | ⟨m, rfl⟩ | ⟨row, rfl⟩ := hst <;> trivial
  exact Statement.preserves_kept hspares (Migration.isPlain_of_issues hst).sparesMovies

end FilmReport

namespace FilmReport

open World Act Store Normalize

variable {α : Type} {kind : MembershipKind}

/-- A transaction that does not fail leaves what its work leaves. -/
theorem Act.data_of_inTransaction {P : Store → Prop} {work : Act α} (hwork : OrderlyFrom P work)
    {name : String} {w v : World} {a : α} (hw : P w.data)
    (h : (inTransaction name work).on w = (.ok a, v)) :
    v.data = (work.on (Work.inside w)).2.data := by
  obtain ⟨_, u, hprepare, h⟩ := on_bind_eq_ok.1 h
  replace h := on_reporting_eq_ok.1 h
  have hdata := data_prepareTransactions w
  rw [Work.inside, hprepare]
  rw [hprepare] at hdata
  cases hopen : u.session.isOpen with
  | false =>
    rw [on_transact_of_closed hopen] at h
    cases (Prod.mk.inj h).1
  | true =>
    obtain ⟨x, hon, -, hdata, -⟩ := hwork.on_transact hopen (hdata.symm ▸ hw)
    rw [hon] at h
    obtain ⟨hresult, rfl⟩ := Prod.mk.inj h
    rw [hdata, hresult]

/-- What has become of the memberships of a kind when a world was reached through others: what is
staged is the same, and the published ones are, but for some whose movie was not there. -/
structure World.Lasts (kind : MembershipKind) (w : World) (seen : List World) (x : World) :
    Prop where
  isMigrated : x.data.IsMigrated
  staged : x.data.stagedOf kind = w.data.stagedOf kind
  live : (x.data.live kind).Sublist (w.data.live kind)
  lost : ∀ m ∈ w.data.live kind, m ∈ x.data.live kind ∨
    ∃ y ∈ seen, m.row.movieId ∉ y.data.identifiers .movie

namespace World.Lasts

variable {u v w x : World} {seen more : List World}

theorem of_thinned (h : w.data.Thinned kind x.data) : Lasts kind w [x] x :=
  ⟨h.isMigrated, h.staged, h.live, fun m hm =>
    (h.lost m hm).imp_right fun hgone => ⟨x, List.mem_singleton_self x, hgone⟩⟩

theorem of_data (hw : w.data.IsMigrated) (h : x.data = w.data) : Lasts kind w [] x :=
  ⟨h ▸ hw, by rw [h], by rw [h], fun m hm => Or.inl (by rwa [h])⟩

theorem mono (h : Lasts kind w seen x) (hsub : seen ⊆ more) : Lasts kind w more x :=
  ⟨h.isMigrated, h.staged, h.live, fun m hm =>
    (h.lost m hm).imp_right fun ⟨y, hy, hgone⟩ => ⟨y, hsub hy, hgone⟩⟩

theorem trans (h : Lasts kind u seen v) (h' : Lasts kind v more x) :
    Lasts kind u (seen ++ more) x where
  isMigrated := h'.isMigrated
  staged := h'.staged.trans h.staged
  live := h'.live.trans h.live
  lost m hm := by
    rcases h.lost m hm with hv | ⟨y, hy, hgone⟩
    · exact (h'.lost m hv).imp_right fun ⟨y, hy, hgone⟩ =>
        ⟨y, List.mem_append_right _ hy, hgone⟩
    · exact Or.inr ⟨y, List.mem_append_left _ hy, hgone⟩

/-- A step goes before. -/
theorem step (h : w.data.Thinned kind v.data) (h' : Lasts kind v seen x) (hv : v ∈ seen) :
    Lasts kind w (w :: seen) x := by
  refine ((of_thinned h).trans h').mono (List.cons_subset.2 ⟨?_, List.subset_cons_self _ _⟩)
  exact List.mem_cons_of_mem _ hv

/-- A step that leaves the data goes before. -/
theorem after (hw : w.data.IsMigrated) (h : v.data = w.data) (h' : Lasts kind v seen x) :
    Lasts kind w (w :: seen) x :=
  ((of_data hw h).trans h').mono (List.subset_cons_self _ _)

end World.Lasts

namespace Course

variable {course : Course} {w x : World} {seen : List World}

/-- A course that neither stages nor publishes a kind. -/
def Spares (kind : MembershipKind) (course : Course) : Prop :=
  ∀ c ∈ course.calls, c.request.Spares kind

theorem orderly_of_spares (h : course.Spares kind) : Orderly course.act := by
  induction course with
  | done => exact OrderlyFrom.pure _
  | call c rest ih =>
    obtain ⟨hc, hrest⟩ := List.forall_mem_cons.1 h
    exact ((Request.orderly_of_spares hc).aside c.clock).andThen fun _ => ih hrest
  | migrate clock rest ih =>
    exact (Migration.orderly_run.aside clock).andThen fun _ => ih h
  | nested name inner ending rest ihinner ih =>
    obtain ⟨hinner, hrest⟩ := List.forall_mem_append.1 h
    have hwork := (ihinner hinner).andThen fun _ => orderly_ending ending
    exact (hwork.inTransaction name).outcome.andThen fun _ => ih hrest

theorem orderly_work (h : course.Spares kind) (ending : Ending Unit) :
    Orderly (do course.act; ending.act) :=
  (orderly_of_spares h).andThen fun _ => orderly_ending ending

/-- A transaction within a course that does not fail leaves what its own course leads to. -/
theorem data_of_kept (h : course.Spares kind) {name : String} {ending : Ending Unit} {w v : World}
    (hon : (Act.inTransaction name do course.act; ending.act).on w = (.ok (), v)) :
    v.data = (course.act.on (Work.inside w)).2.data := by
  rw [data_of_inTransaction (orderly_work h ending) trivial hon, on_bind]
  rcases course.act.on (Work.inside w) with ⟨e | ⟨⟩, u⟩
  · rfl
  · exact congrArg (·.2.data) (Work.on_ending ending u)

/-- A course leads to a place on its way through others: those within a transaction that failed
count only as long as it has not ended. -/
inductive Reaches : Course → World → List World → World → Prop where
  | here {course : Course} {w : World} : Reaches course w [w] w
  | call {c : Call} {rest : Course} {w x : World} {seen : List World} :
    Reaches rest (c.act.on w).2 seen x → Reaches (.call c rest) w (w :: seen) x
  | migrate {clock : List (Option Calendar.Instant)} {rest : Course} {w x : World}
    {seen : List World} :
    Reaches rest ((aside clock Migration.run).on w).2 seen x →
      Reaches (.migrate clock rest) w (w :: seen) x
  | within {name : String} {inner : Course} {ending : Ending Unit} {rest : Course} {w x : World}
    {seen : List World} :
    Reaches inner (Work.inside w) seen x → Reaches (.nested name inner ending rest) w (w :: seen) x
  | kept {name : String} {inner : Course} {ending : Ending Unit} {rest : Course} {w v x : World}
    {seen more : List World} :
    (Act.inTransaction name do inner.act; ending.act).on w = (.ok (), v) →
      Reaches inner (Work.inside w) seen (inner.act.on (Work.inside w)).2 →
      Reaches rest v more x → Reaches (.nested name inner ending rest) w (w :: (seen ++ more)) x
  | undone {name : String} {inner : Course} {ending : Ending Unit} {rest : Course} {w v x : World}
    {e : Failure} {more : List World} :
    (Act.inTransaction name do inner.act; ending.act).on w = (.error e, v) →
      Reaches rest v more x → Reaches (.nested name inner ending rest) w (w :: more) x

/-- Every place on the way is reached. -/
theorem exists_reaches (hx : x ∈ course.visited w) : ∃ seen, course.Reaches w seen x := by
  induction course generalizing w x with
  | done =>
    obtain rfl := List.mem_singleton.1 hx
    exact ⟨[x], .here⟩
  | call c rest ih =>
    obtain rfl | hx := List.mem_cons.1 hx
    · exact ⟨[x], .here⟩
    · obtain ⟨seen, hseen⟩ := ih hx
      exact ⟨w :: seen, .call hseen⟩
  | migrate clock rest ih =>
    obtain rfl | hx := List.mem_cons.1 hx
    · exact ⟨[x], .here⟩
    · obtain ⟨seen, hseen⟩ := ih hx
      exact ⟨w :: seen, .migrate hseen⟩
  | nested name inner ending rest ihinner ih =>
    obtain rfl | hx := List.mem_cons.1 hx
    · exact ⟨[x], .here⟩
    obtain hx | hx := List.mem_append.1 hx
    · obtain ⟨seen, hseen⟩ := ihinner hx
      exact ⟨w :: seen, .within hseen⟩
    · obtain ⟨more, hmore⟩ := ih hx
      rcases hon : (Act.inTransaction name do inner.act; ending.act).on w with ⟨e | ⟨⟩, v⟩ <;>
        rw [hon] at hmore
      · exact ⟨w :: more, .undone hon hmore⟩
      · obtain ⟨seen, hseen⟩ := ihinner (inner.act_mem_visited (Work.inside w))
        exact ⟨w :: (seen ++ more), .kept hon hseen hmore⟩

theorem Reaches.mem (h : course.Reaches w seen x) : w ∈ seen := by
  cases h <;> exact List.mem_cons_self

/-- What a course that spares a kind leaves of its memberships, wherever it leads. -/
theorem Reaches.lasts (h : course.Reaches w seen x) (hspares : course.Spares kind)
    (hw : w.data.IsMigrated) : Lasts kind w seen x := by
  induction h with
  | here => exact (Lasts.of_data hw rfl).mono (List.nil_subset _)
  | @call c rest w x seen hrest ih =>
    obtain ⟨hc, hrestSpares⟩ := List.forall_mem_cons.1 hspares
    have hthinned : w.data.Thinned kind (c.act.on w).2.data :=
      Request.thinned_of_spares (w := w.timed c.clock) hc hw
    exact Lasts.step hthinned (ih hrestSpares hthinned.isMigrated) hrest.mem
  | @migrate clock rest w x seen hrest ih =>
    have hthinned : w.data.Thinned kind ((aside clock Migration.run).on w).2.data :=
      (Migration.kept_of_on (w := w.timed clock) hw).thinned
    exact Lasts.step hthinned (ih hspares hthinned.isMigrated) hrest.mem
  | @within name inner ending rest w x seen hinner ih =>
    have hinside := Work.data_inside w
    exact Lasts.after hw hinside (ih (List.forall_mem_append.1 hspares).1 (hinside ▸ hw))
  | @kept name inner ending rest w v x seen more hon hinner hrest ihinner ih =>
    obtain ⟨hinnerSpares, hrestSpares⟩ := List.forall_mem_append.1 hspares
    have hinside := Work.data_inside w
    have hend := Lasts.after hw hinside (ihinner hinnerSpares (hinside ▸ hw))
    have hafter := hend.trans (Lasts.of_data hend.isMigrated (data_of_kept hinnerSpares hon))
    rw [List.append_nil] at hafter
    exact hafter.trans (ih hrestSpares hafter.isMigrated)
  | @undone name inner ending rest w v x e more hon hrest ih =>
    obtain ⟨hinnerSpares, hrestSpares⟩ := List.forall_mem_append.1 hspares
    have hdata : v.data = w.data :=
      (Whole.inTransaction (orderly_work hinnerSpares ending) name).undone hon
    exact Lasts.after hw hdata (ih hrestSpares (hdata ▸ hw))

theorem isMigrated_of_spares (hspares : course.Spares kind) (hw : w.data.IsMigrated) :
    (course.act.on w).2.data.IsMigrated ∧
      (course.act.on w).2.data.stagedOf kind = w.data.stagedOf kind := by
  obtain ⟨seen, hseen⟩ := exists_reaches (course.act_mem_visited w)
  have hlasts := hseen.lasts hspares hw
  exact ⟨hlasts.isMigrated, hlasts.staged⟩

end Course
end FilmReport
