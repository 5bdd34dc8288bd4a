import FilmReport.Proofs.Dataset.Seeded
import FilmReport.Proofs.Operation.Declared
import FilmReport.Proofs.Operation.Nested

/-!
All that can be done with a database. From an empty store on, whatever requests, migrations and
nested transactions follow each other, and whatever comes of each, every store on the way is intact,
and no movie goes away or gets another identifier unless movies are deleted
(`Course.intact_of_mem_visited`).
-/

set_option autoImplicit false
set_option relaxedAutoImplicit false

namespace FilmReport

open World Act Store

variable {α : Type} {I J : Store → Prop}

namespace Act

/-- Does something with a clock of its own; whatever comes of it, it goes on. -/
def aside (clock : List (Option Calendar.Instant)) (act : Act α) : Act Unit := do
  let w ← get
  set (w.timed clock)
  let _ ← act.outcome
  modify (World.timed w.clock)

theorem on_aside (clock : List (Option Calendar.Instant)) (act : Act α) (w : World) :
    (aside clock act).on w = (.ok ⟨⟩, (act.on (w.timed clock)).2.timed w.clock) := rfl

theorem KeepsTo.aside {act : Act α} (h : KeepsTo I J act)
    (clock : List (Option Calendar.Instant)) : KeepsTo I J (aside clock act) :=
  fun w hw => h (w.timed clock) hw

theorem OrderlyFrom.aside {act : Act α} (h : OrderlyFrom I act)
    (clock : List (Option Calendar.Instant)) : OrderlyFrom I (aside clock act) where
  continues := by
    intro w hw
    have hcontinues : Continues (w.timed clock) (act.on (w.timed clock)).2 := h.continues hw
    exact hcontinues.timed
  alike := by
    intro w v hw halike
    have hafter := (h.alike (w := w.timed clock) hw (halike.timed clock)).2
    rw [on_aside, on_aside, halike.clock]
    exact ⟨rfl, hafter.timed v.clock⟩
  idle := by
    intro w hw hready
    exact h.idle (w := w.timed clock) hw fun h' => hready ⟨h'.obstacle, h'.refusal⟩

/-- Orderly actions one after the other, of which the second needs what the first leaves. -/
theorem OrderlyFrom.bindTo {β : Type} {act : Act α} {f : α → Act β} (h : OrderlyFrom I act)
    (hkeeps : KeepsTo I J act) (hmono : ∀ s, I s → J s) (hf : ∀ a, OrderlyFrom J (f a)) :
    OrderlyFrom I (act >>= f) := by
  refine h.bind (Q := J) (fun {w w' a} hw hon => ?_) hf
  have hdata := h.data_of_keepsTo hkeeps hmono hw hw
  rw [hon] at hdata
  exact hdata

end Act

/-- All that is done with a database, one thing after the other: calls, migrations and transactions
within which more is done. Whatever comes of each, it goes on. -/
inductive Course where
  | done
  | call (c : Call) (rest : Course)
  | migrate (clock : List (Option Calendar.Instant)) (rest : Course)
  | nested (name : String) (inner : Course) (ending : Ending Unit) (rest : Course)

namespace Course

def act : Course → Act Unit
  | done => pure ()
  | call c rest => do
    c.act
    rest.act
  | migrate clock rest => do
    aside clock Migration.run
    rest.act
  | nested name inner ending rest => do
    let _ ← Act.outcome <| Act.inTransaction name do
      inner.act
      ending.act
    rest.act

/-- The worlds through which a course leads, those within transactions included. -/
def visited : Course → World → List World
  | done, w => [w]
  | call c rest, w => w :: rest.visited (c.act.on w).2
  | migrate clock rest, w => w :: rest.visited ((aside clock Migration.run).on w).2
  | nested name inner ending rest, w =>
    w :: (inner.visited (Work.inside w) ++
      rest.visited ((Act.inTransaction name do inner.act; ending.act).on w).2)

/-- A course leads to where it ends. -/
theorem act_mem_visited (course : Course) (w : World) :
    (course.act.on w).2 ∈ course.visited w := by
  induction course generalizing w with
  | done => exact List.mem_singleton_self w
  | call c rest ih => exact List.mem_cons_of_mem _ (ih _)
  | migrate clock rest ih => exact List.mem_cons_of_mem _ (ih _)
  | nested name inner ending rest _ ih =>
    exact List.mem_cons_of_mem _ (List.mem_append_right _ (ih _))

/-- All calls of a course. -/
def calls : Course → List Call
  | done => []
  | call c rest => c :: rest.calls
  | migrate _ rest => rest.calls
  | nested _ inner _ rest => inner.calls ++ rest.calls

/-- The runs that a course records at most. -/
def runs : Course → Nat
  | done => 0
  | call c rest => c.request.runs + rest.runs
  | migrate _ rest => rest.runs
  | nested _ inner _ rest => inner.runs + rest.runs

/-- A course all of whose inputs have the declared types. -/
def IsDeclared (course : Course) : Prop :=
  ∀ c ∈ course.calls, c.request.IsDeclared

/-- A course in which no movies are deleted. -/
def SparesMovies (course : Course) : Prop :=
  ∀ c ∈ course.calls, c.request.SparesMovies

theorem keeps_ending (ending : Ending α) : Keeps I ending.act := by
  cases ending with
  | returns value => exact Keeps.pure value
  | reports fault => exact Keeps.throw _
  | raises cause => exact Keeps.throw _

theorem orderly_ending (ending : Ending α) : OrderlyFrom I ending.act := by
  cases ending with
  | returns value => exact OrderlyFrom.pure value
  | reports fault => exact OrderlyFrom.throw _
  | raises cause => exact OrderlyFrom.throw _

/-- Properties, one for each number of runs, of which every run takes one to the next lower and all
else keeps each. -/
structure Lowers (I : ℕ → Store → Prop) (course : Course) : Prop where
  mono : ∀ {m n}, m ≤ n → ∀ s, I n s → I m s
  call : ∀ c ∈ course.calls, ∀ n, KeepsTo (I (c.request.runs + n)) (I n) c.request.act
  migrate : ∀ n, Keeps (I n) Migration.run

section Lowers

variable {I : ℕ → Store → Prop} {course : Course}

theorem Lowers.of_calls {part : Course} (h : course.Lowers I)
    (hcalls : ∀ c ∈ part.calls, c ∈ course.calls) : part.Lowers I :=
  ⟨h.mono, fun c hc => h.call c (hcalls c hc), h.migrate⟩

/-- What happens within a transaction, the transaction leads to. -/
theorem Lowers.nested (h : course.Lowers I) {work : Act Unit} {m n : ℕ} (hmn : n ≤ m)
    (hwork : KeepsTo (I m) (I n) work) (name : String) (ending : Ending Unit) :
    KeepsTo (I m) (I n) (Act.inTransaction name do work; ending.act) := by
  have hall := hwork.bind (fun _ => (keeps_ending ending).to fun _ hs => hs) fun _ hs => hs
  exact hall.inTransaction (h.mono hmn) name

theorem Lowers.keepsTo (h : course.Lowers I) (n : ℕ) :
    KeepsTo (I (course.runs + n)) (I n) course.act := by
  induction course generalizing n with
  | done => exact (Keeps.pure _).to (h.mono (Nat.le_add_left n _))
  | call c rest ih =>
    have hrest := ih (h.of_calls fun c hc => List.mem_cons_of_mem _ hc) n
    have hcall := (h.call c List.mem_cons_self (rest.runs + n)).aside c.clock
    rw [runs, Nat.add_assoc]
    exact hcall.bind (fun _ => hrest) (h.mono (Nat.le_add_left n _))
  | migrate clock rest ih =>
    have hrest := ih (h.of_calls fun c hc => hc) n
    have hmigrate := ((h.migrate (rest.runs + n)).to fun _ hs => hs).aside clock
    exact hmigrate.bind (fun _ => hrest) (h.mono (Nat.le_add_left n _))
  | nested name inner ending rest ihinner ih =>
    have hinner := ihinner (h.of_calls fun c hc => List.mem_append_left _ hc) (rest.runs + n)
    have hrest := ih (h.of_calls fun c hc => List.mem_append_right _ hc) n
    have hnested := h.nested (Nat.le_add_left _ _) hinner name ending
    rw [runs, Nat.add_assoc]
    exact hnested.outcome.bind (fun _ => hrest) (h.mono (Nat.le_add_left n _))

/-- What holds of all data at the beginning, lowered by the runs, holds of all on the way. -/
theorem Lowers.holds (h : course.Lowers I) {n : ℕ} {w : World}
    (hw : w.Holds (I (course.runs + n))) :
    ∀ v ∈ course.visited w, v.Holds (I n) := by
  have hlower {course : Course} (h : course.Lowers I) {m n : ℕ} {v : World}
      (hv : v.Holds (I (m + n))) : v.Holds (I n) :=
    fun s hs => h.mono (Nat.le_add_left n m) s (hv s hs)
  induction course generalizing n w with
  | done => exact List.forall_mem_singleton.2 (hlower h hw)
  | call c rest ih =>
    refine List.forall_mem_cons.2 ⟨hlower h hw, ?_⟩
    rw [runs, Nat.add_assoc] at hw
    exact ih (h.of_calls fun c hc => List.mem_cons_of_mem _ hc)
      ((h.call c List.mem_cons_self _).aside c.clock w hw)
  | migrate clock rest ih =>
    refine List.forall_mem_cons.2 ⟨hlower h hw, ?_⟩
    exact ih (h.of_calls fun c hc => hc)
      (((h.migrate _).to fun _ hs => hs).aside clock w hw)
  | nested name inner ending rest ihinner ih =>
    have hpart : inner.Lowers I := h.of_calls fun c hc => List.mem_append_left _ hc
    have hmono : ∀ s, I (rest.runs + n) s → I n s := h.mono (Nat.le_add_left n rest.runs)
    refine List.forall_mem_cons.2 ⟨hlower h hw, List.forall_mem_append.2 ⟨fun v hv s hs => ?_, ?_⟩⟩
    · rw [runs, Nat.add_assoc] at hw
      have hinside : (Work.inside w).Holds (I (inner.runs + (rest.runs + n))) :=
        (Keeps.prepareTransactions w hw).entered
      exact hmono s (ihinner hpart hinside v hv s hs)
    · rw [runs, Nat.add_assoc] at hw
      have hnested := h.nested (Nat.le_add_left _ _) (hpart.keepsTo (rest.runs + n)) name ending
      exact ih (h.of_calls fun c hc => List.mem_append_right _ hc) (hnested w hw)

end Lowers

section orderly

variable {course : Course}

/-- A lawful store with numbers for `n` more runs. -/
def Sane (n : ℕ) (s : Store) : Prop :=
  s.Lawful ∧ s.HasRoom n

/-- Declared inputs leave lawful stores, and the numbers of runs that are not taken. -/
theorem lowers_of_isDeclared (h : course.IsDeclared) : course.Lowers Sane where
  mono hmn _ hs := ⟨hs.1, hs.2.mono hmn⟩
  call c hc n := by
    intro w hw s hs
    have hlawful := Request.keeps_lawful (h c hc) w fun s hs => (hw s hs).1
    have hroom := Request.keepsTo_hasRoom (h c hc) n w fun s hs => (hw s hs).2
    exact ⟨hlawful s hs, hroom s hs⟩
  migrate n := by
    refine Migration.keeps fun st hst => ?_
    have hplain := Migration.isPlain_of_issues hst
    intro s s' hs hs'
    exact ⟨Statement.preserves_lawful hplain.declared hs.1 hs',
      Statement.preserves_hasRoom hplain.declared hplain.recordless n hs.2 hs'⟩

theorem orderly (h : course.IsDeclared) (n : ℕ) :
    OrderlyFrom (Sane (course.runs + n)) course.act := by
  have hlowers := lowers_of_isDeclared h
  induction course generalizing n with
  | done => exact OrderlyFrom.pure _
  | call c rest ih =>
    have hrest : rest.IsDeclared := fun c hc => h c (List.mem_cons_of_mem _ hc)
    have hcall : OrderlyFrom (Sane (c.request.runs + (rest.runs + n))) c.act :=
      ((c.request.orderly_of_hasRoom _).mono fun _ hs => hs.2).aside c.clock
    have hkeeps := (hlowers.call c List.mem_cons_self (rest.runs + n)).aside c.clock
    rw [runs, Nat.add_assoc]
    exact hcall.bindTo hkeeps (hlowers.mono (Nat.le_add_left _ _)) fun _ =>
      ih hrest n (lowers_of_isDeclared hrest)
  | migrate clock rest ih =>
    have hrest : rest.IsDeclared := fun c hc => h c hc
    have hmigrate : OrderlyFrom (Sane (rest.runs + n)) (aside clock Migration.run) :=
      (Migration.orderly_run.mono fun _ _ => trivial).aside clock
    have hkeeps := ((hlowers.migrate (rest.runs + n)).to fun _ hs => hs).aside clock
    exact hmigrate.bindTo hkeeps (fun _ hs => hs) fun _ => ih hrest n (lowers_of_isDeclared hrest)
  | nested name inner ending rest ihinner ih =>
    have hinner : inner.IsDeclared := fun c hc => h c (List.mem_append_left _ hc)
    have hrest : rest.IsDeclared := fun c hc => h c (List.mem_append_right _ hc)
    have hkeeps := (lowers_of_isDeclared hinner).keepsTo (rest.runs + n)
    have hwork := (ihinner hinner (rest.runs + n) (lowers_of_isDeclared hinner)).bindTo hkeeps
      (hlowers.mono (Nat.le_add_left _ _)) fun _ => orderly_ending ending
    have hnested := hlowers.nested (Nat.le_add_left _ _) hkeeps name ending
    rw [runs, Nat.add_assoc]
    exact (hwork.inTransaction name).outcome.bindTo hnested.outcome
      (hlowers.mono (Nat.le_add_left _ _)) fun _ => ih hrest n (lowers_of_isDeclared hrest)

/-- A course without deletions of movies leaves all of them, under their identifiers. -/
theorem keeps_mem_identifiers (h : course.IsDeclared) (hmovies : course.SparesMovies)
    (id : String) : Keeps (fun s => s.Lawful ∧ id ∈ s.identifiers .movie) course.act := by
  have hlowers : course.Lowers fun _ s => s.Lawful ∧ id ∈ s.identifiers .movie := by
    refine ⟨fun _ _ hs => hs, fun c hc _ => ?_, fun _ => Migration.keeps fun st hst => ?_⟩
    · exact Request.keeps_mem_identifiers (h c hc) (hmovies c hc) id
    · have hplain := Migration.isPlain_of_issues hst
      exact Statement.preserves_mem_identifiers hplain.declared hplain.sparesMovies id
  exact hlowers.keepsTo 0

/-- Every store on the way of a course that began with an empty one is lawful. -/
theorem lawful_of_mem_visited (h : course.IsDeclared) {w : World} (hempty : w.data = .empty)
    (houtside : w.savepoints = none) {v : World} (hv : v ∈ course.visited w) : v.data.Lawful := by
  have hall : course.Lowers fun _ => Lawful :=
    ⟨fun _ _ hs => hs, fun c hc _ => Request.keeps_lawful (h c hc), fun _ => Migration.keeps
      fun _ hst => Statement.preserves_lawful (Migration.isPlain_of_issues hst).declared⟩
  have hw : w.Holds Lawful := Holds.of_outside houtside (hempty ▸ lawful_empty)
  exact (hall.holds (n := 0) hw v hv).data

/--
Every store on the way of a course that began with an empty one is intact, between its parts and
within its transactions, and nothing but a deletion of movies takes a movie or its identifier away:
not outside of transactions, nor within one as long as there are numbers for the runs.
-/
theorem intact_of_mem_visited (h : course.IsDeclared) {w : World} (hempty : w.data = .empty)
    (houtside : w.savepoints = none) {v : World} (hv : v ∈ course.visited w) :
    v.data.Intact ∧ ∀ more : Course, more.IsDeclared → more.SparesMovies →
      (v.savepoints = none ∨ course.runs + more.runs < 2 ^ 63) →
      ∀ id ∈ v.data.identifiers .movie, id ∈ (more.act.on v).2.data.identifiers .movie := by
  have hlowers := lowers_of_isDeclared h
  have hlawful := lawful_of_mem_visited h hempty houtside hv
  refine ⟨hlawful.intact, fun more hmore hmovies hwhere id hid => ?_⟩
  have hkeeps := keeps_mem_identifiers hmore hmovies id
  rcases hwhere with hnone | hroom
  · exact (hkeeps v (Holds.of_outside hnone ⟨hlawful, hid⟩)).data.2
  · have hbegin : w.Holds (Sane (course.runs + more.runs)) :=
      Holds.of_outside houtside (hempty ▸ ⟨lawful_empty, hasRoom_empty hroom⟩)
    have hsane : Sane (more.runs + 0) v.data := (hlowers.holds hbegin v hv).data
    exact ((more.orderly hmore 0).data_of_keeps hkeeps hsane ⟨hlawful, hid⟩).2

/-- The tables are made, a film with a genre is seeded in a transaction and normalized, and a second
transaction fails after a genre of a film that is not there and a deletion. -/
def oneFilm : Course :=
  .migrate [some ⟨0⟩] <|
  .nested "seed"
    (.call ⟨.operation (.seed
      { generatedAt := ""
        movies := [⟨"tt1", "One", none, none, some 90, some "Chad", none, none, none⟩]
        names := [], genres := [⟨"tt1", "Drama"⟩], directings := [], castings := []
        ratings := [] }), []⟩ .done)
    (.returns ()) <|
  .call ⟨.normalize .quiet [], [some ⟨0⟩]⟩ <|
  .nested "failing"
    (.call ⟨.operation (.write .genres (some (.array
      [.object [("movieId", .string "tt2"), ("genre", .string "Drama")]]))), []⟩ <|
    .call ⟨.delete .movie "id" (.text "tt1"), []⟩ .done)
    (.raises (.other "boom"))
    .done

theorem isDeclared_oneFilm : oneFilm.IsDeclared := by
  refine List.forall_mem_cons.2 ⟨trivial, List.forall_mem_cons.2 ⟨trivial, ?_⟩⟩
  refine List.forall_mem_cons.2 ⟨?_, List.forall_mem_singleton.2 trivial⟩
  refine List.forall_mem_singleton.2 ?_
  exact Dataset.declares_genre ⟨"tt2", "Drama"⟩

/-- The film is there at the end, and would be after any run. -/
theorem intact_of_oneFilm :
    oneFilm.IsDeclared ∧ (World.inMemory .empty []).data = .empty ∧
      (World.inMemory .empty []).savepoints = none ∧
      ∃ v ∈ oneFilm.visited (World.inMemory .empty []), v.data.Intact ∧
        "tt1" ∈ v.data.identifiers .movie ∧ ∀ given clock,
          "tt1" ∈ ((Course.call ⟨.normalize .quiet given, clock⟩ .done).act.on v).2.data.identifiers
            .movie := by
  let v := (oneFilm.act.on (World.inMemory .empty [])).2
  have hv : v ∈ oneFilm.visited (World.inMemory .empty []) := act_mem_visited _ _
  obtain ⟨hintact, hkeeps⟩ := intact_of_mem_visited isDeclared_oneFilm rfl rfl hv
  have hmovie : "tt1" ∈ v.data.identifiers .movie := by decide +kernel
  have houtside : v.savepoints = none := by decide +kernel
  refine ⟨isDeclared_oneFilm, rfl, rfl, v, hv, hintact, hmovie, fun given clock => ?_⟩
  let more : Course := .call ⟨.normalize .quiet given, clock⟩ .done
  have hmore : more.IsDeclared := List.forall_mem_singleton.2 trivial
  have hmovies : more.SparesMovies := List.forall_mem_singleton.2 trivial
  exact hkeeps more hmore hmovies (Or.inl houtside) "tt1" hmovie

end orderly

end Course
end FilmReport
