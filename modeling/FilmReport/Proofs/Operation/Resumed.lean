import FilmReport.Proofs.Operation.Recording
import FilmReport.Proofs.Operation.Migrated

/-!
Migrations in the course of all that is done with a database. Wherever a course leads, the first of
the migrations were applied and recorded and nothing is there of the others. A call of them there
goes on from what was applied, and what was applied outside of transactions stays applied
(`Course.migrated_of_mem_visited`).
-/

set_option autoImplicit false
set_option relaxedAutoImplicit false

namespace FilmReport

open World Act Store

namespace World

variable {w w' : World} {I : Store → Prop}

theorem store_mem_stores (w : World) : w.database.store ∈ w.stores :=
  List.mem_cons_self

theorem base_mem_stores (w : World) : w.sight.base ∈ w.stores := by
  rcases w with ⟨⟨_, _, _, _, _, _, _, _, _, _ | ⟨_ | _, _⟩⟩, _⟩ <;>
    simp [sight, stores, Transaction.stores]

theorem mem_stores_of_savepoint {s : Store} {stack : List (Option Store)}
    (hstack : w.savepoints = some stack) (hs : some s ∈ stack) : s ∈ w.stores := by
  rcases w with ⟨⟨_, _, _, _, _, _, _, _, _, _ | ⟨view, savepoints⟩⟩, _⟩
  · cases hstack
  · obtain rfl : savepoints = stack := Option.some.inj hstack
    cases view <;> simp [stores, Transaction.stores, hs]

/-- A world holds what is committed, the base of its view, its data and its savepoints. -/
theorem cases_of_mem_stores {s : Store} (hs : s ∈ w.stores) :
    s = w.database.store ∨ s = w.sight.base ∨ s = w.data ∨
      ∃ stack, w.savepoints = some stack ∧ some s ∈ stack := by
  rcases w with ⟨⟨_, _, _, _, _, _, _, _, _, _ | ⟨_ | _, _⟩⟩, _⟩ <;>
    simp only [stores, Transaction.stores, List.mem_cons, List.mem_append, List.mem_filterMap,
      List.not_mem_nil, or_false, false_or, id, exists_eq_right] at hs
  · exact .inl hs
  · exact hs.imp_right fun h => .inr (.inr ⟨_, rfl, h⟩)
  · rcases hs with rfl | (rfl | rfl) | h
    · exact .inl rfl
    · exact .inr (.inl rfl)
    · exact .inr (.inr (.inl rfl))
    · exact .inr (.inr (.inr ⟨_, rfl, h⟩))

/-- All that a world holds which goes on from another one was held there, but for its data. -/
theorem Holds.continues (h : w.Holds I) (hcontinues : Continues w w') (hdata : I w'.data) :
    w'.Holds I := by
  cases hwhere : w.savepoints with
  | none => exact Holds.of_outside (hcontinues.savepoints.trans hwhere) hdata
  | some stack =>
    have hwithin := hcontinues.within (Option.isSome_of_eq_some hwhere)
    intro s hs
    rcases cases_of_mem_stores hs with rfl | rfl | rfl | ⟨stack', hstack', hs⟩
    · exact h _ (hwithin.store ▸ store_mem_stores w)
    · exact h _ (hwithin.sight_base ▸ base_mem_stores w)
    · exact hdata
    · rw [hcontinues.savepoints] at hstack'
      exact h s (mem_stores_of_savepoint hstack' hs)

end World

variable {done : List Migration}

namespace Store

/-- A store in which some of the migrations were applied, the given ones among them. -/
def MigratedFrom (done : List Migration) (s : Store) : Prop :=
  ∃ more rest, Migration.all = done ++ more ++ rest ∧ s.MigratedTo (done ++ more)

theorem MigratedTo.migratedFrom {rest : List Migration} {s : Store} (h : s.MigratedTo done)
    (hall : Migration.all = done ++ rest) : s.MigratedFrom done :=
  ⟨[], rest, by rwa [List.append_nil], by rwa [List.append_nil]⟩

theorem MigratedFrom.of_ends {more rest : List Migration} {w : World}
    {r : Except Failure Migration.Applied} {s : Store}
    (hends : Migration.Ends (done ++ more) rest w r s)
    (hall : Migration.all = done ++ more ++ rest) (h : w.data.MigratedTo (done ++ more)) :
    s.MigratedFrom done := by
  cases hends with
  | finished hmigrated _ =>
    refine ⟨more ++ rest, [], ?_, by rwa [← List.append_assoc]⟩
    rw [hall, List.append_nil, List.append_assoc]
  | @failed fresh after m _ _ hrest hmigrated _ =>
    refine ⟨more ++ fresh, m :: after, ?_, by rwa [← List.append_assoc]⟩
    rw [hall, hrest, List.append_assoc, List.append_assoc, List.append_assoc]
  | refused _ => exact ⟨more, rest, hall, h⟩

end Store

theorem Migration.keeps_migratedFrom (done : List Migration) : Keeps (MigratedFrom done) run := by
  intro w hw
  obtain ⟨more, rest, hall, h⟩ := hw.data
  refine hw.continues (orderly_run.continues trivial) ?_
  exact MigratedFrom.of_ends (ends_on_run h hall) hall h

namespace Course

variable {course : Course}

theorem lowers_migratedFrom (h : course.Bypasses .schemaMigrations) :
    course.Lowers fun _ => MigratedFrom done := by
  refine ⟨fun _ _ hs => hs, fun c hc _ => ?_, fun _ => Migration.keeps_migratedFrom done⟩
  refine Request.keeps_of_bypasses List.mem_cons_self (h c hc) fun change hrows havoids => ?_
  rintro s s' ⟨more, rest, hall, hs⟩ hs'
  exact ⟨more, rest, hall, MigratedTo.preserves hrows havoids hs hs'⟩

/-- How the calls of the migrations end that can be made in a world, and what all that is done after
it does with the migrations. -/
structure Resumes (done rest : List Migration) (w : World) : Prop where
  all_eq : Migration.all = done ++ rest
  migratedTo : w.data.MigratedTo done
  ends : ∀ clock, Migration.Ends done rest (w.timed clock) (Migration.run.on (w.timed clock)).1
    (Migration.run.on (w.timed clock)).2.data
  finished : w.Ready → ∀ clock, (w.timed clock).Ticks →
    (Migration.run.on (w.timed clock)).1 = .ok ⟨rest.map (·.name), done.map (·.name)⟩
  /-- What was applied outside of transactions stays applied. -/
  stays : w.savepoints = none → ∀ more : Course, more.Bypasses .schemaMigrations →
    ∀ v ∈ more.visited w, v.data.MigratedFrom done

/--
Every store on the way of a course that began with an empty one, whatever readings the clocks of its
calls give and within transactions too, is one in which the first of the migrations were applied and
nothing is there of the others. A call of the migrations there goes through the others in their
order and tells how far it came; it succeeds where rows can be written and the clock gives instants.
-/
theorem migrated_of_mem_visited (h : course.Bypasses .schemaMigrations) {w : World}
    (hempty : w.data = .empty) (houtside : w.savepoints = none) {v : World}
    (hv : v ∈ course.visited w) : ∃ done rest, Resumes done rest v := by
  have hall : Migration.all = [] ++ Migration.all := rfl
  have hbegin : w.Holds (MigratedFrom []) :=
    Holds.of_outside houtside (hempty ▸ migratedTo_empty.migratedFrom hall)
  obtain ⟨done, rest, hall, hdone⟩ := ((lowers_migratedFrom h).holds (n := 0) hbegin v hv).data
  rw [List.nil_append] at hall hdone
  refine ⟨done, rest, hall, hdone, fun clock => Migration.ends_on_run hdone hall, ?_, ?_⟩
  · intro hready clock hticks
    have htimed : (v.timed clock).Ready := ⟨hready.obstacle, hready.refusal⟩
    exact Migration.on_run_of_ready htimed hticks hdone hall
  · intro hnone more hmore x hx
    have hfrom : v.Holds (MigratedFrom done) := Holds.of_outside hnone (hdone.migratedFrom hall)
    exact ((lowers_migratedFrom hmore).holds (n := 0) hfrom x hx).data

/-- The second step of a call finds no instant; then a film is to be seeded, which needs both. -/
def halfway : Course :=
  .migrate [some ⟨0⟩, none] <|
  .call ⟨.operation (.seed
    { generatedAt := ""
      movies := [⟨"tt1", "One", none, none, some 90, some "Chad", none, none, none⟩]
      names := [], genres := [⟨"tt1", "Drama"⟩], directings := [], castings := []
      ratings := [] }), []⟩
    .done

/-- The first step stays applied, and the next call applies the second one. -/
theorem resumes_halfway :
    halfway.Bypasses .schemaMigrations ∧ (World.inMemory .empty []).data = .empty ∧
      (World.inMemory .empty []).savepoints = none ∧
      ∃ v ∈ halfway.visited (World.inMemory .empty []),
        Resumes [.dataset] [.normalization] v ∧ (Migration.run.on (v.timed [some ⟨0⟩])).1 =
          .ok ⟨["002-normalization-schema"], ["001-movie-dataset-schema"]⟩ := by
  have hbypasses : halfway.Bypasses .schemaMigrations := List.forall_mem_singleton.2 trivial
  let v := (halfway.act.on (World.inMemory .empty [])).2
  have hv : v ∈ halfway.visited (World.inMemory .empty []) := act_mem_visited _ _
  obtain ⟨done, rest, hresumes⟩ := migrated_of_mem_visited hbypasses rfl rfl hv
  have hnames : done.map (·.name) = ["001-movie-dataset-schema"] := by
    rw [← Migration.names_eq hresumes.migratedTo]
    decide +kernel
  obtain ⟨m, hm⟩ : ∃ m, done = [m] := by
    rcases done with _ | ⟨m, _ | ⟨n, done⟩⟩
    · cases hnames
    · exact ⟨m, rfl⟩
    · cases (List.cons.inj hnames).2
  obtain rfl := hm
  obtain ⟨rfl, hrest⟩ := List.cons.inj hresumes.all_eq
  obtain rfl : [Migration.normalization] = rest := hrest
  have hready : v.Ready := ⟨by decide +kernel, by decide +kernel⟩
  have hticks : (v.timed [some ⟨0⟩]).Ticks := ⟨by decide, by decide⟩
  exact ⟨hbypasses, rfl, rfl, v, hv, hresumes, hresumes.finished hready _ hticks⟩

/-- A session that may not write, with a database in which nothing is. -/
def readonlyEmpty : World :=
  { World.inMemory .empty [some ⟨0⟩] with
    session := ⟨2, 1, "f.db", .file "/f.db", true, true, 5000, true, false, none⟩ }

/-- A call that cannot make the record fails at none of the steps. -/
theorem on_run_readonlyEmpty :
    readonlyEmpty.data = .empty ∧ readonlyEmpty.savepoints = none ∧
      (Migration.run.on readonlyEmpty).1 =
        .error (.fault (Migration.failure none [] "attempt to write a readonly database")) ∧
      ∀ m ∈ Migration.all, ∀ now cause, (Migration.run.on readonlyEmpty).1 ≠
        .error (.fault (Migration.failure (some m.name) now cause)) := by
  have hresult : (Migration.run.on readonlyEmpty).1 =
      .error (.fault (Migration.failure none [] "attempt to write a readonly database")) := by
    rfl
  refine ⟨rfl, rfl, hresult, fun m _ now cause hsame => ?_⟩
  rw [hresult] at hsame
  cases hsame

end Course
end FilmReport
