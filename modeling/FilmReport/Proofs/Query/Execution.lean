import Mathlib.Data.List.Nodup
import FilmReport.Query.Catalog
import FilmReport.Query.Execution
import FilmReport.Proofs.Operation.Framed
import FilmReport.Proofs.Session.Computes
import FilmReport.Proofs.Session.Raising

/-!
What the execution of queries comes to: each query answers what its statement makes of the data, and
none of them changes the data for those after it. A runner answers with the statement that it kept
for an identifier, if there is one, so what it answers is said of the runner too (`Runner.reply`,
`Runner.replies`). The definitions of the catalog have in common that their statements answer rows,
use parameters that they are handed, and can be made ready where the tables of the queries are there.
-/

set_option autoImplicit false
set_option relaxedAutoImplicit false

namespace FilmReport.Query

open Act World

theorem eq_ok_of_toOption {ε α : Type} {x : Except ε α} {a : α} (h : x.toOption = some a) :
    x = .ok a := by
  cases x with
  | error e => cases h
  | ok b => exact congrArg _ (Option.some.inj h)

/-- The standard parameters pass their own check. -/
theorem Params.resolve_nil : Params.resolve [] = .ok .standard :=
  eq_ok_of_toOption (by decide +kernel)

/-- What a ready statement answers on a store. -/
def Statement.answerOn (st : Statement) (d : Definition) (p : Params) (s : Store) :
    Except Failure Result :=
  if st.answers then
    match bindParams d.parameters st.bound with
    | .error e => .error (.raised (.store e))
    | .ok _ =>
      match st.prepare s with
      | .error e => .error (.raised (.store e))
      | .ok _ =>
        match checkRows d.id st.columns 0 (st.rows p s) with
        | .error f => .error (.fault f)
        | .ok rows => .ok ⟨d.id, d.segment, d.label, st.columns, rows⟩
  else .error (.raised (.store .notReader))

/-- What a definition answers on a store, with its statement made ready there. -/
def Definition.answerOn (d : Definition) (p : Params) (s : Store) : Except Fault Result :=
  match d.statement.prepare s with
  | .error e => .error (Runner.faultOf d (.raised (.store e)))
  | .ok _ => (d.statement.answerOn d p s).mapError (Runner.faultOf d)

/-- What a definition answers in a world, where it may be that no statement can be made ready. -/
def Definition.answerIn (d : Definition) (p : Params) (w : World) : Except Fault Result :=
  match w.obstacle with
  | some e => .error (Runner.faultOf d (.raised (.store e)))
  | none => d.answerOn p w.data

/-- A statement can be made ready in a world. -/
def Statement.IsReadyIn (st : Statement) (w : World) : Prop :=
  w.obstacle = none ∧ st.prepare w.data = .ok ()

variable {d : Definition} {st : Statement} {p : Params} {w w' : World} {r : Runner}

namespace Statement

theorem on_run (st : Statement) (d : Definition) (p : Params) (w : World) :
    (st.run d p).on w =
      if st.answers then
        if w.session.isOpen then
          match bindParams d.parameters st.bound with
          | .error e => (.error (.raised (.store e)), w)
          | .ok _ =>
            match w.obstacle with
            | some e => (.error (.raised (.store e)), w)
            | none =>
              match st.prepare w.data with
              | .error e => (.error (.raised (.store e)), w)
              | .ok _ => (.ok (st.rows p w.data), w.looked)
        else (.error (.raised (.store .notOpen)), w)
      else (.error (.raised (.store .notReader)), w) := by
  rw [Statement.run]
  cases st.answers with
  | false => rfl
  | true =>
    rw [if_pos rfl, if_pos rfl, on_bind, on_requireOpen]
    cases w.session.isOpen with
    | false => rfl
    | true =>
      rw [if_pos rfl, if_pos rfl]
      dsimp only
      rw [on_bind]
      cases bindParams d.parameters st.bound with
      | error e => rfl
      | ok u =>
        change (look _).on w = _
        rw [on_look]
        cases w.obstacle with
        | some e => rfl
        | none =>
          cases hprepare : st.prepare w.data with
          | error e => rfl
          | ok u => rfl

/-- The rows of a statement that is handed the parameters of a definition, or why there are none. -/
def rowsFor (st : Statement) (d : Definition) (p : Params) (w : World) :
    Except StoreError (List (List Datum)) := do
  if st.answers then pure () else throw .notReader
  if w.session.isOpen then pure () else throw .notOpen
  bindParams d.parameters st.bound
  match w.obstacle with
  | some e => throw e
  | none => pure ()
  st.prepare w.data
  pure (st.rows p w.data)

theorem value_run (st : Statement) (d : Definition) (p : Params) (w : World) :
    ((st.run d p).on w).1 = (st.rowsFor d p w).mapError fun e => .raised (.store e) := by
  rw [on_run, rowsFor]
  cases st.answers with
  | false => rfl
  | true =>
    cases w.session.isOpen with
    | false => rfl
    | true =>
      cases bindParams d.parameters st.bound with
      | error e => rfl
      | ok u =>
        cases w.obstacle with
        | some e => rfl
        | none => cases st.prepare w.data <;> rfl

theorem value_run_congr (h : Continues w w') (hdata : w'.data = w.data) (st : Statement)
    (d : Definition) (p : Params) : ((st.run d p).on w').1 = ((st.run d p).on w).1 := by
  rw [value_run, value_run, rowsFor, rowsFor, h.isOpen, h.obstacle, hdata]

theorem orderly_run (st : Statement) (d : Definition) (p : Params) : Orderly (st.run d p) := by
  have hrest : Orderly (requireOpen >>= fun _ => ofStore (bindParams d.parameters st.bound) >>=
      fun _ => look fun s => do
        st.prepare s
        pure (st.rows p s)) :=
    OrderlyFrom.requireOpen.andThen fun _ => (OrderlyFrom.ofStore _).andThen fun _ =>
      OrderlyFrom.look _
  rw [Statement.run]
  split
  · exact hrest
  · exact (OrderlyFrom.throw _).andThen fun _ => hrest

end Statement

namespace Definition

theorem answerIn_of_obstacle (h : w.obstacle = none) : d.answerIn p w = d.answerOn p w.data := by
  rw [answerIn, h]

/-- The own statement of a definition is made ready and run with the definition's parameters. -/
def execution (d : Definition) (p : Params) : Act (List (List Datum)) := do
  Act.peek d.statement.prepare
  d.statement.run d p

/-- What is answered with a statement of which the execution gave rows or an error. -/
def answered (d : Definition) (st : Statement) (executed : Except Failure (List (List Datum))) :
    Except Fault Result :=
  match executed with
  | .error failure => .error (Runner.faultOf d failure)
  | .ok data => (checkRows d.id st.columns 0 data).map fun rows =>
      ⟨d.id, d.segment, d.label, st.columns, rows⟩

/-- Where a statement can be made ready, running it as it is gives the same. -/
theorem value_execution_of_isReadyIn (h : d.statement.IsReadyIn w) :
    ((d.execution p).on w).1 = ((d.statement.run d p).on w).1 := by
  rw [execution, on_bind, on_peek, h.1, h.2]

theorem answered_execution (d : Definition) (p : Params) (w : World) :
    d.answered d.statement ((d.execution p).on w).1 = d.answerIn p w := by
  rw [execution, on_bind, on_peek, answerIn]
  cases hw : w.obstacle with
  | some e => rfl
  | none =>
    rw [answerOn]
    dsimp only
    cases hprepare : d.statement.prepare w.data with
    | error e => rfl
    | ok u =>
      dsimp only
      rw [Statement.on_run, Statement.answerOn, hw, isOpen_of_obstacle hw, hprepare]
      cases d.statement.answers with
      | false => rfl
      | true =>
        cases bindParams d.parameters d.statement.bound with
        | error e => rfl
        | ok u =>
          rw [if_pos rfl, if_pos rfl, if_pos rfl, answered]
          dsimp only
          cases checkRows d.id d.statement.columns 0 (d.statement.rows p w.data) <;> rfl

end Definition

namespace Runner

/-- What a runner answers to a definition in a world, and the runner after it. -/
def reply (r : Runner) (d : Definition) (p : Params) (w : World) : Except Fault Result × Runner :=
  match ((r.ready d).on w).1 with
  | .error failure => (.error (faultOf d failure), r)
  | .ok st => (d.answered st ((st.run d p).on w).1, r.keep d st)

/-- What a runner answers to definitions one after the other, and the runner after them. -/
def replies (p : Params) (w : World) : Runner → List Definition → List Outcome × Runner
  | r, [] => ([], r)
  | r, d :: rest =>
    let (result, next) := r.reply d p w
    let (outcomes, last) := replies p w next rest
    (⟨d, result⟩ :: outcomes, last)

theorem on_ready (r : Runner) (d : Definition) (w : World) : (r.ready d).on w =
    match r.kept? d with
    | some st => (.ok st, w)
    | none =>
      match w.obstacle with
      | some e => (.error (.raised (.store e)), w)
      | none =>
        match d.statement.prepare w.data with
        | .error e => (.error (.raised (.store e)), w)
        | .ok _ => (.ok d.statement, w) := by
  rw [ready]
  cases r.kept? d with
  | some st => rfl
  | none =>
    change (Act.peek _ >>= _).on w = _
    rw [on_bind, on_peek]
    cases w.obstacle with
    | some e => rfl
    | none =>
      dsimp only
      cases d.statement.prepare w.data <;> rfl

section congr

variable (h : Continues w w') (hdata : w'.data = w.data)
include h hdata

theorem reply_congr (r : Runner) (d : Definition) (p : Params) :
    r.reply d p w' = r.reply d p w := by
  have hready : ((r.ready d).on w').1 = ((r.ready d).on w).1 := by
    rw [on_ready, on_ready, h.obstacle, hdata]
    cases r.kept? d with
    | some st => rfl
    | none =>
      cases w.obstacle with
      | some e => rfl
      | none =>
        dsimp only
        cases d.statement.prepare w.data <;> rfl
  rw [reply, reply, hready]
  simp only [Statement.value_run_congr h hdata]

theorem replies_congr (p : Params) : ∀ (r : Runner) (definitions : List Definition),
    replies p w' r definitions = replies p w r definitions
  | _, [] => rfl
  | r, d :: rest => by
    rw [replies, replies, reply_congr h hdata]
    dsimp only
    rw [replies_congr p _ rest]

end congr

theorem reply_of_kept (hkept : r.kept? d = some st) :
    r.reply d p w = (d.answered st ((st.run d p).on w).1, r) := by
  rw [reply, on_ready, hkept]
  dsimp only
  rw [keep, hkept]

/-- Where nothing is kept, the own statement of a definition is made ready and run. -/
theorem reply_of_not_kept (hkept : r.kept? d = none) :
    (r.reply d p w).1 = d.answered d.statement ((d.execution p).on w).1 ∧
      ((r.reply d p w).2 = r ∨ d.statement.IsReadyIn w ∧
        (r.reply d p w).2 = { r with statements := (d.id, d.statement) :: r.statements }) := by
  rw [reply, on_ready, hkept, Definition.execution, on_bind, on_peek]
  cases hobstacle : w.obstacle with
  | some e => exact ⟨rfl, Or.inl rfl⟩
  | none =>
    cases hprepare : d.statement.prepare w.data with
    | error e => exact ⟨rfl, Or.inl rfl⟩
    | ok u =>
      dsimp only
      rw [keep, hkept]
      exact ⟨rfl, Or.inr ⟨⟨hobstacle, hprepare⟩, rfl⟩⟩

theorem kept?_reply_of_ne {e : Definition} (hkept : r.kept? d = none) (hne : d.id ≠ e.id) :
    (r.reply d p w).2.kept? e = r.kept? e := by
  obtain ⟨-, heq | ⟨-, heq⟩⟩ := reply_of_not_kept (p := p) (w := w) hkept
  · rw [heq]
  · rw [heq]
    simp [kept?, hne]

theorem orderly_ready (r : Runner) (d : Definition) : Orderly (r.ready d) := by
  rw [ready]
  split
  · exact OrderlyFrom.pure _
  · exact (OrderlyFrom.peek _).andThen fun _ => OrderlyFrom.pure _

theorem orderly_answer (r : Runner) (d : Definition) (st : Statement) (p : Params) :
    Orderly (r.answer d st p) :=
  (st.orderly_run d p).andThen fun _ => (OrderlyFrom.ofExcept _).andThen fun _ =>
    (OrderlyFrom.log _ _ _ _).andThen fun _ => OrderlyFrom.pure _

theorem value_answer (r : Runner) (d : Definition) (st : Statement) (p : Params) (w : World) :
    ((r.answer d st p).on w).1.mapError (faultOf d) = d.answered st ((st.run d p).on w).1 := by
  rw [answer, on_bind]
  rcases (st.run d p).on w with ⟨failure | data, v⟩
  · rfl
  · dsimp only [Definition.answered]
    rw [on_bind, on_ofExcept]
    cases checkRows d.id st.columns 0 data with
    | error f => rfl
    | ok rows =>
      obtain ⟨journal, hlog⟩ := exists_on_log_eq r.logger .debug "query executed"
        [("queryId", .string d.id), ("rows", .ofNat rows.length), ("durationMs", .ofNat 0)] v
      change (((Act.log _ _ _ _ >>= _).on v).1).mapError _ = _
      rw [on_bind_of_ok hlog]
      rfl

theorem orderly_execute (r : Runner) (d : Definition) (p : Params) : Orderly (r.execute d p) := by
  refine (r.orderly_ready d).outcome.andThen fun ready => ?_
  split
  · exact OrderlyFrom.pure _
  · refine (r.orderly_answer d _ p).outcome.andThen fun answered => ?_
    split <;> exact OrderlyFrom.pure _

theorem value_execute (r : Runner) (d : Definition) (p : Params) (w : World) :
    ((r.execute d p).on w).1 = .ok (r.reply d p w) := by
  have hworld : ((r.ready d).on w).2 = w := by
    rw [on_ready]
    split
    · rfl
    · split
      · rfl
      · split <;> rfl
  rw [execute, reply, on_bind, on_outcome, hworld]
  dsimp only
  cases ((r.ready d).on w).1 with
  | error failure => rfl
  | ok st =>
    dsimp only
    rw [on_bind, on_outcome, ← value_answer r]
    cases ((r.answer d st p).on w).1 with
    | error failure => rfl
    | ok result => rfl

theorem exists_on_execute (r : Runner) (d : Definition) (p : Params) (w : World) :
    ∃ w', (r.execute d p).on w = (.ok (r.reply d p w), w') ∧ Continues w w' ∧
      w'.data = w.data :=
  ⟨_, Prod.ext (value_execute r d p w) rfl, (orderly_execute r d p).continues trivial,
    leaves_execute isInner_data.still r d p w⟩

theorem exists_on_executeAll (p : Params) : ∀ (definitions : List Definition) (r : Runner)
    (w : World), ∃ w', (executeAll p r definitions).on w = (.ok (replies p w r definitions), w') ∧
      Continues w w' ∧ w'.data = w.data
  | [], r, w => ⟨w, rfl, .refl w, rfl⟩
  | d :: rest, r, w => by
    obtain ⟨v, hexecute, hcontinues, hdata⟩ := exists_on_execute r d p w
    rw [executeAll, replies, on_bind_of_ok hexecute]
    rcases r.reply d p w with ⟨result, next⟩
    have hrest (u : World) (hu : Continues w u) (hdata : u.data = w.data) : ∃ w',
        (executeAll p next rest >>= fun x => pure (⟨d, result⟩ :: x.1, x.2)).on u =
          (.ok (⟨d, result⟩ :: (replies p w next rest).1, (replies p w next rest).2), w') ∧
        Continues w w' ∧ w'.data = w.data := by
      obtain ⟨w', hall, hcontinues, hdata'⟩ := exists_on_executeAll p rest next u
      rw [on_bind_of_ok hall, replies_congr hu hdata]
      exact ⟨w', rfl, hu.trans hcontinues, hdata'.trans hdata⟩
    cases result with
    | ok result => exact hrest v hcontinues hdata
    | error f =>
      obtain ⟨u, hlog, hdatau, hcontinuesu⟩ := exists_on_log next.logger .warning "query failed"
        ([("queryId", .string d.id), ("code", .string f.code.text)] ++ causeField f) v
      change ∃ w', (Act.log _ _ _ _ >>= _).on v = _ ∧ _
      rw [on_bind_of_ok hlog]
      exact hrest u (hcontinues.trans hcontinuesu) (hdatau.trans hdata)

theorem exists_on_runWith_replies (r : Runner) (p : Params) (w : World) :
    ∃ w', (r.runWith p).on w = (.ok (replies p w r r.definitions), w') ∧ Continues w w' ∧
      w'.data = w.data := by
  obtain ⟨v, hall, hcontinues, hdata⟩ := exists_on_executeAll p r.definitions r w
  rcases hreplies : replies p w r r.definitions with ⟨outcomes, next⟩
  rw [hreplies] at hall
  obtain ⟨w', hlog, hdata', hcontinues'⟩ := exists_on_log next.logger .info "query batch finished"
    [("total", .ofNat outcomes.length), ("failed", .ofNat (outcomes.countP Outcome.failed))] v
  refine ⟨w', ?_, hcontinues.trans hcontinues', hdata'.trans hdata⟩
  rw [runWith, on_bind_of_ok hall]
  change (Act.log _ _ _ _ >>= _).on v = _
  rw [on_bind_of_ok hlog]
  rfl

theorem exists_on_runAll_replies {given : Fields} (hgiven : Params.resolve given = .ok p)
    (r : Runner) (w : World) : ∃ w', (r.runAll given).on w =
      (.ok (.ok (replies p w r r.definitions).1, (replies p w r r.definitions).2), w') ∧
        Continues w w' ∧ w'.data = w.data := by
  obtain ⟨w', hwith, hreads⟩ := exists_on_runWith_replies r p w
  refine ⟨w', ?_, hreads⟩
  rw [runAll, hgiven]
  change (runWith r p >>= _).on w = _
  rw [on_bind_of_ok hwith]
  rfl

/-- Definitions with identifiers of their own that are run for the first time are each answered with
their own statement. -/
theorem replies_of_not_kept : ∀ {definitions : List Definition} {r : Runner},
    (definitions.map (·.id)).Nodup → (∀ d ∈ definitions, r.kept? d = none) →
      (replies p w r definitions).1 = definitions.map fun d => ⟨d, d.answerIn p w⟩
  | [], _, _, _ => rfl
  | d :: rest, r, hids, hkept => by
    rw [List.forall_mem_cons] at hkept
    rw [List.map_cons, List.nodup_cons] at hids
    have hrest : ∀ e ∈ rest, (r.reply d p w).2.kept? e = none := fun e he => by
      rw [kept?_reply_of_ne hkept.1 fun hsame => hids.1 (List.mem_map.2 ⟨e, he, hsame.symm⟩)]
      exact hkept.2 e he
    have hfirst : (r.reply d p w).1 = d.answerIn p w :=
      (reply_of_not_kept hkept.1).1.trans (d.answered_execution p w)
    rw [List.map_cons, ← hfirst, ← replies_of_not_kept hids.2 hrest]
    rfl

variable {logger : Journal.Logger} {definitions : List Definition}

/-- A query is found by its identifier. -/
theorem find?_make (hids : (definitions.map (·.id)).Nodup) {d : Definition}
    (hd : d ∈ definitions) : (make logger definitions).find? (some (.string d.id)) = some d := by
  have hfound : ∃ e, definitions.reverse.find? (fun e => e.id = d.id) = some e := by
    rw [← Option.isSome_iff_exists, List.find?_isSome]
    exact ⟨d, List.mem_reverse.2 hd, decide_eq_true rfl⟩
  obtain ⟨e, he⟩ := hfound
  have hid : e.id = d.id := by simpa using List.find?_some he
  have hmem : e ∈ definitions := List.mem_reverse.1 (List.mem_of_find?_eq_some he)
  rw [List.inj_on_of_nodup_map hids hmem hd hid] at he
  exact he

/-- What is asked of a query by its identifier, with parameters or with fields that are none. -/
def answerTo (d : Definition) (given : Fields) (s : Store) : Except Fault Result :=
  match Params.resolve given with
  | .ok p => d.answerOn p s
  | .error f => .error f

theorem on_runQuery (hids : (definitions.map (·.id)).Nodup) {d : Definition}
    (hd : d ∈ definitions) (given : Fields) (hw : w.obstacle = none) :
    (((make logger definitions).runQuery (some (.string d.id)) given).on w).1.map Prod.fst =
      .ok (answerTo d given w.data) := by
  rw [runQuery, find?_make hids hd, answerTo]
  dsimp only
  cases Params.resolve given with
  | error f => rfl
  | ok p =>
    obtain ⟨w', hexecute, -⟩ := exists_on_execute (make logger definitions) d p w
    dsimp only
    rw [hexecute, ← Definition.answerIn_of_obstacle hw, ← d.answered_execution]
    exact congrArg Except.ok (reply_of_not_kept rfl).1

/-- A batch answers what each definition does in the world, and leaves that world's data. -/
theorem exists_on_runWith (logger : Journal.Logger) (hids : (definitions.map (·.id)).Nodup)
    (p : Params) (w : World) :
    ∃ r' w', ((make logger definitions).runWith p).on w =
      (.ok (definitions.map fun d => ⟨d, d.answerIn p w⟩, r'), w') ∧ Continues w w' ∧
        w'.data = w.data := by
  obtain ⟨w', hwith, hreads⟩ := exists_on_runWith_replies (make logger definitions) p w
  have hreplies : (replies p w (make logger definitions) definitions).1 =
      definitions.map fun d => ⟨d, d.answerIn p w⟩ := replies_of_not_kept hids fun _ _ => rfl
  exact ⟨_, w', hwith.trans (by rw [← hreplies]; rfl), hreads⟩

theorem exists_on_runAll (hids : (definitions.map (·.id)).Nodup) {given : Fields}
    (hgiven : Params.resolve given = .ok p) (hw : w.obstacle = none) :
    ∃ r' w', ((make logger definitions).runAll given).on w =
      (.ok (.ok (definitions.map fun d => ⟨d, d.answerOn p w.data⟩), r'), w') := by
  obtain ⟨r', w', hwith, -⟩ := exists_on_runWith logger hids p w
  refine ⟨r', w', ?_⟩
  rw [runAll, hgiven]
  change (runWith _ p >>= _).on w = _
  rw [on_bind_of_ok hwith]
  simp only [Definition.answerIn_of_obstacle hw, on_pure]

end Runner
end FilmReport.Query

namespace FilmReport

namespace Store

/-- The tables of which queries read rows. -/
def queried : List Table :=
  [.movie, .names, .genre, .directorMapping, .roleMapping, .ratings, .movieCountry, .movieLanguage]

theorem rows?_eq (s : Store) (t : Table) :
    (s.rows? t).map (fun _ => ()) =
      if s.has t then .ok () else .error (.noSuchTable t.name) := by
  rw [rows?, numbered?, has]
  cases s.get t <;> rfl

end Store

namespace Query

open Store

variable {s s' : Store}

theorem needs_cons (table : Table) (rest : List Table) (s : Store) :
    needs (table :: rest) s = (s.rows? table).map (fun _ => ()) >>= fun _ => needs rest s :=
  rfl

/-- A definition whose statement answers rows and can be made ready and be bound. -/
structure Definition.Regular (d : Definition) : Prop where
  answers : d.statement.answers = true
  bound : bindParams d.parameters d.statement.bound = .ok ()
  prepare : ∃ tables : List Table, (∀ table ∈ tables, table ∈ queried) ∧
    (d.statement.prepare = needs tables ∨
      ∃ column, d.statement.prepare = needsAmount tables column)

/-- A regular definition answers its rows, if its statement can be made ready. -/
theorem Definition.Regular.answerOn_eq {d : Definition} (hd : d.Regular) (p : Params) (s : Store) :
    d.answerOn p s =
      match d.statement.prepare s with
      | .error e => .error (Runner.faultOf d (.raised (.store e)))
      | .ok _ =>
        (checkRows d.id d.statement.columns 0 (d.statement.rows p s)).map fun rows =>
          ⟨d.id, d.segment, d.label, d.statement.columns, rows⟩ := by
  rw [Definition.answerOn]
  cases hprepare : d.statement.prepare s with
  | error e => rfl
  | ok u =>
    dsimp only
    rw [Statement.answerOn, if_pos hd.answers, hd.bound, hprepare]
    dsimp only
    cases checkRows d.id d.statement.columns 0 (d.statement.rows p s) <;> rfl

theorem regular_of_mem_catalog : ∀ d ∈ catalog, d.Regular := by
  simp only [catalog, List.forall_mem_cons]
  and_intros
  all_goals first
    | exact List.forall_mem_nil _
    | exact ⟨rfl, rfl, _, by decide, .inl rfl⟩
    | exact ⟨rfl, rfl, _, by decide, .inr ⟨_, rfl⟩⟩

theorem nodup_ids_catalog : (catalog.map (·.id)).Nodup := by
  decide

end Query
end FilmReport
