import FilmReport.Proofs.Normalize.Failure
import FilmReport.Session.Host

/-!
Rebuilds of one kind by several sessions of a database. The two transactions of a rebuild are taken
for single steps, so a schedule is a list of steps, each in one of the sessions. What is published
in the end is told by the last two steps: a step that publishes right after another one finds
nothing staged.
-/

set_option autoImplicit false
set_option relaxedAutoImplicit false

namespace FilmReport

open Store Act

namespace Normalize

/-- The transactions of which a rebuild consists. -/
inductive Step where
  | stage
  | publish
deriving DecidableEq, Repr

/-- A step in the session with a number. -/
structure Move where
  session : Nat
  step : Step
deriving DecidableEq, Repr

/-- What a step does. -/
def Step.act (kind : MembershipKind) (options : SplitOptions) : Step → Act Unit
  | .stage => do
    let _ ← Normalize.stage kind options
  | .publish => do
    let _ ← Normalize.publish kind

/-- Whether steps are those of rebuilds one after the other. -/
def areRebuilds : List Step → Bool
  | [] => true
  | .stage :: .publish :: rest => areRebuilds rest
  | _ => false

/-- Every session makes whole rebuilds. -/
def Complete (moves : List Move) : Prop :=
  ∀ n, areRebuilds ((moves.filter fun m => m.session = n).map (·.step)) = true

/-- Whether the step before the last one stages. -/
def endsStaged (moves : List Move) : Bool :=
  match moves.reverse with
  | _ :: m :: _ => m.step = .stage
  | _ => false

/-- Makes the steps of a schedule as long as none fails. -/
def interleave (kind : MembershipKind) (options : SplitOptions) :
    Host → List Move → Except Failure Host
  | h, [] => .ok h
  | h, m :: rest =>
    match h.session? m.session with
    | none => .error (.raised (.store .notOpen))
    | some s =>
      match h.run s [] (m.step.act kind options) with
      | ((.ok _, _), after) => interleave kind options after rest
      | ((.error failure, _), _) => .error failure

variable {kind : MembershipKind} {options : SplitOptions}

/-- A session of a database that is in no transaction. -/
def Idle (h : Host) (d n : Nat) : Prop :=
  ∃ s, h.session? n = some s ∧ s.number = n ∧ s.database = d ∧ s.transaction = none

theorem interleave_cons_eq_ok {h h' : Host} {m : Move} {rest : List Move} :
    interleave kind options h (m :: rest) = .ok h' ↔ ∃ s w, h.session? m.session = some s ∧
      (m.step.act kind options).on (h.worldOf s []) = (.ok (), w) ∧
      interleave kind options (h.afterwards w) rest = .ok h' := by
  rw [interleave]
  cases h.session? m.session with
  | none =>
    constructor
    · intro hok
      cases hok
    · rintro ⟨s, w, hs, -⟩
      cases hs
  | some s =>
    change (match Host.run h s [] (m.step.act kind options) with
      | ((.ok _, _), after) => interleave kind options after rest
      | ((.error failure, _), _) => .error failure) = .ok h' ↔ _
    have hrun : Host.run h s [] (m.step.act kind options) =
        ((((m.step.act kind options).on (h.worldOf s [])).1,
          ((m.step.act kind options).on (h.worldOf s [])).2.journal),
          h.afterwards ((m.step.act kind options).on (h.worldOf s [])).2) := rfl
    rw [hrun]
    rcases hon : (m.step.act kind options).on (h.worldOf s []) with ⟨e | ⟨⟨⟩⟩, w⟩
    · constructor
      · intro hok
        cases hok
      · rintro ⟨s', w', hs, hon', -⟩
        obtain rfl := Option.some.inj hs
        rw [hon] at hon'
        cases (Prod.mk.inj hon').1
    · constructor
      · intro hok
        exact ⟨s, w, rfl, hon, hok⟩
      · rintro ⟨s', w', hs, hon', hok⟩
        obtain rfl := Option.some.inj hs
        rw [hon] at hon'
        obtain ⟨-, rfl⟩ := Prod.mk.inj hon'
        exact hok

theorem interleave_append {h h' : Host} {moves later : List Move} :
    interleave kind options h (moves ++ later) = .ok h' ↔
      ∃ v, interleave kind options h moves = .ok v ∧ interleave kind options v later = .ok h' := by
  induction moves generalizing h with
  | nil =>
    constructor
    · intro hok
      exact ⟨h, rfl, hok⟩
    · rintro ⟨v, hv, hok⟩
      obtain rfl := Except.ok.inj hv
      exact hok
  | cons m rest ih =>
    rw [List.cons_append]
    simp only [interleave_cons_eq_ok, ih]
    constructor
    · rintro ⟨s, w, hs, hon, v, hv, hok⟩
      exact ⟨v, ⟨s, w, hs, hon, hv⟩, hok⟩
    · rintro ⟨v, ⟨s, w, hs, hon, hv⟩, hok⟩
      exact ⟨s, w, hs, hon, v, hv, hok⟩

/-- What a step does to the data. -/
def Stepped (kind : MembershipKind) (options : SplitOptions) (s s' : Store) : Step → Prop
  | .stage => ∃ r, Staged kind options s r s'
  | .publish => ∃ n, Published kind s n s'

theorem orderly_act (step : Step) : Orderly (step.act kind options) := by
  cases step with
  | stage => exact (whole_stage kind options).orderly.andThen fun _ => OrderlyFrom.pure ()
  | publish => exact (whole_publish kind).orderly.andThen fun _ => OrderlyFrom.pure ()

theorem stepped_of_on {step : Step} {w w' : World}
    (h : (step.act kind options).on w = (.ok (), w')) :
    Stepped kind options w.data w'.data step := by
  cases step with
  | stage =>
    obtain ⟨r, v, hstage, hpure⟩ := on_bind_eq_ok.1 h
    obtain ⟨-, rfl⟩ := Prod.mk.inj hpure
    exact ⟨r, (computes_stage kind options).of_on (demands_stage kind options w v r hstage) hstage⟩
  | publish =>
    obtain ⟨n, v, hpublish, hpure⟩ := on_bind_eq_ok.1 h
    obtain ⟨-, rfl⟩ := Prod.mk.inj hpure
    exact ⟨n, (computes_publish kind).of_on (demands_publish kind w v n hpublish) hpublish⟩

theorem transaction_eq_none {w : World} (h : w.savepoints = none) :
    w.session.transaction = none := by
  rcases w with ⟨⟨_, _, _, _, _, _, _, _, _, _ | _⟩, _⟩
  · rfl
  · cases h

theorem savepoints_worldOf (h : Host) {s : Session} (hs : s.transaction = none)
    (clock : List (Option Calendar.Instant)) : (h.worldOf s clock).savepoints = none := by
  change s.transaction.map _ = none
  rw [hs]
  rfl

/-- After an action that ended in no transaction its data are those of its database. -/
theorem store_afterwards (h : Host) {w : World} (hw : w.savepoints = none) :
    ((h.afterwards w).database w.session.database).store = w.data := by
  rw [World.data_of_savepoints_eq_none hw, Host.database_afterwards]
  split <;> rfl

/-- A step in an idle session steps from the data committed before to those committed after, and
leaves idle sessions idle. -/
theorem step_of_interleave {h h' : Host} {d : Nat} {m : Move} {rest : List Move}
    (hm : Idle h d m.session) (hok : interleave kind options h (m :: rest) = .ok h') :
    ∃ v, Stepped kind options (h.database d).store (v.database d).store m.step ∧
      (∀ n, Idle h d n → Idle v d n) ∧ interleave kind options v rest = .ok h' := by
  obtain ⟨s, hs, hnumber, rfl, htransaction⟩ := hm
  obtain ⟨s', w, hs', hon, hrest⟩ := interleave_cons_eq_ok.1 hok
  obtain rfl := Option.some.inj (hs.symm.trans hs')
  have hcontinues := (orderly_act m.step).continues_of_on hon
  have hnone := savepoints_worldOf h htransaction []
  have hsavepoints : w.savepoints = none := hcontinues.savepoints.trans hnone
  have hdatabase : w.session.database = s.database :=
    congrArg (·.session.database) hcontinues.apart
  have hnumber' : w.session.number = s.number := hcontinues.number
  have hbefore : (h.worldOf s []).data = (h.database s.database).store :=
    World.data_of_savepoints_eq_none hnone
  have hafter : ((h.afterwards w).database s.database).store = w.data :=
    hdatabase ▸ store_afterwards h hsavepoints
  refine ⟨h.afterwards w, ?_, fun n hn => ?_, hrest⟩
  · rw [hafter, ← hbefore]
    exact stepped_of_on hon
  · by_cases hsame : n = w.session.number
    · refine ⟨w.session, ?_, hsame.symm, hdatabase, transaction_eq_none hsavepoints⟩
      rw [hsame, Host.session?_afterwards_self]
    · obtain ⟨other, hother, hidle⟩ := hn
      exact ⟨other, (Host.session?_afterwards_of_ne h hsame).trans hother, hidle⟩

/-- The host after an action sees its session as the action left it, but for the journal. -/
theorem worldOf_afterwards {h : Host} {s : Session} {w : World}
    (hw : World.Continues (h.worldOf s []) w) (hopen : w.session.isOpen = true) :
    (h.afterwards w).worldOf w.session [] = { w with journal := [] } := by
  have hclock : w.clock = [] := List.eq_nil_of_suffix_nil hw.clock.1
  have hdirectory : w.directory = h.directory := congrArg (·.directory) hw.apart
  have hstamp : w.stamp = h.stamp := congrArg (·.stamp) hw.apart
  have hends : h.endsJournal w.session = false := by
    rw [Host.endsJournal, hopen]
    simp
  rw [Host.worldOf, Host.database_afterwards, Host.files_afterwards, hends]
  obtain ⟨session, database, files, directory, clock, stamp, journal⟩ := w
  obtain rfl : clock = [] := hclock
  obtain rfl : directory = h.directory := hdirectory
  obtain rfl : stamp = h.stamp := hstamp
  rfl

/-- A rebuild in an idle session leaves what its two steps leave that are made one after the
other. -/
theorem exists_interleave_of_rebuildWith {logger : Journal.Logger} {h : Host} {n : Nat}
    {s : Session} (hs : h.session? n = some s) (hnumber : s.number = n)
    (htransaction : s.transaction = none) {w : World} {r : Rebuild}
    (hon : (rebuildWith logger kind options).on (h.worldOf s []) = (.ok r, w)) :
    ∃ h', interleave kind options h [⟨n, .stage⟩, ⟨n, .publish⟩] = .ok h' ∧
      (h'.database s.database).store = ((h.afterwards w).database s.database).store := by
  have horderly := (computes_rebuildWith logger kind options).orderly
  have hnone := savepoints_worldOf h htransaction []
  have hw := horderly.continues_of_on hon
  have hready := demands_rebuildWith logger kind options _ w r hon
  obtain ⟨staged, v, hstage, hrest⟩ := on_bind_eq_ok.1 hon
  obtain ⟨rows, u, hpublish, hrest⟩ := on_bind_eq_ok.1 hrest
  obtain ⟨_, x, hlog, hpure⟩ := on_bind_eq_ok.1 hrest
  obtain ⟨-, rfl⟩ := Prod.mk.inj hpure
  have hv := (whole_stage kind options).orderly.continues_of_on hstage
  have hopen : v.session.isOpen = true := hv.isOpen.trans hready.isOpen
  have hnone' : v.savepoints = none := hv.savepoints.trans hnone
  have hnumber' : v.session.number = n := hv.number.trans hnumber
  have hdatabase : v.session.database = s.database := congrArg (·.session.database) hv.apart
  have halike : World.Alike v { v with journal := [] } :=
    ⟨rfl, hopen, World.isStale_of_savepoints_eq_none hnone',
      World.isStale_of_savepoints_eq_none (w := { v with journal := [] }) hnone'⟩
  have hu := (whole_publish kind).orderly.continues_of_on hpublish
  obtain ⟨hresult, hafter⟩ := (whole_publish kind).orderly.alike trivial halike
  rcases hon' : (publish kind).on { v with journal := [] } with ⟨result, y⟩
  rw [hpublish, hon'] at hresult hafter
  obtain rfl : Except.ok rows = result := hresult
  have hy := (whole_publish kind).orderly.continues_of_on hon'
  have hnoneY : y.savepoints = none := hy.savepoints.trans hnone'
  have hdatabaseY : y.session.database = s.database :=
    (congrArg (·.session.database) hy.apart).trans hdatabase
  refine ⟨(h.afterwards v).afterwards y, ?_, ?_⟩
  · refine interleave_cons_eq_ok.2 ⟨s, v, hs, on_bind_eq_ok.2 ⟨staged, v, hstage, rfl⟩, ?_⟩
    refine interleave_cons_eq_ok.2 ⟨v.session, y, ?_, ?_, rfl⟩
    · rw [← hnumber', Host.session?_afterwards_self]
    · rw [worldOf_afterwards hv hopen]
      exact on_bind_eq_ok.2 ⟨rows, y, hon', rfl⟩
  · have hstore := store_afterwards (h.afterwards v) hnoneY
    have hstore' := store_afterwards h (hw.savepoints.trans hnone)
    have hdatabase' : x.session.database = s.database := congrArg (·.session.database) hw.apart
    rw [hdatabaseY] at hstore
    rw [hdatabase'] at hstore'
    rw [hstore, hstore', (of_on_log hlog).2, hafter.data]

/-- A store without what is staged and published of a kind. -/
def bare (kind : MembershipKind) (s : Store) : Store :=
  (s.withPublished [] kind).withStaged [] kind

theorem bare_withStaged (kind : MembershipKind) (s : Store)
    (rows : List (Numbered MembershipRow)) : bare kind (s.withStaged rows kind) = bare kind s := by
  cases kind <;> rfl

theorem bare_withPublished (kind : MembershipKind) (s : Store)
    (rows : List (Numbered MembershipRow)) :
    bare kind (s.withPublished rows kind) = bare kind s := by
  cases kind <;> rfl

theorem bare_of_stepped {s s' : Store} {step : Step} (h : Stepped kind options s s' step) :
    bare kind s' = bare kind s := by
  cases step with
  | stage =>
    obtain ⟨r, movies, old, -, -, -, -, -, rfl⟩ := h
    exact bare_withStaged kind s _
  | publish =>
    obtain ⟨n, old, staged, -, -, -, -, -, rfl⟩ := h
    rw [bare_withStaged, bare_withPublished]

/-- Stores that differ in what is staged and published of a kind become one when both are set. -/
theorem eq_of_bare_eq {s s' : Store} (h : bare kind s' = bare kind s)
    (published staged : List (Numbered MembershipRow)) :
    (s'.withPublished published kind).withStaged staged kind =
      (s.withPublished published kind).withStaged staged kind := by
  have hset : ∀ t : Store, (t.withPublished published kind).withStaged staged kind =
      ((bare kind t).withPublished published kind).withStaged staged kind := by
    intro t
    cases kind <;> rfl
  rw [hset, h, ← hset]

theorem rowsOf_bare (kind : MembershipKind) (s : Store) :
    (bare kind s).rowsOf .movie = s.rowsOf .movie := by
  cases kind <;> rfl

/-- Steps change nothing but what is staged and published of the kind. -/
theorem bare_of_interleave {h h' : Host} {d : Nat} {moves : List Move}
    (hidle : ∀ m ∈ moves, Idle h d m.session)
    (hok : interleave kind options h moves = .ok h') :
    bare kind (h'.database d).store = bare kind (h.database d).store ∧
      ∀ n, Idle h d n → Idle h' d n := by
  induction moves generalizing h with
  | nil =>
    obtain rfl := Except.ok.inj hok
    exact ⟨rfl, fun n hn => hn⟩
  | cons m rest ih =>
    obtain ⟨hm, hrest⟩ := List.forall_mem_cons.1 hidle
    obtain ⟨v, hstep, hkept, hok⟩ := step_of_interleave hm hok
    obtain ⟨hbare, hkept'⟩ := ih (fun m' hm' => hkept _ (hrest m' hm')) hok
    exact ⟨hbare.trans (bare_of_stepped hstep), fun n hn => hkept' n (hkept n hn)⟩

/-- Publishing after a step publishes what this one staged, or nothing if it published itself. -/
theorem published_of_stepped {s t t' s' : Store} {step : Step} (hbare : bare kind t = bare kind s)
    (h : Stepped kind options t t' step) (hpublish : Stepped kind options t' s' .publish) :
    s' = (s.withPublished (if step = .stage then rebuiltRows kind options (s.rowsOf .movie) else [])
      kind).withStaged [] kind := by
  obtain ⟨n, old, staged, -, hstaged, -, -, -, rfl⟩ := hpublish
  have hbare' : bare kind t' = bare kind s := (bare_of_stepped h).trans hbare
  have hrows : t.rowsOf .movie = s.rowsOf .movie := by
    rw [← rowsOf_bare kind t, hbare, rowsOf_bare]
  rw [eq_of_bare_eq hbare']
  cases step with
  | stage =>
    obtain ⟨r, movies, old', hmovies, -, -, -, -, rfl⟩ := h
    obtain rfl := Option.some.inj ((stagedOf_withStaged kind t _).symm.trans hstaged)
    rw [map_row_numberedFrom, ← rowsOf_of_eq_some (t := .movie) hmovies, hrows]
    rfl
  | publish =>
    obtain ⟨n', old', staged', -, -, -, -, -, rfl⟩ := h
    obtain rfl := Option.some.inj ((stagedOf_withStaged kind _ []).symm.trans hstaged)
    have hnil : byPlace [] = [] := by rw [byPlace, orderBy, List.mergeSort_nil]
    rw [List.map_nil, hnil]
    rfl

theorem exists_of_areRebuilds {steps : List Step} (h : areRebuilds steps = true)
    (hne : steps ≠ []) : ∃ earlier, steps = earlier ++ [.stage] ++ [.publish] := by
  fun_induction areRebuilds steps with
  | case1 => exact absurd rfl hne
  | case2 rest ih =>
    cases rest with
    | nil => exact ⟨[], rfl⟩
    | cons step rest =>
      obtain ⟨earlier, hearlier⟩ := ih h (List.cons_ne_nil step rest)
      exact ⟨.stage :: .publish :: earlier, congrArg (fun l => .stage :: .publish :: l) hearlier⟩
  | case3 => cases h

/-- The last step of whole rebuilds publishes, and is not the first one. -/
theorem exists_of_complete {moves : List Move} (h : Complete moves) (hne : moves ≠ []) :
    ∃ before m n, moves = before ++ [m, ⟨n, .publish⟩] := by
  obtain rfl | ⟨init, ⟨n, step⟩, hmoves⟩ := List.eq_nil_or_concat moves
  · exact absurd rfl hne
  rw [List.concat_eq_append] at hmoves
  subst hmoves
  have hown := h n
  rw [List.filter_append, List.filter_cons_of_pos (by simp), List.filter_nil, List.map_append]
    at hown
  obtain ⟨earlier, hearlier⟩ := exists_of_areRebuilds hown (by simp)
  obtain ⟨hinit, hlast⟩ := List.append_inj' hearlier rfl
  obtain rfl : step = .publish := List.singleton_inj.1 hlast
  obtain rfl | ⟨before, m, rfl⟩ := List.eq_nil_or_concat init
  · cases earlier <;> cases hinit
  · exact ⟨before, m, n, by simp⟩

theorem endsStaged_append (before : List Move) (m last : Move) :
    endsStaged (before ++ [m, last]) = decide (m.step = .stage) := by
  rw [endsStaged, List.reverse_append]
  rfl

/--
What schedules of whole rebuilds leave, whichever sessions of the database make them and in
whatever order their steps come: the split fields of all movies are published if the step before
the last one stages; if it publishes, too, nothing is. All else stays, and nothing is staged.
-/
theorem data_of_interleave {h h' : Host} {d : Nat} {moves : List Move} (hne : moves ≠ [])
    (hcomplete : Complete moves) (hidle : ∀ m ∈ moves, Idle h d m.session)
    (hok : interleave kind options h moves = .ok h') :
    ∃ rows, (h'.database d).store =
        ((h.database d).store.withPublished rows kind).withStaged [] kind ∧
      (rows.map (·.row)).Perm (if endsStaged moves then
        membershipsOf kind options ((h.database d).store.rowsOf .movie) else []) := by
  obtain ⟨before, m, n, rfl⟩ := exists_of_complete hcomplete hne
  obtain ⟨hbefore, hlast⟩ := List.forall_mem_append.1 hidle
  obtain ⟨hm, hn⟩ := List.forall_mem_cons.1 hlast
  obtain ⟨v, hv, hok⟩ := interleave_append.1 hok
  obtain ⟨hbare, hkept⟩ := bare_of_interleave hbefore hv
  obtain ⟨u, hstep, hkept', hok⟩ := step_of_interleave (hkept _ hm) hok
  obtain ⟨x, hpublish, -, hok⟩ :=
    step_of_interleave (hkept' _ (hkept _ (hn _ (List.mem_singleton_self _)))) hok
  obtain rfl := Except.ok.inj hok
  refine ⟨_, published_of_stepped hbare hstep hpublish, ?_⟩
  rw [endsStaged_append]
  cases m.step with
  | stage =>
    simp only [if_true, decide_true, rebuiltRows, map_row_numberedFrom]
    exact perm_membershipRows kind options _
  | publish => exact List.Perm.refl []

/-- Two sessions of a database in a file that hold no transaction. -/
def twoSessions (s : Store) : Host where
  files := [("/films.db", .database 1)]
  directory := "/"
  databases := [(1, ⟨s, 0, none, true, true, 0⟩)]
  sessions := [(2, session 2), (3, session 3)]
  next := 4
  stamp := ""
where
  session (number : Nat) : Session :=
    ⟨number, 1, "films.db", .file "/films.db", false, true, 5000, true, false, none⟩

/-- Two rebuilds that overlap, and one after them. -/
def overlapThenOne : List Move :=
  [⟨2, .stage⟩, ⟨3, .stage⟩, ⟨2, .publish⟩, ⟨3, .publish⟩, ⟨3, .stage⟩, ⟨3, .publish⟩]

theorem idle_twoSessions (s : Store) {n : Nat} (h : n = 2 ∨ n = 3) : Idle (twoSessions s) 1 n := by
  rcases h with rfl | rfl
  · exact ⟨twoSessions.session 2, rfl, rfl, rfl, rfl⟩
  · exact ⟨twoSessions.session 3, rfl, rfl, rfl, rfl⟩

theorem complete_of_sessions {moves : List Move}
    (hsessions : ∀ m ∈ moves, m.session = 2 ∨ m.session = 3)
    (h : areRebuilds ((moves.filter fun m => m.session = 2).map (·.step)) = true)
    (h' : areRebuilds ((moves.filter fun m => m.session = 3).map (·.step)) = true) :
    Complete moves := by
  intro n
  by_cases h₂ : n = 2
  · rw [h₂, h]
  by_cases h₃ : n = 3
  · rw [h₃, h']
  · have hnil : (moves.filter fun m => m.session = n) = [] := by
      rw [List.filter_eq_nil_iff]
      intro m hm hn
      have := of_decide_eq_true hn
      rcases hsessions m hm with h | h <;> omega
    rw [hnil]
    rfl

theorem data_of_overlapThenOne :
    ∃ h' rows, interleave .country .standard (twoSessions staleFilm) overlapThenOne = .ok h' ∧
      overlapThenOne ≠ [] ∧ Complete overlapThenOne ∧
      (∀ m ∈ overlapThenOne, Idle (twoSessions staleFilm) 1 m.session) ∧
      (h'.database 1).store = (staleFilm.withPublished rows .country).withStaged [] .country ∧
      (rows.map (·.row)).Perm (membershipsOf .country .standard (staleFilm.rowsOf .movie)) := by
  have hsessions : ∀ m ∈ overlapThenOne, m.session = 2 ∨ m.session = 3 := by decide
  have hcomplete : Complete overlapThenOne :=
    complete_of_sessions hsessions (by decide) (by decide)
  have hidle : ∀ m ∈ overlapThenOne, Idle (twoSessions staleFilm) 1 m.session :=
    fun m hm => idle_twoSessions staleFilm (hsessions m hm)
  have hne : overlapThenOne ≠ [] := List.cons_ne_nil _ _
  have hisOk :
      (interleave .country .standard (twoSessions staleFilm) overlapThenOne).isOk = true := by
    decide +kernel
  cases hok : interleave .country .standard (twoSessions staleFilm) overlapThenOne with
  | error e =>
    rw [hok] at hisOk
    cases hisOk
  | ok h' =>
    obtain ⟨rows, hstore, hperm⟩ := data_of_interleave hne hcomplete hidle hok
    exact ⟨h', rows, rfl, hne, hcomplete, hidle, hstore, hperm⟩

/-- Two rebuilds, of which the one stages before the other publishes. -/
def overlap : List Move :=
  [⟨2, .stage⟩, ⟨3, .stage⟩, ⟨2, .publish⟩, ⟨3, .publish⟩]

/-- Rebuilds that overlap may leave nothing published, though none of their steps fails and a movie
has a country. -/
theorem not_published_of_overlap :
    Complete overlap ∧ (∀ m ∈ overlap, Idle (twoSessions staleFilm) 1 m.session) ∧
      ∃ h', interleave .country .standard (twoSessions staleFilm) overlap = .ok h' ∧
      (h'.database 1).store.publishedOf .country = some [] ∧
      membershipsOf .country .standard (staleFilm.rowsOf .movie) ≠ [] := by
  have hsessions : ∀ m ∈ overlap, m.session = 2 ∨ m.session = 3 := by decide
  refine ⟨complete_of_sessions hsessions (by decide) (by decide),
    fun m hm => idle_twoSessions staleFilm (hsessions m hm), ?_⟩
  have hempty : (match interleave .country .standard (twoSessions staleFilm) overlap with
      | .ok h' => decide ((h'.database 1).store.publishedOf .country = some [] ∧
          membershipsOf .country .standard (staleFilm.rowsOf .movie) ≠ [])
      | .error _ => false) = true := by
    decide +kernel
  cases hok : interleave .country .standard (twoSessions staleFilm) overlap with
  | error e =>
    rw [hok] at hempty
    cases hempty
  | ok h' =>
    rw [hok] at hempty
    exact ⟨h', rfl, of_decide_eq_true hempty⟩

end Normalize
end FilmReport
