import FilmReport.Proofs.Session.Along

/-!
What work leaves alone. An action leaves a part of the world if the part is the same after it,
whatever comes of it; what is put together from such actions leaves the part as well (`Act.Leaves`).
Statements, transactions and entries of the journal leave the clock and the files, and they neither
open nor close the session (`World.frame`): they are framed (`Act.Framed`).
-/

set_option autoImplicit false
set_option relaxedAutoImplicit false

namespace FilmReport

/-- A part of a world that neither work on the store nor a reading of the clock changes. -/
structure World.IsSteady {γ : Type} (part : World → γ) : Prop where
  frame : ∀ {w w' : World}, w'.frame = w.frame → part w' = part w
  timed : ∀ (w : World) (clock : List (Option Calendar.Instant)), part (w.timed clock) = part w

/-- A part of a world that neither a look at the store nor an entry of the journal changes. -/
structure World.IsStill {γ : Type} (part : World → γ) : Prop where
  looked : ∀ w : World, part w.looked = part w
  logged : ∀ (w : World) (journal : List Journal.Entry), part (w.logged journal) = part w

theorem World.IsSteady.still {γ : Type} {part : World → γ} (h : IsSteady part) : IsStill part where
  looked _ := h.frame rfl
  logged _ _ := h.frame rfl

/-- The session of a world without what belongs to its transactions. -/
def World.seat (w : World) : Session :=
  w.frame.session

theorem World.isSteady_seat : IsSteady seat where
  frame h := congrArg (fun w => w.session) h
  timed _ _ := rfl

theorem World.isSteady_files : IsSteady files where
  frame h := congrArg (fun w => w.files) h
  timed _ _ := rfl

theorem World.isStill_frame : IsStill frame where
  looked _ := rfl
  logged _ _ := rfl

/-- A part of a world that its session and its database tell, and that no look at the store
changes. -/
structure World.IsInner {γ : Type} (part : World → γ) : Prop where
  looked : ∀ w : World, part w.looked = part w
  same : ∀ {w w' : World}, w'.session = w.session → w'.database = w.database → part w' = part w

theorem World.IsInner.still {γ : Type} {part : World → γ} (h : IsInner part) : IsStill part where
  looked := h.looked
  logged _ _ := h.same rfl rfl

theorem World.isInner_seat : IsInner seat where
  looked _ := rfl
  same hsession _ := by rw [seat, seat, frame, frame, hsession]

theorem World.isInner_data : IsInner data where
  looked := data_looked
  same hsession hdatabase := by rw [data, data, hsession, hdatabase]

namespace Act

open World

variable {α β : Type}

/-- An entry of the journal changes the journal at most. -/
theorem exists_on_log_eq (logger : Journal.Logger) (level : Journal.Level) (message : String)
    (context : Fields) (w : World) :
    ∃ journal, (log logger level message context).on w = (.ok ⟨⟩, w.logged journal) := by
  rw [log, on_modify]
  cases logger.entry? w.stamp level message context with
  | none => exact ⟨w.journal, rfl⟩
  | some entry => exact ⟨w.journal ++ [entry], rfl⟩

variable {γ : Type} {part : World → γ}

/-- An action that, whatever comes of it, leaves a part of the world alone. -/
def Leaves (part : World → γ) (act : Act α) : Prop :=
  ∀ w : World, part (act.on w).2 = part w

namespace Leaves

theorem of_on {act : Act α} (h : Leaves part act) {w w' : World} {r : Except Failure α}
    (hon : act.on w = (r, w')) : part w' = part w := by
  have hpart := h w
  rw [hon] at hpart
  exact hpart

theorem pure (a : α) : Leaves part (pure a : Act α) :=
  fun _ => rfl

theorem throw (e : Failure) : Leaves part (throw e : Act α) :=
  fun _ => rfl

theorem bind {act : Act α} {f : α → Act β} (h : Leaves part act) (hf : ∀ a, Leaves part (f a)) :
    Leaves part (act >>= f) := by
  intro w
  rw [on_bind]
  rcases hon : act.on w with ⟨e | a, v⟩
  · exact h.of_on hon
  · exact (hf a v).trans (h.of_on hon)

theorem forM {f : β → Act PUnit} (hf : ∀ b, Leaves part (f b)) (items : List β) :
    Leaves part (items.forM f) := by
  induction items with
  | nil => exact pure _
  | cons b rest ih => exact (hf b).bind fun _ => ih

theorem mapM {f : β → Act α} (hf : ∀ b, Leaves part (f b)) (items : List β) :
    Leaves part (items.mapM f) := by
  induction items with
  | nil => exact pure _
  | cons b rest ih =>
    rw [List.mapM_cons]
    exact (hf b).bind fun a => ih.bind fun rest => pure _

theorem outcome {act : Act α} (h : Leaves part act) : Leaves part act.outcome :=
  fun w => h w

theorem reporting {act : Act α} (h : Leaves part act) (fault : String → Fault) :
    Leaves part (act.reporting fault) := by
  intro w
  rw [on_reporting]
  exact h w

theorem ofExcept (r : Except Fault α) : Leaves part (ofExcept r) := by
  cases r with
  | ok a => exact pure a
  | error f => exact throw _

theorem ofStore (r : Except StoreError α) : Leaves part (ofStore r) := by
  cases r with
  | ok a => exact pure a
  | error e => exact throw _

theorem requireOpen : Leaves part requireOpen := by
  intro w
  rw [on_requireOpen]
  split <;> rfl

theorem readClock (htimed : ∀ (w : World) (clock : List (Option Calendar.Instant)),
    part (w.timed clock) = part w) : Leaves part readClock := by
  intro w
  rw [OrderlyFrom.on_readClock]
  exact htimed w _

theorem log (hpart : IsStill part) (logger : Journal.Logger) (level : Journal.Level)
    (message : String) (context : Fields) : Leaves part (log logger level message context) := by
  intro w
  obtain ⟨journal, hlog⟩ := exists_on_log_eq logger level message context w
  rw [hlog]
  exact hpart.logged w journal

theorem peek (f : Store → Except StoreError α) : Leaves part (peek f) := by
  intro w
  rw [on_peek]
  cases w.obstacle with
  | some e => rfl
  | none => cases f w.data <;> rfl

theorem look (hpart : IsStill part) (f : Store → Except StoreError α) : Leaves part (look f) := by
  intro w
  rw [on_look]
  cases w.obstacle with
  | some e => rfl
  | none =>
    cases f w.data with
    | error e => rfl
    | ok a => exact hpart.looked w

end Leaves

/-- An action that changes nothing but the data, the transaction, the right to write and the
journal. -/
def Framed (act : Act α) : Prop :=
  ∀ w : World, (act.on w).2.frame = w.frame

namespace Framed

theorem leaves {act : Act α} (h : Framed act) : Leaves frame act :=
  h

theorem of_on {act : Act α} (h : Framed act) {w w' : World} {r : Except Failure α}
    (hon : act.on w = (r, w')) : w'.frame = w.frame :=
  h.leaves.of_on hon

theorem clock {act : Act α} (h : Framed act) {w w' : World} {r : Except Failure α}
    (hon : act.on w = (r, w')) : w'.clock = w.clock :=
  congrArg (·.clock) (h.of_on hon)

theorem isOpen {act : Act α} (h : Framed act) {w w' : World} {r : Except Failure α}
    (hon : act.on w = (r, w')) : w'.session.isOpen = w.session.isOpen :=
  congrArg (·.session.isOpen) (h.of_on hon)

theorem files {act : Act α} (h : Framed act) {w w' : World} {r : Except Failure α}
    (hon : act.on w = (r, w')) : w'.files = w.files :=
  congrArg (·.files) (h.of_on hon)

theorem directory {act : Act α} (h : Framed act) {w w' : World} {r : Except Failure α}
    (hon : act.on w = (r, w')) : w'.directory = w.directory :=
  congrArg (·.directory) (h.of_on hon)

/-- No deed of a script changes what a frame tells. -/
theorem of_script (script : Script α) : Framed script.act := by
  induction script with
  | ends r => exact fun w => rfl
  | next deed rest ih =>
    intro w
    rw [Script.on_next, ih]
    exact (deed.becomes_on w).frame

theorem of_deed (deed : Deed α) : Framed deed.act :=
  fun w => (deed.becomes_on w).frame

theorem pure (a : α) : Framed (pure a : Act α) :=
  Leaves.pure a

theorem throw (e : Failure) : Framed (throw e : Act α) :=
  Leaves.throw e

theorem bind {act : Act α} {f : α → Act β} (h : Framed act) (hf : ∀ a, Framed (f a)) :
    Framed (act >>= f) :=
  h.leaves.bind hf

theorem forM {f : β → Act PUnit} (hf : ∀ b, Framed (f b)) (items : List β) :
    Framed (items.forM f) :=
  Leaves.forM hf items

theorem outcome {act : Act α} (h : Framed act) : Framed act.outcome :=
  h.leaves.outcome

theorem reporting {act : Act α} (h : Framed act) (fault : String → Fault) :
    Framed (act.reporting fault) :=
  h.leaves.reporting fault

theorem look (f : Store → Except StoreError α) : Framed (look f) :=
  of_deed (.look f)

theorem change (f : Store → Effect α) : Framed (change f) :=
  of_deed (.change f)

theorem log (logger : Journal.Logger) (level : Journal.Level) (message : String)
    (context : Fields) : Framed (log logger level message context) :=
  of_deed (.log logger level message context)

theorem prepareTransactions : Framed prepareTransactions :=
  of_deed (.bracket .prepare)

theorem enter : Framed enter := by
  rw [← Script.act_enter]
  exact of_script _

theorem leave (nesting : Nesting) (result : Except Failure α) : Framed (leave nesting result) := by
  rw [← Script.act_leave]
  exact of_script _

theorem transact {work : Act α} (h : Framed work) : Framed (transact work) :=
  enter.bind fun nesting => h.outcome.bind fun result => leave nesting result

theorem inTransaction {work : Act α} (h : Framed work) (operation : String) :
    Framed (inTransaction operation work) :=
  prepareTransactions.bind fun _ => h.transact.reporting _

end Framed

theorem Leaves.of_framed {act : Act α} (h : Framed act) (hpart : IsSteady part) :
    Leaves part act :=
  fun w => hpart.frame (h w)

end Act
end FilmReport
