import FilmReport.Proofs.Session.Framed

/-!
What actions write to the journal. No action takes back an entry or changes one: what an action
leaves is the journal that it found with its own entries behind (`World.Writes`). Statements and
transactions write nothing; so of an action that is put together from them it is enough to say of
which kind its own entries are (`Act.Notes`).
-/

set_option autoImplicit false
set_option relaxedAutoImplicit false

namespace FilmReport

namespace Journal.Logger

/-- A logger that lets entries of every level pass. -/
def Passes (logger : Logger) : Prop :=
  logger.silent = false ∧ ∀ level ∈ Level.listed, logger.threshold.rank ≤ level.rank

theorem Passes.withContext {logger : Logger} (h : logger.Passes) (more : Fields) :
    (logger.withContext more).Passes :=
  h

theorem Passes.entry? {logger : Logger} (h : logger.Passes) {level : Level}
    (hlevel : level ∈ Level.listed) (stamp message : String) (context : Fields) :
    logger.entry? stamp level message context =
      some ⟨stamp, level, message, logger.context.merge context⟩ := by
  rw [Logger.entry?, h.1, Bool.false_or, if_neg]
  rw [decide_eq_true_iff, Nat.not_lt]
  exact h.2 level hlevel

end Journal.Logger

namespace World

/-- From one world to the other the journal grew by these entries. -/
structure Writes (entries : List Journal.Entry) (w w' : World) : Prop where
  journal : w'.journal = w.journal ++ entries
  stamp : w'.stamp = w.stamp

namespace Writes

variable {w v w' : World} {entries more : List Journal.Entry}

theorem refl (w : World) : Writes [] w w :=
  ⟨(List.append_nil _).symm, rfl⟩

theorem trans (h : Writes entries w v) (h' : Writes more v w') : Writes (entries ++ more) w w' :=
  ⟨by rw [h'.journal, h.journal, List.append_assoc], h'.stamp.trans h.stamp⟩

theorem of_eq (hjournal : w'.journal = w.journal) (hstamp : w'.stamp = w.stamp) :
    Writes [] w w' :=
  ⟨by rw [hjournal, List.append_nil], hstamp⟩

end Writes

theorem journal_claimed (w : World) : w.claimed.journal = w.journal := by
  rw [claimed]
  split <;> rfl

theorem journal_kept (w : World) (s : Store) (wrote : Bool) :
    (w.kept s wrote).journal = w.journal := by
  rw [kept]
  split
  · rfl
  · split <;> rfl

end World

/-- Beginning, ending or dividing a transaction neither reads nor writes the journal. -/
theorem Bracket.journal_on (b : Bracket) (w : World) : (b.act.on w).2.journal = w.journal :=
  congrArg (fun x => x.2.journal) (b.on_logged w w.journal)

namespace Act

open World

variable {α β : Type} {P : Journal.Entry → Prop}

theorem writes_of_on_log {logger : Journal.Logger} (hlogger : logger.Passes)
    (level : Journal.Level) (hlevel : level ∈ Journal.Level.listed) (message : String)
    (context : Fields) (w : World) :
    ∃ w', (log logger level message context).on w = (.ok ⟨⟩, w') ∧
      Writes [⟨w.stamp, level, message, logger.context.merge context⟩] w w' := by
  refine ⟨_, rfl, ?_, ?_⟩
  · dsimp only
    rw [hlogger.entry? hlevel]
  · dsimp only
    rw [hlogger.entry? hlevel]

/-- An action whose own entries in the journal, however it ends, have a property. -/
def Notes (P : Journal.Entry → Prop) (act : Act α) : Prop :=
  ∀ w : World, ∃ entries, Writes entries w (act.on w).2 ∧ ∀ e ∈ entries, P e

namespace Notes

theorem of_on {act : Act α} (h : Notes P act) {w w' : World} {r : Except Failure α}
    (hon : act.on w = (r, w')) : ∃ entries, Writes entries w w' ∧ ∀ e ∈ entries, P e := by
  have hnotes := h w
  rw [hon] at hnotes
  exact hnotes

/-- An action that leaves the journal and the time that is written into it. -/
theorem of_silent {act : Act α} (hjournal : ∀ w, (act.on w).2.journal = w.journal)
    (hframed : Framed act) : Notes P act :=
  fun w => ⟨[], .of_eq (hjournal w) (congrArg (·.stamp) (hframed w)), List.forall_mem_nil _⟩

theorem pure (a : α) : Notes P (pure a : Act α) :=
  of_silent (fun _ => rfl) (Framed.pure a)

theorem throw (e : Failure) : Notes P (throw e : Act α) :=
  of_silent (fun _ => rfl) (Framed.throw e)

theorem bind {act : Act α} {f : α → Act β} (h : Notes P act) (hf : ∀ a, Notes P (f a)) :
    Notes P (act >>= f) := by
  intro w
  rw [on_bind]
  rcases hon : act.on w with ⟨e | a, v⟩
  · exact h.of_on hon
  · obtain ⟨entries, hwrites, hentries⟩ := h.of_on hon
    obtain ⟨more, hwrites', hmore⟩ := hf a v
    exact ⟨entries ++ more, hwrites.trans hwrites', List.forall_mem_append.2 ⟨hentries, hmore⟩⟩

theorem forM {f : β → Act PUnit} {items : List β} (hf : ∀ b ∈ items, Notes P (f b)) :
    Notes P (items.forM f) := by
  induction items with
  | nil => exact pure _
  | cons b rest ih =>
    rw [List.forall_mem_cons] at hf
    exact hf.1.bind fun _ => ih hf.2

theorem get {f : World → Act α} (hf : ∀ w, Notes P (f w)) : Notes P (get >>= f) := by
  intro w
  rw [on_bind, on_get]
  exact hf w w

theorem outcome {act : Act α} (h : Notes P act) : Notes P act.outcome :=
  fun w => h w

theorem reporting {act : Act α} (h : Notes P act) (fault : String → Fault) :
    Notes P (act.reporting fault) := by
  intro w
  rw [on_reporting]
  exact h w

theorem log (logger : Journal.Logger) (level : Journal.Level) {message : String} {context : Fields}
    (h : ∀ stamp, P ⟨stamp, level, message, logger.context.merge context⟩) :
    Notes P (log logger level message context) := by
  intro w
  rw [Act.log, on_modify, Journal.Logger.entry?]
  split
  · next entry hentry =>
    split at hentry
    · cases hentry
    · obtain rfl := Option.some.inj hentry
      exact ⟨_, ⟨rfl, rfl⟩, List.forall_mem_singleton.2 (h w.stamp)⟩
  · exact ⟨[], .refl w, List.forall_mem_nil _⟩

theorem bracket (b : Bracket) : Notes P b.act :=
  of_silent b.journal_on (Framed.of_deed (.bracket b))

theorem look (f : Store → Except StoreError α) : Notes P (look f) := by
  refine of_silent (fun w => ?_) (Framed.look f)
  rw [on_look]
  cases w.obstacle with
  | some e => rfl
  | none => cases f w.data <;> rfl

theorem change (f : Store → Effect α) : Notes P (change f) := by
  refine of_silent (fun w => ?_) (Framed.change f)
  rw [on_change]
  cases w.obstacle with
  | some e => rfl
  | none =>
    rcases (f w.data).result with e | ⟨a, s⟩ <;> dsimp only
    · split
      · rfl
      · cases w.refusal with
        | some e' => rfl
        | none =>
          dsimp only
          split <;> exact journal_claimed w
    · cases w.refusal with
      | some e => rfl
      | none => exact (journal_kept _ _ _).trans (journal_claimed w)

theorem enter : Notes P enter := by
  refine get fun w => ?_
  split
  · exact (bracket .save).bind fun _ => pure _
  · exact (bracket .begin).bind fun _ => pure _

theorem conclude (nesting : Nesting) : Notes P (conclude nesting) := by
  cases nesting with
  | outermost => exact bracket .commit
  | inner => exact bracket .release

theorem abandon (nesting : Nesting) : Notes P (abandon nesting) := by
  refine get fun w => ?_
  split
  · cases nesting with
    | outermost => exact bracket .rollback
    | inner => exact (bracket .restore).bind fun _ => bracket .release
  · exact pure _

theorem leave (nesting : Nesting) (result : Except Failure α) : Notes P (leave nesting result) := by
  refine bind (outcome ?_) fun result => ?_
  · cases result with
    | ok a => exact (conclude nesting).bind fun _ => pure _
    | error e => exact throw e
  · cases result with
    | ok a => exact pure a
    | error e => exact (abandon nesting).bind fun _ => throw e

/-- A transaction writes what its work writes. -/
theorem inTransaction {work : Act α} (h : Notes P work) (operation : String) :
    Notes P (inTransaction operation work) :=
  (bracket .prepare).bind fun _ =>
    (enter.bind fun nesting => h.outcome.bind fun result => leave nesting result).reporting _

/-- A reading of the clock is no entry of the journal. -/
theorem readClock : Notes P readClock := by
  intro w
  rw [OrderlyFrom.on_readClock]
  exact ⟨[], .of_eq rfl rfl, List.forall_mem_nil _⟩

end Notes
end Act
end FilmReport
