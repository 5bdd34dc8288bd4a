import FilmReport.Proofs.Session.Computes

/-!
Properties of all data that a world holds: what is committed, the two ends of the view of a
transaction, and every savepoint. Entering and leaving transactions brings no data that was not held
before, so a property that every statement preserves is kept by all that is made of statements,
however it ends (`Act.Keeps`).
-/

set_option autoImplicit false
set_option relaxedAutoImplicit false

namespace FilmReport

/-- The data in a transaction. -/
def Transaction.stores (t : Transaction) : List Store :=
  (match t.view with
    | some v => [v.base, v.working]
    | none => []) ++ t.savepoints.filterMap id

namespace World

/-- All data that a world holds. -/
def stores (w : World) : List Store :=
  w.database.store ::
    match w.session.transaction with
    | some t => t.stores
    | none => []

/-- A world all of whose data have a property. -/
def Holds (I : Store → Prop) (w : World) : Prop :=
  ∀ s ∈ w.stores, I s

namespace Holds

variable {I : Store → Prop} {w w' : World}

theorem of_subset (h : w.Holds I) (hsub : w'.stores ⊆ w.stores) : w'.Holds I :=
  fun s hs => h s (hsub hs)

theorem data (h : w.Holds I) : I w.data := by
  refine h _ ?_
  rcases w with ⟨⟨_, _, _, _, _, _, _, _, _, _ | ⟨_ | _, _⟩⟩, _⟩ <;>
    simp [World.data, Session.data, stores, Transaction.stores]

/-- A world outside of transactions holds its data only. -/
theorem of_outside (houtside : w.savepoints = none) (h : I w.data) : w.Holds I := by
  rcases w with ⟨⟨_, _, _, _, _, _, _, _, _, _ | _⟩, _⟩
  · exact List.forall_mem_singleton.2 h
  · cases houtside

theorem looked (h : w.Holds I) : w.looked.Holds I := by
  refine h.of_subset ?_
  rcases w with ⟨⟨_, _, _, _, _, _, _, _, _, _ | ⟨_ | _, _⟩⟩, _⟩ <;>
    simp [World.looked, mapTransaction, sight, stores, Transaction.stores]

theorem claimed (h : w.Holds I) : w.claimed.Holds I := by
  rw [World.claimed]
  split
  · exact h.looked
  · exact h

theorem noted (h : w.Holds I) {f : View → View} (hf : ∀ v, (f v).base = v.base)
    (hworking : ∀ v, v.working ∈ w.stores → I (f v).working) : (w.noted f).Holds I := by
  rcases w with ⟨⟨_, _, _, _, _, _, _, _, _, _ | ⟨_ | v, savepoints⟩⟩, _⟩
  · exact h
  · exact h
  · have hv := hworking v (by simp [stores, Transaction.stores])
    simp only [Holds, stores, Transaction.stores, World.noted, mapTransaction, Option.map_some,
      hf, List.forall_mem_cons, List.forall_mem_append] at h ⊢
    exact ⟨h.1, ⟨h.2.1.1, hv, h.2.1.2.2⟩, h.2.2⟩

theorem kept (h : w.Holds I) {s : Store} (hs : I s) (wrote : Bool) : (w.kept s wrote).Holds I := by
  rw [World.kept]
  split
  · exact h.noted (fun _ => rfl) fun _ _ => hs
  · split
    · exact List.forall_mem_cons.2 ⟨hs, (List.forall_mem_cons.1 h).2⟩
    · exact h

/-- A transaction that is entered holds no data that were not held before. -/
theorem entered (h : w.Holds I) : w.entered.Holds I := by
  refine h.of_subset ?_
  cases hinside : w.savepoints with
  | none =>
    rw [entered_of_outside hinside]
    simp [begun, stores, Transaction.stores]
  | some stack =>
    rw [entered_of_inside (Option.isSome_of_eq_some hinside)]
    rcases w with ⟨⟨_, _, _, _, _, _, _, _, _, _ | ⟨_ | _, _⟩⟩, _⟩ <;>
      simp [saved, mapTransaction, stores, Transaction.stores]

end Holds

theorem apart_apart (w : World) : w.apart.apart = w.apart := by
  rw [apart, isLockedOut_apart, apart]
  cases w.session.isLockedOut w.database <;> rfl

theorem isStale_of_refusal {w : World} (h : w.refusal = none) :
    w.session.isStale w.database = false := by
  cases hstale : w.session.isStale w.database with
  | false => rfl
  | true =>
    have hlocked := isLockedOut_of_refusal h
    rw [refusal, hstale, hlocked] at h
    cases hr : w.session.readonly <;> simp [hr] at h

/-- A world in which rows can be written is like the one in which what it sees is committed. -/
theorem alike_apart {w : World} (h : w.Ready) : Alike w w.apart where
  apart := (apart_apart w).symm
  isOpen := h.isOpen
  left := isStale_of_refusal h.refusal
  right := isStale_of_savepoints_eq_none rfl

end World

namespace Act

open World

variable {α β : Type} {I : Store → Prop}

/-- An action that, whatever comes of it, leaves a world of whose data a property holds if it began
in one. -/
def Keeps (I : Store → Prop) (act : Act α) : Prop :=
  ∀ w : World, w.Holds I → (act.on w).2.Holds I

/-- An action that, whatever comes of it, leaves a world of whose data a property holds if it began
in one of whose data another one holds. -/
def KeepsTo (I J : Store → Prop) (act : Act α) : Prop :=
  ∀ w : World, w.Holds I → (act.on w).2.Holds J

theorem holds_withdrawn {w : World} (hw : w.Holds I) : (Act.withdrawn w).Holds I := by
  refine hw.of_subset ?_
  rw [Act.withdrawn, stores]
  split <;> simp [stores]

/-- A statement leaves what it makes of the data. -/
theorem keepsTo_change {J : Store → Prop} {f : Store → Effect α} (hmono : ∀ s, I s → J s)
    (h : ∀ s, I s → ∀ a s', (f s).result = .ok (a, s') → J s') : KeepsTo I J (change f) := by
  intro w hw
  have hw' : w.Holds J := fun s hs => hmono s (hw s hs)
  rw [on_change]
  cases w.obstacle with
  | some e => exact hw'
  | none =>
    rcases hresult : (f w.data).result with e | ⟨a, s⟩ <;> dsimp only
    · split
      · exact hw'
      · cases w.refusal with
        | some e' => exact hw'
        | none =>
          dsimp only
          split
          · exact holds_withdrawn hw'.claimed
          · exact hw'.claimed.noted (fun _ => rfl) fun v hv => hw'.claimed _ hv
    · cases w.refusal with
      | some e => exact hw'
      | none => exact hw'.claimed.kept (h w.data hw.data a s hresult) _

namespace Keeps

theorem pure (a : α) : Keeps I (pure a : Act α) :=
  fun _ hw => hw

theorem throw (e : Failure) : Keeps I (throw e : Act α) :=
  fun _ hw => hw

theorem raise (e : StoreError) : Keeps I (raise e : Act α) :=
  throw _

theorem bind {act : Act α} {f : α → Act β} (h : Keeps I act) (hf : ∀ a, Keeps I (f a)) :
    Keeps I (act >>= f) := by
  intro w hw
  have hafter := h w hw
  rw [on_bind]
  rcases hon : act.on w with ⟨e | a, v⟩ <;> rw [hon] at hafter
  · exact hafter
  · exact hf a v hafter

theorem forM {f : β → Act PUnit} {items : List β} (h : ∀ b ∈ items, Keeps I (f b)) :
    Keeps I (items.forM f) := by
  induction items with
  | nil => exact pure _
  | cons b rest ih =>
    rw [List.forall_mem_cons] at h
    exact h.1.bind fun _ => ih h.2

theorem outcome {act : Act α} (h : Keeps I act) : Keeps I act.outcome :=
  fun w hw => h w hw

theorem reporting {act : Act α} (h : Keeps I act) (fault : String → Fault) :
    Keeps I (act.reporting fault) := by
  intro w hw
  rw [on_reporting]
  exact h w hw

/-- What is done next may depend on the world. -/
theorem get {f : World → Act α} (h : ∀ w, w.Holds I → ((f w).on w).2.Holds I) :
    Keeps I (get >>= f) := by
  intro w hw
  rw [on_bind, on_get]
  exact h w hw

theorem modify {f : World → World} (h : ∀ w, w.Holds I → (f w).Holds I) :
    Keeps I (modify f : Act PUnit) :=
  fun w hw => h w hw

theorem ofExcept (r : Except Fault α) : Keeps I (ofExcept r) := by
  cases r with
  | ok a => exact pure a
  | error f => exact throw _

theorem log (logger : Journal.Logger) (level : Journal.Level) (message : String)
    (context : Fields) : Keeps I (log logger level message context) :=
  modify fun w hw => by split <;> exact hw

theorem readClock : Keeps I readClock := by
  intro w hw
  rw [OrderlyFrom.on_readClock]
  exact hw

theorem requireOpen : Keeps I requireOpen :=
  get fun w hw => by split <;> exact hw

theorem prepareTransactions : Keeps I prepareTransactions := by
  refine get fun w hw => ?_
  split
  · exact hw
  · refine requireOpen.bind (fun _ => modify ?_) w hw
    exact fun v hv => hv

theorem peek (f : Store → Except StoreError α) : Keeps I (peek f) := by
  intro w hw
  rw [on_peek]
  cases w.obstacle with
  | some e => exact hw
  | none => cases f w.data <;> exact hw

theorem look (f : Store → Except StoreError α) : Keeps I (look f) := by
  intro w hw
  rw [on_look]
  cases w.obstacle with
  | some e => exact hw
  | none =>
    cases f w.data with
    | error e => exact hw
    | ok a => exact hw.looked

/-- A statement keeps what it preserves. -/
theorem change {f : Store → Effect α}
    (h : ∀ s, I s → ∀ a s', (f s).result = .ok (a, s') → I s') : Keeps I (change f) :=
  keepsTo_change (fun _ hs => hs) h

theorem begin : Keeps I (begin false) := by
  refine requireOpen.bind fun _ => get fun w hw => ?_
  split
  · exact hw
  · refine hw.of_subset ?_
    simp [stores, Transaction.stores]

theorem commit : Keeps I commit := by
  refine requireOpen.bind fun _ => get fun w hw => ?_
  split
  · exact hw
  · next t ht =>
    refine hw.of_subset ?_
    simp only [stores, ht, Transaction.stores]
    cases t.view with
    | none => simp
    | some v =>
      dsimp only
      split
      · split <;> simp [Database.committed]
      · simp

theorem rollback : Keeps I rollback := by
  refine requireOpen.bind fun _ => get fun w hw => ?_
  split
  · exact holds_withdrawn hw
  · exact hw

theorem save : Keeps I save := by
  refine requireOpen.bind fun _ => modify fun w hw => ?_
  split
  · next t ht =>
    refine hw.of_subset ?_
    simp only [stores, ht, Transaction.stores]
    cases t.view <;> simp
  · exact hw

theorem release : Keeps I release := by
  refine requireOpen.bind fun _ => get fun w hw => ?_
  split
  · next view saved savepoints ht =>
    refine hw.of_subset ?_
    simp only [stores, ht, Transaction.stores]
    cases view <;> cases saved <;> simp +contextual [List.subset_def]
  · exact hw

theorem restore : Keeps I restore := by
  refine requireOpen.bind fun _ => get fun w hw => ?_
  split
  · next view saved savepoints ht =>
    refine hw.of_subset ?_
    simp only [stores, ht, Transaction.stores]
    cases view <;> cases saved <;> simp +contextual [List.subset_def]
  · exact hw

theorem enter : Keeps I enter := by
  refine get fun w hw => ?_
  split
  · exact save.bind (fun _ => pure _) w hw
  · exact begin.bind (fun _ => pure _) w hw

theorem conclude (nesting : Nesting) : Keeps I (conclude nesting) := by
  cases nesting with
  | outermost => exact commit
  | inner => exact release

theorem abandon (nesting : Nesting) : Keeps I (abandon nesting) := by
  refine get fun w hw => ?_
  split
  · cases nesting with
    | outermost => exact rollback w hw
    | inner => exact restore.bind (fun _ => release) w hw
  · exact hw

theorem leave (nesting : Nesting) (result : Except Failure α) : Keeps I (leave nesting result) := by
  refine bind (outcome ?_) fun result => ?_
  · cases result with
    | ok a => exact (conclude nesting).bind fun _ => pure _
    | error e => exact throw e
  · cases result with
    | ok a => exact pure a
    | error e => exact (abandon nesting).bind fun _ => throw e

theorem transact {work : Act α} (h : Keeps I work) : Keeps I (transact work) :=
  enter.bind fun nesting => h.outcome.bind fun result => leave nesting result

theorem inTransaction {work : Act α} (h : Keeps I work) (operation : String) :
    Keeps I (inTransaction operation work) :=
  prepareTransactions.bind fun _ => h.transact.reporting _

end Keeps

/-- An action that keeps a property if it answers and leaves another one if it fails. -/
def KeepsUntil (I J : Store → Prop) (act : Act α) : Prop :=
  ∀ w : World, w.Holds I → match act.on w with
    | (.ok _, v) => v.Holds I
    | (.error _, v) => v.Holds J

section KeepsTo

variable {J K : Store → Prop}

theorem Keeps.until {act : Act α} (h : Keeps I act) (hmono : ∀ s, I s → J s) :
    KeepsUntil I J act := by
  intro w hw
  have hafter := h w hw
  rcases hon : act.on w with ⟨e | a, v⟩ <;> rw [hon] at hafter
  · exact fun s hs => hmono s (hafter s hs)
  · exact hafter

theorem Keeps.to {act : Act α} (h : Keeps I act) (hmono : ∀ s, I s → J s) : KeepsTo I J act :=
  fun w hw s hs => hmono s (h w hw s hs)

theorem KeepsUntil.bind {act : Act α} {f : α → Act β} (h : KeepsUntil I J act)
    (hf : ∀ a, KeepsUntil I J (f a)) : KeepsUntil I J (act >>= f) := by
  intro w hw
  have hafter := h w hw
  rw [on_bind]
  rcases hon : act.on w with ⟨e | a, v⟩ <;> rw [hon] at hafter
  · exact hafter
  · exact hf a v hafter

theorem KeepsUntil.andTo {act : Act α} {f : α → Act β} (h : KeepsUntil I J act)
    (hf : ∀ a, KeepsTo I J (f a)) : KeepsTo I J (act >>= f) := by
  intro w hw
  have hafter := h w hw
  rw [on_bind]
  rcases hon : act.on w with ⟨e | a, v⟩ <;> rw [hon] at hafter
  · exact hafter
  · exact hf a v hafter

namespace KeepsTo

theorem bind {act : Act α} {f : α → Act β} (h : KeepsTo I J act) (hf : ∀ a, KeepsTo J K (f a))
    (hmono : ∀ s, J s → K s) : KeepsTo I K (act >>= f) := by
  intro w hw
  have hafter := h w hw
  rw [on_bind]
  rcases hon : act.on w with ⟨e | a, v⟩ <;> rw [hon] at hafter
  · exact fun s hs => hmono s (hafter s hs)
  · exact hf a v hafter

theorem outcome {act : Act α} (h : KeepsTo I J act) : KeepsTo I J act.outcome :=
  fun w hw => h w hw

theorem reporting {act : Act α} (h : KeepsTo I J act) (fault : String → Fault) :
    KeepsTo I J (act.reporting fault) := by
  intro w hw
  rw [on_reporting]
  exact h w hw

theorem transact {work : Act α} (h : KeepsTo I J work) (hmono : ∀ s, I s → J s) :
    KeepsTo I J (transact work) := by
  refine (Keeps.enter.until hmono).andTo fun nesting => ?_
  exact h.outcome.bind (fun result => Keeps.leave nesting result) fun _ hs => hs

theorem inTransaction {work : Act α} (h : KeepsTo I J work) (hmono : ∀ s, I s → J s)
    (operation : String) : KeepsTo I J (inTransaction operation work) :=
  (Keeps.prepareTransactions.until hmono).andTo fun _ => (h.transact hmono).reporting _

end KeepsTo

end KeepsTo

/-- What an orderly action keeps outside of transactions it also keeps of the data within one. -/
theorem OrderlyFrom.data_of_keepsTo {P J : Store → Prop} {act : Act α} (h : OrderlyFrom P act)
    (hkeeps : KeepsTo I J act) (hmono : ∀ s, I s → J s) {w : World} (hw : P w.data)
    (hI : I w.data) : J (act.on w).2.data := by
  by_cases hready : w.Ready
  · rw [(h.alike hw (alike_apart hready)).2.data]
    exact (hkeeps w.apart (Holds.of_outside rfl hI)).data
  · rw [h.idle hw hready]
    exact hmono _ hI

theorem OrderlyFrom.data_of_keeps {P : Store → Prop} {act : Act α} (h : OrderlyFrom P act)
    (hkeeps : Keeps I act) {w : World} (hw : P w.data) (hI : I w.data) :
    I (act.on w).2.data :=
  h.data_of_keepsTo (hkeeps.to fun _ hs => hs) (fun _ hs => hs) hw hI

end Act
end FilmReport
