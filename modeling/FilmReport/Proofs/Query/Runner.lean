import FilmReport.Proofs.Query.Printable

/-!
Queries of a runner that may have kept statements. Whatever was asked of a runner before, a batch
has one outcome for each definition, and where all definitions with an identifier have one
statement, the outcome is what executing the definition's own statement gives, and a query by the
identifier has it too (`Query.RunsEach`).
-/

set_option autoImplicit false
set_option relaxedAutoImplicit false

namespace FilmReport

open Act

namespace Query

open World

section printing

variable {id : String} {columns : List String}

/-- A datum that a report can print. -/
def Datum.IsPrintable : Datum → Prop
  | .cell c => c.IsPrintable
  | .blob => False

theorem Datum.check_of_isPrintable {v : Datum} (h : v.IsPrintable) :
    v.check = .valid v.printed := by
  cases v with
  | cell c => exact Query.check_of_isPrintable h
  | blob => cases h

theorem Datum.isPrintable_of_check {v : Datum} (h : v.check.issues = []) : v.IsPrintable := by
  cases v with
  | cell c => exact Query.isPrintable_of_check h
  | blob => cases h

end printing

variable {d : Definition} {st : Statement} {p : Params} {w w' : World}
  {definitions : List Definition} {before : List World} {r r' : Runner}

namespace Definition

/-- All definitions of a list that have the identifier of this one have its statement. -/
def IsOwnIn (d : Definition) (definitions : List Definition) : Prop :=
  ∀ e ∈ definitions, e.id = d.id → e.statement = d.statement

end Definition

namespace Runner

/-- The definitions of a runner, and where its statements come from: each is the one of a definition
with its identifier, and could be made ready in one of some worlds. -/
structure Holds (definitions : List Definition) (before : List World) (r : Runner) : Prop where
  listed : r.definitions = definitions
  kept : ∀ entry ∈ r.statements, ∃ d ∈ definitions, d.id = entry.1 ∧ d.statement = entry.2 ∧
    ∃ v ∈ before, d.statement.IsReadyIn v

namespace Holds

theorem make (logger : Journal.Logger) (definitions : List Definition) :
    Holds definitions [] (make logger definitions) where
  listed := rfl
  kept := List.forall_mem_nil _

theorem mono (h : Holds definitions before r) {more : List World} (hmore : before ⊆ more) :
    Holds definitions more r where
  listed := h.listed
  kept entry hentry := by
    obtain ⟨d, hd, hid, hst, v, hv, hready⟩ := h.kept entry hentry
    exact ⟨d, hd, hid, hst, v, hmore hv, hready⟩

/-- What is kept for a definition of its own is its statement. -/
theorem of_kept? (h : Holds definitions before r) (hown : d.IsOwnIn definitions)
    (hkept : r.kept? d = some st) : st = d.statement ∧ ∃ v ∈ before, d.statement.IsReadyIn v := by
  obtain ⟨entry, hfound, rfl⟩ := Option.map_eq_some_iff.1 hkept
  have hid : entry.1 = d.id := by simpa using List.find?_some hfound
  obtain ⟨e, he, hentry, hst, hready⟩ := h.kept entry (List.mem_of_find?_eq_some hfound)
  have hsame : e.statement = d.statement := hown e he (hentry.trans hid)
  exact ⟨hst.symm.trans hsame, hsame ▸ hready⟩

end Holds

/-- All that a runner has kept in addition can be made ready in a world. -/
def Learns (definitions : List Definition) (w : World) (r r' : Runner) : Prop :=
  ∀ d : Definition, d.IsOwnIn definitions → r'.kept? d = r.kept? d ∨ d.statement.IsReadyIn w

theorem Learns.refl (definitions : List Definition) (w : World) (r : Runner) :
    Learns definitions w r r :=
  fun _ _ => Or.inl rfl

theorem Learns.trans {r'' : Runner} (h : Learns definitions w r r')
    (h' : Learns definitions w r' r'') : Learns definitions w r r'' := fun d hown =>
  (h' d hown).elim (fun heq => (h d hown).imp_left heq.trans) Or.inr

/-- After an answer a runner keeps no more than it could make ready. -/
theorem Holds.reply (h : Holds definitions before r) (hd : d ∈ definitions) (hw : w ∈ before) :
    Holds definitions before (r.reply d p w).2 ∧ Learns definitions w r (r.reply d p w).2 := by
  cases hkept : r.kept? d with
  | some st =>
    rw [reply_of_kept hkept]
    exact ⟨h, Learns.refl definitions w r⟩
  | none =>
    rcases (reply_of_not_kept hkept).2 with heq | ⟨hready, heq⟩
    · rw [heq]
      exact ⟨h, Learns.refl definitions w r⟩
    · rw [heq]
      refine ⟨⟨h.listed, List.forall_mem_cons.2 ⟨⟨d, hd, rfl, rfl, w, hw, hready⟩, h.kept⟩⟩, ?_⟩
      intro e hown
      by_cases hid : d.id = e.id
      · exact Or.inr (hown d hd hid ▸ hready)
      · rw [← heq]
        exact Or.inl (kept?_reply_of_ne hkept hid)

/-- Runners that differ in what could be made ready answer the same to a definition of its own. -/
theorem Learns.reply_eq (hlearns : Learns definitions w r r') (h : Holds definitions before r)
    {more : List World} (h' : Holds definitions more r') (hown : d.IsOwnIn definitions) :
    (r'.reply d p w).1 = (r.reply d p w).1 := by
  have hready {r : Runner} {before : List World} (h : Holds definitions before r)
      (hready : d.statement.IsReadyIn w) :
      (r.reply d p w).1 = d.answered d.statement ((d.statement.run d p).on w).1 := by
    cases hkept : r.kept? d with
    | none => rw [(reply_of_not_kept hkept).1, Definition.value_execution_of_isReadyIn hready]
    | some st =>
      obtain ⟨rfl, -⟩ := h.of_kept? hown hkept
      rw [reply_of_kept hkept]
  rcases hlearns d hown with hsame | hisReady
  · cases hkept : r.kept? d with
    | none => rw [(reply_of_not_kept hkept).1, (reply_of_not_kept (hsame.trans hkept)).1]
    | some st => rw [reply_of_kept hkept, reply_of_kept (hsame.trans hkept)]
  · rw [hready h hisReady, hready h' hisReady]

/-- In a batch every definition of its own is answered as it would be before the batch. -/
theorem Holds.replies (hw : w ∈ before) : ∀ {queue : List Definition} {r : Runner},
    queue ⊆ definitions → Holds definitions before r →
      Holds definitions before (replies p w r queue).2 ∧
      Learns definitions w r (replies p w r queue).2 ∧
      ∀ o ∈ (replies p w r queue).1, o.definition.IsOwnIn definitions →
        o.result = (r.reply o.definition p w).1
  | [], r, _, h => ⟨h, Learns.refl definitions w r, List.forall_mem_nil _⟩
  | d :: rest, r, hqueue, h => by
    obtain ⟨hd, hrest⟩ := List.cons_subset.1 hqueue
    obtain ⟨hnext, hlearns⟩ := h.reply (p := p) hd hw
    obtain ⟨hlast, hlearnsRest, houtcomes⟩ := Holds.replies hw hrest hnext
    refine ⟨hlast, hlearns.trans hlearnsRest, List.forall_mem_cons.2 ⟨fun _ => rfl, ?_⟩⟩
    intro o ho hown
    exact (houtcomes o ho hown).trans (hlearns.reply_eq h hnext hown)

theorem mem_of_find? {id : Option Json} (h : r.find? id = some d) : d ∈ r.definitions := by
  cases id with
  | none => cases h
  | some id =>
    cases id with
    | string id => exact List.mem_reverse.1 (List.mem_of_find?_eq_some h)
    | _ => cases h

theorem exists_on_runQuery_eq {id : Option Json} {given : Fields}
    (hgiven : Params.resolve given = .ok p) (hfind : r.find? id = some d) (w : World) :
    ∃ w', (r.runQuery id given).on w = (.ok (r.reply d p w), w') := by
  obtain ⟨w', hexecute, -⟩ := exists_on_execute r d p w
  rw [runQuery, hfind]
  dsimp only
  rw [hgiven]
  exact ⟨w', hexecute⟩

/-- What can be asked of a runner. -/
inductive Ask where
  | query (id : Option Json) (given : Fields)
  | batch (given : Fields)

/-- The runner after it was asked in a world. -/
def Ask.leaves (r : Runner) (w : World) : Ask → Runner
  | query id given =>
    match ((r.runQuery id given).on w).1 with
    | .ok answer => answer.2
    | .error _ => r
  | batch given =>
    match ((r.runAll given).on w).1 with
    | .ok answer => answer.2
    | .error _ => r

/-- The runner after it was asked in one world after the other. -/
def after (r : Runner) (history : List (World × Ask)) : Runner :=
  history.foldl (fun r asked => asked.2.leaves r asked.1) r

theorem Holds.leaves (h : Holds definitions before r) (w : World) (ask : Ask) :
    Holds definitions (before ++ [w]) (ask.leaves r w) := by
  have hmore := h.mono (List.subset_append_left before [w])
  have hw : w ∈ before ++ [w] := List.mem_append_right _ (List.mem_singleton_self w)
  cases ask with
  | query id given =>
    rw [Ask.leaves]
    cases hfind : r.find? id with
    | none =>
      rw [runQuery, hfind]
      exact hmore
    | some d =>
      cases hgiven : Params.resolve given with
      | error f =>
        rw [runQuery, hfind]
        dsimp only
        rw [hgiven]
        exact hmore
      | ok p =>
        obtain ⟨w', hon⟩ := exists_on_runQuery_eq hgiven hfind w
        rw [hon]
        exact (hmore.reply (h.listed ▸ mem_of_find? hfind) hw).1
  | batch given =>
    rw [Ask.leaves]
    cases hgiven : Params.resolve given with
    | error f =>
      rw [runAll, hgiven]
      exact hmore
    | ok p =>
      obtain ⟨w', hon, -⟩ := exists_on_runAll_replies hgiven r w
      rw [hon]
      exact (Holds.replies hw (h.listed ▸ List.Subset.refl _) hmore).1

theorem Holds.after (h : Holds definitions before r) (history : List (World × Ask)) :
    Holds definitions (before ++ history.map Prod.fst) (r.after history) := by
  induction history generalizing before r with
  | nil => exact h.mono (List.subset_append_left before _)
  | cons asked rest ih =>
    have hrest := ih (h.leaves asked.1 asked.2)
    rw [List.append_assoc] at hrest
    exact hrest

end Runner

end Query
end FilmReport
