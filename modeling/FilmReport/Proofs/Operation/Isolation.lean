import FilmReport.Proofs.Normalize.Outcome
import FilmReport.Proofs.Operation.Sharing

/-!
What the reader sees while the writer works (`Sharing.Isolates`). Each listing is of the tables as a
single commit left them, successive ones are never of an older commit, and those of one transaction
are of the same. A commit is a whole stage, a whole publication or a whole batch of movies, and only
publications change what is listed.
-/

set_option autoImplicit false
set_option relaxedAutoImplicit false

namespace FilmReport

open Dataset Normalize Store Act World Script

section commits

variable {s s' : Store} {asked : Option Json}

/-- What is published stays as it is. -/
def Spares (s s' : Store) : Prop :=
  ∀ kind, s'.publishedOf kind = s.publishedOf kind

theorem Spares.refl (s : Store) : Spares s s :=
  fun _ => rfl

theorem Spares.trans {s'' : Store} (h : Spares s s') (h' : Spares s' s'') : Spares s s'' :=
  fun kind => (h' kind).trans (h kind)

theorem Stages.spares (h : Stages s s') : Spares s s' := by
  obtain ⟨staged, options, r, movies, old, -, -, -, -, -, rfl⟩ := h
  exact fun kind => publishedOf_withStaged kind staged s _

/-- A row is written in the table of its kind. -/
theorem get_of_writes {kind : RowKind} {input : Json} {u : Table} (h : kind.Writes input s s')
    (hu : u ≠ kind.table) : s'.get u = s.get u := by
  obtain ⟨cells, -, hinsert⟩ := h
  rw [RowKind.insert] at hinsert
  cases hrow : kind.row cells s with
  | error e =>
    rw [hrow] at hinsert
    cases hinsert
  | ok row =>
    rw [hrow] at hinsert
    change (s.insert kind.table kind.conflict row).map (fun s => ((), s)) = .ok ((), s') at hinsert
    cases hstored : s.insert kind.table kind.conflict row with
    | error e =>
      rw [hstored] at hinsert
      cases hinsert
    | ok t =>
      rw [hstored] at hinsert
      obtain rfl : t = s' := (Prod.mk.inj (Except.ok.inj hinsert)).2
      obtain ⟨after, rfl, -⟩ := exists_of_insert hstored
      exact get_put_of_ne s _ hu

theorem WritesMovies.spares (h : WritesMovies s s') : Spares s s' := by
  obtain ⟨inputs, hchain⟩ := h
  induction inputs generalizing s with
  | nil =>
    obtain rfl : s' = s := hchain
    exact .refl _
  | cons input rest ih =>
    obtain ⟨t, hwrites, hrest⟩ := hchain
    refine Spares.trans (fun kind => ?_) (ih hrest)
    cases kind with
    | country => exact get_of_writes (u := .movieCountry) hwrites (by decide)
    | language => exact get_of_writes (u := .movieLanguage) hwrites (by decide)

theorem Writing.settles_of_isQuiet {writing : Writing} (h : writing.isQuiet = true) :
    writing.script.Settles Spares := by
  cases writing with
  | stage asked options => exact (settles _).mono fun _ _ => Stages.spares
  | movies given => exact (settles _).mono fun _ _ => WritesMovies.spares
  | publish asked => cases h
  | rebuild logger asked given => cases h

/-- No commit makes or drops a table of published memberships. -/
theorem Advances.isSome (h : Advances s s') (kind : MembershipKind) :
    (s'.publishedOf kind).isSome = (s.publishedOf kind).isSome := by
  cases h with
  | staged h => rw [h.spares kind]
  | written h => rw [h.spares kind]
  | published h =>
    obtain ⟨published, n, old, staged, hold, -, -, -, -, rfl⟩ := h
    rw [publishedOf_withStaged]
    cases published <;> cases kind <;> first | rfl | exact (congrArg Option.isSome hold).symm

theorem Advances.finds (h : Advances s s') : finds asked s' = finds asked s := by
  rw [Dataset.finds, Dataset.finds]
  cases MembershipKind.Asked.of asked with
  | kind kind => exact h.isSome kind
  | _ => rfl

end commits

namespace Sharing

variable {made : Store → Store → Prop} {p : Sharing} {x y : Session} {turns : List Turn}

/-- What becomes of the reader's session `y` in a turn where `d` is committed. -/
structure Sees (d : Database) (turn : Turn) (y y' : Session) : Prop where
  unfixed : y.Unfixed → y'.Unfixed ∨ y'.Fixed d.store
  fixed : ∀ s, y.Fixed s → y'.Fixed s ∨ y'.transaction = none
  within : turn.isLast = false → y.transaction.isSome = true → y'.transaction.isSome = true
  lists : ∀ asked, turn = .lists asked → y.transaction.isSome = true →
    finds asked (y.data d) = true → y'.isFixed = true

/-- A turn of the writer does not touch the reader's session. -/
theorem sees_of_writer {d : Database} {turn : Turn} (h : ∀ asked, turn ≠ .lists asked) :
    Sees d turn y y where
  unfixed := .inl
  fixed _ := .inl
  within _ hy := hy
  lists asked hturn := absurd hturn (h asked)

namespace Going

/-- A turn in which the reader only glances at the database commits nothing. -/
theorem glanced {α : Type} {act : Act α} {turn : Turn} (h : p.Going made x y)
    (hglances : Glances (p.host.worldOf y []) (act.on (p.host.worldOf y [])).2)
    (hwithin : turn.isLast = false → y.transaction.isSome = true →
      (act.on (p.host.worldOf y [])).2.session.transaction.isSome = true)
    (hlists : ∀ asked, turn = .lists asked → y.transaction.isSome = true →
      finds asked (y.data p.database) = true →
        (act.on (p.host.worldOf y [])).2.session.isFixed = true) :
    (∃ x' y', Going made { p with host := p.host.acted p.reader act } x' y' ∧
      Sees p.database turn y y') ∧
    Commits made p.database (Sharing.database { p with host := p.host.acted p.reader act }) := by
  obtain ⟨hgoing, hdatabase⟩ := h.acted hglances
  refine ⟨⟨x, _, hgoing, ?_⟩, .inl ?_⟩
  · exact
      { unfixed := fun hy => h.database ▸ hglances.unfixed hy
        fixed := fun s hy => hglances.fixed hy
        within := hwithin
        lists := hlists }
  · exact ⟨congrArg Database.store hdatabase, congrArg Database.version hdatabase⟩

/-- Every turn goes on, and makes no commit that `made` does not allow. -/
theorem after (h : p.Going made x y) {turn : Turn}
    (hstarts : ∀ writing, turn = .starts writing → writing.script.Settles made) :
    (∃ x' y', (p.after turn).Going made x' y' ∧ Sees p.database turn y y') ∧
      Commits made p.database (p.after turn).database := by
  cases turn with
  | starts writing =>
    have hsees : Sees p.database (.starts writing) y y :=
      sees_of_writer fun _ hturn => by cases hturn
    rw [Sharing.after]
    split
    · next hidle =>
      obtain ⟨host, n, m, rest⟩ := p
      cases rest with
      | next deed rest => cases hidle
      | ends r =>
        obtain ⟨hopen, houtside⟩ := h.along
        refine ⟨⟨x, y, { h with along := ?_ }, hsees⟩, .inl ⟨rfl, rfl⟩⟩
        exact hstarts writing rfl _ hopen houtside
    · exact ⟨⟨x, y, h, hsees⟩, .inl (.refl _)⟩
  | writes =>
    obtain ⟨⟨x', hgoing⟩, hcommits⟩ := h.write
    exact ⟨⟨x', y, hgoing, sees_of_writer fun _ hturn => by cases hturn⟩, hcommits⟩
  | brackets b =>
    exact h.glanced (.turned (b.turns_on _)) (fun hb hy => b.isSome_on hb hy)
      fun asked hturn => by cases hturn
  | lists asked =>
    have hon := h.on_listAsked asked
    refine h.glanced ?_ (fun _ hy => ?_) fun asked' hturn hy hfinds => ?_
    · rw [hon]
      dsimp only
      split
      · exact .looked
      · exact .turned .same
    · rw [hon]
      dsimp only
      split
      · exact (Option.isSome_map ..).trans hy
      · exact hy
    · obtain rfl : asked = asked' := Turn.lists.inj hturn
      rw [hon, hfinds]
      exact isFixed_looked hy

variable {i j : Nat}

theorem reach_succ (h : (p.reach turns i).Going made x y)
    (hstarts : ∀ writing, turns[i]? = some (.starts writing) → writing.script.Settles made) :
    (∃ x' y', (p.reach turns (i + 1)).Going made x' y' ∧
      Sees (p.reach turns i).database (turns[i]?.getD .writes) y y') ∧
    Commits made (p.reach turns i).database (p.reach turns (i + 1)).database := by
  cases hturn : turns[i]? with
  | none =>
    rw [reach_succ_of_none p hturn]
    exact ⟨⟨x, y, h, sees_of_writer fun _ hwrites => by cases hwrites⟩, .inl (.refl _)⟩
  | some turn =>
    rw [Sharing.reach_succ p hturn]
    exact h.after fun writing hwriting => hstarts writing (hwriting ▸ hturn)

theorem settles_advances (writing : Writing) : writing.script.Settles Advances :=
  writing.settles.mono fun _ _ => Writing.Makes.advances

theorem succ (h : (p.reach turns i).Going Advances x y) :
    ∃ x' y', (p.reach turns (i + 1)).Going Advances x' y' ∧
      Sees (p.reach turns i).database (turns[i]?.getD .writes) y y' :=
  (h.reach_succ fun writing _ => settles_advances writing).1

theorem reach (h : p.Going Advances x y) (turns : List Turn) (i : Nat) :
    ∃ x' y', (p.reach turns i).Going Advances x' y' := by
  induction i with
  | zero => exact ⟨x, y, h⟩
  | succ i ih =>
    obtain ⟨x', y', hi⟩ := ih
    obtain ⟨x'', y'', hgoing, -⟩ := hi.succ
    exact ⟨x'', y'', hgoing⟩

theorem commits (h : p.Going Advances x y) (turns : List Turn) (i : Nat) :
    Commits Advances (p.reach turns i).database (p.reach turns (i + 1)).database := by
  obtain ⟨x', y', hi⟩ := h.reach turns i
  exact (hi.reach_succ fun writing _ => settles_advances writing).2

/-- At all times the same tables are there to be listed. -/
theorem finds_reach (h : p.Going Advances x y) (turns : List Turn) (asked : Option Json) (i : Nat) :
    finds asked (p.reach turns i).database.store = finds asked p.database.store := by
  induction i with
  | zero => rfl
  | succ i ih =>
    rw [← ih]
    obtain ⟨hstore, -⟩ | ⟨-, hadvances⟩ := h.commits turns i
    · rw [hstore]
    · exact hadvances.finds

end Going

/-- Whether the reader's transaction has a view. -/
def isFixed (p : Sharing) : Bool :=
  p.session?.any (·.isFixed)

/-- The number of turns after which what the reader sees was the last commit: none since, or those
before its transaction took its view. -/
def seen (p : Sharing) (turns : List Turn) : Nat → Nat
  | 0 => 0
  | i + 1 => if (p.reach turns (i + 1)).isFixed then seen p turns i else i + 1

theorem seen_le (p : Sharing) (turns : List Turn) (i : Nat) : p.seen turns i ≤ i := by
  induction i with
  | zero => exact Nat.le_refl 0
  | succ i ih =>
    rw [seen]
    split
    · exact Nat.le_succ_of_le ih
    · exact Nat.le_refl _

theorem monotone_seen (p : Sharing) (turns : List Turn) : Monotone (p.seen turns) := by
  refine monotone_nat_of_le_succ fun i => ?_
  rw [seen]
  split
  · exact Nat.le_refl _
  · exact Nat.le_succ_of_le (p.seen_le turns i)

theorem Going.isFixed (h : p.Going made x y) : p.isFixed = y.isFixed := by
  rw [Sharing.isFixed, session?, h.reader]
  rfl

/-- The reader's session sees the last commit, or its transaction has a view of an earlier one. -/
def Follows (p : Sharing) (turns : List Turn) (i : Nat) (y : Session) : Prop :=
  y.Unfixed ∧ p.seen turns i = i ∨ y.Fixed (p.reach turns (p.seen turns i)).database.store

namespace Going

variable {i j : Nat}

theorem follows (h : p.Going Advances x y) (hy : y.transaction = none) (turns : List Turn)
    (i : Nat) : ∃ x' y', (p.reach turns i).Going Advances x' y' ∧ Follows p turns i y' := by
  induction i with
  | zero => exact ⟨x, y, h, .inl ⟨Session.unfixed_of_outside hy, rfl⟩⟩
  | succ i ih =>
    obtain ⟨x', y', hi, hfollows⟩ := ih
    obtain ⟨x'', y'', hgoing, hsees⟩ := hi.succ
    refine ⟨x'', y'', hgoing, ?_⟩
    have hunfixed : y''.Unfixed → Follows p turns (i + 1) y'' := by
      refine fun hy'' => .inl ⟨hy'', ?_⟩
      rw [seen, hgoing.isFixed, hy''.isFixed]
      rfl
    have hfixed : y''.Fixed (p.reach turns (p.seen turns i)).database.store →
        Follows p turns (i + 1) y'' := by
      intro hy''
      refine .inr ?_
      rw [seen, hgoing.isFixed, hy''.isFixed]
      exact hy''
    obtain ⟨hy', hseen⟩ | hy' := hfollows
    · obtain hy'' | hy'' := hsees.unfixed hy'
      · exact hunfixed hy''
      · exact hfixed (hseen.symm ▸ hy'')
    · obtain hy'' | hy'' := hsees.fixed _ hy'
      · exact hfixed hy''
      · exact hunfixed (Session.unfixed_of_outside hy'')

/-- The reader is answered from the commit that it sees. -/
theorem answer_reach (h : p.Going Advances x y) (hy : y.transaction = none) (turns : List Turn)
    (i : Nat) (asked : Option Json) : (p.reach turns i).answer asked =
      listing asked (p.reach turns (p.seen turns i)).database.store := by
  obtain ⟨x', y', hi, hfollows⟩ := h.follows hy turns i
  rw [hi.answer]
  obtain ⟨hy', hseen⟩ | hy' := hfollows
  · rw [hy'.data, hseen]
  · rw [hy'.data]

theorem seen_of_outside (h : p.Going Advances x y) (hy : y.transaction = none)
    (houtside : (p.reach turns i).isWithin = false) : p.seen turns i = i := by
  obtain ⟨x', y', hi, ⟨-, hseen⟩ | ⟨t, v, ht, -⟩⟩ := h.follows hy turns i
  · exact hseen
  · rw [hi.isWithin, ht] at houtside
    cases houtside

theorem isLast_getD (h : ∀ turn, turns[j]? = some turn → turn.isLast = false) :
    (turns[j]?.getD .writes).isLast = false := by
  cases hturn : turns[j]? with
  | none => rfl
  | some turn => exact h turn hturn

/-- The reader's transaction goes on where no turn can end it. -/
theorem isWithin_of_le (h : p.Going Advances x y) (hwithin : (p.reach turns i).isWithin = true)
    (hij : i ≤ j)
    (hlast : ∀ k turn, i ≤ k → k < j → turns[k]? = some turn → turn.isLast = false) :
    (p.reach turns j).isWithin = true := by
  induction j, hij using Nat.le_induction with
  | base => exact hwithin
  | succ j hij ih =>
    have hj := ih fun k turn hik hkj => hlast k turn hik (Nat.lt_succ_of_lt hkj)
    obtain ⟨x', y', hgoing⟩ := h.reach turns j
    obtain ⟨x'', y'', hgoing', hsees⟩ := hgoing.succ
    rw [hgoing.isWithin] at hj
    rw [hgoing'.isWithin]
    exact hsees.within (isLast_getD fun turn => hlast j turn hij (Nat.lt_succ_self j)) hj

/-- What is seen stays the same from the first look up to the end of the transaction. -/
theorem seen_eq_of_isFixed (h : p.Going Advances x y) (hy : y.transaction = none)
    (hfixed : (p.reach turns i).isFixed = true) (hij : i ≤ j)
    (hlast : ∀ k turn, i ≤ k → k < j → turns[k]? = some turn → turn.isLast = false) :
    (p.reach turns j).isFixed = true ∧ p.seen turns j = p.seen turns i := by
  induction j, hij using Nat.le_induction with
  | base => exact ⟨hfixed, rfl⟩
  | succ j hij ih =>
    obtain ⟨hj, hseen⟩ := ih fun k turn hik hkj => hlast k turn hik (Nat.lt_succ_of_lt hkj)
    obtain ⟨x', y', hgoing, hfollows⟩ := h.follows hy turns j
    obtain ⟨x'', y'', hgoing', hsees⟩ := hgoing.succ
    rw [hgoing.isFixed] at hj
    obtain ⟨hunfixed, -⟩ | hy' := hfollows
    · rw [hunfixed.isFixed] at hj
      cases hj
    have hwithin : y''.transaction.isSome = true := by
      obtain ⟨t, v, ht, -⟩ := hy'
      refine hsees.within (isLast_getD fun turn => hlast j turn hij (Nat.lt_succ_self j)) ?_
      rw [ht]
      rfl
    obtain hy'' | hy'' := hsees.fixed _ hy'
    · have hfixed' : (p.reach turns (j + 1)).isFixed = true := hgoing'.isFixed.trans hy''.isFixed
      rw [seen, hfixed']
      exact ⟨rfl, hseen⟩
    · rw [hy''] at hwithin
      cases hwithin

/-- A listing in a transaction is of the commit that is seen later on in the transaction. -/
theorem answer_of_within (h : p.Going Advances x y) (hy : y.transaction = none)
    {asked : Option Json} (hwithin : (p.reach turns i).isWithin = true)
    (hlists : turns[i]? = some (.lists asked)) (hij : i ≤ j)
    (hlast : ∀ k turn, i ≤ k → k < j → turns[k]? = some turn → turn.isLast = false) :
    (p.reach turns i).answer asked =
      listing asked (p.reach turns (p.seen turns j)).database.store := by
  rw [h.answer_reach hy]
  obtain rfl | hlt := hij.eq_or_lt
  · rfl
  cases hfinds : finds asked (p.reach turns (p.seen turns i)).database.store with
  | false =>
    -- Without the table all listings fail alike, and no view is taken.
    refine (listing_of_not_finds ?_ hfinds).1
    rw [h.finds_reach] at hfinds ⊢
    exact hfinds
  | true =>
    obtain ⟨x', y', hgoing, hfollows⟩ := h.follows hy turns i
    obtain ⟨x'', y'', hgoing', hsees⟩ := hgoing.succ
    have hdata : finds asked (y'.data (p.reach turns i).database) = true := by
      rw [h.finds_reach] at hfinds
      obtain ⟨hy', -⟩ | hy' := hfollows
      · rw [hy'.data, h.finds_reach]
        exact hfinds
      · rw [hy'.data, h.finds_reach]
        exact hfinds
    have hfixed : (p.reach turns (i + 1)).isFixed = true := by
      rw [hgoing'.isFixed]
      refine hsees.lists asked ?_ (hgoing.isWithin ▸ hwithin) hdata
      rw [hlists]
      rfl
    have hseen : p.seen turns (i + 1) = p.seen turns i := by
      rw [seen, hfixed]
      rfl
    obtain ⟨-, hseen'⟩ := h.seen_eq_of_isFixed hy hfixed hlt
      fun k turn hik hkj => hlast k turn (Nat.le_of_succ_le hik) hkj
    rw [hseen', hseen]

/-- Where the writer has done its work, what comes next may be held to other commits. -/
theorem of_isIdle (h : p.Going made x y) (hidle : p.isIdle = true) {made' : Store → Store → Prop} :
    p.Going made' x y := by
  obtain ⟨host, n, m, rest⟩ := p
  cases rest with
  | next deed rest => cases hidle
  | ends r => exact { h with along := h.along }

/-- Work that publishes nothing leaves what is published as it is. -/
theorem spares_of_isQuiet (h : p.Going Advances x y) (hidle : (p.reach turns i).isIdle = true)
    (hij : i ≤ j) (hquiet : ∀ k writing, i ≤ k → k < j →
      turns[k]? = some (.starts writing) → writing.isQuiet = true) :
    (∃ x' y', (p.reach turns j).Going Spares x' y') ∧
      Spares (p.reach turns i).database.store (p.reach turns j).database.store := by
  induction j, hij using Nat.le_induction with
  | base =>
    obtain ⟨x', y', hgoing⟩ := h.reach turns i
    exact ⟨⟨x', y', hgoing.of_isIdle hidle⟩, .refl _⟩
  | succ j hij ih =>
    obtain ⟨⟨x', y', hgoing⟩, hspares⟩ :=
      ih fun k writing hik hkj => hquiet k writing hik (Nat.lt_succ_of_lt hkj)
    obtain ⟨⟨x'', y'', hgoing', -⟩, hcommits⟩ := hgoing.reach_succ fun writing hstarts =>
      Writing.settles_of_isQuiet (hquiet j writing hij (Nat.lt_succ_self j) hstarts)
    refine ⟨⟨x'', y'', hgoing'⟩, hspares.trans ?_⟩
    obtain ⟨hstore, -⟩ | ⟨-, hmade⟩ := hcommits
    · rw [hstore]
      exact .refl _
    · exact hmade

end Going

/-- What a reader can rely on, whatever turns are taken. -/
structure Isolates (p : Sharing) (turns : List Turn) : Prop where
  /-- The file has a journal. -/
  journaled : ∀ i, (p.reach turns i).database.journaled = true
  /-- A turn commits nothing, or a whole stage, publication or batch of movies. -/
  commits : ∀ i, Commits Advances (p.reach turns i).database (p.reach turns (i + 1)).database
  /-- Answers are of the data as a commit left them, and later ones of no older commit; outside of
  transactions they are of the last commit. -/
  snapshots : ∃ seen : Nat → Nat, Monotone seen ∧ ∀ i, seen i ≤ i ∧
    ((p.reach turns i).isWithin = false → seen i = i) ∧
    ∀ asked, (p.reach turns i).answer asked =
      listing asked (p.reach turns (seen i)).database.store
  /-- What is listed are the rows of the published table as a commit left it. -/
  rows : ∀ i asked ms, (p.reach turns i).answer asked = .ok ms → ∃ k ≤ i, ∃ kind rows,
    MembershipKind.Asked.of asked = .kind kind ∧
    (p.reach turns k).database.store.publishedOf kind = some rows ∧
    ms.map MembershipRecord.toJson =
      (byPlace (rows.map (·.row))).map fun row => .object (membershipFields row)
  /-- Work that publishes nothing changes nothing that is published, and no answer. -/
  staging : ∀ i j, i ≤ j → (p.reach turns i).isIdle = true →
    (∀ k writing, i ≤ k → k < j → turns[k]? = some (.starts writing) →
      writing.isQuiet = true) →
    ∀ asked, listing asked (p.reach turns j).database.store =
        listing asked (p.reach turns i).database.store ∧
      ((p.reach turns i).isWithin = false →
        (p.reach turns j).answer asked = (p.reach turns i).answer asked)
  /-- All listings in one transaction are of the data as one commit left them. -/
  transactions : ∀ i j, i ≤ j → (p.reach turns i).isWithin = true →
    (∀ k turn, i ≤ k → k < j → turns[k]? = some turn → turn.isLast = false) →
    ∃ k ≤ j, ∀ l asked, i ≤ l → l ≤ j → turns[l]? = some (.lists asked) →
      (p.reach turns l).answer asked = listing asked (p.reach turns k).database.store

theorem Going.isolates (h : p.Going Advances x y) (hy : y.transaction = none)
    (turns : List Turn) : p.Isolates turns where
  journaled i := by
    obtain ⟨x', y', hi⟩ := h.reach turns i
    rw [hi.database]
    exact hi.journaled
  commits := h.commits turns
  snapshots := ⟨p.seen turns, p.monotone_seen turns, fun i =>
    ⟨p.seen_le turns i, h.seen_of_outside hy, h.answer_reach hy turns i⟩⟩
  rows i asked ms hms := by
    rw [h.answer_reach hy] at hms
    exact ⟨p.seen turns i, p.seen_le turns i, exists_rows_of_listing hms⟩
  staging i j hij hidle hquiet asked := by
    have hlisting : ∀ k, i ≤ k → k ≤ j → listing asked (p.reach turns k).database.store =
        listing asked (p.reach turns i).database.store := by
      intro k hik hkj
      refine listing_congr (h.spares_of_isQuiet hidle hik fun l writing hil hlk => ?_).2
      exact hquiet l writing hil (hlk.trans_le hkj)
    refine ⟨hlisting j hij (Nat.le_refl j), fun houtside => ?_⟩
    have hi : p.seen turns i = i := h.seen_of_outside hy houtside
    have hle : i ≤ p.seen turns j := hi ▸ p.monotone_seen turns hij
    rw [h.answer_reach hy, h.answer_reach hy, hi]
    exact hlisting _ hle (p.seen_le turns j)
  transactions i j hij hwithin hlast := by
    refine ⟨p.seen turns j, p.seen_le turns j, fun l asked hil hlj hlists => ?_⟩
    have hl := h.isWithin_of_le hwithin hil fun k turn hik hkl =>
      hlast k turn hik (hkl.trans_le hlj)
    exact h.answer_of_within hy hl hlists hlj fun k turn hlk hkj =>
      hlast k turn (hil.trans hlk) hkj

/-- A writer and a reader that were opened one after the other on one database in a file. -/
theorem going_of_opened {h h₁ h₂ : Host}
    (hnumbers : ∀ d k, (h.database d).writer = some k → k < h.next) {r r' : OpenRequest}
    {a b n m : Nat} (hfirst : h.openSession r = (.ok a, h₁))
    (hsecond : h₁.openSession r' = (.ok b, h₂)) (hroles : n = a ∧ m = b ∨ n = b ∧ m = a)
    (hx : h₂.session? n = some x) (hy : h₂.session? m = some y) {path : String}
    (hfile : x.place = .file path) (hwritable : x.readonly = false)
    (hsame : y.database = x.database) (hreadable : y.isReadable = true) :
    Going made ⟨h₂, n, m, .ends (.ok ())⟩ x y ∧ y.transaction = none := by
  obtain ⟨rfl, hnext, -, z, hz, hnumber, hopen, htransaction, hdatabase, -⟩ :=
    Host.exists_of_openSession hfirst
  obtain ⟨rfl, -, hothers, z', hz', hnumber', hopen', htransaction', hdatabase', -⟩ :=
    Host.exists_of_openSession hsecond
  have hne : h.next ≠ h₁.next := by omega
  have hle : h.next ≤ h₁.next := by omega
  rw [← hothers _ hne] at hz
  -- Opening a session leaves the right to write where it was.
  have hwriter : z'.database = z.database → ∀ k, h.next ≤ k →
      (h₂.database z'.database).writer ≠ some k := by
    intro hshared k hk hfree
    rw [hdatabase', hshared, Host.writer_withJournal, hdatabase, Host.writer_withJournal] at hfree
    exact absurd (hnumbers _ _ hfree) (Nat.not_lt.2 hk)
  have hjournaled : z'.database = z.database → (h₁.database z.database).journaled = true →
      (h₂.database z'.database).journaled = true := by
    intro hshared hbefore
    rw [hdatabase', hshared]
    exact Host.journaled_withJournal hbefore _ _
  obtain ⟨rfl, rfl⟩ | ⟨rfl, rfl⟩ := hroles
  · obtain rfl := Option.some.inj (hz.symm.trans hx)
    obtain rfl := Option.some.inj (hz'.symm.trans hy)
    refine ⟨⟨hx, hy, hnumber, hnumber', hne, hsame.symm, hwriter hsame _ hle, ?_, hopen',
      hreadable, hopen, ?_⟩, htransaction'⟩
    · refine hjournaled hsame ?_
      rw [hdatabase, hfile, hwritable]
      exact Host.journaled_withJournal_file _ _
    · exact congrArg (Option.map _) htransaction
  · obtain rfl := Option.some.inj (hz.symm.trans hy)
    obtain rfl := Option.some.inj (hz'.symm.trans hx)
    refine ⟨⟨hx, hy, hnumber', hnumber, hne.symm, hsame.symm, ?_, ?_, hopen, hreadable, hopen', ?_⟩,
      htransaction⟩
    · rw [hsame]
      exact hwriter hsame.symm _ (Nat.le_refl _)
    · rw [hsame, hdatabase', hfile, hwritable]
      exact Host.journaled_withJournal_file _ _
    · exact congrArg (Option.map _) htransaction'

/--
A writer and a reader of one database in a file take turns in any order, statement by statement:
the writer stages, publishes, rebuilds and writes movies, the reader lists within transactions and
outside of them. Every answer is of the tables as some commit left them.
-/
theorem isolates_of_opened {h h₁ h₂ : Host}
    (hnumbers : ∀ d k, (h.database d).writer = some k → k < h.next) {r r' : OpenRequest}
    {a b n m : Nat} (hfirst : h.openSession r = (.ok a, h₁))
    (hsecond : h₁.openSession r' = (.ok b, h₂)) (hroles : n = a ∧ m = b ∨ n = b ∧ m = a)
    (hx : h₂.session? n = some x) (hy : h₂.session? m = some y) {path : String}
    (hfile : x.place = .file path) (hwritable : x.readonly = false)
    (hsame : y.database = x.database) (hreadable : y.isReadable = true) (turns : List Turn) :
    Isolates ⟨h₂, n, m, .ends (.ok ())⟩ turns := by
  have hopened : Going Advances ⟨h₂, n, m, .ends (.ok ())⟩ x y ∧ y.transaction = none :=
    going_of_opened hnumbers hfirst hsecond hroles hx hy hfile hwritable hsame hreadable
  exact hopened.1.isolates hopened.2 turns

/-- A database in a file, and no session of it. -/
def filed (s : Store) : Host where
  files := [("/films.db", .database 1)]
  directory := "/"
  databases := [(1, ⟨s, 0, none, false, false, 0⟩)]
  sessions := []
  next := 2
  stamp := ""

theorem writer_filed (s : Store) (d : Nat) : ((filed s).database d).writer = none := by
  by_cases hd : 1 = d
  · subst hd
    rfl
  · let d₁ : Database := ⟨s, 0, none, false, false, 0⟩
    change (((List.find? (fun entry => entry.1 = d) [(1, d₁)]).map Prod.snd).getD .empty).writer =
      none
    rw [List.find?_cons_of_neg (by simpa using hd)]
    rfl

/-- A request to open the file. -/
def request (readonly : Bool) : OpenRequest :=
  ⟨"films.db", .bool readonly, .bool true, .ofNat 5000⟩

/-- The writer stages and publishes the countries; the reader begins before it publishes, lists
before and after, and once more when its transaction is over. -/
def publication : List Turn :=
  [.starts (.stage country .standard)] ++ List.replicate 9 .writes ++
    [.brackets .begin, .lists country, .starts (.publish country)] ++ List.replicate 9 .writes ++
    [.lists country, .brackets .commit, .lists country]
where
  country : Option Json := some (.string "country")

/-- The countries that the reader would list after some of these turns. -/
def values (p : Sharing) (i : Nat) : Option (List String) :=
  ((p.reach publication i).answer publication.country).toOption.map (·.map (·.value))

theorem openSession_of_toOption {h : Host} {r : OpenRequest} {n : Nat}
    (hopened : (h.openSession r).1.toOption = some n) :
    h.openSession r = (.ok n, (h.openSession r).2) := by
  rcases hopen : h.openSession r with ⟨f | m, h'⟩ <;> rw [hopen] at hopened
  · cases hopened
  · obtain rfl := Option.some.inj hopened
    rfl

/-- The file with a writer and a reader. -/
def joined (s : Store) : Host :=
  (((filed s).openSession (request false)).2.openSession (request true)).2

theorem isolates_of_publication : ∃ h₁ x y,
    (∀ d k, ((filed staleFilm).database d).writer = some k → k < (filed staleFilm).next) ∧
    (filed staleFilm).openSession (request false) = (.ok 2, h₁) ∧
    h₁.openSession (request true) = (.ok 3, joined staleFilm) ∧
    (joined staleFilm).session? 2 = some x ∧ (joined staleFilm).session? 3 = some y ∧
    x.place = .file "/films.db" ∧ x.readonly = false ∧ y.database = x.database ∧
    y.isReadable = true ∧ values ⟨joined staleFilm, 2, 3, .ends (.ok ())⟩ 22 = some ["Peru"] ∧
    values ⟨joined staleFilm, 2, 3, .ends (.ok ())⟩ 24 = some ["Norway"] ∧
    Isolates ⟨joined staleFilm, 2, 3, .ends (.ok ())⟩ publication := by
  have hnumbers : ∀ d k, ((filed staleFilm).database d).writer = some k →
      k < (filed staleFilm).next := by
    intro d k hk
    rw [writer_filed] at hk
    cases hk
  have hfirst := openSession_of_toOption (n := 2)
    (by decide +kernel : ((filed staleFilm).openSession (request false)).1.toOption = some 2)
  have hsecond := openSession_of_toOption (n := 3)
    (by decide +kernel : (((filed staleFilm).openSession (request false)).2.openSession
      (request true)).1.toOption = some 3)
  have hwriter : ((joined staleFilm).session? 2).any (fun x =>
      x.place = .file "/films.db" ∧ x.readonly = false ∧ x.database = 1) = true := by
    decide +kernel
  have hreader : ((joined staleFilm).session? 3).any (fun y =>
      y.database = 1 ∧ y.isReadable = true) = true := by
    decide +kernel
  obtain ⟨x, hx, hwriter⟩ := (Option.any_eq_true _ _).1 hwriter
  obtain ⟨y, hy, hreader⟩ := (Option.any_eq_true _ _).1 hreader
  obtain ⟨hfile, hwritable, hdatabase⟩ := of_decide_eq_true hwriter
  obtain ⟨hshared, hreadable⟩ := of_decide_eq_true hreader
  have hsame : y.database = x.database := hshared.trans hdatabase.symm
  refine ⟨_, x, y, hnumbers, hfirst, hsecond, hx, hy, hfile, hwritable, hsame, hreadable,
    by decide +kernel, by decide +kernel, ?_⟩
  exact isolates_of_opened hnumbers hfirst hsecond (.inl ⟨rfl, rfl⟩) hx hy hfile hwritable hsame
    hreadable publication

end Sharing
end FilmReport
