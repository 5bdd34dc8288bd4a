import FilmReport.Dataset.Read
import FilmReport.Proofs.Binary64.Range
import FilmReport.Proofs.Session.Action
import FilmReport.Proofs.Shape.Checked
import FilmReport.Proofs.Store.Membership

/-!
Listing of memberships. What is listed depends on the data that the session sees, and on nothing in
them but the published table that is asked for (`on_listAsked`); if there is an answer, its items
are the rows of this table by movie and position (`listing_eq_ok`).
-/

set_option autoImplicit false
set_option relaxedAutoImplicit false

namespace FilmReport.Dataset

open Act World Shape Store

variable {asked : Option Json} {s s' : Store}

/-- The published memberships of a kind as they are read. -/
def listed (kind : MembershipKind) (s : Store) : Except Failure (List MembershipRecord) :=
  match s.publishedOf kind with
  | some rows =>
    (readRows MembershipRecord.check kind.published 0
      ((byPlace (rows.map (·.row))).map membershipFields)).mapError .fault
  | none => .error (.raised (.store (.noSuchTable kind.published.name)))

/-- What is listed where the data are committed and no other session is there. -/
def listing (asked : Option Json) (s : Store) : Except Failure (List MembershipRecord) :=
  ((listAsked asked).on (World.inMemory s [])).1

/-- Whether there is the published table that is asked for. -/
def finds (asked : Option Json) (s : Store) : Bool :=
  match MembershipKind.Asked.of asked with
  | .kind kind => (s.publishedOf kind).isSome
  | _ => false

theorem rows?_of_none {t : Table} (h : s.get t = none) :
    s.rows? t = .error (.noSuchTable t.name) := by
  rw [rows?, numbered?, h]
  rfl

theorem publishedRows_of_some {kind : MembershipKind} {rows : List (Numbered MembershipRow)}
    (h : s.publishedOf kind = some rows) : s.publishedRows kind = .ok (rows.map (·.row)) := by
  cases kind with
  | country => exact rows?_eq_ok.2 ⟨rows, h, rfl⟩
  | language => exact rows?_eq_ok.2 ⟨rows, h, rfl⟩

theorem publishedRows_of_none {kind : MembershipKind} (h : s.publishedOf kind = none) :
    s.publishedRows kind = .error (.noSuchTable kind.published.name) := by
  cases kind with
  | country => exact rows?_of_none h
  | language => exact rows?_of_none h

theorem on_listMemberships (kind : MembershipKind) {w : World} (h : w.obstacle = none) :
    (listMemberships kind).on w =
      (listed kind w.data, if (w.data.publishedOf kind).isSome then w.looked else w) := by
  rw [listMemberships, on_bind, on_look, h, listed]
  cases hrows : w.data.publishedOf kind with
  | none =>
    rw [publishedRows_of_none hrows]
    rfl
  | some rows =>
    rw [publishedRows_of_some hrows]
    exact on_ofExcept _ _

/-- The listing of a kind reports what is raised while its memberships are read. -/
theorem exists_on_listAsked {kind : MembershipKind}
    (h : MembershipKind.Asked.of asked = .kind kind) :
    ∃ fault, ∀ w : World, w.obstacle = none → (listAsked asked).on w =
      (reported fault (listed kind w.data),
        if (w.data.publishedOf kind).isSome then w.looked else w) := by
  rw [listAsked, h]
  refine ⟨fun cause => .ofCause .datasetReadBackFailed
    ("Could not read rows from " ++ kind.published.name ++ ".")
    (("table", .string kind.published.name) :: Fields.ofOption "kind" asked) cause,
    fun w hw => ?_⟩
  dsimp only
  rw [reading, on_reporting, on_listMemberships kind hw]

theorem exists_listing_eq {kind : MembershipKind} (h : MembershipKind.Asked.of asked = .kind kind) :
    ∃ fault, ∀ s, listing asked s = reported fault (listed kind s) := by
  obtain ⟨fault, hon⟩ := exists_on_listAsked h
  exact ⟨fault, fun s => congrArg Prod.fst (hon (World.inMemory s []) rfl)⟩

/-- A listing answers from the data that the session sees, and looks at them if its table is
there. -/
theorem on_listAsked (asked : Option Json) {w : World} (h : w.obstacle = none) :
    (listAsked asked).on w =
      (listing asked w.data, if finds asked w.data then w.looked else w) := by
  cases hasked : MembershipKind.Asked.of asked with
  | stray =>
    rw [listing, listAsked, finds, hasked]
    rfl
  | nothing =>
    rw [listing, listAsked, finds, hasked]
    rfl
  | kind kind =>
    obtain ⟨fault, hon⟩ := exists_on_listAsked hasked
    have hmemory : listing asked w.data = reported fault (listed kind w.data) :=
      congrArg Prod.fst (hon (World.inMemory w.data []) rfl)
    rw [hon w h, hmemory, finds, hasked]

/-- Nothing but the published memberships matters. -/
theorem listing_congr (h : ∀ kind, s'.publishedOf kind = s.publishedOf kind) :
    listing asked s' = listing asked s := by
  cases hasked : MembershipKind.Asked.of asked with
  | stray =>
    rw [listing, listing, listAsked, hasked]
    rfl
  | nothing =>
    rw [listing, listing, listAsked, hasked]
    rfl
  | kind kind =>
    obtain ⟨fault, hlisting⟩ := exists_listing_eq hasked
    rw [hlisting, hlisting, listed, listed, h]

/-- Where the table is not there, the same failure is reported. -/
theorem listing_of_not_finds (h : finds asked s = false) (h' : finds asked s' = false) :
    listing asked s' = listing asked s ∧ (listing asked s).isOk = false := by
  cases hasked : MembershipKind.Asked.of asked with
  | stray =>
    rw [listing, listing, listAsked, hasked]
    exact ⟨rfl, rfl⟩
  | nothing =>
    rw [listing, listing, listAsked, hasked]
    exact ⟨rfl, rfl⟩
  | kind kind =>
    obtain ⟨fault, hlisting⟩ := exists_listing_eq hasked
    rw [finds, hasked] at h h'
    have hnone : ∀ t : Store, (t.publishedOf kind).isSome = false → t.publishedOf kind = none :=
      fun t ht => Option.isSome_eq_false_iff.1 ht |> Option.isNone_iff_eq_none.1
    rw [hlisting, hlisting, listed, listed, hnone s h, hnone s' h']
    exact ⟨rfl, rfl⟩

theorem of_gives_text {least : Nat} {field : Option Json} {value : String}
    (h : (text least field).Gives value) : field = some (.string value) := by
  unfold text at h
  split at h
  · rw [(Checked.gives_flawed.1 h).2]
  · cases h.2

theorem of_gives_positive {field : Option Json} {n : Int} (h : (positive field).Gives n) :
    field = some (.ofInt n) := by
  have hinteger := h.of_refine
  have hsafe := natAbs_lt_of_unsafeSize (of_gives_integer hinteger).1
  unfold integer at hinteger
  split at hinteger
  · next q =>
    split at hinteger
    · next hwhole =>
      obtain ⟨-, rfl⟩ := Checked.gives_flawed.1 hinteger
      rw [Json.ofInt, Binary64.ofInt_of_natAbs_lt hsafe, Rat.coe_int_num_of_den_eq_one hwhole]
    · exact absurd hinteger (Checked.not_gives_stop _)
  · exact absurd hinteger (Checked.not_gives_stop _)

/-- A row that has the shape of a membership is one. -/
theorem toJson_of_gives {row : MembershipRow} {m : MembershipRecord}
    (h : (MembershipRecord.check (some (.object (membershipFields row)))).Gives m) :
    m.toJson = .object (membershipFields row) := by
  change (MembershipRecord.mk <$> at_ "movieId" (text 1) _ <*> at_ "position" positive _ <*>
    at_ "value" (text 0) _ : Checked MembershipRecord).Gives m at h
  simp only [at_, Checked.gives_seq, Checked.gives_functor, Checked.gives_within] at h
  obtain ⟨_, value, ⟨_, position, ⟨movieId, hmovieId, rfl⟩, hposition, rfl⟩, hvalue, rfl⟩ := h
  have hmovieId' : some (Json.string row.movieId) = some (.string movieId) := of_gives_text hmovieId
  have hposition' : some row.position.toJson = some (.ofInt position) :=
    of_gives_positive hposition
  have hvalue' : some (Json.string row.value) = some (.string value) := of_gives_text hvalue
  rw [MembershipRecord.toJson, membershipFields, Option.some.inj hmovieId',
    Option.some.inj hposition', Option.some.inj hvalue']

theorem map_toJson_of_readRows {table : Table} {rows : List MembershipRow} {n : Nat}
    {ms : List MembershipRecord}
    (h : readRows MembershipRecord.check table n (rows.map membershipFields) = .ok ms) :
    ms.map MembershipRecord.toJson = rows.map fun row => .object (membershipFields row) := by
  induction rows generalizing n ms with
  | nil =>
    obtain rfl := Except.ok.inj h
    rfl
  | cons row rest ih =>
    rw [List.map_cons, readRows] at h
    split at h
    · next m hm =>
      rcases hrest : readRows MembershipRecord.check table (n + 1) (rest.map membershipFields)
        with e | tail <;> rw [hrest] at h
      · cases h
      · obtain rfl := Except.ok.inj h
        rw [List.map_cons, List.map_cons, ih hrest,
          toJson_of_gives (Checked.toExcept_eq_ok.1 hm)]
    · cases h

/-- What is listed are the rows of the published table by movie and position. -/
theorem exists_rows_of_listing {ms : List MembershipRecord} (h : listing asked s = .ok ms) :
    ∃ kind rows, MembershipKind.Asked.of asked = .kind kind ∧ s.publishedOf kind = some rows ∧
      ms.map MembershipRecord.toJson =
        (byPlace (rows.map (·.row))).map fun row => .object (membershipFields row) := by
  cases hasked : MembershipKind.Asked.of asked with
  | stray =>
    rw [listing, listAsked, hasked] at h
    cases h
  | nothing =>
    rw [listing, listAsked, hasked] at h
    cases h
  | kind kind =>
    obtain ⟨fault, hlisting⟩ := exists_listing_eq hasked
    rw [hlisting, listed] at h
    cases hrows : s.publishedOf kind with
    | none =>
      rw [hrows] at h
      cases h
    | some rows =>
      rw [hrows] at h
      dsimp only at h
      cases hread : readRows MembershipRecord.check kind.published 0
          ((byPlace (rows.map (·.row))).map membershipFields) with
      | error e =>
        rw [hread] at h
        cases h
      | ok ms' =>
        rw [hread] at h
        obtain rfl := Except.ok.inj h
        exact ⟨kind, rows, rfl, hrows, map_toJson_of_readRows hread⟩

end FilmReport.Dataset
