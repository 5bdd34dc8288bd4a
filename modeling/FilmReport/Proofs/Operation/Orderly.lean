import FilmReport.Dataset.Seed
import FilmReport.Normalize.Run
import FilmReport.Proofs.Session.Whole

/-!
Writing of rows is orderly, and rows that cannot all be written leave the data as they were. So are
the stages of a normalization.
-/

set_option autoImplicit false
set_option relaxedAutoImplicit false

namespace FilmReport.Dataset

open Store Act

theorem sound_insert (kind : RowKind) (cells : List Cell) (s : Store) :
    (kind.insert cells s).Sound s := by
  have hrow : Roomy (kind.row cells s) := by
    refine roomy_bind (roomy_map (roomy_numbered? s kind.table) _) fun _ => ?_
    refine roomy_bind (roomy_parentsPresent s kind.table) fun _ => ?_
    refine roomy_fill (fun c hc => ?_) _
    exact roomy_of_mem_columns _ (List.of_mem_zip hc).1
  rw [RowKind.insert]
  cases hgiven : kind.row cells s with
  | error e =>
    rw [hgiven] at hrow
    exact sound_failed (fun he => hrow (congrArg _ he)) false s
  | ok row =>
    refine sound_storing (roomy_insert _ _ _ s) fun hkept s' hs' => ?_
    exact insert_of_isKept (by simpa using hkept) hs'

theorem orderly_writeRow (kind : RowKind) (given : Json) : Orderly (writeRow kind given) := by
  refine (OrderlyFrom.ofStore _).andThen fun cells => ?_
  exact OrderlyFrom.change fun s _ => sound_insert kind cells s

theorem orderly_writeRows (kind : RowKind) (inputs : List Json) :
    Orderly (inputs.forM (writeRow kind)) :=
  OrderlyFrom.forM (orderly_writeRow kind) inputs

theorem whole_writeCounted (kind : RowKind) (inputs : List Json) (items : Nat) :
    Whole (writeCounted kind inputs items) :=
  (Whole.transact (orderly_writeRows kind inputs)).reporting _

theorem whole_writeAll (kind : RowKind) (given : Option Json) : Whole (writeAll kind given) := by
  rcases given with _ | value
  · exact Whole.throw _
  cases value with
  | null => exact Whole.throw _
  | array inputs => exact whole_writeCounted kind inputs _
  | string text => exact whole_writeCounted kind _ _
  | bool _ => exact (Whole.transact (OrderlyFrom.throw _)).reporting _
  | number _ => exact (Whole.transact (OrderlyFrom.throw _)).reporting _
  | object _ => exact (Whole.transact (OrderlyFrom.throw _)).reporting _

theorem orderly_prepare : Orderly prepare :=
  (OrderlyFrom.peek ready).andThen fun _ => OrderlyFrom.prepareTransactions

theorem data_prepare (w : World) : (prepare.on w).2.data = w.data := by
  rw [prepare, on_bind, on_peek]
  cases w.obstacle with
  | some e => rfl
  | none =>
    cases ready w.data with
    | error e => rfl
    | ok _ => exact data_prepareTransactions w

theorem whole_seed (d : Dataset) : Whole (seed d) := by
  refine Whole.after orderly_prepare data_prepare fun _ => Whole.inTransaction ?_ _
  refine (OrderlyFrom.forM (fun item => ?_) _).andThen fun _ => OrderlyFrom.pure _
  exact (whole_writeCounted item.1 _ _).orderly

end FilmReport.Dataset

namespace FilmReport.Normalize

open Store Act

theorem roomy_stageRow (row : MembershipRow) (s : Store) (kind : MembershipKind) :
    Roomy (s.stageRow row kind) := by
  cases kind with
  | country => exact roomy_insert .stagedCountry .refuse row s
  | language => exact roomy_insert .stagedLanguage .refuse row s

theorem roomy_publishRow (row : MembershipRow) (s : Store) (kind : MembershipKind) :
    Roomy (s.publishRow row kind) := by
  cases kind with
  | country => exact roomy_insert .movieCountry .refuse row s
  | language => exact roomy_insert .movieLanguage .refuse row s

theorem sound_stageAll (kind : MembershipKind) (staged : List Membership) (s : Store) :
    (stageAll kind staged s).Sound s := by
  have hrow : ∀ (acc : Store) (m : Membership), Roomy (acc.stageRow m.row kind) :=
    fun acc m => roomy_stageRow m.row acc kind
  rw [stageAll]
  refine sound_storing (roomy_foldlM hrow staged s) fun hwrote => ?_
  cases hwrote

theorem sound_clear (t : Table) (s : Store) : (s.clear t).Sound s := by
  have hevery : Roomy (everyRow t s) := roomy_ok _
  exact sound_writing (roomy_delete hevery) s

theorem sound_publishStaged (kind : MembershipKind) (s : Store) :
    (s.publishStaged kind).Sound s := by
  have hstaged : Roomy (s.stagedRows kind) := by
    cases kind <;> exact roomy_map (roomy_numbered? s _) _
  refine sound_counting ?_ fun s' hs' => ?_
  · refine roomy_bind (roomy_map (roomy_numbered? s _) _) fun _ => ?_
    refine roomy_bind hstaged fun rows => ?_
    refine roomy_bind (roomy_parentsPresent s _) fun _ => ?_
    exact roomy_bind (roomy_foldlM (fun s row => roomy_publishRow row s kind) _ _) fun _ =>
      roomy_pure _
  · obtain ⟨-, -, hs'⟩ := exists_of_bind hs'
    obtain ⟨rows, -, hs'⟩ := exists_of_bind hs'
    obtain ⟨-, -, hs'⟩ := exists_of_bind hs'
    obtain ⟨after, hafter, hs'⟩ := exists_of_bind hs'
    obtain ⟨hlength, rfl⟩ := Prod.mk.inj (Except.ok.inj hs')
    have hnil : byPlace [] = [] := by rw [byPlace, orderBy, List.mergeSort_nil]
    rw [List.eq_nil_of_length_eq_zero hlength, hnil] at hafter
    exact (Except.ok.inj hafter).symm

theorem sound_apply (r : Rule) (s : Store) : (r.apply s).Sound s := by
  rw [Rule.apply]
  cases hnamed : named? .notModifiable r.table with
  | ok t =>
    refine sound_update _ _ ?_
    exact roomy_bind (roomy_column? s t _) fun _ => roomy_pure _
  | error e =>
    refine sound_failed ?_ false s
    rintro rfl
    rw [named?] at hnamed
    split at hnamed
    · cases hnamed
    · split at hnamed <;> cases hnamed

theorem whole_coerce (logger : Journal.Logger) : Whole (coerce logger) := by
  refine Whole.inTransaction (OrderlyFrom.reporting ?_ _) _
  refine (OrderlyFrom.look _).andThen fun rows => ?_
  refine (OrderlyFrom.look _).andThen fun _ => ?_
  split
  · exact OrderlyFrom.throw _
  · next sources _ =>
    have hwarn : ∀ (log : Fault → Act Unit) (c : Coercion), (∀ w, Orderly (log w)) →
        Orderly (do c.warnings.forM log; pure c) := fun log c hlog =>
      (OrderlyFrom.forM hlog _).andThen fun _ => OrderlyFrom.pure c
    dsimp only
    split
    · exact hwarn _ _ fun w => OrderlyFrom.log _ _ _ _
    · refine (OrderlyFrom.change fun s _ => sound_done () (setAmounts s) s).andThen fun _ => ?_
      exact hwarn _ _ fun w => OrderlyFrom.log _ _ _ _

theorem whole_stage (kind : MembershipKind) (options : SplitOptions) :
    Whole (stage kind options) := by
  refine Whole.inTransaction (OrderlyFrom.reporting ?_ _) _
  refine (OrderlyFrom.look _).andThen fun rows => ?_
  refine (OrderlyFrom.change fun s _ => sound_clear kind.staging s).andThen fun _ => ?_
  split
  · exact OrderlyFrom.throw _
  · next sources _ =>
    dsimp only
    split
    · exact OrderlyFrom.pure _
    · refine (OrderlyFrom.change fun s _ => sound_stageAll kind _ s).andThen fun _ => ?_
      exact OrderlyFrom.pure _

theorem whole_publish (kind : MembershipKind) : Whole (publish kind) := by
  refine Whole.inTransaction (OrderlyFrom.reporting ?_ _) _
  refine (OrderlyFrom.change fun s _ => sound_clear kind.published s).andThen fun _ => ?_
  refine (OrderlyFrom.change fun s _ => sound_publishStaged kind s).andThen fun n => ?_
  refine (OrderlyFrom.change fun s _ => sound_clear kind.staging s).andThen fun _ => ?_
  exact OrderlyFrom.pure n

theorem whole_stageAsked (asked : Option Json) (options : SplitOptions) :
    Whole (stageAsked asked options) := by
  rw [stageAsked]
  split
  · exact whole_stage _ options
  · refine Whole.inTransaction (OrderlyFrom.reporting ?_ _) _
    exact (OrderlyFrom.peek _).andThen fun _ => OrderlyFrom.throw _
  · exact Whole.inTransaction ((OrderlyFrom.throw _).reporting _) _

theorem whole_publishAsked (asked : Option Json) : Whole (publishAsked asked) := by
  rw [publishAsked]
  split
  · exact whole_publish _
  · exact Whole.inTransaction ((OrderlyFrom.peek _).reporting _) _
  · exact Whole.inTransaction ((OrderlyFrom.throw _).reporting _) _

theorem orderly_raising {α : Type} (r : Except Cause α) : Orderly (raising r) := by
  cases r with
  | ok a => exact OrderlyFrom.pure a
  | error cause => exact OrderlyFrom.throw _

theorem orderly_applyRules (counts : Fields) (rules : List (Except Cause Rule)) :
    Orderly (applyRules counts rules) := by
  induction rules generalizing counts with
  | nil => exact OrderlyFrom.pure counts
  | cons rule rest ih =>
    refine (orderly_raising rule).andThen fun r => ?_
    refine ((OrderlyFrom.change fun s _ => sound_apply r s).reporting _).andThen fun n => ?_
    exact ih _

theorem whole_standardizeBy (logger : Journal.Logger) (given : Option Json) :
    Whole (standardizeBy logger given) := by
  refine Whole.before (Whole.inTransaction ?_ _) (fun counts => ?_) fun counts w => ⟨counts, ?_⟩
  · exact (orderly_raising _).andThen fun rules => orderly_applyRules [] rules
  · exact (OrderlyFrom.log _ _ _ _).andThen fun _ => OrderlyFrom.pure counts
  · rfl

end FilmReport.Normalize
