/-
  Server/ConcurrentSyncs.lean --- concurrent syncs converge to the join.

  `concurrent_syncs_join`: what is committed in a row is, in every field and in
  the tombstone, the join of what it held at first and of the changes of the
  requests that have committed, whatever the interleaving.  The row a running
  transaction holds is that join and the changes its loop has merged
  (`Transaction.Joins`); the lock is what keeps the first part of it from
  changing under the transaction.
-/
import FlowLogix.Server.RowLocks

set_option autoImplicit false

namespace FlowLogix.Server

open FlowLogix.Foundation
open FlowLogix.Crdt (VersionedRecord)

variable {pg : Postgres} {ι : Type}

/-! ## The join of a row and a set of changes -/

/-- The register a change sends for a field. -/
def SyncChangeDto.stamp (change : SyncChangeDto) (field : String) : Stamp Clock :=
  toLex ((sentClock change field).getD 0, canonicalJson (change.fields.lookup field))

/-- The change carries every synced field with a value that sanitizing keeps and
the column stores as it is. -/
def Carries (db : Database pg) (orgId : JsString) (c : SyncCollection) (change : SyncChangeDto) :
    Prop :=
  ∀ field ∈ syncFields c, ∃ v, change.fields.lookup field = some v ∧
    acceptedValue db orgId field v = some v ∧ pg.store c field v = some v

instance (db : Database pg) (orgId : JsString) (c : SyncCollection) (change : SyncChangeDto) :
    Decidable (Carries db orgId c change) :=
  decidable_of_iff (∀ field ∈ syncFields c, (change.fields.lookup field).any (fun v =>
      decide (acceptedValue db orgId field v = some v ∧ pg.store c field v = some v)) = true) <| by
    refine forall₂_congr fun field _ => ?_
    rw [Option.any_eq_true]
    simp only [decide_eq_true_eq]

/-- What is valid stays valid while no record leaves its organization. -/
theorem Carries.mono {db db' : Database pg} {orgId : JsString} {c : SyncCollection}
    {change : SyncChangeDto} (h : Carries db orgId c change)
    (howner : ∀ c' j o, db.owner c' j = some o → db'.owner c' j = some o) :
    Carries db' orgId c change := by
  intro field hf
  obtain ⟨v, hv, haccepted, hstore⟩ := h field hf
  exact ⟨v, hv, acceptedValue_mono howner haccepted, hstore⟩

/-- A row is the join of another one and a set of changes: in each field the
greatest register, with the value that belongs to it, and the greatest
tombstone; its other columns are those of the row. -/
structure Joined {c : SyncCollection} (row₀ : Row pg c) (S : Set SyncChangeDto) (row : Row pg c) :
    Prop where
  fields : ∀ field ∈ syncFields c,
    IsLUB (insert (row₀.stamp field) ((·.stamp field) '' S)) (row.stamp field)
  values : ∀ field ∈ syncFields c,
    row.stamp field = row₀.stamp field ∧
        row.columns.lookup field = row₀.columns.lookup field ∨
      ∃ change ∈ S, row.stamp field = change.stamp field ∧
        row.columns.lookup field = change.fields.lookup field
  tombstone : IsLUB (insert (tombOf row₀.syncDeletedAt) ((tombOf ·.deletedAt) '' S))
    (tombOf row.syncDeletedAt)
  unsynced : ∀ field, field ∉ syncFields c →
    row.columns.lookup field = row₀.columns.lookup field
  createdAt : row.createdAt = row₀.createdAt

namespace Joined

variable {c : SyncCollection} {row₀ row row' : Row pg c} {S : Set SyncChangeDto}

theorem refl (row₀ : Row pg c) : Joined row₀ ∅ row₀ where
  fields _ _ := by simp
  values _ _ := Or.inl ⟨rfl, rfl⟩
  tombstone := by simp
  unsynced _ _ := rfl
  createdAt := rfl

/-- Merging one more change. -/
theorem merge (h : Joined row₀ S row) {db : Database pg} {orgId : JsString}
    {change : SyncChangeDto} (heffect : MergeEffect db orgId change row row')
    (hcreated : row'.createdAt = row.createdAt) (hcarries : Carries db orgId c change) :
    Joined row₀ (insert change S) row' := by
  have hsent : ∀ field ∈ syncFields c, ∃ v, change.fields.lookup field = some v ∧
      accepted db orgId change field = some v ∧ pg.store c field v = some v ∧
        sentStamp db orgId change field = change.stamp field := by
    intro field hf
    obtain ⟨v, hv, haccepted, hstore⟩ := hcarries field hf
    have haccepted' : accepted db orgId change field = some v := by
      rw [accepted, hv, Option.bind_some, haccepted]
    refine ⟨v, hv, haccepted', hstore, ?_⟩
    rw [sentStamp, haccepted', SyncChangeDto.stamp, hv]
    rfl
  have hstamp : ∀ field ∈ syncFields c,
      row'.stamp field = change.stamp field ⊔ row.stamp field := by
    intro field hf
    obtain ⟨v, -, haccepted, hstore, hsent⟩ := hsent field hf
    rw [sup_comm, ← hsent]
    refine heffect.stamp_of_accepted hf (fun w hw => ?_) haccepted
    rw [haccepted] at hw
    exact Option.some.inj hw ▸ hstore
  refine ⟨fun field hf => ?_, fun field hf => ?_, ?_, fun field hf => ?_,
    hcreated.trans h.createdAt⟩
  · rw [hstamp field hf, Set.image_insert_eq, Set.insert_comm]
    exact (h.fields field hf).insert _
  · obtain ⟨v, hv, haccepted, hstore, hsent⟩ := hsent field hf
    by_cases hwins : row.stamp field < sentStamp db orgId change field
    · obtain ⟨w, hw, hlookup⟩ := heffect.wonValue field hf hwins v haccepted
      rw [hstore] at hw
      refine Or.inr ⟨change, Set.mem_insert _ _, ?_, ?_⟩
      · rw [hstamp field hf, sup_eq_left, ← hsent]
        exact hwins.le
      · rw [hlookup, hv, hw]
    · obtain ⟨hlookup, hclock⟩ := heffect.kept field hf hwins
      have hkept : row'.stamp field = row.stamp field := by
        rw [Row.stamp, Row.stamp, hlookup, hclock]
      rw [hkept, hlookup]
      refine (h.values field hf).imp_right ?_
      rintro ⟨origin, hmem, horigin⟩
      exact ⟨origin, Set.mem_insert_of_mem _ hmem, horigin⟩
  · rw [heffect.tombOf_eq, sup_comm, Set.image_insert_eq, Set.insert_comm]
    exact h.tombstone.insert _
  · exact (heffect.unsynced field hf).trans (h.unsynced field hf)

/-- The join depends on the set of changes only. -/
theorem unique (h : Joined row₀ S row) (h' : Joined row₀ S row') :
    (∀ field ∈ syncFields c, row.stamp field = row'.stamp field) ∧
      row.syncDeletedAt = row'.syncDeletedAt ∧
      (∀ field, field ∉ syncFields c → row.columns.lookup field = row'.columns.lookup field) :=
  ⟨fun field hf => (h.fields field hf).unique (h'.fields field hf),
    tombOf_injective (h.tombstone.unique h'.tombstone),
    fun field hf => (h.unsynced field hf).trans (h'.unsynced field hf).symm⟩

end Joined

/-! ## One row under concurrent requests -/

section Row

variable {orgId : JsString} {c : SyncCollection} {k : JsString} {row₀ : Row pg c}

/-- A call that may write the record names it in a change. -/
def SyncCall.Sends (call : SyncCall) (orgId : JsString) (c : SyncCollection) : Prop :=
  call.orgId = orgId ∧ call.req.collection = c

namespace Transaction

/-- The changes of the record that the loop is through with. -/
def merged (t : Transaction pg) (orgId : JsString) (c : SyncCollection) (k : JsString) :
    Set SyncChangeDto :=
  {change | t.call.Sends orgId c ∧ change ∈ t.processed ∧ pg.uuid change.id = some k}

theorem merged_advance {t : Transaction pg} {change : SyncChangeDto} {rest : List SyncChangeDto}
    (hahead : t.ahead = change :: rest) (hsends : t.call.Sends orgId c)
    (hk : pg.uuid change.id = some k) :
    t.advance.merged orgId c k = insert change (t.merged orgId c k) := by
  ext other
  have hprocessed : other ∈ t.advance.processed ↔ other ∈ t.processed ∨ other = change := by
    simp [advance, hahead]
  have hadvance : t.advance.call = t.call := rfl
  simp only [merged, Set.mem_ofPred_eq, Set.mem_insert_iff, hprocessed, hadvance]
  constructor
  · rintro ⟨-, hmem | rfl, hother⟩
    · exact Or.inr ⟨hsends, hmem, hother⟩
    · exact Or.inl rfl
  · rintro (rfl | ⟨-, hmem, hother⟩)
    · exact ⟨hsends, Or.inr rfl, hk⟩
    · exact ⟨hsends, Or.inl hmem, hother⟩

theorem merged_advance_of_not {t : Transaction pg} {change : SyncChangeDto}
    {rest : List SyncChangeDto} (hahead : t.ahead = change :: rest)
    (hnot : t.call.Sends orgId c → pg.uuid change.id ≠ some k) :
    t.advance.merged orgId c k = t.merged orgId c k := by
  ext other
  have hprocessed : other ∈ t.advance.processed ↔ other ∈ t.processed ∨ other = change := by
    simp [advance, hahead]
  have hadvance : t.advance.call = t.call := rfl
  simp only [merged, Set.mem_ofPred_eq, hprocessed, hadvance]
  constructor
  · rintro ⟨hsends, hmem | rfl, hother⟩
    · exact ⟨hsends, hmem, hother⟩
    · exact absurd hother (hnot hsends)
  · rintro ⟨hsends, hmem, hother⟩
    exact ⟨hsends, Or.inl hmem, hother⟩

/-- The row as the transaction has it is the join of what is committed and of the
changes its loop is through with; a transaction that does not hold it has not
come to one. -/
def Joins (t : Transaction pg) (orgId : JsString) (k : JsString) (row₀ : Row pg c)
    (S : Set SyncChangeDto) : Prop :=
  (∀ row, (t.held c).lookup k = some row → Joined row₀ (S ∪ t.merged orgId c k) row) ∧
    (k ∉ t.held c → t.merged orgId c k = ∅)

/-- Taking hold of a row leaves the other rows as they were. -/
theorem lookup_hold_of_not (t : Transaction pg) {j : JsString} {row : Row pg t.collection}
    (h : t.collection = c → j ≠ k) : ((t.hold j row).held c).lookup k = (t.held c).lookup k := by
  by_cases hc : t.collection = c
  · subst hc
    rw [lookup_hold, if_neg (Ne.symm (h rfl))]
  · rw [held_hold_of_ne t j row (Ne.symm hc)]

theorem Joins.congr {t t' : Transaction pg} {S : Set SyncChangeDto} (h : t.Joins orgId k row₀ S)
    (hheld : (t'.held c).lookup k = (t.held c).lookup k)
    (hmerged : t'.merged orgId c k = t.merged orgId c k) : t'.Joins orgId k row₀ S := by
  refine ⟨fun row hrow => ?_, fun hk => ?_⟩
  · rw [hmerged]
    exact h.1 row (hheld ▸ hrow)
  · rw [hmerged]
    rw [← AList.lookup_eq_none, hheld] at hk
    exact h.2 (AList.lookup_eq_none.mp hk)

theorem Joins.of_lookup {t : Transaction pg} {S : Set SyncChangeDto} {row : Row pg c}
    (hheld : (t.held c).lookup k = some row) (h : Joined row₀ (S ∪ t.merged orgId c k) row) :
    t.Joins orgId k row₀ S := by
  refine ⟨fun row' hrow' => ?_, fun hk => ?_⟩
  · rw [hheld] at hrow'
    exact Option.some.inj hrow' ▸ h
  · rw [AList.lookup_eq_none.mpr hk] at hheld
    cases hheld

end Transaction

/-- A move of a transaction that merges valid changes keeps its row the join. -/
theorem Move.joins {t t' : Transaction pg} {db : Database pg} {free : JsString → Bool}
    {s : Statement pg} (hmove : Move t (t.view db) free s t') (hsound : t.Sound db)
    (howner : db.owner c k = some orgId) {S : Set SyncChangeDto} {base : Row pg c}
    (hbase : db.find c k = some base) (hjoined : Joined row₀ S base)
    (hvalid : s = .merge → t.call.Sends orgId c → t.stage = .locked k →
      ∀ change rest, t.ahead = change :: rest → Carries (t.view db) orgId c change)
    (h : t.Joins orgId k row₀ S) : t'.Joins orgId k row₀ S := by
  have hview : (t.view db).owner c k = some orgId := hsound.owner_view howner
  obtain ⟨seen, hseen, -⟩ := Option.bind_eq_some_iff.mp hview
  cases hmove with
  | stays _ stage _ _ => exact h.congr rfl rfl
  | skips _ change rest hahead hgone =>
      refine h.congr rfl (Transaction.merged_advance_of_not hahead ?_)
      rintro ⟨horg, hc⟩ hk
      obtain rfl : t.collection = c := hc
      rcases hgone with ⟨j, hj, hnot⟩ | ⟨j, hstage, hnone⟩
      · obtain rfl : k = j := Option.some.inj (hk.symm.trans hj)
        rw [horg] at hnot
        exact hnot hview
      · obtain ⟨⟨change', rest', hahead', hj⟩, -⟩ := hsound.found j hstage
        rw [hahead] at hahead'
        obtain ⟨rfl, -⟩ := List.cons.inj hahead'
        obtain rfl : k = j := Option.some.inj (hk.symm.trans hj)
        rw [hseen] at hnone
        cases hnone
  | inserts _ change rest j row _ _ hahead hj hfree hnone =>
      have hother : t.collection = c → j ≠ k := by
        rintro rfl rfl
        rw [hseen] at hnone
        cases hnone
      refine h.congr (t.lookup_hold_of_not hother) (Transaction.merged_advance_of_not hahead ?_)
      rintro ⟨-, hc⟩ hk
      exact hother hc (Option.some.inj (hj.symm.trans hk))
  | locks _ j row hstage hfree hfind =>
      by_cases hself : t.collection = c ∧ j = k
      · obtain ⟨rfl, rfl⟩ := hself
        refine Transaction.Joins.of_lookup (t.lookup_hold_self j row) ?_
        rw [Transaction.find_view] at hfind
        cases hmine : (t.held t.collection).lookup j with
        | some mine =>
            rw [hmine, Option.some_or] at hfind
            exact Option.some.inj hfind ▸ h.1 mine hmine
        | none =>
            rw [hmine, Option.none_or, hbase] at hfind
            have hmerged : ({ t.hold j row with stage := .locked j } : Transaction pg).merged
                orgId t.collection j = ∅ := h.2 (AList.lookup_eq_none.mp hmine)
            rw [hmerged, Set.union_empty]
            exact Option.some.inj hfind ▸ hjoined
      · exact h.congr (t.lookup_hold_of_not fun hc hj => hself ⟨hc, hj⟩) rfl
  | merges change rest j row row' _ _ _ hahead hstage hfind heffect hcreated =>
      obtain ⟨⟨change', rest', hahead', hj⟩, hheld⟩ := hsound.locked j hstage
      rw [hahead] at hahead'
      obtain ⟨rfl, -⟩ := List.cons.inj hahead'
      by_cases hself : t.collection = c ∧ j = k
      · obtain ⟨rfl, rfl⟩ := hself
        obtain ⟨mine, hmine⟩ := Option.isSome_iff_exists.mp (AList.lookup_isSome.mpr hheld)
        rw [Transaction.find_view, hmine, Option.some_or] at hfind
        obtain rfl := Option.some.inj hfind
        obtain rfl : t.call.orgId = orgId := by
          rcases hsound.held j mine hmine with hnone | ⟨hin, -⟩
          · rw [hbase] at hnone
            cases hnone
          · exact Option.some.inj (hin.symm.trans howner)
        have hsends : t.call.Sends t.call.orgId t.collection := ⟨rfl, rfl⟩
        refine Transaction.Joins.of_lookup (t.lookup_hold_self j row') ?_
        show Joined row₀ (S ∪ t.advance.merged t.call.orgId t.collection j) row'
        rw [Transaction.merged_advance hahead hsends hj, Set.union_insert]
        exact (h.1 mine hmine).merge heffect hcreated
          (hvalid rfl hsends hstage change rest hahead)
      · refine h.congr (t.lookup_hold_of_not fun hc hj => hself ⟨hc, hj⟩)
          (Transaction.merged_advance_of_not hahead ?_)
        rintro ⟨-, hc⟩ hk
        exact hself ⟨hc, Option.some.inj (hj.symm.trans hk)⟩

/-! ## The run -/

/-- A merge into the row is one of a valid change. -/
def System.Valid (sys : System pg ι) (orgId : JsString) (c : SyncCollection) (k : JsString)
    (i : ι) : Statement pg → Prop
  | .merge =>
      (sys.transactions i).call.Sends orgId c → (sys.transactions i).stage = .locked k →
        ∀ change rest, (sys.transactions i).ahead = change :: rest →
          Carries ((sys.transactions i).view sys.server.db) orgId c change
  | _ => True

/-- Every merge into the row, in a sequence of statements, is one of a valid change. -/
def System.ValidAll [Fintype ι] [DecidableEq ι] (sys : System pg ι) (orgId : JsString)
    (c : SyncCollection) (k : JsString) : List (ι × Statement pg) → Prop
  | [] => True
  | (i, s) :: rest => ∀ next, sys.step i s = some next →
      sys.Valid orgId c k i s ∧ next.ValidAll orgId c k rest

/-- The changes of the record that have been committed. -/
def System.committed (sys : System pg ι) (orgId : JsString) (c : SyncCollection) (k : JsString) :
    Set SyncChangeDto :=
  {change | ∃ i, (sys.transactions i).ending.isCommitted = true ∧
    change ∈ (sys.transactions i).merged orgId c k}

/-- Steps that neither commit a transaction nor touch a committed one commit no
changes. -/
theorem System.committed_eq {sys sys' : System pg ι} (i : ι)
    (hothers : ∀ j, j ≠ i → sys'.transactions j = sys.transactions j)
    (hbefore : (sys.transactions i).ending.isCommitted = false)
    (hafter : (sys'.transactions i).ending.isCommitted = false) :
    sys'.committed orgId c k = sys.committed orgId c k := by
  ext change
  constructor
  · rintro ⟨j, hj, hmem⟩
    by_cases hij : j = i
    · rw [hij, hafter] at hj
      cases hj
    · rw [hothers j hij] at hj hmem
      exact ⟨j, hj, hmem⟩
  · rintro ⟨j, hj, hmem⟩
    by_cases hij : j = i
    · rw [hij, hbefore] at hj
      cases hj
    · rw [← hothers j hij] at hj hmem
      exact ⟨j, hj, hmem⟩

/-- A commit adds the changes of its transaction. -/
theorem System.committed_commit {sys sys' : System pg ι} {i : ι} {response : SyncResponseDto}
    (hothers : ∀ j, j ≠ i → sys'.transactions j = sys.transactions j)
    (hbefore : (sys.transactions i).ending.isCommitted = false)
    (ht : sys'.transactions i = { sys.transactions i with ending := .committed response }) :
    sys'.committed orgId c k =
      sys.committed orgId c k ∪ (sys.transactions i).merged orgId c k := by
  ext change
  constructor
  · rintro ⟨j, hj, hmem⟩
    by_cases hij : j = i
    · subst hij
      rw [ht] at hmem
      exact Or.inr hmem
    · rw [hothers j hij] at hj hmem
      exact Or.inl ⟨j, hj, hmem⟩
  · rintro (⟨j, hj, hmem⟩ | hmem)
    · by_cases hij : j = i
      · rw [hij, hbefore] at hj
        cases hj
      · rw [← hothers j hij] at hj hmem
        exact ⟨j, hj, hmem⟩
    · exact ⟨i, by rw [ht]; rfl, by rw [ht]; exact hmem⟩

theorem Ending.isCommitted_of_isRunning {e : Ending} (h : e.isRunning = true) :
    e.isCommitted = false := by
  cases e with
  | running => rfl
  | _ => cases h

/-- The row is committed as the join of the committed changes, and held as the join
of those and the changes of its holder. -/
structure System.RowInv (sys : System pg ι) (orgId : JsString) (k : JsString) (row₀ : Row pg c) :
    Prop where
  locks : sys.LockInv
  owner : sys.server.db.owner c k = some orgId
  row : ∃ row, sys.server.db.find c k = some row ∧ Joined row₀ (sys.committed orgId c k) row
  joins : ∀ i, (sys.transactions i).ending.isRunning = true →
    (sys.transactions i).Joins orgId k row₀ (sys.committed orgId c k)

namespace System.RowInv

variable {sys sys' : System pg ι} {i : ι} {s : Statement pg}

theorem start {server : ServerState pg} {calls : ι → SyncCall}
    (howner : server.db.owner c k = some orgId) (hrow : server.db.find c k = some row₀) :
    (System.start server calls).RowInv orgId k row₀ := by
  have hnone : (System.start server calls).committed orgId c k = ∅ := by
    ext change
    constructor
    · rintro ⟨j, hj, -⟩
      cases hj
    · exact False.elim
  refine ⟨.start, howner, ⟨row₀, hrow, hnone ▸ .refl row₀⟩, fun i _ => ⟨nofun, fun _ => ?_⟩⟩
  ext change
  constructor
  · rintro ⟨-, hmem, -⟩
    cases hmem
  · exact False.elim

variable [Fintype ι] [DecidableEq ι]

/-- One step. -/
theorem step (h : sys.RowInv orgId k row₀) (hvalid : sys.Valid orgId c k i s)
    (hstep : sys.step i s = some sys') : sys'.RowInv orgId k row₀ := by
  obtain ⟨hrunning, hothers, heffect⟩ := System.step_cases hstep
  obtain ⟨base, hbase, hjoined⟩ := h.row
  have hbefore := Ending.isCommitted_of_isRunning hrunning
  have hmine := h.joins i hrunning
  cases heffect with
  | moves hmove hafter hdb =>
      have hcommitted : sys'.committed orgId c k = sys.committed orgId c k :=
        System.committed_eq i hothers hbefore (Ending.isCommitted_of_isRunning hafter)
      refine ⟨h.locks.step hstep, hdb ▸ h.owner, ⟨base, hdb ▸ hbase, hcommitted ▸ hjoined⟩, ?_⟩
      intro j hj
      rw [hcommitted]
      by_cases hij : j = i
      · subst hij
        refine hmove.joins (h.locks.sound j hrunning) h.owner hbase hjoined ?_ hmine
        rintro rfl
        exact hvalid
      · rw [hothers j hij] at hj ⊢
        exact h.joins j hj
  | commits response hahead ht hdb =>
      have hcommitted : sys'.committed orgId c k =
          sys.committed orgId c k ∪ (sys.transactions i).merged orgId c k :=
        System.committed_commit hothers hbefore ht
      refine ⟨h.locks.step hstep, h.locks.owner hstep h.owner, ?_, fun j hj => ?_⟩
      · rw [hdb, Transaction.find_view, hcommitted]
        cases hheld : ((sys.transactions i).held c).lookup k with
        | some row => exact ⟨row, rfl, hmine.1 row hheld⟩
        | none =>
            refine ⟨base, hbase, ?_⟩
            rw [hmine.2 (AList.lookup_eq_none.mp hheld), Set.union_empty]
            exact hjoined
      · have hij : j ≠ i := by
          rintro rfl
          rw [ht] at hj
          cases hj
        rw [hothers j hij] at hj ⊢
        by_cases hk : k ∈ (sys.transactions j).held c
        · -- the row is held elsewhere, so the commit brings no change of it
          rw [hcommitted, hmine.2 (h.locks.exclusive j i hij hj hrunning c k hk), Set.union_empty]
          exact h.joins j hj
        · refine ⟨fun row hrow => ?_, fun _ => (h.joins j hj).2 hk⟩
          rw [AList.lookup_eq_none.mpr hk] at hrow
          cases hrow
  | aborts ht hdb =>
      have hcommitted : sys'.committed orgId c k = sys.committed orgId c k :=
        System.committed_eq i hothers hbefore (by rw [ht]; rfl)
      refine ⟨h.locks.step hstep, hdb ▸ h.owner, ⟨base, hdb ▸ hbase, hcommitted ▸ hjoined⟩, ?_⟩
      intro j hj
      have hij : j ≠ i := by
        rintro rfl
        rw [ht] at hj
        cases hj
      rw [hcommitted]
      rw [hothers j hij] at hj ⊢
      exact h.joins j hj

/-- A run of them. -/
theorem run (h : sys.RowInv orgId k row₀) {steps : List (ι × Statement pg)}
    (hvalid : sys.ValidAll orgId c k steps) (hrun : sys.run steps = some sys') :
    sys'.RowInv orgId k row₀ := by
  induction steps generalizing sys with
  | nil => exact Option.some.inj hrun ▸ h
  | cons first rest ih =>
      obtain ⟨i, s⟩ := first
      obtain ⟨next, hstep, hrest⟩ := Option.bind_eq_some_iff.mp hrun
      obtain ⟨hfirst, hvalid⟩ := hvalid next hstep
      exact ih (h.step hfirst hstep) hvalid hrest

end System.RowInv

section Run

variable [Fintype ι] [DecidableEq ι]

/-- Transactions keep their calls. -/
theorem System.call_run {sys sys' : System pg ι} {steps : List (ι × Statement pg)}
    (hrun : sys.run steps = some sys') (i : ι) :
    (sys'.transactions i).call = (sys.transactions i).call := by
  induction steps generalizing sys with
  | nil => rw [Option.some.inj hrun]
  | cons first rest ih =>
      obtain ⟨j, s⟩ := first
      obtain ⟨next, hstep, hrest⟩ := Option.bind_eq_some_iff.mp hrun
      obtain ⟨-, hothers, heffect⟩ := System.step_cases hstep
      rw [ih hrest]
      by_cases hij : i = j
      · subst hij
        exact heffect.call
      · rw [hothers i hij]

/-- The changes of the record in the requests that have committed. -/
def System.committedChanges (sys : System pg ι) (calls : ι → SyncCall) (orgId : JsString)
    (c : SyncCollection) (k : JsString) : Set SyncChangeDto :=
  {change | ∃ i, (sys.transactions i).ending.isCommitted = true ∧ (calls i).Sends orgId c ∧
    change ∈ (calls i).req.changes ∧ pg.uuid change.id = some k}

/-- **Concurrent syncs converge to the join.** In every state of every
interleaving of any requests, with valid changes where they name the row, the row
is committed as the join of what it was and of the changes of the committed
requests; so two interleavings that commit the same requests leave the same
row. -/
theorem concurrent_syncs_join {server : ServerState pg} {calls : ι → SyncCall}
    (howner : server.db.owner c k = some orgId) (hrow : server.db.find c k = some row₀)
    {steps : List (ι × Statement pg)} {sys : System pg ι}
    (hvalid : (System.start server calls).ValidAll orgId c k steps)
    (hrun : (System.start server calls).run steps = some sys) :
    (∃ row, sys.server.db.find c k = some row ∧
        Joined row₀ (sys.committedChanges calls orgId c k) row) ∧
      ∀ steps' sys', (System.start server calls).ValidAll orgId c k steps' →
        (System.start server calls).run steps' = some sys' →
        (∀ i, (sys'.transactions i).ending.isCommitted = (sys.transactions i).ending.isCommitted) →
        ∃ row row', sys.server.db.find c k = some row ∧ sys'.server.db.find c k = some row' ∧
          (∀ field ∈ syncFields c, row.stamp field = row'.stamp field) ∧
          row.syncDeletedAt = row'.syncDeletedAt ∧
          ∀ field, field ∉ syncFields c → row.columns.lookup field = row'.columns.lookup field := by
  have hjoin : ∀ steps sys, (System.start server calls).ValidAll orgId c k steps →
      (System.start server calls).run steps = some sys →
        ∃ row, sys.server.db.find c k = some row ∧
          Joined row₀ (sys.committedChanges calls orgId c k) row := by
    intro steps sys hvalid hrun
    have hstart : (System.start server calls).RowInv orgId k row₀ := .start howner hrow
    have hinv := hstart.run hvalid hrun
    have hset : sys.committedChanges calls orgId c k = sys.committed orgId c k := by
      ext change
      refine exists_congr fun i => and_congr_right fun hi => ?_
      have hcall : (sys.transactions i).call = calls i := System.call_run hrun i
      rw [Transaction.merged, Set.mem_ofPred_eq, hinv.locks.complete i hi, mem_orderedChanges,
        hcall]
    rw [hset]
    exact hinv.row
  refine ⟨hjoin steps sys hvalid hrun, fun steps' sys' hvalid' hrun' hsame => ?_⟩
  obtain ⟨row, hfind, hjoined⟩ := hjoin steps sys hvalid hrun
  obtain ⟨row', hfind', hjoined'⟩ := hjoin steps' sys' hvalid' hrun'
  have hset : sys'.committedChanges calls orgId c k = sys.committedChanges calls orgId c k := by
    ext change
    refine exists_congr fun i => ?_
    rw [hsame i]
  rw [hset] at hjoined'
  exact ⟨row, row', hfind, hfind', hjoined.unique hjoined'⟩

/-- Changes that are valid when the calls begin are valid when they are merged. -/
theorem System.validAll_of_carries {sys : System pg ι} (hlocks : sys.LockInv)
    (h : ∀ i, (sys.transactions i).call.Sends orgId c →
      ∀ change ∈ (sys.transactions i).call.req.changes, pg.uuid change.id = some k →
        Carries sys.server.db orgId c change) (steps : List (ι × Statement pg)) :
    sys.ValidAll orgId c k steps := by
  induction steps generalizing sys with
  | nil => trivial
  | cons first rest ih =>
      obtain ⟨i, s⟩ := first
      intro next hstep
      obtain ⟨hrunning, hothers, heffect⟩ := System.step_cases hstep
      have hsound := hlocks.sound i hrunning
      refine ⟨?_, ih (hlocks.step hstep) fun j hsends change hmem hk => ?_⟩
      · cases s with
        | merge =>
            intro hsends hstage change rest hahead
            obtain ⟨⟨change', rest', hahead', hk⟩, -⟩ := hsound.locked k hstage
            rw [hahead] at hahead'
            obtain ⟨rfl, -⟩ := List.cons.inj hahead'
            have hmem : change ∈ orderedChanges (sys.transactions i).call.req.changes := by
              rw [← hsound.ordered, hahead]
              simp
            exact (h i hsends change (mem_orderedChanges.mp hmem) hk).mono
              fun c j o ho => hsound.owner_view ho
        | _ => trivial
      · have hcall : (next.transactions j).call = (sys.transactions j).call := by
          by_cases hij : j = i
          · rw [hij, heffect.call]
          · rw [hothers j hij]
        rw [hcall] at hsends hmem
        exact (h j hsends change hmem hk).mono fun c j o ho => hlocks.owner hstep ho

end Run

end Row

/-! ### Two devices that retitle a card -/

namespace Retitled

/-- A device sends the card with a title it has written. -/
def call (title : JsString) (clock : Clock) : SyncCall where
  orgId := Sample.orgId
  now := 1
  req :=
    { collection := .cards
      sinceCheckpoint := 0
      changes := [{
        id := Sample.cardId
        fields := Dict.ofList [("title", .str title), ("description", .null),
          ("isComplete", .bool false), ("listId", .str Sample.listId),
          ("positionIdx", .str (js "M"))]
        clocks := Dict.ofList [("title", some clock)]
        nodeId := js "device"
        deletedAt := none }] }

def calls : Bool → SyncCall
  | false => call (js "Alpha") 5
  | true => call (js "Beta") 7

def server : ServerState Postgres.plain := { db := Sample.oneCard Sample.card, lastMicros := 0 }

/-- Both load the card before one of them has locked it. -/
def overlapping : List (Bool × Statement Postgres.plain) :=
  [(false, .load), (true, .load), (false, .lock), (false, .merge), (false, .commit),
    (true, .lock), (true, .merge), (true, .commit)]

end Retitled

/-- The two titles are joined. -/
theorem retitled_join : ∃ sys, (System.start Retitled.server Retitled.calls).run
      Retitled.overlapping = some sys ∧
    (∀ i, (sys.transactions i).ending.isCommitted = true) ∧
    ∃ row, sys.server.db.find .cards Sample.cardId = some row ∧
      Joined Sample.card
        (sys.committedChanges Retitled.calls Sample.orgId .cards Sample.cardId) row := by
  have hcommitted : ((System.start Retitled.server Retitled.calls).run
      Retitled.overlapping).map (fun sys =>
        decide (∀ i, (sys.transactions i).ending.isCommitted = true)) = some true := by
    decide +kernel
  obtain ⟨sys, hrun, hall⟩ := Option.map_eq_some_iff.mp hcommitted
  refine ⟨sys, hrun, of_decide_eq_true hall, ?_⟩
  have hcarries : ∀ i, ∀ change ∈ (Retitled.calls i).req.changes,
      Carries Retitled.server.db Sample.orgId .cards change := by decide +kernel
  have hvalid : (System.start Retitled.server Retitled.calls).ValidAll Sample.orgId .cards
      Sample.cardId Retitled.overlapping :=
    System.validAll_of_carries .start (fun i _ change hmem _ => hcarries i change hmem) _
  exact (concurrent_syncs_join (by decide +kernel) rfl hvalid hrun).1

end FlowLogix.Server
