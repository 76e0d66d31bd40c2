/-
  Server/ChangeFlags.lean --- when a merge counts as a change
  (mobile/src/crdt/mergeRecord.ts, mobile/src/sync/SyncService.ts,
  backend/src/sync/sync-merge.ts, backend/src/sync/sync.service.ts).

  Both merges raise their flag along the way: for a field that is taken from the other side,
  for a tombstone that moves, and on the device for another last writer.  On dictionaries it
  stays down just where the merged record reads as the one it was merged into, which is all a
  sync of the server's rows sees (`showsMerge_mergeInto`, `writeMerged_iff`).

  On plain objects a field named like a member of `Object.prototype` can be taken and read as
  before, and one named `__proto__` is lost without being taken.  The flag is exact unless
  that is all that happens (`ExactWhen`), and with it the write that is skipped or made.
-/
import FlowLogix.Crdt.Semilattice
import FlowLogix.Mobile.PlainStore
import FlowLogix.Server.PlainMerge
import FlowLogix.Server.SyncService

set_option autoImplicit false

namespace FlowLogix.Server

open FlowLogix.Foundation FlowLogix.Crdt
open FlowLogix.Mobile (PlainStore PlainLocalRecord)

variable {K : Type} [LinearOrder K] [Zero K]

/-! ## The rows of the server -/

/-- Two field maps read the same, with their clocks: an absent field is `undefined` at
clock 0, and values are compared by their canonical text. -/
structure SameFields (fields fields' : JsObject (Option Json)) (clocks clocks' : JsObject K) :
    Prop where
  values : ∀ key, canonicalJson (readField fields key) = canonicalJson (readField fields' key)
  clocks : ∀ key, readClock clocks key = readClock clocks' key

omit [LinearOrder K] in
/-- The registers of two such maps are the same. -/
theorem sameFields_iff_stampOf {fields fields' : JsObject (Option Json)}
    {clocks clocks' : JsObject K} :
    SameFields fields fields' clocks clocks' ↔
      ∀ key, stampOf fields clocks key = stampOf fields' clocks' key := by
  constructor
  · intro h key
    rw [stampOf, stampOf, h.values key, h.clocks key]
  · intro h
    have hpair : ∀ key, (readClock clocks key, canonicalJson (readField fields key)) =
        (readClock clocks' key, canonicalJson (readField fields' key)) :=
      fun key => toLex.injective (h key)
    exact ⟨fun key => (Prod.mk.inj (hpair key)).2, fun key => (Prod.mk.inj (hpair key)).1⟩

/-- Joining a register leaves it as it is where the other one is not later. -/
theorem sup_eq_self_iff_not_lt {α : Type} [LinearOrder α] (a b : α) : a ⊔ b = a ↔ ¬ a < b :=
  sup_eq_left.trans not_lt.symm

/-- A state of a record reads as another one; the last writer is not compared. -/
structure StateReadsAs (r r' : RecordState K) : Prop where
  fields : SameFields r.fields r'.fields r.clocks r'.clocks
  deletedAt : r.deletedAt = r'.deletedAt

/-- `serverChanged` stays down just where the merged state reads as the server's. -/
theorem serverChanged_eq_false_iff {server client : RecordState K} (hserver : server.Timed) :
    (mergeServerRecord server client).serverChanged = false ↔
      StateReadsAs (mergeServerRecord server client).merged server := by
  have hfields : SameFields (mergeServerRecord server client).merged.fields server.fields
      (mergeServerRecord server client).merged.clocks server.clocks ↔
        ¬ ∃ key, (key ∈ server.fields ∨ key ∈ client.fields) ∧ ClientWins server client key := by
    rw [sameFields_iff_stampOf, not_exists]
    refine forall_congr' fun key => ?_
    change (mergeServerRecord server client).merged.stamp key = server.stamp key ↔ _
    by_cases hkey : key ∈ server.fields ∨ key ∈ client.fields
    · rw [stamp_merged_of_mem hkey, sup_eq_self_iff_not_lt]
      exact ⟨fun h hwin => h hwin.2, fun h hlt => h ⟨hkey, hlt⟩⟩
    · have hm : key ∉ (mergeServerRecord server client).merged.fields :=
        mt mem_merged_fields.mp hkey
      have hmc : key ∉ (mergeServerRecord server client).merged.clocks := by
        rw [← AList.lookup_eq_none, lookup_merged_clocks, if_neg hkey]
      have hs : key ∉ server.fields := fun h => hkey (Or.inl h)
      refine iff_of_true ?_ fun hwin => hkey hwin.1
      rw [RecordState.stamp, RecordState.stamp, stampOf_of_not_mem hm hmc,
        stampOf_of_not_mem hs fun h => hs (hserver key h)]
  rw [← Bool.not_eq_true, serverChanged_iff, not_or, not_not, ← hfields]
  constructor
  · intro h
    exact ⟨h.1, h.2⟩
  · intro h
    exact ⟨h.fields, h.deletedAt⟩

/-- No synced field is named like a member of `Object.prototype`. -/
theorem not_mem_syncFields {key : String} (h : key ∈ objectPrototype) (c : SyncCollection) :
    key ∉ syncFields c := by
  revert key
  cases c <;> decide

/-- The merge of a row and a change, on plain objects. -/
def Plain.mergeInto {pg : Postgres} {c : SyncCollection} (db : Database pg) (orgId : JsString)
    (row : Row pg c) (change : SyncChangeDto) : Plain.ServerMergeResult Clock :=
  Plain.mergeServerRecord (serverState row).plain
    (clientState db orgId (syncFields c) change).plain

/-- The result of a merge on plain objects shows the result of a merge. -/
structure ShowsMerge (result : Plain.ServerMergeResult Clock) (shown : ServerMergeResult Clock) :
    Prop where
  merged : result.merged.ShowsState shown.merged
  serverChanged : result.serverChanged = shown.serverChanged
  clientAccepted : result.clientAccepted = shown.clientAccepted
  serverAhead : result.serverAhead = shown.serverAhead

/-- States without an inherited name are merged alike. -/
theorem showsMerge_plain {server client : RecordState Clock}
    (hs : ∀ key ∈ objectPrototype, key ∉ server.fields)
    (hc : ∀ key ∈ objectPrototype, key ∉ client.fields) :
    ShowsMerge (Plain.mergeServerRecord server.plain client.plain)
      (mergeServerRecord server client) := by
  have hnames : SameNames server.fields client.fields :=
    fun key hin _ => iff_of_false (hs key hin) (hc key hin)
  have hproto : "__proto__" ∈ objectPrototype := by decide
  obtain ⟨hchanged, haccepted, hahead⟩ := (showsState_plain hs).flags_eq (showsState_plain hc)
    hnames (mt PlainObject.mem_ofDict.mp (hs _ hproto)) (mt PlainObject.mem_ofDict.mp (hc _ hproto))
  exact ⟨(showsState_plain hs).mergeServerRecord (showsState_plain hc) hnames, hchanged, haccepted,
    hahead⟩

/-- What a sync merges: the code's merge of a row and a change shows `mergeInto`. -/
theorem showsMerge_mergeInto {pg : Postgres} {c : SyncCollection} (db : Database pg)
    (orgId : JsString) (row : Row pg c) (change : SyncChangeDto) :
    ShowsMerge (Plain.mergeInto db orgId row change) (mergeInto db orgId row change) := by
  refine showsMerge_plain (fun key hin => ?_) fun key hin => ?_
  · rw [← AList.lookup_eq_none, serverState, lookup_readFields, if_neg (not_mem_syncFields hin c)]
  · rw [← AList.lookup_eq_none, lookup_clientState_fields, if_neg (not_mem_syncFields hin c)]

/-- What a sync writes of a merge: nothing where the merged state reads as the row. -/
theorem writeMerged_iff {pg : Postgres} {c : SyncCollection} (db : Database pg) (k id : JsString)
    {row : Row pg c} (hrow : (serverState row).Timed) {client : RecordState Clock}
    {result : ServerMergeResult Clock}
    (hresult : result = mergeServerRecord (serverState row) client) :
    (StateReadsAs result.merged (serverState row) → writeMerged db k id row result = .ok (db, [])) ∧
    (¬ StateReadsAs result.merged (serverState row) →
      writeMerged db k id row result = do
        let row' ← patchRow row result.merged
        return (db.put k row',
          (eventForUpdate (db.put k row') c id (serverState row) result.merged).toList)) := by
  subst hresult
  have hchanged : (mergeServerRecord (serverState row) client).serverChanged = false ↔
      StateReadsAs (mergeServerRecord (serverState row) client).merged (serverState row) :=
    serverChanged_eq_false_iff hrow
  unfold writeMerged
  constructor
  · intro hsame
    rw [hchanged.mpr hsame]
    rfl
  · intro hdiffer
    rw [if_pos (by rwa [← hchanged, Bool.not_eq_false] at hdiffer)]

/-! ## What a merge of plain objects takes and alters -/

section Taking

variable (lf rf : JsObject (Option Json)) (lc rc : JsObject K)

/-- A name of `Object.prototype` that exactly one side has. -/
def OneSided (key : String) : Prop := key ∈ objectPrototype ∧ ¬(key ∈ lf ↔ key ∈ rf)

/-- The field is taken from the other side: its register is later, or the name is
one-sided. -/
def Taken (key : String) : Prop :=
  OneSided lf rf key ∨ stampOf lf lc key < stampOf rf rc key

/-- The field reads differently afterwards.  What stood under `__proto__` is gone, a
one-sided name of the own side is a member of `Object.prototype`, and one of the other side
is what that side had. -/
def Altered (key : String) : Prop :=
  if key = "__proto__" then stampOf lf lc key ≠ zeroStamp
  else (OneSided lf rf key ∧ (key ∈ lf ∨ stampOf rf rc key ≠ zeroStamp)) ∨
    (¬OneSided lf rf key ∧ stampOf lf lc key < stampOf rf rc key)

variable {lf rf lc rc} {m : PlainFields K} {key : String}

omit [LinearOrder K] in
/-- A name that is not one-sided is read on both sides as the dictionaries read it. -/
theorem readsOwn_of_not_oneSided (hl : ∀ key, key ∈ lc ↔ key ∈ lf) (hr : ∀ key, key ∈ rc ↔ key ∈ rf)
    (hmem : key ∈ lf ∨ key ∈ rf) (h : ¬OneSided lf rf key) :
    PlainFields.ReadsOwn (.ofDicts lf lc) lf lc key ∧
      PlainFields.ReadsOwn (.ofDicts rf rc) rf rc key := by
  have hread : (key ∈ lf ∨ key ∉ objectPrototype) ∧ (key ∈ rf ∨ key ∉ objectPrototype) := by
    unfold OneSided at h
    tauto
  obtain ⟨hlf, hrf⟩ := hread
  exact ⟨PlainFields.readsOwn_ofDicts (hlf.imp_left (hl key).mpr) hlf,
    PlainFields.readsOwn_ofDicts (hrf.imp_left (hr key).mpr) hrf⟩

omit [LinearOrder K] in
/-- The register of a field that a side does not have. -/
theorem stampOf_absent (hl : ∀ key, key ∈ lc ↔ key ∈ lf) (h : key ∉ lf) :
    stampOf lf lc key = zeroStamp :=
  stampOf_of_not_mem h (mt (hl key).mp h)

theorem rightWins_iff_taken (hl : ∀ key, key ∈ lc ↔ key ∈ lf) (hr : ∀ key, key ∈ rc ↔ key ∈ rf)
    (hmem : key ∈ lf ∨ key ∈ rf) :
    PlainFields.rightWins (.ofDicts lf lc) (.ofDicts rf rc) key = true ↔ Taken lf rf lc rc key := by
  by_cases hside : OneSided lf rf key
  · refine iff_of_true ?_ (Or.inl hside)
    obtain ⟨hin, hne⟩ := hside
    by_cases hlf : key ∈ lf
    · have hrf : key ∉ rf := by tauto
      exact PlainFields.rightWins_left lf rf ((hl key).mpr hlf) (mt (hr key).mp hrf) hin
    · exact PlainFields.rightWins_right lf rf (mt (hl key).mp hlf) ((hr key).mpr (by tauto)) hin
  · obtain ⟨hlread, hrread⟩ := readsOwn_of_not_oneSided hl hr hmem hside
    rw [hlread.rightWins_iff hrread, Taken, or_iff_right hside]

theorem register_ne_iff_altered (hl : ∀ key, key ∈ lc ↔ key ∈ lf)
    (hr : ∀ key, key ∈ rc ↔ key ∈ rf)
    (hm : PlainFields.Merged (.ofDicts lf lc) (.ofDicts rf rc) m) :
    m.register key ≠ (PlainFields.ofDicts lf lc).register key ↔ Altered lf rf lc rc key := by
  rw [PlainFields.register_ofDicts, Altered]
  by_cases hkey : key = "__proto__"
  · rw [if_pos hkey, hkey, hm.register_proto, ofStamp_injective.ne_iff]
    exact ne_comm
  · rw [if_neg hkey]
    by_cases hmem : key ∈ lf ∨ key ∈ rf
    · by_cases hside : OneSided lf rf key
      · simp only [hside, true_and, not_true_eq_false, false_and, or_false]
        obtain ⟨hin, hne⟩ := hside
        by_cases hlf : key ∈ lf
        · -- the own value gives way to the member of `Object.prototype`
          have hrf : key ∉ rf := by tauto
          rw [hm.register_left hkey hin hlf ((hl key).mpr hlf) hrf (mt (hr key).mp hrf)]
          refine iff_of_true (fun heq => ?_) (Or.inl hlf)
          cases congrArg Prod.fst heq
        · have hrf : key ∈ rf := by tauto
          rw [hm.register_right hkey hin (mt (hl key).mp hlf) hrf ((hr key).mpr hrf),
            stampOf_absent hl hlf, ofStamp_injective.ne_iff, or_iff_right hlf]
      · obtain ⟨hlread, hrread⟩ := readsOwn_of_not_oneSided hl hr hmem hside
        rw [hm.register_read hkey hmem hlread hrread, ofStamp_injective.ne_iff, ne_eq, sup_eq_left,
          not_le]
        simp [hside]
    · -- a field of neither side is absent from both records
      obtain ⟨hlf, hrf⟩ := not_or.mp hmem
      rw [hm.register_absent hlf hrf, stampOf_absent hl hlf, stampOf_absent hr hrf]
      simp [OneSided, hlf, hrf]

/-- The loop takes a field of one of the two field sets. -/
theorem exists_rightWins_iff (hl : ∀ key, key ∈ lc ↔ key ∈ lf) (hr : ∀ key, key ∈ rc ↔ key ∈ rf) :
    (∃ key, (key ∈ (PlainFields.ofDicts lf lc).fields.own ∨
        key ∈ (PlainFields.ofDicts rf rc).fields.own) ∧
        PlainFields.rightWins (.ofDicts lf lc) (.ofDicts rf rc) key = true) ↔
      ∃ key, Taken lf rf lc rc key := by
  refine exists_congr fun key => ?_
  rw [show key ∈ (PlainFields.ofDicts lf lc).fields.own ↔ key ∈ lf from PlainObject.mem_ofDict,
    show key ∈ (PlainFields.ofDicts rf rc).fields.own ↔ key ∈ rf from PlainObject.mem_ofDict]
  constructor
  · intro hand
    exact (rightWins_iff_taken hl hr hand.1).mp hand.2
  · intro htaken
    have hmem : key ∈ lf ∨ key ∈ rf := by
      by_contra hnot
      obtain ⟨hlf, hrf⟩ := not_or.mp hnot
      rw [Taken, OneSided, stampOf_absent hl hlf, stampOf_absent hr hrf] at htaken
      simp [hlf, hrf] at htaken
    exact ⟨hmem, (rightWins_iff_taken hl hr hmem).mpr htaken⟩

/-- The merge leaves the registers of the own side where it alters none. -/
theorem register_eq_iff (hl : ∀ key, key ∈ lc ↔ key ∈ lf) (hr : ∀ key, key ∈ rc ↔ key ∈ rf)
    (hm : PlainFields.Merged (.ofDicts lf lc) (.ofDicts rf rc) m) :
    m.register = (PlainFields.ofDicts lf lc).register ↔ ¬∃ key, Altered lf rf lc rc key := by
  rw [funext_iff, not_exists]
  refine forall_congr' fun key => ?_
  rw [← register_ne_iff_altered hl hr hm, not_not]

/-- The field is taken although it reads as before: as an absent one, on both sides of the
merge. -/
def TakenIdly (lf rf : JsObject (Option Json)) (lc rc : JsObject K) (key : String) : Prop :=
  stampOf lf lc key = zeroStamp ∧
    if key = "__proto__" then Taken lf rf lc rc key
    else OneSided lf rf key ∧ key ∉ lf ∧ stampOf rf rc key = zeroStamp

/-- The own value under `__proto__` is lost although the other side has no later one. -/
def LostSilently (lf rf : JsObject (Option Json)) (lc rc : JsObject K) : Prop :=
  "__proto__" ∈ rf ∧ stampOf lf lc "__proto__" ≠ zeroStamp ∧
    ¬stampOf lf lc "__proto__" < stampOf rf rc "__proto__"

theorem takenIdly_iff (hl : ∀ key, key ∈ lc ↔ key ∈ lf) :
    TakenIdly lf rf lc rc key ↔ Taken lf rf lc rc key ∧ ¬Altered lf rf lc rc key := by
  unfold TakenIdly Altered Taken
  by_cases hkey : key = "__proto__"
  · simp only [if_pos hkey]
    tauto
  · have habsent : key ∉ lf → stampOf lf lc key = zeroStamp := stampOf_absent hl
    simp only [if_neg hkey]
    tauto

theorem lostSilently_iff (hl : ∀ key, key ∈ lc ↔ key ∈ lf) :
    LostSilently lf rf lc rc ↔ ∃ key, Altered lf rf lc rc key ∧ ¬Taken lf rf lc rc key := by
  have hin : "__proto__" ∈ objectPrototype := by decide
  have hlf : stampOf lf lc "__proto__" ≠ zeroStamp → "__proto__" ∈ lf := by
    intro hne
    by_contra hnot
    exact hne (stampOf_absent hl hnot)
  unfold LostSilently
  constructor
  · rintro ⟨hrf, hstamp, hlater⟩
    refine ⟨"__proto__", (if_pos rfl).mpr hstamp, ?_⟩
    unfold Taken OneSided
    tauto
  · rintro ⟨key, haltered, htaken⟩
    unfold Altered at haltered
    unfold Taken OneSided at htaken
    by_cases hkey : key = "__proto__"
    · subst hkey
      rw [if_pos rfl] at haltered
      tauto
    · rw [if_neg hkey] at haltered
      unfold OneSided at haltered
      tauto

end Taking

/-! ## Where the flags are exact -/

/-- Something moves that is no field, a field is taken and altered, or a field is taken idly
just where one is lost silently. -/
def ExactWhen (moves : Prop) (lf rf : JsObject (Option Json)) (lc rc : JsObject K) : Prop :=
  moves ∨ (∃ key, Taken lf rf lc rc key ∧ Altered lf rf lc rc key) ∨
    ((∃ key, TakenIdly lf rf lc rc key) ↔ LostSilently lf rf lc rc)

/-- A flag that is raised for what is taken, and a record that differs in what is altered. -/
theorem exactWhen_iff {lf rf : JsObject (Option Json)} {lc rc : JsObject K} {moves : Prop}
    (hl : ∀ key, key ∈ lc ↔ key ∈ lf) :
    ((¬moves ∧ ¬∃ key, Taken lf rf lc rc key) ↔ (¬moves ∧ ¬∃ key, Altered lf rf lc rc key)) ↔
      ExactWhen moves lf rf lc rc := by
  simp only [ExactWhen, takenIdly_iff hl, lostSilently_iff hl]
  by_cases hmoves : moves
  · simp [hmoves]
  by_cases hboth : ∃ key, Taken lf rf lc rc key ∧ Altered lf rf lc rc key
  · obtain ⟨key, htaken, haltered⟩ := hboth
    refine iff_of_true (iff_of_false ?_ ?_) (Or.inr (Or.inl ⟨key, htaken, haltered⟩))
    · exact fun hnone => hnone.2 ⟨key, htaken⟩
    · exact fun hnone => hnone.2 ⟨key, haltered⟩
  · have htaken : (∃ key, Taken lf rf lc rc key) ↔
        ∃ key, Taken lf rf lc rc key ∧ ¬Altered lf rf lc rc key :=
      exists_congr fun key => (and_iff_left_of_imp fun h ha => hboth ⟨key, h, ha⟩).symm
    have haltered : (∃ key, Altered lf rf lc rc key) ↔
        ∃ key, Altered lf rf lc rc key ∧ ¬Taken lf rf lc rc key :=
      exists_congr fun key => (and_iff_left_of_imp fun h ht => hboth ⟨key, ht, h⟩).symm
    simp only [htaken, haltered, hmoves, hboth, not_false_eq_true, true_and, false_or, not_iff_not]

/-! ### On the device -/

/-- The remote writer is the newest, and another one. -/
def WriterMoves (l r : VersionedRecord K) : Prop :=
  (maxFieldClock l < maxFieldClock r ∧ l.nodeId ≠ r.nodeId) ∨
    (maxFieldClock l = maxFieldClock r ∧ l.nodeId < r.nodeId)

theorem newestNode_ne_iff (l r : VersionedRecord K) :
    Crdt.newestNode l r ≠ l.nodeId ↔ WriterMoves l r := by
  unfold Crdt.newestNode WriterMoves
  obtain hlt | heq | hgt := lt_trichotomy (maxFieldClock l) (maxFieldClock r)
  · simp [hlt, hlt.ne, hlt.not_gt, ne_comm]
  · by_cases hnode : r.nodeId < l.nodeId
    · simp [heq, hnode, hnode.not_gt]
    · simp only [heq, ne_eq, not_true_eq_false, if_false, gt_iff_lt, hnode, lt_irrefl, false_and,
        true_and, false_or]
      exact ⟨fun hne => lt_of_le_of_ne (not_lt.mp hnode) fun h => hne h.symm, fun h => h.ne'⟩
  · simp [hgt, hgt.ne', hgt.not_gt]

/-- The remote tombstone is the later register. -/
theorem pickTomb_ne_iff (d e : Option K) : pickTomb d e ≠ d ↔ tombOf d < tombOf e := by
  rw [← tombOf_injective.ne_iff, tombOf_pickTomb, ne_eq, sup_eq_left, not_le]

/-- Tombstone or writer of a record move. -/
def Moves (l r : VersionedRecord K) : Prop :=
  tombOf l.deletedAt < tombOf r.deletedAt ∨ WriterMoves l r

/-- `changed` stays down exactly where the merged record looks like the local one. -/
def ChangedExact (l r : VersionedRecord K) : Prop :=
  ∃ result, Crdt.Plain.mergeRecord l.plain r.plain = .ok result ∧
    (result.changed = false ↔ result.merged.view = l.plain.view)

/-- The merged record looks like the local one where nothing moves and nothing is altered. -/
theorem view_mergedRecord_iff {l r : VersionedRecord K} (hl : l.Complete) (hr : r.Complete) :
    (Crdt.Plain.mergedRecord l.plain r.plain).view = l.plain.view ↔
      ¬Moves l r ∧ ¬∃ key, Altered l.fields r.fields l.clocks r.clocks key := by
  have hfields := register_eq_iff hl hr (Crdt.Plain.merged_mergedRecord l.plain r.plain)
  have htomb := (pickTomb_ne_iff l.deletedAt r.deletedAt).not_right
  have hnode := newestNode_ne_iff l r
  rw [← newestNode_plain] at hnode
  replace hnode := hnode.not_right
  rw [Moves, not_or, ← hfields, ← htomb, ← hnode, PlainRecord.view, PlainRecord.view, View.mk.injEq]
  exact ⟨fun h => ⟨h.2, h.1⟩, fun h => ⟨h.2, h.1⟩⟩

/-- The flag stays down where nothing moves and nothing is taken. -/
theorem changed_iff {l r : VersionedRecord K} (hl : l.Complete) (hr : r.Complete)
    (hid : l.id = r.id) : ∃ result, Crdt.Plain.mergeRecord l.plain r.plain = .ok result ∧
      result.merged = Crdt.Plain.mergedRecord l.plain r.plain ∧
      (result.changed = false ↔
        ¬Moves l r ∧ ¬∃ key, Taken l.fields r.fields l.clocks r.clocks key) := by
  obtain ⟨result, hok, hmerged, hchanged⟩ := Crdt.Plain.mergeRecord_ok
    (show l.plain.id = r.plain.id from hid)
  have hloop := (Crdt.Plain.mergeFields_changed_iff l.plain r.plain).trans
    (exists_rightWins_iff hl hr)
  have htomb := pickTomb_ne_iff l.deletedAt r.deletedAt
  have hnode := newestNode_ne_iff l r
  rw [← newestNode_plain] at hnode
  refine ⟨result, hok, hmerged, ?_⟩
  rw [← Bool.not_eq_true, hchanged, Bool.or_eq_true, Bool.or_eq_true, decide_eq_true_iff,
    decide_eq_true_iff, hloop, not_or, not_or, Moves, not_or, ← htomb, ← hnode]
  exact ⟨fun h => ⟨⟨h.1.2, h.2⟩, h.1.1⟩, fun h => ⟨⟨h.2, h.1.1⟩, h.1.2⟩⟩

theorem changedExact_iff {l r : VersionedRecord K} (hl : l.Complete) (hr : r.Complete)
    (hid : l.id = r.id) :
    ChangedExact l r ↔ ExactWhen (Moves l r) l.fields r.fields l.clocks r.clocks := by
  obtain ⟨result, hok, hmerged, hchanged⟩ := changed_iff hl hr hid
  rw [← exactWhen_iff hl, ← hchanged, ← view_mergedRecord_iff hl hr, ← hmerged]
  constructor
  · rintro ⟨result', hok', hexact⟩
    obtain rfl := Except.ok.inj (hok.symm.trans hok')
    exact hexact
  · intro hexact
    exact ⟨result, hok, hexact⟩

/-- `applyRemote` writes nothing exactly where the merged record looks like the local one
and its flag stays, and otherwise puts the merged record and reports whether it looks
different. -/
def WriteExact (l r : VersionedRecord Clock) : Prop :=
  ∀ (store : PlainStore) (pending : Bool), store.getById r.id = some ⟨l.plain, pending⟩ →
    ∃ result stillPending, Crdt.Plain.mergeRecord l.plain r.plain = .ok result ∧
      stillPending = (pending && Mobile.Plain.localIsAhead l.plain r.plain) ∧
      (result.merged.view = l.plain.view ∧ stillPending = pending →
        Mobile.Plain.applyRemote store r.plain = .ok (store, false)) ∧
      (¬(result.merged.view = l.plain.view ∧ stillPending = pending) →
        ∃ changed, (changed = true ↔ result.merged.view ≠ l.plain.view) ∧
          Mobile.Plain.applyRemote store r.plain =
            .ok (store.put ⟨result.merged, stillPending⟩, changed))

theorem writeExact_iff {l r : VersionedRecord Clock} (hid : l.id = r.id) :
    WriteExact l r ↔ ChangedExact l r := by
  obtain ⟨result, hok, -⟩ := Crdt.Plain.mergeRecord_ok (show l.plain.id = r.plain.id from hid)
  constructor
  · intro hwrite
    -- a record that is not pending
    have hstored : (PlainStore.put Mobile.LocalStore.empty.plain ⟨l.plain, false⟩).getById r.id =
        some ⟨l.plain, false⟩ := by
      rw [PlainStore.getById_put]
      exact if_pos hid.symm
    obtain ⟨result', stillPending, hok', hstill, hskip, hput⟩ := hwrite _ false hstored
    obtain rfl := Except.ok.inj (hok.symm.trans hok')
    rw [Bool.false_and] at hstill
    subst hstill
    refine ⟨result, hok, ?_⟩
    have happly := Mobile.Plain.applyRemote_known r.plain hstored hok
    rw [Bool.false_and] at happly
    cases hchanged : result.changed with
    | false =>
        rw [hchanged, if_pos (by rfl)] at happly
        refine iff_of_true rfl ?_
        by_contra hview
        obtain ⟨changed, hflag, happly'⟩ := hput fun hand => hview hand.1
        obtain ⟨-, hfalse⟩ := Prod.mk.inj (Except.ok.inj (happly.symm.trans happly'))
        exact absurd (hflag.mpr hview) (by rw [← hfalse]; decide)
    | true =>
        rw [hchanged, if_neg (by simp)] at happly
        refine iff_of_false (by decide) fun hview => ?_
        have happly' := hskip ⟨hview, rfl⟩
        obtain ⟨-, htrue⟩ := Prod.mk.inj (Except.ok.inj (happly.symm.trans happly'))
        cases htrue
  · rintro ⟨result', hok', hexact⟩ store pending hstored
    obtain rfl := Except.ok.inj (hok.symm.trans hok')
    have happly := Mobile.Plain.applyRemote_known r.plain hstored hok
    refine ⟨result, _, hok, rfl, fun hsame => ?_, fun hdiffer => ?_⟩
    · refine happly.trans (if_pos ?_)
      rw [hexact.mpr hsame.1, hsame.2]
      simp
    · refine ⟨result.changed, by rw [ne_eq, ← hexact, Bool.not_eq_false],
        happly.trans (if_neg ?_)⟩
      intro hskip
      obtain ⟨hchanged, hpending⟩ := Bool.and_eq_true_iff.mp hskip
      exact hdiffer ⟨hexact.mp (by simpa using hchanged), beq_iff_eq.mp hpending⟩

/-! ### On the server -/

/-- `serverChanged` stays down exactly where the merged state has the registers and the
tombstone of the server's. -/
def ServerChangedExact (s c : RecordState K) : Prop :=
  (Plain.mergeServerRecord s.plain c.plain).serverChanged = false ↔
    (Plain.mergeServerRecord s.plain c.plain).merged.register = s.plain.register ∧
      (Plain.mergeServerRecord s.plain c.plain).merged.deletedAt = s.deletedAt

theorem serverChangedExact_iff {s c : RecordState K} (hs : ∀ key, key ∈ s.clocks ↔ key ∈ s.fields)
    (hc : ∀ key, key ∈ c.clocks ↔ key ∈ c.fields) :
    ServerChangedExact s c ↔
      ExactWhen (tombOf s.deletedAt < tombOf c.deletedAt) s.fields c.fields s.clocks c.clocks := by
  have hfields := register_eq_iff hs hc (Plain.merged_mergeServerRecord s.plain c.plain)
  have htomb := pickTomb_ne_iff s.deletedAt c.deletedAt
  have hloop := exists_rightWins_iff hs hc
  have hflag : (Plain.mergeServerRecord s.plain c.plain).serverChanged = false ↔
      ¬tombOf s.deletedAt < tombOf c.deletedAt ∧
        ¬∃ key, Taken s.fields c.fields s.clocks c.clocks key := by
    rw [← Bool.not_eq_true, Plain.serverChanged_iff, not_or, ← hloop, ← htomb]
    exact and_comm
  rw [← exactWhen_iff hs, ServerChangedExact, hflag, ← hfields, ← htomb, not_not]
  exact iff_congr Iff.rfl and_comm

/-! ### Both, and what they decide -/

/-- A state of the shape that is merged: a clock for exactly its fields. -/
abbrev WellFormedState (K : Type) : Type :=
  { s : RecordState K // ∀ key, key ∈ s.clocks ↔ key ∈ s.fields }

/-- A row whose clocks all belong to its synced fields. -/
abbrev TimedRow (pg : Postgres) (c : SyncCollection) : Type :=
  { row : Row pg c // (serverState row).Timed }

/-- **Where the change flags are exact**, each merge raising its flag just where the merged
record differs from the one it was merged into: the device's on two versions, the server's
on two states, and with the first the write of `applyRemote`.  A sync merges the fields of
its rows, none of which is named like a member of `Object.prototype`: the code's merge shows
the one of dictionaries, and is written exactly where it differs. -/
theorem changeFlags_exact_iff :
    (∀ (id : JsString) (l r : Version K id), ChangedExact l.record r.record ↔
      ExactWhen (Moves l.record r.record) l.record.fields r.record.fields l.record.clocks
        r.record.clocks) ∧
    (∀ s c : WellFormedState K, ServerChangedExact s.val c.val ↔
      ExactWhen (tombOf s.val.deletedAt < tombOf c.val.deletedAt) s.val.fields c.val.fields
        s.val.clocks c.val.clocks) ∧
    (∀ (id : JsString) (l r : Version Clock id), WriteExact l.record r.record ↔
      ExactWhen (Moves l.record r.record) l.record.fields r.record.fields l.record.clocks
        r.record.clocks) ∧
    ∀ (pg : Postgres) (c : SyncCollection) (db : Database pg) (orgId k id : JsString)
      (row : TimedRow pg c) (change : SyncChangeDto),
      ShowsMerge (Plain.mergeInto db orgId row.val change) (mergeInto db orgId row.val change) ∧
      (StateReadsAs (mergeInto db orgId row.val change).merged (serverState row.val) →
        writeMerged db k id row.val (mergeInto db orgId row.val change) = .ok (db, [])) ∧
      (¬StateReadsAs (mergeInto db orgId row.val change).merged (serverState row.val) →
        writeMerged db k id row.val (mergeInto db orgId row.val change) = do
          let row' ← patchRow row.val (mergeInto db orgId row.val change).merged
          return (db.put k row',
            (eventForUpdate (db.put k row') c id (serverState row.val)
              (mergeInto db orgId row.val change).merged).toList)) := by
  refine ⟨fun id l r => ?_, fun s c => serverChangedExact_iff s.property c.property,
    fun id l r => ?_, fun pg c db orgId k id row change =>
      ⟨showsMerge_mergeInto db orgId row.val change, writeMerged_iff db k id row.property rfl⟩⟩
  · exact changedExact_iff l.complete r.complete (l.id_eq.trans r.id_eq.symm)
  · have hid := l.id_eq.trans r.id_eq.symm
    rw [writeExact_iff hid, changedExact_iff l.complete r.complete hid]

/-! ### A `constructor` that says nothing -/

namespace Idle

/-- A card with a title. -/
def titled : VersionedRecord Nat where
  id := js "c1"
  fields := Dict.ofList [("title", some (.str (js "Ship")))]
  clocks := Dict.ofList [("title", 3)]
  nodeId := js "a"
  deletedAt := none

/-- The same version with a field named `constructor`, `null` at clock 0. -/
def constructed : VersionedRecord Nat :=
  { titled with
    fields := Dict.ofList [("title", some (.str (js "Ship"))), ("constructor", some .null)]
    clocks := Dict.ofList [("title", 3), ("constructor", 0)] }

/-- Every other field is the same in both. -/
theorem stampOf_eq {key : String} (h : key ≠ "constructor") :
    stampOf titled.fields titled.clocks key = stampOf constructed.fields constructed.clocks key ∧
      (key ∈ titled.fields ↔ key ∈ constructed.fields) := by
  have hclock : readClock titled.clocks key = readClock constructed.clocks key := by
    simp [readClock, titled, constructed, Dict.ofList, h]
  have hfield : titled.fields.lookup key = constructed.fields.lookup key := by
    simp [titled, constructed, Dict.ofList, h]
  rw [stampOf, stampOf, hclock, readField, readField, hfield, ← AList.lookup_isSome,
    ← AList.lookup_isSome, hfield]
  exact ⟨rfl, Iff.rfl⟩

end Idle

/-- The flag is raised, and the merged record looks like the local one. -/
theorem idle_flag_inexact : ¬ChangedExact Idle.titled Idle.constructed := by
  have hmoves : ¬Moves Idle.titled Idle.constructed := by
    unfold Moves WriterMoves
    decide
  have hone : OneSided Idle.titled.fields Idle.constructed.fields "constructor" := by
    unfold OneSided
    decide
  have hsame : ∀ key, key ≠ "constructor" →
      ¬Taken Idle.titled.fields Idle.constructed.fields Idle.titled.clocks Idle.constructed.clocks
        key := by
    intro key hkey
    obtain ⟨hstamp, hmem⟩ := Idle.stampOf_eq hkey
    rw [Taken, OneSided, hstamp]
    simp [hmem]
  have hexact := changedExact_iff (l := Idle.titled) (r := Idle.constructed) (fun _ => Iff.rfl)
    (fun _ => Iff.rfl) rfl
  rw [hexact, ExactWhen]
  refine not_or.mpr ⟨hmoves, not_or.mpr ⟨?_, fun hiff => ?_⟩⟩
  · rintro ⟨key, htaken, haltered⟩
    by_cases hkey : key = "constructor"
    · subst hkey
      revert haltered
      simp only [Altered, hone]
      decide
    · exact hsame key hkey htaken
  · have hlost := hiff.mp ⟨"constructor", by decide, by
      rw [if_neg (by decide)]
      exact ⟨hone, by decide, by decide⟩⟩
    exact absurd hlost.1 (by decide)

end FlowLogix.Server
