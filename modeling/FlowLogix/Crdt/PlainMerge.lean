/-
  Crdt/PlainMerge.lean --- the mobile merge on plain objects
  (mobile/src/crdt/mergeRecord.ts).

  `MergeRecord` reads a record's fields and clocks as dictionaries of own properties.  The
  code reads `local.fields[key]` and `local.clocks[key] ?? 0` of plain objects, and a field
  named like a member of `Object.prototype` that one side lacks is read there as that
  member.  This is the merge with those reads.  On records that share their inherited names
  it computes what `MergeRecord` says (`shows_mergedRecord`).
-/
import FlowLogix.Crdt.MergeRecord
import FlowLogix.Foundation.PlainRegister

set_option autoImplicit false

namespace FlowLogix.Crdt

open FlowLogix.Foundation

variable {K : Type}

/-- A record with its fields and clocks in plain objects. -/
structure PlainRecord (K : Type) extends PlainFields K where
  id : JsString
  nodeId : JsString
  deletedAt : Option K

/-- A version as it arrives from JSON: every property is its own. -/
def VersionedRecord.plain (r : VersionedRecord K) : PlainRecord K where
  toPlainFields := .ofDicts r.fields r.clocks
  id := r.id
  nodeId := r.nodeId
  deletedAt := r.deletedAt

namespace Plain

/-- `MergeResult<F>`. -/
structure MergeResult (K : Type) where
  merged : PlainRecord K
  report : PlainObject MergeOutcome
  changed : Bool

/-! ## Code -/

section Code

variable [LinearOrder K] [Zero K]

/-- Field winner by clock, then by the value comparison on an exact tie. -/
def pickField (lClock : Property K) (lValue : Property (Option Json)) (rClock : Property K)
    (rValue : Property (Option Json)) : MergeOutcome :=
  pickProperty .local_ .remote .equal lClock lValue rClock rValue

/-- The newest field-write stamp on a record, 0 if it has no clocks. -/
def maxFieldClock (record : PlainRecord K) : Option K := record.clocks.mathMax

/-- A tombstone at least as new as the newest field write. -/
def isDeleted (record : PlainRecord K) : Bool :=
  match record.deletedAt with
  | none => false
  | some deletedAt => numberGe (some deletedAt) (maxFieldClock record)

/-- LWW on the deletion register; a tie keeps whichever stamp is non-null. -/
def mergeDeletion (loc remote : PlainRecord K) : Option K :=
  pickTomb loc.deletedAt remote.deletedAt

/-- The id of the newest writer. -/
def newestNode (loc remote : PlainRecord K) : JsString :=
  let lMax := maxFieldClock loc
  let rMax := maxFieldClock remote
  if numberNe lMax rMax then (if numberGt lMax rMax then loc.nodeId else remote.nodeId)
  else if loc.nodeId > remote.nodeId then loc.nodeId else remote.nodeId

/-- What the field loop of `mergeRecord` assigns. -/
structure MergeLoop (K : Type) where
  fields : PlainObject (Option Json)
  clocks : PlainObject K
  report : PlainObject MergeOutcome
  changed : Bool

/-- The loop body of `mergeRecord`. -/
def mergeField (loc remote : PlainRecord K) (acc : MergeLoop K) (key : String) : MergeLoop K :=
  let lClock := loc.clock key
  let rClock := remote.clock key
  let winner := pickField lClock (loc.value key) rClock (remote.value key)
  let report := acc.report.set (fun _ => none) key (.value winner)
  if winner = .remote then
    { fields := acc.fields.set asPrototype key (remote.value key)
      clocks := acc.clocks.set (fun _ => none) key rClock
      report := report
      changed := true }
  else
    { fields := acc.fields.set asPrototype key (loc.value key)
      clocks := acc.clocks.set (fun _ => none) key lClock
      report := report
      changed := acc.changed }

/-- The state after the field loop. -/
def mergeFields (loc remote : PlainRecord K) : MergeLoop K :=
  (PlainFields.keys loc.toPlainFields remote.toPlainFields).foldl (mergeField loc remote)
    { fields := .empty, clocks := .empty, report := .empty, changed := false }

/-- Merge two versions of one record field by field. -/
def mergeRecord (loc remote : PlainRecord K) : Except MergeError (MergeResult K) :=
  if loc.id ≠ remote.id then .error (.differentRecords loc.id remote.id)
  else
    let loop := mergeFields loc remote
    let deletedAt := mergeDeletion loc remote
    let nodeId := newestNode loc remote
    .ok
      { merged :=
          { id := loc.id
            fields := loop.fields
            clocks := loop.clocks
            nodeId := nodeId
            deletedAt := deletedAt }
        report := loop.report
        changed := loop.changed || decide (deletedAt ≠ loc.deletedAt) ||
          decide (nodeId ≠ loc.nodeId) }

end Code

/-! ## What the loop computes -/

section Specification

variable [LinearOrder K] [Zero K]

/-- The remote side wins a field. -/
def remoteWins (loc remote : PlainRecord K) (key : String) : Bool :=
  PlainFields.rightWins loc.toPlainFields remote.toPlainFields key

theorem pickField_eq_remote_iff (loc remote : PlainRecord K) (key : String) :
    pickField (loc.clock key) (loc.value key) (remote.clock key) (remote.value key) = .remote ↔
      remoteWins loc remote key = true :=
  pickProperty_eq_right_iff (by decide) (by decide)

/-- The loop body assigns the winner of the field. -/
theorem mergeField_eq (loc remote : PlainRecord K) (acc : MergeLoop K) (key : String) :
    (mergeField loc remote acc key).fields = acc.fields.set asPrototype key
        (PlainFields.mergedValue loc.toPlainFields remote.toPlainFields key) ∧
      (mergeField loc remote acc key).clocks = acc.clocks.set (fun _ => none) key
        (PlainFields.mergedClock loc.toPlainFields remote.toPlainFields key) ∧
      (mergeField loc remote acc key).changed = (acc.changed || remoteWins loc remote key) := by
  have hwin := pickField_eq_remote_iff loc remote key
  unfold PlainFields.mergedValue PlainFields.mergedClock
  change _ = acc.fields.set asPrototype key (if remoteWins loc remote key then _ else _) ∧
    _ = acc.clocks.set (fun _ => none) key (if remoteWins loc remote key then _ else _) ∧ _
  by_cases h : remoteWins loc remote key = true
  · simp [mergeField, hwin.mpr h, h]
  · simp [mergeField, if_neg (fun hp => h (hwin.mp hp)), h]

theorem foldl_mergeField (loc remote : PlainRecord K) (keys : List String) (acc : MergeLoop K) :
    (keys.foldl (mergeField loc remote) acc).fields = acc.fields.setAll asPrototype
        (PlainFields.mergedValue loc.toPlainFields remote.toPlainFields) keys ∧
      (keys.foldl (mergeField loc remote) acc).clocks = acc.clocks.setAll (fun _ => none)
        (PlainFields.mergedClock loc.toPlainFields remote.toPlainFields) keys ∧
      (keys.foldl (mergeField loc remote) acc).changed =
        (acc.changed || keys.any (remoteWins loc remote)) := by
  induction keys generalizing acc with
  | nil => exact ⟨rfl, rfl, (Bool.or_false _).symm⟩
  | cons key rest ih =>
      obtain ⟨hfields, hclocks, hchanged⟩ := mergeField_eq loc remote acc key
      obtain ⟨ihf, ihc, ihch⟩ := ih (mergeField loc remote acc key)
      rw [hfields] at ihf
      rw [hclocks] at ihc
      rw [hchanged, Bool.or_assoc] at ihch
      exact ⟨ihf, ihc, ihch⟩

/-! ## What the merge computes -/

/-- The record `mergeRecord` builds when the ids agree. -/
def mergedRecord (loc remote : PlainRecord K) : PlainRecord K where
  id := loc.id
  fields := (mergeFields loc remote).fields
  clocks := (mergeFields loc remote).clocks
  nodeId := newestNode loc remote
  deletedAt := mergeDeletion loc remote

/-- The fields and clocks of a merged record. -/
theorem merged_mergedRecord (loc remote : PlainRecord K) :
    PlainFields.Merged loc.toPlainFields remote.toPlainFields
      (mergedRecord loc remote).toPlainFields := by
  obtain ⟨hfields, hclocks, -⟩ := foldl_mergeField loc remote
    (PlainFields.keys loc.toPlainFields remote.toPlainFields)
    { fields := .empty, clocks := .empty, report := .empty, changed := false }
  have hmerged := PlainFields.merged_setAll loc.toPlainFields
    remote.toPlainFields
  rw [← hfields, ← hclocks] at hmerged
  exact hmerged

/-- The loop raises `changed` exactly when the remote side wins a field. -/
theorem mergeFields_changed_iff (loc remote : PlainRecord K) :
    (mergeFields loc remote).changed = true ↔
      ∃ key, (key ∈ loc.fields.own ∨ key ∈ remote.fields.own) ∧
        remoteWins loc remote key = true := by
  rw [mergeFields, (foldl_mergeField loc remote _ _).2.2]
  simp [PlainFields.mem_keys]

/-- `mergeRecord` succeeds on two versions of one record. -/
theorem mergeRecord_ok {loc remote : PlainRecord K} (hid : loc.id = remote.id) :
    ∃ result, mergeRecord loc remote = .ok result ∧
      result.merged = mergedRecord loc remote ∧
      result.changed = ((mergeFields loc remote).changed ||
        decide (mergeDeletion loc remote ≠ loc.deletedAt) ||
        decide (newestNode loc remote ≠ loc.nodeId)) := by
  unfold mergeRecord
  rw [if_neg (not_not.mpr hid)]
  exact ⟨_, rfl, rfl, rfl⟩

end Specification

end Plain

/-! ## Refinement -/

section Refinement

variable [LinearOrder K] [Zero K] {p q : PlainRecord K} {l r : VersionedRecord K}

theorem mergedDicts_mergedRecord (l r : VersionedRecord K) :
    MergedDicts l.fields r.fields (mergedRecord l r).fields l.clocks r.clocks
      (mergedRecord l r).clocks where
  clocks key := lookup_mergeFields_clocks l r key
  fields key := lookup_mergeFields_fields l r key

/-- A plain record shows a well-formed version: the same registers, `__proto__` apart, the
same newest clock, the same tombstone and the same writer. -/
structure PlainRecord.ShowsRecord (p : PlainRecord K) (r : VersionedRecord K) : Prop where
  fields : Shows p.toPlainFields r.fields r.clocks
  complete : r.Complete
  newest : Plain.maxFieldClock p = some (maxFieldClock r)
  id : p.id = r.id
  nodeId : p.nodeId = r.nodeId
  deletedAt : p.deletedAt = r.deletedAt

/-- A version without its `__proto__` field. -/
def VersionedRecord.withoutProto (r : VersionedRecord K) : VersionedRecord K :=
  { r with fields := r.fields.erase "__proto__", clocks := r.clocks.erase "__proto__" }

omit [LinearOrder K] [Zero K] in
theorem VersionedRecord.Complete.withoutProto (h : r.Complete) : r.withoutProto.Complete := by
  intro key
  show key ∈ r.clocks.erase "__proto__" ↔ key ∈ r.fields.erase "__proto__"
  rw [AList.mem_erase, AList.mem_erase, h key]

theorem shows_plain (hcomplete : r.Complete) (hproto : "__proto__" ∉ r.fields) :
    r.plain.ShowsRecord r where
  fields := .of_dicts (fun key _ => (hcomplete key).mpr) hproto
  complete := hcomplete
  newest := PlainObject.mathMax_ofDict r.clocks
  id := rfl
  nodeId := rfl
  deletedAt := rfl

theorem shows_withoutProto (hcomplete : r.Complete) (hproto : r.stamp "__proto__" = zeroStamp) :
    r.plain.ShowsRecord r.withoutProto where
  fields := .of_erase (fun key _ => (hcomplete key).mpr)
    (congrArg Prod.snd (toLex.injective hproto))
  complete := hcomplete.withoutProto
  newest := by
    have hclock : readClock r.clocks "__proto__" = 0 := congrArg Prod.fst (toLex.injective hproto)
    refine (PlainObject.mathMax_ofDict r.clocks).trans (congrArg some (mathMax_erase ?_).symm)
    rw [hclock]
    exact Dict.zero_le_mathMax _
  id := rfl
  nodeId := rfl
  deletedAt := rfl

/-- Versions as they arrive have the newest writer of their dictionaries. -/
theorem newestNode_plain (l r : VersionedRecord K) :
    Plain.newestNode l.plain r.plain = newestNode l r := by
  have hl : Plain.maxFieldClock l.plain = some (maxFieldClock l) :=
    PlainObject.mathMax_ofDict l.clocks
  have hr : Plain.maxFieldClock r.plain = some (maxFieldClock r) :=
    PlainObject.mathMax_ofDict r.clocks
  unfold Plain.newestNode newestNode
  rw [hl, hr]
  simp only [ite_numberNe, ite_numberGt]
  rfl

namespace PlainRecord.ShowsRecord

theorem newestNode_eq (h : p.ShowsRecord l) (h' : q.ShowsRecord r) :
    Plain.newestNode p q = newestNode l r := by
  unfold Plain.newestNode newestNode
  rw [h.newest, h'.newest, h.nodeId, h'.nodeId]
  simp only [ite_numberNe, ite_numberGt]

/-- Sides without a `__proto__` of their own raise the flag of the loop together. -/
theorem mergeFields_changed_eq (h : p.ShowsRecord l) (h' : q.ShowsRecord r)
    (hnames : SameNames l.fields r.fields) (hp : "__proto__" ∉ p.fields.own)
    (hq : "__proto__" ∉ q.fields.own) :
    (Plain.mergeFields p q).changed = (mergeFields l r).changed := by
  rw [Bool.eq_iff_iff, Plain.mergeFields_changed_iff, mergeFields_changed_iff]
  refine exists_congr fun key => ?_
  by_cases hkey : key = "__proto__"
  · subst hkey
    exact iff_of_false (fun hand => hand.1.elim hp hq)
      fun hand => hand.1.elim h.fields.noProto h'.fields.noProto
  · rw [h.fields.keys key hkey, h'.fields.keys key hkey]
    exact and_congr_right fun hmem => h.fields.rightWins_iff h'.fields hnames hkey hmem

/-- **Refinement.** Records that share their inherited names are merged as the versions they
show. -/
theorem mergedRecord (h : p.ShowsRecord l) (h' : q.ShowsRecord r)
    (hnames : SameNames l.fields r.fields) :
    (Plain.mergedRecord p q).ShowsRecord (mergedRecord l r) := by
  have hmerged := Plain.merged_mergedRecord p q
  have hfields := h.fields.merged h'.fields hnames hmerged (mergedDicts_mergedRecord l r)
  exact {
    fields := hfields
    complete := mergedRecord_complete l r
    newest := hfields.newest_merged hmerged (mergedDicts_mergedRecord l r)
    id := h.id
    nodeId := h.newestNode_eq h'
    deletedAt := by
      show pickTomb p.deletedAt q.deletedAt = pickTomb l.deletedAt r.deletedAt
      rw [h.deletedAt, h'.deletedAt] }

end PlainRecord.ShowsRecord

end Refinement

end FlowLogix.Crdt
