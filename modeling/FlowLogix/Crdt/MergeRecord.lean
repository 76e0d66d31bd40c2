/-
  Crdt/MergeRecord.lean --- the mobile half of the merge
  (mobile/src/crdt/types.ts, mobile/src/crdt/mergeRecord.ts).

  `mergeRecord` is transcribed with its loop: the fields of both sides are
  visited once each, and `MergeLoop` holds what the loop body assigns (`fields`,
  `clocks`, `report`, `changed`).  A field whose value is `undefined` can be an
  own property of a merged record, so the values of `fields` are
  `Option Json`.  Own properties are all that is read here, which is the code's
  reading where no field is named like a member of `Object.prototype`; the merge
  with the reads of plain objects is in `PlainMerge.lean`.

  The lemmas after the code read the result of the loop back field by field.
  Everything later cites `mergeRecord_ok` and the `stamp` lemmas, never the loop.
-/
import FlowLogix.Foundation.PlainObject
import FlowLogix.Foundation.Register

set_option autoImplicit false

namespace FlowLogix.Crdt

open FlowLogix.Foundation

variable {K : Type}

/-! ## Types -/

/-- `VersionedRecord<F>`: field values, one clock per field, the last writer,
and the deletion stamp. -/
structure VersionedRecord (K : Type) where
  id : JsString
  fields : JsObject (Option Json)
  clocks : JsObject K
  nodeId : JsString
  deletedAt : Option K

/-- `MergeOutcome`: which side a field-level merge chose. -/
inductive MergeOutcome where
  | local_
  | remote
  | equal
  deriving DecidableEq, Repr

/-- `MergeResult<F>`. -/
structure MergeResult (K : Type) where
  merged : VersionedRecord K
  report : JsObject MergeOutcome
  /-- the merged record differs from `local`, so a write is needed -/
  changed : Bool

/-! ## Code -/

section Code

variable [LinearOrder K] [Zero K]

/-- Field winner by clock, then by the value comparison on an exact tie. -/
def pickField (lClock : K) (lValue : Option Json) (rClock : K) (rValue : Option Json) :
    MergeOutcome :=
  pickWinner .local_ .remote .equal lClock lValue rClock rValue

/-- The newest field-write stamp on a record, 0 if it has no clocks. -/
def maxFieldClock (record : VersionedRecord K) : K := record.clocks.mathMax

/-- A tombstone at least as new as the newest field write. -/
def isDeleted (record : VersionedRecord K) : Bool :=
  match record.deletedAt with
  | none => false
  | some deletedAt => decide (maxFieldClock record ≤ deletedAt)

/-- LWW on the deletion register; a tie keeps whichever stamp is non-null. -/
def mergeDeletion (loc remote : VersionedRecord K) : Option K :=
  pickTomb loc.deletedAt remote.deletedAt

/-- The id of the newest writer. -/
def newestNode (loc remote : VersionedRecord K) : JsString :=
  let lMax := maxFieldClock loc
  let rMax := maxFieldClock remote
  if lMax ≠ rMax then (if lMax > rMax then loc.nodeId else remote.nodeId)
  else if loc.nodeId > remote.nodeId then loc.nodeId else remote.nodeId

/-- What the field loop of `mergeRecord` assigns. -/
structure MergeLoop (K : Type) where
  fields : JsObject (Option Json)
  clocks : JsObject K
  report : JsObject MergeOutcome
  changed : Bool

/-- The loop body of `mergeRecord`. -/
def mergeField (loc remote : VersionedRecord K) (acc : MergeLoop K) (key : String) :
    MergeLoop K :=
  let lClock := readClock loc.clocks key
  let rClock := readClock remote.clocks key
  let winner :=
    pickField lClock (readField loc.fields key) rClock (readField remote.fields key)
  let report := acc.report.insert key winner
  if winner = .remote then
    { fields := acc.fields.insert key (readField remote.fields key)
      clocks := acc.clocks.insert key rClock
      report := report
      changed := true }
  else
    { fields := acc.fields.insert key (readField loc.fields key)
      clocks := acc.clocks.insert key lClock
      report := report
      changed := acc.changed }

/-- The key set of the loop: every field name of either side, once. -/
def mergeKeys (fields fields' : JsObject (Option Json)) : List String :=
  (fields.keys ++ fields'.keys).dedup

/-- The state after the field loop. -/
def mergeFields (loc remote : VersionedRecord K) : MergeLoop K :=
  (mergeKeys loc.fields remote.fields).foldl (mergeField loc remote)
    { fields := ∅, clocks := ∅, report := ∅, changed := false }

/-- Why `mergeRecord` throws: the ids it was given. -/
inductive MergeError where
  | differentRecords (localId remoteId : JsString)
  deriving DecidableEq

/-- `Error.message`. -/
def MergeError.message : MergeError → JsString
  | .differentRecords localId remoteId =>
      js "Cannot merge different records: " ++ localId ++ js " vs " ++ remoteId

/-- Merge two versions of one record field by field. -/
def mergeRecord (loc remote : VersionedRecord K) : Except MergeError (MergeResult K) :=
  if loc.id ≠ remote.id then .error (.differentRecords loc.id remote.id)
  else
    let loop := mergeFields loc remote
    let deletedAt := mergeDeletion loc remote
    let nodeId := newestNode loc remote
    .ok
      { merged :=
          { id := loc.id
            fields := loop.fields
            clocks := loop.clocks
            nodeId := nodeId
            deletedAt := deletedAt }
        report := loop.report
        changed := loop.changed || decide (deletedAt ≠ loc.deletedAt) ||
          decide (nodeId ≠ loc.nodeId) }

end Code

/-! ## Registers of a record -/

section Specification

variable [LinearOrder K] [Zero K]

namespace VersionedRecord

/-- The register of one field of a record. -/
def stamp (r : VersionedRecord K) (key : String) : Stamp K :=
  stampOf r.fields r.clocks key

/-- The record as a point of the semilattice of registers. -/
def registers (r : VersionedRecord K) : Registers K :=
  registersOf r.fields r.clocks r.deletedAt

/-- The clock map has an entry for exactly the keys of the field map: the
invariant `FieldClocks<F>` states in the source's types. -/
def Complete (r : VersionedRecord K) : Prop := ∀ key, key ∈ r.clocks ↔ key ∈ r.fields

/-- No field and no clock is named like a member of `Object.prototype`. -/
def OrdinaryNames (r : VersionedRecord K) : Prop :=
  Foundation.OrdinaryNames r.fields ∧ Foundation.OrdinaryNames r.clocks

/-- Every clock belongs to a field. -/
def Timed (r : VersionedRecord K) : Prop := ∀ key, key ∈ r.clocks → key ∈ r.fields

omit [LinearOrder K] [Zero K] in
theorem Complete.timed {r : VersionedRecord K} (h : r.Complete) : r.Timed :=
  fun key => (h key).mp

end VersionedRecord

/-! ## What the loop computes -/

theorem mem_mergeKeys (fields fields' : JsObject (Option Json)) (key : String) :
    key ∈ mergeKeys fields fields' ↔ key ∈ fields ∨ key ∈ fields' := by
  simp [mergeKeys, AList.mem_keys]

/-- The remote side holds the later register of a field. -/
def RemoteWins (loc remote : VersionedRecord K) (key : String) : Prop :=
  loc.stamp key < remote.stamp key

instance (loc remote : VersionedRecord K) (key : String) :
    Decidable (RemoteWins loc remote key) :=
  inferInstanceAs (Decidable (_ < _))

theorem pickField_eq_remote_iff (loc remote : VersionedRecord K) (key : String) :
    pickField (readClock loc.clocks key) (readField loc.fields key)
        (readClock remote.clocks key) (readField remote.fields key) = .remote ↔
      RemoteWins loc remote key :=
  pickWinner_eq_right_iff (by decide) (by decide) _ _ _ _

/-- The loop body writes the winning value and clock under the key. -/
theorem mergeField_eq (loc remote : VersionedRecord K) (acc : MergeLoop K) (key : String) :
    (mergeField loc remote acc key).fields = acc.fields.insert key
        (if RemoteWins loc remote key then readField remote.fields key
          else readField loc.fields key) ∧
      (mergeField loc remote acc key).clocks = acc.clocks.insert key
        (if RemoteWins loc remote key then readClock remote.clocks key
          else readClock loc.clocks key) ∧
      (mergeField loc remote acc key).changed =
        (acc.changed || decide (RemoteWins loc remote key)) := by
  have hwin := pickField_eq_remote_iff loc remote key
  by_cases h : RemoteWins loc remote key
  · simp [mergeField, hwin.mpr h, h]
  · simp [mergeField, if_neg (fun hp => h (hwin.mp hp)), h]

theorem foldl_mergeField (loc remote : VersionedRecord K) (keys : List String)
    (acc : MergeLoop K) :
    (keys.foldl (mergeField loc remote) acc).fields =
        Dict.writeAll (fun key => if RemoteWins loc remote key then readField remote.fields key
          else readField loc.fields key) keys acc.fields ∧
      (keys.foldl (mergeField loc remote) acc).clocks =
        Dict.writeAll (fun key => if RemoteWins loc remote key then readClock remote.clocks key
          else readClock loc.clocks key) keys acc.clocks ∧
      (keys.foldl (mergeField loc remote) acc).changed =
        (acc.changed || keys.any fun key => decide (RemoteWins loc remote key)) := by
  induction keys generalizing acc with
  | nil => exact ⟨rfl, rfl, (Bool.or_false _).symm⟩
  | cons key rest ih =>
      obtain ⟨hfields, hclocks, hchanged⟩ := mergeField_eq loc remote acc key
      obtain ⟨ihf, ihc, ihch⟩ := ih (mergeField loc remote acc key)
      rw [hfields] at ihf
      rw [hclocks] at ihc
      rw [hchanged, Bool.or_assoc] at ihch
      exact ⟨ihf, ihc, ihch⟩

/-- The merged field map: every field name of either side, with the value of
the later register. -/
theorem lookup_mergeFields_fields (loc remote : VersionedRecord K) (key : String) :
    (mergeFields loc remote).fields.lookup key =
      if key ∈ loc.fields ∨ key ∈ remote.fields then
        some (if RemoteWins loc remote key then readField remote.fields key
          else readField loc.fields key)
      else none := by
  rw [mergeFields, (foldl_mergeField loc remote _ _).1, Dict.lookup_writeAll]
  simp [mem_mergeKeys]

/-- The merged clock map, over the same keys. -/
theorem lookup_mergeFields_clocks (loc remote : VersionedRecord K) (key : String) :
    (mergeFields loc remote).clocks.lookup key =
      if key ∈ loc.fields ∨ key ∈ remote.fields then
        some (if RemoteWins loc remote key then readClock remote.clocks key
          else readClock loc.clocks key)
      else none := by
  rw [mergeFields, (foldl_mergeField loc remote _ _).2.1, Dict.lookup_writeAll]
  simp [mem_mergeKeys]

/-- The loop raises `changed` exactly when the remote side wins a field. -/
theorem mergeFields_changed_iff (loc remote : VersionedRecord K) :
    (mergeFields loc remote).changed = true ↔
      ∃ key, (key ∈ loc.fields ∨ key ∈ remote.fields) ∧ RemoteWins loc remote key := by
  rw [mergeFields, (foldl_mergeField loc remote _ _).2.2]
  simp [mem_mergeKeys]

/-! ## What the merge computes -/

/-- The record `mergeRecord` builds when the ids agree. -/
def mergedRecord (loc remote : VersionedRecord K) : VersionedRecord K where
  id := loc.id
  fields := (mergeFields loc remote).fields
  clocks := (mergeFields loc remote).clocks
  nodeId := newestNode loc remote
  deletedAt := mergeDeletion loc remote

/-- `mergeRecord` succeeds on two versions of one record. -/
theorem mergeRecord_ok {loc remote : VersionedRecord K} (hid : loc.id = remote.id) :
    ∃ result, mergeRecord loc remote = .ok result ∧
      result.merged = mergedRecord loc remote ∧
      result.changed = ((mergeFields loc remote).changed ||
        decide (mergeDeletion loc remote ≠ loc.deletedAt) ||
        decide (newestNode loc remote ≠ loc.nodeId)) := by
  unfold mergeRecord
  rw [if_neg (not_not.mpr hid)]
  exact ⟨_, rfl, rfl, rfl⟩

theorem mem_mergedRecord_fields (loc remote : VersionedRecord K) (key : String) :
    key ∈ (mergedRecord loc remote).fields ↔ key ∈ loc.fields ∨ key ∈ remote.fields := by
  rw [← AList.lookup_isSome, mergedRecord, lookup_mergeFields_fields]
  split <;> simp_all

theorem mem_mergedRecord_clocks (loc remote : VersionedRecord K) (key : String) :
    key ∈ (mergedRecord loc remote).clocks ↔ key ∈ loc.fields ∨ key ∈ remote.fields := by
  rw [← AList.lookup_isSome, mergedRecord, lookup_mergeFields_clocks]
  split <;> simp_all

/-- The merged record has a clock for exactly its fields. -/
theorem mergedRecord_complete (loc remote : VersionedRecord K) :
    (mergedRecord loc remote).Complete := by
  intro key
  rw [mem_mergedRecord_fields, mem_mergedRecord_clocks]

/-- On the fields of either side, the merged register is the later one. -/
theorem stamp_mergedRecord_of_mem {loc remote : VersionedRecord K} {key : String}
    (hkey : key ∈ loc.fields ∨ key ∈ remote.fields) :
    (mergedRecord loc remote).stamp key = loc.stamp key ⊔ remote.stamp key := by
  have hf := lookup_mergeFields_fields loc remote key
  have hc := lookup_mergeFields_clocks loc remote key
  rw [if_pos hkey] at hf hc
  have hstamp : (mergedRecord loc remote).stamp key =
      if RemoteWins loc remote key then remote.stamp key else loc.stamp key := by
    rw [VersionedRecord.stamp, stampOf, mergedRecord, readClock_of_lookup hc,
      readField_of_lookup hf]
    split <;> rfl
  rw [hstamp]
  by_cases h : RemoteWins loc remote key
  · rw [if_pos h, sup_eq_right.mpr (le_of_lt h)]
  · rw [if_neg h, sup_eq_left.mpr (not_lt.mp h)]

/-- Where every clock belongs to a field, the merged register is the later one
everywhere. -/
theorem stamp_mergedRecord {loc remote : VersionedRecord K} (hl : loc.Timed)
    (hr : remote.Timed) (key : String) :
    (mergedRecord loc remote).stamp key = loc.stamp key ⊔ remote.stamp key := by
  by_cases hkey : key ∈ loc.fields ∨ key ∈ remote.fields
  · exact stamp_mergedRecord_of_mem hkey
  · have hm : key ∉ (mergedRecord loc remote).fields :=
      fun h => hkey ((mem_mergedRecord_fields loc remote key).mp h)
    have hmc := fun h => hm ((mergedRecord_complete loc remote key).mp h)
    obtain ⟨hl', hr'⟩ := not_or.mp hkey
    simp only [VersionedRecord.stamp, stampOf_of_not_mem hm hmc,
      stampOf_of_not_mem hl' (fun h => hl' (hl key h)),
      stampOf_of_not_mem hr' (fun h => hr' (hr key h)), sup_idem]

/-- **Refinement.** Where every clock belongs to a field, `mergeRecord` computes
the join of the two points of the semilattice of registers. -/
theorem registers_mergedRecord {loc remote : VersionedRecord K} (hl : loc.Timed)
    (hr : remote.Timed) :
    (mergedRecord loc remote).registers = loc.registers ⊔ remote.registers := by
  refine Prod.ext ?_ (tombOf_pickTomb _ _)
  funext key
  exact stamp_mergedRecord hl hr key

/-- A merge that reports no change won nothing from the remote side. -/
theorem changed_eq_false {loc remote : VersionedRecord K} {result : MergeResult K}
    (hmerge : mergeRecord loc remote = .ok result) (hchanged : result.changed = false) :
    (∀ key, key ∈ loc.fields ∨ key ∈ remote.fields → ¬ RemoteWins loc remote key) ∧
      mergeDeletion loc remote = loc.deletedAt := by
  have hid : loc.id = remote.id := by
    by_contra hne
    simp [mergeRecord, hne] at hmerge
  obtain ⟨result', hok, -, hflag⟩ := mergeRecord_ok hid
  obtain rfl : result' = result := Except.ok.inj (hok.symm.trans hmerge)
  rw [hchanged, eq_comm, Bool.or_eq_false_iff, Bool.or_eq_false_iff] at hflag
  obtain ⟨⟨hfields, hdeleted⟩, -⟩ := hflag
  refine ⟨fun key hkey hwins => ?_, by simpa using hdeleted⟩
  rw [(mergeFields_changed_iff loc remote).mpr ⟨key, hkey, hwins⟩] at hfields
  cases hfields

end Specification

end FlowLogix.Crdt
