/-
  Server/SyncMerge.lean --- the server half of the merge
  (backend/src/sync/sync-merge.ts).

  Same layout as `Crdt/MergeRecord.lean`: the field loop with everything its
  body assigns, then the reading of its result.  The server record has no id
  and a nullable writer, reports three flags instead of one, and lets a tie on
  the writer go to the side the mobile code would not pick.  Records are read as
  own properties, and merged as plain objects in `PlainMerge.lean`; what a sync
  merges has the synced columns of a collection for fields, on which the two are
  the same.
-/
import FlowLogix.Foundation.Register

set_option autoImplicit false

namespace FlowLogix.Server

open FlowLogix.Foundation

variable {K : Type}

/-! ## Types -/

/-- A record's synced state: field values with their per-field clocks. -/
structure RecordState (K : Type) where
  fields : JsObject (Option Json)
  clocks : JsObject K
  nodeId : Option JsString
  deletedAt : Option K

/-- `FieldWinner`. -/
inductive FieldWinner where
  | server
  | client
  | equal
  deriving DecidableEq, Repr

/-- `ServerMergeResult`. -/
structure ServerMergeResult (K : Type) where
  merged : RecordState K
  report : JsObject FieldWinner
  /-- the merged state differs from the server's prior state -/
  serverChanged : Bool
  /-- the client contributed a winning field or a newer tombstone -/
  clientAccepted : Bool
  /-- the server holds a field or tombstone newer than the client's -/
  serverAhead : Bool

/-! ## Code -/

section Code

variable [LinearOrder K] [Zero K]

/-- Field winner by clock, then by the value comparison on an exact tie. -/
def pickField (sClock : K) (sValue : Option Json) (cClock : K) (cValue : Option Json) :
    FieldWinner :=
  pickWinner .server .client .equal sClock sValue cClock cValue

/-- A tombstone at least as new as the newest field write. -/
def isDeleted (record : RecordState K) : Bool :=
  match record.deletedAt with
  | none => false
  | some deletedAt => decide (record.clocks.mathMax ≤ deletedAt)

/-- LWW on the deletion register; a tie keeps whichever stamp is non-null. -/
def mergeTombstone (server client : Option K) : Option K := pickTomb server client

/-- Converge the writer annotation to the newest writer. -/
def newestNode (server client : RecordState K) : Option JsString :=
  let sMax := server.clocks.mathMax
  let cMax := client.clocks.mathMax
  if sMax ≠ cMax then (if sMax > cMax then server.nodeId else client.nodeId)
  else if server.nodeId.getD [] ≥ client.nodeId.getD [] then server.nodeId
  else client.nodeId

/-- The server has a field or tombstone strictly newer than the client's. -/
def isServerAhead (server client : RecordState K) : Bool :=
  (server.fields.keys.any fun key =>
      decide (readClock server.clocks key > readClock client.clocks key)) ||
    decide (server.deletedAt.getD 0 > client.deletedAt.getD 0)

/-- What the field loop of `mergeServerRecord` assigns. -/
structure MergeLoop (K : Type) where
  fields : JsObject (Option Json)
  clocks : JsObject K
  report : JsObject FieldWinner
  serverChanged : Bool
  clientAccepted : Bool

/-- The loop body of `mergeServerRecord`. -/
def mergeField (server client : RecordState K) (acc : MergeLoop K) (key : String) :
    MergeLoop K :=
  let sClock := readClock server.clocks key
  let cClock := readClock client.clocks key
  let winner :=
    pickField sClock (readField server.fields key) cClock (readField client.fields key)
  let report := acc.report.insert key winner
  if winner = .client then
    { fields := acc.fields.insert key (readField client.fields key)
      clocks := acc.clocks.insert key cClock
      report := report
      serverChanged := true
      clientAccepted := true }
  else
    { fields := acc.fields.insert key (readField server.fields key)
      clocks := acc.clocks.insert key sClock
      report := report
      serverChanged := acc.serverChanged
      clientAccepted := acc.clientAccepted }

/-- The key set of the loop: every field name of either side, once. -/
def mergeKeys (server client : RecordState K) : List String :=
  (server.fields.keys ++ client.fields.keys).dedup

/-- The state after the field loop. -/
def mergeFields (server client : RecordState K) : MergeLoop K :=
  (mergeKeys server client).foldl (mergeField server client)
    { fields := ∅, clocks := ∅, report := ∅, serverChanged := false, clientAccepted := false }

/-- Merge a client change into the server's current record state. -/
def mergeServerRecord (server client : RecordState K) : ServerMergeResult K :=
  let loop := mergeFields server client
  let deletedAt := mergeTombstone server.deletedAt client.deletedAt
  { merged :=
      { fields := loop.fields
        clocks := loop.clocks
        nodeId := newestNode server client
        deletedAt := deletedAt }
    report := loop.report
    serverChanged := loop.serverChanged || decide (deletedAt ≠ server.deletedAt)
    clientAccepted :=
      loop.clientAccepted || decide (client.deletedAt.getD 0 > server.deletedAt.getD 0)
    serverAhead := isServerAhead server client }

end Code

/-! ## Registers of a record -/

section Specification

variable [LinearOrder K] [Zero K]

namespace RecordState

/-- The register of one field of a record. -/
def stamp (r : RecordState K) (key : String) : Stamp K := stampOf r.fields r.clocks key

/-- The record as a point of the semilattice of registers. -/
def registers (r : RecordState K) : Registers K :=
  registersOf r.fields r.clocks r.deletedAt

end RecordState

/-- The client holds the later register of a field. -/
def ClientWins (server client : RecordState K) (key : String) : Prop :=
  server.stamp key < client.stamp key

instance (server client : RecordState K) (key : String) :
    Decidable (ClientWins server client key) :=
  inferInstanceAs (Decidable (_ < _))

theorem pickField_eq_client_iff (server client : RecordState K) (key : String) :
    pickField (readClock server.clocks key) (readField server.fields key)
        (readClock client.clocks key) (readField client.fields key) = .client ↔
      ClientWins server client key :=
  pickWinner_eq_right_iff (by decide) (by decide) _ _ _ _

/-! ## What the loop computes -/

omit [LinearOrder K] [Zero K] in
theorem mem_mergeKeys (server client : RecordState K) (key : String) :
    key ∈ mergeKeys server client ↔ key ∈ server.fields ∨ key ∈ client.fields := by
  simp [mergeKeys, AList.mem_keys]

/-- The value a merge keeps for a field. -/
def mergedValue (server client : RecordState K) (key : String) : Option Json :=
  if ClientWins server client key then readField client.fields key
  else readField server.fields key

/-- The clock a merge keeps for a field. -/
def mergedClock (server client : RecordState K) (key : String) : K :=
  if ClientWins server client key then readClock client.clocks key
  else readClock server.clocks key

/-- The loop body on a field the client wins. -/
theorem mergeField_of_wins {server client : RecordState K} {key : String}
    (h : ClientWins server client key) (acc : MergeLoop K) :
    mergeField server client acc key =
      { fields := acc.fields.insert key (readField client.fields key)
        clocks := acc.clocks.insert key (readClock client.clocks key)
        report := acc.report.insert key .client
        serverChanged := true
        clientAccepted := true } := by
  simp [mergeField, (pickField_eq_client_iff server client key).mpr h]

/-- The loop body on a field the server keeps. -/
theorem mergeField_of_not_wins {server client : RecordState K} {key : String}
    (h : ¬ ClientWins server client key) (acc : MergeLoop K) :
    mergeField server client acc key =
      { fields := acc.fields.insert key (readField server.fields key)
        clocks := acc.clocks.insert key (readClock server.clocks key)
        report := acc.report.insert key (pickField (readClock server.clocks key)
          (readField server.fields key) (readClock client.clocks key)
          (readField client.fields key))
        serverChanged := acc.serverChanged
        clientAccepted := acc.clientAccepted } := by
  have hpick := fun hp => h ((pickField_eq_client_iff server client key).mp hp)
  simp only [mergeField, if_neg hpick]

theorem foldl_mergeField (server client : RecordState K) (keys : List String)
    (acc : MergeLoop K) :
    keys.foldl (mergeField server client) acc =
      { fields := Dict.writeAll (mergedValue server client) keys acc.fields
        clocks := Dict.writeAll (mergedClock server client) keys acc.clocks
        report := Dict.writeAll (fun key => pickField (readClock server.clocks key)
          (readField server.fields key) (readClock client.clocks key)
          (readField client.fields key)) keys acc.report
        serverChanged :=
          acc.serverChanged || keys.any fun key => decide (ClientWins server client key)
        clientAccepted :=
          acc.clientAccepted || keys.any fun key => decide (ClientWins server client key) } := by
  induction keys generalizing acc with
  | nil => simp [Dict.writeAll]
  | cons key rest ih =>
      rw [List.foldl_cons, ih]
      by_cases h : ClientWins server client key
      · rw [mergeField_of_wins h]
        simp [Dict.writeAll, mergedValue, mergedClock, h,
          (pickField_eq_client_iff server client key).mpr h]
      · rw [mergeField_of_not_wins h]
        simp [Dict.writeAll, mergedValue, mergedClock, h]

/-! ## What the merge computes -/

theorem lookup_merged_fields (server client : RecordState K) (key : String) :
    (mergeServerRecord server client).merged.fields.lookup key =
      if key ∈ server.fields ∨ key ∈ client.fields then some (mergedValue server client key)
      else none := by
  simp [mergeServerRecord, mergeFields, foldl_mergeField, Dict.lookup_writeAll, mem_mergeKeys]

theorem lookup_merged_clocks (server client : RecordState K) (key : String) :
    (mergeServerRecord server client).merged.clocks.lookup key =
      if key ∈ server.fields ∨ key ∈ client.fields then some (mergedClock server client key)
      else none := by
  simp [mergeServerRecord, mergeFields, foldl_mergeField, Dict.lookup_writeAll, mem_mergeKeys]

theorem mem_merged_fields {server client : RecordState K} {key : String} :
    key ∈ (mergeServerRecord server client).merged.fields ↔
      key ∈ server.fields ∨ key ∈ client.fields := by
  rw [← AList.lookup_isSome, lookup_merged_fields]
  split <;> simp_all

theorem lookup_report (server client : RecordState K) (key : String) :
    (mergeServerRecord server client).report.lookup key =
      if key ∈ server.fields ∨ key ∈ client.fields then
        some (pickField (readClock server.clocks key) (readField server.fields key)
          (readClock client.clocks key) (readField client.fields key))
      else none := by
  simp [mergeServerRecord, mergeFields, foldl_mergeField, Dict.lookup_writeAll, mem_mergeKeys]

/-- A write is due exactly when the client wins a field or the tombstone
moves. -/
theorem serverChanged_iff (server client : RecordState K) :
    (mergeServerRecord server client).serverChanged = true ↔
      (∃ key, (key ∈ server.fields ∨ key ∈ client.fields) ∧ ClientWins server client key) ∨
        mergeTombstone server.deletedAt client.deletedAt ≠ server.deletedAt := by
  simp [mergeServerRecord, mergeFields, foldl_mergeField, mem_mergeKeys]

/-- A change is acknowledged exactly when the client wins a field or brings a
later tombstone. -/
theorem clientAccepted_iff (server client : RecordState K) :
    (mergeServerRecord server client).clientAccepted = true ↔
      (∃ key, (key ∈ server.fields ∨ key ∈ client.fields) ∧ ClientWins server client key) ∨
        server.deletedAt.getD 0 < client.deletedAt.getD 0 := by
  simp [mergeServerRecord, mergeFields, foldl_mergeField, mem_mergeKeys]

/-- On the fields of either side, the merged register is the later one. -/
theorem stamp_merged_of_mem {server client : RecordState K} {key : String}
    (hkey : key ∈ server.fields ∨ key ∈ client.fields) :
    (mergeServerRecord server client).merged.stamp key =
      server.stamp key ⊔ client.stamp key := by
  have hf := lookup_merged_fields server client key
  have hc := lookup_merged_clocks server client key
  rw [if_pos hkey] at hf hc
  rw [RecordState.stamp, stampOf, readClock_of_lookup hc, readField_of_lookup hf, mergedClock,
    mergedValue]
  by_cases h : ClientWins server client key
  · rw [if_pos h, if_pos h, sup_eq_right.mpr (le_of_lt h)]
    rfl
  · rw [if_neg h, if_neg h, sup_eq_left.mpr (not_lt.mp h)]
    rfl

/-- The merged tombstone register is the later one. -/
theorem tombOf_merged (server client : RecordState K) :
    tombOf (mergeServerRecord server client).merged.deletedAt =
      tombOf server.deletedAt ⊔ tombOf client.deletedAt :=
  tombOf_pickTomb server.deletedAt client.deletedAt

end Specification

end FlowLogix.Server
