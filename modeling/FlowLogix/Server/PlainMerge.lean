/-
  Server/PlainMerge.lean --- the server's merge on plain objects, and where the two merges
  agree (backend/src/sync/sync-merge.ts).

  Same layout as `Crdt/PlainMerge.lean`: the code with its reads of plain objects, then what
  it leaves.  The server evaluates `mergeServerRecord(S, C)` where the device evaluates
  `mergeRecord(C, S)`, and both take the right side under an inherited name that one side
  has alone.  So they compute one record exactly where no such name has a clock on one side
  only (`mergesAgree_iff`).
-/
import FlowLogix.Crdt.PlainMerge
import FlowLogix.Server.MergeAgreement

set_option autoImplicit false

namespace FlowLogix.Server

open FlowLogix.Foundation
open FlowLogix.Crdt (VersionedRecord PlainRecord)

variable {K : Type}

/-- A record's synced state with its fields and clocks in plain objects. -/
structure PlainState (K : Type) extends PlainFields K where
  nodeId : Option JsString
  deletedAt : Option K

/-- A state read from the database or from a request: every property is its own. -/
def RecordState.plain (r : RecordState K) : PlainState K where
  toPlainFields := .ofDicts r.fields r.clocks
  nodeId := r.nodeId
  deletedAt := r.deletedAt

/-- A state as it is sent. -/
def PlainState.sent (s : PlainState K) (id : JsString) : PlainRecord K where
  toPlainFields := s.toPlainFields
  id := id
  nodeId := s.nodeId.getD []
  deletedAt := s.deletedAt

/-- A received version as the server merges it. -/
def PlainState.received (c : PlainRecord K) : PlainState K where
  toPlainFields := c.toPlainFields
  nodeId := some c.nodeId
  deletedAt := c.deletedAt

namespace Plain

/-- `ServerMergeResult`. -/
structure ServerMergeResult (K : Type) where
  merged : PlainState K
  report : PlainObject FieldWinner
  serverChanged : Bool
  clientAccepted : Bool
  serverAhead : Bool

/-! ## Code -/

section Code

variable [LinearOrder K] [Zero K]

/-- Field winner by clock, then by the value comparison on an exact tie. -/
def pickField (sClock : Property K) (sValue : Property (Option Json)) (cClock : Property K)
    (cValue : Property (Option Json)) : FieldWinner :=
  pickProperty .server .client .equal sClock sValue cClock cValue

/-- A tombstone at least as new as the newest field write. -/
def isDeleted (record : PlainState K) : Bool :=
  match record.deletedAt with
  | none => false
  | some deletedAt => numberGe (some deletedAt) record.clocks.mathMax

/-- LWW on the deletion register; a tie keeps whichever stamp is non-null. -/
def mergeTombstone (server client : Option K) : Option K := pickTomb server client

/-- Converge the writer annotation to the newest writer. -/
def newestNode (server client : PlainState K) : Option JsString :=
  let sMax := server.clocks.mathMax
  let cMax := client.clocks.mathMax
  if numberNe sMax cMax then (if numberGt sMax cMax then server.nodeId else client.nodeId)
  else if server.nodeId.getD [] ≥ client.nodeId.getD [] then server.nodeId
  else client.nodeId

/-- The server has a field or tombstone strictly newer than the client's. -/
def isServerAhead (server client : PlainState K) : Bool :=
  (server.fields.own.keys.any fun key =>
      numberGt (server.clock key).number (client.clock key).number) ||
    decide (server.deletedAt.getD 0 > client.deletedAt.getD 0)

/-- What the field loop of `mergeServerRecord` assigns. -/
structure MergeLoop (K : Type) where
  fields : PlainObject (Option Json)
  clocks : PlainObject K
  report : PlainObject FieldWinner
  serverChanged : Bool
  clientAccepted : Bool

/-- The loop body of `mergeServerRecord`. -/
def mergeField (server client : PlainState K) (acc : MergeLoop K) (key : String) :
    MergeLoop K :=
  let sClock := server.clock key
  let cClock := client.clock key
  let winner := pickField sClock (server.value key) cClock (client.value key)
  let report := acc.report.set (fun _ => none) key (.value winner)
  if winner = .client then
    { fields := acc.fields.set asPrototype key (client.value key)
      clocks := acc.clocks.set (fun _ => none) key cClock
      report := report
      serverChanged := true
      clientAccepted := true }
  else
    { fields := acc.fields.set asPrototype key (server.value key)
      clocks := acc.clocks.set (fun _ => none) key sClock
      report := report
      serverChanged := acc.serverChanged
      clientAccepted := acc.clientAccepted }

/-- The state after the field loop. -/
def mergeFields (server client : PlainState K) : MergeLoop K :=
  (PlainFields.keys server.toPlainFields client.toPlainFields).foldl (mergeField server client)
    { fields := .empty
      clocks := .empty
      report := .empty
      serverChanged := false
      clientAccepted := false }

/-- Merge a client change into the server's current record state. -/
def mergeServerRecord (server client : PlainState K) : ServerMergeResult K :=
  let loop := mergeFields server client
  let deletedAt := mergeTombstone server.deletedAt client.deletedAt
  { merged :=
      { fields := loop.fields
        clocks := loop.clocks
        nodeId := newestNode server client
        deletedAt := deletedAt }
    report := loop.report
    serverChanged := loop.serverChanged || decide (deletedAt ≠ server.deletedAt)
    clientAccepted :=
      loop.clientAccepted || decide (client.deletedAt.getD 0 > server.deletedAt.getD 0)
    serverAhead := isServerAhead server client }

end Code

/-! ## What the loop computes -/

section Specification

variable [LinearOrder K] [Zero K]

/-- The client wins a field. -/
def clientWins (server client : PlainState K) (key : String) : Bool :=
  PlainFields.rightWins server.toPlainFields client.toPlainFields key

theorem pickField_eq_client_iff (server client : PlainState K) (key : String) :
    pickField (server.clock key) (server.value key) (client.clock key) (client.value key) =
      .client ↔ clientWins server client key = true :=
  pickProperty_eq_right_iff (by decide) (by decide)

/-- The loop body assigns the winner of the field. -/
theorem mergeField_eq (server client : PlainState K) (acc : MergeLoop K) (key : String) :
    (mergeField server client acc key).fields = acc.fields.set asPrototype key
        (PlainFields.mergedValue server.toPlainFields client.toPlainFields key) ∧
      (mergeField server client acc key).clocks = acc.clocks.set (fun _ => none) key
        (PlainFields.mergedClock server.toPlainFields client.toPlainFields key) ∧
      (mergeField server client acc key).serverChanged =
        (acc.serverChanged || clientWins server client key) ∧
      (mergeField server client acc key).clientAccepted =
        (acc.clientAccepted || clientWins server client key) := by
  have hwin := pickField_eq_client_iff server client key
  unfold PlainFields.mergedValue PlainFields.mergedClock
  change _ = acc.fields.set asPrototype key (if clientWins server client key then _ else _) ∧
    _ = acc.clocks.set (fun _ => none) key (if clientWins server client key then _ else _) ∧ _
  by_cases h : clientWins server client key = true
  · simp [mergeField, hwin.mpr h, h]
  · simp [mergeField, if_neg (fun hp => h (hwin.mp hp)), h]

theorem foldl_mergeField (server client : PlainState K) (keys : List String)
    (acc : MergeLoop K) :
    (keys.foldl (mergeField server client) acc).fields = acc.fields.setAll asPrototype
        (PlainFields.mergedValue server.toPlainFields client.toPlainFields) keys ∧
      (keys.foldl (mergeField server client) acc).clocks = acc.clocks.setAll (fun _ => none)
        (PlainFields.mergedClock server.toPlainFields client.toPlainFields) keys ∧
      (keys.foldl (mergeField server client) acc).serverChanged =
        (acc.serverChanged || keys.any (clientWins server client)) ∧
      (keys.foldl (mergeField server client) acc).clientAccepted =
        (acc.clientAccepted || keys.any (clientWins server client)) := by
  induction keys generalizing acc with
  | nil => exact ⟨rfl, rfl, (Bool.or_false _).symm, (Bool.or_false _).symm⟩
  | cons key rest ih =>
      obtain ⟨hfields, hclocks, hchanged, haccepted⟩ := mergeField_eq server client acc key
      obtain ⟨ihf, ihc, ihch, iha⟩ := ih (mergeField server client acc key)
      rw [hfields] at ihf
      rw [hclocks] at ihc
      rw [hchanged, Bool.or_assoc] at ihch
      rw [haccepted, Bool.or_assoc] at iha
      exact ⟨ihf, ihc, ihch, iha⟩

/-! ## What the merge computes -/

/-- The fields and clocks of the merged state. -/
theorem merged_mergeServerRecord (server client : PlainState K) :
    PlainFields.Merged server.toPlainFields client.toPlainFields
      (mergeServerRecord server client).merged.toPlainFields := by
  obtain ⟨hfields, hclocks, -⟩ := foldl_mergeField server client
    (PlainFields.keys server.toPlainFields client.toPlainFields)
    { fields := .empty, clocks := .empty, report := .empty, serverChanged := false,
      clientAccepted := false }
  have hmerged := PlainFields.merged_setAll server.toPlainFields
    client.toPlainFields
  rw [← hfields, ← hclocks] at hmerged
  exact hmerged

/-- A write is due exactly when the client wins a field or the tombstone moves. -/
theorem serverChanged_iff (server client : PlainState K) :
    (mergeServerRecord server client).serverChanged = true ↔
      (∃ key, (key ∈ server.fields.own ∨ key ∈ client.fields.own) ∧
        clientWins server client key = true) ∨
        mergeTombstone server.deletedAt client.deletedAt ≠ server.deletedAt := by
  have hloop : (mergeFields server client).serverChanged = true ↔
      ∃ key, (key ∈ server.fields.own ∨ key ∈ client.fields.own) ∧
        clientWins server client key = true := by
    rw [mergeFields, (foldl_mergeField server client _ _).2.2.1]
    simp [PlainFields.mem_keys]
  rw [← hloop]
  simp [mergeServerRecord]

/-- A change is acknowledged exactly when the client wins a field or brings a newer
tombstone. -/
theorem clientAccepted_iff (server client : PlainState K) :
    (mergeServerRecord server client).clientAccepted = true ↔
      (∃ key, (key ∈ server.fields.own ∨ key ∈ client.fields.own) ∧
        clientWins server client key = true) ∨
        server.deletedAt.getD 0 < client.deletedAt.getD 0 := by
  have hloop : (mergeFields server client).clientAccepted = true ↔
      ∃ key, (key ∈ server.fields.own ∨ key ∈ client.fields.own) ∧
        clientWins server client key = true := by
    rw [mergeFields, (foldl_mergeField server client _ _).2.2.2]
    simp [PlainFields.mem_keys]
  rw [← hloop]
  simp [mergeServerRecord]

end Specification

end Plain

/-! ## Refinement -/

section Refinement

variable [LinearOrder K] [Zero K] {p q : PlainState K} {l r : RecordState K}

theorem mergedDicts_mergeServerRecord (s c : RecordState K) :
    MergedDicts s.fields c.fields (mergeServerRecord s c).merged.fields s.clocks c.clocks
      (mergeServerRecord s c).merged.clocks where
  clocks key := lookup_merged_clocks s c key
  fields key := lookup_merged_fields s c key

/-- A plain state shows a state: the same registers, `__proto__` apart, the same newest clock,
the same tombstone and the same writer. -/
structure PlainState.ShowsState (p : PlainState K) (r : RecordState K) : Prop where
  fields : Shows p.toPlainFields r.fields r.clocks
  newest : p.clocks.mathMax = some r.clocks.mathMax
  nodeId : p.nodeId = r.nodeId
  deletedAt : p.deletedAt = r.deletedAt

/-- A state as it is read, whose fields bear no inherited name. -/
theorem showsState_plain (h : ∀ key ∈ objectPrototype, key ∉ r.fields) : r.plain.ShowsState r where
  fields := .of_dicts (fun key hin hmem => absurd hmem (h key hin)) (h _ (by decide))
  newest := PlainObject.mathMax_ofDict r.clocks
  nodeId := rfl
  deletedAt := rfl

namespace PlainState.ShowsState

theorem newestNode_eq (h : p.ShowsState l) (h' : q.ShowsState r) :
    Plain.newestNode p q = newestNode l r := by
  unfold Plain.newestNode newestNode
  rw [h.newest, h'.newest, h.nodeId, h'.nodeId]
  simp only [ite_numberNe, ite_numberGt]

/-- **Refinement.** States that share their inherited names are merged as the states they
show. -/
theorem mergeServerRecord (h : p.ShowsState l) (h' : q.ShowsState r)
    (hnames : SameNames l.fields r.fields) :
    (Plain.mergeServerRecord p q).merged.ShowsState (mergeServerRecord l r).merged := by
  have hmerged := Plain.merged_mergeServerRecord p q
  have hfields := h.fields.merged h'.fields hnames hmerged (mergedDicts_mergeServerRecord l r)
  exact {
    fields := hfields
    newest := hfields.newest_merged hmerged (mergedDicts_mergeServerRecord l r)
    nodeId := h.newestNode_eq h'
    deletedAt := by
      show pickTomb p.deletedAt q.deletedAt = pickTomb l.deletedAt r.deletedAt
      rw [h.deletedAt, h'.deletedAt] }

/-- Sides without a `__proto__` of their own win the same fields. -/
theorem exists_clientWins_iff (h : p.ShowsState l) (h' : q.ShowsState r)
    (hnames : SameNames l.fields r.fields) (hp : "__proto__" ∉ p.fields.own)
    (hq : "__proto__" ∉ q.fields.own) :
    (∃ key, (key ∈ p.fields.own ∨ key ∈ q.fields.own) ∧ Plain.clientWins p q key = true) ↔
      ∃ key, (key ∈ l.fields ∨ key ∈ r.fields) ∧ ClientWins l r key := by
  refine exists_congr fun key => ?_
  by_cases hkey : key = "__proto__"
  · subst hkey
    exact iff_of_false (fun hand => hand.1.elim hp hq)
      fun hand => hand.1.elim h.fields.noProto h'.fields.noProto
  · rw [h.fields.keys key hkey, h'.fields.keys key hkey]
    exact and_congr_right fun hmem => h.fields.rightWins_iff h'.fields hnames hkey hmem

/-- The flags of the two merges. -/
theorem flags_eq (h : p.ShowsState l) (h' : q.ShowsState r)
    (hnames : SameNames l.fields r.fields) (hp : "__proto__" ∉ p.fields.own)
    (hq : "__proto__" ∉ q.fields.own) :
    (Plain.mergeServerRecord p q).serverChanged = (Server.mergeServerRecord l r).serverChanged ∧
      (Plain.mergeServerRecord p q).clientAccepted =
        (Server.mergeServerRecord l r).clientAccepted ∧
      (Plain.mergeServerRecord p q).serverAhead = (Server.mergeServerRecord l r).serverAhead := by
  have hwins := h.exists_clientWins_iff h' hnames hp hq
  refine ⟨?_, ?_, ?_⟩
  · rw [Bool.eq_iff_iff, Plain.serverChanged_iff, Server.serverChanged_iff, hwins, h.deletedAt,
      h'.deletedAt]
    rfl
  · rw [Bool.eq_iff_iff, Plain.clientAccepted_iff, Server.clientAccepted_iff, hwins, h.deletedAt,
      h'.deletedAt]
  · show Plain.isServerAhead p q = isServerAhead l r
    unfold Plain.isServerAhead isServerAhead
    rw [h.deletedAt, h'.deletedAt]
    refine congrArg (· || _) ?_
    rw [Bool.eq_iff_iff, List.any_eq_true, List.any_eq_true]
    refine exists_congr fun key => ?_
    rw [← AList.mem_keys, ← AList.mem_keys]
    by_cases hkey : key = "__proto__"
    · subst hkey
      exact iff_of_false (fun hand => hp hand.1) fun hand => h.fields.noProto hand.1
    · rw [h.fields.keys key hkey]
      refine and_congr_right fun hmem => ?_
      obtain ⟨hl, hr⟩ := hnames.read hkey (Or.inl hmem)
      rw [h.fields.clock_eq hkey hl, h'.fields.clock_eq hkey hr]
      rfl

end PlainState.ShowsState

end Refinement

/-! ## The two merges -/

section Agreement

variable [LinearOrder K] [Zero K]

/-- Two merge results are the same record: every clock, every field up to its canonical
text, the tombstone, the writer up to `null = ''`, and the verdict of the two `isDeleted`
functions. -/
structure SameRecord (m : PlainState K) (r : PlainRecord K) : Prop where
  clocks : ∀ key, m.clocks.own.lookup key = r.clocks.own.lookup key
  values : ∀ key, (m.register key).2 = (r.register key).2
  deletedAt : m.deletedAt = r.deletedAt
  nodeId : m.nodeId.getD [] = r.nodeId
  isDeleted : Plain.isDeleted m = Crdt.Plain.isDeleted r

/-- The server's merge of a client version and the device's merge of the server's state
compute the same record. -/
def MergesAgree (s : RecordState K) (c : VersionedRecord K) : Prop :=
  ∃ result, Crdt.Plain.mergeRecord c.plain (s.plain.sent c.id) = .ok result ∧
    SameRecord (Plain.mergeServerRecord s.plain (.received c.plain)).merged result.merged

/-- Both sides converge to the same writer. -/
theorem plain_newestNode_eq (s : RecordState K) (c : VersionedRecord K) :
    (Plain.newestNode s.plain (.received c.plain)).getD [] =
      Crdt.Plain.newestNode c.plain (s.plain.sent c.id) := by
  have hs : s.plain.clocks.mathMax = some s.clocks.mathMax := PlainObject.mathMax_ofDict s.clocks
  have hc : c.plain.clocks.mathMax = some c.clocks.mathMax := PlainObject.mathMax_ofDict c.clocks
  have hserver : Plain.newestNode s.plain (.received c.plain) = newestNode s (ofClient c) := by
    unfold Plain.newestNode newestNode
    rw [hs, show (PlainState.received c.plain).clocks.mathMax = _ from hc]
    simp only [ite_numberNe, ite_numberGt]
    rfl
  have hdevice : Crdt.Plain.newestNode c.plain (s.plain.sent c.id) =
      Crdt.newestNode c (s.sent c.id) :=
    Crdt.newestNode_plain c (s.sent c.id)
  rw [hserver, hdevice, newestNode_eq]

/-- **Where the two merges compute the same record**: exactly where every inherited name
among the fields has a clock on both sides or on neither.  The two field sets and clock sets
are arbitrary; `__proto__` is kept by neither merge. -/
theorem mergesAgree_iff (s : RecordState K) (c : VersionedRecord K) :
    MergesAgree s c ↔ ∀ key ∈ objectPrototype, key ≠ "__proto__" →
      (key ∈ s.fields ∨ key ∈ c.fields) → (key ∈ s.clocks ↔ key ∈ c.clocks) := by
  have hserver := Plain.merged_mergeServerRecord s.plain (.received c.plain)
  have hdevice := Crdt.Plain.merged_mergedRecord c.plain (s.plain.sent c.id)
  have hagree := hserver.agree_iff hdevice
  obtain ⟨result, hok, hmerged, -⟩ := Crdt.Plain.mergeRecord_ok
    (show c.plain.id = (s.plain.sent c.id).id from rfl)
  have hkeys : (∀ key, (key ∈ s.plain.fields.own ∨ key ∈ (PlainState.received c.plain).fields.own) →
      key ≠ "__proto__" →
        PlainFields.AgreesAt (.ofDicts s.fields s.clocks) (.ofDicts c.fields c.clocks) key) ↔
      ∀ key ∈ objectPrototype, key ≠ "__proto__" → (key ∈ s.fields ∨ key ∈ c.fields) →
        (key ∈ s.clocks ↔ key ∈ c.clocks) := by
    refine forall_congr' fun key => ?_
    have hmem : key ∈ s.plain.fields.own ∨ key ∈ (PlainState.received c.plain).fields.own ↔
        key ∈ s.fields ∨ key ∈ c.fields :=
      or_congr PlainObject.mem_ofDict PlainObject.mem_ofDict
    rw [hmem, PlainFields.agreesAt_iff]
    tauto
  refine Iff.trans ?_ (hagree.trans hkeys)
  constructor
  · rintro ⟨result', hok', hsame⟩
    obtain rfl := Except.ok.inj (hok.symm.trans hok')
    rw [hmerged] at hsame
    exact fun key => ⟨hsame.clocks key, hsame.values key⟩
  · intro h
    refine ⟨result, hok, ?_⟩
    rw [hmerged]
    have hclocks := fun key => (h key).1
    have hdeletedAt : pickTomb s.deletedAt c.deletedAt = pickTomb c.deletedAt s.deletedAt :=
      pickTomb_comm s.deletedAt c.deletedAt
    refine ⟨hclocks, fun key => (h key).2, hdeletedAt, plain_newestNode_eq s c, ?_⟩
    have hmax := PlainObject.mathMax_congr hclocks
    show (match pickTomb s.deletedAt c.deletedAt with | none => false | some d => _) =
      (match pickTomb c.deletedAt s.deletedAt with | none => false | some d => _)
    rw [hdeletedAt, hmax]
    rfl

end Agreement

/-! ### A field named `constructor` -/

namespace Constructed

/-- The server's state, with a field named `constructor`. -/
def state : RecordState Nat where
  fields := Dict.ofList [("constructor", some (.str (js "x")))]
  clocks := Dict.ofList [("constructor", 5)]
  nodeId := none
  deletedAt := none

/-- A client version without it. -/
def version : VersionedRecord Nat where
  id := js "c1"
  fields := ∅
  clocks := ∅
  nodeId := js "a"
  deletedAt := none

end Constructed

/-- The server takes the client's `Object`, the device the server's text. -/
theorem constructed_merges_disagree : ¬MergesAgree Constructed.state Constructed.version := by
  intro h
  obtain ⟨result, hok, hsame⟩ := h
  obtain ⟨result', hok', hmerged, -⟩ := Crdt.Plain.mergeRecord_ok
    (show Constructed.version.plain.id =
      (Constructed.state.plain.sent Constructed.version.id).id from rfl)
  obtain rfl := Except.ok.inj (hok.symm.trans hok')
  have hclocks := hsame.clocks "constructor"
  rw [hmerged] at hclocks
  revert hclocks
  decide

end FlowLogix.Server
