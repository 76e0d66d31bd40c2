/-
  Mobile/StoreCalls.lean --- the sync engine over either store
  (mobile/src/sync/SyncService.ts with sync/ports.ts and model/watermelonStores.ts).

  The engine knows its store by `getById`, `getPending` and `put`.  Every call of it reads
  a record, awaits, and puts at most one; `OpenCall` is a call between the two, `Client` a
  device with any number of them.  The same code runs over the port's store and over the
  table of cards.

  Over the table a run answers as over the port (`card_store_simulates`): every value the
  engine makes of card-shaped records is card-shaped, and what it makes depends on nothing
  that the table does not keep.
-/
import FlowLogix.Foundation.Simulation
import FlowLogix.Mobile.AwaitPoints
import FlowLogix.Mobile.CardStore

set_option autoImplicit false

namespace FlowLogix.Mobile

open FlowLogix.Foundation FlowLogix.Crdt
open FlowLogix.Server (Clock Failure)

/-! ## Calls -/

/-- A store of records. -/
structure StoreOps (σ : Type) where
  getById : σ → JsString → Option LocalRecord
  getPending : σ → List LocalRecord
  put : σ → LocalRecord → σ

/-- The port's store. -/
def portOps : StoreOps LocalStore where
  getById := LocalStore.getById
  getPending := LocalStore.getPending
  put := LocalStore.put

/-- The table of cards. -/
def cardOps (columns : Columns) : StoreOps CardStore where
  getById := CardStore.getById
  getPending := CardStore.getPending
  put := CardStore.put columns

/-- A call of the engine that has read and not yet written. -/
inductive OpenCall where
  | mutating (id : JsString) (patch : JsObject (Option Json)) (read : Option LocalRecord)
  | removing (read : Option LocalRecord)
  | merging (remote : VersionedRecord Clock) (read : Option LocalRecord)
  /-- the pending records that were pushed, by their ids -/
  | pushing (pending : JsString → Option LocalRecord)
  | acknowledging (pending : JsString → Option LocalRecord) (record : LocalRecord)
      (read : Option LocalRecord)

namespace OpenCall

/-- The record a call puts, if it puts one, and the next stamp of the clock being `now`. -/
def result (nodeId : JsString) (now : Clock) : OpenCall → Except Failure (Option LocalRecord)
  | .mutating id _ none =>
      .error (.error (js "mutate: record \"" ++ id ++ js "\" does not exist — call create()"))
  | .mutating _ patch (some existing) =>
      .ok (some (existing.mutated nodeId now (SyncEngine.patched patch)))
  | .removing read => .ok (read.map fun existing => existing.removed nodeId now)
  | .merging remote none => .ok (some { remote with pending := false })
  | .merging remote (some loc) => do
      let result ← (mergeRecord loc.toVersionedRecord remote).mapError fun e => .error e.message
      let stillPending := loc.pending && localIsAhead loc.toVersionedRecord remote
      if !result.changed && stillPending == loc.pending then return none
      return some { result.merged with pending := stillPending }
  | .pushing _ => .ok none
  | .acknowledging _ record read => .ok <| read.bind fun current =>
      if sameClocks current.toVersionedRecord record.toVersionedRecord then
        some { current with pending := false }
      else none

/-- The call takes a stamp of the clock. -/
def stamps : OpenCall → Bool
  | .mutating _ _ (some _) | .removing (some _) => true
  | _ => false

/-- What is left of a call that has written. -/
def next : OpenCall → Option OpenCall
  | .acknowledging pending _ _ => some (.pushing pending)
  | _ => none

end OpenCall

/-! ## Devices -/

/-- A device and its open calls. -/
structure Client (σ ι : Type) where
  nodeId : JsString
  clock : HybridClock
  store : σ
  calls : ι → Option OpenCall

/-- What can happen next; `wall` is the reading of `Date.now()`. -/
inductive ClientAction (ι : Type) where
  | create (id : JsString) (fields : JsObject (Option Json)) (wall : Nat)
  | mutate (call : ι) (id : JsString) (patch : JsObject (Option Json))
  | remove (call : ι) (id : JsString)
  | applyRemote (call : ι) (remote : VersionedRecord Clock)
  /-- the records that are pending are pushed -/
  | push (call : ι)
  /-- the server accepted the pushed record -/
  | acknowledge (call : ι) (id : JsString)
  | write (call : ι) (wall : Nat)
  /-- the rest of a push, or a call whose transport failed, is given up -/
  | leave (call : ι)

namespace Client

variable {σ ι : Type} [DecidableEq ι]

/-- A call is open. -/
def opened (client : Client σ ι) (call : ι) (c : OpenCall) : Option (Client σ ι) :=
  match client.calls call with
  | some _ => none
  | none => some { client with calls := Function.update client.calls call (some c) }

/-- One step over a store. -/
def step (ops : StoreOps σ) (client : Client σ ι) : ClientAction ι → Option (Client σ ι)
  | .create id fields wall =>
      let clock := client.clock.now wall
      some { client with
        clock := clock
        store := ops.put client.store (.created id client.nodeId clock.last fields) }
  | .mutate call id patch =>
      client.opened call (.mutating id patch (ops.getById client.store id))
  | .remove call id => client.opened call (.removing (ops.getById client.store id))
  | .applyRemote call remote =>
      client.opened call (.merging remote (ops.getById client.store remote.id))
  | .push call =>
      client.opened call (.pushing fun id =>
        (ops.getPending client.store).find? fun record => record.id = id)
  | .acknowledge call id =>
      match client.calls call with
      | some (.pushing pending) =>
          (pending id).map fun record =>
            { client with
              calls := Function.update client.calls call
                (some (.acknowledging pending record (ops.getById client.store id))) }
      | _ => none
  | .write call wall =>
      (client.calls call).map fun c =>
        let clock := if c.stamps then client.clock.now wall else client.clock
        match c.result client.nodeId clock.last with
        | .error _ => { client with calls := Function.update client.calls call none }
        | .ok written =>
            { client with
              clock := clock
              store := written.elim client.store (ops.put client.store)
              calls := Function.update client.calls call c.next }
  | .leave call =>
      (client.calls call).map fun _ =>
        { client with calls := Function.update client.calls call none }

end Client

/-! ## The calls of the engine -/

section Calls

variable {nodeId : JsString} {now : Clock}

/-- `mutate` reads, and puts what the call makes of it. -/
theorem mutate_eq_result (engine : SyncEngine) (wall : Nat) (id : JsString)
    (patch : JsObject (Option Json)) : engine.mutate wall id patch =
      ((OpenCall.mutating id patch (engine.store.getById id)).result engine.nodeId
        (engine.clock.now wall).last).map fun written =>
          { engine with
            clock := engine.clock.now wall
            store := written.elim engine.store engine.store.put } := by
  rw [SyncEngine.mutate]
  cases engine.store.getById id <;> rfl

/-- `remove` reads, and puts what the call makes of it. -/
theorem remove_eq_result (engine : SyncEngine) (wall : Nat) (id : JsString) :
    .ok (engine.remove wall id).store =
      ((OpenCall.removing (engine.store.getById id)).result engine.nodeId
        (engine.clock.now wall).last).map fun written =>
          written.elim engine.store engine.store.put := by
  rw [SyncEngine.remove]
  cases engine.store.getById id <;> rfl

/-- `applyRemote` reads, and puts what the call makes of it. -/
theorem applyRemote_eq_result (store : LocalStore) (remote : VersionedRecord Clock) :
    (applyRemote store remote).map Prod.fst =
      ((OpenCall.merging remote (store.getById remote.id)).result nodeId now).map fun written =>
        written.elim store store.put := by
  rw [applyRemote]
  cases store.getById remote.id with
  | none => rfl
  | some loc =>
      simp only [OpenCall.result]
      cases mergeRecord loc.toVersionedRecord remote with
      | error e => rfl
      | ok result =>
          simp only [Except.mapError, bind, Except.bind]
          split <;> rfl

/-- An accepted record is read again, and put as the call makes of it. -/
theorem acknowledge_eq_result {accepted : List JsString} {record : LocalRecord}
    (store : LocalStore) (pending : JsString → Option LocalRecord)
    (haccepted : record.id ∈ accepted) : .ok (acknowledge accepted store record) =
      ((OpenCall.acknowledging pending record (store.getById record.id)).result nodeId now).map
        fun written => written.elim store store.put := by
  rw [acknowledge, if_neg (not_not.mpr haccepted)]
  cases store.getById record.id with
  | none => rfl
  | some current =>
      simp only [OpenCall.result, Option.bind_some]
      split <;> rfl

end Calls

/-! ## What depends on the kept part only -/

namespace SameVersion

variable {r r' loc loc' remote : VersionedRecord Clock}

theorem refl (r : VersionedRecord Clock) : SameVersion r r :=
  ⟨rfl, fun _ => rfl, fun _ => rfl, rfl, rfl⟩

theorem mem_fields (h : SameVersion r r') (key : String) : key ∈ r.fields ↔ key ∈ r'.fields := by
  rw [← AList.lookup_isSome, ← AList.lookup_isSome, h.fields]

theorem readField_eq (h : SameVersion r r') (key : String) :
    readField r.fields key = readField r'.fields key := by
  rw [readField, readField, h.fields]

theorem stamp_eq (h : SameVersion r r') (key : String) : r.stamp key = r'.stamp key := by
  rw [VersionedRecord.stamp, VersionedRecord.stamp, stampOf, stampOf, h.clocks, h.readField_eq]

theorem maxFieldClock_eq (h : SameVersion r r') : maxFieldClock r = maxFieldClock r' := by
  refine eq_of_forall_ge_iff fun x => ?_
  simp only [maxFieldClock, mathMax_le_iff, h.clocks]

theorem newestNode_eq (h : SameVersion loc loc') (remote : VersionedRecord Clock) :
    newestNode loc remote = newestNode loc' remote := by
  simp only [newestNode, h.maxFieldClock_eq, h.nodeId]

theorem remoteWins_iff (h : SameVersion loc loc') (key : String) :
    RemoteWins loc remote key ↔ RemoteWins loc' remote key := by
  rw [RemoteWins, RemoteWins, h.stamp_eq]

/-- A merge. -/
theorem mergedRecord (h : SameVersion loc loc') (remote : VersionedRecord Clock) :
    SameVersion (mergedRecord loc remote) (mergedRecord loc' remote) where
  id := h.id
  fields key := by
    simp only [Crdt.mergedRecord, lookup_mergeFields_fields, h.mem_fields, h.remoteWins_iff,
      h.readField_eq]
  clocks key := by
    simp only [readClock, Crdt.mergedRecord, lookup_mergeFields_clocks, h.mem_fields,
      h.remoteWins_iff]
    have hclock := h.clocks key
    rw [readClock, readClock] at hclock
    split
    · split
      · rfl
      · exact hclock
    · rfl
  nodeId := h.newestNode_eq remote
  deletedAt := by
    simp only [Crdt.mergedRecord, mergeDeletion, h.deletedAt]

/-- Whether a merge changes anything. -/
theorem changed_eq (h : SameVersion loc loc') (remote : VersionedRecord Clock) :
    (mergeFields loc remote).changed = (mergeFields loc' remote).changed := by
  rw [Bool.eq_iff_iff, mergeFields_changed_iff, mergeFields_changed_iff]
  simp only [h.mem_fields, h.remoteWins_iff]

/-- Whether the local side is ahead of one without negative clocks. -/
theorem localIsAhead_eq (h : SameVersion loc loc')
    (hremote : ∀ key, 0 ≤ readClock remote.clocks key) :
    localIsAhead loc remote = localIsAhead loc' remote := by
  have hiff : ∀ r : VersionedRecord Clock, localIsAhead r remote = true ↔
      (∃ key, readClock remote.clocks key < readClock r.clocks key) ∨
        remote.deletedAt.getD 0 < r.deletedAt.getD 0 := by
    intro r
    simp only [localIsAhead, Bool.or_eq_true, List.any_eq_true, decide_eq_true_eq, gt_iff_lt]
    refine or_congr_left (exists_congr fun key => and_iff_right_of_imp fun hlt => ?_)
    by_contra hkey
    rw [readClock_of_not_mem hkey] at hlt
    exact absurd hlt (not_lt.mpr (hremote key))
  rw [Bool.eq_iff_iff, hiff, hiff]
  simp only [h.clocks, h.deletedAt]

/-- Whether nothing was stamped between two versions. -/
theorem sameClocks_eq (h : SameVersion loc loc') (h' : SameVersion r r') :
    sameClocks loc r = sameClocks loc' r' := by
  rw [Bool.eq_iff_iff, sameClocks_iff, sameClocks_iff]
  simp only [h.clocks, h.deletedAt, h'.clocks, h'.deletedAt]

/-- The shape of a card. -/
theorem cardShaped (h : SameVersion r r') (hr : CardShaped r) : CardShaped r' where
  fields key := (h.mem_fields key).symm.trans (hr.fields key)
  fits key value hvalue := hr.fits key value ((h.fields key).trans hvalue)
  clocks key hkey := (h.clocks key).symm.trans (hr.clocks key hkey)
  nodeId := by rw [← h.nodeId, hr.nodeId]

end SameVersion

namespace LocalRecord.Same

variable {a b c : LocalRecord} {nodeId : JsString} {now : Clock} {patch : JsObject Json}

theorem refl (r : LocalRecord) : r.Same r := ⟨.refl r.toVersionedRecord, rfl⟩

theorem symm (h : a.Same b) : b.Same a where
  id := h.id.symm
  fields key := (h.fields key).symm
  clocks key := (h.clocks key).symm
  nodeId := h.nodeId.symm
  deletedAt := h.deletedAt.symm
  pending := h.pending.symm

theorem trans (h : a.Same b) (h' : b.Same c) : a.Same c where
  id := h.id.trans h'.id
  fields key := (h.fields key).trans (h'.fields key)
  clocks key := (h.clocks key).trans (h'.clocks key)
  nodeId := h.nodeId.trans h'.nodeId
  deletedAt := h.deletedAt.trans h'.deletedAt
  pending := h.pending.trans h'.pending

theorem mutated (h : a.Same b) :
    (a.mutated nodeId now patch).Same (b.mutated nodeId now patch) where
  id := h.id
  fields key := by
    simp only [LocalRecord.mutated, Dict.lookup_assign, h.fields]
  clocks key := by
    rw [readClock_mutated, readClock_mutated, h.clocks]
  nodeId := rfl
  deletedAt := h.deletedAt
  pending := rfl

theorem removed (h : a.Same b) : (a.removed nodeId now).Same (b.removed nodeId now) :=
  ⟨⟨h.id, h.fields, h.clocks, rfl, rfl⟩, rfl⟩

end LocalRecord.Same

/-! ## What keeps the shape of a card -/

namespace CardShaped

variable {existing : LocalRecord} {loc remote : VersionedRecord Clock} {id nodeId : JsString}
  {now : Clock}

theorem created {fields : JsObject (Option Json)} (hnode : trim nodeId = nodeId)
    (hkeys : ∀ key, key ∈ fields ↔ key ∈ cardFields)
    (hfits : ∀ key value, fields.lookup key = some value → Fits key value) :
    CardShaped (LocalRecord.created id nodeId now fields).toVersionedRecord where
  fields := hkeys
  fits := hfits
  clocks key hkey := by
    rw [LocalRecord.readClock_created, if_neg (mt (hkeys key).mp hkey)]
  nodeId := hnode

theorem mutated {patch : JsObject Json} (h : CardShaped existing.toVersionedRecord)
    (hnode : trim nodeId = nodeId)
    (hpatch : ∀ key value, patch.lookup key = some value →
      key ∈ cardFields ∧ Fits key (some value)) :
    CardShaped (existing.mutated nodeId now patch).toVersionedRecord where
  fields key := by
    rw [LocalRecord.mem_mutated_fields, h.fields, or_iff_left_of_imp]
    intro hkey
    obtain ⟨value, hvalue⟩ := Option.isSome_iff_exists.mp (AList.lookup_isSome.mpr hkey)
    exact (hpatch key value hvalue).1
  fits key value hvalue := by
    rw [LocalRecord.mutated, Dict.lookup_assign, Dict.lookup_mapValues] at hvalue
    cases hlookup : patch.lookup key with
    | none =>
        rw [hlookup] at hvalue
        exact h.fits key value hvalue
    | some v =>
        rw [hlookup] at hvalue
        exact Option.some.inj hvalue ▸ (hpatch key v hlookup).2
  clocks key hkey := by
    rw [LocalRecord.readClock_mutated, h.clocks key hkey, if_neg]
    intro hmem
    obtain ⟨value, hvalue⟩ := Option.isSome_iff_exists.mp (AList.lookup_isSome.mpr hmem)
    exact hkey (hpatch key value hvalue).1
  nodeId := hnode

theorem removed (h : CardShaped existing.toVersionedRecord) (hnode : trim nodeId = nodeId) :
    CardShaped (existing.removed nodeId now).toVersionedRecord :=
  ⟨h.fields, h.fits, h.clocks, hnode⟩

/-- The value of a field of either side fits. -/
theorem fits_readField (h : CardShaped loc) {key : String} (hkey : key ∈ cardFields) :
    Fits key (readField loc.fields key) := by
  obtain ⟨value, hvalue⟩ := Option.isSome_iff_exists.mp
    (AList.lookup_isSome.mpr ((h.fields key).mpr hkey))
  rw [readField_of_lookup hvalue]
  exact h.fits key value hvalue

theorem mergedRecord (hl : CardShaped loc) (hr : CardShaped remote) :
    CardShaped (mergedRecord loc remote) where
  fields key := by
    rw [mem_mergedRecord_fields, hl.fields, hr.fields, or_self]
  fits key value hvalue := by
    rw [Crdt.mergedRecord, lookup_mergeFields_fields] at hvalue
    split at hvalue
    · rename_i hmem
      have hkey : key ∈ cardFields := by
        rw [hl.fields, hr.fields, or_self] at hmem
        exact hmem
      rw [← Option.some.inj hvalue]
      split
      · exact hr.fits_readField hkey
      · exact hl.fits_readField hkey
    · cases hvalue
  clocks key hkey := by
    refine readClock_of_not_mem fun hmem => hkey ?_
    rw [mem_mergedRecord_clocks, hl.fields, hr.fields, or_self] at hmem
    exact hmem
  nodeId := by
    show trim (newestNode loc remote) = newestNode loc remote
    unfold newestNode
    simp only
    split_ifs
    · exact hl.nodeId
    · exact hr.nodeId
    · exact hl.nodeId
    · exact hr.nodeId

end CardShaped

/-! ## Two devices alike -/

/-- What is related to something is something. -/
theorem exists_of_rel {α β : Type} {R : α → β → Prop} {x : α} {o : Option β}
    (h : Option.Rel R (some x) o) : ∃ y, o = some y ∧ R x y := by
  cases h with
  | some hxy => exact ⟨_, rfl, hxy⟩

/-- Two reads of a record: the same, and of a card if of anything. -/
def Alike : Option LocalRecord → Option LocalRecord → Prop :=
  Option.Rel fun r r' => r.Same r' ∧ CardShaped r'.toVersionedRecord

/-- A change with the shape of a card and no negative clocks. -/
def CardChange (remote : VersionedRecord Clock) : Prop :=
  CardShaped remote ∧ ∀ key, 0 ≤ readClock remote.clocks key

/-- The fields a patch sets are a card's, with values that fit. -/
def CardPatch (patch : JsObject (Option Json)) : Prop :=
  ∀ key value, (SyncEngine.patched patch).lookup key = some value →
    key ∈ cardFields ∧ Fits key (some value)

/-- Two calls that have read alike. -/
inductive OpenCall.Alike : OpenCall → OpenCall → Prop
  | mutating {id : JsString} {patch : JsObject (Option Json)} {read read' : Option LocalRecord}
      (hpatch : CardPatch patch) (h : Mobile.Alike read read') :
      Alike (.mutating id patch read) (.mutating id patch read')
  | removing {read read' : Option LocalRecord} (h : Mobile.Alike read read') :
      Alike (.removing read) (.removing read')
  | merging {remote : VersionedRecord Clock} {read read' : Option LocalRecord}
      (hremote : CardChange remote) (h : Mobile.Alike read read') :
      Alike (.merging remote read) (.merging remote read')
  | pushing {pending pending' : JsString → Option LocalRecord}
      (h : ∀ id, Mobile.Alike (pending id) (pending' id)) :
      Alike (.pushing pending) (.pushing pending')
  | acknowledging {pending pending' : JsString → Option LocalRecord}
      {record record' : LocalRecord} {read read' : Option LocalRecord}
      (hpending : ∀ id, Mobile.Alike (pending id) (pending' id)) (hrecord : record.Same record')
      (h : Mobile.Alike read read') :
      Alike (.acknowledging pending record read) (.acknowledging pending' record' read')

/-- The same outcome, and alike what is put. -/
inductive ResultAlike : Except Failure (Option LocalRecord) →
    Except Failure (Option LocalRecord) → Prop
  | error (failure : Failure) : ResultAlike (.error failure) (.error failure)
  | ok {written written' : Option LocalRecord} (h : Alike written written') :
      ResultAlike (.ok written) (.ok written')

/-- A version that is merged into a card. -/
theorem merging_alike {remote : VersionedRecord Clock} {loc loc' : LocalRecord}
    {nodeId : JsString} {now : Clock} (hremote : CardChange remote) (hsame : loc.Same loc')
    (hshape : CardShaped loc'.toVersionedRecord) :
    ResultAlike ((OpenCall.merging remote (some loc)).result nodeId now)
      ((OpenCall.merging remote (some loc')).result nodeId now) := by
  obtain ⟨hversion, hpending⟩ := hsame
  by_cases hid : loc.id = remote.id
  · obtain ⟨result, hmerge, hmerged, hchanged⟩ := mergeRecord_ok hid
    obtain ⟨result', hmerge', hmerged', hchanged'⟩ := mergeRecord_ok (hversion.id ▸ hid)
    have hflag : result.changed = result'.changed := by
      rw [hchanged, hchanged', hversion.changed_eq, hversion.newestNode_eq, hversion.nodeId,
        mergeDeletion, mergeDeletion, hversion.deletedAt]
    have hahead := hversion.localIsAhead_eq hremote.2
    simp only [OpenCall.result, hmerge, hmerge', Except.mapError, bind, Except.bind, hflag,
      hpending, hahead]
    split
    · exact .ok .none
    · refine .ok (.some ⟨⟨?_, rfl⟩, ?_⟩)
      · rw [hmerged, hmerged']
        exact hversion.mergedRecord remote
      · rw [hmerged']
        exact hshape.mergedRecord hremote.1
  · have hid' : loc'.id ≠ remote.id := hversion.id ▸ hid
    simp only [OpenCall.result, mergeRecord, if_pos hid', hversion.id]
    exact .error _

/-- Calls that have read alike put alike. -/
theorem OpenCall.Alike.result {c c' : OpenCall} {nodeId : JsString} {now : Clock}
    (h : OpenCall.Alike c c') (hnode : trim nodeId = nodeId) :
    ResultAlike (c.result nodeId now) (c'.result nodeId now) := by
  cases h with
  | mutating hpatch hread =>
      cases hread with
      | none => exact .error _
      | some h => exact .ok (.some ⟨h.1.mutated, h.2.mutated hnode hpatch⟩)
  | removing hread =>
      cases hread with
      | none => exact .ok .none
      | some h => exact .ok (.some ⟨h.1.removed, h.2.removed hnode⟩)
  | merging hremote hread =>
      cases hread with
      | none => exact .ok (.some ⟨.refl _, hremote.1⟩)
      | some h => exact merging_alike hremote h.1 h.2
  | pushing hpending => exact .ok .none
  | acknowledging hpending hrecord hread =>
      cases hread with
      | none => exact .ok .none
      | some h =>
          have hsame := h.1.toSameVersion.sameClocks_eq hrecord.toSameVersion
          simp only [OpenCall.result, Option.bind_some, hsame]
          split
          · exact .ok (.some ⟨⟨h.1.toSameVersion, rfl⟩, h.2⟩)
          · exact .ok .none

/-- They take stamps alike, and leave alike calls. -/
theorem OpenCall.Alike.stamps {c c' : OpenCall} (h : OpenCall.Alike c c') :
    c.stamps = c'.stamps := by
  cases h with
  | mutating hpatch hread => cases hread <;> rfl
  | removing hread => cases hread <;> rfl
  | merging hremote hread => rfl
  | pushing hpending => rfl
  | acknowledging hpending hrecord hread => rfl

theorem OpenCall.Alike.next {c c' : OpenCall} (h : OpenCall.Alike c c') :
    Option.Rel OpenCall.Alike c.next c'.next := by
  cases h with
  | mutating hpatch hread => exact .none
  | removing hread => exact .none
  | merging hremote hread => exact .none
  | pushing hpending => exact .none
  | acknowledging hpending hrecord hread => exact .some (.pushing hpending)

/-- Of alike reads the same are pending. -/
theorem Alike.filter {read read' : Option LocalRecord} (h : Alike read read') :
    Alike (read.filter (·.pending)) (read'.filter (·.pending)) := by
  cases h with
  | none => exact .none
  | @some record record' h =>
      rw [Option.filter_some, Option.filter_some, h.1.pending]
      split
      · exact .some h
      · exact .none

/-- What is pending under an id is what is stored under it, if that is pending. -/
theorem find_pending {records : List LocalRecord} (getById : JsString → Option LocalRecord)
    (hkeyed : ∀ id record, getById id = some record → record.id = id)
    (hmem : ∀ record, record ∈ records ↔
      getById record.id = some record ∧ record.pending = true) (id : JsString) :
    (records.find? fun record => record.id = id) = (getById id).filter (·.pending) := by
  cases hfind : records.find? fun record => record.id = id with
  | some record =>
      obtain ⟨hget, hpending⟩ := (hmem record).mp (List.mem_of_find?_eq_some hfind)
      have hid : record.id = id := by simpa using List.find?_some hfind
      rw [← hid, hget, Option.filter_some_pos hpending]
  | none =>
      rw [List.find?_eq_none] at hfind
      refine (Option.filter_eq_none_iff.mpr fun record hget hpending => ?_).symm
      have hid := hkeyed id record hget
      exact hfind record ((hmem record).mpr ⟨hid ▸ hget, hpending⟩) (decide_eq_true hid)

/-- Two devices that have stored and read alike. -/
structure Client.Sim {ι : Type} (a : Client CardStore ι) (b : Client LocalStore ι) : Prop where
  nodeId : a.nodeId = b.nodeId
  trimmed : trim b.nodeId = b.nodeId
  clock : a.clock = b.clock
  store : ∀ id, Alike (a.store.getById id) (b.store.getById id)
  calls : ∀ call, Option.Rel OpenCall.Alike (a.calls call) (b.calls call)

/-- Stores alike after alike records are put. -/
theorem put_alike {columns : Columns} (hdoc : columns.Documented) {store : CardStore}
    {store' : LocalStore} (h : ∀ id, Alike (store.getById id) (store'.getById id))
    {record record' : LocalRecord} (hsame : record.Same record')
    (hshape : CardShaped record'.toVersionedRecord) (id : JsString) :
    Alike ((store.put columns record).getById id) ((store'.put record').getById id) := by
  rw [CardStore.getById_put, LocalStore.getById_put, hsame.id]
  split
  · rename_i hid
    have hread := (same_read_iff hdoc .blank record).mpr
      (hsame.symm.toSameVersion.cardShaped hshape)
    rw [hid, ← hsame.id]
    exact .some ⟨hread.trans hsame, hshape⟩
  · exact h id

/-- What is created, patched and pulled has the shape of a card. -/
def ClientAction.OfCards {ι : Type} : ClientAction ι → Prop
  | .create _ fields _ => (∀ key, key ∈ fields ↔ key ∈ cardFields) ∧
      ∀ key value, fields.lookup key = some value → Fits key value
  | .mutate _ _ patch => CardPatch patch
  | .applyRemote _ remote => CardChange remote
  | _ => True

namespace Client

variable {ι : Type} [DecidableEq ι] {columns : Columns}

namespace Sim

variable {a : Client CardStore ι} {b : Client LocalStore ι}

omit [DecidableEq ι] in
/-- What is pending under an id. -/
theorem pending (h : Sim a b) (id : JsString) :
    Alike (a.store.getPending.find? fun record => record.id = id)
      (b.store.getPending.find? fun record => record.id = id) := by
  rw [find_pending a.store.getById (fun _ _ => CardStore.id_of_getById)
      (fun _ => CardStore.mem_getPending),
    find_pending b.store.getById (fun _ _ => LocalStore.id_of_getById)
      (fun _ => LocalStore.mem_getPending)]
  exact (h.store id).filter

/-- A call that changes alike. -/
theorem update (h : Sim a b) {o o' : Option OpenCall} (ho : Option.Rel OpenCall.Alike o o')
    (call i : ι) : Option.Rel OpenCall.Alike (Function.update a.calls call o i)
      (Function.update b.calls call o' i) := by
  by_cases hi : i = call
  · subst hi
    rw [Function.update_self, Function.update_self]
    exact ho
  · rw [Function.update_of_ne hi, Function.update_of_ne hi]
    exact h.calls i

omit [DecidableEq ι] in
/-- A call that is open on one device is open on the other. -/
theorem exists_call (h : Sim a b) {call : ι} {c : OpenCall} (hcall : a.calls call = some c) :
    ∃ c', b.calls call = some c' ∧ OpenCall.Alike c c' := by
  have hrel := h.calls call
  rw [hcall] at hrel
  exact exists_of_rel hrel

/-- A call that is opened after alike reads. -/
theorem opened (h : Sim a b) {c c' : OpenCall} (hc : OpenCall.Alike c c') {call : ι}
    {a' : Client CardStore ι} (hstep : a.opened call c = some a') :
    ∃ b', b.opened call c' = some b' ∧ Sim a' b' := by
  have hcall := h.calls call
  unfold Client.opened at hstep ⊢
  cases hcall' : a.calls call with
  | some _ => simp [hcall'] at hstep
  | none =>
      rw [hcall'] at hcall hstep
      cases hb : b.calls call with
      | some _ =>
          rw [hb] at hcall
          cases hcall
      | none =>
          obtain rfl := Option.some.inj hstep
          exact ⟨_, rfl, h.nodeId, h.trimmed, h.clock, h.store, h.update (.some hc) call⟩

/-- A write of alike calls. -/
theorem write (hdoc : columns.Documented) (h : Sim a b) {call : ι} {wall : Nat}
    {a' : Client CardStore ι} (hstep : a.step (cardOps columns) (.write call wall) = some a') :
    ∃ b', b.step portOps (.write call wall) = some b' ∧ Sim a' b' := by
  obtain ⟨c, hopen, rfl⟩ := Option.map_eq_some_iff.mp hstep
  obtain ⟨c', hopen', hc⟩ := h.exists_call hopen
  refine ⟨_, Option.map_eq_some_iff.mpr ⟨c', hopen', rfl⟩, ?_⟩
  have htrim : trim a.nodeId = a.nodeId := h.nodeId ▸ h.trimmed
  simp only [← hc.stamps, ← h.nodeId, ← h.clock]
  generalize (if c.stamps then a.clock.now wall else a.clock) = clock
  have hresult : ResultAlike (c.result a.nodeId clock.last) (c'.result a.nodeId clock.last) :=
    hc.result htrim
  generalize c.result a.nodeId clock.last = r at hresult ⊢
  generalize c'.result a.nodeId clock.last = r' at hresult ⊢
  cases hresult with
  | error failure => exact ⟨rfl, htrim, rfl, h.store, h.update .none call⟩
  | ok hwritten =>
      refine ⟨rfl, htrim, rfl, ?_, h.update hc.next call⟩
      cases hwritten with
      | none => exact h.store
      | some hput => exact put_alike hdoc h.store hput.1 hput.2

end Sim

/-- Every step over the table is matched over the port. -/
theorem simulates (hdoc : columns.Documented) :
    Simulates (Client.step (ι := ι) (cardOps columns)) (Client.step portOps) Sim
      ClientAction.OfCards := by
  intro a b action a' hok h hstep
  cases action with
  | create id fields wall =>
      obtain rfl := Option.some.inj hstep
      obtain ⟨hkeys, hfits⟩ := hok
      refine ⟨_, rfl, h.nodeId, h.trimmed, ?_, ?_, h.calls⟩
      · rw [h.clock]
      · have hshape : CardShaped (LocalRecord.created id b.nodeId (b.clock.now wall).last
            fields).toVersionedRecord := .created h.trimmed hkeys hfits
        have hput := put_alike hdoc h.store (.refl _) hshape
        simp only [cardOps, portOps, h.nodeId, h.clock]
        exact hput
  | mutate call id patch => exact h.opened (.mutating hok (h.store id)) hstep
  | remove call id => exact h.opened (.removing (h.store id)) hstep
  | applyRemote call remote => exact h.opened (.merging hok (h.store remote.id)) hstep
  | push call => exact h.opened (.pushing h.pending) hstep
  | acknowledge call id =>
      simp only [Client.step] at hstep ⊢
      cases hopen : a.calls call with
      | none => simp [hopen] at hstep
      | some c =>
          obtain ⟨c', hopen', hc⟩ := h.exists_call hopen
          rw [hopen] at hstep
          cases hc with
          | pushing hpending =>
              obtain ⟨record, hrecord, rfl⟩ := Option.map_eq_some_iff.mp hstep
              have hpushed := hpending id
              rw [hrecord] at hpushed
              obtain ⟨record', hrecord', hsame, -⟩ := exists_of_rel hpushed
              simp only [hopen', hrecord', Option.map_some]
              refine ⟨_, rfl, h.nodeId, h.trimmed, h.clock, h.store, ?_⟩
              exact h.update (.some (.acknowledging hpending hsame (h.store id))) call
          | mutating | removing | merging | acknowledging => cases hstep
  | write call wall => exact h.write hdoc hstep
  | leave call =>
      obtain ⟨c, hopen, rfl⟩ := Option.map_eq_some_iff.mp hstep
      obtain ⟨c', hopen', -⟩ := h.exists_call hopen
      exact ⟨_, Option.map_eq_some_iff.mpr ⟨c', hopen', rfl⟩, h.nodeId, h.trimmed, h.clock, h.store,
        h.update .none call⟩

/-- A device with an empty store. -/
def fresh {σ : Type} (nodeId : JsString) (last : Nat) (store : σ) : Client σ ι where
  nodeId := nodeId
  clock := { last := last }
  store := store
  calls := fun _ => none

/-- **The table stands in for the port's store.** Whatever calls of the engine are open at a
time and however their reads and writes interleave, as long as what is created, patched and
pulled has the shape of a card, a run over the table of cards is a run over the port's store:
at every point both hold the same records, and the same of them are pending. -/
theorem card_store_simulates (hdoc : columns.Documented) {nodeId : JsString}
    (hnode : trim nodeId = nodeId) {last : Nat} {a : Client CardStore ι}
    {trace : List (Client CardStore ι × ClientAction ι)}
    (run : Steps (Client.step (cardOps columns)) (fresh nodeId last CardStore.empty) trace a)
    (hcards : ∀ e ∈ trace, e.2.OfCards) :
    ∃ trace' b, Steps (Client.step portOps) (fresh nodeId last LocalStore.empty) trace' b ∧
      Sim a b ∧ Matched Sim trace trace' := by
  refine (simulates hdoc).run run hcards ⟨rfl, hnode, rfl, fun id => ?_, fun call => .none⟩
  exact .none

end Client

namespace CardRun

/-- The package's columns. -/
def sanitized : Columns where
  text
    | some (.str s) => trim s
    | _ => []
  optionalText
    | some (.str s) => some (trim s)
    | _ => none
  flag
    | some (.bool b) => b
    | _ => false
  number x := x.getD 0
  optionalNumber x := x

theorem sanitized_documented : sanitized.Documented :=
  ⟨fun _ => rfl, fun _ => rfl, rfl, fun _ => rfl, fun _ => rfl, rfl, fun _ => rfl⟩

/-- A new card. -/
def fields : JsObject (Option Json) := Dict.ofList
  [("listId", some (.str (js "l"))), ("title", some (.str (js "Call"))),
    ("description", some .null), ("positionIdx", some (.str (js "M"))),
    ("isComplete", some (.bool false))]

/-- Its title is changed. -/
def patch : JsObject (Option Json) := Dict.ofList [("title", some (.str (js "Call back")))]

/-- The card is made and pushed, and edited before the push is acknowledged. -/
def actions : List (ClientAction Nat) :=
  [.create (js "c") fields 1, .push 0, .mutate 1 (js "c") patch, .write 1 2,
    .acknowledge 0 (js "c"), .write 0 3]

theorem lookup_fields (key : String) : fields.lookup key =
    if key = "isComplete" then some (some (.bool false))
    else if key = "positionIdx" then some (some (.str (js "M")))
    else if key = "description" then some (some .null)
    else if key = "title" then some (some (.str (js "Call")))
    else if key = "listId" then some (some (.str (js "l")))
    else none := by
  simp only [fields, Dict.ofList, List.foldl_cons, List.foldl_nil, Dict.lookup_insert_eq,
    AList.lookup_empty]

theorem fields_keys (key : String) : key ∈ fields ↔ key ∈ cardFields := by
  rw [← AList.lookup_isSome, lookup_fields]
  simp only [cardFields, List.mem_cons, List.not_mem_nil, or_false]
  split_ifs <;> simp_all

theorem fields_fit (key : String) (value : Option Json) (h : fields.lookup key = some value) :
    Fits key value := by
  have hkey : key ∈ cardFields :=
    (fields_keys key).mp (AList.lookup_isSome.mp (Option.isSome_of_eq_some h))
  rw [lookup_fields] at h
  rcases cardFields_cases key with rfl | rfl | rfl | rfl | rfl | hnot
  · exact ⟨js "l", (Option.some.inj h).symm, by decide⟩
  · exact ⟨js "Call", (Option.some.inj h).symm, by decide⟩
  · exact Or.inl (Option.some.inj h).symm
  · exact ⟨js "M", (Option.some.inj h).symm, by decide⟩
  · exact ⟨false, (Option.some.inj h).symm⟩
  · exact absurd hkey hnot

theorem patch_fits : CardPatch patch := by
  intro key value h
  rw [SyncEngine.patched, Dict.lookup_filterMapValues, patch, Dict.ofList, List.foldl_cons,
    List.foldl_nil, Dict.lookup_insert_eq] at h
  split at h
  · rename_i hkey
    subst hkey
    exact ⟨by decide, js "Call back", h.symm, by decide⟩
  · simp at h

theorem ofCards : ∀ action ∈ actions, action.OfCards := by
  simp only [actions, List.forall_mem_cons, List.not_mem_nil, false_implies, implies_true,
    and_true]
  exact ⟨⟨fields_keys, fields_fit⟩, trivial, patch_fits, trivial, trivial, trivial⟩

end CardRun

/-- A card edited while it is pushed stays pending, in either store. -/
theorem card_store_simulates_edit : ∃ a trace' b,
    Steps (Client.step portOps) (Client.fresh (js "d") 0 LocalStore.empty) trace' b ∧
      Client.Sim (ι := Nat) a b ∧
      (a.store.getById (js "c")).map (fun r => (r.pending, readField r.fields "title")) =
        some (true, some (.str (js "Call back"))) := by
  have hrun : ∃ a, CardRun.actions.foldlM (Client.step (cardOps CardRun.sanitized))
      (Client.fresh (js "d") 0 CardStore.empty) = some a ∧
        (a.store.getById (js "c")).map (fun r => (r.pending, readField r.fields "title")) =
          some (true, some (.str (js "Call back"))) := by
    refine ⟨_, rfl, ?_⟩
    rfl
  obtain ⟨a, hfold, hread⟩ := hrun
  obtain ⟨trace', b, run, hsim, -⟩ := Client.card_store_simulates CardRun.sanitized_documented
    (by decide) (Steps.of_actions hfold) fun e he => CardRun.ofCards e.2 (mem_of_mem_traceOf he)
  exact ⟨a, trace', b, run, hsim, hread⟩

end FlowLogix.Mobile
