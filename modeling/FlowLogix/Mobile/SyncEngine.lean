/-
  Mobile/SyncEngine.lean --- the device side of the sync, without the wire
  (mobile/src/sync/SyncService.ts, mobile/src/sync/ports.ts,
  mobile/src/crdt/clock.ts).

  The engine of one collection is its replica id, its clock, its store and its
  checkpoint.  The store is the port's in-memory reading: one record for each
  id, held under that id.  `applyRemote` and `acknowledge` are the two places
  that clear `pending`; the lemmas after the code say what each does to the
  record it names.
-/
import FlowLogix.Crdt.MergeRecord
import FlowLogix.Server.Database

set_option autoImplicit false

namespace FlowLogix.Mobile

open FlowLogix.Foundation FlowLogix.Crdt
open FlowLogix.Server (Clock Failure)

/-! ## The clock -/

/-- `HybridClock`: the last stamp it issued. -/
structure HybridClock where
  last : Nat

/-- `HybridClock.now`, `wall` being `Date.now()`; the stamp is the new `last`. -/
def HybridClock.now (clock : HybridClock) (wall : Nat) : HybridClock where
  last := strictMicros clock.last wall

/-- A stamp is positive. -/
theorem HybridClock.now_pos (clock : HybridClock) (wall : Nat) :
    (0 : Clock) < (clock.now wall).last :=
  Nat.cast_pos.mpr (Nat.zero_lt_of_lt (lt_strictMicros clock.last wall))

/-! ## The store -/

/-- `LocalRecord<F>`. -/
structure LocalRecord extends VersionedRecord Clock where
  /-- carries local edits not yet pushed and accepted -/
  pending : Bool

/-- `LocalStore<F>`: each record sits under its id. -/
structure LocalStore where
  rows : Dict JsString LocalRecord
  keyed : ∀ id record, rows.lookup id = some record → record.id = id

namespace LocalStore

/-- A store that holds nothing. -/
def empty : LocalStore where
  rows := ∅
  keyed := by simp

/-- `getById`. -/
def getById (store : LocalStore) (id : JsString) : Option LocalRecord :=
  store.rows.lookup id

/-- `getPending`, oldest write first. -/
def getPending (store : LocalStore) : List LocalRecord :=
  store.rows.values.reverse.filter (·.pending)

/-- `put`. -/
def put (store : LocalStore) (record : LocalRecord) : LocalStore where
  rows := store.rows.insert record.id record
  keyed := by
    intro id r hr
    rw [Dict.lookup_insert_eq] at hr
    by_cases hid : id = record.id
    · rw [if_pos hid] at hr
      rw [← Option.some.inj hr, hid]
    · rw [if_neg hid] at hr
      exact store.keyed id r hr

/-- No record has a name that a read would find in `Object.prototype`. -/
def OrdinaryNames (store : LocalStore) : Prop :=
  ∀ id record, store.getById id = some record → record.toVersionedRecord.OrdinaryNames

variable {store : LocalStore}

theorem getById_put (store : LocalStore) (record : LocalRecord) (id : JsString) :
    (store.put record).getById id = if id = record.id then some record else store.getById id :=
  Dict.lookup_insert_eq store.rows record.id id record

theorem ordinaryNames_empty : LocalStore.empty.OrdinaryNames := by
  intro id record h
  cases h

theorem OrdinaryNames.put (h : store.OrdinaryNames) {record : LocalRecord}
    (hrecord : record.toVersionedRecord.OrdinaryNames) : (store.put record).OrdinaryNames := by
  intro id r hr
  rw [getById_put] at hr
  split at hr
  · exact Option.some.inj hr ▸ hrecord
  · exact h id r hr

theorem id_of_getById {id : JsString} {record : LocalRecord}
    (h : store.getById id = some record) : record.id = id :=
  store.keyed id record h

/-- The pending records of a store. -/
theorem mem_getPending {record : LocalRecord} :
    record ∈ store.getPending ↔ store.getById record.id = some record ∧ record.pending = true := by
  rw [getPending, List.mem_filter, List.mem_reverse, Dict.mem_values_iff_of_keyed store.keyed]
  rfl

/-- No id is pending twice. -/
theorem nodup_getPending (store : LocalStore) : (store.getPending.map (·.id)).Nodup := by
  refine List.Nodup.sublist (List.filter_sublist.map _) ?_
  rw [List.map_reverse]
  exact List.nodup_reverse.mpr (Dict.nodup_values_of_keyed store.keyed)

end LocalStore

/-! ## The engine -/

/-- `SyncEngine`: what it keeps for its collection. -/
structure SyncEngine where
  nodeId : JsString
  clock : HybridClock
  store : LocalStore
  /-- the stored checkpoint, 0 when there is none -/
  checkpoint : Nat

namespace SyncEngine

/-- `create`: every field is stamped with the same creation timestamp. -/
def create (engine : SyncEngine) (wall : Nat) (id : JsString)
    (fields : JsObject (Option Json)) : SyncEngine :=
  let clock := engine.clock.now wall
  { engine with
    clock := clock
    store := engine.store.put
      { id := id
        fields := fields
        clocks := fields.mapValues fun _ => (clock.last : Clock)
        nodeId := engine.nodeId
        deletedAt := none
        pending := true } }

/-- The fields a patch sets: a property that holds `undefined` is skipped. -/
def patched (patch : JsObject (Option Json)) : JsObject Json := patch.filterMapValues id

/-- `mutate`: only the fields of the patch are re-stamped. -/
def mutate (engine : SyncEngine) (wall : Nat) (id : JsString)
    (patch : JsObject (Option Json)) : Except Failure SyncEngine :=
  match engine.store.getById id with
  | none =>
      .error (.error (js "mutate: record \"" ++ id ++ js "\" does not exist — call create()"))
  | some existing =>
      let clock := engine.clock.now wall
      .ok { engine with
        clock := clock
        store := engine.store.put
          { existing with
            fields := Dict.assign existing.fields ((patched patch).mapValues some)
            clocks := Dict.assign existing.clocks
              ((patched patch).mapValues fun _ => (clock.last : Clock))
            nodeId := engine.nodeId
            pending := true } }

/-- `remove`: a soft delete; an unknown record is left alone. -/
def remove (engine : SyncEngine) (wall : Nat) (id : JsString) : SyncEngine :=
  match engine.store.getById id with
  | none => engine
  | some existing =>
      let clock := engine.clock.now wall
      { engine with
        clock := clock
        store := engine.store.put
          { existing with
            deletedAt := some (clock.last : Clock)
            nodeId := engine.nodeId
            pending := true } }

end SyncEngine

/-! ## Merging a remote change -/

/-- `localIsAhead`: some local field clock is newer than the remote's, or the
tombstone is. -/
def localIsAhead (loc remote : VersionedRecord Clock) : Bool :=
  (loc.clocks.keys.any fun key =>
      decide (readClock loc.clocks key > readClock remote.clocks key)) ||
    decide (loc.deletedAt.getD 0 > remote.deletedAt.getD 0)

/-- `applyRemote`: the store after the change, and whether the record changed. -/
def applyRemote (store : LocalStore) (remote : VersionedRecord Clock) :
    Except Failure (LocalStore × Bool) :=
  match store.getById remote.id with
  | none => .ok (store.put { remote with pending := false }, true)
  | some loc => do
      let result ← (mergeRecord loc.toVersionedRecord remote).mapError fun e => .error e.message
      let stillPending := loc.pending && localIsAhead loc.toVersionedRecord remote
      if !result.changed && stillPending == loc.pending then return (store, false)
      return (store.put { result.merged with pending := stillPending }, result.changed)

/-! ## Acknowledging a push -/

/-- `sameClocks`: no field clock and no tombstone moved between two versions. -/
def sameClocks (a b : VersionedRecord Clock) : Bool :=
  decide (a.deletedAt.getD 0 = b.deletedAt.getD 0) &&
    (a.clocks.keys ++ b.clocks.keys).dedup.all fun key =>
      decide (readClock a.clocks key = readClock b.clocks key)

/-- The loop body of `pushPending` after the response: clear `pending` if the
server accepted the record and nothing stamped it since. -/
def acknowledge (accepted : List JsString) (store : LocalStore) (record : LocalRecord) :
    LocalStore :=
  if record.id ∉ accepted then store
  else
    match store.getById record.id with
    | none => store
    | some current =>
        if sameClocks current.toVersionedRecord record.toVersionedRecord then
          store.put { current with pending := false }
        else store

/-! ## The records a local operation writes -/

namespace LocalRecord

/-- The record `create` writes. -/
def created (id : JsString) (nodeId : JsString) (now : Clock)
    (fields : JsObject (Option Json)) : LocalRecord where
  id := id
  fields := fields
  clocks := fields.mapValues fun _ => now
  nodeId := nodeId
  deletedAt := none
  pending := true

/-- The record `mutate` writes over `existing`. -/
def mutated (existing : LocalRecord) (nodeId : JsString) (now : Clock)
    (patch : JsObject Json) : LocalRecord :=
  { existing with
    fields := Dict.assign existing.fields (patch.mapValues some)
    clocks := Dict.assign existing.clocks (patch.mapValues fun _ => now)
    nodeId := nodeId
    pending := true }

/-- The record `remove` writes over `existing`. -/
def removed (existing : LocalRecord) (nodeId : JsString) (now : Clock) : LocalRecord :=
  { existing with deletedAt := some now, nodeId := nodeId, pending := true }

variable {existing : LocalRecord} {id nodeId : JsString} {now : Clock} {patch : JsObject Json}
  {fields : JsObject (Option Json)}

theorem readClock_created (key : String) :
    readClock (created id nodeId now fields).clocks key = if key ∈ fields then now else 0 := by
  rw [readClock, created, Dict.lookup_mapValues_const]
  split <;> rfl

theorem timed_created : (created id nodeId now fields).Timed := by
  intro key hkey
  rw [← AList.lookup_isSome, created, Dict.lookup_mapValues, Option.isSome_map] at hkey
  exact AList.lookup_isSome.mp hkey

theorem ordinaryNames_created (h : Foundation.OrdinaryNames fields) :
    (created id nodeId now fields).OrdinaryNames :=
  ⟨h, fun key hin hmem => h key hin (timed_created key hmem)⟩

/-- A mutate stamps the fields of the patch and no other. -/
theorem readClock_mutated (key : String) :
    readClock (existing.mutated nodeId now patch).clocks key =
      if key ∈ patch then now else readClock existing.clocks key := by
  rw [readClock, mutated, Dict.lookup_assign, Dict.lookup_mapValues_const]
  split <;> rfl

/-- A mutate sets the fields of the patch and no other. -/
theorem readField_mutated (key : String) :
    readField (existing.mutated nodeId now patch).fields key =
      (patch.lookup key).or (readField existing.fields key) := by
  rw [readField, mutated, Dict.lookup_assign, Dict.lookup_mapValues]
  cases patch.lookup key <;> rfl

theorem timed_mutated (h : existing.Timed) : (existing.mutated nodeId now patch).Timed := by
  intro key hkey
  rw [← AList.lookup_isSome, mutated, Dict.lookup_assign, Dict.lookup_mapValues] at hkey ⊢
  have hexisting := h key
  rw [← AList.lookup_isSome, ← AList.lookup_isSome] at hexisting
  cases hlookup : patch.lookup key with
  | none => simpa [hlookup] using hexisting (by simpa [hlookup] using hkey)
  | some v => simp

theorem stamp_mutated (key : String) :
    (existing.mutated nodeId now patch).stamp key =
      match patch.lookup key with
      | some v => toLex (now, canonicalJson (some v))
      | none => existing.stamp key := by
  rw [VersionedRecord.stamp, stampOf, readClock_mutated, readField_mutated]
  cases hkey : patch.lookup key with
  | none =>
      rw [if_neg (AList.lookup_eq_none.mp hkey)]
      rfl
  | some v =>
      rw [if_pos (AList.lookup_isSome.mp (by rw [hkey]; rfl))]
      rfl

theorem mem_mutated_fields {key : String} :
    key ∈ (existing.mutated nodeId now patch).fields ↔ key ∈ existing.fields ∨ key ∈ patch := by
  simp only [← AList.lookup_isSome, mutated, Dict.lookup_assign, Dict.lookup_mapValues]
  cases patch.lookup key <;> simp

theorem mem_mutated_clocks {key : String} :
    key ∈ (existing.mutated nodeId now patch).clocks ↔ key ∈ existing.clocks ∨ key ∈ patch := by
  simp only [← AList.lookup_isSome, mutated, Dict.lookup_assign, Dict.lookup_mapValues]
  cases patch.lookup key <;> simp

theorem ordinaryNames_mutated (h : existing.OrdinaryNames)
    (hpatch : Foundation.OrdinaryNames patch) :
    (existing.mutated nodeId now patch).OrdinaryNames := by
  constructor
  · intro key hin hmem
    exact (mem_mutated_fields.mp hmem).elim (h.1 key hin) (hpatch key hin)
  · intro key hin hmem
    exact (mem_mutated_clocks.mp hmem).elim (h.2 key hin) (hpatch key hin)

end LocalRecord

/-! ## What the engine computes -/

theorem localIsAhead_eq_false {loc remote : VersionedRecord Clock}
    (h : localIsAhead loc remote = false) :
    (∀ key ∈ loc.clocks, readClock loc.clocks key ≤ readClock remote.clocks key) ∧
      loc.deletedAt.getD 0 ≤ remote.deletedAt.getD 0 := by
  obtain ⟨hfields, htomb⟩ := Bool.or_eq_false_iff.mp h
  refine ⟨fun key hkey => ?_, not_lt.mp (of_decide_eq_false htomb)⟩
  have hnot := List.any_eq_false.mp hfields key (AList.mem_keys.mpr hkey)
  exact not_lt.mp fun hlt => hnot (decide_eq_true hlt)

theorem sameClocks_iff {a b : VersionedRecord Clock} :
    sameClocks a b = true ↔ a.deletedAt.getD 0 = b.deletedAt.getD 0 ∧
      ∀ key, readClock a.clocks key = readClock b.clocks key := by
  simp only [sameClocks, Bool.and_eq_true_iff, decide_eq_true_eq, List.all_eq_true,
    List.mem_dedup, List.mem_append]
  refine and_congr_right fun _ => ⟨fun h key => ?_, fun h key _ => h key⟩
  by_cases hkey : key ∈ a.clocks ∨ key ∈ b.clocks
  · exact h key hkey
  · obtain ⟨ha, hb⟩ := not_or.mp hkey
    rw [readClock_of_not_mem ha, readClock_of_not_mem hb]

/-- The outcome of merging a remote version into a local one: every register is
the later one, whether or not the merge was written. -/
structure Merged (loc remote r : VersionedRecord Clock) : Prop where
  id : r.id = loc.id
  stamp : ∀ key, key ∈ loc.fields ∨ key ∈ remote.fields →
    r.stamp key = loc.stamp key ⊔ remote.stamp key
  tombstone : r.deletedAt = pickTomb loc.deletedAt remote.deletedAt
  value : ∀ key, readField r.fields key = readField loc.fields key ∨
    readField r.fields key = readField remote.fields key
  mem : ∀ key, key ∈ r.fields → key ∈ loc.fields ∨ key ∈ remote.fields
  keeps : ∀ key, key ∈ loc.fields → key ∈ r.fields
  timed : loc.Timed → r.Timed

/-- A merge that is written. -/
theorem merged_mergedRecord (loc remote : VersionedRecord Clock) :
    Merged loc remote (mergedRecord loc remote) where
  id := rfl
  stamp _ hkey := stamp_mergedRecord_of_mem hkey
  tombstone := rfl
  value key := by
    rw [readField, mergedRecord, lookup_mergeFields_fields]
    by_cases hkey : key ∈ loc.fields ∨ key ∈ remote.fields
    · rw [if_pos hkey, Option.join_some]
      split
      · exact Or.inr rfl
      · exact Or.inl rfl
    · rw [if_neg hkey, readField_of_not_mem (fun h => hkey (Or.inl h))]
      exact Or.inl rfl
  mem key := (mem_mergedRecord_fields loc remote key).mp
  keeps key hkey := (mem_mergedRecord_fields loc remote key).mpr (Or.inl hkey)
  timed _ := (mergedRecord_complete loc remote).timed

/-- A merge that is skipped because it changes nothing. -/
theorem merged_self {loc remote : VersionedRecord Clock} {result : MergeResult Clock}
    (hmerge : mergeRecord loc remote = .ok result) (hchanged : result.changed = false) :
    Merged loc remote loc := by
  obtain ⟨hwins, hdeleted⟩ := changed_eq_false hmerge hchanged
  exact {
    id := rfl
    stamp := fun key hkey => (sup_eq_left.mpr (not_lt.mp (hwins key hkey))).symm
    tombstone := hdeleted.symm
    value := fun _ => Or.inl rfl
    mem := fun _ => Or.inl
    keeps := fun _ hkey => hkey
    timed := id }

/-- On records whose clocks all belong to fields, the outcome is the join. -/
theorem Merged.registers {loc remote r : VersionedRecord Clock} (h : Merged loc remote r)
    (hl : loc.Timed) (hr : remote.Timed) : r.registers = loc.registers ⊔ remote.registers := by
  refine Prod.ext (funext fun key => ?_) ((congrArg tombOf h.tombstone).trans (tombOf_pickTomb _ _))
  by_cases hkey : key ∈ loc.fields ∨ key ∈ remote.fields
  · exact h.stamp key hkey
  · have hm := fun hmem => hkey (h.mem key hmem)
    obtain ⟨hl', hr'⟩ := not_or.mp hkey
    show stampOf r.fields r.clocks key =
      stampOf loc.fields loc.clocks key ⊔ stampOf remote.fields remote.clocks key
    rw [stampOf_of_not_mem hm (fun hc => hm (h.timed hl key hc)),
      stampOf_of_not_mem hl' (fun hc => hl' (hl key hc)),
      stampOf_of_not_mem hr' (fun hc => hr' (hr key hc)), sup_idem]

/-- What applying a remote change does to a store. -/
structure ApplyEffect (store : LocalStore) (remote : VersionedRecord Clock)
    (store' : LocalStore) : Prop where
  other : ∀ id, id ≠ remote.id → store'.getById id = store.getById id
  unseen : store.getById remote.id = none →
    store'.getById remote.id = some { remote with pending := false }
  seen : ∀ loc, store.getById remote.id = some loc →
    ∃ r, store'.getById remote.id = some r ∧
      Merged loc.toVersionedRecord remote r.toVersionedRecord ∧
      r.pending = (loc.pending && localIsAhead loc.toVersionedRecord remote)

/-- Applying a remote change never throws. -/
theorem applyRemote_ok (store : LocalStore) (remote : VersionedRecord Clock) :
    ∃ store' changed, applyRemote store remote = .ok (store', changed) ∧
      ApplyEffect store remote store' := by
  cases hloc : store.getById remote.id with
  | none =>
      refine ⟨store.put { remote with pending := false }, true, by rw [applyRemote, hloc], ?_, ?_,
        fun loc h => absurd (hloc.symm.trans h) nofun⟩
      · intro id hid
        rw [LocalStore.getById_put, if_neg hid]
      · intro _
        rw [LocalStore.getById_put, if_pos rfl]
  | some loc =>
      have hid : loc.toVersionedRecord.id = remote.id := LocalStore.id_of_getById hloc
      obtain ⟨result, hok, hmerged, -⟩ := mergeRecord_ok hid
      by_cases hskip : (!result.changed &&
          (loc.pending && localIsAhead loc.toVersionedRecord remote) == loc.pending) = true
      · refine ⟨store, false, ?_, fun _ _ => rfl, fun h => absurd (hloc.symm.trans h) nofun, ?_⟩
        · simp only [applyRemote, hloc, hok, Except.mapError]
          exact if_pos hskip
        · rintro loc' hloc'
          obtain rfl := Option.some.inj (hloc.symm.trans hloc')
          obtain ⟨hchanged, hpending⟩ := Bool.and_eq_true_iff.mp hskip
          exact ⟨loc, hloc, merged_self hok (by simpa using hchanged),
            (beq_iff_eq.mp hpending).symm⟩
      · refine ⟨store.put { result.merged with
          pending := loc.pending && localIsAhead loc.toVersionedRecord remote },
          result.changed, ?_, ?_, fun h => absurd (hloc.symm.trans h) nofun, ?_⟩
        · simp only [applyRemote, hloc, hok, Except.mapError]
          exact if_neg hskip
        · intro id hne
          rw [LocalStore.getById_put, hmerged, if_neg (fun h => hne (h.trans hid))]
        · rintro loc' hloc'
          obtain rfl := Option.some.inj (hloc.symm.trans hloc')
          refine ⟨{ result.merged with
            pending := loc.pending && localIsAhead loc.toVersionedRecord remote }, ?_, ?_, rfl⟩
          · rw [LocalStore.getById_put, if_pos]
            rw [hmerged]
            exact hid.symm
          · show Merged loc.toVersionedRecord remote result.merged
            rw [hmerged]
            exact merged_mergedRecord loc.toVersionedRecord remote

/-- An acknowledgement clears the `pending` flag of the record it names, or does
nothing. -/
theorem getById_acknowledge (accepted : List JsString) (store : LocalStore)
    (record : LocalRecord) (id : JsString) :
    (acknowledge accepted store record).getById id = store.getById id ∨
      (id = record.id ∧ id ∈ accepted ∧ ∃ current, store.getById id = some current ∧
        sameClocks current.toVersionedRecord record.toVersionedRecord = true ∧
        (acknowledge accepted store record).getById id =
          some { current with pending := false }) := by
  unfold acknowledge
  split
  · exact Or.inl rfl
  · rename_i haccepted
    split
    · exact Or.inl rfl
    · rename_i current hcurrent
      split
      · rename_i hsame
        have hid := LocalStore.id_of_getById hcurrent
        rw [LocalStore.getById_put]
        by_cases h : id = record.id
        · subst h
          exact Or.inr ⟨rfl, not_not.mp haccepted, current, hcurrent, hsame, if_pos hid.symm⟩
        · exact Or.inl (if_neg (fun heq => h (heq.trans hid)))
      · exact Or.inl rfl

end FlowLogix.Mobile
