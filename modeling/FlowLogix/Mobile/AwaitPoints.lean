/-
  Mobile/AwaitPoints.lean --- edits made while a sync is running.

  `mutate`, `remove`, `applyRemote` and the acknowledgement loop each read a
  record, await, and put it back.  Here every one of them is two steps, the read
  and the write with the code between that await and the next; the `_eq`
  theorems say that the two steps in a row are the operation of
  `SyncEngine.lean`.  Any number of calls are open beside one sync, whose remote
  changes and acknowledged ids are whatever the transport returns.

  `edits` and `accepted` record what the run has done, so that its end can be
  asked about: an edit is kept unless a later one replaced it, and while the
  record holds it, it is pending or was in an accepted push (`edit_kept`).  A
  write over a version that is no longer the one the call read loses edits;
  `Meets` rules that out, and the two ties on a clock that clear `pending` early.
  No field of the run is named like a member of `Object.prototype`, which the code
  would read where a record lacks it (`OrdinaryNames`).
-/
import FlowLogix.Mobile.SyncEngine

set_option autoImplicit false

namespace FlowLogix.Mobile

open FlowLogix.Foundation FlowLogix.Crdt
open FlowLogix.Server (Clock Failure)

/-! ## The operations, cut at their awaits -/

/-- What an open call of `mutate` or `remove` has read. -/
inductive LocalCall where
  | mutating (existing : LocalRecord) (patch : JsObject (Option Json))
  | removing (existing : LocalRecord)

/-- `mutate` and `remove` after their `getById`. -/
def LocalCall.finish (engine : SyncEngine) (wall : Nat) : LocalCall → SyncEngine
  | .mutating existing patch =>
      let clock := engine.clock.now wall
      { engine with
        clock := clock
        store := engine.store.put
          (existing.mutated engine.nodeId clock.last (SyncEngine.patched patch)) }
  | .removing existing =>
      let clock := engine.clock.now wall
      { engine with
        clock := clock
        store := engine.store.put (existing.removed engine.nodeId clock.last) }

/-- `applyRemote` after its `getById`. -/
def writeRemote (store : LocalStore) (remote : VersionedRecord Clock)
    (read : Option LocalRecord) : Except Failure (LocalStore × Bool) :=
  match read with
  | none => .ok (store.put { remote with pending := false }, true)
  | some loc => do
      let result ← (mergeRecord loc.toVersionedRecord remote).mapError fun e => .error e.message
      let stillPending := loc.pending && localIsAhead loc.toVersionedRecord remote
      if !result.changed && stillPending == loc.pending then return (store, false)
      return (store.put { result.merged with pending := stillPending }, result.changed)

/-- The acknowledgement loop body after its `getById`. -/
def writeAcknowledged (store : LocalStore) (record current : LocalRecord) : LocalStore :=
  if sameClocks current.toVersionedRecord record.toVersionedRecord then
    store.put { current with pending := false }
  else store

/-- `mutate` is its read and its write. -/
theorem mutate_eq (engine : SyncEngine) (wall : Nat) (id : JsString)
    (patch : JsObject (Option Json)) {existing : LocalRecord}
    (h : engine.store.getById id = some existing) :
    engine.mutate wall id patch =
      .ok ((LocalCall.mutating existing patch).finish engine wall) := by
  rw [SyncEngine.mutate, h]
  rfl

/-- `remove` is its read and its write. -/
theorem remove_eq (engine : SyncEngine) (wall : Nat) (id : JsString) {existing : LocalRecord}
    (h : engine.store.getById id = some existing) :
    engine.remove wall id = (LocalCall.removing existing).finish engine wall := by
  rw [SyncEngine.remove, h]
  rfl

/-- `applyRemote` is its read and its write. -/
theorem applyRemote_eq (store : LocalStore) (remote : VersionedRecord Clock) :
    applyRemote store remote = writeRemote store remote (store.getById remote.id) := rfl

/-- The acknowledgement of an accepted record is its read and its write. -/
theorem acknowledge_eq (accepted : List JsString) (store : LocalStore) (record : LocalRecord)
    {current : LocalRecord} (haccepted : record.id ∈ accepted)
    (h : store.getById record.id = some current) :
    acknowledge accepted store record = writeAcknowledged store record current := by
  rw [acknowledge, if_neg (not_not.mpr haccepted), h]
  rfl

/-! ## What a run has done -/

/-- One register a local call wrote. -/
inductive Edit where
  | field (id : JsString) (key : String) (clock : Clock) (value : Json)
  | tombstone (id : JsString) (clock : Clock)

namespace Edit

/-- The record that was edited. -/
def id : Edit → JsString
  | .field id _ _ _ => id
  | .tombstone id _ => id

/-- The stamp the edit was given. -/
def clock : Edit → Clock
  | .field _ _ clock _ => clock
  | .tombstone _ clock => clock

/-- The edited register of a record is at least the edit: it still is the edit,
or a write with a later clock, or with an equal clock and a greater text, has
replaced it. -/
def Kept (r : VersionedRecord Clock) : Edit → Prop
  | .field _ key clock value =>
      key ∈ r.fields ∧ toLex (clock, canonicalJson (some value)) ≤ r.stamp key
  | .tombstone _ clock => tombOf (some clock) ≤ tombOf r.deletedAt

/-- The edited register of a record still is the edit. -/
def HeldBy (r : VersionedRecord Clock) : Edit → Prop
  | .field _ key clock value => r.stamp key = toLex (clock, canonicalJson (some value))
  | .tombstone _ clock => r.deletedAt = some clock

/-- The edited register of a record is beyond the edit. -/
def BeatenBy (r : VersionedRecord Clock) : Edit → Prop
  | .field _ key clock value => toLex (clock, canonicalJson (some value)) < r.stamp key
  | .tombstone _ clock => tombOf (some clock) < tombOf r.deletedAt

/-- A record has, for the edited register, the clock of the edit. -/
def SameClock (r : VersionedRecord Clock) : Edit → Prop
  | .field _ key clock _ => readClock r.clocks key = clock
  | .tombstone _ clock => r.deletedAt = some clock

end Edit

instance (r : VersionedRecord Clock) (e : Edit) : Decidable (e.Kept r) :=
  match e with
  | .field _ _ _ _ => inferInstanceAs (Decidable (_ ∧ _))
  | .tombstone _ _ => inferInstanceAs (Decidable (_ ≤ _))

/-- The registers a call writes. -/
def LocalCall.edits (now : Clock) : LocalCall → List Edit
  | .mutating existing patch =>
      (SyncEngine.patched patch).entries.map fun e => .field existing.id e.1 now e.2
  | .removing existing => [.tombstone existing.id now]

/-! ## The run -/

/-- Where the running sync is. -/
inductive SyncPoint where
  | ready
  /-- remote changes still to be applied, and the checkpoint to store then -/
  | applying (inbox : List (VersionedRecord Clock)) (checkpoint : Nat)
  /-- `applyRemote` awaits its `getById` -/
  | merging (remote : VersionedRecord Clock) (read : Option LocalRecord)
      (rest : List (VersionedRecord Clock)) (checkpoint : Nat)
  | sending (pending : List LocalRecord)
  /-- pushed records still to be acknowledged, and the accepted ids -/
  | acknowledging (pending : List LocalRecord) (acceptedIds : List JsString)
  /-- the acknowledgement of a record awaits its `getById` -/
  | clearing (record current : LocalRecord) (rest : List LocalRecord)
      (acceptedIds : List JsString)
  | done

/-- A device, its open calls and its sync. -/
structure Concurrent (ι : Type) where
  engine : SyncEngine
  calls : ι → Option LocalCall
  sync : SyncPoint
  /-- every register the calls have written -/
  edits : List Edit
  /-- every version that was pushed and accepted -/
  accepted : List LocalRecord

/-- What can happen next.  `wall` is the reading of `Date.now()`. -/
inductive Await (ι : Type) where
  | mutate (call : ι) (id : JsString) (patch : JsObject (Option Json))
  | remove (call : ι) (id : JsString)
  | write (call : ι) (wall : Nat)
  | pull (changes : List (VersionedRecord Clock)) (checkpoint : Nat)
  | readRemote
  | writeRemote
  | readPending
  | push (acceptedIds : List JsString)
  | readCurrent
  | clearPending
  | finish
  /-- the transport throws -/
  | fail

variable {ι : Type}

section

variable [DecidableEq ι]

/-- One step of the run. -/
def Concurrent.step (sys : Concurrent ι) : Await ι → Option (Concurrent ι)
  | .mutate call id patch =>
      match sys.calls call with
      | some _ => none
      | none =>
          -- an unknown record throws
          let opened := (sys.engine.store.getById id).map fun existing =>
            LocalCall.mutating existing patch
          some { sys with calls := Function.update sys.calls call opened }
  | .remove call id =>
      match sys.calls call with
      | some _ => none
      | none =>
          let opened := (sys.engine.store.getById id).map LocalCall.removing
          some { sys with calls := Function.update sys.calls call opened }
  | .write call wall =>
      (sys.calls call).map fun localCall =>
        { sys with
          engine := localCall.finish sys.engine wall
          calls := Function.update sys.calls call none
          edits := sys.edits ++ localCall.edits (sys.engine.clock.now wall).last }
  | .pull changes checkpoint =>
      match sys.sync with
      | .ready => some { sys with sync := .applying changes checkpoint }
      | _ => none
  | .readRemote =>
      match sys.sync with
      | .applying (remote :: rest) checkpoint =>
          let read := sys.engine.store.getById remote.id
          some { sys with sync := .merging remote read rest checkpoint }
      | _ => none
  | .writeRemote =>
      match sys.sync with
      | .merging remote read rest checkpoint =>
          (Mobile.writeRemote sys.engine.store remote read).toOption.map fun applied =>
            { sys with
              engine := { sys.engine with store := applied.1 }
              sync := .applying rest checkpoint }
      | _ => none
  | .readPending =>
      match sys.sync with
      | .applying [] checkpoint =>
          let pending := sys.engine.store.getPending
          some { sys with
            engine := { sys.engine with checkpoint := checkpoint }
            sync := if pending = [] then .done else .sending pending }
      | _ => none
  | .push acceptedIds =>
      match sys.sync with
      | .sending pending =>
          some { sys with
            sync := .acknowledging pending acceptedIds
            accepted := sys.accepted ++ pending.filter fun record => record.id ∈ acceptedIds }
      | _ => none
  | .readCurrent =>
      match sys.sync with
      | .acknowledging (record :: rest) acceptedIds =>
          if record.id ∉ acceptedIds then
            some { sys with sync := .acknowledging rest acceptedIds }
          else
            match sys.engine.store.getById record.id with
            | none => some { sys with sync := .acknowledging rest acceptedIds }
            | some current => some { sys with sync := .clearing record current rest acceptedIds }
      | _ => none
  | .clearPending =>
      match sys.sync with
      | .clearing record current rest acceptedIds =>
          let store := writeAcknowledged sys.engine.store record current
          some { sys with
            engine := { sys.engine with store := store }
            sync := .acknowledging rest acceptedIds }
      | _ => none
  | .finish =>
      match sys.sync with
      | .acknowledging [] _ => some { sys with sync := .done }
      | _ => none
  | .fail => some { sys with sync := .done }

/-- A sequence of steps. -/
def Concurrent.run (sys : Concurrent ι) : List (Await ι) → Option (Concurrent ι)
  | [] => some sys
  | action :: rest => (sys.step action).bind fun next => next.run rest

end

/-! ## The condition on a step -/

/-- Every write is over the version its call read, and a clock tie clears no
`pending` flag: a remote change that is not behind a pending record beats each
edit of the record whose clock it has, and an acknowledged version has each edit
of the record whose clock it has. -/
def Concurrent.Meets (sys : Concurrent ι) : Await ι → Prop
  | .write call _ =>
      match sys.calls call with
      | some (.mutating existing _) | some (.removing existing) =>
          (sys.engine.store.getById existing.id).map (·.toVersionedRecord) =
            some existing.toVersionedRecord
      | none => True
  | .writeRemote =>
      match sys.sync with
      | .merging remote read _ _ =>
          sys.engine.store.getById remote.id = read ∧
            ∀ loc, read = some loc → loc.pending = true →
              localIsAhead loc.toVersionedRecord remote = false →
                ∀ e ∈ sys.edits, e.id = remote.id → e.HeldBy loc.toVersionedRecord →
                  e.SameClock remote → e.BeatenBy remote
      | _ => True
  | .clearPending =>
      match sys.sync with
      | .clearing record current _ _ =>
          sys.engine.store.getById record.id = some current ∧
            ∀ e ∈ sys.edits, e.id = record.id → e.HeldBy current.toVersionedRecord →
              e.SameClock record.toVersionedRecord → e.HeldBy record.toVersionedRecord
      | _ => True
  | _ => True

/-- A `mutate` whose record was not written since it was read meets the
condition. -/
theorem Concurrent.meets_write {sys : Concurrent ι} {call : ι} {id : JsString}
    {patch : JsObject (Option Json)}
    (h : sys.calls call = (sys.engine.store.getById id).map fun existing =>
      .mutating existing patch) (wall : Nat) : sys.Meets (.write call wall) := by
  cases hread : sys.engine.store.getById id with
  | none => simp [Meets, h, hread]
  | some existing =>
      have hid : existing.id = id := LocalStore.id_of_getById hread
      simp [Meets, h, hread, hid]

/-- No patch and no pulled record has a name that a read would find in
`Object.prototype`. -/
def Await.OrdinaryNames : Await ι → Prop
  | .mutate _ _ patch => Foundation.OrdinaryNames (SyncEngine.patched patch)
  | .pull changes _ => ∀ remote ∈ changes, remote.OrdinaryNames
  | _ => True

/-- The names the code reads in a step are those of the records. -/
def Concurrent.OrdinaryNames (sys : Concurrent ι) (action : Await ι) : Prop :=
  sys.engine.store.OrdinaryNames ∧ action.OrdinaryNames

/-- Every step of a sequence meets the condition. -/
def Concurrent.MeetsAll [DecidableEq ι] (sys : Concurrent ι) : List (Await ι) → Prop
  | [] => True
  | action :: rest => (sys.OrdinaryNames action ∧ sys.Meets action) ∧
      ∀ next, sys.step action = some next → next.MeetsAll rest

/-! ## One edit -/

/-- An edit is safe in a store: kept, and pending or accepted while it is held. -/
def Edit.Safe (store : LocalStore) (accepted : List LocalRecord) (e : Edit) : Prop :=
  ∃ r, store.getById e.id = some r ∧ e.Kept r.toVersionedRecord ∧
    (e.HeldBy r.toVersionedRecord → r.pending = true ∨
      ∃ p ∈ accepted, p.id = e.id ∧ e.HeldBy p.toVersionedRecord)

namespace Edit

variable {e : Edit} {existing : LocalRecord} {now : Clock} {nodeId : JsString}

/-- A write of the same record that keeps its edits and raises its flag. -/
theorem Safe.put {store : LocalStore} {accepted : List LocalRecord} (h : e.Safe store accepted)
    {record : LocalRecord} (hpending : record.pending = true)
    (hkept : ∀ r, store.getById record.id = some r → e.id = record.id →
      e.Kept r.toVersionedRecord → e.Kept record.toVersionedRecord) :
    e.Safe (store.put record) accepted := by
  obtain ⟨r, hr, hrkept, hheld⟩ := h
  by_cases hid : e.id = record.id
  · refine ⟨record, by rw [LocalStore.getById_put, if_pos hid], ?_, fun _ => Or.inl hpending⟩
    exact hkept r (hid ▸ hr) hid hrkept
  · exact ⟨r, by rw [LocalStore.getById_put, if_neg hid, hr], hrkept, hheld⟩

/-- A later stamp of other fields, or of the same field, keeps an edit. -/
theorem Kept.mutated {patch : JsObject Json} (h : e.Kept existing.toVersionedRecord)
    (hclock : e.clock < now) :
    e.Kept (existing.mutated nodeId now patch).toVersionedRecord := by
  cases e with
  | tombstone id clock => exact h
  | field id key clock value =>
      obtain ⟨hkey, hle⟩ := h
      refine ⟨LocalRecord.mem_mutated_fields.mpr (Or.inl hkey), ?_⟩
      rw [LocalRecord.stamp_mutated]
      cases patch.lookup key with
      | none => exact hle
      | some v => exact Prod.Lex.toLex_le_toLex.mpr (Or.inl hclock)

/-- A later tombstone keeps an edit. -/
theorem Kept.removed (h : e.Kept existing.toVersionedRecord) (hclock : e.clock < now) :
    e.Kept (existing.removed nodeId now).toVersionedRecord := by
  cases e with
  | field id key clock value => exact h
  | tombstone id clock => exact Prod.Lex.toLex_le_toLex.mpr (Or.inl hclock)

/-- A merge keeps an edit. -/
theorem Kept.merged {loc remote r : VersionedRecord Clock} (h : e.Kept loc)
    (hmerged : Merged loc remote r) : e.Kept r := by
  cases e with
  | field id key clock value =>
      obtain ⟨hkey, hle⟩ := h
      refine ⟨hmerged.keeps key hkey, ?_⟩
      rw [hmerged.stamp key (Or.inl hkey)]
      exact hle.trans le_sup_left
  | tombstone id clock =>
      show tombOf (some clock) ≤ tombOf r.deletedAt
      rw [hmerged.tombstone, tombOf_pickTomb]
      exact le_trans h le_sup_left

/-- An edit a merge still holds was held before it, and the remote version does
not beat it. -/
theorem heldBy_of_merged {loc remote r : VersionedRecord Clock} (hkept : e.Kept loc)
    (hmerged : Merged loc remote r) (hheld : e.HeldBy r) :
    e.HeldBy loc ∧ ¬ e.BeatenBy remote := by
  cases e with
  | field id key clock value =>
      obtain ⟨hkey, hle⟩ := hkept
      have hsup : loc.stamp key ⊔ remote.stamp key = toLex (clock, canonicalJson (some value)) :=
        (hmerged.stamp key (Or.inl hkey)).symm.trans hheld
      refine ⟨le_antisymm (hsup ▸ le_sup_left) hle, fun hbeaten => ?_⟩
      exact (lt_of_lt_of_le hbeaten (le_sup_right.trans hsup.le)).false
  | tombstone id clock =>
      have hsup : tombOf loc.deletedAt ⊔ tombOf remote.deletedAt = tombOf (some clock) := by
        rw [← tombOf_pickTomb, ← hmerged.tombstone]
        exact congrArg tombOf hheld
      refine ⟨tombOf_injective (le_antisymm (hsup ▸ le_sup_left) hkept), fun hbeaten => ?_⟩
      exact (lt_of_lt_of_le hbeaten (le_sup_right.trans hsup.le)).false

/-- A remote version that the record is not ahead of beats an edit the record
holds, or has its clock. -/
theorem beatenBy_or_sameClock {loc remote : VersionedRecord Clock} (hpos : 0 < e.clock)
    (hheld : e.HeldBy loc) (hahead : localIsAhead loc remote = false) :
    e.BeatenBy remote ∨ e.SameClock remote := by
  obtain ⟨hclocks, htomb⟩ := localIsAhead_eq_false hahead
  cases e with
  | field id key clock value =>
      have hclock : readClock loc.clocks key = clock := congrArg (fun s => (ofLex s).1) hheld
      have hmem : key ∈ loc.clocks := by
        by_contra hnot
        rw [readClock_of_not_mem hnot] at hclock
        exact hpos.ne hclock
      have hle := hclocks key hmem
      rw [hclock] at hle
      rcases hle.lt_or_eq with hlt | heq
      · exact Or.inl (Prod.Lex.toLex_lt_toLex.mpr (Or.inl hlt))
      · exact Or.inr heq.symm
  | tombstone id clock =>
      have hdeleted : loc.deletedAt = some clock := hheld
      rw [hdeleted] at htomb
      rcases htomb.lt_or_eq with hlt | heq
      · exact Or.inl (Prod.Lex.toLex_lt_toLex.mpr (Or.inl hlt))
      · refine Or.inr ?_
        show remote.deletedAt = some clock
        cases hremote : remote.deletedAt with
        | none =>
            rw [hremote] at heq
            exact absurd heq hpos.ne'
        | some d =>
            rw [hremote] at heq
            exact congrArg some heq.symm

/-- Two versions with the same clocks: an edit the first holds has its clock in the
second. -/
theorem sameClock_of_sameClocks {current record : VersionedRecord Clock} (hpos : 0 < e.clock)
    (hheld : e.HeldBy current) (hsame : sameClocks current record = true) :
    e.SameClock record := by
  obtain ⟨htomb, hclocks⟩ := sameClocks_iff.mp hsame
  cases e with
  | field id key clock value =>
      have hclock : readClock current.clocks key = clock :=
        congrArg (fun s => (ofLex s).1) hheld
      exact (hclocks key).symm.trans hclock
  | tombstone id clock =>
      have hdeleted : current.deletedAt = some clock := hheld
      rw [hdeleted] at htomb
      show record.deletedAt = some clock
      cases hrecord : record.deletedAt with
      | none =>
          rw [hrecord] at htomb
          exact absurd htomb hpos.ne'
      | some d =>
          rw [hrecord] at htomb
          exact congrArg some htomb.symm

end Edit

/-! ## Every run -/

/-- The pushed versions a sync still has to acknowledge are among the accepted
ones. -/
def SyncPoint.Acknowledges (accepted : List LocalRecord) : SyncPoint → Prop
  | .acknowledging pending ids => ∀ r ∈ pending, r.id ∈ ids → r ∈ accepted
  | .clearing record _ rest ids => record ∈ accepted ∧ ∀ r ∈ rest, r.id ∈ ids → r ∈ accepted
  | _ => True

/-- The invariant: every edit is safe, and older than the next stamp. -/
structure EditInv (sys : Concurrent ι) : Prop where
  clock : ∀ e ∈ sys.edits, 0 < e.clock ∧ e.clock ≤ sys.engine.clock.last
  safe : ∀ e ∈ sys.edits, e.Safe sys.engine.store sys.accepted
  acknowledges : sys.sync.Acknowledges sys.accepted

/-- The write of a `mutate` or a `remove`. -/
theorem EditInv.write {sys : Concurrent ι} (h : EditInv sys) {localCall : LocalCall} (wall : Nat)
    {existing : LocalRecord}
    (hread : localCall = .removing existing ∨ ∃ patch, localCall = .mutating existing patch)
    (hmeets : (sys.engine.store.getById existing.id).map (·.toVersionedRecord) =
      some existing.toVersionedRecord) :
    (∀ e ∈ sys.edits ++ localCall.edits (sys.engine.clock.now wall).last,
      0 < e.clock ∧ e.clock ≤ (sys.engine.clock.now wall).last) ∧
      ∀ e ∈ sys.edits ++ localCall.edits (sys.engine.clock.now wall).last,
        e.Safe (localCall.finish sys.engine wall).store sys.accepted := by
  have hnow := HybridClock.now_pos sys.engine.clock wall
  have hlater : ∀ e ∈ sys.edits, e.clock < (sys.engine.clock.now wall).last := by
    intro e he
    refine (h.clock e he).2.trans_lt ?_
    exact Nat.cast_lt.mpr (lt_strictMicros sys.engine.clock.last wall)
  obtain ⟨current, hcurrent, hversion⟩ := Option.map_eq_some_iff.mp hmeets
  have hstored : ∀ {e : Edit} r, sys.engine.store.getById existing.id = some r →
      e.Kept r.toVersionedRecord → e.Kept existing.toVersionedRecord := by
    intro e r hr hkept
    obtain rfl := Option.some.inj (hcurrent.symm.trans hr)
    exact hversion ▸ hkept
  rcases hread with rfl | ⟨patch, rfl⟩
  · refine ⟨fun e he => ?_, fun e he => ?_⟩
    · rcases List.mem_append.mp he with hold | hnew
      · exact ⟨(h.clock e hold).1, (hlater e hold).le⟩
      · obtain rfl := List.mem_singleton.mp hnew
        exact ⟨hnow, le_rfl⟩
    · rcases List.mem_append.mp he with hold | hnew
      · refine (h.safe e hold).put rfl fun r hr _ hkept => ?_
        exact (hstored r hr hkept).removed (hlater e hold)
      · obtain rfl := List.mem_singleton.mp hnew
        refine ⟨_, (LocalStore.getById_put _ _ _).trans (if_pos rfl), ?_, fun _ => Or.inl rfl⟩
        exact le_refl (tombOf _)
  · refine ⟨fun e he => ?_, fun e he => ?_⟩
    · rcases List.mem_append.mp he with hold | hnew
      · exact ⟨(h.clock e hold).1, (hlater e hold).le⟩
      · obtain ⟨entry, -, rfl⟩ := List.mem_map.mp hnew
        exact ⟨hnow, le_rfl⟩
    · rcases List.mem_append.mp he with hold | hnew
      · refine (h.safe e hold).put rfl fun r hr _ hkept => ?_
        exact (hstored r hr hkept).mutated (hlater e hold)
      · obtain ⟨⟨key, v⟩, hentry, rfl⟩ := List.mem_map.mp hnew
        have hkey : (SyncEngine.patched patch).lookup key = some v :=
          AList.mem_lookup_iff.mpr hentry
        refine ⟨_, (LocalStore.getById_put _ _ _).trans (if_pos rfl), ⟨?_, ?_⟩, fun _ => Or.inl rfl⟩
        · exact LocalRecord.mem_mutated_fields.mpr
            (Or.inr (AList.lookup_isSome.mp (by rw [hkey]; rfl)))
        · rw [LocalRecord.stamp_mutated, hkey]

/-- The write of `applyRemote`. -/
theorem EditInv.writeRemote {sys : Concurrent ι} (h : EditInv sys)
    {remote : VersionedRecord Clock} {store' : LocalStore}
    (heffect : ApplyEffect sys.engine.store remote store')
    (hmeets : ∀ loc, sys.engine.store.getById remote.id = some loc → loc.pending = true →
      localIsAhead loc.toVersionedRecord remote = false →
        ∀ e ∈ sys.edits, e.id = remote.id → e.HeldBy loc.toVersionedRecord →
          e.SameClock remote → e.BeatenBy remote) :
    ∀ e ∈ sys.edits, e.Safe store' sys.accepted := by
  intro e he
  obtain ⟨loc, hloc, hkept, hheld⟩ := h.safe e he
  by_cases hid : e.id = remote.id
  · obtain ⟨r, hr, hmerged, hpending⟩ := heffect.seen loc (hid ▸ hloc)
    refine ⟨r, by rw [hid, hr], hkept.merged hmerged, fun hrheld => ?_⟩
    obtain ⟨hlocheld, hnot⟩ := Edit.heldBy_of_merged hkept hmerged hrheld
    rcases hheld hlocheld with hflag | haccepted
    · left
      rw [hpending, hflag, Bool.true_and]
      by_contra hahead
      have hahead' := eq_false_of_ne_true hahead
      rcases Edit.beatenBy_or_sameClock (h.clock e he).1 hlocheld hahead' with hbeaten | hsame
      · exact hnot hbeaten
      · exact hnot (hmeets loc (hid ▸ hloc) hflag hahead' e he hid hlocheld hsame)
    · exact Or.inr haccepted
  · exact ⟨loc, by rw [heffect.other _ hid, hloc], hkept, hheld⟩

/-- The write of an acknowledgement. -/
theorem EditInv.clearPending {sys : Concurrent ι} (h : EditInv sys)
    {record current : LocalRecord} (hrecord : record ∈ sys.accepted)
    (hcurrent : sys.engine.store.getById record.id = some current)
    (hmeets : ∀ e ∈ sys.edits, e.id = record.id → e.HeldBy current.toVersionedRecord →
      e.SameClock record.toVersionedRecord → e.HeldBy record.toVersionedRecord) :
    ∀ e ∈ sys.edits, e.Safe (writeAcknowledged sys.engine.store record current) sys.accepted := by
  intro e he
  obtain ⟨r, hr, hkept, hheld⟩ := h.safe e he
  unfold writeAcknowledged
  split
  · rename_i hsame
    have hcid := LocalStore.id_of_getById hcurrent
    by_cases hid : e.id = record.id
    · obtain rfl : r = current := Option.some.inj (by rw [← hr, ← hcurrent, hid])
      refine ⟨{ r with pending := false }, ?_, hkept, fun hrheld => Or.inr ?_⟩
      · exact (LocalStore.getById_put _ _ _).trans (if_pos (hid.trans hcid.symm))
      · have hclock := Edit.sameClock_of_sameClocks (h.clock e he).1 hrheld hsame
        exact ⟨record, hrecord, hid.symm, hmeets e he hid hrheld hclock⟩
    · refine ⟨r, ?_, hkept, hheld⟩
      exact ((LocalStore.getById_put _ _ _).trans (if_neg fun heq => hid (heq.trans hcid))).trans hr
  · exact ⟨r, hr, hkept, hheld⟩

/-- More accepted versions keep an edit safe. -/
theorem Edit.Safe.accept {store : LocalStore} {accepted : List LocalRecord} {e : Edit}
    (h : e.Safe store accepted) (more : List LocalRecord) : e.Safe store (accepted ++ more) := by
  obtain ⟨r, hr, hkept, hheld⟩ := h
  refine ⟨r, hr, hkept, fun hrheld => (hheld hrheld).imp_right ?_⟩
  rintro ⟨p, hp, hpid, hpheld⟩
  exact ⟨p, List.mem_append_left more hp, hpid, hpheld⟩

variable [DecidableEq ι]

theorem EditInv.step {sys sys' : Concurrent ι} (h : EditInv sys) {action : Await ι}
    (hmeets : sys.Meets action) (hstep : sys.step action = some sys') : EditInv sys' := by
  obtain ⟨engine, calls, sync, edits, accepted⟩ := sys
  cases action with
  | mutate call id patch =>
      cases hcall : calls call with
      | some localCall => simp [Concurrent.step, hcall] at hstep
      | none =>
          simp only [Concurrent.step, hcall] at hstep
          cases hstep
          exact ⟨h.clock, h.safe, h.acknowledges⟩
  | remove call id =>
      cases hcall : calls call with
      | some localCall => simp [Concurrent.step, hcall] at hstep
      | none =>
          simp only [Concurrent.step, hcall] at hstep
          cases hstep
          exact ⟨h.clock, h.safe, h.acknowledges⟩
  | write call wall =>
      obtain ⟨localCall, hcall, rfl⟩ := Option.map_eq_some_iff.mp hstep
      have hopen : calls call = some localCall := hcall
      simp only [Concurrent.Meets, hopen] at hmeets
      cases localCall with
      | mutating existing patch =>
          obtain ⟨hclock, hsafe⟩ := h.write wall (Or.inr ⟨patch, rfl⟩) hmeets
          exact ⟨hclock, hsafe, h.acknowledges⟩
      | removing existing =>
          obtain ⟨hclock, hsafe⟩ := h.write wall (Or.inl rfl) hmeets
          exact ⟨hclock, hsafe, h.acknowledges⟩
  | pull changes checkpoint =>
      cases sync <;> cases hstep
      exact ⟨h.clock, h.safe, trivial⟩
  | readRemote =>
      cases sync <;> try cases hstep
      rename_i inbox checkpoint
      cases inbox <;> cases hstep
      exact ⟨h.clock, h.safe, trivial⟩
  | writeRemote =>
      cases sync <;> try cases hstep
      rename_i remote read rest checkpoint
      obtain ⟨hread, hties⟩ := hmeets
      obtain rfl : engine.store.getById remote.id = read := hread
      obtain ⟨store', changed, happly, heffect⟩ := applyRemote_ok engine.store remote
      rw [applyRemote_eq] at happly
      simp only [Concurrent.step, happly] at hstep
      cases hstep
      exact ⟨h.clock, h.writeRemote heffect hties, trivial⟩
  | readPending =>
      cases sync <;> try cases hstep
      rename_i inbox checkpoint
      cases inbox <;> cases hstep
      refine ⟨h.clock, h.safe, ?_⟩
      split <;> trivial
  | push acceptedIds =>
      cases sync <;> cases hstep
      rename_i pending
      refine ⟨h.clock, fun e he => (h.safe e he).accept _, fun r hr hid => ?_⟩
      exact List.mem_append_right accepted (List.mem_filter.mpr ⟨hr, decide_eq_true hid⟩)
  | readCurrent =>
      cases sync <;> try cases hstep
      rename_i pending acceptedIds
      cases pending with
      | nil => cases hstep
      | cons record rest =>
          have hrest := fun r hr => h.acknowledges r (List.mem_cons_of_mem record hr)
          simp only [Concurrent.step] at hstep
          split at hstep
          · cases hstep
            exact ⟨h.clock, h.safe, hrest⟩
          · rename_i haccepted
            split at hstep
            · cases hstep
              exact ⟨h.clock, h.safe, hrest⟩
            · cases hstep
              refine ⟨h.clock, h.safe, ?_, hrest⟩
              exact h.acknowledges record List.mem_cons_self (not_not.mp haccepted)
  | clearPending =>
      cases sync <;> cases hstep
      obtain ⟨hrecord, hrest⟩ := h.acknowledges
      exact ⟨h.clock, h.clearPending hrecord hmeets.1 hmeets.2, hrest⟩
  | finish =>
      cases sync <;> try cases hstep
      rename_i pending acceptedIds
      cases pending <;> cases hstep
      exact ⟨h.clock, h.safe, trivial⟩
  | fail =>
      cases hstep
      exact ⟨h.clock, h.safe, trivial⟩

theorem EditInv.run {sys sys' : Concurrent ι} (h : EditInv sys) {actions : List (Await ι)}
    (hmeets : sys.MeetsAll actions) (hrun : sys.run actions = some sys') : EditInv sys' := by
  induction actions generalizing sys with
  | nil => exact Option.some.inj hrun ▸ h
  | cons action rest ih =>
      obtain ⟨next, hstep, hrest⟩ := Option.bind_eq_some_iff.mp hrun
      exact ih (h.step hmeets.1.2 hstep) (hmeets.2 next hstep) hrest

/-- A device, whatever it has stored, before its calls and its sync begin. -/
def SyncEngine.start (engine : SyncEngine) (ι : Type) : Concurrent ι where
  engine := engine
  calls _ := none
  sync := .ready
  edits := []
  accepted := []

/-- **No local edit is lost** in a run whose steps all meet the condition.  Each
register a call wrote is the edit's or a later one's, and where it is the edit's
the record is pending or the edit was in an accepted push. -/
theorem edit_kept {engine : SyncEngine} {sys : Concurrent ι} {actions : List (Await ι)}
    (hmeets : (engine.start ι).MeetsAll actions) (hrun : (engine.start ι).run actions = some sys)
    (e : Edit) (he : e ∈ sys.edits) :
    ∃ r, sys.engine.store.getById e.id = some r ∧ e.Kept r.toVersionedRecord ∧
      (e.HeldBy r.toVersionedRecord → r.pending = true ∨
        ∃ p ∈ sys.accepted, p.id = e.id ∧ e.HeldBy p.toVersionedRecord) := by
  have hstart : EditInv (engine.start ι) := ⟨nofun, nofun, trivial⟩
  exact (hstart.run hmeets hrun).safe e he

/-! ## An edit between a read and its write -/

namespace Overlap

/-- A device that has created one record. -/
def engine : SyncEngine :=
  SyncEngine.create { nodeId := js "a", clock := ⟨0⟩, store := .empty, checkpoint := 0 } 1 (js "c1")
    (Dict.ofList [("title", some (.str (js "aaa")))])

/-- A new title. -/
def patch : JsObject (Option Json) := Dict.ofList [("title", some (.str (js "zzz")))]

/-- The title is edited while the device pulls. -/
def whilePulling : List (Await Nat) :=
  [.mutate 0 (js "c1") patch, .pull [] 1, .write 0 2, .readPending]

/-- The title is edited after the acknowledgement has read the record. -/
def whileAcknowledging : List (Await Nat) :=
  [.pull [] 1, .readPending, .push [js "c1"], .readCurrent, .mutate 0 (js "c1") patch,
    .write 0 2, .clearPending, .finish]

end Overlap

/-- The edit made while the device pulls. -/
theorem edit_kept_whilePulling : ∃ sys,
    (Overlap.engine.start ℕ).run Overlap.whilePulling = some sys ∧ sys.edits.length = 1 ∧
    ∀ e ∈ sys.edits, ∃ r, sys.engine.store.getById e.id = some r ∧ e.Kept r.toVersionedRecord ∧
      (e.HeldBy r.toVersionedRecord → r.pending = true ∨
        ∃ p ∈ sys.accepted, p.id = e.id ∧ e.HeldBy p.toVersionedRecord) := by
  have hlength : ((Overlap.engine.start ℕ).run Overlap.whilePulling).map (·.edits.length) =
      some 1 := by decide
  obtain ⟨sys, hrun, hedits⟩ := Option.map_eq_some_iff.mp hlength
  have hmeets : (Overlap.engine.start ℕ).MeetsAll Overlap.whilePulling := by
    have hpatch : Foundation.OrdinaryNames (SyncEngine.patched Overlap.patch) := by decide
    have hstore : Overlap.engine.store.OrdinaryNames :=
      LocalStore.ordinaryNames_empty.put (LocalRecord.ordinaryNames_created (by decide))
    refine ⟨⟨⟨hstore, hpatch⟩, trivial⟩, fun s₁ h₁ => ⟨⟨⟨?_, nofun⟩, trivial⟩, fun s₂ h₂ => ?_⟩⟩
    · cases h₁
      exact hstore
    · cases h₁
      cases h₂
      have hcall := Function.update_self (0 : ℕ)
        ((Overlap.engine.store.getById (js "c1")).map fun existing =>
          LocalCall.mutating existing Overlap.patch) (Overlap.engine.start ℕ).calls
      refine ⟨⟨⟨hstore, trivial⟩, Concurrent.meets_write hcall 2⟩, fun s₃ h₃ => ?_⟩
      rw [Concurrent.step] at h₃
      obtain ⟨opened, hopened, rfl⟩ := Option.map_eq_some_iff.mp h₃
      obtain ⟨existing, hexisting, rfl⟩ := Option.map_eq_some_iff.mp (hcall.symm.trans hopened)
      refine ⟨⟨⟨hstore.put ?_, trivial⟩, trivial⟩, fun _ _ => trivial⟩
      exact LocalRecord.ordinaryNames_mutated (hstore _ _ hexisting) hpatch
  exact ⟨sys, hrun, hedits, edit_kept hmeets hrun⟩

/-- The edit the acknowledgement writes over. -/
theorem edit_lost : ¬ ∀ (engine : SyncEngine) (sys : Concurrent ℕ) (actions : List (Await ℕ)),
    (engine.start ℕ).run actions = some sys →
      ∀ e ∈ sys.edits, ∃ r, sys.engine.store.getById e.id = some r ∧ e.Kept r.toVersionedRecord ∧
        (e.HeldBy r.toVersionedRecord → r.pending = true ∨
          ∃ p ∈ sys.accepted, p.id = e.id ∧ e.HeldBy p.toVersionedRecord) := by
  intro hclaim
  have hlost : ((Overlap.engine.start ℕ).run Overlap.whileAcknowledging).map (fun sys =>
      decide (∃ e ∈ sys.edits, ∀ r ∈ sys.engine.store.getById e.id,
        ¬ e.Kept r.toVersionedRecord)) = some true := by decide
  obtain ⟨sys, hrun, hdecide⟩ := Option.map_eq_some_iff.mp hlost
  obtain ⟨e, he, hnot⟩ := of_decide_eq_true hdecide
  obtain ⟨r, hr, hkept, -⟩ := hclaim Overlap.engine sys _ hrun e he
  exact hnot r hr hkept

end FlowLogix.Mobile
