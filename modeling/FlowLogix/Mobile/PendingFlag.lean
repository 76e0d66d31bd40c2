/-
  Mobile/PendingFlag.lean --- what a cleared `pending` flag means.

  Any number of devices create, edit and delete records, pull from a server that
  merges with `mergeServerRecord`, and push.  A device's sync is a sequence of
  steps (`SyncPhase`), each remote change and each acknowledgement one step, and
  the steps of all devices interleave in any way; a request or a response may be
  lost.

  A record whose flag is clear should hold nothing the server lacks.  Two places
  clear the flag.  `applyRemote` compares clocks only, so it takes a local value
  that ties with the remote clock and beats its text for acknowledged; and an
  edit during a push can stamp a field with the very clock the pushed version
  has, which `sameClocks` cannot tell from the version that was pushed.  `Meets`
  rules out these two, and fields named like a member of `Object.prototype`, which
  the code would read where a record lacks them; `clean_dominated` is the
  invariant of all other runs.
-/
import FlowLogix.Mobile.SyncEngine
import FlowLogix.Server.MergeAgreement

set_option autoImplicit false

namespace FlowLogix.Mobile

open FlowLogix.Foundation FlowLogix.Crdt
open FlowLogix.Server (Clock RecordState mergeServerRecord mergedClock ofClient
  lookup_merged_clocks mem_merged_fields registers_merged registers_le_of_not_changed timed_merged)

/-! ## The server -/

/-- The records of the server. -/
abbrev Records : Type := Dict JsString (RecordState Clock)

/-- One change of a push, and whether it is accepted.  `admits` is the server's
verdict on an unseen record. -/
def receive (admits : VersionedRecord Clock → Bool) (server : Records)
    (change : VersionedRecord Clock) : Records × Bool :=
  match server.lookup change.id with
  | none =>
      if admits change then (server.insert change.id (ofClient change), true)
      else (server, false)
  | some state =>
      let result := mergeServerRecord state (ofClient change)
      (if result.serverChanged then server.insert change.id result.merged else server,
        result.clientAccepted)

/-- The changes of a push, and the accepted ids. -/
def receiveAll (admits : VersionedRecord Clock → Bool) (server : Records)
    (changes : List (VersionedRecord Clock)) : Records × List JsString :=
  changes.foldl (fun acc change =>
    let received := receive admits acc.1 change
    (received.1, if received.2 then acc.2 ++ [change.id] else acc.2)) (server, [])

/-! ## The system -/

/-- Where a device is in its sync. -/
inductive SyncPhase where
  | idle
  /-- remote changes still to be applied, and the checkpoint to store then -/
  | applying (inbox : List (VersionedRecord Clock)) (checkpoint : Nat)
  /-- the request of a push is on its way -/
  | sending (pending : List LocalRecord)
  /-- pushed records still to be acknowledged, and the accepted ids -/
  | acknowledging (pending : List LocalRecord) (accepted : List JsString)

/-- A device. -/
structure Device where
  engine : SyncEngine
  phase : SyncPhase

/-- The devices and the server. -/
structure System (ι : Type) where
  devices : ι → Device
  server : Records

/-- What can happen.  `wall` is the reading of `Date.now()`. -/
inductive Action (ι : Type) where
  | create (d : ι) (wall : Nat) (id : JsString) (fields : JsObject (Option Json))
  | mutate (d : ι) (wall : Nat) (id : JsString) (patch : JsObject (Option Json))
  | remove (d : ι) (wall : Nat) (id : JsString)
  /-- the server answers a pull with the records under some ids -/
  | pull (d : ι) (ids : List JsString) (checkpoint : Nat)
  | apply (d : ι)
  | push (d : ι)
  | deliver (d : ι)
  | acknowledge (d : ι)
  | finish (d : ι)
  /-- a request or a response is lost, and the sync throws -/
  | fail (d : ι)

variable {ι : Type}

/-- One step of a device: what it becomes, and the records of the server. -/
def Device.step (admits : VersionedRecord Clock → Bool) (server : Records) (device : Device) :
    Action ι → Option (Device × Records)
  | .create _ wall id fields =>
      some ({ device with engine := device.engine.create wall id fields }, server)
  | .mutate _ wall id patch =>
      (device.engine.mutate wall id patch).toOption.map fun engine =>
        ({ device with engine := engine }, server)
  | .remove _ wall id => some ({ device with engine := device.engine.remove wall id }, server)
  | .pull _ ids checkpoint =>
      match device.phase with
      | .idle =>
          let inbox := ids.filterMap fun id => (server.lookup id).map fun state => state.sent id
          some ({ device with phase := .applying inbox checkpoint }, server)
      | _ => none
  | .apply _ =>
      match device.phase with
      | .applying (remote :: rest) checkpoint =>
          (applyRemote device.engine.store remote).toOption.map fun applied =>
            ({ engine := { device.engine with store := applied.1 }
               phase := .applying rest checkpoint }, server)
      | _ => none
  | .push _ =>
      match device.phase with
      | .applying [] checkpoint =>
          let pending := device.engine.store.getPending
          some ({ engine := { device.engine with checkpoint := checkpoint }
                  phase := if pending = [] then .idle else .sending pending }, server)
      | _ => none
  | .deliver _ =>
      match device.phase with
      | .sending pending =>
          let received := receiveAll admits server (pending.map LocalRecord.toVersionedRecord)
          some ({ device with phase := .acknowledging pending received.2 }, received.1)
      | _ => none
  | .acknowledge _ =>
      match device.phase with
      | .acknowledging (record :: rest) accepted =>
          let store := FlowLogix.Mobile.acknowledge accepted device.engine.store record
          some ({ engine := { device.engine with store := store }
                  phase := .acknowledging rest accepted }, server)
      | _ => none
  | .finish _ =>
      match device.phase with
      | .acknowledging [] _ => some ({ device with phase := .idle }, server)
      | _ => none
  | .fail _ => some ({ device with phase := .idle }, server)

/-- The device an action is of. -/
def Action.device : Action ι → ι
  | .create d .. | .mutate d .. | .remove d .. | .pull d .. | .apply d | .push d | .deliver d
  | .acknowledge d | .finish d | .fail d => d

section

variable [DecidableEq ι]

/-- One step of the system. -/
def System.step (admits : VersionedRecord Clock → Bool) (sys : System ι) (action : Action ι) :
    Option (System ι) :=
  ((sys.devices action.device).step admits sys.server action).map fun next =>
    { devices := Function.update sys.devices action.device next.1, server := next.2 }

/-- A sequence of steps. -/
def System.run (admits : VersionedRecord Clock → Bool) (sys : System ι) :
    List (Action ι) → Option (System ι)
  | [] => some sys
  | action :: rest => (sys.step admits action).bind fun next => next.run admits rest

end

/-! ## The condition on a step -/

/-- The pushed versions whose acknowledgement is still open. -/
def SyncPhase.inFlight : SyncPhase → List LocalRecord
  | .idle | .applying _ _ => []
  | .sending pending => pending
  | .acknowledging pending accepted => pending.filter fun record => record.id ∈ accepted

/-- Where two versions of a record have the same clock for a field, the first has
no greater text. -/
def TiesBelow (r v : VersionedRecord Clock) : Prop :=
  ∀ key, readClock r.clocks key = readClock v.clocks key →
    canonicalJson (readField r.fields key) ≤ canonicalJson (readField v.fields key)

/-- What the two tests that clear `pending` rely on. A remote change that is not
behind a pending record beats it on every tie; and an edit of a record whose push
is open stamps no field with the clock the pushed version has and a greater
text. No edit writes a field named like a member of `Object.prototype`. -/
def Device.Meets (device : Device) : Action ι → Prop
  | .apply _ =>
      match device.phase with
      | .applying (remote :: _) _ =>
          ∀ loc, device.engine.store.getById remote.id = some loc → loc.pending = true →
            localIsAhead loc.toVersionedRecord remote = false →
              TiesBelow loc.toVersionedRecord remote
      | _ => True
  | .mutate _ wall id patch => OrdinaryNames (SyncEngine.patched patch) ∧
      ∀ r ∈ device.phase.inFlight, r.id = id → ∀ key v,
        (SyncEngine.patched patch).lookup key = some v →
          readClock r.clocks key = (device.engine.clock.now wall).last →
            canonicalJson (some v) ≤ canonicalJson (readField r.fields key)
  | .create _ wall id fields => OrdinaryNames fields ∧
      ∀ r ∈ device.phase.inFlight, r.id = id → ∀ key,
        (if key ∈ fields then ((device.engine.clock.now wall).last : Clock) else 0) =
            readClock r.clocks key →
          canonicalJson (readField fields key) ≤ canonicalJson (readField r.fields key)
  | _ => True

/-- Every step of a sequence meets the condition. -/
def System.Meets [DecidableEq ι] (admits : VersionedRecord Clock → Bool) (sys : System ι) :
    List (Action ι) → Prop
  | [] => True
  | action :: rest => (sys.devices action.device).Meets action ∧
      ∀ next, sys.step admits action = some next → next.Meets admits rest

/-! ## What the server keeps -/

/-- What every stamped record satisfies: its clocks belong to fields and are not
negative, a deletion stamp is positive, and no field is named like a member of
`Object.prototype`. -/
structure WellStamped (r : VersionedRecord Clock) : Prop where
  names : OrdinaryNames r.fields
  timed : r.Timed
  clock_nonneg : ∀ key, 0 ≤ readClock r.clocks key
  deletedAt_pos : ∀ d, r.deletedAt = some d → 0 < d

/-- Every record of the server is well stamped. -/
def Records.WellStamped (server : Records) : Prop :=
  ∀ id s, server.lookup id = some s → Mobile.WellStamped (s.sent id)

/-- The server's record is at least a version, register by register. -/
def Dominated (server : Records) (r : VersionedRecord Clock) : Prop :=
  ∃ s, server.lookup r.id = some s ∧ r.registers ≤ s.registers

/-- No record of a server is lost, and no register of one moves back. -/
def Grows (server server' : Records) : Prop :=
  ∀ id s, server.lookup id = some s →
    ∃ s', server'.lookup id = some s' ∧ s.registers ≤ s'.registers

theorem Grows.refl (server : Records) : Grows server server :=
  fun _ s hs => ⟨s, hs, le_rfl⟩

theorem Grows.trans {a b c : Records} (hab : Grows a b) (hbc : Grows b c) : Grows a c := by
  intro id s hs
  obtain ⟨s', hs', hle⟩ := hab id s hs
  obtain ⟨s'', hs'', hle'⟩ := hbc id s' hs'
  exact ⟨s'', hs'', hle.trans hle'⟩

theorem Dominated.mono {server server' : Records} {r : VersionedRecord Clock}
    (h : Dominated server r) (hgrows : Grows server server') : Dominated server' r := by
  obtain ⟨s, hs, hle⟩ := h
  obtain ⟨s', hs', hle'⟩ := hgrows r.id s hs
  exact ⟨s', hs', hle.trans hle'⟩

/-- Writing a record that is at least the one it replaces. -/
theorem Grows.insert {server : Records} {id : JsString} {s' : RecordState Clock}
    (h : ∀ s, server.lookup id = some s → s.registers ≤ s'.registers) :
    Grows server (server.insert id s') := by
  intro key s hs
  rw [Dict.lookup_insert_eq]
  by_cases hkey : key = id
  · subst hkey
    exact ⟨s', if_pos rfl, h s hs⟩
  · exact ⟨s, (if_neg hkey).trans hs, le_rfl⟩

/-- Merging two well-stamped versions. -/
theorem wellStamped_merged {s : RecordState Clock} {c : VersionedRecord Clock}
    (hs : WellStamped (s.sent c.id)) (hc : WellStamped c) :
    WellStamped ((mergeServerRecord s (ofClient c)).merged.sent c.id) where
  names key hin hmem := (mem_merged_fields.mp hmem).elim (hs.names key hin) (hc.names key hin)
  timed := timed_merged s (ofClient c)
  clock_nonneg key := by
    rw [readClock, RecordState.sent, lookup_merged_clocks]
    split
    · rw [Option.getD_some, mergedClock]
      split
      · exact hc.clock_nonneg key
      · exact hs.clock_nonneg key
    · exact le_rfl
  deletedAt_pos d hd := by
    have hpick : pickTomb s.deletedAt c.deletedAt = some d := hd
    rcases pickTomb_eq_or s.deletedAt c.deletedAt with h | h
    · exact hs.deletedAt_pos d (h.symm.trans hpick)
    · exact hc.deletedAt_pos d (h.symm.trans hpick)

/-- Merging on a device. -/
theorem wellStamped_of_merged {loc remote r : VersionedRecord Clock} (h : Merged loc remote r)
    (hloc : WellStamped loc) (hremote : WellStamped remote) : WellStamped r where
  names key hin hmem := (h.mem key hmem).elim (hloc.names key hin) (hremote.names key hin)
  timed := h.timed hloc.timed
  clock_nonneg key := by
    have hstamp : r.stamp key = loc.stamp key ⊔ remote.stamp key :=
      congrFun (congrArg Prod.fst (h.registers hloc.timed hremote.timed)) key
    have hclock : readClock r.clocks key =
        max (readClock loc.clocks key) (readClock remote.clocks key) :=
      (congrArg (fun stamp => (ofLex stamp).1) hstamp).trans (clock_sup _ _)
    rw [hclock]
    exact le_max_of_le_left (hloc.clock_nonneg key)
  deletedAt_pos d hd := by
    rw [h.tombstone] at hd
    rcases pickTomb_eq_or loc.deletedAt remote.deletedAt with hpick | hpick
    · exact hloc.deletedAt_pos d (hpick.symm.trans hd)
    · exact hremote.deletedAt_pos d (hpick.symm.trans hd)

/-- What receiving one change does to the server. -/
theorem receive_spec (admits : VersionedRecord Clock → Bool) {server : Records}
    {change : VersionedRecord Clock} (hserver : server.WellStamped)
    (hchange : WellStamped change) :
    Grows server (receive admits server change).1 ∧
      (receive admits server change).1.WellStamped ∧
      ((receive admits server change).2 = true →
        Dominated (receive admits server change).1 change) := by
  have hinsert : ∀ s', WellStamped (s'.sent change.id) →
      Records.WellStamped (server.insert change.id s') := by
    intro s' hs' id s hs
    rw [Dict.lookup_insert_eq] at hs
    by_cases hid : id = change.id
    · rw [if_pos hid] at hs
      rwa [hid, ← Option.some.inj hs]
    · exact hserver id s (by rwa [if_neg hid] at hs)
  unfold receive
  cases hlookup : server.lookup change.id with
  | none =>
      by_cases hadmits : admits change = true
      · simp only [hadmits, if_true]
        refine ⟨Grows.insert fun s hs => ?_, hinsert _ hchange, fun _ => ?_⟩
        · rw [hlookup] at hs
          cases hs
        · exact ⟨ofClient change, AList.lookup_insert _, le_rfl⟩
      · simp only [hadmits]
        exact ⟨Grows.refl server, hserver, nofun⟩
  | some s =>
      have hs := hserver _ s hlookup
      have hmerged := registers_merged (s := s) hs.timed hchange.timed
      by_cases hwrite : (mergeServerRecord s (ofClient change)).serverChanged = true
      · simp only [hwrite, if_true]
        refine ⟨Grows.insert fun s₀ hs₀ => ?_, hinsert _ (wellStamped_merged hs hchange),
          fun _ => ⟨_, AList.lookup_insert _, ?_⟩⟩
        · rw [hlookup] at hs₀
          rw [← Option.some.inj hs₀, hmerged]
          exact le_sup_left
        · rw [hmerged]
          exact le_sup_right
      · simp only [hwrite]
        refine ⟨Grows.refl server, hserver, fun _ => ⟨s, hlookup, ?_⟩⟩
        exact registers_le_of_not_changed hs.timed hchange.timed (eq_false_of_ne_true hwrite)

/-- What receiving a list of changes does: an accepted id is of a change the
server has merged. -/
theorem receiveAll_spec (admits : VersionedRecord Clock → Bool) {server : Records}
    {changes : List (VersionedRecord Clock)} (hserver : server.WellStamped)
    (hchanges : ∀ change ∈ changes, WellStamped change) :
    Grows server (receiveAll admits server changes).1 ∧
      (receiveAll admits server changes).1.WellStamped ∧
      ∀ id ∈ (receiveAll admits server changes).2,
        ∃ change ∈ changes, change.id = id ∧
          Dominated (receiveAll admits server changes).1 change := by
  suffices h : ∀ acc : Records × List JsString, acc.1.WellStamped →
      let result := changes.foldl (fun acc change =>
        let received := receive admits acc.1 change
        (received.1, if received.2 then acc.2 ++ [change.id] else acc.2)) acc
      Grows acc.1 result.1 ∧ result.1.WellStamped ∧
        ∀ id ∈ result.2, id ∈ acc.2 ∨
          ∃ change ∈ changes, change.id = id ∧ Dominated result.1 change by
    obtain ⟨hgrows, hwell, hids⟩ := h (server, []) hserver
    refine ⟨hgrows, hwell, fun id hid => ?_⟩
    exact (hids id hid).resolve_left List.not_mem_nil
  induction changes with
  | nil => exact fun acc hacc => ⟨Grows.refl acc.1, hacc, fun id hid => Or.inl hid⟩
  | cons change rest ih =>
      intro acc hacc
      obtain ⟨hgrows, hwell, hdominated⟩ :=
        receive_spec admits hacc (hchanges change List.mem_cons_self)
      have hrest := fun c hc => hchanges c (List.mem_cons_of_mem change hc)
      obtain ⟨hgrows', hwell', hids⟩ := ih hrest
        ((receive admits acc.1 change).1,
          if (receive admits acc.1 change).2 then acc.2 ++ [change.id] else acc.2) hwell
      refine ⟨hgrows.trans hgrows', hwell', fun id hid => ?_⟩
      rcases hids id hid with hmem | ⟨c, hc, hcid, hdom⟩
      · split at hmem
        · rename_i haccepted
          rcases List.mem_append.mp hmem with hold | hnew
          · exact Or.inl hold
          · refine Or.inr ⟨change, List.mem_cons_self, (List.mem_singleton.mp hnew).symm, ?_⟩
            exact (hdominated haccepted).mono hgrows'
        · exact Or.inl hmem
      · exact Or.inr ⟨c, List.mem_cons_of_mem change hc, hcid, hdom⟩

/-! ## The invariant of a device -/

/-- Whatever a store holds under the id of a pushed version ties with it from
below. -/
def InFlight (store : LocalStore) (r : LocalRecord) : Prop :=
  ∀ current, store.getById r.id = some current →
    TiesBelow current.toVersionedRecord r.toVersionedRecord

/-- What a phase of a sync relies on. -/
def SyncPhase.Holds (server : Records) (store : LocalStore) : SyncPhase → Prop
  | .idle => True
  | .applying inbox _ => ∀ remote ∈ inbox, WellStamped remote ∧ Dominated server remote
  | .sending pending => (pending.map (·.id)).Nodup ∧
      ∀ r ∈ pending, WellStamped r.toVersionedRecord ∧ InFlight store r
  | .acknowledging pending accepted => ∀ r ∈ pending, r.id ∈ accepted →
      WellStamped r.toVersionedRecord ∧ Dominated server r.toVersionedRecord ∧ InFlight store r

/-- The invariant: what a clean record holds, the server holds. -/
structure SyncInv (server : Records) (store : LocalStore) (phase : SyncPhase) : Prop where
  stored : ∀ id r, store.getById id = some r → WellStamped r.toVersionedRecord
  clean : ∀ id r, store.getById id = some r → r.pending = false →
    Dominated server r.toVersionedRecord
  phase : phase.Holds server store

namespace SyncInv

variable {server server' : Records} {store : LocalStore} {phase : SyncPhase}

/-- The server may grow. -/
theorem grow (h : SyncInv server store phase) (hgrows : Grows server server') :
    SyncInv server' store phase where
  stored := h.stored
  clean id r hr hclean := (h.clean id r hr hclean).mono hgrows
  phase := by
    cases phase with
    | idle => trivial
    | applying inbox checkpoint =>
        exact fun remote hmem => ⟨(h.phase remote hmem).1, (h.phase remote hmem).2.mono hgrows⟩
    | sending pending => exact h.phase
    | acknowledging pending accepted =>
        intro r hr haccepted
        obtain ⟨hwell, hdominated, hflight⟩ := h.phase r hr haccepted
        exact ⟨hwell, hdominated.mono hgrows, hflight⟩

/-- A write to a store keeps the invariant when the record written is well
stamped, is dominated if it is clean, and ties from below with what is in
flight. -/
theorem put (h : SyncInv server store phase) {record : LocalRecord}
    (hwell : WellStamped record.toVersionedRecord)
    (hclean : record.pending = false → Dominated server record.toVersionedRecord)
    (hties : ∀ r ∈ phase.inFlight, r.id = record.id →
      TiesBelow record.toVersionedRecord r.toVersionedRecord) :
    SyncInv server (store.put record) phase where
  stored id r hr := by
    rw [LocalStore.getById_put] at hr
    split at hr
    · exact Option.some.inj hr ▸ hwell
    · exact h.stored id r hr
  clean id r hr hpending := by
    rw [LocalStore.getById_put] at hr
    split at hr
    · obtain rfl := Option.some.inj hr
      exact hclean hpending
    · exact h.clean id r hr hpending
  phase := by
    have hflight : ∀ r ∈ phase.inFlight, InFlight store r → InFlight (store.put record) r := by
      intro r hr hold current hcurrent
      rw [LocalStore.getById_put] at hcurrent
      split at hcurrent
      · rename_i hid
        exact Option.some.inj hcurrent ▸ hties r hr hid
      · exact hold current hcurrent
    cases phase with
    | idle => trivial
    | applying inbox checkpoint => exact h.phase
    | sending pending =>
        exact ⟨h.phase.1, fun r hr => ⟨(h.phase.2 r hr).1, hflight r hr (h.phase.2 r hr).2⟩⟩
    | acknowledging pending accepted =>
        intro r hr haccepted
        obtain ⟨hwellr, hdominated, hold⟩ := h.phase r hr haccepted
        exact ⟨hwellr, hdominated,
          hflight r (List.mem_filter.mpr ⟨hr, decide_eq_true haccepted⟩) hold⟩

/-- What is in flight ties with the store from above. -/
theorem inFlight (h : SyncInv server store phase) {r : LocalRecord} (hr : r ∈ phase.inFlight) :
    InFlight store r := by
  cases phase with
  | idle => cases hr
  | applying inbox checkpoint => cases hr
  | sending pending => exact (h.phase.2 r hr).2
  | acknowledging pending accepted =>
      obtain ⟨hmem, haccepted⟩ := List.mem_filter.mp hr
      exact (h.phase r hmem (of_decide_eq_true haccepted)).2.2

/-- Creating a record. -/
theorem create (h : SyncInv server store phase) {id nodeId : JsString} {now : Clock}
    {fields : JsObject (Option Json)} (hnow : 0 < now) (hnames : OrdinaryNames fields)
    (hmeets : ∀ r ∈ phase.inFlight, r.id = id → ∀ key,
      (if key ∈ fields then now else 0) = readClock r.clocks key →
        canonicalJson (readField fields key) ≤ canonicalJson (readField r.fields key)) :
    SyncInv server (store.put (.created id nodeId now fields)) phase := by
  refine h.put ⟨hnames, LocalRecord.timed_created, fun key => ?_, nofun⟩ nofun ?_
  · rw [LocalRecord.readClock_created]
    split
    · exact hnow.le
    · exact le_rfl
  · intro r hr hid key hclock
    rw [LocalRecord.readClock_created] at hclock
    exact hmeets r hr hid key hclock

/-- Editing a stored record. -/
theorem mutate (h : SyncInv server store phase) {existing : LocalRecord} {id nodeId : JsString}
    {now : Clock} {patch : JsObject Json} (hexisting : store.getById id = some existing)
    (hnow : 0 < now) (hnames : OrdinaryNames patch)
    (hmeets : ∀ r ∈ phase.inFlight, r.id = id → ∀ key v, patch.lookup key = some v →
      readClock r.clocks key = now →
        canonicalJson (some v) ≤ canonicalJson (readField r.fields key)) :
    SyncInv server (store.put (existing.mutated nodeId now patch)) phase := by
  have hstored := h.stored id existing hexisting
  have hexid := LocalStore.id_of_getById hexisting
  have hnames' : OrdinaryNames (existing.mutated nodeId now patch).fields := by
    intro key hin hmem
    exact (LocalRecord.mem_mutated_fields.mp hmem).elim (hstored.names key hin) (hnames key hin)
  refine h.put ⟨hnames', LocalRecord.timed_mutated hstored.timed, fun key => ?_,
    hstored.deletedAt_pos⟩ nofun ?_
  · rw [LocalRecord.readClock_mutated]
    split
    · exact hnow.le
    · exact hstored.clock_nonneg key
  · intro r hr hid key hclock
    have hrid : r.id = id := hid.trans hexid
    rw [LocalRecord.readClock_mutated] at hclock
    rw [LocalRecord.readField_mutated]
    cases hkey : patch.lookup key with
    | none =>
        rw [if_neg (AList.lookup_eq_none.mp hkey)] at hclock
        exact h.inFlight hr existing (by rw [hrid, hexisting]) key hclock
    | some v =>
        have hmem : key ∈ patch := AList.lookup_isSome.mp (by rw [hkey]; rfl)
        rw [if_pos hmem] at hclock
        exact hmeets r hr hrid key v hkey hclock.symm

/-- Deleting a stored record. -/
theorem remove (h : SyncInv server store phase) {existing : LocalRecord} {id nodeId : JsString}
    {now : Clock} (hexisting : store.getById id = some existing) (hnow : 0 < now) :
    SyncInv server (store.put (existing.removed nodeId now)) phase := by
  have hstored := h.stored id existing hexisting
  have hexid := LocalStore.id_of_getById hexisting
  refine h.put ⟨hstored.names, hstored.timed, hstored.clock_nonneg, fun d hd => ?_⟩ nofun ?_
  · exact Option.some.inj hd ▸ hnow
  · intro r hr hid
    have hrid : r.id = id := hid.trans hexid
    exact h.inFlight hr existing (by rw [hrid, hexisting])

end SyncInv

/-- A version that no clock puts ahead of a remote one and that ties with it from
below has no later register. -/
theorem registers_le_of_not_ahead {loc remote : VersionedRecord Clock} (hloc : WellStamped loc)
    (hremote : WellStamped remote) (hahead : localIsAhead loc remote = false)
    (hties : TiesBelow loc remote) : loc.registers ≤ remote.registers := by
  obtain ⟨hclocks, htomb⟩ := localIsAhead_eq_false hahead
  refine ⟨fun key => ?_, ?_⟩
  · have hle : readClock loc.clocks key ≤ readClock remote.clocks key := by
      by_cases hkey : key ∈ loc.clocks
      · exact hclocks key hkey
      · rw [readClock_of_not_mem hkey]
        exact hremote.clock_nonneg key
    rcases hle.lt_or_eq with hlt | heq
    · exact Prod.Lex.toLex_le_toLex.mpr (Or.inl hlt)
    · exact Prod.Lex.toLex_le_toLex.mpr (Or.inr ⟨heq, hties key heq⟩)
  · exact tombOf_le_of_getD_le hloc.deletedAt_pos htomb

/-- Merging a remote version the server dominates keeps the invariant. -/
theorem SyncInv.apply {server : Records} {store : LocalStore} {remote : VersionedRecord Clock}
    {rest : List (VersionedRecord Clock)} {checkpoint : Nat}
    (h : SyncInv server store (.applying (remote :: rest) checkpoint))
    (hmeets : ∀ loc, store.getById remote.id = some loc → loc.pending = true →
      localIsAhead loc.toVersionedRecord remote = false →
        TiesBelow loc.toVersionedRecord remote)
    {store' : LocalStore} (heffect : ApplyEffect store remote store') :
    SyncInv server store' (.applying rest checkpoint) := by
  obtain ⟨hwell, hdominated⟩ := h.phase remote List.mem_cons_self
  have hrecord : ∃ r, store'.getById remote.id = some r ∧ WellStamped r.toVersionedRecord ∧
      (r.pending = false → Dominated server r.toVersionedRecord) := by
    cases hloc : store.getById remote.id with
    | none => exact ⟨_, heffect.unseen hloc, hwell, fun _ => hdominated⟩
    | some loc =>
        obtain ⟨r, hr, hmerged, hpending⟩ := heffect.seen loc hloc
        have hstored := h.stored _ loc hloc
        have hjoin := hmerged.registers hstored.timed hwell.timed
        refine ⟨r, hr, wellStamped_of_merged hmerged hstored hwell, fun hclean => ?_⟩
        have hle : Dominated server loc.toVersionedRecord := by
          have hid : loc.id = remote.id := LocalStore.id_of_getById hloc
          cases hflag : loc.pending with
          | false => exact h.clean _ loc hloc hflag
          | true =>
              have hahead : localIsAhead loc.toVersionedRecord remote = false := by
                rw [hpending, hflag, Bool.true_and] at hclean
                exact hclean
              obtain ⟨s, hs, hremote⟩ := hdominated
              have hbelow := registers_le_of_not_ahead hstored hwell hahead
                (hmeets loc hloc hflag hahead)
              exact ⟨s, by rw [hid]; exact hs, hbelow.trans hremote⟩
        obtain ⟨s, hs, hlocle⟩ := hle
        obtain ⟨s', hs', hremotele⟩ := hdominated
        have hid : loc.id = remote.id := LocalStore.id_of_getById hloc
        obtain rfl : s = s' := Option.some.inj (by rw [← hs, ← hs', hid])
        refine ⟨s, ?_, ?_⟩
        · rw [hmerged.id]
          exact hs
        · rw [hjoin]
          exact sup_le hlocle hremotele
  obtain ⟨r₀, hr₀, hwell₀, hclean₀⟩ := hrecord
  refine ⟨fun id r hr => ?_, fun id r hr hclean => ?_, fun c hc => ?_⟩
  · by_cases hid : id = remote.id
    · subst hid
      exact Option.some.inj (hr₀.symm.trans hr) ▸ hwell₀
    · exact h.stored id r (by rwa [← heffect.other id hid])
  · by_cases hid : id = remote.id
    · subst hid
      obtain rfl := Option.some.inj (hr₀.symm.trans hr)
      exact hclean₀ hclean
    · exact h.clean id r (by rwa [← heffect.other id hid]) hclean
  · exact h.phase c (List.mem_cons_of_mem remote hc)

/-- The push of what is pending begins. -/
theorem SyncInv.holds_push {server : Records} {store : LocalStore} {checkpoint : Nat}
    (h : SyncInv server store (.applying [] checkpoint)) :
    (if store.getPending = [] then SyncPhase.idle else .sending store.getPending).Holds
      server store := by
  split
  · trivial
  · refine ⟨store.nodup_getPending, fun r hr => ?_⟩
    obtain ⟨hstored, -⟩ := LocalStore.mem_getPending.mp hr
    refine ⟨h.stored r.id r hstored, fun current hcurrent key _ => ?_⟩
    obtain rfl := Option.some.inj (hcurrent.symm.trans hstored)
    exact le_rfl

/-- An acknowledgement clears a flag only over what the server has. -/
theorem SyncInv.acknowledge {server : Records} {store : LocalStore} {record : LocalRecord}
    {rest : List LocalRecord} {accepted : List JsString}
    (h : SyncInv server store (.acknowledging (record :: rest) accepted)) :
    SyncInv server (Mobile.acknowledge accepted store record)
      (.acknowledging rest accepted) := by
  have hrest : SyncInv server store (.acknowledging rest accepted) :=
    ⟨h.stored, h.clean, fun r hr => h.phase r (List.mem_cons_of_mem record hr)⟩
  unfold Mobile.acknowledge
  split
  · exact hrest
  · rename_i haccepted
    split
    · exact hrest
    · rename_i current hcurrent
      split
      · rename_i hsame
        obtain ⟨htomb, hclocks⟩ := sameClocks_iff.mp hsame
        obtain ⟨hwell, ⟨s, hs, hle⟩, hflight⟩ :=
          h.phase record List.mem_cons_self (not_not.mp haccepted)
        have hstored := h.stored _ current hcurrent
        have hid := LocalStore.id_of_getById hcurrent
        have hbelow : current.registers ≤ record.registers := by
          refine ⟨fun key => ?_, tombOf_le_of_getD_le hstored.deletedAt_pos htomb.le⟩
          exact Prod.Lex.toLex_le_toLex.mpr
            (Or.inr ⟨hclocks key, hflight current hcurrent key (hclocks key)⟩)
        have hcurrent' : server.lookup current.id = some s := by
          rw [hid]
          exact hs
        refine hrest.put hstored (fun _ => ⟨s, hcurrent', hbelow.trans hle⟩)
          fun r hr hrid => hrest.inFlight hr current ?_
        have hrid' : r.id = record.id := hrid.trans hid
        rw [hrid', hcurrent]
      · exact hrest

/-! ## Every run -/

/-- One step of a device keeps its invariant, and the server only grows. -/
theorem SyncInv.step {admits : VersionedRecord Clock → Bool} {server server' : Records}
    {device device' : Device} (hserver : server.WellStamped)
    (h : SyncInv server device.engine.store device.phase) {action : Action ι}
    (hmeets : device.Meets action)
    (hstep : device.step admits server action = some (device', server')) :
    SyncInv server' device'.engine.store device'.phase ∧ Grows server server' ∧
      server'.WellStamped := by
  have hnow := fun wall => HybridClock.now_pos device.engine.clock wall
  cases action with
  | create d wall id fields =>
      cases hstep
      exact ⟨h.create (hnow wall) hmeets.1 hmeets.2, Grows.refl server, hserver⟩
  | mutate d wall id patch =>
      cases hexisting : device.engine.store.getById id with
      | none =>
          simp only [Device.step, SyncEngine.mutate, hexisting] at hstep
          cases hstep
      | some existing =>
          simp only [Device.step, SyncEngine.mutate, hexisting] at hstep
          cases hstep
          exact ⟨h.mutate hexisting (hnow wall) hmeets.1 hmeets.2, Grows.refl server, hserver⟩
  | remove d wall id =>
      cases hexisting : device.engine.store.getById id with
      | none =>
          simp only [Device.step, SyncEngine.remove, hexisting] at hstep
          cases hstep
          exact ⟨h, Grows.refl server, hserver⟩
      | some existing =>
          simp only [Device.step, SyncEngine.remove, hexisting] at hstep
          cases hstep
          exact ⟨h.remove hexisting (hnow wall), Grows.refl server, hserver⟩
  | pull d ids checkpoint =>
      obtain ⟨engine, phase⟩ := device
      cases phase with
      | idle =>
          cases hstep
          refine ⟨⟨h.stored, h.clean, fun remote hremote => ?_⟩, Grows.refl server, hserver⟩
          obtain ⟨id, -, hid⟩ := List.mem_filterMap.mp hremote
          obtain ⟨s, hs, rfl⟩ := Option.map_eq_some_iff.mp hid
          exact ⟨hserver id s hs, s, hs, le_rfl⟩
      | applying | sending | acknowledging => cases hstep
  | apply d =>
      obtain ⟨engine, phase⟩ := device
      cases phase with
      | applying inbox checkpoint =>
          cases inbox with
          | nil => cases hstep
          | cons remote rest =>
              obtain ⟨store', changed, happly, heffect⟩ := applyRemote_ok engine.store remote
              simp only [Device.step, happly] at hstep
              cases hstep
              exact ⟨h.apply hmeets heffect, Grows.refl server, hserver⟩
      | idle | sending | acknowledging => cases hstep
  | push d =>
      obtain ⟨engine, phase⟩ := device
      cases phase with
      | applying inbox checkpoint =>
          cases inbox with
          | cons remote rest => cases hstep
          | nil =>
              cases hstep
              refine ⟨⟨h.stored, h.clean, ?_⟩, Grows.refl server, hserver⟩
              exact h.holds_push
      | idle | sending | acknowledging => cases hstep
  | deliver d =>
      obtain ⟨engine, phase⟩ := device
      cases phase with
      | sending pending =>
          cases hstep
          have hchanges : ∀ change ∈ pending.map LocalRecord.toVersionedRecord,
              WellStamped change := by
            intro change hchange
            obtain ⟨r, hr, rfl⟩ := List.mem_map.mp hchange
            exact (h.phase.2 r hr).1
          obtain ⟨hgrows, hwell, hids⟩ := receiveAll_spec admits hserver hchanges
          refine ⟨⟨h.stored, (h.grow hgrows).clean, fun r hr haccepted => ?_⟩, hgrows, hwell⟩
          obtain ⟨change, hchange, hid, hdominated⟩ := hids r.id haccepted
          obtain ⟨r', hr', rfl⟩ := List.mem_map.mp hchange
          obtain rfl := List.inj_on_of_nodup_map h.phase.1 hr' hr hid
          exact ⟨(h.phase.2 r' hr).1, hdominated, (h.phase.2 r' hr).2⟩
      | idle | applying | acknowledging => cases hstep
  | acknowledge d =>
      obtain ⟨engine, phase⟩ := device
      cases phase with
      | acknowledging pending accepted =>
          cases pending with
          | nil => cases hstep
          | cons record rest =>
              cases hstep
              exact ⟨h.acknowledge, Grows.refl server, hserver⟩
      | idle | applying | sending => cases hstep
  | finish d =>
      obtain ⟨engine, phase⟩ := device
      cases phase with
      | acknowledging pending accepted =>
          cases pending with
          | nil =>
              cases hstep
              exact ⟨⟨h.stored, h.clean, trivial⟩, Grows.refl server, hserver⟩
          | cons record rest => cases hstep
      | idle | applying | sending => cases hstep
  | fail d =>
      cases hstep
      exact ⟨⟨h.stored, h.clean, trivial⟩, Grows.refl server, hserver⟩

/-- A system at its start: nothing is stored and no sync is running. -/
structure System.Fresh (sys : System ι) : Prop where
  server : sys.server.WellStamped
  stores : ∀ d, (sys.devices d).engine.store = .empty
  phases : ∀ d, (sys.devices d).phase = .idle

/-- The invariant of the whole system. -/
structure SystemInv (sys : System ι) : Prop where
  server : sys.server.WellStamped
  devices : ∀ d, SyncInv sys.server (sys.devices d).engine.store (sys.devices d).phase

theorem System.Fresh.inv {sys : System ι} (h : sys.Fresh) : SystemInv sys where
  server := h.server
  devices d := by
    rw [h.stores d, h.phases d]
    exact ⟨nofun, nofun, trivial⟩

variable [DecidableEq ι]

theorem SystemInv.step {admits : VersionedRecord Clock → Bool} {sys sys' : System ι}
    (h : SystemInv sys) {action : Action ι} (hmeets : (sys.devices action.device).Meets action)
    (hstep : sys.step admits action = some sys') : SystemInv sys' := by
  obtain ⟨⟨device', server'⟩, hdevice, rfl⟩ := Option.map_eq_some_iff.mp hstep
  obtain ⟨hinv, hgrows, hwell⟩ := (h.devices action.device).step h.server hmeets hdevice
  refine ⟨hwell, fun d => ?_⟩
  by_cases hd : d = action.device
  · subst hd
    simpa using hinv
  · simpa [Function.update_of_ne hd] using (h.devices d).grow hgrows

theorem SystemInv.run {admits : VersionedRecord Clock → Bool} {sys sys' : System ι}
    (h : SystemInv sys) {actions : List (Action ι)} (hmeets : sys.Meets admits actions)
    (hrun : sys.run admits actions = some sys') : SystemInv sys' := by
  induction actions generalizing sys with
  | nil => exact Option.some.inj hrun ▸ h
  | cons action rest ih =>
      obtain ⟨next, hstep, hrest⟩ := Option.bind_eq_some_iff.mp hrun
      exact ih (h.step hmeets.1 hstep) (hmeets.2 next hstep) hrest

/-- **A clean record holds nothing the server lacks**, in every run whose steps
all meet the condition: the server's register of each field is at least the
local one, and likewise its deletion register. -/
theorem clean_dominated {admits : VersionedRecord Clock → Bool} {start sys : System ι}
    (hstart : start.Fresh) {actions : List (Action ι)} (hmeets : start.Meets admits actions)
    (hrun : start.run admits actions = some sys) (d : ι) (id : JsString) (r : LocalRecord)
    (hr : (sys.devices d).engine.store.getById id = some r) (hclean : r.pending = false) :
    ∃ s, sys.server.lookup r.id = some s ∧ (∀ key, r.stamp key ≤ s.stamp key) ∧
      tombOf r.deletedAt ≤ tombOf s.deletedAt := by
  obtain ⟨s, hs, hle⟩ := ((hstart.inv.run hmeets hrun).devices d).clean id r hr hclean
  exact ⟨s, hs, hle.1, hle.2⟩

/-! ## Two devices -/

namespace Tie

/-- Two devices that hold nothing, and an empty server. -/
def start : System Bool where
  devices d :=
    { engine :=
        { nodeId := if d then js "a" else js "b", clock := ⟨0⟩, store := .empty, checkpoint := 0 }
      phase := .idle }
  server := ∅

theorem fresh : start.Fresh := ⟨nofun, fun _ => rfl, fun _ => rfl⟩

/-- One device creates a record and pushes it. -/
def pushed : List (Action Bool) :=
  [.create true 1 (js "c1") (Dict.ofList [("title", some (.str (js "aaa")))]),
    .pull true [] 0, .push true, .deliver true, .acknowledge true, .finish true]

/-- The other pulls it, edits it in the millisecond of its creation, and pulls it
again. -/
def edited : List (Action Bool) :=
  [.pull false [js "c1"] 1, .apply false, .push false,
    .mutate false 1 (js "c1") (Dict.ofList [("title", some (.str (js "zzz")))]),
    .pull false [js "c1"] 1, .apply false]

/-- Whether a device's record is pending, and whether the server's title is at
least the local one. -/
def observe (d : Bool) (sys : System Bool) : Option (Bool × Bool) :=
  ((sys.devices d).engine.store.getById (js "c1")).bind fun r =>
    (sys.server.lookup (js "c1")).map fun s =>
      (r.pending, decide (r.stamp "title" ≤ s.stamp "title"))

theorem of_observe (d : Bool) (flags : Bool × Bool) (actions : List (Action Bool))
    (h : (start.run (fun _ => true) actions).bind (observe d) = some flags) :
    ∃ sys r s, start.run (fun _ => true) actions = some sys ∧
      (sys.devices d).engine.store.getById (js "c1") = some r ∧
      sys.server.lookup (js "c1") = some s ∧ r.pending = flags.1 ∧
      decide (r.stamp "title" ≤ s.stamp "title") = flags.2 := by
  obtain ⟨sys, hrun, hobserve⟩ := Option.bind_eq_some_iff.mp h
  obtain ⟨r, hr, hmap⟩ := Option.bind_eq_some_iff.mp hobserve
  obtain ⟨s, hs, rfl⟩ := Option.map_eq_some_iff.mp hmap
  exact ⟨sys, r, s, hrun, hr, hs, rfl, rfl⟩

end Tie

/-- The device that created the record. -/
theorem clean_dominated_pushed : ∃ sys r, Tie.start.run (fun _ => true) Tie.pushed = some sys ∧
    (sys.devices true).engine.store.getById (js "c1") = some r ∧ r.pending = false ∧
    ∃ s, sys.server.lookup r.id = some s ∧ (∀ key, r.stamp key ≤ s.stamp key) ∧
      tombOf r.deletedAt ≤ tombOf s.deletedAt := by
  obtain ⟨sys, r, -, hrun, hr, -, hclean, -⟩ :=
    Tie.of_observe true (false, true) Tie.pushed (by decide +kernel)
  have hmeets : Tie.start.Meets (fun _ => true) Tie.pushed :=
    ⟨⟨by decide, nofun⟩, fun _ _ => ⟨trivial, fun _ _ => ⟨trivial, fun _ _ => ⟨trivial, fun _ _ =>
      ⟨trivial, fun _ _ => ⟨trivial, fun _ _ => trivial⟩⟩⟩⟩⟩⟩
  exact ⟨sys, r, hrun, hr, hclean, clean_dominated Tie.fresh hmeets hrun true _ r hr hclean⟩

/-- The edit made in the millisecond of the creation ends up clean, and the
server never sees it. -/
theorem tied_edit_clean : ¬ ∀ (start sys : System Bool) (actions : List (Action Bool)),
    start.Fresh → start.run (fun _ => true) actions = some sys →
      ∀ d id r, (sys.devices d).engine.store.getById id = some r → r.pending = false →
        ∃ s, sys.server.lookup r.id = some s ∧ (∀ key, r.stamp key ≤ s.stamp key) ∧
          tombOf r.deletedAt ≤ tombOf s.deletedAt := by
  intro hclaim
  obtain ⟨sys, r, s, hrun, hr, hs, hclean, hlater⟩ :=
    Tie.of_observe false (false, false) (Tie.pushed ++ Tie.edited) (by decide +kernel)
  obtain ⟨s', hs', hle, -⟩ := hclaim Tie.start sys _ Tie.fresh hrun false _ r hr hclean
  rw [LocalStore.id_of_getById hr, hs] at hs'
  obtain rfl := Option.some.inj hs'
  exact of_decide_eq_false hlater (hle "title")

end FlowLogix.Mobile
