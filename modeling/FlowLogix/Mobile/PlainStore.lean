/-
  Mobile/PlainStore.lean --- the device's store on plain objects
  (mobile/src/sync/SyncService.ts).

  `SyncEngine` keeps the records of the store as dictionaries.  Here they are plain objects,
  merged by the merge of `Crdt/PlainMerge.lean`.  A store that shows a store of dictionaries
  goes on showing it under every change that shares the inherited names of the record it is
  merged into (`applyRemote_shows`), in particular under every change where neither has one.
-/
import FlowLogix.Crdt.PlainMerge
import FlowLogix.Mobile.SyncEngine

set_option autoImplicit false

namespace FlowLogix.Mobile

open FlowLogix.Foundation FlowLogix.Crdt
open FlowLogix.Server (Clock Failure)

/-! ## The store -/

/-- `LocalRecord<F>`. -/
structure PlainLocalRecord extends PlainRecord Clock where
  /-- carries local edits not yet pushed and accepted -/
  pending : Bool

/-- `LocalStore<F>`: each record sits under its id. -/
structure PlainStore where
  rows : Dict JsString PlainLocalRecord
  keyed : ∀ id record, rows.lookup id = some record → record.id = id

/-- A record read from the device's tables: every property is its own. -/
def LocalRecord.plain (r : LocalRecord) : PlainLocalRecord where
  toPlainRecord := r.toVersionedRecord.plain
  pending := r.pending

/-- A store of such records. -/
def LocalStore.plain (store : LocalStore) : PlainStore where
  rows := store.rows.mapValues LocalRecord.plain
  keyed id record h := by
    rw [Dict.lookup_mapValues] at h
    obtain ⟨r, hr, rfl⟩ := Option.map_eq_some_iff.mp h
    exact store.keyed id r hr

namespace PlainStore

/-- `getById`. -/
def getById (store : PlainStore) (id : JsString) : Option PlainLocalRecord :=
  store.rows.lookup id

/-- `put`. -/
def put (store : PlainStore) (record : PlainLocalRecord) : PlainStore where
  rows := store.rows.insert record.id record
  keyed := by
    intro id r hr
    rw [Dict.lookup_insert_eq] at hr
    by_cases hid : id = record.id
    · rw [if_pos hid] at hr
      rw [← Option.some.inj hr, hid]
    · rw [if_neg hid] at hr
      exact store.keyed id r hr

theorem getById_put (store : PlainStore) (record : PlainLocalRecord) (id : JsString) :
    (store.put record).getById id = if id = record.id then some record else store.getById id :=
  Dict.lookup_insert_eq store.rows record.id id record

theorem id_of_getById {store : PlainStore} {id : JsString} {record : PlainLocalRecord}
    (h : store.getById id = some record) : record.id = id :=
  store.keyed id record h

end PlainStore

theorem LocalStore.getById_plain (store : LocalStore) (id : JsString) :
    store.plain.getById id = (store.getById id).map LocalRecord.plain :=
  Dict.lookup_mapValues LocalRecord.plain store.rows id

namespace Plain

/-! ## Merging a remote change -/

/-- `localIsAhead`: some local field clock is newer than the remote's, or the
tombstone is. -/
def localIsAhead (loc remote : PlainRecord Clock) : Bool :=
  (loc.clocks.own.keys.any fun key =>
      numberGt (loc.clock key).number (remote.clock key).number) ||
    decide (loc.deletedAt.getD 0 > remote.deletedAt.getD 0)

/-- `applyRemote` after its `getById`. -/
def writeRemote (store : PlainStore) (remote : PlainRecord Clock)
    (read : Option PlainLocalRecord) : Except Failure (PlainStore × Bool) :=
  match read with
  | none => .ok (store.put { remote with pending := false }, true)
  | some loc => do
      let result ←
        (Plain.mergeRecord loc.toPlainRecord remote).mapError fun e => .error e.message
      let stillPending := loc.pending && localIsAhead loc.toPlainRecord remote
      if !result.changed && stillPending == loc.pending then return (store, false)
      return (store.put { result.merged with pending := stillPending }, result.changed)

/-- `applyRemote`: the store after the change, and whether the record changed. -/
def applyRemote (store : PlainStore) (remote : PlainRecord Clock) :
    Except Failure (PlainStore × Bool) :=
  writeRemote store remote (store.getById remote.id)

/-- `applyRemote` returns before its `put`. -/
def skipsWrite (store : PlainStore) (remote : PlainRecord Clock) : Bool :=
  match store.getById remote.id with
  | none => false
  | some loc =>
      match Plain.mergeRecord loc.toPlainRecord remote with
      | .error _ => false
      | .ok result =>
          !result.changed && (loc.pending && localIsAhead loc.toPlainRecord remote) == loc.pending

theorem applyRemote_of_skipsWrite {store : PlainStore} {remote : PlainRecord Clock}
    (h : skipsWrite store remote = true) : applyRemote store remote = .ok (store, false) := by
  unfold skipsWrite at h
  split at h
  · cases h
  · rename_i loc hloc
    split at h
    · cases h
    · rename_i result hresult
      unfold applyRemote writeRemote
      simp only [hloc, hresult, Except.mapError]
      exact if_pos h

/-- A change to a record that is not there. -/
theorem applyRemote_unknown {store : PlainStore} {remote : PlainRecord Clock}
    (h : store.getById remote.id = none) :
    applyRemote store remote = .ok (store.put { remote with pending := false }, true) := by
  rw [applyRemote, h]
  rfl

/-- A change to one that is. -/
theorem applyRemote_known {store : PlainStore} (remote : PlainRecord Clock)
    {loc : PlainLocalRecord} (h : store.getById remote.id = some loc)
    {result : Crdt.Plain.MergeResult Clock}
    (hresult : Plain.mergeRecord loc.toPlainRecord remote = .ok result) :
    applyRemote store remote =
      if !result.changed && (loc.pending && localIsAhead loc.toPlainRecord remote) == loc.pending
      then .ok (store, false)
      else .ok (store.put { result.merged with
        pending := loc.pending && localIsAhead loc.toPlainRecord remote }, result.changed) := by
  rw [applyRemote, h, writeRemote, hresult]
  rfl

end Plain

/-! ## Stores of dictionaries -/

/-- A plain record shows a record of the store, and has nothing of its own under
`__proto__`. -/
structure PlainLocalRecord.ShowsLocal (p : PlainLocalRecord) (r : LocalRecord) : Prop where
  record : p.toPlainRecord.ShowsRecord r.toVersionedRecord
  noProto : "__proto__" ∉ p.fields.own ∧ "__proto__" ∉ p.clocks.own
  pending : p.pending = r.pending

/-- A plain store shows a store. -/
structure PlainStore.ShowsStore (p : PlainStore) (s : LocalStore) : Prop where
  unknown : ∀ id, s.getById id = none → p.getById id = none
  known : ∀ id r, s.getById id = some r → ∃ q, p.getById id = some q ∧ q.ShowsLocal r

section Shown

variable {p q : PlainRecord Clock} {l r : VersionedRecord Clock}

/-- A version as it arrives has what its dictionaries have. -/
theorem noProto_plain (hcomplete : r.Complete) (h : "__proto__" ∉ r.fields) :
    "__proto__" ∉ r.plain.fields.own ∧ "__proto__" ∉ r.plain.clocks.own :=
  ⟨mt PlainObject.mem_ofDict.mp h,
    mt PlainObject.mem_ofDict.mp (mt (hcomplete "__proto__").mp h)⟩

/-- The two sides of a comparison of clocks. -/
theorem localIsAhead_shows (h : p.ShowsRecord l) (h' : q.ShowsRecord r)
    (hnames : SameNames l.fields r.fields) (hp : "__proto__" ∉ p.clocks.own) :
    Plain.localIsAhead p q = localIsAhead l r := by
  unfold Plain.localIsAhead localIsAhead
  rw [h.deletedAt, h'.deletedAt]
  refine congrArg (· || _) ?_
  rw [Bool.eq_iff_iff, List.any_eq_true, List.any_eq_true]
  refine exists_congr fun key => ?_
  rw [← AList.mem_keys, ← AList.mem_keys]
  by_cases hkey : key = "__proto__"
  · subst hkey
    exact iff_of_false (fun hand => hp hand.1)
      fun hand => h.fields.noProto ((h.complete _).mp hand.1)
  · rw [← AList.lookup_isSome, h.fields.clocks key hkey, Option.isSome_map, AList.lookup_isSome]
    refine and_congr_right fun hmem => ?_
    obtain ⟨hl, hr⟩ := hnames.read hkey (Or.inl ((h.complete key).mp hmem))
    rw [h.fields.clock_eq hkey hl, h'.fields.clock_eq hkey hr]
    rfl

/-- The flags of the two merges. -/
theorem changed_shows (h : p.ShowsRecord l) (h' : q.ShowsRecord r)
    (hnames : SameNames l.fields r.fields) (hp : "__proto__" ∉ p.fields.own)
    (hq : "__proto__" ∉ q.fields.own) (hid : l.id = r.id) :
    ∃ result result', Plain.mergeRecord p q = .ok result ∧ mergeRecord l r = .ok result' ∧
      result.merged.ShowsRecord result'.merged ∧ result.changed = result'.changed ∧
      ("__proto__" ∉ result.merged.fields.own ∧ "__proto__" ∉ result.merged.clocks.own) := by
  obtain ⟨result, hok, hmerged, hchanged⟩ := Plain.mergeRecord_ok
    (show p.id = q.id by rw [h.id, h'.id, hid])
  obtain ⟨result', hok', hmerged', hchanged'⟩ := mergeRecord_ok hid
  have hproto := (Plain.merged_mergedRecord p q).lookup_proto
  refine ⟨result, result', hok, hok', ?_, ?_, ?_⟩
  · rw [hmerged, hmerged']
    exact h.mergedRecord h' hnames
  · have hdeletion : Plain.mergeDeletion p q = mergeDeletion l r := by
      rw [Plain.mergeDeletion, h.deletedAt, h'.deletedAt]
      rfl
    rw [hchanged, hchanged', h.mergeFields_changed_eq h' hnames hp hq, h.newestNode_eq h',
      hdeletion, h.deletedAt, h.nodeId]
  · rw [hmerged]
    exact ⟨AList.lookup_eq_none.mp hproto.2, AList.lookup_eq_none.mp hproto.1⟩

variable {plain : PlainStore} {store store' : LocalStore}

theorem PlainStore.ShowsStore.put (h : plain.ShowsStore store) {p : PlainLocalRecord}
    {r : LocalRecord} (hp : p.ShowsLocal r) : (plain.put p).ShowsStore (store.put r) := by
  refine ⟨fun id hid => ?_, fun id l hl => ?_⟩
  · rw [LocalStore.getById_put] at hid
    rw [PlainStore.getById_put, hp.record.id]
    split at hid
    · cases hid
    · rename_i hne
      rw [if_neg hne, h.unknown id hid]
  · rw [LocalStore.getById_put] at hl
    rw [PlainStore.getById_put, hp.record.id]
    split at hl
    · rename_i heq
      obtain rfl := Option.some.inj hl
      exact ⟨p, if_pos heq, hp⟩
    · rename_i hne
      rw [if_neg hne]
      exact h.known id l hl

/-- **Simulation.** A change is applied to the plain store as to the store it shows. -/
theorem applyRemote_shows (h : plain.ShowsStore store) (hq : q.ShowsRecord r)
    (hproto : "__proto__" ∉ q.fields.own ∧ "__proto__" ∉ q.clocks.own)
    (hnames : ∀ loc, store.getById r.id = some loc → SameNames loc.fields r.fields)
    {changed : Bool} (happly : applyRemote store r = .ok (store', changed)) :
    ∃ plain', Plain.applyRemote plain q = .ok (plain', changed) ∧ plain'.ShowsStore store' := by
  cases hstored : store.getById r.id with
  | none =>
      have hnone := h.unknown r.id hstored
      rw [← hq.id] at hnone
      rw [applyRemote, hstored] at happly
      obtain ⟨rfl, rfl⟩ := Prod.mk.inj (Except.ok.inj happly)
      exact ⟨_, Plain.applyRemote_unknown hnone, h.put ⟨hq, hproto, rfl⟩⟩
  | some l =>
      obtain ⟨p, hp, hshows⟩ := h.known r.id l hstored
      rw [← hq.id] at hp
      obtain ⟨result, result', hok, hok', hmerged, hchanged, hmergedProto⟩ :=
        changed_shows hshows.record hq (hnames l hstored) hshows.noProto.1 hproto.1
          (LocalStore.id_of_getById hstored)
      have hahead := localIsAhead_shows hshows.record hq (hnames l hstored) hshows.noProto.2
      rw [Plain.applyRemote_known q hp hok, hahead, hshows.pending, hchanged]
      simp only [applyRemote, hstored, hok', Except.mapError] at happly
      change (if _ then _ else _) = _ at happly
      split at happly
      · rename_i hskip
        obtain ⟨rfl, rfl⟩ := Prod.mk.inj (Except.ok.inj happly)
        exact ⟨plain, if_pos hskip, h⟩
      · rename_i hwrite
        obtain ⟨rfl, rfl⟩ := Prod.mk.inj (Except.ok.inj happly)
        exact ⟨_, if_neg hwrite, h.put ⟨hmerged, hmergedProto, rfl⟩⟩

/-- A store of versions as they arrive. -/
theorem showsStore_plain
    (h : ∀ id r, store.getById id = some r →
      r.toVersionedRecord.Complete ∧ "__proto__" ∉ r.fields) :
    store.plain.ShowsStore store where
  unknown id hid := by
    rw [LocalStore.getById_plain, hid]
    rfl
  known id r hr := by
    obtain ⟨hcomplete, hproto⟩ := h id r hr
    refine ⟨r.plain, ?_, shows_plain hcomplete hproto, noProto_plain hcomplete hproto, rfl⟩
    rw [LocalStore.getById_plain, hr]
    rfl

/-- Without a name of a member of `Object.prototype`, the code does what the store of
dictionaries does. -/
theorem applyRemote_shows_ordinary (hstore : store.OrdinaryNames)
    (hcomplete : ∀ id l, store.getById id = some l → l.toVersionedRecord.Complete)
    (hr : r.OrdinaryNames) (hrcomplete : r.Complete) {changed : Bool}
    (happly : applyRemote store r = .ok (store', changed)) :
    ∃ plain', Plain.applyRemote store.plain r.plain = .ok (plain', changed) ∧
      plain'.ShowsStore store' := by
  have hproto : ∀ {l : VersionedRecord Clock}, l.OrdinaryNames → "__proto__" ∉ l.fields :=
    fun hl => hl.1 _ (by decide)
  have hshows : store.plain.ShowsStore store :=
    showsStore_plain fun id l hl => ⟨hcomplete id l hl, hproto (hstore id l hl)⟩
  refine applyRemote_shows hshows (shows_plain hrcomplete (hproto hr))
    (noProto_plain hrcomplete (hproto hr)) (fun loc hloc => ?_) happly
  exact sameNames_of_ordinary (hstore _ _ hloc).1 hr.1

end Shown

end FlowLogix.Mobile
