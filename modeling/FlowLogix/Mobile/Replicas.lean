/-
  Mobile/Replicas.lean --- device and server after a sync.

  A sync pulls, merges and then pushes what is pending.  The server answers a
  push with the records where it holds something newer, but the transport
  returns only the accepted ids, so a newer field that the pull did not bring
  stays on the server alone.  `pushed_agree_iff` says for which pushed records
  the two sides agree afterwards.
-/
import FlowLogix.Mobile.HttpSync
import FlowLogix.Server.PushEffect

set_option autoImplicit false

namespace FlowLogix.Mobile

open FlowLogix.Foundation FlowLogix.Server
open FlowLogix.Crdt (VersionedRecord)

variable {pg : Postgres} {orgId : JsString} {c : SyncCollection}

/-! ## Valid records -/

/-- A record that the organization's server takes as it is sent. -/
def ValidRecord (db : Database pg) (orgId : JsString) (c : SyncCollection)
    (r : VersionedRecord Clock) : Prop :=
  ValidChange db orgId c (wireChange r)

instance (db : Database pg) (orgId : JsString) (c : SyncCollection) (r : VersionedRecord Clock) :
    Decidable (ValidRecord db orgId c r) :=
  inferInstanceAs (Decidable (ValidChange db orgId c (wireChange r)))

theorem lookup_wireChange_fields (r : VersionedRecord Clock) (field : String) :
    (wireChange r).fields.lookup field = readField r.fields field := by
  rw [wireChange, Dict.lookup_filterMapValues, readField]
  cases r.fields.lookup field <;> rfl

theorem sentClock_wireChange (r : VersionedRecord Clock) (field : String) :
    sentClock (wireChange r) field = r.clocks.lookup field := by
  rw [sentClock, wireChange, Dict.lookup_mapValues]
  cases r.clocks.lookup field <;> rfl

/-- A valid record is merged under its own registers. -/
theorem ValidRecord.sentStamp_eq {db : Database pg} {r : VersionedRecord Clock}
    (h : ValidRecord db orgId c r) {field : String} (hf : field ∈ syncFields c) :
    sentStamp db orgId (wireChange r) field = r.stamp field := by
  rw [ValidChange.sentStamp_eq h hf, lookup_wireChange_fields, sentClock_wireChange]
  rfl

/-- Merging two valid versions leaves a valid one. -/
theorem ValidRecord.merged {db : Database pg} {loc remote r : VersionedRecord Clock}
    (h : Merged loc remote r) (hl : ValidRecord db orgId c loc)
    (hr : ValidRecord db orgId c remote) : ValidRecord db orgId c r where
  uuid := by
    have huuid := hl.uuid
    rwa [wireChange, ← h.id] at huuid
  canonical := by
    have hcanonical := hl.canonical
    rwa [wireChange, ← h.id] at hcanonical
  fields field hf := by
    rw [lookup_wireChange_fields]
    rcases h.value field with hvalue | hvalue
    · rw [hvalue, ← lookup_wireChange_fields]
      exact hl.fields field hf
    · rw [hvalue, ← lookup_wireChange_fields]
      exact hr.fields field hf

/-! ## What a sync does to a record -/

/-- Device and server hold the same values, clocks and tombstone of a record. -/
def Agree (c : SyncCollection) (s : Session pg) (id : JsString) : Prop :=
  ∃ r row, s.engine.store.getById id = some r ∧ s.server.db.find c id = some row ∧
    (∀ field ∈ syncFields c, r.stamp field = row.stamp field) ∧ r.deletedAt = row.syncDeletedAt

variable {s : Session pg} {now : Nat}

/-- Acknowledgements change nothing but the flags. -/
theorem getById_foldl_acknowledge (accepted : List JsString) (records : List LocalRecord)
    {store : LocalStore} {id : JsString} {r : LocalRecord} (h : store.getById id = some r) :
    ∃ r', (records.foldl (acknowledge accepted) store).getById id = some r' ∧
      r'.toVersionedRecord = r.toVersionedRecord := by
  induction records generalizing store r with
  | nil => exact ⟨r, h, rfl⟩
  | cons record rest ih =>
      rw [List.foldl_cons]
      rcases getById_acknowledge accepted store record id with hsame | ⟨-, -, current, hc, -, hset⟩
      · exact ih (hsame.trans h)
      · obtain ⟨r', hr', heq⟩ := ih hset
        obtain rfl := Option.some.inj (h.symm.trans hc)
        exact ⟨r', hr', heq⟩

/-- A push of valid records settles the rows of all of them, and leaves the
versions on the device as they were sent. -/
theorem pushPending_settled {p : Pushed pg}
    (hvalid : ∀ id r, s.engine.store.getById id = some r →
      ValidRecord s.server.db orgId c r.toVersionedRecord)
    (h : pushPending orgId c now s = .ok p) {record : LocalRecord} (hrecord : record ∈ p.sent) :
    s.engine.store.getById record.id = some record ∧
      (∃ row', p.session.server.db.find c record.id = some row' ∧
        Settled s.server.db orgId c (wireChange record.toVersionedRecord) row') ∧
      ∃ r', p.session.engine.store.getById record.id = some r' ∧
        r'.toVersionedRecord = record.toVersionedRecord := by
  simp only [pushPending] at h
  split at h
  · obtain rfl := Except.ok.inj h
    cases hrecord
  · obtain ⟨res, hres, h⟩ := bind_eq_ok.mp h
    obtain ⟨result, hresult, hpair⟩ := bind_eq_ok.mp hres
    obtain rfl := Except.ok.inj hpair
    obtain rfl := Except.ok.inj h
    have hstored := (LocalStore.mem_getPending.mp hrecord).1
    obtain ⟨loop, hloop, hdb, -⟩ := sync_eq_ok hresult
    refine ⟨hstored, ?_, getById_foldl_acknowledge _ _ hstored⟩
    -- the changes of the request are the pending records, in the order of their ids
    have hperm : (orderedChanges ((s.engine.store.getPending.map
        LocalRecord.toVersionedRecord).map wireChange)).Perm
          ((s.engine.store.getPending.map LocalRecord.toVersionedRecord).map wireChange) :=
      List.perm_insertionSort _ _
    have hids : (((s.engine.store.getPending.map LocalRecord.toVersionedRecord).map
        wireChange).map (·.id)).Nodup := by
      rw [List.map_map, List.map_map]
      exact s.engine.store.nodup_getPending
    have hmem : wireChange record.toVersionedRecord ∈ orderedChanges
        ((s.engine.store.getPending.map LocalRecord.toVersionedRecord).map wireChange) :=
      hperm.mem_iff.mpr (List.mem_map_of_mem (List.mem_map_of_mem hrecord))
    have hall : ∀ change ∈ orderedChanges
        ((s.engine.store.getPending.map LocalRecord.toVersionedRecord).map wireChange),
          ValidChange s.server.db orgId c change := by
      intro change hchange
      obtain ⟨v, hv, rfl⟩ := List.mem_map.mp (hperm.mem_iff.mp hchange)
      obtain ⟨r, hr, rfl⟩ := List.mem_map.mp hv
      exact hvalid r.id r (LocalStore.mem_getPending.mp hr).1
    obtain ⟨row', hrow', hsettled⟩ := processChanges_settled hall
      ((hperm.map _).nodup_iff.mpr hids) hloop hmem
    exact ⟨row', hdb ▸ hrow', hsettled⟩

/-- A pull of valid rows keeps the store valid. -/
theorem validRecord_pullAndMerge {p : Pulled pg}
    (hlocal : ∀ id r, s.engine.store.getById id = some r →
      ValidRecord s.server.db orgId c r.toVersionedRecord)
    (hserver : ∀ k (row : Row pg c), (k, row) ∈ s.server.db.orgRows c orgId →
      ValidRecord s.server.db orgId c ((serverState row).sent k))
    (h : pullAndMerge orgId c now s = .ok p) {id : JsString} {r : LocalRecord}
    (hr : p.session.engine.store.getById id = some r) :
    ValidRecord s.server.db orgId c r.toVersionedRecord := by
  obtain ⟨happlied, -⟩ := pullAndMerge_eq_ok h
  refine applyRemotes_invariant happlied id (fun o => ∀ r, o = some r →
    ValidRecord s.server.db orgId c r.toVersionedRecord) ?_ (hlocal id) r hr
  intro v hv hid st st' heffect hst r hr
  subst hid
  obtain ⟨⟨k, row⟩, he, rfl⟩ := List.mem_map.mp hv
  have hremote : ValidRecord s.server.db orgId c ((serverState row).sent k) := by
    rw [delivered] at he
    split at he
    · exact hserver k row (mem_of_mem_page he).1
    · cases he
  cases hloc : st.getById ((serverState row).sent k).id with
  | none =>
      obtain rfl := Option.some.inj ((heffect.unseen hloc).symm.trans hr)
      exact hremote
  | some loc =>
      obtain ⟨r', hr', hmerged, -⟩ := heffect.seen loc hloc
      obtain rfl := Option.some.inj (hr'.symm.trans hr)
      exact .merged hmerged (hst loc hloc) hremote

/-! ## Agreement -/

/-- The two sides agree on a pushed record when the pushed version contained its
row, or it had none. -/
theorem agree_iff_of_settled {db : Database pg} {record : LocalRecord} {row' : Row pg c}
    {final : Session pg} (hvalid : ValidRecord db orgId c record.toVersionedRecord)
    (hrow' : final.server.db.find c record.id = some row')
    (hsettled : Settled db orgId c (wireChange record.toVersionedRecord) row')
    {r' : LocalRecord} (hr' : final.engine.store.getById record.id = some r')
    (hsame : r'.toVersionedRecord = record.toVersionedRecord) :
    Agree c final record.id ↔
      ∀ row, db.find c record.id = some row → Covers row record.toVersionedRecord := by
  constructor
  · rintro ⟨r, row₁, hr, hrow₁, hfields, htomb⟩ row hrow
    obtain rfl := Option.some.inj (hr'.symm.trans hr)
    obtain rfl := Option.some.inj (hrow'.symm.trans hrow₁)
    obtain ⟨-, hstamp, hdeleted⟩ := hsettled.merged row hrow
    rw [hsame] at hfields htomb
    refine ⟨fun field hf => ?_, ?_⟩
    · rw [hfields field hf, hstamp field hf]
      exact le_sup_left
    · rw [htomb, hdeleted]
      exact le_sup_left
  · intro hcovers
    refine ⟨r', row', hr', hrow', ?_⟩
    rw [hsame]
    cases hrow : db.find c record.id with
    | none =>
        obtain ⟨hstamp, hdeleted⟩ := hsettled.inserted hrow
        exact ⟨fun field hf => by rw [hstamp field hf, hvalid.sentStamp_eq hf], hdeleted.symm⟩
    | some row =>
        obtain ⟨-, hstamp, hdeleted⟩ := hsettled.merged row hrow
        obtain ⟨hfields, htomb⟩ := hcovers row hrow
        refine ⟨fun field hf => ?_, tombOf_injective ?_⟩
        · rw [hstamp field hf, hvalid.sentStamp_eq hf, sup_eq_right.mpr (hfields field hf)]
        · rw [hdeleted]
          exact (sup_eq_right.mpr htomb).symm

/-- **After a sync.** Local records and rows are valid in the organization, its
rows fit in one response, and the sync completes with nobody else writing.  A
pushed record is afterwards the same on both sides exactly when the server had
no row of it, or the row was stamped after the device's positive checkpoint, so
that it was pulled first, or the device's version contained the row before. -/
theorem pushed_agree_iff {pullAt pushAt : Nat} {synced : Synced pg}
    (hlocal : ∀ id r, s.engine.store.getById id = some r →
      ValidRecord s.server.db orgId c r.toVersionedRecord)
    (hserver : ∀ k (row : Row pg c), (k, row) ∈ s.server.db.orgRows c orgId →
      ValidRecord s.server.db orgId c ((serverState row).sent k))
    (hroom : (s.server.db.orgRows c orgId).length ≤ maxSyncChanges)
    (h : sync true orgId c pullAt pushAt s = .ok synced) :
    ∀ record ∈ synced.sent, (Agree c synced.session record.id ↔
      ∀ row, s.server.db.find c record.id = some row →
        (0 < s.engine.checkpoint ∧ stampedAfter s.engine.checkpoint row = true) ∨
          HasCopy s.engine.store record.id row) := by
  intro record hrecord
  obtain ⟨pulled, hpulled, h⟩ := bind_eq_ok.mp h
  obtain ⟨pushed, hpushed, h⟩ := bind_eq_ok.mp h
  obtain rfl := Except.ok.inj h
  have hdb := (pullAndMerge_eq_ok hpulled).2.2.1
  have hvalid : ∀ id r, pulled.session.engine.store.getById id = some r →
      ValidRecord pulled.session.server.db orgId c r.toVersionedRecord := by
    rw [hdb]
    exact fun id r hr => validRecord_pullAndMerge hlocal hserver hpulled hr
  obtain ⟨hstored, ⟨row', hrow', hsettled⟩, r', hr', hsame⟩ :=
    pushPending_settled hvalid hpushed hrecord
  rw [agree_iff_of_settled (hvalid _ _ hstored) hrow' hsettled hr' hsame, hdb]
  refine forall₂_congr fun row hrow => ?_
  rw [hdb] at hsettled
  have hmem : (record.id, row) ∈ s.server.db.orgRows c orgId :=
    mem_orgRows.mpr ⟨hrow, (hsettled.merged row hrow).1⟩
  have hcopy : Covers row record.toVersionedRecord ↔
      HasCopy pulled.session.engine.store record.id row := by
    refine ⟨fun hcovers => ⟨record, hstored, hcovers⟩, ?_⟩
    rintro ⟨r, hr, hcovers⟩
    exact Option.some.inj (hstored.symm.trans hr) ▸ hcovers
  rw [hcopy, hasCopy_pullAndMerge_iff hpulled hmem, delivered]
  refine or_congr_left ?_
  split
  · rename_i hcheckpoint
    rw [mem_page_iff ((List.length_filter_le _ _).trans hroom)]
    exact ⟨fun hpage => ⟨hcheckpoint, hpage.2⟩, fun hand => ⟨hmem, hand.2⟩⟩
  · rename_i hcheckpoint
    exact ⟨fun hpage => absurd hpage List.not_mem_nil, fun hand => absurd hand.1 hcheckpoint⟩

/-! ### A title the pull does not bring -/

namespace Echo

/-- The card on the server: its title was written at 5, the rest at 1. -/
def card : Row Postgres.plain .cards :=
  { Sample.card with syncClocks := Dict.ofList [("title", 5), ("description", 1),
      ("isComplete", 1), ("listId", 1), ("positionIdx", 1)] }

/-- The card on the device: an older title, and a description written at 9. -/
def edited : LocalRecord where
  id := Sample.cardId
  fields := Dict.ofList [("title", some (.str (js "Draft"))),
    ("description", some (.str (js "soon"))), ("isComplete", some (.bool false)),
    ("listId", some (.str Sample.listId)), ("positionIdx", some (.str (js "M")))]
  clocks := Dict.ofList [("title", 3), ("description", 9), ("isComplete", 1), ("listId", 1),
    ("positionIdx", 1)]
  nodeId := js "device"
  deletedAt := none
  pending := true

/-- The device at a checkpoint, and the server. -/
def session (checkpoint : Nat) : Session Postgres.plain where
  engine := {
    nodeId := js "device"
    clock := ⟨9⟩
    store := LocalStore.empty.put edited
    checkpoint := checkpoint }
  server := { db := Sample.oneCard card, lastMicros := 0 }

/-- A sync of the device. -/
def outcome (checkpoint : Nat) : Except Failure (Synced Postgres.plain) :=
  sync true Sample.orgId .cards 2 3 (session checkpoint)

theorem valid_edited : ValidRecord (Sample.oneCard card) Sample.orgId .cards
    edited.toVersionedRecord := by
  decide +kernel

theorem valid_card : ValidRecord (Sample.oneCard card) Sample.orgId .cards
    ((serverState card).sent Sample.cardId) := by
  decide +kernel

end Echo

/-- A device whose checkpoint is before the newer title pulls it first, and the
two sides agree. -/
theorem pulledTitle_agrees : ∃ synced, Echo.outcome 1 = .ok synced ∧ synced.sent.length = 1 ∧
    ∀ record ∈ synced.sent, Agree .cards synced.session record.id := by
  have hok : Echo.outcome 1 = .ok (okOr (Echo.outcome 1)
      ⟨Echo.session 1, [], ⟨.cards, 0, 0, 0, false⟩⟩) := eq_ok_okOr (by decide +kernel)
  have hlocal : ∀ id r, (Echo.session 1).engine.store.getById id = some r →
      ValidRecord (Echo.session 1).server.db Sample.orgId .cards r.toVersionedRecord := by
    intro id r hr
    rw [Echo.session, LocalStore.getById_put] at hr
    split at hr
    · exact Option.some.inj hr ▸ Echo.valid_edited
    · cases hr
  have hserver : ∀ k (row : Row Postgres.plain .cards),
      (k, row) ∈ (Echo.session 1).server.db.orgRows .cards Sample.orgId →
        ValidRecord (Echo.session 1).server.db Sample.orgId .cards ((serverState row).sent k) := by
    intro k row hrow
    obtain ⟨rfl, rfl⟩ := Sample.of_find_oneCard (mem_orgRows.mp hrow).1
    exact Echo.valid_card
  refine ⟨_, hok, by decide +kernel, fun record hrecord => ?_⟩
  refine (pushed_agree_iff hlocal hserver (by decide +kernel) hok record hrecord).mpr ?_
  intro row hrow
  obtain ⟨-, rfl⟩ := Sample.of_find_oneCard hrow
  exact Or.inl ⟨Nat.one_pos, by decide⟩

/-- A device whose checkpoint is after the newer title pushes its description,
is told that the record was accepted, and keeps the older title. -/
theorem echoedTitle_dropped :
    ValidRecord (Sample.oneCard Echo.card) Sample.orgId .cards Echo.edited.toVersionedRecord ∧
      ValidRecord (Sample.oneCard Echo.card) Sample.orgId .cards
        ((serverState Echo.card).sent Sample.cardId) ∧
      ∃ synced, Echo.outcome 1000 = .ok synced ∧
        synced.sent.map (·.id) = [Sample.cardId] ∧ synced.session.engine.store.getPending = [] ∧
          ¬ Agree .cards synced.session Sample.cardId := by
  have hok : Echo.outcome 1000 = .ok (okOr (Echo.outcome 1000)
      ⟨Echo.session 1000, [], ⟨.cards, 0, 0, 0, false⟩⟩) := eq_ok_okOr (by decide +kernel)
  generalize hdef : okOr (Echo.outcome 1000)
    ⟨Echo.session 1000, [], ⟨.cards, 0, 0, 0, false⟩⟩ = synced at hok
  have hdevice : (synced.session.engine.store.getById Sample.cardId).map
      (fun r => readClock r.clocks "title") = some 3 := by
    rw [← hdef]
    decide +kernel
  have hserver : (synced.session.server.db.find .cards Sample.cardId).map
      (fun row => readClock row.syncClocks "title") = some 5 := by
    rw [← hdef]
    decide +kernel
  refine ⟨Echo.valid_edited, Echo.valid_card, synced, hok, by rw [← hdef]; decide +kernel,
    List.eq_nil_of_length_eq_zero (by rw [← hdef]; decide +kernel), ?_⟩
  rintro ⟨r, row, hr, hrow, hfields, -⟩
  have hclock := congrArg (fun stamp => (ofLex stamp).1) (hfields "title" (by decide))
  rw [hr] at hdevice
  rw [hrow] at hserver
  have heq : (3 : Clock) = 5 :=
    (Option.some.inj hdevice).symm.trans (hclock.trans (Option.some.inj hserver))
  exact absurd heq (by decide)

end FlowLogix.Mobile
