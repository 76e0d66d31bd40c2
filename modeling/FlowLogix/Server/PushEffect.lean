/-
  Server/PushEffect.lean --- what a push of valid records leaves on the server.

  A valid change names its record by the canonical id and sends every synced
  field with a value that sanitizing accepts and the column stores as it is.
  When each record is pushed once, the row of each ends with the later of the
  two registers in every field, or, when the record was new, with the registers
  of the change.
-/
import FlowLogix.Server.SyncEffects

set_option autoImplicit false

namespace FlowLogix.Server

open FlowLogix.Foundation FlowLogix.Ordering

variable {pg : Postgres} {orgId : JsString} {c : SyncCollection}

/-! ## Valid changes -/

/-- A change of a record that is valid in its organization. -/
structure ValidChange (db : Database pg) (orgId : JsString) (c : SyncCollection)
    (change : SyncChangeDto) : Prop where
  uuid : isUuid change.id = true
  canonical : pg.uuid change.id = some change.id
  /-- every synced field is sent, with a value that is neither dropped nor
  replaced -/
  fields : ∀ field ∈ syncFields c, ∃ v, change.fields.lookup field = some v ∧
    acceptedValue db orgId field v = some v ∧ pg.store c field v = some v ∧
      insertsAsSent field v = true

instance (db : Database pg) (orgId : JsString) (c : SyncCollection) (change : SyncChangeDto) :
    Decidable (ValidChange db orgId c change) :=
  decidable_of_iff (isUuid change.id = true ∧ pg.uuid change.id = some change.id ∧
      ∀ field ∈ syncFields c, (change.fields.lookup field).any (fun v =>
        decide (acceptedValue db orgId field v = some v ∧ pg.store c field v = some v ∧
          insertsAsSent field v = true)) = true) <| by
    have hfields : ∀ field : String, (change.fields.lookup field).any (fun v =>
        decide (acceptedValue db orgId field v = some v ∧ pg.store c field v = some v ∧
          insertsAsSent field v = true)) = true ↔
        ∃ v, change.fields.lookup field = some v ∧ acceptedValue db orgId field v = some v ∧
          pg.store c field v = some v ∧ insertsAsSent field v = true := by
      intro field
      cases change.fields.lookup field <;> simp
    simp only [hfields]
    exact ⟨fun h => ⟨h.1, h.2.1, h.2.2⟩, fun h => ⟨h.uuid, h.canonical, h.fields⟩⟩

variable {db db' : Database pg} {change : SyncChangeDto}

namespace ValidChange

/-- Validity depends on the tables above the collection. -/
theorem congr (h : ValidChange db orgId c change)
    (htable : ∀ c', c' ≠ c → db'.table c' = db.table c') : ValidChange db' orgId c change where
  uuid := h.uuid
  canonical := h.canonical
  fields field hf := by
    rw [acceptedValue_congr htable hf]
    exact h.fields field hf

variable {field : String}

theorem exists_accepted (h : ValidChange db orgId c change) (hf : field ∈ syncFields c) :
    ∃ v, change.fields.lookup field = some v ∧ accepted db orgId change field = some v := by
  obtain ⟨v, hv, haccepted, -⟩ := h.fields field hf
  exact ⟨v, hv, Option.bind_eq_some_iff.mpr ⟨v, hv, haccepted⟩⟩

theorem sentAsStored (h : ValidChange db orgId c change) (hf : field ∈ syncFields c) :
    SentAsStored pg c db orgId change field := by
  obtain ⟨v, hv, haccepted, hstore, -⟩ := h.fields field hf
  intro w hw
  rw [accepted, hv, Option.bind_some, haccepted] at hw
  exact Option.some.inj hw ▸ hstore

/-- What a valid change brings for a field is what it sends. -/
theorem sentStamp_eq (h : ValidChange db orgId c change) (hf : field ∈ syncFields c) :
    sentStamp db orgId change field =
      toLex ((sentClock change field).getD 0, canonicalJson (change.fields.lookup field)) := by
  obtain ⟨v, hv, haccepted⟩ := h.exists_accepted hf
  rw [sentStamp, haccepted, hv]
  rfl

/-- A valid title is a title an insert takes. -/
theorem exists_title (h : ValidChange db orgId c change) (hf : "title" ∈ syncFields c) :
    ∃ title, asNonEmptyString (change.fields.lookup "title") = some title := by
  obtain ⟨v, hv, -, -, hsent⟩ := h.fields "title" hf
  rw [hv]
  exact Option.isSome_iff_exists.mp hsent

end ValidChange

/-! ## An insert of a valid change is not refused -/

theorem insertRow_ne_refused {now : Nat} {values : List (String × Json)} :
    insertRow db c now change values ≠ .ok .refused := by
  intro h
  obtain ⟨k, -, h⟩ := bind_eq_ok.mp h
  obtain ⟨cols, -, h⟩ := bind_eq_ok.mp h
  obtain ⟨written, -, h⟩ := bind_eq_ok.mp h
  obtain ⟨row, -, h⟩ := bind_eq_ok.mp h
  have houtcome := Except.ok.inj h
  split at houtcome <;> cases houtcome

/-- An accepted board is a uuid of a board of the organization. -/
theorem board_of_acceptedValue {v : Json} (h : acceptedValue db orgId "boardId" v = some v) :
    ∃ boardId, asUuid (some v) = some boardId ∧ db.boardInOrg boardId orgId = true := by
  obtain ⟨boardId, hboardId, hin⟩ := Option.bind_eq_some_iff.mp
    (show (asUuid (some v)).bind _ = some v from h)
  refine ⟨boardId, hboardId, ?_⟩
  by_contra hnot
  rw [if_neg hnot] at hin
  cases hin

/-- An accepted list is a uuid of a list of the organization. -/
theorem list_of_acceptedValue {v : Json} (h : acceptedValue db orgId "listId" v = some v) :
    ∃ listId, asUuid (some v) = some listId ∧ db.listInOrg listId orgId = true := by
  obtain ⟨listId, hlistId, hin⟩ := Option.bind_eq_some_iff.mp
    (show (asUuid (some v)).bind _ = some v from h)
  refine ⟨listId, hlistId, ?_⟩
  by_contra hnot
  rw [if_neg hnot] at hin
  cases hin

theorem tryInsert_ne_refused {now : Nat} (h : ValidChange db orgId c change) :
    tryInsert db orgId now change c ≠ .ok .refused := by
  intro hrefused
  cases c with
  | boards =>
      obtain ⟨title, htitle⟩ := h.exists_title (by decide)
      simp only [tryInsert, tryInsertBoard, h.uuid, htitle] at hrefused
      exact insertRow_ne_refused hrefused
  | lists =>
      obtain ⟨title, htitle⟩ := h.exists_title (by decide)
      obtain ⟨v, hv, haccepted, -⟩ := h.fields "boardId" (by decide)
      obtain ⟨boardId, hboardId, hin⟩ := board_of_acceptedValue haccepted
      simp only [tryInsert, tryInsertList, h.uuid, htitle, hv, hboardId, hin] at hrefused
      obtain ⟨positionIdx, -, hrefused⟩ := bind_eq_ok.mp hrefused
      exact insertRow_ne_refused hrefused
  | cards =>
      obtain ⟨title, htitle⟩ := h.exists_title (by decide)
      obtain ⟨v, hv, haccepted, -⟩ := h.fields "listId" (by decide)
      obtain ⟨listId, hlistId, hin⟩ := list_of_acceptedValue haccepted
      simp only [tryInsert, tryInsertCard, h.uuid, htitle, hv, hlistId, hin] at hrefused
      obtain ⟨positionIdx, -, hrefused⟩ := bind_eq_ok.mp hrefused
      exact insertRow_ne_refused hrefused

/-! ## The row of a pushed record -/

/-- The row of a record after a valid change of it: the later registers, or the
registers of the change if the record is new. -/
structure Settled (db : Database pg) (orgId : JsString) (c : SyncCollection)
    (change : SyncChangeDto) (row' : Row pg c) : Prop where
  merged : ∀ row, db.find c change.id = some row → db.owner c change.id = some orgId ∧
    (∀ field ∈ syncFields c,
      row'.stamp field = row.stamp field ⊔ sentStamp db orgId change field) ∧
      tombOf row'.syncDeletedAt = tombOf row.syncDeletedAt ⊔ tombOf change.deletedAt
  inserted : db.find c change.id = none →
    (∀ field ∈ syncFields c, row'.stamp field = sentStamp db orgId change field) ∧
      row'.syncDeletedAt = change.deletedAt

/-- Merging a valid change joins the registers. -/
theorem MergeEffect.stamp_eq {row row' : Row pg c} (h : MergeEffect db orgId change row row')
    (hvalid : ValidChange db orgId c change) {field : String} (hf : field ∈ syncFields c) :
    row'.stamp field = row.stamp field ⊔ sentStamp db orgId change field := by
  obtain ⟨v, -, haccepted⟩ := hvalid.exists_accepted hf
  exact h.stamp_of_accepted hf (hvalid.sentAsStored hf) haccepted

/-- Inserting a valid change stores its registers. -/
theorem InsertEffect.stamp_eq {mid : Database pg} {row : Row pg c}
    (h : InsertEffect mid orgId change row) (hvalid : ValidChange db orgId c change)
    {field : String} (hf : field ∈ syncFields c) :
    row.stamp field = sentStamp db orgId change field := by
  obtain ⟨v, hv, -, hstore, hsent⟩ := hvalid.fields field hf
  obtain ⟨w, hstore', hw⟩ := h.values field hf v hv hsent
  rw [hstore] at hstore'
  obtain rfl := Option.some.inj hstore'
  rw [hvalid.sentStamp_eq hf, Row.stamp, hw, hv, h.clocks, readClock, lookup_numericClocks,
    if_pos hf]
  rfl

/-- One valid change settles the row it names. -/
theorem ChangeEffect.settled {mid mid' : Database pg}
    (heffect : ChangeEffect orgId c change change.id mid mid')
    (hvalid : ValidChange db orgId c change)
    (htable : ∀ c', c' ≠ c → mid.table c' = db.table c')
    (hfind : mid.find c change.id = db.find c change.id) :
    ∃ row', mid'.find c change.id = some row' ∧ Settled db orgId c change row' := by
  cases heffect with
  | merged row row' howner hrow heffect hfind' _ =>
      have heffect := heffect.congr htable
      refine ⟨row', hfind', fun r hr => ?_, fun hnone => ?_⟩
      · obtain rfl := Option.some.inj ((hfind.symm.trans hrow).symm.trans hr)
        rw [Database.owner, hfind, Database.parentOrg_congr htable] at howner
        exact ⟨howner, fun field hf => heffect.stamp_eq hvalid hf, heffect.tombOf_eq⟩
      · rw [← hfind, hrow] at hnone
        cases hnone
  | skipped _ hrefused _ =>
      obtain ⟨now, hrefused⟩ := hrefused
      exact absurd hrefused (tryInsert_ne_refused (hvalid.congr htable))
  | inserted row hnone heffect hdb =>
      refine ⟨row, ?_, fun r hr => ?_, fun _ =>
        ⟨fun field hf => heffect.stamp_eq hvalid hf, heffect.tombstone⟩⟩
      · rw [hdb, Database.find_put, if_pos rfl]
      · rw [← hfind, hnone] at hr
        cases hr

/-- The changes before and after the one that names a record leave its row
alone. -/
theorem foldlM_other {now : Nat} {changes : List SyncChangeDto} {k : JsString}
    {loop loop' : SyncLoop pg} (hother : ∀ change ∈ changes, pg.uuid change.id ≠ some k)
    (h : changes.foldlM (processChange orgId c now) loop = .ok loop') :
    (∀ c', c' ≠ c → loop'.db.table c' = loop.db.table c') ∧
      loop'.db.find c k = loop.db.find c k := by
  refine foldlM_invariant (fun l : SyncLoop pg =>
    (∀ c', c' ≠ c → l.db.table c' = loop.db.table c') ∧ l.db.find c k = loop.db.find c k) ?_
    ⟨fun _ _ => rfl, rfl⟩ h
  rintro l change l' hmem ⟨htable, hfind⟩ hprocess
  obtain ⟨k', hk', heffect⟩ := processChange_cases hprocess
  refine ⟨fun c' hc => (heffect.table_of_ne hc).trans (htable c' hc), ?_⟩
  exact (heffect.find_of_ne fun heq => hother change hmem (by rw [hk', heq])).trans hfind

/-- Whatever starts a loop, no record leaves its organization. -/
theorem foldlM_owner {now : Nat} {changes : List SyncChangeDto} {loop loop' : SyncLoop pg}
    (h : changes.foldlM (processChange orgId c now) loop = .ok loop') {c' : SyncCollection}
    {j o : JsString} (hj : loop.db.owner c' j = some o) : loop'.db.owner c' j = some o := by
  refine foldlM_invariant (fun l : SyncLoop pg => l.db.owner c' j = some o) ?_ hj h
  intro l change l' _ hl hprocess
  obtain ⟨k, -, heffect⟩ := processChange_cases hprocess
  exact heffect.owner hl

/-- What a push does to a record it names: one change processes it, and the other
changes leave its row alone. -/
theorem processChanges_effect {now : Nat} {changes : List SyncChangeDto} {loop : SyncLoop pg}
    (hcanonical : ∀ change ∈ changes, pg.uuid change.id = some change.id)
    (hnodup : (changes.map (·.id)).Nodup)
    (h : processChanges orgId c now db changes = .ok loop) (hmem : change ∈ changes) :
    ∃ mid mid' : Database pg, ChangeEffect orgId c change change.id mid mid' ∧
      (∀ c', c' ≠ c → mid.table c' = db.table c') ∧
      mid.find c change.id = db.find c change.id ∧
      loop.db.find c change.id = mid'.find c change.id ∧
      ∀ c' j o, mid'.owner c' j = some o → loop.db.owner c' j = some o := by
  obtain ⟨pre, post, rfl⟩ := List.append_of_mem hmem
  have hothers : (∀ other ∈ pre, pg.uuid other.id ≠ some change.id) ∧
      ∀ other ∈ post, pg.uuid other.id ≠ some change.id := by
    rw [List.map_append, List.map_cons, List.nodup_append] at hnodup
    obtain ⟨-, hpost, hdisjoint⟩ := hnodup
    constructor
    · intro other hother heq
      rw [hcanonical other (List.mem_append_left _ hother)] at heq
      exact hdisjoint _ (List.mem_map_of_mem hother) _ List.mem_cons_self (Option.some.inj heq)
    · intro other hother heq
      rw [hcanonical other (by simp [hother])] at heq
      exact (List.nodup_cons.mp hpost).1 (Option.some.inj heq ▸ List.mem_map_of_mem hother)
  rw [processChanges, List.foldlM_append] at h
  obtain ⟨before, hbefore, h⟩ := bind_eq_ok.mp h
  rw [List.foldlM_cons] at h
  obtain ⟨after, hafter, h⟩ := bind_eq_ok.mp h
  obtain ⟨htable, hfind⟩ := foldlM_other hothers.1 hbefore
  obtain ⟨-, hkept⟩ := foldlM_other hothers.2 h
  obtain ⟨k, hk, heffect⟩ := processChange_cases hafter
  obtain rfl : change.id = k := Option.some.inj ((hcanonical change hmem).symm.trans hk)
  exact ⟨before.db, after.db, heffect, htable, hfind, hkept,
    fun c' j o hj => foldlM_owner h hj⟩

/-- **A push settles every record it names**, if its changes are valid and name
each record once. -/
theorem processChanges_settled {now : Nat} {changes : List SyncChangeDto} {loop : SyncLoop pg}
    (hvalid : ∀ change ∈ changes, ValidChange db orgId c change)
    (hnodup : (changes.map (·.id)).Nodup)
    (h : processChanges orgId c now db changes = .ok loop) (hmem : change ∈ changes) :
    ∃ row', loop.db.find c change.id = some row' ∧ Settled db orgId c change row' := by
  obtain ⟨mid, mid', heffect, htable, hfind, hkept, -⟩ :=
    processChanges_effect (fun other ho => (hvalid other ho).canonical) hnodup h hmem
  rw [hkept]
  exact heffect.settled (hvalid change hmem) htable hfind

/-- Every record a push of valid changes names is in the organization after it. -/
theorem processChanges_owner {now : Nat} {changes : List SyncChangeDto} {loop : SyncLoop pg}
    (horg : pg.uuid orgId = some orgId)
    (hvalid : ∀ change ∈ changes, ValidChange db orgId c change)
    (hnodup : (changes.map (·.id)).Nodup)
    (h : processChanges orgId c now db changes = .ok loop) (hmem : change ∈ changes) :
    loop.db.owner c change.id = some orgId := by
  obtain ⟨mid, mid', heffect, htable, -, -, howner⟩ :=
    processChanges_effect (fun other ho => (hvalid other ho).canonical) hnodup h hmem
  refine howner c change.id orgId ?_
  cases heffect with
  | merged row row' hmine hfind heffect hfind' hdb =>
      exact ChangeEffect.owner (.merged row row' hmine hfind heffect hfind' hdb) hmine
  | skipped _ hrefused _ =>
      obtain ⟨now, hrefused⟩ := hrefused
      exact absurd hrefused (tryInsert_ne_refused ((hvalid change hmem).congr htable))
  | inserted row hnone heffect hdb =>
      rw [hdb]
      exact Database.owner_put_self (heffect.parent horg)

end FlowLogix.Server
