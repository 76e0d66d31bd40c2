/-
  Server/RebalanceOrder.lean --- a rebalance keeps the order of every column.

  The rows of a parent are read in order, ties broken by creation time and id, and
  written back with ascending keys.  `orderedIds_eq` is the reason why nothing moves:
  a parent's order is the one strictly ascending list of its rows, so the list that
  was read is still the order once its rows carry ascending keys.

  `Rekeyed` is what the loop over the parents has done so far.  Each pass touches the
  rows of one parent and no other parent's, so the passes do not meet.
-/
import FlowLogix.Ordering.EvenSpread
import FlowLogix.Server.WebEffects

set_option autoImplicit false

namespace FlowLogix.Server.PositionRebalanceService

open FlowLogix.Foundation FlowLogix.Ordering

variable {pg : Postgres} {orgId parent : JsString} {c : SyncCollection} {db db' : Database pg}

/-! ## The order of a parent -/

/-- The sort key of the row with an id. -/
def sortKeyAt (db : Database pg) (c : SyncCollection) (id : JsString) :
    JsString ×ₗ Int ×ₗ JsString :=
  (db.find c id).elim (toLex ([], toLex (0, id))) fun row => sortKey (id, row)

theorem sortKeyAt_of_find {id : JsString} {row : Row pg c} (h : db.find c id = some row) :
    sortKeyAt db c id = sortKey (id, row) := by
  rw [sortKeyAt, h]
  rfl

/-- Position keys that differ decide the order. -/
theorem sortKey_lt_of_text {e e' : JsString × Row pg c} {key key' : JsString}
    (h : e.2.text "positionIdx" = some key) (h' : e'.2.text "positionIdx" = some key')
    (hlt : key < key') : sortKey e < sortKey e' := by
  rw [sortKey, sortKey, h, h']
  exact Prod.Lex.toLex_lt_toLex.mpr (Or.inl hlt)

/-- The order never goes against the position keys. -/
theorem text_le_of_sortKey_lt {e e' : JsString × Row pg c} {key key' : JsString}
    (h : e.2.text "positionIdx" = some key) (h' : e'.2.text "positionIdx" = some key')
    (hlt : sortKey e < sortKey e') : key ≤ key' := by
  by_contra hnot
  exact absurd (sortKey_lt_of_text h' h (not_le.mp hnot)) hlt.asymm

/-- The id is part of the key, so no two rows tie. -/
theorem sortKeyAt_injective : Function.Injective (sortKeyAt db c) := by
  have hid : ∀ id, (ofLex (ofLex (sortKeyAt db c id)).2).2 = id := by
    intro id
    rw [sortKeyAt]
    cases db.find c id <;> rfl
  intro i j h
  rw [← hid i, ← hid j, h]

/-- The rows of a parent of the organization. -/
theorem mem_orderedIds {id : JsString} :
    id ∈ orderedIds db c orgId parent ↔ ∃ row, db.find c id = some row ∧
      db.owner c id = some orgId ∧ row.text (parentProperty c) = some parent := by
  unfold orderedIds
  constructor
  · intro h
    obtain ⟨⟨j, row⟩, hmem, rfl⟩ := List.mem_map.mp h
    obtain ⟨hmem, hparent⟩ := List.mem_filter.mp ((List.mem_insertionSort _).mp hmem)
    obtain ⟨hfind, howner⟩ := mem_orgRows.mp hmem
    exact ⟨row, hfind, howner, of_decide_eq_true hparent⟩
  · rintro ⟨row, hfind, howner, hparent⟩
    refine List.mem_map.mpr ⟨(id, row), (List.mem_insertionSort _).mpr ?_, rfl⟩
    exact List.mem_filter.mpr ⟨mem_orgRows.mpr ⟨hfind, howner⟩, decide_eq_true hparent⟩

theorem nodup_orderedIds : (orderedIds db c orgId parent).Nodup := by
  unfold orderedIds
  rw [((List.perm_insertionSort _ _).map Prod.fst).nodup_iff]
  exact List.Nodup.sublist (List.Sublist.map _ List.filter_sublist) nodup_orgRows

/-- The rows of a parent are read in ascending order. -/
theorem orderedIds_ascending :
    (orderedIds db c orgId parent).Pairwise fun i j => sortKeyAt db c i < sortKeyAt db c j := by
  have hsorted : (((db.orgRows c orgId).filter fun e =>
      e.2.text (parentProperty c) = some parent).insertionSort fun e e' =>
        sortKey e ≤ sortKey e').Pairwise fun e e' => sortKey e ≤ sortKey e' :=
    List.pairwise_insertionSort _ _
  have hle : (orderedIds db c orgId parent).Pairwise fun i j =>
      sortKeyAt db c i ≤ sortKeyAt db c j := by
    unfold orderedIds
    rw [List.pairwise_map]
    refine hsorted.imp_of_mem fun {e e'} he he' hle => ?_
    have hfind : ∀ e : JsString × Row pg c, e ∈ ((db.orgRows c orgId).filter fun e =>
        e.2.text (parentProperty c) = some parent).insertionSort (fun e e' =>
          sortKey e ≤ sortKey e') → sortKeyAt db c e.1 = sortKey e := by
      intro e he
      have hmem := (List.mem_filter.mp ((List.mem_insertionSort _).mp he)).1
      exact sortKeyAt_of_find (mem_orgRows.mp hmem).1
    rwa [hfind e he, hfind e' he']
  have hne : (orderedIds db c orgId parent).Pairwise (· ≠ ·) := nodup_orderedIds
  exact hle.imp₂ (fun i j hle hne => lt_of_le_of_ne hle (sortKeyAt_injective.ne hne)) hne

/-- The order of a parent is the one ascending list of its rows. -/
theorem orderedIds_eq {ids : List JsString}
    (hmem : ∀ id, id ∈ ids ↔ id ∈ orderedIds db c orgId parent)
    (hsorted : ids.Pairwise fun i j => sortKeyAt db c i < sortKeyAt db c j) :
    orderedIds db c orgId parent = ids := by
  have hnodup : ids.Nodup := by
    refine hsorted.imp fun {i j} hlt heq => ?_
    rw [heq] at hlt
    exact lt_irrefl _ hlt
  have hperm : (orderedIds db c orgId parent).Perm ids :=
    (List.perm_ext_iff_of_nodup nodup_orderedIds hnodup).mpr fun id => (hmem id).symm
  refine hperm.eq_of_pairwise ?_ orderedIds_ascending hsorted
  intro i j _ _ hlt hgt
  exact absurd hgt hlt.asymm

/-! ## Rows up to their keys -/

/-- The position key of the row with an id. -/
def keyAt (db : Database pg) (c : SyncCollection) (id : JsString) : Option JsString :=
  (db.find c id).bind (·.text "positionIdx")

/-- Two versions of a row that differ in the position key at most. -/
structure OffKey (row row' : Row pg c) : Prop where
  columns : ∀ field, field ≠ "positionIdx" →
    row'.columns.lookup field = row.columns.lookup field
  createdAt : row'.createdAt = row.createdAt
  syncClocks : row'.syncClocks = row.syncClocks
  nodeId : row'.nodeId = row.nodeId
  syncDeletedAt : row'.syncDeletedAt = row.syncDeletedAt

theorem OffKey.refl (row : Row pg c) : OffKey row row :=
  ⟨fun _ _ => rfl, rfl, rfl, rfl, rfl⟩

theorem OffKey.trans {row row' row'' : Row pg c} (h : OffKey row row') (h' : OffKey row' row'') :
    OffKey row row'' where
  columns field hf := (h'.columns field hf).trans (h.columns field hf)
  createdAt := h'.createdAt.trans h.createdAt
  syncClocks := h'.syncClocks.trans h.syncClocks
  nodeId := h'.nodeId.trans h.nodeId
  syncDeletedAt := h'.syncDeletedAt.trans h.syncDeletedAt

theorem parentProperty_ne_positionIdx (c : SyncCollection) : parentProperty c ≠ "positionIdx" := by
  cases c <;> decide

/-- Tables that differ in the position keys of one collection at most. -/
structure SameOffKeys (c : SyncCollection) (db db' : Database pg) : Prop where
  table : ∀ c', c' ≠ c → db'.table c' = db.table c'
  absent : ∀ id, db.find c id = none → db'.find c id = none
  rows : ∀ id row, db.find c id = some row → ∃ row', db'.find c id = some row' ∧ OffKey row row'

namespace SameOffKeys

theorem refl (db : Database pg) : SameOffKeys c db db :=
  ⟨fun _ _ => rfl, fun _ h => h, fun _ row h => ⟨row, h, .refl row⟩⟩

theorem trans {db'' : Database pg} (h : SameOffKeys c db db') (h' : SameOffKeys c db' db'') :
    SameOffKeys c db db'' where
  table c' hc := (h'.table c' hc).trans (h.table c' hc)
  absent id hid := h'.absent id (h.absent id hid)
  rows id row hrow := by
    obtain ⟨row', hrow', hoff⟩ := h.rows id row hrow
    obtain ⟨row'', hrow'', hoff'⟩ := h'.rows id row' hrow'
    exact ⟨row'', hrow'', hoff.trans hoff'⟩

/-- A row of the later tables was there before. -/
theorem exists_row (h : SameOffKeys c db db') {id : JsString} {row' : Row pg c}
    (hrow' : db'.find c id = some row') : ∃ row, db.find c id = some row ∧ OffKey row row' := by
  cases hfind : db.find c id with
  | none =>
      rw [h.absent id hfind] at hrow'
      cases hrow'
  | some row =>
      obtain ⟨r, hr, hoff⟩ := h.rows id row hfind
      rw [hrow'] at hr
      obtain rfl := Option.some.inj hr
      exact ⟨row, rfl, hoff⟩

/-- The owners are the same. -/
theorem owner_eq (h : SameOffKeys c db db') (id : JsString) : db'.owner c id = db.owner c id := by
  rw [Database.owner, Database.owner, Database.parentOrg_congr h.table]
  cases hfind : db.find c id with
  | none => rw [h.absent id hfind]
  | some row =>
      obtain ⟨row', hrow', hoff⟩ := h.rows id row hfind
      rw [hrow', Option.bind_some, Option.bind_some]
      exact db.parentOrg_eq_of_lookup (hoff.columns _ (parentProperty_ne_positionIdx c))

/-- Each parent has the same rows. -/
theorem mem_orderedIds_iff (h : SameOffKeys c db db') {id : JsString} :
    id ∈ orderedIds db' c orgId parent ↔ id ∈ orderedIds db c orgId parent := by
  rw [mem_orderedIds, mem_orderedIds, h.owner_eq]
  constructor
  · rintro ⟨row', hrow', howner, hparent⟩
    obtain ⟨row, hrow, hoff⟩ := h.exists_row hrow'
    refine ⟨row, hrow, howner, ?_⟩
    rwa [Row.text_congr (hoff.columns _ (parentProperty_ne_positionIdx c))] at hparent
  · rintro ⟨row, hrow, howner, hparent⟩
    obtain ⟨row', hrow', hoff⟩ := h.rows id row hrow
    refine ⟨row', hrow', howner, ?_⟩
    rwa [Row.text_congr (hoff.columns _ (parentProperty_ne_positionIdx c))]

/-- Where its rows are as they were, a parent is in the same order. -/
theorem orderedIds_of_kept (h : SameOffKeys c db db')
    (hkept : ∀ id ∈ orderedIds db c orgId parent, db'.find c id = db.find c id) :
    orderedIds db' c orgId parent = orderedIds db c orgId parent := by
  refine orderedIds_eq (fun id => h.mem_orderedIds_iff.symm) ?_
  refine orderedIds_ascending.imp_of_mem fun {i j} hi hj hlt => ?_
  rwa [sortKeyAt, sortKeyAt, hkept i hi, hkept j hj]

/-- Where its rows carry ascending keys, a parent is in the same order. -/
theorem orderedIds_of_ascending (h : SameOffKeys c db db') {keys : List JsString}
    (hsorted : keys.Pairwise (· < ·))
    (hkeys : (orderedIds db c orgId parent).map (keyAt db' c) = keys.map some) :
    orderedIds db' c orgId parent = orderedIds db c orgId parent := by
  refine orderedIds_eq (fun id => h.mem_orderedIds_iff.symm) ?_
  have hmapped : ((orderedIds db c orgId parent).map (keyAt db' c)).Pairwise fun a b =>
      ∃ k k', a = some k ∧ b = some k' ∧ k < k' := by
    rw [hkeys, List.pairwise_map]
    exact hsorted.imp fun {k k'} hlt => ⟨k, k', rfl, rfl, hlt⟩
  rw [List.pairwise_map] at hmapped
  refine hmapped.imp fun {i j} ⟨k, k', hk, hk', hlt⟩ => ?_
  obtain ⟨row, hrow, htext⟩ := Option.bind_eq_some_iff.mp hk
  obtain ⟨row', hrow', htext'⟩ := Option.bind_eq_some_iff.mp hk'
  rw [sortKeyAt_of_find hrow, sortKeyAt_of_find hrow']
  exact sortKey_lt_of_text htext htext' hlt

end SameOffKeys

/-! ## One parent -/

/-- The position column keeps a Base62 key as it is: it is a `varchar(255)`. -/
def KeepsKeys (pg : Postgres) : Prop :=
  ∀ c key, PositionService.isValid key = true → key.length ≤ 255 →
    pg.store c "positionIdx" (.str key) = some (.str key)

/-- Keys as `rebalance` makes them: ascending, valid and short. -/
structure FreshKeys (keys : List JsString) : Prop where
  ascending : keys.Pairwise (· < ·)
  valid : ∀ key ∈ keys, PositionService.isValid key = true
  short : ∀ key ∈ keys, key.length ≤ 8

theorem freshKeys_of_rebalancedKeys {count : Nat} {keys : List JsString}
    (h : PositionService.rebalancedKeys count = .ok keys) :
    keys.length = count ∧ FreshKeys keys := by
  obtain ⟨hlength, hascending, hkeys⟩ := FractionalIndexer.rebalance_eq_ok h
  refine ⟨hlength, hascending, fun key hkey => ?_, fun key hkey => ?_⟩
  · exact (hkeys key hkey).1.isValidKey base62_plain
  · exact length_le_eight (hkeys key hkey).2

/-- Writing a key that its column keeps. -/
theorem writeKey_eq_ok (hpg : KeepsKeys pg) {id key : JsString}
    (hvalid : PositionService.isValid key = true) (hshort : key.length ≤ 8) {row : Row pg c}
    (hfind : db.find c id = some row) (h : writeKey c db (id, key) = .ok db') :
    ∃ row', db' = db.put id row' ∧ OffKey row row' ∧ row'.text "positionIdx" = some key := by
  unfold writeKey at h
  rw [hfind] at h
  obtain ⟨row', hwrite, hput⟩ := bind_eq_ok.mp h
  have hnodup : ([("positionIdx", Json.str key)].map Prod.fst).Nodup := by simp
  obtain ⟨hin, hout, -⟩ := Row.writeColumns_eq_ok hnodup hwrite
  obtain ⟨hcreated, hclocks, hnode, hdeleted⟩ := Row.writeColumns_frame hwrite
  obtain ⟨w, hstore, hw⟩ := hin "positionIdx" (.str key) List.mem_cons_self
  rw [hpg c key hvalid (by omega)] at hstore
  obtain rfl := Option.some.inj hstore
  refine ⟨row', (Except.ok.inj hput).symm, ⟨fun field hf => ?_, hcreated, hclocks, hnode, hdeleted⟩,
    by rw [Row.text, hw]⟩
  exact hout field (by simpa using hf)

theorem SameOffKeys.put {id : JsString} {row row' : Row pg c} (hfind : db.find c id = some row)
    (hoff : OffKey row row') : SameOffKeys c db (db.put id row') where
  table c' hc := db.table_put_of_ne id row' hc
  absent j hj := by
    rw [Database.find_put, if_neg]
    · exact hj
    · rintro rfl
      rw [hfind] at hj
      cases hj
  rows j r hr := by
    rw [Database.find_put]
    by_cases h : j = id
    · subst h
      obtain rfl : r = row := Option.some.inj (hr.symm.trans hfind)
      exact ⟨row', if_pos rfl, hoff⟩
    · exact ⟨r, by rw [if_neg h, hr], .refl r⟩

/-- The batched update of a parent: its rows take their keys, in order, and the others
stay. -/
theorem writeKeys_eq_ok (hpg : KeepsKeys pg) {ids keys : List JsString} (hnodup : ids.Nodup)
    (hlength : keys.length = ids.length)
    (hvalid : ∀ key ∈ keys, PositionService.isValid key = true ∧ key.length ≤ 8)
    (hrows : ∀ id ∈ ids, (db.find c id).isSome = true)
    (h : (ids.zip keys).foldlM (writeKey c) db = .ok db') :
    SameOffKeys c db db' ∧ (∀ id, id ∉ ids → db'.find c id = db.find c id) ∧
      ids.map (keyAt db' c) = keys.map some := by
  induction ids generalizing db keys with
  | nil =>
      obtain rfl := List.length_eq_zero_iff.mp hlength
      obtain rfl := Except.ok.inj h
      exact ⟨.refl db, fun _ _ => rfl, rfl⟩
  | cons id ids ih =>
      cases keys with
      | nil => cases hlength
      | cons key keys =>
          obtain ⟨hid, hnodup⟩ := List.nodup_cons.mp hnodup
          obtain ⟨hkey, hkeys⟩ := List.forall_mem_cons.mp hvalid
          obtain ⟨row, hfind⟩ := Option.isSome_iff_exists.mp (hrows id List.mem_cons_self)
          rw [List.zip_cons_cons, List.foldlM_cons] at h
          obtain ⟨mid, hmid, h⟩ := bind_eq_ok.mp h
          obtain ⟨row', rfl, hoff, htext⟩ := writeKey_eq_ok hpg hkey.1 hkey.2 hfind hmid
          have hput := SameOffKeys.put hfind hoff
          obtain ⟨hsame, hother, hmap⟩ := ih hnodup (by simpa using hlength) hkeys (fun j hj => by
            obtain ⟨r, hr⟩ := Option.isSome_iff_exists.mp (hrows j (List.mem_cons_of_mem id hj))
            obtain ⟨r', hr', -⟩ := hput.rows j r hr
            exact Option.isSome_of_eq_some hr') h
          refine ⟨hput.trans hsame, fun j hj => ?_, ?_⟩
          · rw [List.mem_cons, not_or] at hj
            rw [hother j hj.2, Database.find_put, if_neg hj.1]
          · rw [List.map_cons, List.map_cons, hmap, keyAt, hother id hid, Database.find_put,
              if_pos rfl, Option.bind_some, htext]

theorem exists_writeKeys (hpg : KeepsKeys pg) {pairs : List (JsString × JsString)}
    (hvalid : ∀ pair ∈ pairs, PositionService.isValid pair.2 = true ∧ pair.2.length ≤ 8) :
    ∃ db', pairs.foldlM (writeKey c) db = .ok db' := by
  refine exists_foldlM (fun _ _ => True) (fun pre pair post mid hl _ => ?_) trivial
  obtain ⟨hkey, hshort⟩ := hvalid pair (by simp [hl])
  unfold writeKey
  split
  · exact ⟨mid, rfl, trivial⟩
  · rename_i row hfind
    have hstore : ∀ p ∈ [("positionIdx", Json.str pair.2)],
        (pg.store c p.1 p.2).isSome = true := by
      intro p hp
      obtain rfl := List.mem_singleton.mp hp
      exact Option.isSome_of_eq_some (hpg c pair.2 hkey (by omega))
    obtain ⟨row', hrow'⟩ := row.exists_writeColumns hstore
    exact ⟨_, bind_eq_ok.mpr ⟨row', hrow', rfl⟩, trivial⟩

/-- What a pass over one parent does, with the keys it writes. -/
theorem rebalanceParent_keys (hpg : KeepsKeys pg)
    (h : rebalanceParent c orgId db parent = .ok db') :
    SameOffKeys c db db' ∧
      (∀ id, id ∉ orderedIds db c orgId parent → db'.find c id = db.find c id) ∧
      ∃ keys, PositionService.rebalancedKeys (orderedIds db c orgId parent).length = .ok keys ∧
        (orderedIds db c orgId parent).map (keyAt db' c) = keys.map some := by
  obtain ⟨keys, hkeys, hwrites⟩ := bind_eq_ok.mp h
  obtain ⟨hlength, hfresh⟩ := freshKeys_of_rebalancedKeys (mapError_eq_ok.mp hkeys)
  obtain ⟨hsame, hother, hmap⟩ := writeKeys_eq_ok hpg nodup_orderedIds hlength
    (fun key hkey => ⟨hfresh.valid key hkey, hfresh.short key hkey⟩) (fun id hid => by
      obtain ⟨row, hrow, -⟩ := mem_orderedIds.mp hid
      exact Option.isSome_of_eq_some hrow) hwrites
  exact ⟨hsame, hother, keys, mapError_eq_ok.mp hkeys, hmap⟩

/-- What a pass over one parent does. -/
theorem rebalanceParent_eq_ok (hpg : KeepsKeys pg)
    (h : rebalanceParent c orgId db parent = .ok db') :
    SameOffKeys c db db' ∧
      (∀ id, id ∉ orderedIds db c orgId parent → db'.find c id = db.find c id) ∧
      ∃ keys, FreshKeys keys ∧
        (orderedIds db c orgId parent).map (keyAt db' c) = keys.map some := by
  obtain ⟨hsame, hother, keys, hkeys, hmap⟩ := rebalanceParent_keys hpg h
  exact ⟨hsame, hother, keys, (freshKeys_of_rebalancedKeys hkeys).2, hmap⟩

theorem exists_rebalanceParent (hpg : KeepsKeys pg)
    (hroom : 2 * ((orderedIds db c orgId parent).length + 1) ≤ 62 ^ 8) :
    ∃ db', rebalanceParent c orgId db parent = .ok db' := by
  obtain ⟨keys, hkeys⟩ := exists_rebalancedKeys hroom
  obtain ⟨-, hfresh⟩ := freshKeys_of_rebalancedKeys hkeys
  have hvalid : ∀ pair ∈ (orderedIds db c orgId parent).zip keys,
      PositionService.isValid pair.2 = true ∧ pair.2.length ≤ 8 := by
    intro pair hpair
    have hkey := (List.of_mem_zip hpair).2
    exact ⟨hfresh.valid _ hkey, hfresh.short _ hkey⟩
  obtain ⟨db', hdb'⟩ := exists_writeKeys hpg hvalid
  exact ⟨db', bind_eq_ok.mpr ⟨keys, mapError_eq_ok.mpr hkeys, hdb'⟩⟩

/-! ## The loop over the parents -/

/-- What the passes over some parents have done. -/
structure Rekeyed (orgId : JsString) (c : SyncCollection) (db : Database pg)
    (parents : List JsString) (acc : TableRebalance pg) : Prop where
  same : SameOffKeys c db acc.db
  /-- the rows of other parents are as they were -/
  kept : ∀ id, (∀ parent ∈ parents, id ∉ orderedIds db c orgId parent) →
    acc.db.find c id = db.find c id
  /-- the rows of these carry fresh keys, in order -/
  spread : ∀ parent ∈ parents, ∃ keys, FreshKeys keys ∧
    (orderedIds db c orgId parent).map (keyAt acc.db c) = keys.map some
  rebalanced : acc.rebalanced = parents.length
  updated : ∀ id, id ∈ acc.updated ↔ ∃ parent ∈ parents, id ∈ orderedIds db c orgId parent

/-- A row has one organization and one parent. -/
theorem eq_of_mem_orderedIds {id orgId' parent' : JsString}
    (h : id ∈ orderedIds db c orgId parent) (h' : id ∈ orderedIds db c orgId' parent') :
    orgId = orgId' ∧ parent = parent' := by
  obtain ⟨row, hrow, howner, hparent⟩ := mem_orderedIds.mp h
  obtain ⟨row', hrow', howner', hparent'⟩ := mem_orderedIds.mp h'
  rw [hrow] at hrow'
  obtain rfl := Option.some.inj hrow'
  rw [hparent] at hparent'
  rw [howner] at howner'
  exact ⟨Option.some.inj howner', Option.some.inj hparent'⟩

/-- A pass finds the rows of its parent in the order they had. -/
theorem Rekeyed.orderedIds_eq {parents : List JsString} {acc : TableRebalance pg}
    (hacc : Rekeyed orgId c db parents acc) (hnew : parent ∉ parents) :
    orderedIds acc.db c orgId parent = orderedIds db c orgId parent := by
  refine hacc.same.orderedIds_of_kept fun id hid => hacc.kept id fun p hp hmem => hnew ?_
  rwa [(eq_of_mem_orderedIds hid hmem).2]

/-- One more pass. -/
theorem Rekeyed.next (hpg : KeepsKeys pg) {parents : List JsString} {acc acc' : TableRebalance pg}
    (hacc : Rekeyed orgId c db parents acc) (hnew : parent ∉ parents)
    (h : rebalanceNext c orgId acc parent = .ok acc') :
    Rekeyed orgId c db (parents ++ [parent]) acc' := by
  obtain ⟨db', hparent, h⟩ := bind_eq_ok.mp h
  obtain rfl := Except.ok.inj h
  have hids := hacc.orderedIds_eq hnew
  obtain ⟨hsame, hother, keys, hfresh, hmap⟩ := rebalanceParent_eq_ok hpg hparent
  rw [hids] at hother hmap
  refine ⟨hacc.same.trans hsame, fun id hid => ?_, fun p hp => ?_, ?_, fun id => ?_⟩
  · rw [hother id (hid parent (by simp)),
      hacc.kept id fun p hp => hid p (List.mem_append_left _ hp)]
  · rcases List.mem_append.mp hp with hp | hp
    · obtain ⟨keys', hfresh', hmap'⟩ := hacc.spread p hp
      refine ⟨keys', hfresh', ?_⟩
      rw [← hmap']
      refine List.map_congr_left fun id hid => ?_
      rw [keyAt, keyAt, hother id fun hmem => hnew ?_]
      rwa [(eq_of_mem_orderedIds hmem hid).2]
    · obtain rfl := List.mem_singleton.mp hp
      exact ⟨keys, hfresh, hmap⟩
  · simp [hacc.rebalanced]
  · simp [hacc.updated, hids, or_and_right, exists_or]

theorem Rekeyed.start (orgId : JsString) (c : SyncCollection) (db : Database pg) :
    Rekeyed orgId c db [] { db := db, rebalanced := 0, updated := [] } :=
  ⟨.refl db, fun _ _ => rfl, nofun, rfl, by simp⟩

/-- The parents are distinct, so a pass comes to one that is not done. -/
theorem not_mem_of_overlongParents {pre post : List JsString}
    (h : overlongParents db c orgId = pre ++ parent :: post) : parent ∉ pre := by
  intro hmem
  have hnodup : (overlongParents db c orgId).Nodup := List.nodup_dedup _
  rw [h] at hnodup
  exact List.disjoint_of_nodup_append hnodup hmem List.mem_cons_self

theorem rekeyed_of_rebalanceTable (hpg : KeepsKeys pg) {result : TableRebalance pg}
    (h : rebalanceTable c orgId db = .ok result) :
    Rekeyed orgId c db (overlongParents db c orgId) result :=
  foldlM_reached (Rekeyed orgId c db)
    (fun _ _ _ _ _ hl hacc hnext => hacc.next hpg (not_mem_of_overlongParents hl) hnext)
    (.start orgId c db) h

theorem exists_rebalanceTable (hpg : KeepsKeys pg)
    (hroom : ∀ parent, 2 * ((orderedIds db c orgId parent).length + 1) ≤ 62 ^ 8) :
    ∃ result, rebalanceTable c orgId db = .ok result := by
  refine exists_foldlM (Rekeyed orgId c db) (fun pre parent post acc hl hacc => ?_)
    (.start orgId c db)
  have hnew := not_mem_of_overlongParents hl
  obtain ⟨db', hdb'⟩ : ∃ db', rebalanceParent c orgId acc.db parent = .ok db' := by
    apply exists_rebalanceParent hpg
    rw [hacc.orderedIds_eq hnew]
    exact hroom parent
  have hnext : rebalanceNext c orgId acc parent = .ok _ := bind_eq_ok.mpr ⟨db', hdb', rfl⟩
  exact ⟨_, hnext, hacc.next hpg hnew hnext⟩

/-! ## The table -/

/-- The parent has a row with an over-long key. -/
def HasOverlongKey (db : Database pg) (c : SyncCollection) (orgId parent : JsString) : Prop :=
  ∃ id ∈ orderedIds db c orgId parent, ∃ key, keyAt db c id = some key ∧
    maxKeyLength < charLength key

/-- The scan finds these parents. -/
theorem mem_overlongParents :
    parent ∈ overlongParents db c orgId ↔ HasOverlongKey db c orgId parent := by
  rw [overlongParents, List.mem_dedup, List.mem_filterMap]
  constructor
  · rintro ⟨⟨id, row⟩, hmem, hparent⟩
    obtain ⟨hfind, howner⟩ := mem_orgRows.mp hmem
    split at hparent
    · rename_i hlong
      obtain ⟨key, hkey, hlt⟩ := (Option.any_eq_true _ _).mp hlong
      refine ⟨id, mem_orderedIds.mpr ⟨row, hfind, howner, hparent⟩, key, ?_, of_decide_eq_true hlt⟩
      rw [keyAt, hfind]
      exact hkey
    · cases hparent
  · rintro ⟨id, hid, key, hkey, hlt⟩
    obtain ⟨row, hfind, howner, hparent⟩ := mem_orderedIds.mp hid
    rw [keyAt, hfind] at hkey
    refine ⟨(id, row), mem_orgRows.mpr ⟨hfind, howner⟩, ?_⟩
    have hlong : (row.text "positionIdx").any (fun key => decide (maxKeyLength < charLength key)) =
        true := (Option.any_eq_true _ _).mpr ⟨key, hkey, decide_eq_true hlt⟩
    rw [if_pos hlong]
    exact hparent

/-- What a rebalance of a table does. -/
structure Rebalances (orgId : JsString) (c : SyncCollection) (db : Database pg)
    (result : TableRebalance pg) : Prop where
  /-- every parent's rows are in the order they had -/
  order : ∀ orgId' parent, orderedIds result.db c orgId' parent = orderedIds db c orgId' parent
  /-- the keys of a parent that had an over-long one are distinct, valid and short -/
  distinct : ∀ parent, HasOverlongKey db c orgId parent →
    ((orderedIds db c orgId parent).map (keyAt result.db c)).Nodup
  valid : ∀ parent, HasOverlongKey db c orgId parent → ∀ id ∈ orderedIds db c orgId parent,
    ∃ key, keyAt result.db c id = some key ∧ PositionService.isValid key = true ∧
      key.length ≤ maxKeyLength
  /-- the rows of other parents are as they were -/
  others : ∀ id, (∀ parent, HasOverlongKey db c orgId parent →
    id ∉ orderedIds db c orgId parent) → result.db.find c id = db.find c id
  /-- no row comes or goes, and no other column and no other table is written -/
  same : SameOffKeys c db result.db
  rebalanced : result.rebalanced = {parent | HasOverlongKey db c orgId parent}.ncard
  again : rebalanceTable c orgId result.db = .ok { db := result.db, rebalanced := 0, updated := [] }

theorem Rekeyed.order {result : TableRebalance pg}
    (h : Rekeyed orgId c db (overlongParents db c orgId) result) (orgId' parent : JsString) :
    orderedIds result.db c orgId' parent = orderedIds db c orgId' parent := by
  by_cases hrewritten : orgId' = orgId ∧ parent ∈ overlongParents db c orgId
  · obtain ⟨rfl, hparent⟩ := hrewritten
    obtain ⟨keys, hfresh, hmap⟩ := h.spread parent hparent
    exact h.same.orderedIds_of_ascending hfresh.ascending hmap
  · refine h.same.orderedIds_of_kept fun id hid => h.kept id fun p hp hmem => hrewritten ?_
    obtain ⟨rfl, rfl⟩ := eq_of_mem_orderedIds hmem hid
    exact ⟨rfl, hp⟩

/-- The keys of a rewritten parent. -/
theorem Rekeyed.exists_key {result : TableRebalance pg}
    (h : Rekeyed orgId c db (overlongParents db c orgId) result)
    (hparent : HasOverlongKey db c orgId parent) {id : JsString}
    (hid : id ∈ orderedIds db c orgId parent) :
    ∃ key, keyAt result.db c id = some key ∧ PositionService.isValid key = true ∧
      key.length ≤ 8 := by
  obtain ⟨keys, hfresh, hmap⟩ := h.spread parent (mem_overlongParents.mpr hparent)
  have hmem : keyAt result.db c id ∈ keys.map some := by
    rw [← hmap]
    exact List.mem_map_of_mem hid
  obtain ⟨key, hkey, heq⟩ := List.mem_map.mp hmem
  exact ⟨key, heq.symm, hfresh.valid key hkey, hfresh.short key hkey⟩

/-- No over-long key is left. -/
theorem Rekeyed.overlongParents_eq_nil {result : TableRebalance pg}
    (h : Rekeyed orgId c db (overlongParents db c orgId) result) :
    overlongParents result.db c orgId = [] := by
  rw [List.eq_nil_iff_forall_not_mem]
  intro parent hmem
  obtain ⟨id, hid, key, hkey, hlong⟩ := mem_overlongParents.mp hmem
  rw [h.order] at hid
  by_cases hparent : HasOverlongKey db c orgId parent
  · obtain ⟨short, hshort, -, hlength⟩ := h.exists_key hparent hid
    rw [hkey] at hshort
    obtain rfl := Option.some.inj hshort
    have hle := charLength_le_length key
    rw [maxKeyLength] at hlong
    omega
  · have hkept : result.db.find c id = db.find c id := by
      refine h.kept id fun p hp hmem => hparent ?_
      rw [(eq_of_mem_orderedIds hid hmem).2]
      exact mem_overlongParents.mp hp
    rw [keyAt, hkept] at hkey
    exact hparent ⟨id, hid, key, hkey, hlong⟩

/-- **A rebalance keeps every order.** Whatever the table, the parents with an
over-long key get distinct, valid, short keys in the order their rows had; nothing
else is written but the `updated_at` of those rows; a second run does nothing.  It
goes through while each parent has a safe key space. -/
theorem rebalanceTable_keepsOrder (hpg : KeepsKeys pg) :
    (∀ result, rebalanceTable c orgId db = .ok result → Rebalances orgId c db result ∧
      ∀ now before id, (∀ parent, HasOverlongKey db c orgId parent →
        id ∉ orderedIds db c orgId parent) → result.updatedAt now before id = before id) ∧
      ((∀ parent, 2 * ((orderedIds db c orgId parent).length + 1) ≤ 62 ^ 8) →
        ∃ result, rebalanceTable c orgId db = .ok result) := by
  refine ⟨fun result h => ?_, exists_rebalanceTable hpg⟩
  have hrekeyed := rekeyed_of_rebalanceTable hpg h
  refine ⟨⟨hrekeyed.order, fun parent hparent => ?_, fun parent hparent id hid => ?_,
    fun id hid => ?_, hrekeyed.same, ?_, ?_⟩, fun now before id hid => if_neg fun hmem => ?_⟩
  · obtain ⟨keys, hfresh, hmap⟩ := hrekeyed.spread parent (mem_overlongParents.mpr hparent)
    rw [hmap]
    have hnodup : keys.Nodup := hfresh.ascending.imp fun hlt => hlt.ne
    exact hnodup.map (Option.some_injective _)
  · obtain ⟨key, hkey, hvalid, hlength⟩ := hrekeyed.exists_key hparent hid
    exact ⟨key, hkey, hvalid, hlength.trans (by decide)⟩
  · exact hrekeyed.kept id fun parent hparent => hid parent (mem_overlongParents.mp hparent)
  · have hset : {parent | HasOverlongKey db c orgId parent} =
        ↑(overlongParents db c orgId).toFinset := by
      ext parent
      simp [mem_overlongParents]
    have hnodup : (overlongParents db c orgId).Nodup := List.nodup_dedup _
    rw [hset, Set.ncard_coe_finset, List.toFinset_card_of_nodup hnodup]
    exact hrekeyed.rebalanced
  · rw [rebalanceTable, hrekeyed.overlongParents_eq_nil]
    rfl
  · obtain ⟨parent, hparent, hid'⟩ := (hrekeyed.updated id).mp hmem
    exact hid parent (mem_overlongParents.mp hparent) hid'

/-! ### A column with a long key -/

theorem plain_keepsKeys : KeepsKeys Postgres.plain := by
  intro c key _ hlength
  have hle := charLength_le_length key
  have htype : hasColumnType "positionIdx" (.str key) = true := by
    simp [hasColumnType]
    omega
  exact if_pos htype

namespace Bloated

def firstId : JsString := js "00000000-0000-4000-8000-00000000000c"
def secondId : JsString := js "00000000-0000-4000-8000-00000000000d"

/-- The columns of a card of the list with a position key. -/
def columns (key : String) : JsObject Json :=
  Dict.ofList [("title", .str (js "Ship")), ("description", .null), ("isComplete", .bool false),
    ("listId", .str Sample.listId), ("positionIdx", .str (js key))]

/-- The first card; its key is 33 characters long. -/
def first : Row Postgres.plain .cards :=
  .plain (columns "MMMMMMMMMMMMMMMMMMMMMMMMMMMMMMMMM") (by decide) (by decide)

def second : Row Postgres.plain .cards := .plain (columns "N") (by decide) (by decide)

def tables : Database Postgres.plain :=
  Sample.database (Dict.ofList [(firstId, first), (secondId, second)])

def result : TableRebalance Postgres.plain :=
  okOr (rebalanceTable .cards Sample.orgId tables) ⟨tables, 0, []⟩

theorem result_ok : rebalanceTable .cards Sample.orgId tables = .ok result :=
  eq_ok_okOr (by decide)

end Bloated

/-- The first card gets a short key and stays before the second. -/
theorem bloated_keepsOrder :
    orderedIds Bloated.result.db .cards Sample.orgId Sample.listId =
        [Bloated.firstId, Bloated.secondId] ∧
      rebalanceTable .cards Sample.orgId Bloated.result.db = .ok ⟨Bloated.result.db, 0, []⟩ := by
  obtain ⟨hspec, -⟩ := rebalanceTable_keepsOrder plain_keepsKeys
  obtain ⟨hrebalances, -⟩ := hspec Bloated.result Bloated.result_ok
  refine ⟨?_, hrebalances.again⟩
  rw [hrebalances.order]
  decide

/-- The trigger on the table sets `updated_at` of both cards. -/
theorem bloated_updatedAt : ¬ ∀ (orgId : JsString) (c : SyncCollection)
    (db : Database Postgres.plain) (result : TableRebalance Postgres.plain) (now : Int)
    (before : JsString → Int), rebalanceTable c orgId db = .ok result →
      Rebalances orgId c db result ∧ ∀ id, result.updatedAt now before id = before id := by
  intro hclaim
  obtain ⟨-, hkept⟩ := hclaim Sample.orgId .cards Bloated.tables Bloated.result 1 (fun _ => 0)
    Bloated.result_ok
  have hstamped : Bloated.result.updatedAt 1 (fun _ => 0) Bloated.firstId = 1 := by decide
  rw [hkept] at hstamped
  cases hstamped

end FlowLogix.Server.PositionRebalanceService
