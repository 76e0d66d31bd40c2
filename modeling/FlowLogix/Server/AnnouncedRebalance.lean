/-
  Server/AnnouncedRebalance.lean --- a rebalance announces nothing.

  A run re-spreads the columns of one organization after another and emits no event, so
  it is announced only if every row that is shown already carries the key its place in
  the column gets.

  `Spread` is what the passes over some parents have done to the tables the run began
  with.  No pass reorders a column and each writes the rows of one parent, so the keys
  of a re-spread parent depend on the first tables alone, and a second pass over it
  writes the same keys again.
-/
import FlowLogix.Server.RebalanceOrder
import FlowLogix.Server.ShownPlaces

set_option autoImplicit false

namespace FlowLogix.Server.PositionRebalanceService

open FlowLogix.Foundation FlowLogix.Ordering

variable {pg : Postgres} {orgId parent : JsString} {c : SyncCollection}
  {db db' cur cur' : Database pg}

/-! ## One pass -/

theorem OffKey.symm {row row' : Row pg c} (h : OffKey row row') : OffKey row' row where
  columns field hf := (h.columns field hf).symm
  createdAt := h.createdAt.symm
  syncClocks := h.syncClocks.symm
  nodeId := h.nodeId.symm
  syncDeletedAt := h.syncDeletedAt.symm

theorem SameOffKeys.symm (h : SameOffKeys c db db') : SameOffKeys c db' db where
  table c' hc := (h.table c' hc).symm
  absent id hnone := by
    cases hfind : db.find c id with
    | none => rfl
    | some row =>
        obtain ⟨row', hrow', -⟩ := h.rows id row hfind
        rw [hnone] at hrow'
        cases hrow'
  rows id row hrow := by
    obtain ⟨row', hrow', hoff⟩ := h.exists_row hrow
    exact ⟨row', hrow', hoff.symm⟩

/-- Keys do not decide who owns a row, of whatever table. -/
theorem SameOffKeys.owner_of (h : SameOffKeys c db db') (c' : SyncCollection) (id : JsString) :
    db'.owner c' id = db.owner c' id := by
  have hkept : ∀ {db db' : Database pg}, SameOffKeys c db db' → ∀ o, db.owner c' id = some o →
      db'.owner c' id = some o := by
    intro db db' hsame o ho
    refine Database.owner_of_table hsame.table (fun k o hk => ?_) ho
    obtain ⟨row, hrow, horg⟩ := Option.bind_eq_some_iff.mp hk
    obtain ⟨row', hrow', hoff⟩ := hsame.rows k row hrow
    refine ⟨row', hrow', ?_⟩
    rw [db.parentOrg_eq_of_lookup (hoff.columns _ (parentProperty_ne_positionIdx c))]
    exact horg
  exact Option.ext fun o => ⟨hkept h.symm o, hkept h o⟩

theorem orderedIds_congr (htable : db'.table c = db.table c)
    (howner : ∀ id, db'.owner c id = db.owner c id) :
    orderedIds db' c orgId parent = orderedIds db c orgId parent := by
  rw [orderedIds, orderedIds, Database.orgRows, Database.orgRows, htable]
  simp only [howner]

/-! ## The passes of a run -/

/-- Tables that differ in position keys at most. -/
structure SameRows (db cur : Database pg) : Prop where
  absent : ∀ c id, db.find c id = none → cur.find c id = none
  rows : ∀ c id (row : Row pg c), db.find c id = some row →
    ∃ row', cur.find c id = some row' ∧ OffKey row row'

theorem SameRows.refl (db : Database pg) : SameRows db db :=
  ⟨fun _ _ h => h, fun _ _ row h => ⟨row, h, .refl row⟩⟩

theorem SameRows.next (h : SameRows db cur) (hnext : SameOffKeys c cur cur') :
    SameRows db cur' where
  absent c' id hid := by
    by_cases hc : c' = c
    · subst hc
      exact hnext.absent id (h.absent _ id hid)
    · rw [Database.find, hnext.table c' hc]
      exact h.absent c' id hid
  rows c' id row hrow := by
    obtain ⟨row', hrow', hoff⟩ := h.rows c' id row hrow
    by_cases hc : c' = c
    · subst hc
      obtain ⟨row'', hrow'', hoff'⟩ := hnext.rows id row' hrow'
      exact ⟨row'', hrow'', hoff.trans hoff'⟩
    · refine ⟨row', ?_, hoff⟩
      rw [Database.find, hnext.table c' hc]
      exact hrow'

/-- What the passes over some parents have done. -/
structure Spread (db : Database pg) (done : SyncCollection → JsString → JsString → Prop)
    (cur : Database pg) : Prop where
  same : SameRows db cur
  order : ∀ c orgId parent, orderedIds cur c orgId parent = orderedIds db c orgId parent
  /-- the rows of other parents are as they were -/
  kept : ∀ c id, (∀ orgId parent, done c orgId parent → id ∉ orderedIds db c orgId parent) →
    cur.find c id = db.find c id
  /-- the rows of these carry the keys of a re-spread column -/
  spread : ∀ c orgId parent, done c orgId parent → ∃ keys,
    PositionService.rebalancedKeys (orderedIds db c orgId parent).length = .ok keys ∧
      (orderedIds db c orgId parent).map (keyAt cur c) = keys.map some

theorem Spread.start (db : Database pg) : Spread db (fun _ _ _ => False) db :=
  ⟨.refl db, fun _ _ _ => rfl, fun _ _ _ => rfl, nofun⟩

/-- One more pass. -/
theorem Spread.next (hpg : KeepsKeys pg) {done : SyncCollection → JsString → JsString → Prop}
    (h : Spread db done cur) (hpass : rebalanceParent c orgId cur parent = .ok cur') :
    Spread db (fun c' o p => done c' o p ∨ (c' = c ∧ o = orgId ∧ p = parent)) cur' := by
  obtain ⟨hsame, hother, keys, hkeys, hmap⟩ := rebalanceParent_keys hpg hpass
  have horder : ∀ c' o p, orderedIds cur' c' o p = orderedIds cur c' o p := by
    intro c' o p
    by_cases hc : c' = c
    · subst hc
      by_cases hp : o = orgId ∧ p = parent
      · obtain ⟨rfl, rfl⟩ := hp
        exact hsame.orderedIds_of_ascending (freshKeys_of_rebalancedKeys hkeys).2.ascending hmap
      · refine hsame.orderedIds_of_kept fun id hid => hother id fun hmem => hp ?_
        exact eq_of_mem_orderedIds hid hmem
    · exact orderedIds_congr (hsame.table c' hc) (hsame.owner_of c')
  have hids := h.order c orgId parent
  rw [hids] at hother hkeys hmap
  refine ⟨h.same.next hsame, fun c' o p => (horder c' o p).trans (h.order c' o p),
    fun c' id hid => ?_, fun c' o p hdone => ?_⟩
  · have hcur := h.kept c' id fun o p hp => hid o p (Or.inl hp)
    by_cases hc : c' = c
    · subst hc
      rw [hother id (hid orgId parent (Or.inr ⟨rfl, rfl, rfl⟩)), hcur]
    · rw [Database.find, hsame.table c' hc]
      exact hcur
  · by_cases hpass : c' = c ∧ o = orgId ∧ p = parent
    · obtain ⟨rfl, rfl, rfl⟩ := hpass
      exact ⟨keys, hkeys, hmap⟩
    · obtain ⟨keys', hkeys', hmap'⟩ := h.spread c' o p (hdone.resolve_right hpass)
      refine ⟨keys', hkeys', ?_⟩
      rw [← hmap']
      refine List.map_congr_left fun id hid => ?_
      rw [keyAt, keyAt]
      by_cases hc : c' = c
      · subst hc
        rw [hother id fun hmem => hpass ⟨rfl, eq_of_mem_orderedIds hid hmem⟩]
      · rw [Database.find, hsame.table c' hc]
        rfl

/-- The parents with an over-long key are those of the first tables that are not done. -/
theorem Spread.mem_overlongParents_iff {done : SyncCollection → JsString → JsString → Prop}
    (h : Spread db done cur) :
    parent ∈ overlongParents cur c orgId ↔
      parent ∈ overlongParents db c orgId ∧ ¬ done c orgId parent := by
  have hkeys : ∀ id, id ∈ orderedIds db c orgId parent → ¬ done c orgId parent →
      keyAt cur c id = keyAt db c id := by
    intro id hid hnot
    rw [keyAt, keyAt, h.kept c id fun o p hp hmem => hnot ?_]
    obtain ⟨rfl, rfl⟩ := eq_of_mem_orderedIds hid hmem
    exact hp
  rw [mem_overlongParents, mem_overlongParents]
  constructor
  · rintro ⟨id, hid, key, hkey, hlong⟩
    rw [h.order] at hid
    have hnot : ¬ done c orgId parent := by
      intro hdone
      obtain ⟨keys, hfresh, hmap⟩ := h.spread c orgId parent hdone
      have hmem : keyAt cur c id ∈ keys.map some := by
        rw [← hmap]
        exact List.mem_map_of_mem hid
      obtain ⟨short, hshort, heq⟩ := List.mem_map.mp hmem
      obtain rfl : short = key := Option.some.inj (heq.trans hkey)
      have hlength := (freshKeys_of_rebalancedKeys hfresh).2.short short hshort
      have hle := charLength_le_length short
      rw [maxKeyLength] at hlong
      omega
    exact ⟨⟨id, hid, key, (hkeys id hid hnot).symm.trans hkey, hlong⟩, hnot⟩
  · rintro ⟨⟨id, hid, key, hkey, hlong⟩, hnot⟩
    exact ⟨id, (h.order c orgId parent).symm ▸ hid, key, (hkeys id hid hnot).trans hkey, hlong⟩

/-- The passes over one table of an organization. -/
theorem Spread.table (hpg : KeepsKeys pg) {done : SyncCollection → JsString → JsString → Prop}
    (h : Spread db done cur) {result : TableRebalance pg}
    (hresult : rebalanceTable c orgId cur = .ok result) :
    Spread db (fun c' o p => done c' o p ∨ (c' = c ∧ o = orgId ∧ p ∈ overlongParents db c orgId))
      result.db := by
  have hloop : Spread db
      (fun c' o p => done c' o p ∨ (c' = c ∧ o = orgId ∧ p ∈ overlongParents cur c orgId))
      result.db := by
    refine foldlM_reached (fun pre (acc : TableRebalance pg) => Spread db
      (fun c' o p => done c' o p ∨ (c' = c ∧ o = orgId ∧ p ∈ pre)) acc.db) ?_ ?_ hresult
    · intro pre parent post acc acc' _ hacc hnext
      obtain ⟨mid, hparent, hnext⟩ := bind_eq_ok.mp hnext
      obtain rfl := Except.ok.inj hnext
      have hmore := hacc.next hpg hparent
      simpa only [List.mem_append, List.mem_singleton, and_or_left, or_assoc] using hmore
    · simpa using h
  have hdone : ∀ c' o p, (done c' o p ∨ (c' = c ∧ o = orgId ∧ p ∈ overlongParents cur c orgId)) ↔
      (done c' o p ∨ (c' = c ∧ o = orgId ∧ p ∈ overlongParents db c orgId)) := by
    intro c' o p
    refine or_congr_right' fun hnot => ?_
    refine and_congr_right fun hc => and_congr_right fun ho => ?_
    subst hc ho
    rw [h.mem_overlongParents_iff]
    exact and_iff_left hnot
  simpa only [hdone] using hloop

/-- The passes of a whole run. -/
theorem spread_of_rebalanceOverlongColumns (hpg : KeepsKeys pg) {orgs : List JsString}
    {result : RebalanceResult pg} (h : rebalanceOverlongColumns db true orgs = .ok result) :
    Spread db (fun c o p => c ≠ .boards ∧ o ∈ orgs ∧ p ∈ overlongParents db c o) result.db := by
  refine foldlM_reached (fun pre (acc : RebalanceResult pg) => Spread db
    (fun c o p => c ≠ .boards ∧ o ∈ pre ∧ p ∈ overlongParents db c o) acc.db) ?_ ?_ h
  · intro pre orgId post acc acc' _ hacc hnext
    obtain ⟨lists, hlists, hnext⟩ := bind_eq_ok.mp hnext
    obtain ⟨cards, hcards, hnext⟩ := bind_eq_ok.mp hnext
    obtain rfl := Except.ok.inj hnext
    have hboth := (hacc.table hpg hlists).table hpg hcards
    have hdone : ∀ c o p, (((c ≠ .boards ∧ o ∈ pre ∧ p ∈ overlongParents db c o) ∨
        (c = .lists ∧ o = orgId ∧ p ∈ overlongParents db .lists orgId)) ∨
          (c = .cards ∧ o = orgId ∧ p ∈ overlongParents db .cards orgId)) ↔
        (c ≠ .boards ∧ o ∈ pre ++ [orgId] ∧ p ∈ overlongParents db c o) := by
      intro c o p
      rw [List.mem_append, List.mem_singleton]
      cases c with
      | boards => simp
      | lists =>
          by_cases ho : o = orgId
          · subst ho
            simp
          · simp [ho]
      | cards =>
          by_cases ho : o = orgId
          · subst ho
            simp
          · simp [ho]
    simpa only [hdone] using hboth
  · simpa using Spread.start db

/-! ## What a run shows -/

/-- A shown row has the place it had, with the key it carries now. -/
theorem SameRows.place_eq (h : SameRows db cur) (c : SyncCollection) (k : JsString) :
    cur.place c k = (db.place c k).map fun p => { p with key := keyAt cur c k } := by
  have hparent : ∀ {c : SyncCollection} {row row' : Row pg c}, OffKey row row' →
      row'.shownParent = row.shownParent := by
    intro c row row' hoff
    have hshown : isShown row' = isShown row := by
      rw [isShown, isShown, isSyncDeleted, isSyncDeleted, hoff.syncClocks, hoff.syncDeletedAt,
        hoff.columns "isArchived" (by decide)]
    rw [Row.shownParent, Row.shownParent, hshown,
      Row.text_congr (hoff.columns _ (parentProperty_ne_positionIdx c))]
  have hshowing : cur.boardShowing c = db.boardShowing c := by
    funext parent
    cases c with
    | boards => rfl
    | lists => rfl
    | cards =>
        rw [Database.boardShowing, Database.boardShowing]
        cases hlist : db.find .lists parent with
        | none => rw [h.absent .lists parent hlist]
        | some list =>
            obtain ⟨list', hlist', hoff⟩ := h.rows .lists parent list hlist
            rw [hlist', Option.bind_some, Option.bind_some, hparent hoff]
  cases hfind : db.find c k with
  | none => rw [Database.place, Database.place, hfind, h.absent c k hfind]
            rfl
  | some row =>
      obtain ⟨row', hrow', hoff⟩ := h.rows c k row hfind
      have hkey : keyAt cur c k = row'.text "positionIdx" := by rw [keyAt, hrow', Option.bind_some]
      rw [Database.place_of_find hfind, Database.place_of_find hrow', Database.placeOf,
        Database.placeOf, hparent hoff, hshowing, hkey]
      cases row.shownParent with
      | none => rfl
      | some parent =>
          rw [Option.bind_some, Option.bind_some, Option.map_map]
          rfl

theorem key_of_place {p : Place} {k : JsString} (h : db.place c k = some p) :
    keyAt db c k = p.key := by
  obtain ⟨row, hfind, hplace⟩ := Option.bind_eq_some_iff.mp h
  rw [keyAt, hfind, Option.bind_some]
  exact (Database.placeOf_eq_some hplace).2.2.2

/-- Without an event, no shown row may change its key. -/
theorem SameRows.announced_nil_iff (h : SameRows db cur) :
    Announced db cur [] ↔ ∀ c k, db.place c k ≠ none → keyAt cur c k = keyAt db c k := by
  rw [Server.announced_nil_iff]
  refine forall_congr' fun c => forall_congr' fun k => ?_
  rw [h.place_eq]
  cases hplace : db.place c k with
  | none => simp
  | some p =>
      rw [key_of_place hplace, Option.map_some, Option.some_inj]
      constructor
      · intro heq _
        rw [heq]
      · intro hkey
        rw [hkey (by simp)]

/-- The shown rows of a parent carry the keys a pass over it gives them. -/
def ShowsFreshKeys (db : Database pg) (c : SyncCollection) (orgId parent : JsString) : Prop :=
  ∀ keys, PositionService.rebalancedKeys (orderedIds db c orgId parent).length = .ok keys →
    ∀ pair ∈ (orderedIds db c orgId parent).zip keys, db.place c pair.1 ≠ none →
      keyAt db c pair.1 = some pair.2

/-- No column a run re-spreads shows a row with another key. -/
def MovesNothingShown (db : Database pg) (locked : Bool) (orgs : List JsString) : Prop :=
  locked = true → ∀ c, c ≠ .boards → ∀ orgId ∈ orgs, ∀ parent ∈ overlongParents db c orgId,
    ShowsFreshKeys db c orgId parent

/-- Each row of a re-spread column carries its key. -/
theorem keyAt_of_zip {ids keys : List JsString} (h : ids.map (keyAt cur c) = keys.map some)
    {pair : JsString × JsString} (hpair : pair ∈ ids.zip keys) :
    keyAt cur c pair.1 = some pair.2 := by
  induction ids generalizing keys with
  | nil => cases hpair
  | cons id ids ih =>
      cases keys with
      | nil => cases hpair
      | cons key keys =>
          obtain ⟨hkey, hrest⟩ := List.cons.inj h
          rcases List.mem_cons.mp hpair with rfl | hpair
          · exact hkey
          · exact ih hrest hpair

/-- **A rebalance is announced** exactly where it moves nothing that is shown. -/
theorem announced_rebalance_iff (hpg : KeepsKeys pg) {locked : Bool} {orgs : List JsString}
    {result : RebalanceResult pg} (h : rebalanceOverlongColumns db locked orgs = .ok result) :
    Announced db result.db [] ↔ MovesNothingShown db locked orgs := by
  cases locked with
  | false =>
      obtain rfl := Except.ok.inj h
      exact iff_of_true (.refl db []) nofun
  | true =>
      have hspread := spread_of_rebalanceOverlongColumns hpg h
      rw [hspread.same.announced_nil_iff]
      constructor
      · intro hkeys _ c hc orgId horg parent hparent keys hfresh pair hpair hplace
        obtain ⟨keys', hfresh', hmap⟩ := hspread.spread c orgId parent ⟨hc, horg, hparent⟩
        obtain rfl : keys = keys' := Except.ok.inj (hfresh.symm.trans hfresh')
        rw [← hkeys c pair.1 hplace]
        exact keyAt_of_zip hmap hpair
      · intro hmoves c k hplace
        by_cases hdone : ∃ orgId parent, (c ≠ .boards ∧ orgId ∈ orgs ∧
            parent ∈ overlongParents db c orgId) ∧ k ∈ orderedIds db c orgId parent
        · obtain ⟨orgId, parent, ⟨hc, horg, hparent⟩, hk⟩ := hdone
          obtain ⟨keys, hfresh, hmap⟩ := hspread.spread c orgId parent ⟨hc, horg, hparent⟩
          obtain ⟨i, hi, rfl⟩ := List.mem_iff_getElem.mp hk
          have hlength := (freshKeys_of_rebalancedKeys hfresh).1
          have hpair : ((orderedIds db c orgId parent)[i], keys[i]) ∈
              (orderedIds db c orgId parent).zip keys := by
            have hzip : i < ((orderedIds db c orgId parent).zip keys).length := by
              rw [List.length_zip]
              omega
            rw [← List.getElem_zip (h := hzip)]
            exact List.getElem_mem hzip
          rw [keyAt_of_zip hmap hpair, hmoves rfl c hc orgId horg parent hparent keys hfresh _ hpair
            hplace]
        · rw [keyAt, keyAt,
            hspread.kept c k fun orgId parent hp hk => hdone ⟨orgId, parent, hp, hk⟩]

end FlowLogix.Server.PositionRebalanceService
