/-
  Server/AnnouncedSyncs.lean --- what a sync announces.

  A change of a list or a card gets one event, for the board of the parent the record
  has afterwards.  A merge may bring another parent: the board the record was shown on
  before gets no event of its own.  The parent of a list is the board itself, and the
  event names it as the device sent it, where the row holds its canonical id.

  `announced_processChange_iff` is the step: one change is announced exactly where it
  moves no shown record to another board and names the board of a list canonically.
-/
import FlowLogix.Server.AnnouncedCalls
import FlowLogix.Server.WellFormedRows

set_option autoImplicit false

namespace FlowLogix.Server

open FlowLogix.Foundation

variable {pg : Postgres} {c : SyncCollection} {db db' : Database pg} {orgId id k : JsString}
  {change : SyncChangeDto} {row row' : Row pg c}

/-! ## The board of an event -/

/-- The board an event is for, from the parent of the record. -/
def Database.boardNamed (db : Database pg) : SyncCollection → Option Json → Option JsString
  | .boards, _ => none
  | .lists, boardId => asUuid boardId
  | .cards, listId => (asUuid listId).bind db.boardIdForList

theorem Database.boardNamed_put (db : Database pg) (k : JsString) (row : Row pg c)
    (parent : Option Json) : (db.put k row).boardNamed c parent = db.boardNamed c parent := by
  cases c with
  | boards => rfl
  | lists => rfl
  | cards =>
      have hfind : (db.put k row).find .lists = db.find .lists :=
        funext fun j => db.find_put_of_ne k j row (by decide)
      have hboard : (db.put k row).boardIdForList = db.boardIdForList := by
        funext listId
        rw [boardIdForList, boardIdForList, hfind]
      rw [boardNamed, boardNamed, hboard]

theorem exists_eventForInsert {board : JsString} :
    (∃ e ∈ (eventForInsert db c change).toList, e.boardId = board) ↔
      db.boardNamed c (change.fields.lookup (parentProperty c)) = some board := by
  cases c with
  | boards => simp [eventForInsert, Database.boardNamed]
  | lists =>
      rw [eventForInsert, Database.boardNamed, parentProperty]
      cases asUuid (change.fields.lookup "boardId") with
      | none => simp
      | some boardId => simp
  | cards =>
      rw [eventForInsert, Database.boardNamed, parentProperty]
      cases asUuid (change.fields.lookup "listId") with
      | none => simp
      | some listId =>
          rw [Option.bind_some]
          cases hboard : db.boardIdForList listId with
          | none => simp [hboard]
          | some boardId => simp [hboard]

theorem exists_eventForUpdate {before after : RecordState Clock} {board : JsString} :
    (∃ e ∈ (eventForUpdate db c id before after).toList, e.boardId = board) ↔
      db.boardNamed c (coalesce (readField after.fields (parentProperty c))
        (readField before.fields (parentProperty c))) = some board := by
  cases c with
  | boards => simp [eventForUpdate, Database.boardNamed]
  | lists =>
      rw [eventForUpdate, Database.boardNamed, parentProperty]
      cases asUuid (coalesce (readField after.fields "boardId")
        (readField before.fields "boardId")) with
      | none => simp
      | some boardId =>
          cases after.deletedAt <;> cases before.deletedAt <;> simp
  | cards =>
      rw [eventForUpdate, Database.boardNamed, parentProperty]
      cases asUuid (coalesce (readField after.fields "listId")
        (readField before.fields "listId")) with
      | none => simp
      | some listId =>
          rw [Option.bind_some]
          cases hboard : db.boardIdForList listId with
          | none => simp [hboard]
          | some boardId =>
              cases after.deletedAt <;> cases before.deletedAt <;> simp [hboard]

/-! ## Parents -/

/-- A parent an insert stores as it is sent is a text of the uuid form. -/
theorem uuid_of_insertsAsSent (hc : c ≠ .boards) {v : Json}
    (h : insertsAsSent (parentProperty c) v = true) :
    ∃ s, v = .str s ∧ asUuid (some v) = some s := by
  have hform : (asUuid (some v)).isSome = true := by
    cases c with
    | boards => exact absurd rfl hc
    | lists => exact h
    | cards => exact h
  obtain ⟨s, hs⟩ := Option.isSome_iff_exists.mp hform
  exact ⟨s, Option.some.inj (asUuid_eq hs), hs⟩

theorem parentProperty_mem_syncFields (hc : c ≠ .boards) : parentProperty c ∈ syncFields c := by
  cases c with
  | boards => exact absurd rfl hc
  | lists => decide
  | cards => decide

/-- The parent of a row of the right form names the board the row is shown on. -/
theorem boardNamed_of_placeOf (hc : c ≠ .boards) (hrow : row.WellFormedAt (parentProperty c))
    {p : Place} (h : db.placeOf row = some p) :
    db.boardNamed c (row.columns.lookup (parentProperty c)) = some p.board := by
  obtain ⟨v, hv, hform⟩ := hrow
  obtain ⟨s, rfl, hs⟩ := uuid_of_insertsAsSent hc hform
  obtain ⟨-, htext, hshowing, -⟩ := Database.placeOf_eq_some h
  have hsame : row.text (parentProperty c) = some s := by rw [Row.text, hv]
  obtain rfl : s = p.parent := Option.some.inj (hsame.symm.trans htext)
  rw [hv]
  cases c with
  | boards => exact absurd rfl hc
  | lists => exact hs.trans hshowing
  | cards =>
      obtain ⟨list, hfind, hboard⟩ := list_of_showing hshowing
      rw [Database.boardNamed, hs, Option.bind_some, Database.boardIdForList,
        Row.text_eq_uuid htext, Option.bind_some, hfind, Option.bind_some, hboard]

/-- The parent a merge moves a row to. -/
def movedTo (db : Database pg) (orgId : JsString) (row : Row pg c) (change : SyncChangeDto) :
    Option Json :=
  if row.stamp (parentProperty c) < sentStamp db orgId change (parentProperty c) then
    accepted db orgId change (parentProperty c)
  else none

/-- It is a text of the uuid form. -/
theorem uuid_of_movedTo (hc : c ≠ .boards) {v : Json} (h : movedTo db orgId row change = some v) :
    ∃ s, v = .str s ∧ asUuid (some v) = some s := by
  rw [movedTo] at h
  split at h
  · refine uuid_of_insertsAsSent hc (insertsAsSent_of_accepted ?_ h)
    cases c with
    | boards => exact absurd rfl hc
    | lists => rfl
    | cards => rfl
  · cases h

/-- The parent the event of a merge looks at. -/
theorem coalesce_merged (hc : c ≠ .boards) (hrow : row.WellFormedAt (parentProperty c)) :
    coalesce (readField (mergeInto db orgId row change).merged.fields (parentProperty c))
        (readField (serverState row).fields (parentProperty c)) =
      (movedTo db orgId row change).or (row.columns.lookup (parentProperty c)) := by
  have hf := parentProperty_mem_syncFields hc
  obtain ⟨v, hv, hform⟩ := hrow
  obtain ⟨s, rfl, -⟩ := uuid_of_insertsAsSent hc hform
  rw [readField_serverState row hf, readField_merged db orgId row change hf, hv]
  cases hmoved : movedTo db orgId row change with
  | some raw =>
      obtain ⟨s', rfl, -⟩ := uuid_of_movedTo hc hmoved
      rw [movedTo] at hmoved
      split at hmoved
      · rename_i hwins
        rw [if_pos hwins, hmoved]
        rfl
      · cases hmoved
  | none =>
      rw [movedTo] at hmoved
      split at hmoved
      · rename_i hwins
        rw [if_pos hwins, hmoved]
        rfl
      · rename_i hwins
        rw [if_neg hwins]
        rfl

/-- The parent of the row after a merge: the one it had, or the one it was moved to. -/
theorem MergeEffect.lookup_parent (h : MergeEffect db orgId change row row')
    (hc : c ≠ .boards) (hmoved : movedTo db orgId row change = none) :
    row'.columns.lookup (parentProperty c) = row.columns.lookup (parentProperty c) := by
  have hf := parentProperty_mem_syncFields hc
  rw [movedTo] at hmoved
  split at hmoved
  · rename_i hwins
    exact h.wonNothing _ hf hwins hmoved
  · rename_i hwins
    exact (h.kept _ hf hwins).1

theorem MergeEffect.text_parent (h : MergeEffect db orgId change row row') (hc : c ≠ .boards)
    {raw : JsString} (hmoved : movedTo db orgId row change = some (.str raw)) :
    ∃ parent, pg.uuid raw = some parent ∧ row'.text (parentProperty c) = some parent := by
  rw [movedTo] at hmoved
  split at hmoved
  · rename_i hwins
    obtain ⟨w, hstore, hw⟩ := h.wonValue _ (parentProperty_mem_syncFields hc) hwins _ hmoved
    obtain ⟨parent, hparent, rfl⟩ := pg.store_parent c _ _ hstore
    exact ⟨parent, hparent, by rw [Row.text, hw]⟩
  · cases hmoved

/-! ## A merge -/

/-- A merge that writes is announced exactly where the record stays, or the parent of
the event names the boards of both its places. -/
theorem announced_patched_iff (hc : c ≠ .boards) (hfind : db.find c k = some row)
    (hrow : row.WellFormedAt (parentProperty c)) :
    Announced db (db.put k row') (eventForUpdate (db.put k row') c id (serverState row)
        (mergeInto db orgId row change).merged).toList ↔
      db.placeOf row = db.placeOf row' ∨ ∀ p, db.placeOf row = some p ∨ db.placeOf row' = some p →
        db.boardNamed c ((movedTo db orgId row change).or
          (row.columns.lookup (parentProperty c))) = some p.board := by
  rw [announced_put_iff, Database.place_of_find hfind]
  simp only [exists_eventForUpdate, Database.boardNamed_put, coalesce_merged hc hrow]

/-- A merge that moves a record to no other parent is announced. -/
theorem announced_stays (hc : c ≠ .boards) (hfind : db.find c k = some row)
    (hrow : row.WellFormedAt (parentProperty c)) (heffect : MergeEffect db orgId change row row')
    (hmoved : movedTo db orgId row change = none) :
    Announced db (db.put k row') (eventForUpdate (db.put k row') c id (serverState row)
      (mergeInto db orgId row change).merged).toList := by
  rw [announced_patched_iff hc hfind hrow, hmoved, Option.none_or]
  have hlookup := heffect.lookup_parent hc hmoved
  have hrow' : row'.WellFormedAt (parentProperty c) := by
    obtain ⟨v, hv, hform⟩ := hrow
    exact ⟨v, hlookup.trans hv, hform⟩
  refine Or.inr ?_
  rintro p (hp | hp)
  · exact boardNamed_of_placeOf hc hrow hp
  · rw [← hlookup]
    exact boardNamed_of_placeOf hc hrow' hp

/-- A list that a merge moves stays on the board it is shown on, which the device names
by its canonical id, unless the list is shown where it was. -/
def ListMoveNamed (db : Database pg) (orgId : JsString) (row : Row pg .lists)
    (change : SyncChangeDto) : Prop :=
  ∀ raw, movedTo db orgId row change = some (.str raw) →
    (∀ p, db.placeOf row = some p → pg.uuid raw = some p.board) ∧
      (pg.uuid raw = some raw ∨
        ∀ row', patchRow row (mergeInto db orgId row change).merged = .ok row' →
          db.placeOf row' = db.placeOf row)

/-- A card that a merge moves stays on the board it is shown on. -/
def CardMoveNamed (db : Database pg) (orgId : JsString) (row : Row pg .cards)
    (change : SyncChangeDto) : Prop :=
  ∀ raw, movedTo db orgId row change = some (.str raw) →
    ∀ p, db.placeOf row = some p → db.boardIdForList raw = some p.board

theorem announced_listMoved_iff {row row' : Row pg .lists} (hfind : db.find .lists k = some row)
    (hrow : row.WellFormedAt (parentProperty .lists))
    (hpatch : patchRow row (mergeInto db orgId row change).merged = .ok row') {raw : JsString}
    (hmoved : movedTo db orgId row change = some (.str raw)) :
    Announced db (db.put k row') (eventForUpdate (db.put k row') .lists id (serverState row)
        (mergeInto db orgId row change).merged).toList ↔ ListMoveNamed db orgId row change := by
  obtain ⟨b, hb, htext⟩ := (mergeEffect_of_patchRow hpatch).text_parent (by decide) hmoved
  obtain ⟨s, hs, huuid⟩ := uuid_of_movedTo (by decide) hmoved
  obtain rfl := Json.str.inj hs
  have hafter : ∀ p, db.placeOf row' = some p → p.board = b := fun p hp =>
    Option.some.inj ((boardId_of_placeOf hp).symm.trans htext)
  have hcanonical : ∀ p, db.placeOf row = some p → pg.uuid p.board = some p.board := fun p hp =>
    Row.text_eq_uuid (boardId_of_placeOf hp)
  rw [announced_patched_iff (by decide) hfind hrow, hmoved, Option.some_or, Database.boardNamed,
    huuid]
  constructor
  · intro h raw' hraw'
    obtain rfl := Json.str.inj (Option.some.inj (hmoved.symm.trans hraw'))
    refine ⟨fun p hp => ?_, ?_⟩
    · rcases h with h | h
      · rw [hb, hafter p (h ▸ hp)]
      · rw [Option.some.inj (h p (Or.inl hp))]
        exact hcanonical p hp
    · rw [or_iff_not_imp_left]
      intro hnot row'' hpatch'
      obtain rfl : row' = row'' := Except.ok.inj (hpatch.symm.trans hpatch')
      rcases h with h | h
      · exact h.symm
      · -- the event is for no board, so the list is shown on none
        have hbefore : db.placeOf row = none := by
          rw [Option.eq_none_iff_forall_ne_some]
          intro p hp
          rw [Option.some.inj (h p (Or.inl hp))] at hnot
          exact hnot (hcanonical p hp)
        have hnone : db.placeOf row' = none := by
          rw [Option.eq_none_iff_forall_ne_some]
          intro p hp
          rw [hb, ← hafter p hp, ← h p (Or.inr hp)] at hnot
          exact hnot rfl
        rw [hbefore, hnone]
  · intro h
    obtain ⟨hboard, hraw | hstays⟩ := h raw hmoved
    · refine Or.inr ?_
      rintro p (hp | hp)
      · rw [← hboard p hp, hraw]
      · rw [hafter p hp, ← hb, hraw]
    · exact Or.inl (hstays row' hpatch).symm

theorem announced_cardMoved_iff {row row' : Row pg .cards} (hfind : db.find .cards k = some row)
    (hrow : row.WellFormedAt (parentProperty .cards))
    (hpatch : patchRow row (mergeInto db orgId row change).merged = .ok row') {raw : JsString}
    (hmoved : movedTo db orgId row change = some (.str raw)) :
    Announced db (db.put k row') (eventForUpdate (db.put k row') .cards id (serverState row)
        (mergeInto db orgId row change).merged).toList ↔ CardMoveNamed db orgId row change := by
  obtain ⟨l, hl, htext⟩ := (mergeEffect_of_patchRow hpatch).text_parent (by decide) hmoved
  obtain ⟨s, hs, huuid⟩ := uuid_of_movedTo (by decide) hmoved
  obtain rfl := Json.str.inj hs
  have hafter : ∀ p, db.placeOf row' = some p → db.boardIdForList raw = some p.board := by
    intro p hp
    obtain ⟨-, hparent, hshowing, -⟩ := Database.placeOf_eq_some hp
    obtain rfl : l = p.parent := Option.some.inj (htext.symm.trans hparent)
    obtain ⟨list, hlist, hboard⟩ := list_of_showing hshowing
    rw [Database.boardIdForList, hl, Option.bind_some, hlist, Option.bind_some, hboard]
  rw [announced_patched_iff (by decide) hfind hrow, hmoved, Option.some_or, Database.boardNamed,
    huuid, Option.bind_some]
  constructor
  · intro h raw' hraw' p hp
    obtain rfl := Json.str.inj (Option.some.inj (hmoved.symm.trans hraw'))
    rcases h with h | h
    · exact hafter p (h ▸ hp)
    · exact h p (Or.inl hp)
  · intro h
    refine Or.inr ?_
    rintro p (hp | hp)
    · exact h raw hmoved p hp
    · exact hafter p hp

/-- The two ends of a merge: it writes nothing and moves nothing, or it writes the merged
row and its event. -/
theorem writeMerged_cases {written : Database pg × List PendingBoardEvent} (hc : c ≠ .boards)
    (h : writeMerged db k id row (mergeInto db orgId row change) = .ok written) :
    (written = (db, []) ∧ movedTo db orgId row change = none) ∨
      ∃ row', patchRow row (mergeInto db orgId row change).merged = .ok row' ∧
        written = (db.put k row', (eventForUpdate (db.put k row') c id (serverState row)
          (mergeInto db orgId row change).merged).toList) := by
  unfold writeMerged at h
  split at h
  · obtain ⟨row', hpatch, h⟩ := bind_eq_ok.mp h
    exact Or.inr ⟨row', hpatch, (Except.ok.inj h).symm⟩
  · rename_i hchanged
    refine Or.inl ⟨(Except.ok.inj h).symm, if_neg ?_⟩
    exact not_lt_of_not_changed (by simpa using hchanged) (parentProperty_mem_syncFields hc)

/-- A merge is announced when one that moves the record is. -/
theorem announced_merge_iff {written : Database pg × List PendingBoardEvent} {named : Prop}
    (hc : c ≠ .boards) (hfind : db.find c k = some row)
    (hrow : row.WellFormedAt (parentProperty c))
    (h : writeMerged db k id row (mergeInto db orgId row change) = .ok written)
    (hstays : movedTo db orgId row change = none → named)
    (hmoves : ∀ raw row', movedTo db orgId row change = some (.str raw) →
      patchRow row (mergeInto db orgId row change).merged = .ok row' →
        (Announced db (db.put k row') (eventForUpdate (db.put k row') c id (serverState row)
          (mergeInto db orgId row change).merged).toList ↔ named)) :
    Announced db written.1 written.2 ↔ named := by
  cases hmoved : movedTo db orgId row change with
  | none =>
      refine iff_of_true ?_ (hstays hmoved)
      obtain ⟨rfl, -⟩ | ⟨row', hpatch, rfl⟩ := writeMerged_cases hc h
      · exact .refl db []
      · exact announced_stays hc hfind hrow (mergeEffect_of_patchRow hpatch) hmoved
  | some v =>
      obtain ⟨raw, rfl, -⟩ := uuid_of_movedTo hc hmoved
      obtain ⟨-, hnone⟩ | ⟨row', hpatch, rfl⟩ := writeMerged_cases hc h
      · rw [hmoved] at hnone
        cases hnone
      · exact hmoves raw row' hmoved hpatch

theorem announced_listMerge_iff {row : Row pg .lists}
    {written : Database pg × List PendingBoardEvent} (hfind : db.find .lists k = some row)
    (hrow : row.WellFormedAt (parentProperty .lists))
    (h : writeMerged db k id row (mergeInto db orgId row change) = .ok written) :
    Announced db written.1 written.2 ↔ ListMoveNamed db orgId row change := by
  refine announced_merge_iff (by decide) hfind hrow h (fun hnone raw hraw => ?_)
    fun raw row' hmoved hpatch => announced_listMoved_iff hfind hrow hpatch hmoved
  rw [hnone] at hraw
  cases hraw

theorem announced_cardMerge_iff {row : Row pg .cards}
    {written : Database pg × List PendingBoardEvent} (hfind : db.find .cards k = some row)
    (hrow : row.WellFormedAt (parentProperty .cards))
    (h : writeMerged db k id row (mergeInto db orgId row change) = .ok written) :
    Announced db written.1 written.2 ↔ CardMoveNamed db orgId row change := by
  refine announced_merge_iff (by decide) hfind hrow h (fun hnone raw hraw => ?_)
    fun raw row' hmoved hpatch => announced_cardMoved_iff hfind hrow hpatch hmoved
  rw [hnone] at hraw
  cases hraw

/-! ## An insert -/

/-- An inserted list or card is not archived. -/
theorem isArchived_of_tryInsert (hpg : KeepsFlags pg) (hc : c ≠ .boards) {now : Nat}
    (hk : pg.uuid change.id = some k)
    (h : tryInsert db orgId now change c = .ok (.inserted (db.put k row))) :
    row.columns.lookup "isArchived" = some (.bool false) := by
  obtain ⟨values, hvalues, hinsert⟩ := tryInsert_values h
  obtain ⟨k', row', hk', -, hdb, hin, -⟩ := insertRow_eq_ok hvalues.nodup hinsert
  obtain rfl : k = k' := Option.some.inj (hk.symm.trans hk')
  have hrow : (db.put k row).find c k = (db.put k row').find c k := by rw [hdb]
  rw [Database.find_put, Database.find_put, if_pos rfl, if_pos rfl] at hrow
  obtain rfl := Option.some.inj hrow
  have hdefault : ("isArchived", Json.bool false) ∈ schemaDefaults c := by
    cases c with
    | boards => exact absurd rfl hc
    | lists => simp [schemaDefaults]
    | cards => simp [schemaDefaults]
  obtain ⟨w, hstore, hw⟩ := hin _ _ (List.mem_append_right values hdefault)
  rw [hw, hpg c w hstore]

/-- The change brings a tombstone as new as the newest of its clocks. -/
def arrivesDeleted (c : SyncCollection) (change : SyncChangeDto) : Bool :=
  change.deletedAt.any fun deletedAt =>
    decide ((numericClocks change.clocks (syncFields c)).mathMax ≤ deletedAt)

theorem InsertEffect.isShown_eq (h : InsertEffect db orgId change row)
    (harchived : row.columns.lookup "isArchived" = some (.bool false)) :
    isShown row = !arrivesDeleted c change := by
  rw [isShown, isSyncDeleted, h.clocks, h.tombstone, harchived, arrivesDeleted]
  simp

/-- The parent of an inserted row. -/
theorem InsertEffect.text_parent (h : InsertEffect db orgId change row) (hc : c ≠ .boards)
    {raw : JsString} (hraw : asUuid (change.fields.lookup (parentProperty c)) = some raw) :
    ∃ parent, pg.uuid raw = some parent ∧ row.text (parentProperty c) = some parent := by
  have hsent := asUuid_eq hraw
  have hform : insertsAsSent (parentProperty c) (.str raw) = true := by
    rw [hsent] at hraw
    have hsome : (asUuid (some (.str raw))).isSome = true := Option.isSome_of_eq_some hraw
    cases c with
    | boards => exact absurd rfl hc
    | lists => exact hsome
    | cards => exact hsome
  obtain ⟨w, hstore, hw⟩ := h.values _ (parentProperty_mem_syncFields hc) _ hsent hform
  obtain ⟨parent, hparent, rfl⟩ := pg.store_parent c _ _ hstore
  exact ⟨parent, hparent, by rw [Row.text, hw]⟩

/-- An inserted list or card names a parent. -/
theorem exists_parent_of_tryInsert (hc : c ≠ .boards) {now : Nat}
    (h : tryInsert db orgId now change c = .ok (.inserted db')) :
    ∃ raw, asUuid (change.fields.lookup (parentProperty c)) = some raw := by
  cases c with
  | boards => exact absurd rfl hc
  | lists =>
      have h : tryInsertList db orgId now change = .ok (.inserted db') := h
      unfold tryInsertList at h
      split at h
      · cases h
      split at h
      · exact ⟨_, by assumption⟩
      · cases h
  | cards =>
      have h : tryInsertCard db orgId now change = .ok (.inserted db') := h
      unfold tryInsertCard at h
      split at h
      · cases h
      split at h
      · exact ⟨_, by assumption⟩
      · cases h

/-- The parent of an inserted record names the board the record is shown on. -/
theorem announced_inserted_iff (hnone : db.find c k = none)
    {raw : JsString} (hraw : asUuid (change.fields.lookup (parentProperty c)) = some raw) :
    Announced db (db.put k row) (eventForInsert (db.put k row) c change).toList ↔
      ∀ p, db.placeOf row = some p → db.boardNamed c (some (.str raw)) = some p.board := by
  have hbefore : db.place c k = none := by rw [Database.place, hnone, Option.bind_none]
  rw [announced_put_iff, hbefore]
  simp only [exists_eventForInsert, Database.boardNamed_put, asUuid_eq hraw, reduceCtorEq, false_or]
  constructor
  · rintro (h | h) p hp
    · rw [hp] at h
      cases h
    · exact h p hp
  · exact Or.inr

/-- The insert of a list names its board canonically, unless the list arrives deleted. -/
def ListInsertNamed (pg : Postgres) (change : SyncChangeDto) : Prop :=
  ∀ raw, asUuid (change.fields.lookup "boardId") = some raw →
    pg.uuid raw = some raw ∨ arrivesDeleted .lists change = true

theorem announced_listInsert_iff (hpg : KeepsFlags pg) {now : Nat}
    (h : tryInsert db orgId now change .lists = .ok (.inserted db')) :
    Announced db db' (eventForInsert db' .lists change).toList ↔ ListInsertNamed pg change := by
  obtain ⟨k, row, hk, hnone, rfl, heffect⟩ := tryInsert_eq_ok h
  obtain ⟨raw, hraw⟩ := exists_parent_of_tryInsert (by decide) h
  obtain ⟨b, hb, htext⟩ := heffect.text_parent (by decide) hraw
  have hshown := heffect.isShown_eq (isArchived_of_tryInsert hpg (by decide) hk h)
  have hplace : db.placeOf row =
      if arrivesDeleted .lists change = true then none
      else some ⟨b, b, row.text "positionIdx"⟩ := by
    rw [Database.placeOf, Row.shownParent, hshown, htext]
    cases arrivesDeleted .lists change <;> rfl
  have huuid : asUuid (some (.str raw)) = some raw := asUuid_eq hraw ▸ hraw
  rw [announced_inserted_iff hnone hraw, hplace, Database.boardNamed, huuid]
  constructor
  · intro hnamed raw' hraw'
    obtain rfl : raw = raw' := Option.some.inj (hraw.symm.trans hraw')
    rw [or_iff_not_imp_right]
    intro hdeleted
    rw [if_neg hdeleted] at hnamed
    rw [hb, hnamed _ rfl]
  · intro hnamed p hp
    split at hp
    · cases hp
    · rename_i hdeleted
      obtain rfl := Option.some.inj hp
      rw [← (hnamed raw hraw).resolve_right hdeleted, hb]

theorem announced_cardInsert {now : Nat}
    (h : tryInsert db orgId now change .cards = .ok (.inserted db')) :
    Announced db db' (eventForInsert db' .cards change).toList := by
  obtain ⟨k, row, -, hnone, rfl, heffect⟩ := tryInsert_eq_ok h
  obtain ⟨raw, hraw⟩ := exists_parent_of_tryInsert (by decide) h
  obtain ⟨l, hl, htext⟩ := heffect.text_parent (by decide) hraw
  rw [announced_inserted_iff hnone hraw]
  intro p hp
  obtain ⟨-, hparent, hshowing, -⟩ := Database.placeOf_eq_some hp
  obtain rfl : l = p.parent := Option.some.inj (htext.symm.trans hparent)
  obtain ⟨list, hlist, hboard⟩ := list_of_showing hshowing
  have huuid : asUuid (some (.str raw)) = some raw := asUuid_eq hraw ▸ hraw
  rw [Database.boardNamed, huuid, Option.bind_some, Database.boardIdForList, hl, Option.bind_some,
    hlist, Option.bind_some, hboard]

/-! ## A change -/

/-- A change of a list or a card names every board it changes. -/
def ChangeNamesBoards (orgId : JsString) (now : Nat) (db : Database pg) (change : SyncChangeDto) :
    SyncCollection → Prop
  | .boards => True
  | .lists => ∀ k, pg.uuid change.id = some k →
      (db.owner .lists k = some orgId →
        ∀ row, db.find .lists k = some row → ListMoveNamed db orgId row change) ∧
      (db.owner .lists k ≠ some orgId →
        (∃ db', tryInsert db orgId now change .lists = .ok (.inserted db')) →
          ListInsertNamed pg change)
  | .cards => ∀ k, pg.uuid change.id = some k → db.owner .cards k = some orgId →
      ∀ row, db.find .cards k = some row → CardMoveNamed db orgId row change

/-- The lists and the cards name parents of the uuid form. -/
def Database.ParentsFormed (db : Database pg) : Prop :=
  ∀ c, c ≠ .boards → db.WellFormedAt c (parentProperty c)

/-- What a change of a board writes is shown on no board. -/
theorem announced_boards {events : List PendingBoardEvent}
    (h : ∀ c', c' ≠ .boards → db'.table c' = db.table c') : Announced db db' events := by
  intro board hview
  refine absurd (fun c k => ?_) hview
  by_cases hc : c = .boards
  · subst hc
    have hnone : ∀ tables : Database pg, tables.place .boards k = none := by
      intro tables
      rw [Option.eq_none_iff_forall_ne_some]
      intro p hp
      obtain ⟨row, -, hrow⟩ := Option.bind_eq_some_iff.mp hp
      obtain ⟨-, -, hshowing, -⟩ := Database.placeOf_eq_some hrow
      cases hshowing
    rw [hnone, hnone]
  · have hlists : db'.find .lists = db.find .lists := by
      funext l
      rw [Database.find, Database.find, h .lists (by decide)]
    refine filter_place_congr (by rw [Database.find, Database.find, h c hc]) fun _ l => ?_
    exact filter_place_congr (by rw [hlists]) (by simp)

/-- **One change of a sync is announced** exactly where it names the boards it changes. -/
theorem announced_processChange_iff (hpg : KeepsFlags pg) {now : Nat} {loop loop' : SyncLoop pg}
    (hrows : loop.db.ParentsFormed)
    (h : processChange orgId c now loop change = .ok loop') :
    ∃ events, loop'.pendingEvents = loop.pendingEvents ++ events ∧
      (Announced loop.db loop'.db events ↔ ChangeNamesBoards orgId now loop.db change c) := by
  obtain ⟨k, hk, hstep⟩ := processChange_eq_ok h
  obtain ⟨k', -, heffect⟩ := processChange_cases h
  cases hstep with
  | merged row written howner hfind hwritten =>
      refine ⟨written.2, rfl, ?_⟩
      cases c with
      | boards => exact iff_of_true (announced_boards fun c' hc => heffect.table_of_ne hc) trivial
      | lists =>
          rw [announced_listMerge_iff hfind (hrows .lists (by decide) k row hfind) hwritten]
          constructor
          · intro hnamed j hj
            obtain rfl : k = j := Option.some.inj (hk.symm.trans hj)
            refine ⟨fun _ row' hrow' => ?_, fun hnot => absurd howner hnot⟩
            obtain rfl : row = row' := Option.some.inj (hfind.symm.trans hrow')
            exact hnamed
          · exact fun hnamed => (hnamed k hk).1 howner row hfind
      | cards =>
          rw [announced_cardMerge_iff hfind (hrows .cards (by decide) k row hfind) hwritten]
          constructor
          · intro hnamed j hj _ row' hrow'
            obtain rfl : k = j := Option.some.inj (hk.symm.trans hj)
            obtain rfl : row = row' := Option.some.inj (hfind.symm.trans hrow')
            exact hnamed
          · exact fun hnamed => hnamed k hk howner row hfind
  | refused howner hrefused =>
      refine ⟨[], (List.append_nil _).symm, iff_of_true (.refl _ _) ?_⟩
      cases c with
      | boards => trivial
      | lists =>
          intro j hj
          obtain rfl : k = j := Option.some.inj (hk.symm.trans hj)
          refine ⟨fun hmine => absurd hmine howner, fun _ ⟨db', hinserted⟩ => ?_⟩
          rw [hrefused] at hinserted
          cases hinserted
      | cards =>
          intro j hj hmine
          obtain rfl : k = j := Option.some.inj (hk.symm.trans hj)
          exact absurd hmine howner
  | inserted db howner hinserted =>
      refine ⟨_, rfl, ?_⟩
      cases c with
      | boards => exact iff_of_true (announced_boards fun c' hc => heffect.table_of_ne hc) trivial
      | lists =>
          rw [announced_listInsert_iff hpg hinserted]
          constructor
          · intro hnamed j hj
            obtain rfl : k = j := Option.some.inj (hk.symm.trans hj)
            exact ⟨fun hmine => absurd hmine howner, fun _ _ => hnamed⟩
          · exact fun hnamed => (hnamed k hk).2 howner ⟨db, hinserted⟩
      | cards =>
          refine iff_of_true (announced_cardInsert hinserted) fun j hj hmine => ?_
          obtain rfl : k = j := Option.some.inj (hk.symm.trans hj)
          exact absurd hmine howner

/-- A change keeps the form of the parents. -/
theorem parentsFormed_processChange (hpg : TypedColumns pg) {now : Nat} {loop loop' : SyncLoop pg}
    (hrows : loop.db.ParentsFormed) (h : processChange orgId c now loop change = .ok loop') :
    loop'.db.ParentsFormed := by
  intro c' hc'
  by_cases hc : c' = c
  · subst hc
    have htitle : parentProperty c' ≠ "title" := by cases c' <;> decide
    exact processChange_wellFormedAt hpg (parentProperty_mem_syncFields hc')
      (fun heq => absurd heq htitle) (hrows c' hc') h
  · obtain ⟨k, -, heffect⟩ := processChange_cases h
    intro j r hr
    rw [Database.find, heffect.table_of_ne hc] at hr
    exact hrows c' hc' j r hr

/-! ## A request -/

/-- Every change of the request names the boards it changes. -/
def SyncNamesBoards (orgId : JsString) (now : Nat) (db : Database pg) (req : SyncRequestDto) :
    Prop :=
  ∀ pre change post loop, orderedChanges req.changes = pre ++ change :: post →
    processChanges orgId req.collection now db pre = .ok loop →
      ChangeNamesBoards orgId now loop.db change req.collection

variable {now : Nat} {server : ServerState pg} {req : SyncRequestDto} {result : SyncResult pg}

/-- A committed request commits what its loop leaves behind. -/
theorem loop_of_sync (h : sync orgId now server req = .ok result) :
    ∃ loop, processChanges orgId req.collection now server.db (orderedChanges req.changes) =
      .ok loop ∧ result.server.db = loop.db ∧ result.events = loop.pendingEvents := by
  obtain ⟨loop, hloop, h⟩ := bind_eq_ok.mp h
  obtain ⟨_, -, h⟩ := bind_eq_ok.mp h
  obtain rfl := Except.ok.inj h
  exact ⟨loop, hloop, rfl, rfl⟩

/-- A request is announced if each of its changes is. -/
theorem announced_sync (hpg : TypedColumns pg) (hflags : KeepsFlags pg)
    (hrows : server.db.ParentsFormed) (h : sync orgId now server req = .ok result)
    (hnames : SyncNamesBoards orgId now server.db req) :
    Announced server.db result.server.db result.events := by
  obtain ⟨loop, hloop, hdb, hevents⟩ := loop_of_sync h
  rw [hdb, hevents]
  refine (foldlM_invariant_reached (fun l : SyncLoop pg =>
    l.db.ParentsFormed ∧ Announced server.db l.db l.pendingEvents) ?_ ⟨hrows, .refl _ _⟩ hloop).2
  rintro pre change post mid mid' hordered hpre ⟨hformed, hannounced⟩ hnext
  obtain ⟨events, happend, hiff⟩ := announced_processChange_iff hflags hformed hnext
  refine ⟨parentsFormed_processChange hpg hformed hnext, ?_⟩
  rw [happend]
  exact hannounced.trans (hiff.mpr (hnames pre change post mid hordered hpre))

/-- A request of one change is announced only if the change is. -/
theorem syncNamesBoards_of_announced (hflags : KeepsFlags pg) (hrows : server.db.ParentsFormed)
    (h : sync orgId now server req = .ok result) (hone : req.changes.length ≤ 1)
    (hannounced : Announced server.db result.server.db result.events) :
    SyncNamesBoards orgId now server.db req := by
  obtain ⟨loop, hloop, hdb, hevents⟩ := loop_of_sync h
  rw [hdb, hevents] at hannounced
  intro pre change post mid hordered hpre
  have hlength : (orderedChanges req.changes).length ≤ 1 := by
    rwa [orderedChanges, List.length_insertionSort]
  rw [hordered, List.length_append, List.length_cons] at hlength
  obtain rfl : pre = [] := List.length_eq_zero_iff.mp (by omega)
  obtain rfl : post = [] := List.length_eq_zero_iff.mp (by omega)
  obtain rfl := Except.ok.inj hpre
  rw [hordered, List.nil_append, processChanges, List.foldlM_cons] at hloop
  obtain ⟨next, hnext, hrest⟩ := bind_eq_ok.mp hloop
  obtain rfl := Except.ok.inj hrest
  obtain ⟨events, happend, hiff⟩ := announced_processChange_iff hflags hrows hnext
  rw [SyncLoop.start, List.nil_append] at happend
  rw [happend] at hannounced
  exact hiff.mp hannounced

end FlowLogix.Server
