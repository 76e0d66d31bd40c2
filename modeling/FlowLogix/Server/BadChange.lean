/-
  Server/BadChange.lean --- one change that cannot be applied.

  The changes of a request share one transaction.  A statement PostgreSQL rejects
  aborts it, the caught unique violation included, so a change is left out of a
  request without harm exactly when no statement is issued for it: its payload is
  refused before the insert, or the row of its record contains it already.
  `leavesOut_iff` compares the request with the one that does not have the
  change.
-/
import FlowLogix.Server.PushRetry

set_option autoImplicit false

namespace FlowLogix.Server

open FlowLogix.Foundation FlowLogix.Ordering

variable {pg : Postgres} {orgId : JsString} {c : SyncCollection}

/-! ## A payload that is refused -/

/-- A payload an insert is attempted for: the id has the form of a uuid, the title
is not blank, and the parent is in the organization. -/
def insertable (db : Database pg) (orgId : JsString) (c : SyncCollection)
    (change : SyncChangeDto) : Bool :=
  isUuid change.id && (asNonEmptyString (change.fields.lookup "title")).isSome &&
    match c with
    | .boards => true
    | .lists => (asUuid (change.fields.lookup "boardId")).any fun boardId =>
        db.boardInOrg boardId orgId
    | .cards => (asUuid (change.fields.lookup "listId")).any fun listId =>
        db.listInOrg listId orgId

variable {db db' : Database pg} {change : SyncChangeDto} {now : Nat}

/-- It depends on the tables above the collection. -/
theorem insertable_congr (htable : ∀ c', c' ≠ c → db'.table c' = db.table c') :
    insertable db' orgId c change = insertable db orgId c change := by
  unfold insertable
  cases c with
  | boards => rfl
  | lists => simp only [boardInOrg_congr (htable .boards (by decide))]
  | cards => simp only [listInOrg_congr (htable .boards (by decide)) (htable .lists (by decide))]

/-- An insert is refused, and issues no statement, exactly for such a payload. -/
theorem tryInsert_refused_iff :
    tryInsert db orgId now change c = .ok .refused ↔ insertable db orgId c change = false := by
  have hmint : ∀ {parentId : JsString} {provided : Option Json}
      {values : JsString → List (String × Json)},
      (do
        let positionIdx ← resolvePositionKey db c parentId provided
        insertRow db c now change (values positionIdx)) ≠ .ok .refused := by
    intro parentId provided values h
    obtain ⟨positionIdx, -, hinsert⟩ := bind_eq_ok.mp h
    exact insertRow_ne_refused hinsert
  cases huuid : isUuid change.id with
  | false => cases c <;> simp [tryInsert, tryInsertBoard, tryInsertList, tryInsertCard, insertable,
      huuid]
  | true =>
      cases c with
      | boards =>
          cases htitle : asNonEmptyString (change.fields.lookup "title") with
          | none => simp [tryInsert, tryInsertBoard, insertable, huuid, htitle]
          | some title =>
              simp [tryInsert, tryInsertBoard, insertable, huuid, htitle, insertRow_ne_refused]
      | lists =>
          cases htitle : asNonEmptyString (change.fields.lookup "title") with
          | none => simp [tryInsert, tryInsertList, insertable, huuid, htitle]
          | some title =>
              cases hboard : asUuid (change.fields.lookup "boardId") with
              | none => simp [tryInsert, tryInsertList, insertable, huuid, htitle, hboard]
              | some boardId =>
                  cases hin : db.boardInOrg boardId orgId with
                  | false => simp [tryInsert, tryInsertList, insertable, huuid, htitle, hboard, hin]
                  | true =>
                      simpa [tryInsert, tryInsertList, insertable, huuid, htitle, hboard, hin]
                        using hmint
      | cards =>
          cases htitle : asNonEmptyString (change.fields.lookup "title") with
          | none => simp [tryInsert, tryInsertCard, insertable, huuid, htitle]
          | some title =>
              cases hlist : asUuid (change.fields.lookup "listId") with
              | none => simp [tryInsert, tryInsertCard, insertable, huuid, htitle, hlist]
              | some listId =>
                  cases hin : db.listInOrg listId orgId with
                  | false => simp [tryInsert, tryInsertCard, insertable, huuid, htitle, hlist, hin]
                  | true =>
                      simpa [tryInsert, tryInsertCard, insertable, huuid, htitle, hlist, hin]
                        using hmint

/-! ## A change that is passed over -/

/-- A change that can be left out: its record is in the organization, in a row
that contains it, or it is not and the payload is refused. -/
def Harmless (db : Database pg) (orgId : JsString) (c : SyncCollection)
    (change : SyncChangeDto) : Prop :=
  ∃ k, pg.uuid change.id = some k ∧
    if db.owner c k = some orgId then
      ∃ row, db.find c k = some row ∧ Contains db orgId row change
    else insertable db orgId c change = false

/-- It depends on the row of the record and the tables above the collection. -/
theorem Harmless.congr {k : JsString} (h : Harmless db orgId c change)
    (hk : pg.uuid change.id = some k) (htable : ∀ c', c' ≠ c → db'.table c' = db.table c')
    (hfind : db'.find c k = db.find c k) : Harmless db' orgId c change := by
  obtain ⟨k', hk', h⟩ := h
  obtain rfl : k' = k := Option.some.inj (hk'.symm.trans hk)
  have howner : db'.owner c k' = db.owner c k' := by
    rw [Database.owner, Database.owner, hfind, Database.parentOrg_congr htable]
  refine ⟨k', hk, ?_⟩
  rw [howner, hfind, insertable_congr htable]
  split
  · rename_i hmine
    rw [if_pos hmine] at h
    obtain ⟨row, hrow, hcontains⟩ := h
    exact ⟨row, hrow, hcontains.congr htable⟩
  · rename_i hother
    rwa [if_neg hother] at h

/-- The loop on a harmless change: nothing but an echo. -/
theorem Harmless.processChange {loop : SyncLoop pg} (h : Harmless loop.db orgId c change)
    (now : Nat) :
    ∃ loop', processChange orgId c now loop change = .ok loop' ∧ loop'.db = loop.db ∧
      loop'.acceptedIds = loop.acceptedIds ∧ loop.changes.length ≤ loop'.changes.length := by
  obtain ⟨k, hk, h⟩ := h
  by_cases howner : loop.db.owner c k = some orgId
  · rw [if_pos howner] at h
    obtain ⟨row, hfind, hcontains⟩ := h
    exact hcontains.processChange hk howner hfind now
  · rw [if_neg howner] at h
    have hload : loop.db.load c change.id orgId = .ok none := by
      simp [Database.load, Database.key, hk, howner, bind, Except.bind, pure, Except.pure]
    refine ⟨loop, ?_, rfl, rfl, le_rfl⟩
    rw [Server.processChange, hload]
    show (tryInsert loop.db orgId now change c >>= _) = _
    rw [tryInsert_refused_iff.mpr h]
    rfl

/-- A change that goes through without being accepted: a refused payload, or a
merge that wins no field. -/
theorem processChange_not_accepted {loop loop' : SyncLoop pg}
    (h : processChange orgId c now loop change = .ok loop')
    (hnot : change.id ∉ loop'.acceptedIds) :
    ∃ k, pg.uuid change.id = some k ∧
      if loop.db.owner c k = some orgId then
        ∃ row row', loop.db.find c k = some row ∧ loop'.db.find c k = some row' ∧
          MergeEffect loop.db orgId change row row' ∧
          ∀ field ∈ syncFields c, sentStamp loop.db orgId change field ≤ row.stamp field
      else insertable loop.db orgId c change = false := by
  obtain ⟨k, hk, hstep⟩ := processChange_eq_ok h
  refine ⟨k, hk, ?_⟩
  cases hstep with
  | merged row written howner hfind hwritten =>
      obtain ⟨row', heffect, hfind', -⟩ := writeMerged_eq_ok hfind hwritten
      rw [if_pos howner]
      refine ⟨row, row', hfind, hfind', heffect, fun field hf => not_lt.mp fun hlt => hnot ?_⟩
      have haccepted : (mergeInto loop.db orgId row change).clientAccepted = true :=
        (clientAccepted_iff _ _).mpr (Or.inl ⟨field,
          (mem_fields_iff loop.db orgId row change).mpr hf, (clientWins_iff_stamp hf).mpr hlt⟩)
      simp [haccepted]
  | refused howner hrefused =>
      rw [if_neg howner]
      exact tryInsert_refused_iff.mp hrefused
  | inserted db _ _ => simp at hnot

/-- One change adds at most its own id to the accepted ones. -/
theorem acceptedIds_processChange {loop loop' : SyncLoop pg}
    (h : processChange orgId c now loop change = .ok loop') :
    loop'.acceptedIds = loop.acceptedIds ∨
      loop'.acceptedIds = loop.acceptedIds ++ [change.id] := by
  obtain ⟨k, -, hstep⟩ := processChange_eq_ok h
  cases hstep with
  | merged _ _ _ _ _ =>
      dsimp only
      split
      · exact Or.inr rfl
      · exact Or.inl (List.append_nil _)
  | refused _ _ => exact Or.inl rfl
  | inserted _ _ _ => exact Or.inr rfl

/-! ## Two loops that differ by an echo -/

/-- Two states of the loop with the same tables and acceptances; the first may
hold more echoes. -/
structure Agrees (loop loop' : SyncLoop pg) : Prop where
  db : loop'.db = loop.db
  accepted : loop'.acceptedIds = loop.acceptedIds
  changes : loop'.changes.length ≤ loop.changes.length

theorem Agrees.mergeChange {loop loop' final' : SyncLoop pg} {k : JsString} {row : Row pg c}
    (hagrees : Agrees loop loop') (h : mergeChange orgId loop' change k row = .ok final') :
    ∃ final, mergeChange orgId loop change k row = .ok final ∧ Agrees final final' := by
  obtain ⟨written, hwritten, h⟩ := bind_eq_ok.mp h
  obtain rfl := Except.ok.inj h
  rw [hagrees.db] at hwritten
  have hstep : Server.mergeChange orgId loop change k row = .ok _ :=
    bind_eq_ok.mpr ⟨written, hwritten, rfl⟩
  refine ⟨_, hstep, rfl, ?_, ?_⟩
  · simp only [hagrees.db, hagrees.accepted]
  · simp only [hagrees.db, List.length_append]
    have := hagrees.changes
    omega

theorem Agrees.processChange {loop loop' final' : SyncLoop pg} (hagrees : Agrees loop loop')
    (h : processChange orgId c now loop' change = .ok final') :
    ∃ final, processChange orgId c now loop change = .ok final ∧ Agrees final final' := by
  obtain ⟨found, hload, h⟩ := bind_eq_ok.mp h
  rw [hagrees.db] at hload
  cases found with
  | some p =>
      obtain ⟨final, hfinal, hagrees'⟩ := hagrees.mergeChange h
      exact ⟨final, bind_eq_ok.mpr ⟨some p, hload, hfinal⟩, hagrees'⟩
  | none =>
      obtain ⟨outcome, houtcome, h⟩ := bind_eq_ok.mp h
      rw [hagrees.db] at houtcome
      cases outcome with
      | inserted db =>
          obtain rfl := Except.ok.inj h
          have hstep : Server.processChange orgId c now loop change = .ok _ :=
            bind_eq_ok.mpr ⟨none, hload, bind_eq_ok.mpr ⟨.inserted db, houtcome, rfl⟩⟩
          exact ⟨_, hstep, rfl, by simp only [hagrees.accepted], hagrees.changes⟩
      | refused =>
          obtain rfl := Except.ok.inj h
          exact ⟨loop, bind_eq_ok.mpr ⟨none, hload, bind_eq_ok.mpr ⟨.refused, houtcome, rfl⟩⟩,
            hagrees⟩
      | uniqueViolation => cases h

theorem Agrees.foldlM {changes : List SyncChangeDto} {loop loop' final' : SyncLoop pg}
    (hagrees : Agrees loop loop')
    (h : changes.foldlM (Server.processChange orgId c now) loop' = .ok final') :
    ∃ final, changes.foldlM (Server.processChange orgId c now) loop = .ok final ∧
      Agrees final final' := by
  induction changes generalizing loop loop' with
  | nil => exact ⟨loop, rfl, Except.ok.inj h ▸ hagrees⟩
  | cons change rest ih =>
      rw [List.foldlM_cons] at h
      obtain ⟨mid', hmid', h⟩ := bind_eq_ok.mp h
      obtain ⟨mid, hmid, hagrees'⟩ := hagrees.processChange hmid'
      obtain ⟨final, hfinal, hagrees''⟩ := ih hagrees' h
      refine ⟨final, ?_, hagrees''⟩
      rw [List.foldlM_cons]
      exact bind_eq_ok.mpr ⟨mid, hmid, hfinal⟩

/-- The delta after more echoes is read when the delta after fewer is. -/
theorem Agrees.deltaPull {loop loop' : SyncLoop pg} {since : Nat}
    {pulled' : List (Crdt.VersionedRecord Clock)} (hagrees : Agrees loop loop')
    (h : deltaPull loop' c orgId since = .ok pulled') :
    ∃ pulled, Server.deltaPull loop c orgId since = .ok pulled := by
  unfold Server.deltaPull at h ⊢
  split
  · rename_i hroom
    have hroom' : 0 < since ∧ 0 < maxSyncChanges - loop'.changes.length :=
      ⟨hroom.1, by have := hagrees.changes; omega⟩
    rw [if_pos hroom', pullSinceCheckpoint, hagrees.db] at h
    rw [pullSinceCheckpoint]
    split at h
    · rename_i hcastable
      exact ⟨_, if_pos hcastable⟩
    · cases h
  · exact ⟨[], rfl⟩

/-! ## Leaving a change out -/

/-- The changes of a request in the order of their ids, with one change and
without it. -/
theorem orderedChanges_without {pre post : List SyncChangeDto} {bad : SyncChangeDto}
    (hdistinct : ((pre ++ bad :: post).map fun ch => pg.uuid ch.id).Nodup) :
    ∃ before after, orderedChanges (pre ++ bad :: post) = before ++ bad :: after ∧
      orderedChanges (pre ++ post) = before ++ after ∧
        ∀ ch ∈ before ++ after, pg.uuid ch.id ≠ pg.uuid bad.id := by
  have hperm := List.perm_insertionSort (fun a b : SyncChangeDto => a.id ≤ b.id)
    (pre ++ bad :: post)
  have hsorted := List.pairwise_insertionSort (fun a b : SyncChangeDto => a.id ≤ b.id)
    (pre ++ bad :: post)
  obtain ⟨before, after, heq⟩ := List.append_of_mem (hperm.mem_iff.mpr
    (List.mem_append_right pre List.mem_cons_self))
  rw [heq] at hperm hsorted
  have hrest : (before ++ after).Perm (pre ++ post) :=
    (List.perm_middle.symm.trans (hperm.trans List.perm_middle)).cons_inv
  have hnodup : (pg.uuid bad.id :: (before ++ after).map fun ch => pg.uuid ch.id).Nodup := by
    have hmap := (List.perm_middle.symm.trans hperm).map fun ch => pg.uuid ch.id
    exact hmap.nodup_iff.mpr hdistinct
  refine ⟨before, after, heq, ?_, fun ch hch hid => ?_⟩
  · have hsorted' := List.pairwise_insertionSort (fun a b : SyncChangeDto => a.id ≤ b.id)
      (pre ++ post)
    have hperm' := List.perm_insertionSort (fun a b : SyncChangeDto => a.id ≤ b.id) (pre ++ post)
    refine List.Perm.eq_of_pairwise (fun a b ha hb hab hba => ?_) hsorted'
      (hsorted.sublist ((List.sublist_cons_self bad after).append_left before))
      (hperm'.trans hrest.symm)
    have hmem := hrest.mem_iff.mpr (hperm'.mem_iff.mp ha)
    exact List.inj_on_of_nodup_map (List.nodup_cons.mp hnodup).2 hmem hb
      (congrArg pg.uuid (le_antisymm hab hba))
  · exact (List.nodup_cons.mp hnodup).1 (List.mem_map.mpr ⟨ch, hch, hid⟩)

/-- An accepted id stays accepted. -/
theorem foldlM_accepted {changes : List SyncChangeDto} {loop loop' : SyncLoop pg} {id : JsString}
    (hid : id ∈ loop.acceptedIds)
    (h : changes.foldlM (processChange orgId c now) loop = .ok loop') : id ∈ loop'.acceptedIds := by
  refine foldlM_invariant (fun l : SyncLoop pg => id ∈ l.acceptedIds) ?_ hid h
  intro l ch l' _ hl hprocess
  rcases acceptedIds_processChange hprocess with heq | heq
  · rwa [heq]
  · rw [heq]
    exact List.mem_append_left _ hl

/-- Every accepted id is the id of a change. -/
theorem acceptedIds_subset {changes : List SyncChangeDto} {loop : SyncLoop pg}
    (h : processChanges orgId c now db changes = .ok loop) :
    ∀ id ∈ loop.acceptedIds, ∃ ch ∈ changes, ch.id = id := by
  refine foldlM_invariant (fun l : SyncLoop pg =>
    ∀ id ∈ l.acceptedIds, ∃ ch ∈ changes, ch.id = id) ?_ (by simp [SyncLoop.start]) h
  intro l ch l' hmem hl hprocess id hid
  rcases acceptedIds_processChange hprocess with heq | heq
  · rw [heq] at hid
    exact hl id hid
  · rw [heq, List.mem_append, List.mem_singleton] at hid
    rcases hid with hold | rfl
    · exact hl id hold
    · exact ⟨ch, hmem, rfl⟩

/-- A change that cannot be applied: its record is in another organization, or a
value it sends is not one its column holds. -/
def Unappliable (db : Database pg) (orgId : JsString) (c : SyncCollection)
    (change : SyncChangeDto) : Prop :=
  (∃ k, pg.uuid change.id = some k ∧ (db.find c k).isSome ∧ db.owner c k ≠ some orgId) ∨
    change.fields.lookup "title" = some .null ∨
    ∃ field ∈ ["title", "positionIdx"], field ∈ syncFields c ∧
      ∃ s, change.fields.lookup field = some (.str s) ∧ 255 < charLength s

/-- The request commits, does not accept the change, and leaves the tables and the
acceptances that the rest of the request leaves. -/
def LeavesOut (orgId : JsString) (now : Nat) (server : ServerState pg) (req : SyncRequestDto)
    (bad : SyncChangeDto) (rest : SyncResult pg) : Prop :=
  ∃ result, sync orgId now server req = .ok result ∧ bad.id ∉ result.response.acceptedIds ∧
    result.server.db = rest.server.db ∧
    result.response.acceptedIds = rest.response.acceptedIds

/-- **One change does not sink the others** exactly when it is harmless.  The
other changes, which name other records, commit without it. -/
theorem leavesOut_iff {server : ServerState pg} {req : SyncRequestDto} {rest : SyncResult pg}
    {bad : SyncChangeDto} {pre post : List SyncChangeDto}
    (hchanges : req.changes = pre ++ bad :: post)
    (hdistinct : (req.changes.map fun ch => pg.uuid ch.id).Nodup)
    (hrest : sync orgId now server { req with changes := pre ++ post } = .ok rest) :
    LeavesOut orgId now server req bad rest ↔
      Harmless server.db orgId req.collection bad := by
  rw [hchanges] at hdistinct
  obtain ⟨before, after, hordered, hordered', hother⟩ := orderedChanges_without hdistinct
  obtain ⟨last', hlast', hdb', -, -, haccepted', pulled', hpulled', -⟩ := sync_eq_ok hrest
  rw [hordered', processChanges, List.foldlM_append] at hlast'
  obtain ⟨mid, hmid, hafter'⟩ := bind_eq_ok.mp hlast'
  have hbefore : ∀ k, pg.uuid bad.id = some k → ∀ ch ∈ before, pg.uuid ch.id ≠ some k :=
    fun k hk ch hch heq => hother ch (List.mem_append_left after hch) (heq.trans hk.symm)
  have hafter : ∀ k, pg.uuid bad.id = some k → ∀ ch ∈ after, pg.uuid ch.id ≠ some k :=
    fun k hk ch hch heq => hother ch (List.mem_append_right before hch) (heq.trans hk.symm)
  constructor
  · rintro ⟨result, hresult, hnot, hdb, -⟩
    obtain ⟨last, hlast, hdbl, -, -, haccepted, -⟩ := sync_eq_ok hresult
    rw [hchanges, hordered, processChanges, List.foldlM_append] at hlast
    obtain ⟨mid₁, hmid₁, hlast⟩ := bind_eq_ok.mp hlast
    obtain rfl : mid = mid₁ := Except.ok.inj (hmid.symm.trans hmid₁)
    rw [List.foldlM_cons] at hlast
    obtain ⟨next, hnext, hlast⟩ := bind_eq_ok.mp hlast
    have hnotnext : bad.id ∉ next.acceptedIds :=
      fun hid => hnot (haccepted ▸ foldlM_accepted hid hlast)
    obtain ⟨k, hk, hpassed⟩ := processChange_not_accepted hnext hnotnext
    obtain ⟨htable, hfind⟩ := foldlM_other (hbefore k hk) hmid
    have hharmless : Harmless mid.db orgId req.collection bad := by
      refine ⟨k, hk, ?_⟩
      split
      · rename_i howner
        rw [if_pos howner] at hpassed
        obtain ⟨row, row', hrow, hrow', heffect, hlose⟩ := hpassed
        -- the row is the one the request without the change leaves
        have hsame : some row' = some row := by
          rw [← hrow', ← (foldlM_other (hafter k hk) hlast).2, ← hdbl, hdb, hdb',
            (foldlM_other (hafter k hk) hafter').2, hrow]
        obtain rfl := Option.some.inj hsame
        exact ⟨row', hrow, hlose, sup_eq_left.mp heffect.tombOf_eq.symm⟩
      · rename_i howner
        rwa [if_neg howner] at hpassed
    exact hharmless.congr hk (fun c' hc => (htable c' hc).symm) hfind.symm
  · intro hharmless
    obtain ⟨k, hk, -⟩ := id hharmless
    obtain ⟨htable, hfind⟩ := foldlM_other (hbefore k hk) hmid
    obtain ⟨next, hnext, hdb, haccepted, hlength⟩ :=
      (hharmless.congr hk htable hfind).processChange now
    have hagrees : Agrees next mid := ⟨hdb.symm, haccepted.symm, hlength⟩
    obtain ⟨last, hlast, hagrees'⟩ := hagrees.foldlM hafter'
    obtain ⟨pulled, hpulled⟩ := hagrees'.deltaPull hpulled'
    have hloop : processChanges orgId req.collection now server.db (orderedChanges req.changes) =
        .ok last := by
      rw [hchanges, hordered, processChanges, List.foldlM_append]
      refine bind_eq_ok.mpr ⟨mid, hmid, ?_⟩
      rw [List.foldlM_cons]
      exact bind_eq_ok.mpr ⟨next, hnext, hlast⟩
    have hsync : sync orgId now server req = .ok _ :=
      bind_eq_ok.mpr ⟨last, hloop, bind_eq_ok.mpr ⟨pulled, hpulled, rfl⟩⟩
    refine ⟨_, hsync, ?_, ?_, ?_⟩
    · intro hid
      have hid' : bad.id ∈ last'.acceptedIds := by
        rw [hagrees'.accepted]
        exact hid
      have hrestloop : processChanges orgId req.collection now server.db (before ++ after) =
          .ok last' := by
        rw [processChanges, List.foldlM_append]
        exact bind_eq_ok.mpr ⟨mid, hmid, hafter'⟩
      obtain ⟨ch, hch, heq⟩ := acceptedIds_subset hrestloop bad.id hid'
      exact hother ch hch (congrArg pg.uuid heq)
    · rw [hdb', hagrees'.db]
    · rw [haccepted', hagrees'.accepted]

/-! ### A board of another organization -/

namespace Foreign

/-- An organization that owns nothing. -/
def other : JsString := js "00000000-0000-4000-8000-000000000002"

/-- The tables hold a board of another organization. -/
def before : ServerState Postgres.plain where
  db := Sample.database ∅
  lastMicros := 0

/-- A change of that board, with a title or without one. -/
def taken (title : Json) : SyncChangeDto where
  id := Sample.boardId
  fields := Dict.ofList [("title", title)]
  clocks := Dict.ofList [("title", some 5)]
  nodeId := js "device"
  deletedAt := none

/-- A new board. -/
def good : SyncChangeDto where
  id := js "00000000-0000-4000-8000-00000000000d"
  fields := Dict.ofList [("title", .str (js "Plan"))]
  clocks := Dict.ofList [("title", some 5)]
  nodeId := js "device"
  deletedAt := none

def push (changes : List SyncChangeDto) : SyncRequestDto where
  collection := .boards
  sinceCheckpoint := 0
  changes := changes

/-- The outcome of the push of the new board. -/
def after : SyncResult Postgres.plain :=
  okOr (sync other 1 before (push [good])) ⟨before, ⟨[], 0, []⟩, []⟩

theorem after_ok : sync other 1 before (push [good]) = .ok after := eq_ok_okOr (by decide)

theorem unappliable (title : Json) : Unappliable before.db other .boards (taken title) := by
  refine Or.inl ⟨Sample.boardId, rfl, ?_, ?_⟩
  · decide
  · decide

end Foreign

/-- Without a title the change is refused before its insert. -/
theorem untitled_leavesOut :
    LeavesOut Foreign.other 1 Foreign.before (Foreign.push [Foreign.taken .null, Foreign.good])
      (Foreign.taken .null) Foreign.after := by
  have hchanges : (Foreign.push [Foreign.taken .null, Foreign.good]).changes =
      [] ++ Foreign.taken .null :: [Foreign.good] := rfl
  have hharmless : Harmless Foreign.before.db Foreign.other .boards (Foreign.taken .null) :=
    ⟨Sample.boardId, rfl, by rw [if_neg (by decide)]; decide +kernel⟩
  exact (leavesOut_iff hchanges (by decide) Foreign.after_ok).mpr hharmless

/-- With a title the insert is attempted, and its unique violation takes the new
board with it. -/
theorem foreignId_sinks : ¬ ∀ (server : ServerState Postgres.plain) (req : SyncRequestDto)
    (orgId : JsString) (now : Nat) (pre post : List SyncChangeDto) (bad : SyncChangeDto)
    (rest : SyncResult Postgres.plain),
    req.changes = pre ++ bad :: post →
      (req.changes.map fun ch => Postgres.plain.uuid ch.id).Nodup →
        Unappliable server.db orgId req.collection bad →
          sync orgId now server { req with changes := pre ++ post } = .ok rest →
            LeavesOut orgId now server req bad rest := by
  intro hclaim
  let bad := Foreign.taken (.str (js "Plan B"))
  have hfails : (sync Foreign.other 1 Foreign.before (Foreign.push [bad, Foreign.good])).isOk =
      false := by decide
  obtain ⟨result, hresult, -⟩ := hclaim Foreign.before (Foreign.push [bad, Foreign.good])
    Foreign.other 1 [] [Foreign.good] bad Foreign.after rfl (by decide)
    (Foreign.unappliable _) Foreign.after_ok
  rw [hresult] at hfails
  cases hfails

end FlowLogix.Server
