/-
  Server/AnnouncedWrites.lean --- every write that changes what a board shows.

  The writers of lists and cards are the calls of the web, the sync endpoint and the
  rebalance job.  `write_announced_iff` says which of their commits reach every board
  they change: the calls of the web do, a sync does while its changes keep shown records
  on their board, and a rebalance does only where it moves nothing that is shown.
-/
import FlowLogix.Server.AnnouncedRebalance
import FlowLogix.Server.AnnouncedSyncs

set_option autoImplicit false

namespace FlowLogix.Server

open FlowLogix.Foundation

variable {pg : Postgres} {c : SyncCollection} {db db' : Database pg}
  {events : List PendingBoardEvent}

/-! ## Writes -/

/-- A write to the lists and cards of some boards. -/
inductive BoardWrite where
  | web (orgId : JsString) (call : WebCall)
  | sync (orgId : JsString) (now lastMicros : Nat) (req : SyncRequestDto)
  | rebalance (locked : Bool) (orgs : List JsString)

/-- A write that commits: the tables it leaves and the events it emits. -/
def BoardWrite.run (db : Database pg) :
    BoardWrite → Except Failure (Database pg × List PendingBoardEvent)
  | .web orgId call => do
      let result ← call.run orgId db
      return (result.1, [result.2])
  | .sync orgId now lastMicros req => do
      let result ← Server.sync orgId now { db := db, lastMicros := lastMicros } req
      return (result.server.db, result.events)
  | .rebalance locked orgs => do
      let result ← PositionRebalanceService.rebalanceOverlongColumns db locked orgs
      return (result.db, [])

/-- The write announces the boards of every row it changes. -/
def BoardWrite.NamesBoards (db : Database pg) : BoardWrite → Prop
  | .web _ call => call.NamesCanonically pg
  | .sync orgId now _ req => SyncNamesBoards orgId now db req
  | .rebalance locked orgs => PositionRebalanceService.MovesNothingShown db locked orgs

/-- The number of changes a write is made of: only a sync has several. -/
def BoardWrite.changeCount : BoardWrite → Nat
  | .sync _ _ _ req => req.changes.length
  | _ => 1

/-- **A write is announced** on every board it changes if each of its changes names the
boards it changes, and a write of one change only then. -/
theorem write_announced_iff (hpg : TypedColumns pg) (hflags : KeepsFlags pg)
    (hkeys : PositionRebalanceService.KeepsKeys pg) (hrows : db.ParentsFormed)
    {write : BoardWrite} (h : write.run db = .ok (db', events)) :
    (write.NamesBoards db → Announced db db' events) ∧
      (write.changeCount ≤ 1 → Announced db db' events → write.NamesBoards db) := by
  cases write with
  | web orgId call =>
      obtain ⟨⟨tables, event⟩, hrun, h⟩ := bind_eq_ok.mp h
      obtain ⟨rfl, rfl⟩ := Prod.mk.inj (Except.ok.inj h)
      have hiff := WebCall.announced_iff hflags hrun
      exact ⟨hiff.mpr, fun _ => hiff.mp⟩
  | sync orgId now lastMicros req =>
      obtain ⟨result, hrun, h⟩ := bind_eq_ok.mp h
      obtain ⟨rfl, rfl⟩ := Prod.mk.inj (Except.ok.inj h)
      exact ⟨announced_sync hpg hflags hrows hrun, syncNamesBoards_of_announced hflags hrows hrun⟩
  | rebalance locked orgs =>
      obtain ⟨result, hrun, h⟩ := bind_eq_ok.mp h
      obtain ⟨rfl, rfl⟩ := Prod.mk.inj (Except.ok.inj h)
      have hiff := PositionRebalanceService.announced_rebalance_iff hkeys hrun
      exact ⟨hiff.mpr, fun _ => hiff.mp⟩

/-! ### A card that leaves its board -/

theorem plain_keepsFlags : KeepsFlags Postgres.plain := by
  intro c w h
  have hstore : (if hasColumnType "isArchived" (.bool false) then some (Json.bool false)
    else none) = some w := h
  rw [if_pos (by decide)] at hstore
  exact (Option.some.inj hstore).symm

namespace Crossing

def otherBoardId : JsString := js "00000000-0000-4000-8000-0000000000aa"
def otherListId : JsString := js "00000000-0000-4000-8000-0000000000bb"

/-- A list on the other board. -/
def otherList : Row Postgres.plain .lists :=
  .plain (Dict.ofList [("boardId", .str otherBoardId), ("title", .str (js "Done")),
    ("positionIdx", .str (js "M"))]) (by decide) (by decide)

/-- Two boards with a list each, and a card in the first. -/
def tables : Database Postgres.plain :=
  ((Sample.oneCard Sample.card).put otherBoardId Sample.board).put otherListId otherList

theorem tables_formed : tables.ParentsFormed := by
  intro c hc
  apply Database.wellFormedAt_of_entries
  revert hc
  cases c <;> decide +kernel

/-- What a write of these tables commits. -/
def committed (write : BoardWrite) : Database Postgres.plain × List PendingBoardEvent :=
  okOr (write.run tables) (tables, [])

theorem run_eq_ok {write : BoardWrite} (h : (write.run tables).isOk = true) :
    write.run tables = .ok ((committed write).1, (committed write).2) :=
  eq_ok_okOr h

/-- On the web the card is put after another key. -/
def edit : BoardWrite :=
  .web Sample.orgId (.updateCard Sample.cardId
    { content := ∅
      content_keys := UpdateCardDto.no_content
      listId := none
      positionIdx := some (js "Q")
      beforeCardId := none
      afterCardId := none })

/-- A device moves the card to the list on the other board. -/
def cross : BoardWrite :=
  .sync Sample.orgId 1 0
    { collection := .cards
      sinceCheckpoint := 0
      changes := [
        { id := Sample.cardId
          fields := Dict.ofList [("listId", .str otherListId)]
          clocks := Dict.ofList [("listId", some 5)]
          nodeId := js "device"
          deletedAt := none }] }

theorem edit_ok : edit.run tables = .ok ((committed edit).1, (committed edit).2) :=
  run_eq_ok (by decide +kernel)

theorem cross_ok : cross.run tables = .ok ((committed cross).1, (committed cross).2) :=
  run_eq_ok (by decide +kernel)

end Crossing

/-- The new key of the card is announced. -/
theorem edited_announced :
    (Crossing.committed Crossing.edit).1.place .cards Sample.cardId =
        some ⟨Sample.boardId, Sample.listId, some (js "Q")⟩ ∧
      Announced Crossing.tables (Crossing.committed Crossing.edit).1
        (Crossing.committed Crossing.edit).2 := by
  obtain ⟨hannounced, -⟩ := write_announced_iff plain_typedColumns plain_keepsFlags
    PositionRebalanceService.plain_keepsKeys Crossing.tables_formed Crossing.edit_ok
  exact ⟨by decide +kernel, hannounced trivial⟩

/-- The board the card leaves gets no event. -/
theorem crossing_unannounced : ¬ ∀ (write : BoardWrite) (db db' : Database Postgres.plain)
    (events : List PendingBoardEvent), db.ParentsFormed → write.run db = .ok (db', events) →
      Announced db db' events := by
  intro hclaim
  have hannounced := hclaim _ _ _ _ Crossing.tables_formed Crossing.cross_ok
  have hbefore : Crossing.tables.place .cards Sample.cardId =
      some ⟨Sample.boardId, Sample.listId, some (js "M")⟩ := by decide +kernel
  have hafter : (Crossing.committed Crossing.cross).1.place .cards Sample.cardId =
      some ⟨Crossing.otherBoardId, Crossing.otherListId, some (js "M")⟩ := by decide +kernel
  obtain ⟨e, he, hboard⟩ := hannounced Sample.boardId fun hview => by
    have hcard := hview .cards Sample.cardId
    rw [hbefore, hafter] at hcard
    exact absurd hcard (by decide)
  have hevents : (Crossing.committed Crossing.cross).2.map (·.boardId) =
      [Crossing.otherBoardId] := by
    decide +kernel
  have hmem : e.boardId ∈ [Crossing.otherBoardId] := hevents ▸ List.mem_map_of_mem he
  rw [hboard] at hmem
  exact absurd hmem (by decide)

end FlowLogix.Server
