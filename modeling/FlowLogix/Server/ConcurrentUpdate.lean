/-
  Server/ConcurrentUpdate.lean --- a card update and a sync at the same time.

  A sync is one transaction.  A card update is up to four, so a sync can commit
  before, between or after them; `interleave` runs the two for each of the five
  places.  A sync that commits after the load and before the save is what the
  save does not see: it writes back the card it loaded, clocks and tombstone
  included.
-/
import FlowLogix.Server.SyncRun
import FlowLogix.Server.WebEffects

set_option autoImplicit false

namespace FlowLogix.Server

open FlowLogix.Foundation

variable {pg : Postgres} {orgId : JsString}

/-! ## Interleavings -/

/-- When the sync commits, among the transactions of the update. -/
inductive SyncPoint where
  | beforeLoad
  | beforeTarget
  | beforePlacement
  | beforeSave
  | afterSave
  deriving DecidableEq, Repr

/-- The tables after the sync, and in the end. -/
structure Interleaved (pg : Postgres) where
  synced : Database pg
  final : Database pg

/-- An update that runs over a sync: its first transactions see the tables before
it, the others the tables after it. -/
def updateOver (point : SyncPoint) (old new : Database pg) (id orgId : JsString)
    (dto : UpdateCardDto) : Except Failure (Database pg) :=
  match point with
  | .beforeLoad => CardsService.updateAcross new new new new id orgId dto
  | .beforeTarget => CardsService.updateAcross old new new new id orgId dto
  | .beforePlacement => CardsService.updateAcross old old new new id orgId dto
  | .beforeSave => CardsService.updateAcross old old old new id orgId dto
  | .afterSave => CardsService.updateAcross old old old old id orgId dto

/-- One card update and one sync, both committed, the sync at the given point. -/
def interleave (point : SyncPoint) (server : ServerState pg) (id orgId : JsString)
    (dto : UpdateCardDto) (now : Nat) (req : SyncRequestDto) :
    Except Failure (Interleaved pg) :=
  if point = .afterSave then do
    let updated ← updateOver point server.db server.db id orgId dto
    let result ← sync orgId now { server with db := updated } req
    return { synced := result.server.db, final := result.server.db }
  else do
    let result ← sync orgId now server req
    let updated ← updateOver point server.db result.server.db id orgId dto
    return { synced := result.server.db, final := updated }

/-- The list a card is in. -/
def listOf (card : Row pg .cards) : JsString := (card.text "listId").getD []

/-- The update sets a property of a card that is in the list `listId`: the request
carries it, or asks for a place that needs a new position. -/
def setsProperty (dto : UpdateCardDto) (listId : JsString) (property : String) : Bool :=
  (dto.content.lookup property).isSome ||
    (property == "listId" && dto.listId.isSome) ||
    (property == "positionIdx" && (CardsService.wantsNeighborPlacement dto ||
      dto.positionIdx.isSome || dto.listId.getD listId != listId))

/-- What the sync committed for the fields the update does not set is still there:
values, clocks, and the tombstone. -/
def KeepsSync (dto : UpdateCardDto) (listId : JsString) (synced final : Row pg .cards) : Prop :=
  (∀ field ∈ syncFields .cards, setsProperty dto listId field = false →
      final.columns.lookup field = synced.columns.lookup field ∧
        readClock final.syncClocks field = readClock synced.syncClocks field) ∧
    final.syncDeletedAt = synced.syncDeletedAt

namespace KeepsSync

variable {listId : JsString} {r₁ r₂ r₃ : Row pg .cards} {dto : UpdateCardDto}

theorem refl (r : Row pg .cards) : KeepsSync dto listId r r := ⟨fun _ _ _ => ⟨rfl, rfl⟩, rfl⟩

theorem symm (h : KeepsSync dto listId r₁ r₂) : KeepsSync dto listId r₂ r₁ :=
  ⟨fun field hf hset => ⟨(h.1 field hf hset).1.symm, (h.1 field hf hset).2.symm⟩, h.2.symm⟩

theorem trans (h : KeepsSync dto listId r₁ r₂) (h' : KeepsSync dto listId r₂ r₃) :
    KeepsSync dto listId r₁ r₃ := by
  refine ⟨fun field hf hset => ?_, h'.2.trans h.2⟩
  obtain ⟨hvalue, hclock⟩ := h.1 field hf hset
  obtain ⟨hvalue', hclock'⟩ := h'.1 field hf hset
  exact ⟨hvalue'.trans hvalue, hclock'.trans hclock⟩

end KeepsSync

/-- A change leaves a field of a row alone: it does not send a greater register
for it; and, if it does not send it at all, the row's clock is not negative. -/
def LeavesField (db : Database pg) (orgId : JsString) (change : SyncChangeDto)
    {c : SyncCollection} (row : Row pg c) (field : String) : Prop :=
  match accepted db orgId change field with
  | some _ => sentStamp db orgId change field ≤ row.stamp field
  | none => 0 ≤ readClock row.syncClocks field

/-- The sync leaves alone what the update does not set, and the tombstone. -/
def LeavesAlone (server : ServerState pg) (orgId : JsString) (dto : UpdateCardDto)
    (k : JsString) (row : Row pg .cards) (req : SyncRequestDto) : Prop :=
  ∀ change, Names pg .cards k req change →
    (∀ field ∈ syncFields .cards, setsProperty dto (listOf row) field = false →
      LeavesField server.db orgId change row field) ∧
    tombOf change.deletedAt ≤ tombOf row.syncDeletedAt

/-! ## The sync side -/

section Sync

variable {db : Database pg} {c : SyncCollection} {change : SyncChangeDto} {row row' : Row pg c}
  {field : String}

/-- A field that is left alone keeps its value and its clock. -/
theorem MergeEffect.of_leavesField (h : MergeEffect db orgId change row row')
    (hf : field ∈ syncFields c) (hleaves : LeavesField db orgId change row field) :
    row'.columns.lookup field = row.columns.lookup field ∧
      readClock row'.syncClocks field = readClock row.syncClocks field := by
  by_cases hwins : row.stamp field < sentStamp db orgId change field
  · unfold LeavesField at hleaves
    split at hleaves
    · exact absurd hwins hleaves.not_gt
    · rename_i hv
      refine ⟨h.wonNothing field hf hwins hv, ?_⟩
      rw [h.wonClock field hf hwins]
      refine le_antisymm ?_ (Prod.Lex.monotone_fst_ofLex hwins.le)
      rwa [sentStamp, hv]
  · exact h.kept field hf hwins

/-- After its merge, a change leaves the field alone. -/
theorem MergeEffect.leavesField (h : MergeEffect db orgId change row row')
    (hf : field ∈ syncFields c) (hstored : SentAsStored pg c db orgId change field) :
    LeavesField db orgId change row' field := by
  unfold LeavesField
  split
  · rename_i v hv
    rw [h.stamp_of_accepted hf hstored hv]
    exact le_sup_right
  · rename_i hv
    by_cases hwins : row.stamp field < sentStamp db orgId change field
    · rw [h.wonClock field hf hwins, sentStamp, hv]
      exact le_rfl
    · rw [(h.kept field hf hwins).2]
      rw [sentStamp, hv, not_lt] at hwins
      exact Prod.Lex.monotone_fst_ofLex hwins

/-- A register that has grown is left alone by the same changes. -/
theorem LeavesField.mono (h : LeavesField db orgId change row field)
    (hle : row.stamp field ≤ row'.stamp field) : LeavesField db orgId change row' field := by
  unfold LeavesField at h ⊢
  split at h
  · exact h.trans hle
  · exact h.trans (Prod.Lex.monotone_fst_ofLex hle)

end Sync

variable {server : ServerState pg} {dto : UpdateCardDto} {k : JsString} {row : Row pg .cards}

/-- A request that leaves the row alone commits the fields and the tombstone it
found. -/
theorem SyncStep.leavesAlone (step : SyncStep pg orgId) (hbefore : step.before = server)
    (howner : server.db.owner .cards k = some orgId) (hrow : server.db.find .cards k = some row)
    (h : LeavesAlone server orgId dto k row step.req) :
    ∃ synced, step.result.server.db.find .cards k = some synced ∧
      KeepsSync dto (listOf row) synced row := by
  subst hbefore
  have hmerge : ∀ change, Names pg .cards k step.req change → ∀ r r' : Row pg .cards,
      KeepsSync dto (listOf row) r row → MergeEffect step.before.db orgId change r r' →
        KeepsSync dto (listOf row) r' row := by
    rintro change hnames r r' ⟨hfields, hdeleted⟩ heffect
    obtain ⟨hleaves, htomb⟩ := h change hnames
    refine ⟨fun field hf hset => ?_, ?_⟩
    · obtain ⟨hvalue, hclock⟩ := hfields field hf hset
      have hstamp : row.stamp field ≤ r.stamp field := by
        rw [Row.stamp, Row.stamp, hvalue, hclock]
      obtain ⟨hvalue', hclock'⟩ :=
        heffect.of_leavesField hf ((hleaves field hf hset).mono hstamp)
      exact ⟨hvalue.trans hvalue'.symm, hclock.trans hclock'.symm⟩
    · apply tombOf_injective
      rw [heffect.tombOf_eq, ← hdeleted, sup_eq_left.mpr htomb]
  exact (step.holdsRow _ hmerge ⟨howner, row, hrow, .refl row⟩).2

/-- A request that commits the fields and the tombstone it found leaves the row
alone. -/
theorem SyncStep.leavesAlone_of_keeps (step : SyncStep pg orgId) (hbefore : step.before = server)
    (howner : server.db.owner .cards k = some orgId) (hrow : server.db.find .cards k = some row)
    (hstored : ∀ change, Names pg .cards k step.req change → ∀ field ∈ syncFields .cards,
      SentAsStored pg .cards server.db orgId change field)
    {synced : Row pg .cards} (hsynced : step.result.server.db.find .cards k = some synced)
    (h : KeepsSync dto (listOf row) synced row) :
    LeavesAlone server orgId dto k row step.req := by
  subst hbefore
  obtain ⟨hfields, hdeleted⟩ := h
  intro change hnames
  obtain ⟨-, r, hr, -, hleaves, htomb⟩ := step.holdsRow_established (fun _ : Row pg .cards => True)
    (fun r => (∀ field ∈ syncFields .cards, LeavesField step.before.db orgId change r field) ∧
      tombOf change.deletedAt ≤ tombOf r.syncDeletedAt)
    (fun _ _ _ _ _ _ => trivial) hnames
    (fun r r' _ he => ⟨fun field hf => he.leavesField hf (hstored change hnames field hf),
      he.tombOf_eq ▸ le_sup_right⟩)
    (fun change' hnames' r r' hr he =>
      ⟨fun field hf => (hr.1 field hf).mono (he.stamp_le hf (hstored change' hnames' field hf)),
        hr.2.trans (he.tombOf_eq ▸ le_sup_left)⟩)
    ⟨howner, row, hrow, trivial⟩
  obtain rfl : r = synced := Option.some.inj (hr.symm.trans hsynced)
  refine ⟨fun field hf hset => ?_, hdeleted ▸ htomb⟩
  obtain ⟨hvalue, hclock⟩ := hfields field hf hset
  refine (hleaves field hf).mono (le_of_eq ?_)
  rw [Row.stamp, Row.stamp, hvalue, hclock]

/-! ## The update side -/

/-- A property the update does not set is not assigned. -/
theorem not_mem_assigned {placeDb : Database pg} {id : JsString}
    {loaded : CardsService.LoadedCard} {next : Option JsString}
    (hplace : CardsService.place placeDb id dto loaded = .ok next) {property : String}
    (h : setsProperty dto loaded.listId property = false) :
    property ∉ CardsService.assigned dto next := by
  simp only [setsProperty, Bool.or_eq_false_iff, Bool.and_eq_false_iff] at h
  obtain ⟨⟨hcontent, hlist⟩, hposition⟩ := h
  rw [← AList.lookup_eq_none]
  by_cases hl : property = "listId"
  · subst hl
    rw [CardsService.lookup_assigned_listId]
    simpa using hlist
  by_cases hp : property = "positionIdx"
  · subst hp
    rw [CardsService.lookup_assigned_positionIdx]
    obtain hne | ⟨⟨hneighbor, hkey⟩, htarget⟩ := hposition
    · exact absurd hne (by decide)
    · have hnext : next = none := by
        unfold CardsService.place CardsService.targetListId at hplace
        rw [if_neg (by rw [hneighbor]; decide)] at hplace
        rw [Option.isSome_eq_false_iff, Option.isNone_iff_eq_none] at hkey
        rw [hkey] at hplace
        have heq : dto.listId.getD loaded.listId = loaded.listId := by simpa using htarget
        rw [if_neg (not_not.mpr heq)] at hplace
        exact (Except.ok.inj hplace).symm
      rw [hnext, Option.map_none]
  · rw [CardsService.lookup_assigned_content dto next hl hp]
    simpa using hcontent

/-- The save of an update writes back the card its load saw, except what it
sets. -/
theorem updateAcross_eq_ok {loadDb targetDb placeDb saveDb db : Database pg} {id : JsString}
    (hk : pg.uuid id = some k) (hrow : loadDb.find .cards k = some row)
    {current : Row pg .cards} (hcurrent : saveDb.find .cards k = some current)
    (h : CardsService.updateAcross loadDb targetDb placeDb saveDb id orgId dto = .ok db) :
    ∃ final, db.find .cards k = some final ∧ KeepsSync dto (listOf row) row final := by
  obtain ⟨loaded, next, hload, -, hplace, hsave⟩ := CardsService.updateAcross_eq_ok h
  obtain ⟨row', hk', -, hfind, hcard, hlistId⟩ := CardsService.load_eq_ok hload
  obtain rfl : k = loaded.key := Option.some.inj (hk.symm.trans hk')
  obtain rfl : row = row' := Option.some.inj (hrow.symm.trans hfind)
  unfold saveEntity at hsave
  rw [hcurrent] at hsave
  obtain ⟨final, hfinal, hput⟩ := bind_eq_ok.mp hsave
  obtain rfl := Except.ok.inj hput
  obtain ⟨hin, -, hclocks, hdeleted⟩ := saveRow_eq_ok hfinal
  rw [hcard] at hin hclocks hdeleted
  refine ⟨final, by rw [Database.find_put, if_pos rfl], fun field hf hset => ⟨?_, ?_⟩, hdeleted⟩
  · obtain ⟨v, hv⟩ := Option.isSome_iff_exists.mp
      (AList.lookup_isSome.mpr (row.complete field hf))
    have hassigned := not_mem_assigned hplace (by rw [hlistId]; exact hset)
    obtain ⟨w, hstore, hw⟩ := hin field v (by
      rw [Entity.assign, Dict.lookup_assign, AList.lookup_eq_none.mpr hassigned, Option.none_or]
      exact hv)
    rw [row.stored field v hv] at hstore
    rw [hw, hv, hstore]
  · rw [hclocks]
    rfl

/-! ## Both together -/

variable {id : JsString}

/-- The values the request sends for synced fields of the card are stored as they
are sent. -/
def StoresFields (server : ServerState pg) (orgId k : JsString) (req : SyncRequestDto) : Prop :=
  ∀ change, Names pg .cards k req change → ∀ field ∈ syncFields .cards,
    SentAsStored pg .cards server.db orgId change field

/-- A sync between the load and the save of an update. -/
theorem sync_between (hk : pg.uuid id = some k)
    (howner : server.db.owner .cards k = some orgId)
    (hrow : server.db.find .cards k = some row) (step : SyncStep pg orgId)
    (hbefore : step.before = server) {targetDb placeDb db : Database pg}
    (h : CardsService.updateAcross server.db targetDb placeDb step.result.server.db id orgId
      dto = .ok db) :
    ∃ synced final, step.result.server.db.find .cards k = some synced ∧
      db.find .cards k = some final ∧
      (LeavesAlone server orgId dto k row step.req → KeepsSync dto (listOf row) synced final) ∧
      (StoresFields server orgId k step.req → KeepsSync dto (listOf row) synced final →
        LeavesAlone server orgId dto k row step.req) := by
  obtain ⟨-, synced, hsynced, -⟩ := step.holdsRow (fun _ : Row pg .cards => True)
    (fun _ _ _ _ _ _ => trivial) (by rw [hbefore]; exact ⟨howner, row, hrow, trivial⟩)
  obtain ⟨final, hfinal, hkeeps⟩ := updateAcross_eq_ok hk hrow hsynced h
  refine ⟨synced, final, hsynced, hfinal, fun hleaves => ?_, fun hstores hkept => ?_⟩
  · obtain ⟨synced', hsynced', hsync⟩ := step.leavesAlone hbefore howner hrow hleaves
    obtain rfl : synced = synced' := Option.some.inj (hsynced.symm.trans hsynced')
    exact hsync.trans hkeeps
  · exact step.leavesAlone_of_keeps hbefore howner hrow hstores hsynced
      (hkept.trans hkeeps.symm)

/-- **A card update concurrent with a sync.** For every interleaving of the two
that commits both, the row in the end keeps what the sync committed for the
fields the update does not set, if the sync commits before the load or after the
save, or leaves those fields and the tombstone alone; and, for values the columns
store as sent, only then. -/
theorem sync_kept_iff {point : SyncPoint} {now : Nat} {req : SyncRequestDto}
    {r : Interleaved pg} (hk : pg.uuid id = some k)
    (howner : server.db.owner .cards k = some orgId)
    (hrow : server.db.find .cards k = some row)
    (h : interleave point server id orgId dto now req = .ok r) :
    ∃ synced final, r.synced.find .cards k = some synced ∧ r.final.find .cards k = some final ∧
      ((point = .beforeLoad ∨ point = .afterSave ∨ LeavesAlone server orgId dto k row req) →
        KeepsSync dto (listOf (if point = .beforeLoad then synced else row)) synced final) ∧
      (StoresFields server orgId k req →
        KeepsSync dto (listOf (if point = .beforeLoad then synced else row)) synced final →
        point = .beforeLoad ∨ point = .afterSave ∨ LeavesAlone server orgId dto k row req) := by
  unfold interleave at h
  split at h
  · rename_i hpoint
    subst hpoint
    obtain ⟨updated, hupdate, h⟩ := bind_eq_ok.mp h
    obtain ⟨result, hsync, h⟩ := bind_eq_ok.mp h
    obtain rfl := Except.ok.inj h
    have heffect := CardsService.update_effect hupdate
    obtain ⟨row', hrow', -⟩ := heffect.rows .cards k row hrow
    obtain ⟨-, synced, hsynced, -⟩ := (SyncStep.mk _ now req result hsync).holdsRow
      (fun _ : Row pg .cards => True) (fun _ _ _ _ _ _ => trivial)
      ⟨heffect.owner .cards k orgId howner, row', hrow', trivial⟩
    exact ⟨synced, synced, hsynced, hsynced, fun _ => .refl synced,
      fun _ _ => Or.inr (Or.inl rfl)⟩
  · rename_i hpoint
    obtain ⟨result, hsync, h⟩ := bind_eq_ok.mp h
    obtain ⟨updated, hupdate, h⟩ := bind_eq_ok.mp h
    obtain rfl := Except.ok.inj h
    by_cases hload : point = .beforeLoad
    · subst hload
      obtain ⟨-, synced, hsynced, -⟩ := (SyncStep.mk _ now req result hsync).holdsRow
        (fun _ : Row pg .cards => True) (fun _ _ _ _ _ _ => trivial)
        ⟨howner, row, hrow, trivial⟩
      obtain ⟨final, hfinal, hkeeps⟩ := updateAcross_eq_ok hk hsynced hsynced hupdate
      exact ⟨synced, final, hsynced, hfinal, fun _ => hkeeps, fun _ _ => Or.inl rfl⟩
    · simp only [if_neg hload]
      have hbetween : ∃ targetDb placeDb, CardsService.updateAcross server.db targetDb placeDb
          result.server.db id orgId dto = .ok updated := by
        cases point with
        | beforeLoad => exact absurd rfl hload
        | afterSave => exact absurd rfl hpoint
        | beforeTarget => exact ⟨_, _, hupdate⟩
        | beforePlacement => exact ⟨_, _, hupdate⟩
        | beforeSave => exact ⟨_, _, hupdate⟩
      obtain ⟨targetDb, placeDb, hupdate⟩ := hbetween
      obtain ⟨synced, final, hsynced, hfinal, hsuffices, hneeds⟩ :=
        sync_between hk howner hrow (SyncStep.mk _ now req result hsync) rfl hupdate
      refine ⟨synced, final, hsynced, hfinal, fun hor => hsuffices ?_, fun hstores hkept =>
        Or.inr (Or.inr (hneeds hstores hkept))⟩
      exact (hor.resolve_left hload).resolve_left hpoint

/-! ### A title pushed while the description is edited -/

namespace Overlap

/-- The card, its title written at 5. -/
def card : Row Postgres.plain .cards :=
  { Sample.card with syncClocks := Dict.ofList [("title", 5)] }

def state : ServerState Postgres.plain where
  db := Sample.database (Dict.ofList [(Sample.cardId, card)])
  lastMicros := 0

/-- A web request that describes the card. -/
def describe : UpdateCardDto where
  content := Dict.ofList [("description", .str (js "soon"))]
  content_keys := by decide
  listId := none
  positionIdx := none
  beforeCardId := none
  afterCardId := none

/-- A device pushes a new title, written at 9. -/
def retitle : SyncRequestDto where
  collection := .cards
  sinceCheckpoint := 0
  changes := [{
    id := Sample.cardId
    fields := Dict.ofList [("title", .str (js "Shipped"))]
    clocks := Dict.ofList [("title", some 9)]
    nodeId := js "device"
    deletedAt := none }]

/-- Both, with the sync at the given point. -/
def outcome (point : SyncPoint) : Except Failure (Interleaved Postgres.plain) :=
  interleave point state Sample.cardId Sample.orgId describe 1 retitle

/-- The title of the card in some tables, with its clock. -/
def title (db : Database Postgres.plain) : Option (Option Json × Clock) :=
  (db.find .cards Sample.cardId).map fun row =>
    (row.columns.lookup "title", readClock row.syncClocks "title")

end Overlap

/-- A sync after the save loses nothing. -/
theorem retitle_after_save : ∃ r, Overlap.outcome .afterSave = .ok r ∧
    ∃ synced final, r.synced.find .cards Sample.cardId = some synced ∧
      r.final.find .cards Sample.cardId = some final ∧
      KeepsSync Overlap.describe (listOf Overlap.card) synced final := by
  have hok : Overlap.outcome .afterSave = .ok (okOr (Overlap.outcome .afterSave)
      ⟨Overlap.state.db, Overlap.state.db⟩) := eq_ok_okOr (by decide +kernel)
  have hrow : Overlap.state.db.find .cards Sample.cardId = some Overlap.card := rfl
  obtain ⟨synced, final, hsynced, hfinal, hkeeps, -⟩ :=
    sync_kept_iff (show Postgres.plain.uuid Sample.cardId = some Sample.cardId from rfl)
      (by decide +kernel) hrow hok
  exact ⟨_, hok, synced, final, hsynced, hfinal, hkeeps (Or.inr (Or.inl rfl))⟩

/-- A sync before the save, of a title the request does not mention: committed,
and then overwritten with the loaded title and its clock. -/
theorem retitle_lost : setsProperty Overlap.describe Sample.listId "title" = false ∧
    ∃ r, Overlap.outcome .beforeSave = .ok r ∧
      Overlap.title r.synced = some (some (.str (js "Shipped")), 9) ∧
      Overlap.title r.final = some (some (.str (js "Ship")), 5) :=
  ⟨by decide +kernel, okOr (Overlap.outcome .beforeSave) ⟨Overlap.state.db, Overlap.state.db⟩,
    eq_ok_okOr (by decide +kernel), by decide +kernel, by decide +kernel⟩

end FlowLogix.Server
