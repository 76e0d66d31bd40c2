/-
  Server/RequestedPlace.lean --- the place a card update asks for
  (`update` in backend/src/cards/cards.service.ts).

  A request places its card by neighbours, by a key of its own, or by naming another
  list, at whose end the card then goes.  The event says that the card moved just where
  the request places it, and carries the target list as the request names it.
-/
import FlowLogix.Server.Crud
import FlowLogix.Server.KeyRoom

set_option autoImplicit false

namespace FlowLogix.Server

open FlowLogix.Foundation FlowLogix.Ordering

variable {pg : Postgres} {db : Database pg} {c : SyncCollection}

/-! ## Appended keys -/

/-- The last key of a parent is the greatest one. -/
theorem Database.exists_lastKey {parent key : JsString} (h : key ∈ db.siblingKeys c parent) :
    ∃ last, db.lastKey c parent = some last ∧ key ≤ last := by
  have hfold : ∀ (keys : List JsString) (start : Option JsString),
      (∃ s, start = some s ∧ key ≤ s) ∨ key ∈ keys →
        ∃ last, keys.foldl (fun last key => some (last.elim key (max key))) start = some last ∧
          key ≤ last := by
    intro keys
    induction keys with
    | nil =>
        intro start hstart
        simpa using hstart
    | cons first rest ih =>
        intro start hstart
        refine ih _ ?_
        rcases hstart with ⟨s, rfl, hle⟩ | hmem
        · exact Or.inl ⟨max first s, rfl, le_max_of_le_right hle⟩
        · rcases List.mem_cons.mp hmem with rfl | hmem
          · refine Or.inl ⟨_, rfl, ?_⟩
            cases start with
            | none => exact le_rfl
            | some s => exact le_max_left key s
          · exact Or.inr hmem
  exact hfold _ none (Or.inr h)

/-- An appended key is above every key of its parent. -/
theorem lt_of_append {parentId parent key : JsString} (hparent : pg.uuid parentId = some parent)
    (h : resolvePositionKey db c parentId none = .ok key) {sibling : JsString}
    (hsibling : sibling ∈ db.siblingKeys c parent) : sibling < key := by
  obtain ⟨last, hlast, hle⟩ := db.exists_lastKey hsibling
  have hmint : PositionService.keyForAppend (some last) = .ok key := by
    have hrun := mapError_eq_ok.mp h
    rwa [hparent, Option.bind_some, hlast] at hrun
  obtain ⟨key', hkey', -, habove, -⟩ :=
    (FractionalIndexer.inOrder_of_getIntermediateKey hmint).getIntermediateKey
  obtain rfl : key = key' := Except.ok.inj (hmint.symm.trans hkey')
  exact hle.trans_lt (habove last rfl)

theorem Database.mem_siblingKeys {k parent key : JsString} {row : Row pg c}
    (hfind : db.find c k = some row) (hparent : row.text (parentProperty c) = some parent)
    (hkey : row.text "positionIdx" = some key) : key ∈ db.siblingKeys c parent := by
  refine List.mem_filterMap.mpr ⟨row, Dict.mem_values_iff.mpr ⟨k, hfind⟩, ?_⟩
  rw [if_pos hparent, hkey]

namespace CardsService

variable {dto : UpdateCardDto} {loaded : LoadedCard} {id key : JsString} {next : Option JsString}

/-! ## Places -/

/-- The request gives the card a place: by neighbours, by a key, or at the end of another
list. -/
def places (dto : UpdateCardDto) (loaded : LoadedCard) : Bool :=
  wantsNeighborPlacement dto || dto.positionIdx.isSome || targetListId dto loaded ≠ loaded.listId

/-- The key a request asks for: the one between its neighbours, or its own. -/
def requestedKey (db : Database pg) (dto : UpdateCardDto) : Option JsString :=
  if wantsNeighborPlacement dto then
    (PositionService.keyBetween (Mint.keyOf db dto.beforeCardId)
      (Mint.keyOf db dto.afterCardId)).toOption
  else dto.positionIdx

/-- A place that is found is the one the request asks for, or the end of another list. -/
theorem place_eq_some (h : place db id dto loaded = .ok (some key)) :
    requestedKey db dto = some key ∨
      requestedKey db dto = none ∧
        resolvePositionKey db .cards (targetListId dto loaded) none = .ok key := by
  unfold place at h
  unfold requestedKey
  split at h
  · rename_i hwants
    obtain ⟨minted, hminted, h⟩ := bind_eq_ok.mp h
    obtain rfl := Option.some.inj (Except.ok.inj h)
    have hrun : (Mint.between id (targetListId dto loaded) dto.beforeCardId
        dto.afterCardId).run db = .ok minted := hminted
    rw [if_pos hwants]
    exact Or.inl (toOption_eq_some.mpr (Mint.keyBetween_of_run hrun))
  · rename_i hwants
    rw [if_neg hwants]
    split at h
    · rename_i positionIdx hposition
      obtain ⟨⟨⟩, -, h⟩ := bind_eq_ok.mp h
      obtain rfl := Option.some.inj (Except.ok.inj h)
      exact Or.inl hposition
    · rename_i hposition
      split at h
      · obtain ⟨minted, hminted, h⟩ := bind_eq_ok.mp h
        obtain rfl := Option.some.inj (Except.ok.inj h)
        exact Or.inr ⟨hposition, hminted⟩
      · cases h

theorem isSome_of_place (h : place db id dto loaded = .ok next) :
    next.isSome = places dto loaded := by
  unfold place at h
  unfold places
  split at h
  · rename_i hwants
    obtain ⟨minted, -, h⟩ := bind_eq_ok.mp h
    obtain rfl := Except.ok.inj h
    simp [hwants]
  · rename_i hwants
    split at h
    · rename_i positionIdx hposition
      obtain ⟨⟨⟩, -, h⟩ := bind_eq_ok.mp h
      obtain rfl := Except.ok.inj h
      simp [hposition]
    · rename_i hposition
      split at h
      · rename_i htarget
        obtain ⟨minted, -, h⟩ := bind_eq_ok.mp h
        obtain rfl := Except.ok.inj h
        simp [htarget]
      · rename_i htarget
        obtain rfl := Except.ok.inj h
        simp [hwants, hposition, htarget]

/-! ## The event -/

/-- The list an update saves, as the request names it. -/
theorem text_edited_listId {row : Row pg .cards} (hcard : loaded.card = row.toEntity)
    (hlistId : loaded.listId = (row.text "listId").getD []) :
    ((edited dto loaded next).text "listId").getD [] = targetListId dto loaded := by
  have hlookup : (edited dto loaded next).columns.lookup "listId" =
      (dto.listId.map Json.str).or (row.columns.lookup "listId") := by
    rw [edited, Entity.assign, Dict.lookup_assign, lookup_assigned_listId, hcard]
    rfl
  rw [Entity.text, hlookup, targetListId]
  cases dto.listId with
  | some listId => rfl
  | none =>
      rw [Option.map_none, Option.none_or, Option.getD_none, hlistId, Row.text]
      cases row.columns.lookup "listId" with
      | none => rfl
      | some v => cases v <;> rfl

theorem text_edited_positionIdx :
    (edited dto loaded (some key)).text "positionIdx" = some key := by
  rw [Entity.text, edited, Entity.assign, Dict.lookup_assign, lookup_assigned_positionIdx]
  rfl

/-- The event says that the card moved just where the request places it. -/
theorem moved_eq {row : Row pg .cards} (hcard : loaded.card = row.toEntity)
    (hlistId : loaded.listId = (row.text "listId").getD [])
    (hplace : place db id dto loaded = .ok next) : moved dto loaded next = next.isSome := by
  have hplaces := isSome_of_place hplace
  rw [moved, text_edited_listId hcard hlistId]
  by_cases htarget : targetListId dto loaded = loaded.listId
  · simp [htarget]
  · rw [places] at hplaces
    simp [htarget, hplaces]

end CardsService

end FlowLogix.Server
