/-
  Web/ReloadOrder.lean --- two loads of one board
  (frontend/src/api/mapBoard.ts, backend/src/common/ordering/fractional-indexer.ts).

  The endpoints return the rows of a board in no particular order, and `byPositionAsc`
  compares nothing but the keys, so rows that share a key stay in the order they came
  in.  Two loads agree whatever the order just where the keys of each parent are distinct
  (`reloads_agree_iff`); the comparator of the server goes on by creation and id.
-/
import FlowLogix.Web.MapBoard

set_option autoImplicit false

namespace FlowLogix.Web

open FlowLogix.Foundation

/-- Any two answers for a board show the same lists and cards in the same order. -/
def ReloadsAgree (b : ServedBoard) : Prop :=
  ∀ (apiLists apiLists' : List ApiList) (cardsByList cardsByList' : Dict Id (List ApiCard)),
    Serves b apiLists cardsByList → Serves b apiLists' cardsByList' →
      (composeBoardSnapshot apiLists cardsByList).lists =
        (composeBoardSnapshot apiLists' cardsByList').lists

namespace ServedBoard

variable {b : ServedBoard}

/-- The answers in table order, but for the lists in the opposite order. -/
theorem serves_reverse (b : ServedBoard) : Serves b b.lists.reverse b.payload where
  lists := List.reverse_perm b.lists
  cards _ hl := ⟨_, lookup_payload (List.mem_reverse.mp hl), List.Perm.refl _⟩

/-- The ids of the lists that a snapshot shows, in its order. -/
theorem map_id_composeBoardSnapshot (apiLists : List ApiList)
    (cardsByList : Dict Id (List ApiCard)) :
    (composeBoardSnapshot apiLists cardsByList).lists.map BoardList.id =
      (sortByKey ApiList.positionIdx (apiLists.filter fun l => !l.isArchived)).map ApiList.id :=
  List.map_map

/-- Where the order of the lists does not show, their keys are distinct. -/
theorem nodup_listKeys (hids : b.DistinctIds) (h : ReloadsAgree b) :
    (b.shownLists.map ApiList.positionIdx).Nodup := by
  have hserves : Serves b b.lists b.payload := serves_payload rfl fun _ => List.Perm.refl _
  have hsame := congrArg (List.map BoardList.id) (h _ _ _ _ b.serves_reverse hserves)
  rw [map_id_composeBoardSnapshot, map_id_composeBoardSnapshot, List.filter_reverse] at hsame
  exact nodup_key_of_sortByKey_reverse hids.lists hsame

/-- Where the order of the cards does not show, their keys are distinct in each list. -/
theorem nodup_cardKeys (hids : b.DistinctIds) (h : ReloadsAgree b) {l : ApiList}
    (hl : l ∈ b.shownLists) : ((b.shownCards l.id).map ApiCard.positionIdx).Nodup := by
  have hserves : Serves b b.lists b.payload := serves_payload rfl fun _ => List.Perm.refl _
  have hreversed : Serves b b.reversed.lists b.reversed.payload :=
    serves_payload rfl fun listId => List.reverse_perm (b.cards listId)
  have hsame := h _ _ _ _ hreversed hserves
  rw [composeBoardSnapshot_payload, composeBoardSnapshot_payload] at hsame
  exact nodup_cardKeys_of_reversed hids hsame hl

end ServedBoard

/-- **Loading a board again shows the same order**, for every order of the answers, just
where no two lists of it, and no two cards of a list, share a key. -/
theorem reloads_agree_iff {b : ServedBoard} (hids : b.DistinctIds) :
    ReloadsAgree b ↔ b.DistinctKeys := by
  constructor
  · intro h
    exact ⟨ServedBoard.nodup_listKeys hids h, fun l hl => ServedBoard.nodup_cardKeys hids h hl⟩
  · intro hkeys apiLists apiLists' cardsByList cardsByList' hserves hserves'
    rw [composeBoardSnapshot_eq hserves hkeys, composeBoardSnapshot_eq hserves' hkeys]

/-! ### Two cards of a list -/

namespace Collided

/-- A card of the list, by its id and key. -/
def card (id positionIdx : JsString) : ApiCard where
  id := id
  title := js "Card"
  description := none
  positionIdx := positionIdx
  isComplete := false
  isArchived := false

/-- The list the cards are in. -/
def list : ApiList where
  id := js "l1"
  title := js "Todo"
  positionIdx := js "M"
  isArchived := false

/-- A board with a list of two cards. -/
def board (positionIdx positionIdx' : JsString) : ServedBoard where
  lists := [list]
  cards _ := [card (js "c1") positionIdx, card (js "c2") positionIdx']

theorem distinctIds (positionIdx positionIdx' : JsString) :
    (board positionIdx positionIdx').DistinctIds where
  lists := List.nodup_singleton _
  cards l _ := show [js "c1", js "c2"].Nodup by decide
  parent := by
    intro l hl l' hl' _ _ _ _ _
    rw [List.mem_singleton.mp hl, List.mem_singleton.mp hl']

end Collided

/-- Two cards with keys of their own come in the same order every time. -/
theorem ordered_reloads_agree : ReloadsAgree (Collided.board (js "M") (js "Q")) := by
  refine (reloads_agree_iff (Collided.distinctIds _ _)).mpr ⟨List.nodup_singleton _, ?_⟩
  exact fun l _ => show [js "M", js "Q"].Nodup by decide

/-- Two cards that share a key come in the order of the answer. -/
theorem collided_reloads_differ : ¬ ∀ b : ServedBoard, b.DistinctIds → ReloadsAgree b := by
  intro hclaim
  have hagree := hclaim _ (Collided.distinctIds (js "M") (js "M"))
  have hkeys := ServedBoard.nodup_cardKeys (Collided.distinctIds _ _) hagree
    (List.mem_singleton_self Collided.list)
  exact absurd hkeys (show ¬ [js "M", js "M"].Nodup by decide)

end FlowLogix.Web
