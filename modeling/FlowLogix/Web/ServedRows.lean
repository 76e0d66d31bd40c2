/-
  Web/ServedRows.lean --- the rows a client loads a board from
  (findAll in backend/src/lists/lists.service.ts and cards/cards.service.ts, the wire
  shapes of frontend/src/api/boardApi.ts).

  A row deleted by a sync is not served, and an archived one is served but not shown.
  What each call of the web does to the tables is one change of what is served.
-/
import FlowLogix.Server.WebCalls
import FlowLogix.Web.AppliedFrames

set_option autoImplicit false

namespace FlowLogix.Web

open FlowLogix.Foundation FlowLogix.Server

variable {pg : Postgres} {db db' : Database pg} {board : JsString}

/-! ## Rows on the wire -/

/-- A boolean column. -/
def isTrue (value : Option Json) : Bool := value = some (.bool true)

/-- A list with the given columns. -/
def readList (id : Id) (column : String → Option Json) : ApiList where
  id := id
  title := (asString (column "title")).getD []
  positionIdx := (asString (column "positionIdx")).getD []
  isArchived := isTrue (column "isArchived")

/-- A card with the given columns. -/
def readCard (id : Id) (column : String → Option Json) : ApiCard where
  id := id
  title := (asString (column "title")).getD []
  description := asString (column "description")
  positionIdx := (asString (column "positionIdx")).getD []
  isComplete := isTrue (column "isComplete")
  isArchived := isTrue (column "isArchived")

/-- A row of `lists` on the wire. -/
def toApiList (e : JsString × Row pg .lists) : ApiList := readList e.1 fun p => e.2.columns.lookup p

/-- A row of `cards` on the wire. -/
def toApiCard (e : JsString × Row pg .cards) : ApiCard := readCard e.1 fun p => e.2.columns.lookup p

/-- What the endpoints serve of a board, rows in table order. -/
def served (db : Database pg) (board : JsString) : ServedBoard where
  lists := (filterVisible (db.children .lists board)).map toApiList
  cards listId := (filterVisible (db.children .cards listId)).map toApiCard

theorem mem_filterVisible {c : SyncCollection} {parent k : JsString} {row : Row pg c} :
    (k, row) ∈ filterVisible (db.children c parent) ↔
      db.find c k = some row ∧ row.text (parentProperty c) = some parent ∧
        isSyncDeleted row = false := by
  rw [filterVisible, List.mem_filter, Database.mem_children, and_assoc]
  simp

/-- A shown list is a row of the board that is neither deleted nor archived. -/
theorem mem_shownLists_served {l : ApiList} :
    l ∈ (served db board).shownLists ↔ ∃ row : Row pg .lists, db.find .lists l.id = some row ∧
      row.text "boardId" = some board ∧ isSyncDeleted row = false ∧
        toApiList (l.id, row) = l ∧ l.isArchived = false := by
  rw [ServedBoard.mem_shownLists]
  constructor
  · rintro ⟨hmem, hshown⟩
    obtain ⟨⟨k, row⟩, hrow, rfl⟩ := List.mem_map.mp hmem
    obtain ⟨hfind, hparent, hvisible⟩ := mem_filterVisible.mp hrow
    exact ⟨row, hfind, hparent, hvisible, rfl, hshown⟩
  · rintro ⟨row, hfind, hparent, hvisible, hl, hshown⟩
    exact ⟨List.mem_map.mpr ⟨_, mem_filterVisible.mpr ⟨hfind, hparent, hvisible⟩, hl⟩, hshown⟩

theorem mem_shownCards_served {listId : JsString} {c : ApiCard} :
    c ∈ (served db board).shownCards listId ↔ ∃ row : Row pg .cards,
      db.find .cards c.id = some row ∧ row.text "listId" = some listId ∧
        isSyncDeleted row = false ∧ toApiCard (c.id, row) = c ∧ c.isArchived = false := by
  rw [ServedBoard.mem_shownCards]
  constructor
  · rintro ⟨hmem, hshown⟩
    obtain ⟨⟨k, row⟩, hrow, rfl⟩ := List.mem_map.mp hmem
    obtain ⟨hfind, hparent, hvisible⟩ := mem_filterVisible.mp hrow
    exact ⟨row, hfind, hparent, hvisible, rfl, hshown⟩
  · rintro ⟨row, hfind, hparent, hvisible, hc, hshown⟩
    exact ⟨List.mem_map.mpr ⟨_, mem_filterVisible.mpr ⟨hfind, hparent, hvisible⟩, hc⟩, hshown⟩

theorem nodup_filterVisible {c : SyncCollection} (db : Database pg) (parent : JsString) :
    ((filterVisible (db.children c parent)).map Prod.fst).Nodup :=
  (List.filter_sublist.map _).nodup (db.nodup_children parent)

theorem distinctIds_served (db : Database pg) (board : JsString) :
    (served db board).DistinctIds where
  lists := by
    refine (List.filter_sublist.map _).nodup ?_
    rw [served, List.map_map]
    exact nodup_filterVisible db board
  cards l _ := by
    refine (List.filter_sublist.map _).nodup ?_
    rw [served, List.map_map]
    exact nodup_filterVisible db l.id
  parent l _ l' _ c hc c' hc' heq := by
    obtain ⟨row, hfind, hlist, -⟩ := mem_shownCards_served.mp hc
    obtain ⟨row', hfind', hlist', -⟩ := mem_shownCards_served.mp hc'
    rw [heq] at hfind
    obtain rfl : row = row' := Option.some.inj (hfind.symm.trans hfind')
    exact Option.some.inj (hlist.symm.trans hlist')

/-- Boards whose ids are distinct and that show the same rows. -/
theorem sameShown_of_mem {b b' : ServedBoard} (hids : b.DistinctIds) (hids' : b'.DistinctIds)
    (hlists : ∀ l, l ∈ b.shownLists ↔ l ∈ b'.shownLists)
    (hcards : ∀ l ∈ b'.shownLists, ∀ c, c ∈ b.shownCards l.id ↔ c ∈ b'.shownCards l.id) :
    b.SameShown b' where
  lists := (List.perm_ext_iff_of_nodup hids.lists.of_map hids'.lists.of_map).mpr hlists
  cards l hl := by
    refine (List.perm_ext_iff_of_nodup ?_ (hids'.cards l hl).of_map).mpr (hcards l hl)
    exact (hids.cards l ((hlists l).mpr hl)).of_map

/-! ## What a call does to what is served -/

/-- Removing a card. -/
theorem served_remove (db : Database pg) (board k : JsString) :
    (served (db.remove .cards k) board).SameShown ((served db board).dropCard k) := by
  refine sameShown_of_mem (distinctIds_served _ _) ((distinctIds_served _ _).dropCard k)
    (fun l => ?_) fun l hl c => ?_
  · show l ∈ (served (db.remove .cards k) board).shownLists ↔ l ∈ (served db board).shownLists
    rw [mem_shownLists_served, mem_shownLists_served,
      Database.find_remove_of_ne db k l.id (by decide : SyncCollection.lists ≠ .cards)]
  · rw [ServedBoard.shownCards_dropCard, List.mem_filter, mem_shownCards_served,
      mem_shownCards_served, Database.find_remove, decide_eq_true_iff]
    by_cases hid : c.id = k
    · simp [hid]
    · simp [hid]

/-- Removing a list with its cards. -/
theorem served_removeList (db : Database pg) (board k : JsString) :
    (served ((db.remove .lists k).removeCardsOf k) board).SameShown
      ((served db board).dropList k) := by
  refine sameShown_of_mem (distinctIds_served _ _) ((distinctIds_served _ _).dropList k)
    (fun l => ?_) fun l hl c => ?_
  · rw [ServedBoard.shownLists_dropList, List.mem_filter, mem_shownLists_served,
      mem_shownLists_served, Database.find_removeCardsOf_of_ne _ _ _ (by decide),
      Database.find_remove, decide_eq_true_iff]
    by_cases hid : l.id = k
    · simp [hid]
    · simp [hid]
  · rw [ServedBoard.shownLists_dropList, List.mem_filter] at hl
    have hne : l.id ≠ k := by simpa using hl.2
    show c ∈ (served ((db.remove .lists k).removeCardsOf k) board).shownCards l.id ↔
      c ∈ (served db board).shownCards l.id
    rw [mem_shownCards_served, mem_shownCards_served, Database.find_removeCardsOf,
      Database.find_remove_of_ne _ _ _ (by decide : SyncCollection.cards ≠ .lists)]
    refine exists_congr fun row => ?_
    rw [Option.filter_eq_some_iff, decide_eq_true_iff, and_assoc]
    refine and_congr_right fun _ => ⟨And.right, fun h => ⟨?_, h⟩⟩
    rw [h.1]
    exact fun heq => hne (Option.some.inj heq)

/-- A card written over, visible and not archived before and after, in a list of the board. -/
theorem served_put {k : JsString} {row' : Row pg .cards} {l₀ : ApiList}
    (hvisible : isSyncDeleted row' = false) (hlist : row'.text "listId" = some l₀.id)
    (hshown : (toApiCard (k, row')).isArchived = false) :
    (served (db.put k row') board).SameShown
      ((served db board).moveCard (toApiCard (k, row')) l₀.id) := by
  have hid : (toApiCard (k, row')).id = k := rfl
  refine sameShown_of_mem (distinctIds_served _ _) ((distinctIds_served _ _).moveCard hshown)
    (fun l => ?_) fun l _ c => ?_
  · show l ∈ (served (db.put k row') board).shownLists ↔ l ∈ (served db board).shownLists
    rw [mem_shownLists_served, mem_shownLists_served,
      Database.find_put_of_ne db k l.id row' (by decide : SyncCollection.lists ≠ .cards)]
  · rw [ServedBoard.shownCards_moveCard _ hshown, ServedBoard.shownCards_dropCard,
      mem_shownCards_served, Database.find_put, hid]
    by_cases hc : c.id = k
    · rw [if_pos hc]
      constructor
      · rintro ⟨row, hrow, htext, -, happ, -⟩
        obtain rfl := Option.some.inj hrow
        rw [hlist] at htext
        rw [if_pos (Option.some.inj htext).symm, List.mem_cons, ← happ, hc]
        exact Or.inl rfl
      · intro hmem
        split at hmem
        · rename_i hl
          rcases List.mem_cons.mp hmem with rfl | hmem
          · exact ⟨row', rfl, hl ▸ hlist, hvisible, rfl, hshown⟩
          · simp [hc] at hmem
        · simp [hc] at hmem
    · have hcons : c ∈ (if l.id = l₀.id then
          toApiCard (k, row') :: ((served db board).shownCards l.id).filter fun c => c.id ≠ k
        else ((served db board).shownCards l.id).filter fun c => c.id ≠ k) ↔
          c ∈ (served db board).shownCards l.id := by
        have hne : c ≠ toApiCard (k, row') := by
          rintro rfl
          exact hc rfl
        split <;> simp [hc, hne]
      rw [if_neg hc, hcons, mem_shownCards_served]

end FlowLogix.Web
