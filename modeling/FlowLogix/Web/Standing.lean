/-
  Web/Standing.lean --- how often a card stands on the board.

  An edit of the board's lists is followed by how often each card stands in them
  afterwards.  Taking a card out of a list it is in and putting it into another one
  changes that for no card, which is what a move and its rollback do.
-/
import FlowLogix.Web.BoardStore

set_option autoImplicit false

namespace FlowLogix.Web

open FlowLogix.Foundation FlowLogix.Server

variable {lists : List BoardList} {f : BoardList → BoardList} {id j c : Id} {l : BoardList}

/-- How often a card stands on the board. -/
def standing (lists : List BoardList) (cardId : Id) : Nat :=
  (lists.map fun l => l.cardIds.count cardId).sum

@[simp] theorem standing_nil (cardId : Id) : standing [] cardId = 0 :=
  rfl

@[simp] theorem standing_cons (l : BoardList) (lists : List BoardList) (cardId : Id) :
    standing (l :: lists) cardId = l.cardIds.count cardId + standing lists cardId := by
  simp [standing]

theorem standing_pos_iff : 0 < standing lists c ↔ ∃ l ∈ lists, c ∈ l.cardIds := by
  induction lists with
  | nil => simp
  | cons l rest ih =>
      have hhead : 0 < l.cardIds.count c ↔ c ∈ l.cardIds := List.count_pos_iff
      rw [standing_cons, Nat.add_pos_iff_pos_or_pos, ih, hhead]
      simp

/-! ## Finding a list -/

@[simp] theorem findList_cons (l : BoardList) (lists : List BoardList) (id : Id) :
    findList (l :: lists) id = if l.id = id then some l else findList lists id := by
  simp only [findList, List.find?_cons]
  split <;> simp_all

theorem findList_some (h : findList lists id = some l) : l ∈ lists ∧ l.id = id := by
  constructor
  · exact List.mem_of_find?_eq_some h
  · simpa using List.find?_some h

theorem findList_eq_none : findList lists id = none ↔ ∀ l ∈ lists, l.id ≠ id := by
  simp [findList]

theorem count_le_standing (h : findList lists id = some l) (c : Id) :
    l.cardIds.count c ≤ standing lists c := by
  induction lists with
  | nil => simp [findList] at h
  | cons first rest ih =>
      rw [findList_cons] at h
      rw [standing_cons]
      split at h
      · obtain rfl := Option.some.inj h
        omega
      · have hle := ih h
        omega

/-! ## Changing a list -/

theorem modifyList_of_none (h : findList lists id = none) : modifyList id f lists = lists := by
  induction lists with
  | nil => rfl
  | cons first rest ih =>
      rw [findList_cons] at h
      split at h
      · cases h
      · rename_i hne
        simp [modifyList, hne, ih h]

/-- A change of one list changes what stands in it. -/
theorem standing_modifyList (h : findList lists id = some l) (c : Id) :
    standing (modifyList id f lists) c + l.cardIds.count c =
      standing lists c + (f l).cardIds.count c := by
  induction lists with
  | nil => simp [findList] at h
  | cons first rest ih =>
      rw [findList_cons] at h
      split at h
      · rename_i heq
        obtain rfl := Option.some.inj h
        simp only [modifyList, heq, if_true, standing_cons]
        omega
      · rename_i hne
        have hrest := ih h
        simp only [modifyList, hne, if_false, standing_cons]
        omega

/-- A change of the order of one list, if it is there. -/
theorem standing_modifyIds {g : List Id → List Id} (hg : g [] = []) (lists : List BoardList)
    (id c : Id) :
    standing (modifyList id (fun l => { l with cardIds := g l.cardIds }) lists) c +
        (((findList lists id).map BoardList.cardIds).getD []).count c =
      standing lists c + (g (((findList lists id).map BoardList.cardIds).getD [])).count c := by
  cases h : findList lists id with
  | none => simp [modifyList_of_none h, hg]
  | some l => exact standing_modifyList h c

theorem ids_modifyList (hf : ∀ l, (f l).id = l.id) (id : Id) (lists : List BoardList) :
    (modifyList id f lists).map BoardList.id = lists.map BoardList.id := by
  induction lists with
  | nil => rfl
  | cons first rest ih =>
      rw [modifyList]
      split
      · simp [hf]
      · simp [ih]

theorem findList_modifyList (hf : ∀ l, (f l).id = l.id) (id j : Id) (lists : List BoardList) :
    findList (modifyList id f lists) j =
      (findList lists j).map fun l => if j = id then f l else l := by
  induction lists with
  | nil => rfl
  | cons first rest ih =>
      by_cases hfirst : first.id = id
      · by_cases hj : first.id = j
        · simp [modifyList, hfirst, hf, ← hj]
        · have hne : j ≠ id := fun heq => hj (hfirst.trans heq.symm)
          have hne' : ¬id = j := fun heq => hj (hfirst.trans heq)
          simp [modifyList, hfirst, hf, hne, hne']
      · by_cases hj : first.id = j
        · have hne : ¬j = id := fun heq => hfirst (hj.trans heq)
          simp [modifyList, hj, hne]
        · simp [modifyList, hfirst, hj, ih]

/-- With distinct ids, changing every list with an id is changing the first. -/
theorem map_ite_eq_modifyList (hids : (lists.map BoardList.id).Nodup) (f : BoardList → BoardList)
    (id : Id) : (lists.map fun l => if l.id = id then f l else l) = modifyList id f lists := by
  induction lists with
  | nil => rfl
  | cons first rest ih =>
      rw [List.map_cons, List.nodup_cons] at hids
      rw [List.map_cons, modifyList, ih hids.2]
      split
      · rename_i heq
        have hnone : findList rest id = none := by
          refine findList_eq_none.mpr fun l hl hid => hids.1 ?_
          rw [heq, ← hid]
          exact List.mem_map_of_mem hl
        rw [modifyList_of_none hnone]
      · rfl

/-! ## Moving a card -/

@[simp] theorem spliceIn_natCast (ids : List Id) (i : Nat) (id : Id) :
    spliceIn ids i id = ids.take i ++ id :: ids.drop i := by
  have hnot : ¬(i : Int) < 0 := by omega
  simp [spliceIn, hnot]

theorem count_spliceIn (ids : List Id) (index : Int) (id c : Id) :
    (spliceIn ids index id).count c = ids.count c + if id = c then 1 else 0 := by
  simp only [spliceIn]
  generalize (if index < 0 then index + ids.length else index).toNat = i
  calc (ids.take i ++ id :: ids.drop i).count c
      = (ids.take i).count c + (ids.drop i).count c + if id = c then 1 else 0 := by
        simp only [List.count_append, List.count_cons, beq_iff_eq]
        omega
    _ = ids.count c + if id = c then 1 else 0 := by
        rw [← List.count_append, List.take_append_drop]

/-- A card put into a list stands there once more. -/
theorem standing_putCard (h : findList lists id = some l) (index : Int) (cardId c : Id) :
    standing (modifyList id (fun l => { l with cardIds := spliceIn l.cardIds index cardId }) lists)
      c = standing lists c + if cardId = c then 1 else 0 := by
  have hin := standing_modifyList
    (f := fun l => { l with cardIds := spliceIn l.cardIds index cardId }) h c
  rw [count_spliceIn] at hin
  omega

/-- A card taken out of a list it is in stands there once less. -/
theorem standing_takeCard (h : findList lists id = some l) {cardId : Id}
    (hmem : cardId ∈ l.cardIds) (c : Id) :
    (standing (modifyList id (fun l => { l with cardIds := l.cardIds.erase cardId }) lists) c +
      if cardId = c then 1 else 0) = standing lists c := by
  have hout := standing_modifyList (f := fun l => { l with cardIds := l.cardIds.erase cardId }) h c
  have hpos : 0 < l.cardIds.count cardId := List.count_pos_iff.mpr hmem
  simp only [List.count_erase, beq_iff_eq] at hout
  split at hout
  · rename_i heq
    subst heq
    rw [if_pos rfl]
    omega
  · rename_i hne
    rw [if_neg hne]
    omega

/-- A card that is moved stands on the board as often as before. -/
theorem standing_transfer {cardId fromListId toListId : Id} {source target : BoardList}
    (hsource : findList lists fromListId = some source)
    (htarget : findList lists toListId = some target) (hmem : cardId ∈ source.cardIds)
    (toIndex : Int) (c : Id) :
    standing (transfer lists cardId fromListId toListId toIndex) c = standing lists c := by
  have hthere := findList_modifyList (f := fun l => { l with cardIds := l.cardIds.erase cardId })
    (fun _ => rfl) fromListId toListId lists
  rw [htarget, Option.map_some] at hthere
  rw [transfer, standing_putCard hthere, standing_takeCard hsource hmem]

@[simp] theorem ids_transfer (lists : List BoardList) (cardId fromListId toListId : Id)
    (toIndex : Int) :
    (transfer lists cardId fromListId toListId toIndex).map BoardList.id =
      lists.map BoardList.id := by
  rw [transfer, ids_modifyList, ids_modifyList]
  · exact fun _ => rfl
  · exact fun _ => rfl

/-! ## Taking a card out -/

theorem standing_withoutCard (lists : List BoardList) (cardId c : Id) :
    standing (withoutCard lists cardId) c = if c = cardId then 0 else standing lists c := by
  induction lists with
  | nil => simp [withoutCard]
  | cons first rest ih =>
      rw [withoutCard, List.map_cons, standing_cons, standing_cons, ← withoutCard, ih]
      split
      · rename_i heq
        simp [heq, List.count_eq_zero]
      · rename_i hne
        rw [List.count_filter (by simpa using hne)]

@[simp] theorem ids_withoutCard (lists : List BoardList) (cardId : Id) :
    (withoutCard lists cardId).map BoardList.id = lists.map BoardList.id := by
  simp [withoutCard]

/-- A list taken off the board takes its cards with it. -/
theorem standing_filter_ids (hids : (lists.map BoardList.id).Nodup)
    (h : findList lists id = some l) (c : Id) :
    standing (lists.filter fun l => l.id ≠ id) c + l.cardIds.count c = standing lists c := by
  induction lists with
  | nil => simp [findList] at h
  | cons first rest ih =>
      rw [List.map_cons, List.nodup_cons] at hids
      rw [findList_cons] at h
      split at h
      · rename_i heq
        obtain rfl := Option.some.inj h
        have hrest : rest.filter (fun l => l.id ≠ id) = rest := by
          refine List.filter_eq_self.mpr fun l hl => ?_
          have hne : l.id ≠ id := fun hid => hids.1 (by
            rw [heq, ← hid]
            exact List.mem_map_of_mem hl)
          simpa using hne
        rw [List.filter_cons_of_neg (by simpa using heq), hrest, standing_cons]
        omega
      · rename_i hne
        have hle := ih hids.2 h
        rw [List.filter_cons_of_pos (by simpa using hne), standing_cons, standing_cons]
        omega

end FlowLogix.Web
