/-
  Ordering/CollisionOrder.lean --- the order of colliding keys
  (`FractionalIndexer.compare` of backend/src/common/ordering/fractional-indexer.ts).

  A creation time comes as a `Date`, as text or as a number.  `toMillis` makes a number
  of it that is never NaN, and on the others `<` is a linear order.  So the comparator
  compares one key of each item, lexicographically: `compare_eq`.

  What `Date.parse` makes of a text is left open.
-/
import FlowLogix.Foundation.JsString
import FlowLogix.Foundation.SortByKey

set_option autoImplicit false

namespace FlowLogix.Ordering

open FlowLogix.Foundation

/-! ## The code -/

/-- A number that is not NaN. -/
abbrev Millis : Type := WithBot (WithTop ℚ)

/-- The number of a time value. -/
def Millis.ofTime (time : Int) : Millis := ((time : ℚ) : WithTop ℚ)

/-- `Date | string | number`.  NaN is `none`. -/
inductive CreatedAt where
  /-- a `Date`, by its time value -/
  | date (time : Option Int)
  | text (text : JsString)
  | number (ms : Option Millis)

/-- `OrderableItem`. -/
structure OrderableItem where
  positionIdx : JsString
  createdAt : CreatedAt
  id : JsString

namespace FractionalIndexer

section

variable (parse : JsString → Option Int)

/-- `toMillis`, `parse` being `Date.parse`: NaN collapses to 0. -/
def toMillis : CreatedAt → Millis
  | .date time => (time.map Millis.ofTime).getD 0
  | .number ms => ms.getD 0
  | .text text => ((parse text).map Millis.ofTime).getD 0

/-- `FractionalIndexer.compare`. -/
def compare (a b : OrderableItem) : Int :=
  if a.positionIdx < b.positionIdx then -1
  else if a.positionIdx > b.positionIdx then 1
  else
    let ta := toMillis parse a.createdAt
    let tb := toMillis parse b.createdAt
    if ta < tb then -1
    else if ta > tb then 1
    else if a.id < b.id then -1
    else if a.id > b.id then 1
    else 0

/-- `items.sort(FractionalIndexer.compare)`. -/
def sortItems (items : List OrderableItem) : List OrderableItem :=
  items.insertionSort fun a b => compare parse a b ≤ 0

/-! ## The comparison of keys -/

/-- What the comparator looks at, in order. -/
def orderKey (item : OrderableItem) : JsString ×ₗ Millis ×ₗ JsString :=
  toLex (item.positionIdx, toLex (toMillis parse item.createdAt, item.id))

end

variable {parse : JsString → Option Int} {a b c : OrderableItem}
  {items items' : List OrderableItem}

theorem orderKey_lt_iff : orderKey parse a < orderKey parse b ↔
    a.positionIdx < b.positionIdx ∨ a.positionIdx = b.positionIdx ∧
      (toMillis parse a.createdAt < toMillis parse b.createdAt ∨
        toMillis parse a.createdAt = toMillis parse b.createdAt ∧ a.id < b.id) := by
  rw [orderKey, orderKey, Prod.Lex.toLex_lt_toLex, Prod.Lex.toLex_lt_toLex]

theorem orderKey_eq_iff : orderKey parse a = orderKey parse b ↔
    a.positionIdx = b.positionIdx ∧
      toMillis parse a.createdAt = toMillis parse b.createdAt ∧ a.id = b.id := by
  rw [orderKey, orderKey, toLex_inj, Prod.mk.injEq, toLex_inj, Prod.mk.injEq]

/-- The comparator compares keys. -/
theorem compare_eq (a b : OrderableItem) :
    compare parse a b =
      if orderKey parse a < orderKey parse b then -1
      else if orderKey parse b < orderKey parse a then 1
      else 0 := by
  simp only [orderKey_lt_iff]
  unfold compare
  rcases lt_trichotomy a.positionIdx b.positionIdx with h | h | h
  · rw [if_pos h, if_pos (Or.inl h)]
  · rcases lt_trichotomy (toMillis parse a.createdAt) (toMillis parse b.createdAt) with ht | ht | ht
    · simp [h, ht]
    · simp [h, ht]
    · simp [h, ht, ht.not_gt, ht.ne']
  · simp [h, h.not_gt, h.ne']

theorem compare_neg_iff : compare parse a b < 0 ↔ orderKey parse a < orderKey parse b := by
  rw [compare_eq]
  split
  · rename_i h
    exact iff_of_true (by decide) h
  · rename_i h
    split
    · exact iff_of_false (by decide) h
    · exact iff_of_false (by decide) h

/-- The two argument orders give opposite answers. -/
theorem compare_swap (a b : OrderableItem) : compare parse a b = -compare parse b a := by
  rw [compare_eq, compare_eq]
  rcases lt_trichotomy (orderKey parse a) (orderKey parse b) with h | h | h
  · rw [if_pos h, if_neg h.not_gt, if_pos h]
  · rw [h, if_neg (lt_irrefl _), if_neg (lt_irrefl _)]
    rfl
  · rw [if_neg h.not_gt, if_pos h, if_pos h]
    rfl

theorem compare_nonpos_iff : compare parse a b ≤ 0 ↔ orderKey parse a ≤ orderKey parse b := by
  rw [compare_swap, neg_nonpos, ← not_lt, compare_neg_iff, not_lt]

theorem compare_eq_zero_iff : compare parse a b = 0 ↔ orderKey parse a = orderKey parse b := by
  rw [le_antisymm_iff, le_antisymm_iff, compare_nonpos_iff, ← neg_nonpos, ← compare_swap,
    compare_nonpos_iff]

/-! ## Sorting -/

theorem sortItems_eq (items : List OrderableItem) :
    sortItems parse items = sortByKey (orderKey parse) items := by
  have hrel : (fun a b => compare parse a b ≤ 0) = KeyLe (orderKey parse) := by
    funext a b
    exact propext compare_nonpos_iff
  rw [sortItems, sortByKey]
  congr

/-- Items with distinct ids have distinct keys. -/
theorem nodup_orderKey (hids : (items.map OrderableItem.id).Nodup) :
    (items.map (orderKey parse)).Nodup := by
  refine List.Nodup.map_on (fun a ha b hb h => ?_) (List.Nodup.of_map _ hids)
  exact List.inj_on_of_nodup_map hids ha hb (orderKey_eq_iff.mp h).2.2

/-- **The comparator is a strict total order** up to its key, whatever `Date.parse` makes of
a text.  Items with distinct ids have one ascending order, so how they come in and which
algorithm sorts them does not matter. -/
theorem compare_total_order (parse : JsString → Option Int) :
    (∀ a b, compare parse a b = -compare parse b a) ∧
      (∀ a b c, compare parse a b < 0 → compare parse b c < 0 → compare parse a c < 0) ∧
      (∀ a b c, compare parse a b ≤ 0 → compare parse b c ≤ 0 → compare parse a c ≤ 0) ∧
      (∀ a b, compare parse a b = 0 ↔ a.positionIdx = b.positionIdx ∧
        toMillis parse a.createdAt = toMillis parse b.createdAt ∧ a.id = b.id) ∧
      ∀ items : List OrderableItem, (items.map OrderableItem.id).Nodup →
        (∀ items', items'.Perm items → sortItems parse items' = sortItems parse items) ∧
        ∀ sorted, sorted.Perm items → sorted.Pairwise (fun a b => compare parse a b ≤ 0) →
          sorted = sortItems parse items := by
  refine ⟨compare_swap, fun a b c hab hbc => ?_, fun a b c hab hbc => ?_, fun a b => ?_,
    fun items hids => ⟨fun items' hperm => ?_, fun sorted hperm hsorted => ?_⟩⟩
  · rw [compare_neg_iff] at hab hbc ⊢
    exact hab.trans hbc
  · rw [compare_nonpos_iff] at hab hbc ⊢
    exact hab.trans hbc
  · exact compare_eq_zero_iff.trans orderKey_eq_iff
  · rw [sortItems_eq, sortItems_eq]
    exact sortByKey_congr (nodup_orderKey hids) hperm
  · rw [sortItems_eq]
    refine (sortByKey_eq_of_perm (nodup_orderKey hids) hperm ?_).symm
    exact hsorted.imp fun h => compare_nonpos_iff.mp h

-- an invalid date counts as the epoch, before any later time
example : compare (fun _ => none) ⟨js "M", .text (js "not-a-date"), js "b"⟩
    ⟨js "M", .number (some ((1 : ℚ) : WithTop ℚ)), js "a"⟩ = -1 := by
  decide

end FractionalIndexer

end FlowLogix.Ordering
