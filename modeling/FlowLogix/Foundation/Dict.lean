/-
  Foundation/Dict.lean --- finite dictionaries.

  `Dict κ α` is Mathlib's `AList` at a constant family: an association list in
  which no key occurs twice.  It stands for three things of the development: an
  ECMAScript object used as a map (`JsObject`), a database table indexed by its
  primary key, and a device's local store.  Everything downstream reads a
  dictionary through `lookup`; the lemmas here say what each way of building one
  does to `lookup`.
-/
import Mathlib

set_option autoImplicit false

namespace FlowLogix.Foundation

/-- A dictionary: an association list without duplicate keys. -/
abbrev Dict (κ α : Type) : Type := AList fun _ : κ => α

/-- An ECMAScript object used as a map from property names to values. -/
abbrev JsObject (α : Type) : Type := Dict String α

namespace Dict

variable {κ α β : Type} [DecidableEq κ]

/-! ## Single writes -/

/-- Reading after one write. -/
theorem lookup_insert_eq (d : Dict κ α) (k j : κ) (v : α) :
    (d.insert k v).lookup j = if j = k then some v else d.lookup j := by
  by_cases h : j = k
  · subst h
    simp
  · rw [if_neg h]
    exact AList.lookup_insert_ne h

theorem lookup_singleton_eq (k j : κ) (v : α) :
    (AList.singleton k v : Dict κ α).lookup j = if j = k then some v else none := by
  rw [← AList.insert_empty, lookup_insert_eq, AList.lookup_empty]

/-- Reading after the keys of a list are deleted. -/
theorem lookup_foldl_erase (keys : List κ) (d : Dict κ α) (j : κ) :
    (keys.foldl (fun d k => d.erase k) d).lookup j = if j ∈ keys then none else d.lookup j := by
  induction keys generalizing d with
  | nil => simp
  | cons k rest ih =>
      rw [List.foldl_cons, ih]
      by_cases hk : j = k
      · subst hk
        simp
      · simp [hk, AList.lookup_erase_ne hk]

theorem mem_foldl_erase (keys : List κ) (d : Dict κ α) (j : κ) :
    j ∈ keys.foldl (fun d k => d.erase k) d ↔ j ∈ d ∧ j ∉ keys := by
  rw [← AList.lookup_isSome, lookup_foldl_erase, ← AList.lookup_isSome]
  split <;> simp_all

/-- A literal: the entries in order, a repeated key keeping its last value. -/
def ofList (entries : List (κ × α)) : Dict κ α :=
  entries.foldl (fun d e => d.insert e.1 e.2) ∅

/-! ## Writing under every key of a list -/

/-- Writing `f k` under each key `k` of a list, in order.  Both merges build
their result objects this way. -/
def writeAll (f : κ → α) (keys : List κ) (d : Dict κ α) : Dict κ α :=
  keys.foldl (fun d k => d.insert k (f k)) d

theorem lookup_writeAll (f : κ → α) (keys : List κ) (d : Dict κ α) (j : κ) :
    (writeAll f keys d).lookup j = if j ∈ keys then some (f j) else d.lookup j := by
  induction keys generalizing d with
  | nil => simp [writeAll]
  | cons k rest ih =>
      have hrest := ih (d.insert k (f k))
      rw [writeAll] at hrest ⊢
      rw [List.foldl_cons, hrest, lookup_insert_eq]
      by_cases hj : j ∈ rest
      · simp [hj]
      · by_cases hk : j = k
        · simp [hk]
        · simp [hj, hk]

/-! ## Pairs -/

/-- The pairs of a dictionary are what it holds. -/
theorem mem_pairs {d : Dict κ α} {k : κ} {a : α} :
    (k, a) ∈ d.entries.map (fun e => (e.1, e.2)) ↔ d.lookup k = some a := by
  rw [List.mem_map]
  constructor
  · rintro ⟨e, he, heq⟩
    cases heq
    exact AList.mem_lookup_iff.mpr he
  · intro h
    exact ⟨⟨k, a⟩, AList.mem_lookup_iff.mp h, rfl⟩

omit [DecidableEq κ] in
/-- No key has two pairs. -/
theorem nodup_keys_pairs (d : Dict κ α) :
    ((d.entries.map fun e => (e.1, e.2)).map Prod.fst).Nodup := by
  rw [List.map_map]
  exact d.nodupKeys

/-! ## Writing one dictionary over another -/

/-- `Object.assign(target, source)`. -/
def assign (target source : Dict κ α) : Dict κ α := source ∪ target

theorem lookup_assign (target source : Dict κ α) (k : κ) :
    (target.assign source).lookup k = (source.lookup k).or (target.lookup k) := by
  by_cases hk : k ∈ source
  · obtain ⟨v, hv⟩ := Option.isSome_iff_exists.mp (AList.lookup_isSome.mpr hk)
    rw [assign, AList.lookup_union_left hk, hv, Option.some_or]
  · rw [assign, AList.lookup_union_right hk, AList.lookup_eq_none.mpr hk, Option.none_or]

/-! ## Values -/

/-- `Object.values`. -/
def values (d : Dict κ α) : List α := d.entries.map Sigma.snd

theorem mem_values_iff {d : Dict κ α} {v : α} :
    v ∈ d.values ↔ ∃ k, d.lookup k = some v := by
  simp only [values, List.mem_map]
  constructor
  · rintro ⟨⟨k, w⟩, hmem, rfl⟩
    exact ⟨k, AList.mem_lookup_iff.mpr hmem⟩
  · rintro ⟨k, hk⟩
    exact ⟨⟨k, v⟩, AList.mem_lookup_iff.mp hk, rfl⟩

/-- In a table that holds each row under its own key, the keys are the rows' own. -/
theorem mem_values_iff_of_keyed {d : Dict κ α} {key : α → κ}
    (h : ∀ k v, d.lookup k = some v → key v = k) {v : α} :
    v ∈ d.values ↔ d.lookup (key v) = some v := by
  rw [mem_values_iff]
  refine ⟨?_, fun hv => ⟨key v, hv⟩⟩
  rintro ⟨k, hk⟩
  rw [h k v hk]
  exact hk

theorem nodup_values_of_keyed {d : Dict κ α} {key : α → κ}
    (h : ∀ k v, d.lookup k = some v → key v = k) : (d.values.map key).Nodup := by
  have hkeys : d.values.map key = d.keys := by
    rw [values, List.map_map]
    exact List.map_congr_left fun e he => h e.1 e.2 (AList.mem_lookup_iff.mpr he)
  exact hkeys ▸ d.keys_nodup

/-! ## Changing every value -/

/-- Apply a partial function to every value; a key whose value has no image is
dropped. -/
def filterMapValues (f : α → Option β) (d : Dict κ α) : Dict κ β where
  entries := d.entries.filterMap fun e => (f e.2).map fun b => ⟨e.1, b⟩
  nodupKeys := by
    have hsub : (d.entries.filterMap fun e =>
        (f e.2).map fun b => (⟨e.1, b⟩ : Sigma fun _ : κ => β)).keys.Sublist
          d.entries.keys := by
      generalize d.entries = entries
      induction entries with
      | nil => simp
      | cons e rest ih =>
          cases h : f e.2 with
          | none => simpa [List.filterMap_cons, h] using ih.cons e.1
          | some b => simpa [List.filterMap_cons, h] using ih.cons_cons e.1
    exact hsub.nodup d.nodupKeys

theorem lookup_filterMapValues (f : α → Option β) (d : Dict κ α) (k : κ) :
    (d.filterMapValues f).lookup k = (d.lookup k).bind f := by
  have hmem : ∀ b, b ∈ (d.filterMapValues f).lookup k ↔ b ∈ (d.lookup k).bind f := by
    intro b
    rw [AList.mem_lookup_iff]
    simp only [filterMapValues, List.mem_filterMap, Option.mem_def, Option.bind_eq_some_iff,
      Option.map_eq_some_iff]
    constructor
    · rintro ⟨⟨j, a⟩, he, b', hf, heq⟩
      cases heq
      exact ⟨a, AList.mem_lookup_iff.mpr he, hf⟩
    · rintro ⟨a, hk, hf⟩
      exact ⟨⟨k, a⟩, AList.mem_lookup_iff.mp hk, b, hf, rfl⟩
  exact Option.ext hmem

/-- Apply a function to every value. -/
def mapValues (f : α → β) (d : Dict κ α) : Dict κ β := d.filterMapValues fun a => some (f a)

theorem lookup_mapValues (f : α → β) (d : Dict κ α) (k : κ) :
    (d.mapValues f).lookup k = (d.lookup k).map f := by
  rw [mapValues, lookup_filterMapValues]
  cases d.lookup k <;> rfl

/-- The same value under every key. -/
theorem lookup_mapValues_const (b : β) (d : Dict κ α) (k : κ) :
    (d.mapValues fun _ => b).lookup k = if k ∈ d then some b else none := by
  rw [lookup_mapValues]
  split
  · rename_i hkey
    obtain ⟨v, hv⟩ := Option.isSome_iff_exists.mp (AList.lookup_isSome.mpr hkey)
    rw [hv, Option.map_some]
  · rename_i hkey
    rw [AList.lookup_eq_none.mpr hkey, Option.map_none]

/-! ## `Math.max(0, ...Object.values(d))` -/

section MathMax

variable {K : Type} [LinearOrder K]

theorem foldl_max_le_iff (l : List K) (a x : K) :
    l.foldl max a ≤ x ↔ a ≤ x ∧ ∀ v ∈ l, v ≤ x := by
  induction l generalizing a with
  | nil => simp
  | cons v rest ih =>
      rw [List.foldl_cons, ih, max_le_iff]
      simp [and_assoc]

variable [Zero K]

/-- `Math.max(0, ...values)`. -/
def mathMax (d : Dict κ K) : K := d.values.foldl max 0

/-- The upper bounds of `mathMax` are those of zero and of every value. -/
theorem mathMax_le_iff {d : Dict κ K} {x : K} :
    d.mathMax ≤ x ↔ 0 ≤ x ∧ ∀ k v, d.lookup k = some v → v ≤ x := by
  rw [mathMax, foldl_max_le_iff]
  constructor
  · rintro ⟨h0, hv⟩
    exact ⟨h0, fun k v hk => hv v (mem_values_iff.mpr ⟨k, hk⟩)⟩
  · rintro ⟨h0, hv⟩
    refine ⟨h0, fun v hmem => ?_⟩
    obtain ⟨k, hk⟩ := mem_values_iff.mp hmem
    exact hv k v hk

theorem zero_le_mathMax (d : Dict κ K) : 0 ≤ d.mathMax := (mathMax_le_iff.mp le_rfl).1

/-- `mathMax` depends on the values only. -/
theorem mathMax_congr {d e : Dict κ K} (h : ∀ k, d.lookup k = e.lookup k) :
    d.mathMax = e.mathMax := by
  refine eq_of_forall_ge_iff fun x => ?_
  simp only [mathMax_le_iff, h]

end MathMax

end Dict

end FlowLogix.Foundation
