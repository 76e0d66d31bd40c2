/-
  Foundation/PartitionedWrites.lean --- a column written partition by partition.

  A column is a dictionary from keys to values.  `writeZip` writes a list of values under
  a list of keys, one each; `writePartitions` does so for every part of a partition of the
  keys.  Where no key is in two parts, every part holds its own values in the end,
  whatever the order of the writes.
-/
import FlowLogix.Foundation.Dict

set_option autoImplicit false

namespace FlowLogix.Foundation.Dict

variable {κ α β : Type} [DecidableEq κ]

/-- Write each value under the key at its place. -/
def writeZip (d : Dict κ α) (keys : List κ) (values : List α) : Dict κ α :=
  (keys.zip values).foldl (fun d e => d.insert e.1 e.2) d

theorem lookup_writeZip_of_notMem {keys : List κ} {j : κ} (h : j ∉ keys) (d : Dict κ α)
    (values : List α) : (d.writeZip keys values).lookup j = d.lookup j := by
  unfold writeZip
  induction keys generalizing d values with
  | nil => rfl
  | cons k rest ih =>
      rw [List.mem_cons, not_or] at h
      obtain ⟨hne, hrest⟩ := h
      cases values with
      | nil => rfl
      | cons v values =>
          rw [List.zip_cons_cons, List.foldl_cons, ih hrest, lookup_insert_eq, if_neg hne]

/-- The keys read back the values. -/
theorem map_lookup_writeZip {keys : List κ} (hkeys : keys.Nodup) {values : List α}
    (hlength : values.length = keys.length) (d : Dict κ α) :
    keys.map (d.writeZip keys values).lookup = values.map some := by
  induction keys generalizing d values with
  | nil =>
      obtain rfl := List.length_eq_zero_iff.mp hlength
      rfl
  | cons k rest ih =>
      obtain ⟨hk, hrest⟩ := List.nodup_cons.mp hkeys
      obtain ⟨v, values, rfl⟩ := List.exists_cons_of_length_eq_add_one hlength
      have hwrites : writeZip d (k :: rest) (v :: values) =
          writeZip (d.insert k v) rest values := rfl
      rw [hwrites, List.map_cons, List.map_cons, ih hrest (Nat.succ.inj hlength),
        lookup_writeZip_of_notMem hk, AList.lookup_insert]

/-- The writes of several parts. -/
def writePartitions (keys : β → List κ) (values : β → List α) (parts : List β) (d : Dict κ α) :
    Dict κ α :=
  parts.foldl (fun d part => d.writeZip (keys part) (values part)) d

variable {keys : β → List κ} {values : β → List α}

theorem lookup_writePartitions_of_notMem {parts : List β} {j : κ}
    (h : ∀ part ∈ parts, j ∉ keys part) (d : Dict κ α) :
    (writePartitions keys values parts d).lookup j = d.lookup j := by
  unfold writePartitions
  induction parts generalizing d with
  | nil => rfl
  | cons part rest ih =>
      obtain ⟨hpart, hrest⟩ := List.forall_mem_cons.mp h
      rw [List.foldl_cons, ih hrest, lookup_writeZip_of_notMem hpart]

/-- Every part holds its own values. -/
theorem map_lookup_writePartitions (hnodup : ∀ part, (keys part).Nodup)
    (hlength : ∀ part, (values part).length = (keys part).length)
    (hapart : ∀ part part' j, j ∈ keys part → j ∈ keys part' → part = part') {parts : List β}
    {part : β} (hpart : part ∈ parts) (d : Dict κ α) :
    (keys part).map (writePartitions keys values parts d).lookup = (values part).map some := by
  induction parts generalizing d with
  | nil => cases hpart
  | cons first rest ih =>
      have hwrites : writePartitions keys values (first :: rest) d =
          writePartitions keys values rest (d.writeZip (keys first) (values first)) := rfl
      rw [hwrites]
      by_cases hrest : part ∈ rest
      · exact ih hrest _
      · -- the writes after its own are those of other parts
        obtain rfl := (List.mem_cons.mp hpart).resolve_right hrest
        rw [← map_lookup_writeZip (hnodup part) (hlength part) d]
        refine List.map_congr_left fun j hj => ?_
        refine lookup_writePartitions_of_notMem (fun other hother hmem => hrest ?_) _
        exact hapart part other j hj hmem ▸ hother

end FlowLogix.Foundation.Dict
