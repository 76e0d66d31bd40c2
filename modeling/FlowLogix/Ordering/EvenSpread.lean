/-
  Ordering/EvenSpread.lean --- the keys of a rebalance.

  `rebalance` picks a width whose key space holds two slots for each of the gaps
  between the keys, and drops the keys into it evenly.  Two picks are then at least
  two slots apart, which leaves room to step off a trailing zero without meeting
  the next pick.  The keys have one width, so they sort as the picks do.
-/
import FlowLogix.Ordering.Midpoint

set_option autoImplicit false

namespace FlowLogix.Ordering

open FlowLogix.Foundation

namespace FractionalIndexer

variable {ix : FractionalIndexer}

/-! ## Fixed width -/

theorem length_encodeFixed (value length : Nat) :
    (ix.encodeFixed value length).length = length := by
  induction length generalizing value with
  | zero => rfl
  | succ length ih => rw [encodeFixed, List.length_append, ih, List.length_singleton]

theorem mem_alphabet_of_encodeFixed {value length : Nat} {u : CodeUnit}
    (h : u ∈ ix.encodeFixed value length) : u ∈ ix.alphabet := by
  induction length generalizing value with
  | zero => cases h
  | succ length ih =>
      rw [encodeFixed] at h
      rcases List.mem_append.mp h with h | h
      · exact ih h
      · obtain rfl := List.mem_singleton.mp h
        exact charAt_mem (Nat.mod_lt _ ix.length_pos)

/-- Where two texts of one length differ, what follows them does not matter. -/
theorem append_lt_append {a b x y : JsString} (hlength : a.length = b.length) (h : a < b) :
    a ++ x < b ++ y := by
  induction a generalizing b with
  | nil =>
      obtain rfl := List.length_eq_zero_iff.mp hlength.symm
      exact absurd h (lt_irrefl _)
  | cons u a ih =>
      cases b with
      | nil => cases hlength
      | cons v b =>
          rw [List.cons_append, List.cons_append, List.cons_lt_cons_iff]
          refine (List.cons_lt_cons_iff.mp h).imp_right fun ⟨huv, hlt⟩ => ⟨huv, ih ?_ hlt⟩
          simpa using hlength

/-- Greater values have greater keys.  The induction is on the width. -/
theorem encodeFixed_lt {value value' length : Nat} (h : value < value')
    (hvalue' : value' < ix.alphabet.length ^ length) :
    ix.encodeFixed value length < ix.encodeFixed value' length := by
  induction length generalizing value value' with
  | zero => simp at hvalue'; omega
  | succ length ih =>
      have hpos := ix.length_pos
      have hdiv : value' / ix.alphabet.length < ix.alphabet.length ^ length := by
        rw [Nat.div_lt_iff_lt_mul hpos]
        rwa [Nat.pow_succ] at hvalue'
      rw [encodeFixed, encodeFixed]
      rcases Nat.lt_or_eq_of_le (Nat.div_le_div_right (c := ix.alphabet.length) h.le) with hlt | heq
      · apply append_lt_append
        · rw [length_encodeFixed, length_encodeFixed]
        · exact ih hlt hdiv
      · rw [heq]
        apply List.append_left_lt
        apply cons_lt_of_head_lt
        apply charAt_lt_charAt
        · have hsum := Nat.div_add_mod value ix.alphabet.length
          have hsum' := Nat.div_add_mod value' ix.alphabet.length
          rw [heq] at hsum
          omega
        · exact Nat.mod_lt _ hpos

/-- A value that is no multiple of the base has a key. -/
theorem isKey_encodeFixed {value length : Nat} (hvalue : value % ix.alphabet.length ≠ 0)
    (hlength : 0 < length) : ix.IsKey (ix.encodeFixed value length) where
  ne_nil := by
    apply List.ne_nil_of_length_pos
    rwa [length_encodeFixed]
  digits _ hu := mem_alphabet_of_encodeFixed hu
  last := by
    obtain ⟨n, rfl⟩ := Nat.exists_eq_succ_of_ne_zero hlength.ne'
    rw [encodeFixed, List.getLast?_concat]
    intro h
    exact charAt_ne_zero (Nat.pos_of_ne_zero hvalue) (Nat.mod_lt _ ix.length_pos)
      (Option.some.inj h)

/-! ## Spacing -/

/-- The even pick for the `k`-th key. -/
def pick (count capacity k : Nat) : Nat := (k + 1) * capacity / (count + 1)

/-- Two picks are two slots apart. -/
theorem pick_add_two_le {count capacity : Nat} (h : 2 * (count + 1) ≤ capacity) (k : Nat) :
    pick count capacity k + 2 ≤ pick count capacity (k + 1) := by
  unfold pick
  rw [← Nat.add_mul_div_right _ _ (Nat.succ_pos count)]
  apply Nat.div_le_div_right
  have hsplit : (k + 1 + 1) * capacity = (k + 1) * capacity + capacity := Nat.succ_mul _ _
  omega

/-- The last pick is two slots from the end. -/
theorem pick_add_two_le_capacity {count capacity k : Nat} (h : 2 * (count + 1) ≤ capacity)
    (hk : k < count) : pick count capacity k + 2 ≤ capacity := by
  have hle : pick count capacity k ≤ pick count capacity (count - 1) := by
    unfold pick
    apply Nat.div_le_div_right
    apply Nat.mul_le_mul_right
    omega
  have hend : pick count capacity (count - 1) + 2 ≤ pick count capacity count := by
    have hgap := pick_add_two_le h (count - 1)
    rwa [Nat.sub_add_cancel (by omega)] at hgap
  have hcount : pick count capacity count = capacity := by
    unfold pick
    exact Nat.mul_div_cancel_left capacity (Nat.succ_pos count)
  omega

/-- The pick, or the slot after it. -/
def spread (ix : FractionalIndexer) (count capacity k : Nat) : Nat :=
  if pick count capacity k % ix.alphabet.length = 0 then pick count capacity k + 1
  else pick count capacity k

theorem spread_mod_ne_zero (count capacity k : Nat) :
    ix.spread count capacity k % ix.alphabet.length ≠ 0 := by
  unfold spread
  split
  · rename_i hzero
    have htwo := ix.two_le_length
    rw [Nat.add_mod, hzero, Nat.zero_add, Nat.mod_mod, Nat.mod_eq_of_lt (by omega)]
    omega
  · assumption

theorem spread_bounds (count capacity k : Nat) :
    pick count capacity k ≤ ix.spread count capacity k ∧
      ix.spread count capacity k ≤ pick count capacity k + 1 := by
  unfold spread
  split <;> omega

theorem spread_lt_spread {count capacity : Nat} (h : 2 * (count + 1) ≤ capacity) (k : Nat) :
    ix.spread count capacity k < ix.spread count capacity (k + 1) := by
  have hgap := pick_add_two_le h k
  have hlow := ix.spread_bounds count capacity k
  have hhigh := ix.spread_bounds count capacity (k + 1)
  omega

/-- With room for two slots the loop never has to step past the previous key. -/
theorem spacedValue_eq {count capacity previous k : Nat} (h : k ≠ 0 → previous <
    ix.spread count capacity k) :
    ix.spacedValue count capacity previous k = ix.spread count capacity k := by
  show (if k ≠ 0 ∧ ix.spread count capacity k ≤ previous then previous + 1
    else ix.spread count capacity k) = _
  apply if_neg
  rintro ⟨hk, hle⟩
  exact absurd (h hk) (not_lt.mpr hle)

theorem spacedKeys_eq {count length : Nat} (h : 2 * (count + 1) ≤ ix.alphabet.length ^ length)
    (left k previous : Nat)
    (hprevious : k ≠ 0 → previous < ix.spread count (ix.alphabet.length ^ length) k) :
    ix.spacedKeys count length left k previous =
      (List.range' k left).map fun j =>
        ix.encodeFixed (ix.spread count (ix.alphabet.length ^ length) j) length := by
  induction left generalizing k previous with
  | zero => rfl
  | succ left ih =>
      rw [spacedKeys, spacedValue_eq hprevious, List.range'_succ, List.map_cons]
      congr 1
      exact ih (k + 1) _ fun _ => spread_lt_spread h k

/-! ## Width -/

/-- The width that is chosen is wide enough, and is the given one or safe. -/
theorem widen_eq_ok {required fuel length width : Nat}
    (h : ix.widen required fuel length = .ok width) :
    required ≤ ix.alphabet.length ^ width ∧ length ≤ width ∧
      (width = length ∨ ix.alphabet.length ^ width ≤ maxSafeInteger) := by
  induction fuel generalizing length with
  | zero => cases h
  | succ fuel ih =>
      rw [widen] at h
      split at h
      · rename_i henough
        obtain rfl := Except.ok.inj h
        exact ⟨henough, le_rfl, Or.inl rfl⟩
      · split at h
        · cases h
        · rename_i hsafe
          obtain ⟨hrequired, hle, hwidth⟩ := ih h
          refine ⟨hrequired, by omega, Or.inr ?_⟩
          rcases hwidth with rfl | hwidth
          · exact not_lt.mp hsafe
          · exact hwidth

/-- A safe width that is wide enough is reached. -/
theorem exists_widen {required fuel length width : Nat} (hlength : length ≤ width)
    (hfuel : width < length + fuel) (hrequired : required ≤ ix.alphabet.length ^ width)
    (hsafe : ix.alphabet.length ^ width ≤ maxSafeInteger) :
    ∃ chosen, ix.widen required fuel length = .ok chosen := by
  induction fuel generalizing length with
  | zero => omega
  | succ fuel ih =>
      rw [widen]
      split
      · exact ⟨length, rfl⟩
      · rename_i hnot
        have hlt : length < width := by
          refine Nat.lt_of_le_of_ne hlength ?_
          rintro rfl
          exact hnot hrequired
        have hnext : ix.alphabet.length ^ (length + 1) ≤ maxSafeInteger :=
          (Nat.pow_le_pow_right ix.length_pos hlt).trans hsafe
        rw [if_neg (not_lt.mpr hnext)]
        exact ih hlt (by omega)

/-! ## `rebalance` -/

/-- **Rebalanced keys** are as many as asked for, in ascending order, valid, and of a
width whose key space is safe. -/
theorem rebalance_eq_ok {count : Nat} {keys : List JsString} (h : ix.rebalance count = .ok keys) :
    keys.length = count ∧ keys.Pairwise (· < ·) ∧ ∀ key ∈ keys, ix.IsKey key ∧
      (key.length = 2 ∨ ix.alphabet.length ^ key.length ≤ maxSafeInteger) := by
  unfold rebalance at h
  split at h
  · rename_i hzero
    obtain rfl := Except.ok.inj h
    exact ⟨hzero.symm, List.Pairwise.nil, nofun⟩
  · obtain ⟨width, hwidth, h⟩ := bind_eq_ok.mp h
    obtain rfl := Except.ok.inj h
    obtain ⟨henough, htwo, hsafe⟩ := widen_eq_ok hwidth
    rw [spacedKeys_eq henough count 0 0 (absurd rfl)]
    refine ⟨by rw [List.length_map, List.length_range'], ?_, ?_⟩
    · rw [List.pairwise_map]
      refine List.Pairwise.imp_of_mem ?_ List.pairwise_lt_range'
      intro j j' _ hj' hlt
      have hj' : j' < count := by simpa using hj'
      have hmono : StrictMono (ix.spread count (ix.alphabet.length ^ width)) :=
        strictMono_nat_of_lt_succ (spread_lt_spread henough)
      apply encodeFixed_lt (hmono hlt)
      have hbound := pick_add_two_le_capacity henough hj'
      have hspread := ix.spread_bounds count (ix.alphabet.length ^ width) j'
      omega
    · intro key hkey
      obtain ⟨j, -, rfl⟩ := List.mem_map.mp hkey
      refine ⟨isKey_encodeFixed (spread_mod_ne_zero _ _ _) (by omega), ?_⟩
      rwa [length_encodeFixed]

/-- It returns while a safe key space is left. -/
theorem exists_rebalance {count width : Nat} (htwo : 2 ≤ width) (hfuel : width < 66)
    (hroom : 2 * (count + 1) ≤ ix.alphabet.length ^ width)
    (hsafe : ix.alphabet.length ^ width ≤ maxSafeInteger) :
    ∃ keys, ix.rebalance count = .ok keys := by
  unfold rebalance
  split
  · exact ⟨[], rfl⟩
  · have hwiden : ∃ chosen, ix.widen (2 * (count + 1)) 64 2 = .ok chosen :=
      exists_widen htwo (by omega) hroom hsafe
    obtain ⟨chosen, hchosen⟩ := hwiden
    exact ⟨_, bind_eq_ok.mpr ⟨chosen, hchosen, rfl⟩⟩

end FractionalIndexer

/-! ## Base62 -/

/-- Rebalanced Base62 keys are at most 8 characters long. -/
theorem length_le_eight {key : JsString} (h : key.length = 2 ∨
    base62.alphabet.length ^ key.length ≤ FractionalIndexer.maxSafeInteger) : key.length ≤ 8 := by
  rcases h with h | h
  · omega
  · by_contra hlong
    have hpow : base62.alphabet.length ^ 9 ≤ base62.alphabet.length ^ key.length :=
      Nat.pow_le_pow_right base62.length_pos (by omega)
    have hunsafe : FractionalIndexer.maxSafeInteger < base62.alphabet.length ^ 9 := by decide
    omega

/-- A column of 10^14 items still has a key for each. -/
theorem exists_rebalancedKeys {count : Nat} (h : 2 * (count + 1) ≤ 62 ^ 8) :
    ∃ keys, PositionService.rebalancedKeys count = .ok keys := by
  have hlength : base62.alphabet.length = 62 := by decide
  have hsafe : base62.alphabet.length ^ 8 ≤ FractionalIndexer.maxSafeInteger := by decide
  refine FractionalIndexer.exists_rebalance (by omega) (by omega) ?_ hsafe
  rwa [hlength]

end FlowLogix.Ordering
