/-
  Ordering/ShortestKey.lean --- a key between two others is as short as can be.

  `midpoint` takes a digit of its own as soon as there is one between the two keys,
  and goes on along a shared digit only where every key between them has to.  So
  `getIntermediateKey` returns a shortest key between its bounds, and a key that fits a
  column can be made just where its result fits.
-/
import FlowLogix.Ordering.Midpoint

set_option autoImplicit false

namespace FlowLogix.Ordering

open FlowLogix.Foundation

namespace FractionalIndexer

variable {ix : FractionalIndexer}

/-! ## Keys without their first digit -/

/-- What is left of a key, if anything is. -/
theorem IsKey.tail {u : CodeUnit} {key : JsString} (h : ix.IsKey (u :: key)) (hne : key ≠ []) :
    ix.IsKey key where
  ne_nil := hne
  digits := fun v hv => h.digits v (List.mem_cons_of_mem u hv)
  last := by
    rw [← List.getLast?_cons_of_ne_nil hne]
    exact h.last

/-- A key that starts with the lowest digit goes on. -/
theorem IsKey.tail_ne_nil {key : JsString} (h : ix.IsKey (ix.zero :: key)) : key ≠ [] := by
  rintro rfl
  exact h.last rfl

theorem IsKey.length_pos {key : JsString} (h : ix.IsKey key) : 0 < key.length :=
  List.length_pos_of_ne_nil h.ne_nil

/-- Below a key that starts with `y`, above what starts no lower than `y`. -/
theorem head_eq_of_between {y z : CodeUnit} {a b key : JsString} (hz : z ∈ ix.alphabet)
    (hhead : a.headD ix.zero = y) (habove : a < z :: key) (hbelow : z :: key < y :: b) :
    z = y ∧ (a = [] ∨ a.tail < key) ∧ key < b := by
  rcases List.cons_lt_cons_iff.mp hbelow with hlt | ⟨rfl, hrest⟩
  · exfalso
    cases a with
    | nil =>
        obtain rfl : ix.zero = y := hhead
        have hne : z ≠ ix.zero := hlt.ne
        exact (zero_lt hz hne).not_gt hlt
    | cons x a =>
        obtain rfl : x = y := hhead
        rcases List.cons_lt_cons_iff.mp habove with hgt | ⟨rfl, -⟩
        · exact hgt.not_gt hlt
        · exact lt_irrefl _ hlt
  · refine ⟨rfl, ?_, hrest⟩
    cases a with
    | nil => exact Or.inl rfl
    | cons x a =>
        obtain rfl : x = z := hhead
        simpa using habove

/-! ## Midpoints -/

/-- No key above `a` is shorter than `midpoint(a, null)`. -/
theorem midpointOpen_shortest {a key other : JsString} (ha : ∀ u ∈ a, u ∈ ix.alphabet)
    (h : ix.midpointOpen a = .ok key) (hother : ix.IsKey other) (habove : a < other) :
    key.length ≤ other.length := by
  induction a generalizing key other with
  | nil =>
      obtain rfl := Except.ok.inj h
      exact hother.length_pos
  | cons x a ih =>
      have hx := ha x List.mem_cons_self
      rw [midpointOpen, rank_eq_ok hx] at h
      by_cases hroom : ix.alphabet.idxOf x + 1 < ix.alphabet.length
      · obtain rfl := Except.ok.inj ((if_pos hroom).symm.trans h)
        exact hother.length_pos
      · replace h := (if_neg hroom).symm.trans h
        obtain ⟨rest, hrest, h⟩ := bind_eq_ok.mp h
        obtain rfl := Except.ok.inj h
        obtain ⟨z, other, rfl⟩ := List.exists_cons_of_ne_nil hother.ne_nil
        have hz := hother.digits z List.mem_cons_self
        rcases List.cons_lt_cons_iff.mp habove with hlt | ⟨rfl, hafter⟩
        · -- no digit is above the highest one
          have hrank := idxOf_lt_idxOf hx hz hlt
          have hlast := List.idxOf_lt_length_of_mem hz
          omega
        · have hne : other ≠ [] := by
            rintro rfl
            simp at hafter
          have hle :=
            ih (fun u hu => ha u (List.mem_cons_of_mem _ hu)) hrest (hother.tail hne) hafter
          simpa using hle

/-- Where `a` and `b` part at adjacent digits and `b` ends there, a key between them
goes on from the digit of `a`. -/
theorem between_adjacent {a other : JsString} {y : CodeUnit} (hy : y ∈ ix.alphabet)
    (hne : a.headD ix.zero ≠ y) {digitA : Nat}
    (hdigitA : (match a with
        | [] => pure 0
        | x :: _ => ix.rank x) = Except.ok digitA)
    (ha : ∀ u ∈ a, u ∈ ix.alphabet) (hadjacent : ix.alphabet.idxOf y ≤ digitA + 1)
    (hother : ix.IsKey other) (habove : a < other) (hbelow : other < [y]) :
    ∃ rest, other = ix.charAt digitA :: rest ∧ ix.IsKey rest ∧ a.tail < rest := by
  obtain ⟨z, other, rfl⟩ := List.exists_cons_of_ne_nil hother.ne_nil
  have hz := hother.digits z List.mem_cons_self
  have hzy : z < y := by
    rcases List.cons_lt_cons_iff.mp hbelow with hlt | ⟨-, hnil⟩
    · exact hlt
    · simp at hnil
  have hrank := idxOf_lt_idxOf hz hy hzy
  cases a with
  | nil =>
      obtain rfl : 0 = digitA := Except.ok.inj hdigitA
      have hzero : z = ix.zero := by
        rw [← charAt_idxOf hz, zero_eq_charAt]
        congr 1
        omega
      subst hzero
      have hrest := hother.tail_ne_nil
      refine ⟨other, by rw [zero_eq_charAt], hother.tail hrest, ?_⟩
      obtain ⟨u, rest, rfl⟩ := List.exists_cons_of_ne_nil hrest
      exact List.nil_lt_cons u rest
  | cons x a =>
      have hx := ha x List.mem_cons_self
      obtain rfl : ix.alphabet.idxOf x = digitA :=
        Except.ok.inj ((rank_eq_ok hx).symm.trans hdigitA)
      rcases List.cons_lt_cons_iff.mp habove with hlt | ⟨rfl, hafter⟩
      · have hgt := idxOf_lt_idxOf hx hz hlt
        omega
      · have hrest : other ≠ [] := by
          rintro rfl
          simp at hafter
        exact ⟨other, by rw [charAt_idxOf hx], hother.tail hrest, hafter⟩

/-- No key between `a` and `b` is shorter than `midpoint(a, b)`. -/
theorem midpointBelow_shortest {a b key other : JsString} (ha : ∀ u ∈ a, u ∈ ix.alphabet)
    (hb : ix.IsKey b) (hlt : a < b) (h : ix.midpointBelow a b = .ok key) (hother : ix.IsKey other)
    (habove : a < other) (hbelow : other < b) : key.length ≤ other.length := by
  induction b generalizing a key other with
  | nil => exact absurd rfl hb.ne_nil
  | cons y b ih =>
      have hy := hb.digits y List.mem_cons_self
      have htail : ∀ u ∈ a.tail, u ∈ ix.alphabet := fun u hu => ha u (List.mem_of_mem_tail hu)
      by_cases hshared : a.headD ix.zero = y
      · -- every key between starts with the shared digit
        rw [midpointBelow, if_neg (not_le.mpr hlt), if_pos hshared] at h
        obtain ⟨rest, hrest, h⟩ := bind_eq_ok.mp h
        obtain rfl := Except.ok.inj h
        obtain ⟨z, other, rfl⟩ := List.exists_cons_of_ne_nil hother.ne_nil
        have hz := hother.digits z List.mem_cons_self
        obtain ⟨rfl, hafter, hunder⟩ := head_eq_of_between hz hshared habove hbelow
        have hgoes : other ≠ [] ∧ a.tail < other := by
          rcases hafter with rfl | hafter
          · obtain rfl : ix.zero = z := hshared
            have hne := hother.tail_ne_nil
            obtain ⟨u, rest, rfl⟩ := List.exists_cons_of_ne_nil hne
            exact ⟨hne, List.nil_lt_cons u rest⟩
          · refine ⟨?_, hafter⟩
            rintro rfl
            simp at hafter
        have hb' : b ≠ [] := by
          rintro rfl
          simp at hunder
        have hle := ih htail (hb.tail hb') (hgoes.2.trans hunder) hrest (hother.tail hgoes.1)
          hgoes.2 hunder
        simpa using hle
      · obtain ⟨digitA, hdigitA, -⟩ := splitDigit hy ha hshared hlt
        rw [midpointBelow_eq hy hshared hlt hdigitA] at h
        split at h
        · obtain rfl := Except.ok.inj h
          exact hother.length_pos
        · rename_i hroom
          split at h
          · obtain rfl := Except.ok.inj h
            exact hother.length_pos
          · rename_i hnil
            obtain rfl := not_not.mp hnil
            obtain ⟨tail, hopen, -⟩ := midpointOpen_spec htail
            rw [hopen] at h
            obtain rfl := Except.ok.inj h
            obtain ⟨rest, rfl, hrest, hafter⟩ :=
              between_adjacent hy hshared hdigitA ha (by omega) hother habove hbelow
            have hle := midpointOpen_shortest htail hopen hrest hafter
            simpa using hle

/-! ## `getIntermediateKey` -/

theorem checkBetween_eq {key key' : JsString} {prev next : Option JsString}
    (h : checkBetween key prev next = .ok key') : key' = key := by
  unfold checkBetween at h
  split at h
  · cases h
  · exact (Except.ok.inj h).symm

/-- No key between the bounds is shorter than the one `getIntermediateKey` returns. -/
theorem getIntermediateKey_shortest {prev next : Option JsString} {key other : JsString}
    (h : ix.getIntermediateKey prev next = .ok key) (hother : ix.IsKey other)
    (habove : ∀ p, prev = some p → p < other) (hbelow : ∀ n, next = some n → other < n) :
    key.length ≤ other.length := by
  have horder := inOrder_of_getIntermediateKey h
  unfold getIntermediateKey at h
  cases prev with
  | none =>
      cases next with
      | none =>
          obtain rfl := Except.ok.inj h
          exact hother.length_pos
      | some n =>
          have hn := horder.valid_next n rfl
          have hkey := isKey_of_isValidKey hn
          have hpos : ∀ k : JsString, k ≠ [] → [] < k := by
            intro k hk
            obtain ⟨u, rest, rfl⟩ := List.exists_cons_of_ne_nil hk
            exact List.nil_lt_cons u rest
          obtain ⟨_, -, h⟩ := bind_eq_ok.mp h
          simp only [Option.any_none, Bool.false_eq_true, if_false, Option.getD_none] at h
          obtain ⟨minted, hminted, h⟩ := bind_eq_ok.mp h
          rw [checkBetween_eq h]
          exact midpointBelow_shortest (List.forall_mem_nil _) hkey (hpos n hkey.ne_nil) hminted
            hother (hpos other hother.ne_nil) (hbelow n rfl)
  | some p =>
      have hp := horder.valid_prev p rfl
      have hdigits := (isKey_of_isValidKey hp).digits
      cases next with
      | none =>
          obtain ⟨_, -, h⟩ := bind_eq_ok.mp h
          obtain ⟨minted, hminted, h⟩ := bind_eq_ok.mp h
          rw [checkBetween_eq h]
          exact midpointOpen_shortest hdigits hminted hother (habove p rfl)
      | some n =>
          have hn := horder.valid_next n rfl
          have hlt := horder.lt p n rfl rfl
          obtain ⟨_, -, h⟩ := bind_eq_ok.mp h
          obtain ⟨_, -, h⟩ := bind_eq_ok.mp h
          have hnot : decide (n ≤ p) = false := decide_eq_false (not_le.mpr hlt)
          simp only [Option.any_some, hnot, Bool.false_eq_true, if_false, Option.getD_some] at h
          obtain ⟨minted, hminted, h⟩ := bind_eq_ok.mp h
          rw [checkBetween_eq h]
          exact midpointBelow_shortest hdigits (isKey_of_isValidKey hn) hlt hminted hother
            (habove p rfl) (hbelow n rfl)

/-- A key without surrogates has as many code points as code units. -/
theorem IsKey.charLength_eq (hplain : ix.Plain) {key : JsString} (h : ix.IsKey key) :
    charLength key = key.length := by
  have hdigits := h.digits
  clear h
  unfold charLength
  induction key using codePoints.induct with
  | case1 => rfl
  | case2 u => rfl
  | case3 u v rest hpair ih =>
      rw [hplain u (hdigits u List.mem_cons_self)] at hpair
      simp at hpair
  | case4 u v rest hpair ih =>
      rw [codePoints, if_neg hpair, List.length_cons, List.length_cons,
        ih fun w hw => hdigits w (List.mem_cons_of_mem u hw)]

end FractionalIndexer

end FlowLogix.Ordering
