/-
  Ordering/Midpoint.lean --- there is room between any two keys.

  `IsKey` is what `isValidKey` checks, without the detour over code points.  The
  two halves of `midpoint` never throw between two keys that are in order, and
  return a key that lies strictly between them; so does `getIntermediateKey`,
  whose closing check is then redundant.
-/
import FlowLogix.Foundation.Run
import FlowLogix.Ordering.FractionalIndexer

set_option autoImplicit false

namespace FlowLogix.Ordering

open FlowLogix.Foundation

namespace FractionalIndexer

variable {ix : FractionalIndexer}

/-! ## Digits -/

theorem length_pos (ix : FractionalIndexer) : 0 < ix.alphabet.length :=
  Nat.lt_of_lt_of_le (by omega) ix.two_le_length

theorem charAt_eq_getElem {i : Nat} (hi : i < ix.alphabet.length) :
    ix.charAt i = ix.alphabet[i] := by
  simp [charAt, hi]

theorem charAt_mem {i : Nat} (hi : i < ix.alphabet.length) : ix.charAt i ∈ ix.alphabet := by
  rw [charAt_eq_getElem hi]
  exact List.getElem_mem hi

/-- Greater digits have greater characters. -/
theorem charAt_lt_charAt {i j : Nat} (hij : i < j) (hj : j < ix.alphabet.length) :
    ix.charAt i < ix.charAt j := by
  rw [charAt_eq_getElem hj, charAt_eq_getElem (hij.trans hj)]
  exact List.pairwise_iff_getElem.mp ix.sorted i j (hij.trans hj) hj hij

theorem zero_eq_charAt : ix.zero = ix.charAt 0 := by
  rw [zero, charAt]
  cases ix.alphabet <;> rfl

theorem charAt_ne_zero {i : Nat} (h0 : 0 < i) (hi : i < ix.alphabet.length) :
    ix.charAt i ≠ ix.zero := by
  rw [zero_eq_charAt]
  exact (charAt_lt_charAt h0 hi).ne'

theorem charAt_idxOf {u : CodeUnit} (hu : u ∈ ix.alphabet) :
    ix.charAt (ix.alphabet.idxOf u) = u := by
  have hlt := List.idxOf_lt_length_of_mem hu
  rw [charAt_eq_getElem hlt]
  exact List.getElem_idxOf hlt

theorem rank_eq_ok {u : CodeUnit} (hu : u ∈ ix.alphabet) :
    ix.rank u = .ok (ix.alphabet.idxOf u) := if_pos hu

/-- Greater characters have greater digits. -/
theorem idxOf_lt_idxOf {u v : CodeUnit} (hu : u ∈ ix.alphabet) (hv : v ∈ ix.alphabet)
    (h : u < v) : ix.alphabet.idxOf u < ix.alphabet.idxOf v := by
  by_contra hnot
  rcases Nat.lt_or_eq_of_le (not_lt.mp hnot) with hlt | heq
  · have hgt := charAt_lt_charAt hlt (List.idxOf_lt_length_of_mem hu)
    rw [charAt_idxOf hu, charAt_idxOf hv] at hgt
    exact absurd h hgt.not_gt
  · have hsame := congrArg ix.charAt heq
    rw [charAt_idxOf hu, charAt_idxOf hv] at hsame
    exact absurd hsame h.ne'

/-- The lowest character is below every other one. -/
theorem zero_lt {u : CodeUnit} (hu : u ∈ ix.alphabet) (h : u ≠ ix.zero) : ix.zero < u := by
  have hpos : 0 < ix.alphabet.idxOf u := by
    refine Nat.pos_of_ne_zero fun hzero => h ?_
    rw [← charAt_idxOf hu, hzero, zero_eq_charAt]
  rw [zero_eq_charAt, ← charAt_idxOf hu]
  exact charAt_lt_charAt hpos (List.idxOf_lt_length_of_mem hu)

/-! ## Keys -/

/-- A key: one or more digits, the last of them not the lowest. -/
structure IsKey (ix : FractionalIndexer) (key : JsString) : Prop where
  ne_nil : key ≠ []
  digits : ∀ u ∈ key, u ∈ ix.alphabet
  last : key.getLast? ≠ some ix.zero

/-- No character is half of a surrogate pair. -/
def Plain (ix : FractionalIndexer) : Prop := ∀ u ∈ ix.alphabet, isHighSurrogate u = false

/-- No two characters make a surrogate pair. -/
def Unpaired (ix : FractionalIndexer) : Prop :=
  ∀ u ∈ ix.alphabet, ∀ v ∈ ix.alphabet, (isHighSurrogate u && isLowSurrogate v) = false

theorem Plain.unpaired (h : ix.Plain) : ix.Unpaired := by
  intro u hu v _
  rw [h u hu, Bool.false_and]

theorem digits_of_codePoints {key : JsString} (h : (codePoints key).all ix.hasChar = true) :
    ∀ u ∈ key, u ∈ ix.alphabet := by
  induction key using codePoints.induct with
  | case1 => simp
  | case2 u =>
      intro v hv
      obtain rfl := List.mem_singleton.mp hv
      simpa [codePoints, hasChar] using h
  | case3 u v rest hpair ih => simp [codePoints, hpair, hasChar] at h
  | case4 u v rest hpair ih =>
      rw [codePoints, if_neg hpair, List.all_cons, Bool.and_eq_true] at h
      intro w hw
      rcases List.mem_cons.mp hw with rfl | hw
      · simpa [hasChar] using h.1
      · exact ih h.2 w hw

theorem codePoints_all (hunpaired : ix.Unpaired) {key : JsString}
    (h : ∀ u ∈ key, u ∈ ix.alphabet) : (codePoints key).all ix.hasChar = true := by
  induction key using codePoints.induct with
  | case1 => rfl
  | case2 u => simpa [codePoints, hasChar] using h
  | case3 u v rest hpair ih =>
      have hv : v ∈ ix.alphabet := h v (by simp)
      rw [hunpaired u (h u List.mem_cons_self) v hv] at hpair
      cases hpair
  | case4 u v rest hpair ih =>
      rw [codePoints, if_neg hpair, List.all_cons, Bool.and_eq_true]
      refine ⟨?_, ih fun w hw => h w (List.mem_cons_of_mem _ hw)⟩
      simpa [hasChar] using h u List.mem_cons_self

theorem isKey_of_isValidKey {key : JsString} (h : ix.isValidKey key = true) : ix.IsKey key := by
  simp only [isValidKey, Bool.and_eq_true, decide_eq_true_eq] at h
  obtain ⟨⟨hne, hall⟩, hlast⟩ := h
  exact ⟨by simpa using hne, digits_of_codePoints hall, hlast⟩

theorem IsKey.isValidKey_of_unpaired (hunpaired : ix.Unpaired) {key : JsString}
    (h : ix.IsKey key) : ix.isValidKey key = true := by
  simp only [FractionalIndexer.isValidKey, Bool.and_eq_true, decide_eq_true_eq]
  exact ⟨⟨by simpa using h.ne_nil, codePoints_all hunpaired h.digits⟩, h.last⟩

theorem IsKey.isValidKey (hplain : ix.Plain) {key : JsString} (h : ix.IsKey key) :
    ix.isValidKey key = true :=
  h.isValidKey_of_unpaired hplain.unpaired

/-- `assertValidKey` throws exactly where `isValidKey` is false. -/
theorem assertValidKey_eq_ok {key label : JsString} :
    ix.assertValidKey key label = .ok () ↔ ix.isValidKey key = true := by
  unfold assertValidKey isValidKey
  by_cases hempty : key.isEmpty
  · simp [hempty]
  · rw [if_neg hempty]
    cases hfind : (codePoints key).find? fun c => !ix.hasChar c with
    | some c =>
        have hbad := List.find?_some hfind
        have hmem := List.mem_of_find?_eq_some hfind
        have hall : (codePoints key).all ix.hasChar = false :=
          List.all_eq_false.mpr ⟨c, hmem, by simpa using hbad⟩
        simp [hall]
    | none =>
        have hall : (codePoints key).all ix.hasChar = true := by
          rw [List.all_eq_true]
          intro c hc
          simpa using List.find?_eq_none.mp hfind c hc
        by_cases hlast : key.getLast? = some ix.zero
        · simp [hlast]
        · simp [hlast, hall, hempty]

/-- A first digit before a key. -/
theorem IsKey.cons {u : CodeUnit} {key : JsString} (h : ix.IsKey key) (hu : u ∈ ix.alphabet) :
    ix.IsKey (u :: key) where
  ne_nil := List.cons_ne_nil u key
  digits := List.forall_mem_cons.mpr ⟨hu, h.digits⟩
  last := by
    rw [List.getLast?_cons_of_ne_nil h.ne_nil]
    exact h.last

/-- One digit that is not the lowest. -/
theorem isKey_singleton {i : Nat} (h0 : 0 < i) (hi : i < ix.alphabet.length) :
    ix.IsKey [ix.charAt i] where
  ne_nil := List.cons_ne_nil _ _
  digits := List.forall_mem_singleton.mpr (charAt_mem hi)
  last := by
    intro h
    exact charAt_ne_zero h0 hi (Option.some.inj h)

/-! ## Midpoints -/

/-- The digit halfway between two that are not adjacent. -/
theorem roundHalf_between {digitA digitB : Nat} (h : digitA + 1 < digitB) :
    digitA < roundHalf digitA digitB ∧ roundHalf digitA digitB < digitB := by
  unfold roundHalf
  omega

/-- `midpoint(a, null)` returns a key above `a`. -/
theorem midpointOpen_spec {a : JsString} (ha : ∀ u ∈ a, u ∈ ix.alphabet) :
    ∃ key, ix.midpointOpen a = .ok key ∧ ix.IsKey key ∧ a < key := by
  induction a with
  | nil =>
      have htwo := ix.two_le_length
      obtain ⟨hlo, hhi⟩ : 0 < roundHalf 0 ix.alphabet.length ∧
          roundHalf 0 ix.alphabet.length < ix.alphabet.length := by
        unfold roundHalf
        omega
      exact ⟨_, rfl, isKey_singleton hlo hhi, List.nil_lt_cons _ _⟩
  | cons x a ih =>
      have hx := ha x List.mem_cons_self
      have hlt := List.idxOf_lt_length_of_mem hx
      rw [midpointOpen, rank_eq_ok hx]
      by_cases hroom : ix.alphabet.idxOf x + 1 < ix.alphabet.length
      · obtain ⟨hlo, hhi⟩ := roundHalf_between hroom
        refine ⟨_, if_pos hroom, isKey_singleton (by omega) hhi, ?_⟩
        have habove := charAt_lt_charAt hlo hhi
        rw [charAt_idxOf hx] at habove
        exact cons_lt_of_head_lt habove _ _
      · obtain ⟨rest, hrest, hkey, habove⟩ := ih fun u hu => ha u (List.mem_cons_of_mem _ hu)
        refine ⟨x :: rest, ?_, hkey.cons hx, List.cons_lt_cons_iff.mpr (Or.inr ⟨rfl, habove⟩)⟩
        show (if _ then _ else _) = _
        rw [if_neg hroom, hrest, charAt_idxOf hx]
        rfl

/-- The digits `midpoint` compares where `a` and `b` part: that of `a` is lower,
and a key that starts above it, or with it and goes on above `a`, is above `a`. -/
theorem splitDigit {a b : JsString} {y : CodeUnit} (hy : y ∈ ix.alphabet)
    (ha : ∀ u ∈ a, u ∈ ix.alphabet) (hne : a.headD ix.zero ≠ y) (hlt : a < y :: b) :
    ∃ digitA, (match a with
        | [] => pure 0
        | x :: _ => ix.rank x) = Except.ok digitA ∧
      digitA < ix.alphabet.idxOf y ∧
      (∀ c rest, ix.charAt digitA < c → a < c :: rest) ∧
      ∀ rest, a.tail < rest → a < ix.charAt digitA :: rest := by
  cases a with
  | nil =>
      refine ⟨0, rfl, Nat.pos_of_ne_zero fun hzero => hne ?_,
        fun _ _ _ => List.nil_lt_cons _ _, fun _ _ => List.nil_lt_cons _ _⟩
      rw [List.headD_nil, ← charAt_idxOf hy, hzero, zero_eq_charAt]
  | cons x a =>
      have hx := ha x List.mem_cons_self
      have hxy : x < y := by
        rcases List.cons_lt_cons_iff.mp hlt with h | ⟨rfl, -⟩
        · exact h
        · exact absurd rfl hne
      refine ⟨ix.alphabet.idxOf x, rank_eq_ok hx, idxOf_lt_idxOf hx hy hxy, ?_, ?_⟩
      · intro c rest hc
        rw [charAt_idxOf hx] at hc
        exact cons_lt_of_head_lt hc _ _
      · intro rest hrest
        rw [charAt_idxOf hx]
        exact List.cons_lt_cons_iff.mpr (Or.inr ⟨rfl, hrest⟩)

/-- One step of `midpoint(a, b)` where `a` and `b` part. -/
theorem midpointBelow_eq {a b : JsString} {y : CodeUnit} (hy : y ∈ ix.alphabet)
    (hne : a.headD ix.zero ≠ y) (hlt : a < y :: b) {digitA : Nat}
    (hdigitA : (match a with
        | [] => pure 0
        | x :: _ => ix.rank x) = Except.ok digitA) :
    ix.midpointBelow a (y :: b) =
      if digitA + 1 < ix.alphabet.idxOf y then
        .ok [ix.charAt (roundHalf digitA (ix.alphabet.idxOf y))]
      else if b ≠ [] then .ok [y]
      else (ix.midpointOpen a.tail).map (ix.charAt digitA :: ·) := by
  rw [midpointBelow, if_neg (not_le.mpr hlt), if_neg hne, rank_eq_ok hy]
  have hbind : ∀ (x : Except Message JsString) (f : JsString → JsString),
      (x >>= fun rest => pure (f rest)) = x.map f := by
    intro x f
    cases x <;> rfl
  cases a with
  | nil =>
      obtain rfl := Except.ok.inj hdigitA
      rw [← hbind]
      rfl
  | cons x a =>
      have hrank : ix.rank x = .ok digitA := hdigitA
      rw [← hbind]
      simp only [hrank]
      rfl

/-- `midpoint(a, b)` returns a key between `a` and `b`.  The induction is on `b`;
where `a` has run out it is padded with the lowest digit. -/
theorem midpointBelow_spec {a b : JsString} (ha : ∀ u ∈ a, u ∈ ix.alphabet) (hb : ix.IsKey b)
    (hlt : a < b) : ∃ key, ix.midpointBelow a b = .ok key ∧ ix.IsKey key ∧ a < key ∧ key < b := by
  induction b generalizing a with
  | nil => exact absurd rfl hb.ne_nil
  | cons y b ih =>
      have hy := hb.digits y List.mem_cons_self
      have htail : ∀ u ∈ a.tail, u ∈ ix.alphabet := fun u hu => ha u (List.mem_of_mem_tail hu)
      have hrest : b ≠ [] → ix.IsKey b := fun hne =>
        ⟨hne, fun u hu => hb.digits u (List.mem_cons_of_mem _ hu), by
          rw [← List.getLast?_cons_of_ne_nil hne]
          exact hb.last⟩
      by_cases hshared : a.headD ix.zero = y
      · -- one shared digit
        rw [midpointBelow, if_neg (not_le.mpr hlt), if_pos hshared]
        have hne : b ≠ [] := by
          rintro rfl
          cases a with
          | nil => exact hb.last (congrArg some hshared.symm)
          | cons x a =>
              obtain rfl : x = y := hshared
              simp at hlt
        have hbelow : a.tail < b := by
          cases a with
          | nil =>
              obtain ⟨z, b, rfl⟩ := List.exists_cons_of_ne_nil hne
              exact List.nil_lt_cons _ _
          | cons x a =>
              obtain rfl : x = y := hshared
              simpa [List.cons_lt_cons_iff] using hlt
        obtain ⟨rest, hok, hkey, habove, hunder⟩ := ih htail (hrest hne) hbelow
        refine ⟨y :: rest, ?_, hkey.cons hy, ?_, List.cons_lt_cons_iff.mpr (Or.inr ⟨rfl, hunder⟩)⟩
        · rw [hok]
          rfl
        · cases a with
          | nil => exact List.nil_lt_cons _ _
          | cons x a =>
              obtain rfl : x = y := hshared
              exact List.cons_lt_cons_iff.mpr (Or.inr ⟨rfl, habove⟩)
      · obtain ⟨digitA, hdigitA, hlow, hhead, htailLt⟩ := splitDigit hy ha hshared hlt
        have hdigitB := List.idxOf_lt_length_of_mem hy
        have hstep := midpointBelow_eq hy hshared hlt hdigitA
        by_cases hroom : digitA + 1 < ix.alphabet.idxOf y
        · -- a digit of its own
          obtain ⟨hlo, hhi⟩ := roundHalf_between hroom
          have hunder := charAt_lt_charAt hhi hdigitB
          rw [charAt_idxOf hy] at hunder
          refine ⟨_, hstep.trans (if_pos hroom), isKey_singleton (by omega) (by omega), ?_,
            cons_lt_of_head_lt hunder _ _⟩
          exact hhead _ _ (charAt_lt_charAt hlo (by omega))
        · have hbelow := charAt_lt_charAt hlow hdigitB
          rw [charAt_idxOf hy] at hbelow
          rw [if_neg hroom] at hstep
          by_cases hne : b = []
          · -- below `y`, above the rest of `a`
            obtain ⟨rest, hok, hkey, habove⟩ := midpointOpen_spec htail
            rw [if_neg (not_not.mpr hne), hok] at hstep
            exact ⟨_, hstep, hkey.cons (charAt_mem (by omega)), htailLt rest habove,
              cons_lt_of_head_lt hbelow _ _⟩
          · -- `b` cut to its first digit
            have hykey : ix.IsKey [y] := by
              have hkey := isKey_singleton (Nat.zero_lt_of_lt hlow) hdigitB
              rwa [charAt_idxOf hy] at hkey
            obtain ⟨z, b, rfl⟩ := List.exists_cons_of_ne_nil hne
            exact ⟨_, hstep.trans (if_pos hne), hykey, hhead y [] hbelow,
              List.cons_lt_cons_iff.mpr (Or.inr ⟨rfl, List.nil_lt_cons _ _⟩)⟩

/-! ## `getIntermediateKey` -/

theorem checkBetween_eq_ok {key : JsString} {prev next : Option JsString}
    (hprev : ∀ p, prev = some p → p < key) (hnext : ∀ n, next = some n → key < n) :
    checkBetween key prev next = .ok key := by
  refine if_neg fun h => ?_
  rcases Bool.or_eq_true_iff.mp h with h | h
  · obtain ⟨p, hp, hle⟩ := (Option.any_eq_true _ _).mp h
    exact absurd (of_decide_eq_true hle) (hprev p hp).not_ge
  · obtain ⟨n, hn, hle⟩ := (Option.any_eq_true _ _).mp h
    exact absurd (of_decide_eq_true hle) (hnext n hn).not_ge

/-- The seed is a key. -/
theorem isKey_seed (ix : FractionalIndexer) : ix.IsKey [ix.seed] where
  ne_nil := List.cons_ne_nil _ _
  digits := List.forall_mem_singleton.mpr ix.seed_mem
  last := by
    intro h
    have hzero : ix.seed = ix.zero := Option.some.inj h
    apply ix.seed_ne_zero
    have hmem := ix.seed_mem
    rw [hzero, zero] at hmem ⊢
    cases hletters : ix.alphabet with
    | nil => simp [hletters] at hmem
    | cons first rest => rfl

/-- What `getIntermediateKey` asserts of its bounds. -/
structure InOrder (ix : FractionalIndexer) (prev next : Option JsString) : Prop where
  valid_prev : ∀ p, prev = some p → ix.isValidKey p = true
  valid_next : ∀ n, next = some n → ix.isValidKey n = true
  lt : ∀ p n, prev = some p → next = some n → p < n

/-- `getIntermediateKey` returns only for bounds that are in order. -/
theorem inOrder_of_getIntermediateKey {prev next : Option JsString} {key : JsString}
    (h : ix.getIntermediateKey prev next = .ok key) : ix.InOrder prev next := by
  unfold getIntermediateKey at h
  cases prev with
  | none =>
      cases next with
      | none => exact ⟨nofun, nofun, nofun⟩
      | some n =>
          obtain ⟨_, hn, -⟩ := bind_eq_ok.mp h
          refine ⟨nofun, ?_, nofun⟩
          rintro _ ⟨⟩
          exact assertValidKey_eq_ok.mp hn
  | some p =>
      obtain ⟨_, hp, h⟩ := bind_eq_ok.mp h
      have hvalid := assertValidKey_eq_ok.mp hp
      cases next with
      | none =>
          refine ⟨?_, nofun, nofun⟩
          rintro _ ⟨⟩
          exact hvalid
      | some n =>
          obtain ⟨_, hn, h⟩ := bind_eq_ok.mp h
          by_cases hle : n ≤ p
          · simp [hle] at h
            obtain ⟨_, ⟨⟩, -⟩ := bind_eq_ok.mp h
          · refine ⟨?_, ?_, ?_⟩
            · rintro _ ⟨⟩
              exact hvalid
            · rintro _ ⟨⟩
              exact assertValidKey_eq_ok.mp hn
            · rintro _ _ ⟨⟩ ⟨⟩
              exact not_le.mp hle

/-- **There is always room between two keys**: `getIntermediateKey` does not throw
on bounds that are in order, and returns a key strictly between them. -/
theorem InOrder.getIntermediateKey {prev next : Option JsString} (h : ix.InOrder prev next) :
    ∃ key, ix.getIntermediateKey prev next = .ok key ∧ ix.IsKey key ∧
      (∀ p, prev = some p → p < key) ∧ ∀ n, next = some n → key < n := by
  unfold FractionalIndexer.getIntermediateKey
  cases prev with
  | none =>
      cases next with
      | none => exact ⟨_, rfl, ix.isKey_seed, nofun, nofun⟩
      | some n =>
          have hn := h.valid_next n rfl
          have hkey := isKey_of_isValidKey hn
          have hpos : ([] : JsString) < n := by
            obtain ⟨u, rest, rfl⟩ := List.exists_cons_of_ne_nil hkey.ne_nil
            exact List.nil_lt_cons u rest
          obtain ⟨key, hok, hkey, -, hunder⟩ := midpointBelow_spec (List.forall_mem_nil _) hkey hpos
          have hnext : ∀ n', some n = some n' → key < n' := by
            rintro _ ⟨⟩
            exact hunder
          refine ⟨key, ?_, hkey, nofun, hnext⟩
          simp only [assertValidKey_eq_ok.mpr hn, Option.getD_none, hok]
          exact checkBetween_eq_ok nofun hnext
  | some p =>
      have hp := h.valid_prev p rfl
      cases next with
      | none =>
          obtain ⟨key, hok, hkey, habove⟩ := midpointOpen_spec (isKey_of_isValidKey hp).digits
          have hprev : ∀ p', some p = some p' → p' < key := by
            rintro _ ⟨⟩
            exact habove
          refine ⟨key, ?_, hkey, hprev, nofun⟩
          simp only [assertValidKey_eq_ok.mpr hp, hok]
          exact checkBetween_eq_ok hprev nofun
      | some n =>
          have hn := h.valid_next n rfl
          have hlt := h.lt p n rfl rfl
          obtain ⟨key, hok, hkey, habove, hunder⟩ :=
            midpointBelow_spec (isKey_of_isValidKey hp).digits (isKey_of_isValidKey hn) hlt
          have hprev : ∀ p', some p = some p' → p' < key := by
            rintro _ ⟨⟩
            exact habove
          have hnext : ∀ n', some n = some n' → key < n' := by
            rintro _ ⟨⟩
            exact hunder
          refine ⟨key, ?_, hkey, hprev, hnext⟩
          have hnot : decide (n ≤ p) = false := decide_eq_false (not_le.mpr hlt)
          simp only [assertValidKey_eq_ok.mpr hp, assertValidKey_eq_ok.mpr hn, Option.any_some,
            hnot, Option.getD_some, hok]
          exact checkBetween_eq_ok hprev hnext

/-- What `getIntermediateKey` returns is a key. -/
theorem isKey_of_getIntermediateKey {prev next : Option JsString} {key : JsString}
    (h : ix.getIntermediateKey prev next = .ok key) : ix.IsKey key := by
  obtain ⟨key', hok, hkey, -⟩ := (inOrder_of_getIntermediateKey h).getIntermediateKey
  rw [h] at hok
  exact Except.ok.inj hok ▸ hkey

end FractionalIndexer

/-- Base62 has no surrogates. -/
theorem base62_plain : base62.Plain := by
  have hall : base62Alphabet.all (fun u => !isHighSurrogate u) = true := by decide
  intro u hu
  simpa using List.all_eq_true.mp hall u hu

end FlowLogix.Ordering
