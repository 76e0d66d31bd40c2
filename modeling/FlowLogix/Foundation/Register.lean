/-
  Foundation/Register.lean --- last-writer-wins registers as linear orders.

  A register holds a value and the clock that wrote it, and the later clock
  wins; when two clocks tie, some order on values decides.  Seen through the
  pair `(clock, key of the value)` in lexicographic order, "keep the winner" is
  `max`, so a record of registers is a point of a semilattice and merging is its
  join.  `Stamp` is that pair for a field, whose value is compared by its
  canonical JSON text; `Tomb` is the pair for a deletion stamp that may be
  `null` and is compared as `deletedAt ?? 0`.

  Clocks live in any linear order with a zero: the merges only compare them with
  each other and with 0.

  Fields and clocks are read as own properties here.  The code's `fields[key]` and
  `clocks[key] ?? 0` also read the members of `Object.prototype`; `PlainRegister.lean`
  reads them so, and shows where the two readings come to the same.
-/
import FlowLogix.Foundation.Json
import FlowLogix.Foundation.Dict

set_option autoImplicit false

namespace FlowLogix.Foundation

variable {K : Type}

/-! ## Field registers -/

/-- A field register: its clock, then the canonical text of its value. -/
abbrev Stamp (K : Type) : Type := K ×ₗ JsString

/-- Reading a clock map of own properties: an absent clock is 0. -/
def readClock [Zero K] (clocks : JsObject K) (key : String) : K :=
  (clocks.lookup key).getD 0

/-- Reading a field map of own properties: an absent field, and one that holds
`undefined`, reads as `undefined`. -/
def readField (fields : JsObject (Option Json)) (key : String) : Option Json :=
  (fields.lookup key).join

/-- The register of one field. -/
def stampOf [Zero K] (fields : JsObject (Option Json)) (clocks : JsObject K)
    (key : String) : Stamp K :=
  toLex (readClock clocks key, canonicalJson (readField fields key))

section

variable [Zero K] {fields : JsObject (Option Json)} {clocks : JsObject K} {key : String}

theorem readClock_of_lookup {c : K} (h : clocks.lookup key = some c) :
    readClock clocks key = c := by
  simp [readClock, h]

theorem readClock_of_not_mem (h : key ∉ clocks) : readClock clocks key = 0 := by
  simp [readClock, AList.lookup_eq_none.mpr h]

theorem readField_of_lookup {v : Option Json} (h : fields.lookup key = some v) :
    readField fields key = v := by
  simp [readField, h]

theorem readField_of_not_mem (h : key ∉ fields) : readField fields key = none := by
  simp [readField, AList.lookup_eq_none.mpr h]

/-- A field neither map mentions is the zero register. -/
theorem stampOf_of_not_mem (hf : key ∉ fields) (hc : key ∉ clocks) :
    stampOf fields clocks key = toLex (0, js "null") := by
  simp [stampOf, readClock_of_not_mem hc, readField_of_not_mem hf]

end

/-- The clock of a joined register is the later clock. -/
theorem clock_sup [LinearOrder K] (a b : Stamp K) :
    (ofLex (a ⊔ b)).1 = max (ofLex a).1 (ofLex b).1 :=
  Prod.Lex.monotone_fst_ofLex.map_sup a b

/-- The newest clock of a map, bounded key by key. -/
theorem mathMax_le_iff [LinearOrder K] [Zero K] {clocks : JsObject K} {x : K} :
    clocks.mathMax ≤ x ↔ 0 ≤ x ∧ ∀ key, readClock clocks key ≤ x := by
  rw [Dict.mathMax_le_iff]
  refine and_congr_right fun h0 => ⟨fun h key => ?_, fun h key c hc => ?_⟩
  · rw [readClock]
    cases hc : clocks.lookup key with
    | none => exact h0
    | some c => exact h key c hc
  · exact readClock_of_lookup hc ▸ h key

/-! ## Deletion registers -/

/-- A deletion register: `deletedAt ?? 0`, then whether there is a stamp at
all. -/
abbrev Tomb (K : Type) : Type := K ×ₗ Bool

/-- The register of a deletion stamp.  A stamp of 0 beats `null`, `null` beats a
negative stamp. -/
def tombOf [Zero K] (deletedAt : Option K) : Tomb K :=
  toLex (deletedAt.getD 0, deletedAt.isSome)

theorem tombOf_injective [Zero K] : Function.Injective (tombOf (K := K)) := by
  intro a b h
  have hpair : (a.getD 0, a.isSome) = (b.getD 0, b.isSome) := toLex.injective h
  cases a <;> cases b <;> simp_all

/-- Among positive stamps, comparing `deletedAt ?? 0` compares the registers. -/
theorem tombOf_le_of_getD_le [LinearOrder K] [Zero K] {a b : Option K}
    (ha : ∀ d, a = some d → 0 < d) (h : a.getD 0 ≤ b.getD 0) : tombOf a ≤ tombOf b := by
  rcases h.lt_or_eq with hlt | heq
  · exact Prod.Lex.toLex_le_toLex.mpr (Or.inl hlt)
  · refine Prod.Lex.toLex_le_toLex.mpr (Or.inr ⟨heq, ?_⟩)
    cases a with
    | none => exact Bool.false_le _
    | some d =>
        cases b with
        | none => exact absurd heq (ha d rfl).ne'
        | some e => exact le_rfl

/-- Order of two field values by their canonical JSON text. -/
def compareValues (a b : Option Json) : Int :=
  if canonicalJson a < canonicalJson b then -1
  else if canonicalJson a > canonicalJson b then 1
  else 0

theorem compareValues_eq_zero_iff (a b : Option Json) :
    compareValues a b = 0 ↔ canonicalJson a = canonicalJson b := by
  unfold compareValues
  split
  · rename_i h
    exact iff_of_false (by decide) h.ne
  · split
    · rename_i h
      exact iff_of_false (by decide) (ne_of_gt h)
    · rename_i h h'
      exact iff_of_true rfl (le_antisymm (not_lt.mp h') (not_lt.mp h))

theorem compareValues_pos_iff (a b : Option Json) :
    0 < compareValues a b ↔ canonicalJson b < canonicalJson a := by
  unfold compareValues
  split
  · rename_i h
    exact iff_of_false (by decide) h.not_gt
  · split
    · rename_i h
      exact iff_of_true (by decide) h
    · rename_i h
      exact iff_of_false (by decide) h

section Choice

variable [LinearOrder K] {ω : Type}

/-- The winner of two field registers: the later clock, then the greater value;
`equal` when neither is greater. -/
def pickWinner (left right equal : ω) (lClock : K) (lValue : Option Json) (rClock : K)
    (rValue : Option Json) : ω :=
  if lClock ≠ rClock then (if lClock > rClock then left else right)
  else if compareValues lValue rValue = 0 then equal
  else if compareValues lValue rValue > 0 then left
  else right

/-- The right side is picked exactly when its register is the greater one. -/
theorem pickWinner_eq_right_iff {left right equal : ω} (hl : left ≠ right)
    (he : equal ≠ right) (lClock rClock : K) (lValue rValue : Option Json) :
    pickWinner left right equal lClock lValue rClock rValue = right ↔
      toLex (lClock, canonicalJson lValue) < toLex (rClock, canonicalJson rValue) := by
  have hzero := compareValues_eq_zero_iff lValue rValue
  have hpos := compareValues_pos_iff lValue rValue
  rw [Prod.Lex.toLex_lt_toLex]
  unfold pickWinner
  by_cases hc : lClock = rClock
  · rw [if_neg (not_not.mpr hc)]
    by_cases heq : canonicalJson lValue = canonicalJson rValue
    · simp [hzero.mpr heq, he, hc, heq]
    · rw [if_neg (fun h => heq (hzero.mp h))]
      by_cases hgt : canonicalJson rValue < canonicalJson lValue
      · simp [hpos.mpr hgt, hl, hc, hgt.not_gt]
      · have hlt : canonicalJson lValue < canonicalJson rValue :=
          lt_of_le_of_ne (not_lt.mp hgt) heq
        rw [if_neg (fun h => hgt (hpos.mp h))]
        exact iff_of_true rfl (Or.inr ⟨hc, hlt⟩)
  · rw [if_pos hc]
    by_cases hgt : rClock < lClock
    · simp [hgt, hl, hc, hgt.not_gt]
    · simp [hgt, lt_of_le_of_ne (not_lt.mp hgt) hc]

variable [Zero K]

/-- The later of two deletion stamps, `null` compared as 0; a tie keeps
whichever is non-null. -/
def pickTomb (l r : Option K) : Option K :=
  if l.getD 0 = r.getD 0 then l.orElse fun _ => r
  else if l.getD 0 > r.getD 0 then l
  else r

/-- The stamp kept is the greater register. -/
theorem tombOf_pickTomb (l r : Option K) : tombOf (pickTomb l r) = tombOf l ⊔ tombOf r := by
  unfold pickTomb
  by_cases heq : l.getD 0 = r.getD 0
  · rw [if_pos heq]
    cases l with
    | none =>
        have hle : tombOf none ≤ tombOf r :=
          Prod.Lex.toLex_le_toLex.mpr (Or.inr ⟨heq, Bool.false_le _⟩)
        exact (sup_eq_right.mpr hle).symm
    | some d =>
        have hle : tombOf r ≤ tombOf (some d) :=
          Prod.Lex.toLex_le_toLex.mpr (Or.inr ⟨heq.symm, Bool.le_true _⟩)
        exact (sup_eq_left.mpr hle).symm
  · rw [if_neg heq]
    by_cases hgt : r.getD 0 < l.getD 0
    · have hle : tombOf r ≤ tombOf l := Prod.Lex.toLex_le_toLex.mpr (Or.inl hgt)
      rw [if_pos hgt, sup_eq_left.mpr hle]
    · have hlt : l.getD 0 < r.getD 0 := lt_of_le_of_ne (not_lt.mp hgt) heq
      have hle : tombOf l ≤ tombOf r := Prod.Lex.toLex_le_toLex.mpr (Or.inl hlt)
      rw [if_neg hgt, sup_eq_right.mpr hle]

/-- The stamp kept depends on the two registers only. -/
theorem pickTomb_comm (l r : Option K) : pickTomb l r = pickTomb r l :=
  tombOf_injective (by rw [tombOf_pickTomb, tombOf_pickTomb, sup_comm])

/-- The stamp kept is one of the two. -/
theorem pickTomb_eq_or (l r : Option K) : pickTomb l r = l ∨ pickTomb l r = r := by
  unfold pickTomb
  split
  · cases l with
    | none => exact Or.inr rfl
    | some d => exact Or.inl rfl
  · split
    · exact Or.inl rfl
    · exact Or.inr rfl

end Choice

/-! ## Reading the clock -/

/-- A strictly increasing clock in microseconds: the wall clock, or one more than
the last reading when the wall clock has not passed it. -/
def strictMicros (last wallMillis : Nat) : Nat :=
  if wallMillis * 1000 > last then wallMillis * 1000 else last + 1

theorem lt_strictMicros (last wallMillis : Nat) : last < strictMicros last wallMillis := by
  unfold strictMicros
  split
  · assumption
  · exact Nat.lt_succ_self last

theorem le_strictMicros (last wallMillis : Nat) :
    wallMillis * 1000 ≤ strictMicros last wallMillis := by
  unfold strictMicros
  split
  · exact le_rfl
  · rename_i h
    exact (not_lt.mp h).trans (Nat.le_succ last)

/-! ## Records of registers -/

/-- A record as the merges see it: one register for every field name, and the
deletion register.  The componentwise order is domination, its join is the
last-writer-wins merge. -/
abbrev Registers (K : Type) : Type := (String → Stamp K) × Tomb K

/-- The registers of a record. -/
def registersOf [Zero K] (fields : JsObject (Option Json)) (clocks : JsObject K)
    (deletedAt : Option K) : Registers K :=
  (stampOf fields clocks, tombOf deletedAt)

end FlowLogix.Foundation
