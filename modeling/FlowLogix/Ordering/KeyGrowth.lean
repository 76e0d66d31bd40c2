/-
  Ordering/KeyGrowth.lean --- how long keys get.

  `midpoint` writes one digit for each digit it takes off its bounds, and at most one
  more at the end.  A key is then at most one character longer than the longer of its
  bounds, and a column whose keys grow by insertions alone grows by one character for
  each of them.
-/
import FlowLogix.Foundation.Steps
import FlowLogix.Ordering.ShortestKey

set_option autoImplicit false

namespace FlowLogix.Ordering

open FlowLogix.Foundation

namespace FractionalIndexer

variable {ix : FractionalIndexer}

/-! ## Midpoints -/

theorem length_midpointOpen {a key : JsString} (h : ix.midpointOpen a = .ok key) :
    key.length ≤ a.length + 1 := by
  induction a generalizing key with
  | nil =>
      obtain rfl := Except.ok.inj h
      simp
  | cons x a ih =>
      obtain ⟨digitA, -, h⟩ := bind_eq_ok.mp h
      split at h
      · obtain rfl := Except.ok.inj h
        simp
      · obtain ⟨rest, hrest, h⟩ := bind_eq_ok.mp h
        obtain rfl := Except.ok.inj h
        simpa using ih hrest

/-- Where `a` and `b` part, the key ends with its first digit or goes on above `a`. -/
theorem length_of_parted {a b key : JsString} {y : CodeUnit} {digitA : Nat}
    (h : (do
      let digitB ← ix.rank y
      if digitA + 1 < digitB then return [ix.charAt (roundHalf digitA digitB)]
      else if b ≠ [] then return [y]
      else
        let rest ← ix.midpointOpen a.tail
        return ix.charAt digitA :: rest) = .ok key) : key.length ≤ a.tail.length + 2 := by
  obtain ⟨digitB, -, h⟩ := bind_eq_ok.mp h
  split at h
  · obtain rfl := Except.ok.inj h
    simp
  · split at h
    · obtain rfl := Except.ok.inj h
      simp
    · obtain ⟨rest, hrest, h⟩ := bind_eq_ok.mp h
      obtain rfl := Except.ok.inj h
      simpa using length_midpointOpen hrest

/-- The joint measure is the longer of the two bounds; where `a` has run out, a shared
digit still shortens `b`. -/
theorem length_midpointBelow {a b key : JsString} (h : ix.midpointBelow a b = .ok key) :
    key.length ≤ max a.length b.length + 1 := by
  induction b generalizing a key with
  | nil => cases h
  | cons y b ih =>
      rw [midpointBelow] at h
      have htail : a.tail.length = a.length - 1 := List.length_tail
      split at h
      · cases h
      · split at h
        · obtain ⟨rest, hrest, h⟩ := bind_eq_ok.mp h
          obtain rfl := Except.ok.inj h
          have hle := ih hrest
          rw [List.length_cons, List.length_cons]
          omega
        · have hle : key.length ≤ a.tail.length + 2 := by
            cases a with
            | nil => exact length_of_parted (a := []) h
            | cons x a =>
                obtain ⟨digitA, -, h⟩ := bind_eq_ok.mp h
                exact length_of_parted (a := x :: a) h
          rw [List.length_cons]
          omega

/-! ## `getIntermediateKey` -/

/-- The length of a bound, an open end being empty. -/
def boundLength (bound : Option JsString) : Nat := (bound.getD []).length

theorem length_getIntermediateKey {prev next : Option JsString} {key : JsString}
    (h : ix.getIntermediateKey prev next = .ok key) :
    key.length ≤ 1 + max (boundLength prev) (boundLength next) := by
  unfold getIntermediateKey at h
  cases prev with
  | none =>
      cases next with
      | none =>
          obtain rfl := Except.ok.inj h
          simp
      | some n =>
          obtain ⟨_, -, h⟩ := bind_eq_ok.mp h
          simp only [Option.any_none, Bool.false_eq_true, if_false, Option.getD_none] at h
          obtain ⟨minted, hminted, h⟩ := bind_eq_ok.mp h
          have hle := length_midpointBelow hminted
          rw [checkBetween_eq h, Nat.add_comm]
          exact hle
  | some p =>
      cases next with
      | none =>
          obtain ⟨_, -, h⟩ := bind_eq_ok.mp h
          obtain ⟨minted, hminted, h⟩ := bind_eq_ok.mp h
          have hle := length_midpointOpen hminted
          have hp : p.length ≤ max (boundLength (some p)) (boundLength none) := le_max_left _ _
          rw [checkBetween_eq h]
          omega
      | some n =>
          obtain ⟨_, -, h⟩ := bind_eq_ok.mp h
          obtain ⟨_, -, h⟩ := bind_eq_ok.mp h
          by_cases hle : n ≤ p
          · simp [hle] at h
            obtain ⟨_, ⟨⟩, -⟩ := bind_eq_ok.mp h
          · simp only [Option.any_some, hle, decide_false, Bool.false_eq_true, if_false,
              Option.getD_some] at h
            obtain ⟨minted, hminted, h⟩ := bind_eq_ok.mp h
            have hle := length_midpointBelow hminted
            rw [checkBetween_eq h, Nat.add_comm]
            exact hle

/-! ## Columns -/

/-- One insertion into a column: `prev` and `next` are open or keys of the column. -/
def insertBetween (ix : FractionalIndexer) (column : List JsString)
    (bounds : Option JsString × Option JsString) : Option (List JsString) :=
  if (bounds.1.all (· ∈ column) && bounds.2.all (· ∈ column)) = true then
    (ix.getIntermediateKey bounds.1 bounds.2).toOption.map (· :: column)
  else none

theorem boundLength_le {column : List JsString} {m : Nat} (h : ∀ key ∈ column, key.length ≤ m)
    {bound : Option JsString} (hbound : bound.all (· ∈ column) = true) : boundLength bound ≤ m := by
  cases bound with
  | none => exact Nat.zero_le m
  | some key => exact h key (by simpa using hbound)

/-- One insertion lengthens the longest key by at most one character. -/
theorem length_insertBetween {column column' : List JsString}
    {bounds : Option JsString × Option JsString} {m : Nat} (h : ∀ key ∈ column, key.length ≤ m)
    (hstep : ix.insertBetween column bounds = some column') :
    ∀ key ∈ column', key.length ≤ m + 1 := by
  unfold insertBetween at hstep
  split at hstep
  · rename_i hbounds
    obtain ⟨hprev, hnext⟩ := Bool.and_eq_true_iff.mp hbounds
    obtain ⟨minted, hminted, rfl⟩ := Option.map_eq_some_iff.mp hstep
    have hlength := length_getIntermediateKey (toOption_eq_some.mp hminted)
    have hle := boundLength_le h hprev
    have hle' := boundLength_le h hnext
    intro key hkey
    rcases List.mem_cons.mp hkey with rfl | hkey
    · omega
    · exact (h key hkey).trans (Nat.le_succ m)
  · cases hstep

/-- The induction is on the insertions. -/
theorem length_of_insertions {column column' : List JsString}
    {trace : List (List JsString × Option JsString × Option JsString)} {m : Nat}
    (run : Steps ix.insertBetween column trace column') (h : ∀ key ∈ column, key.length ≤ m) :
    ∀ key ∈ column', key.length ≤ m + trace.length := by
  induction run with
  | none => simpa using h
  | next run hstep ih =>
      rw [List.length_append, List.length_singleton]
      exact length_insertBetween ih hstep

/-- **Keys grow by at most one character for each insertion.** -/
theorem key_growth (ix : FractionalIndexer) :
    (∀ prev next key, ix.getIntermediateKey prev next = .ok key →
      key.length ≤ 1 + max (boundLength prev) (boundLength next)) ∧
    ∀ column column' trace m, Steps ix.insertBetween column trace column' →
      (∀ key ∈ column, key.length ≤ m) → ∀ key ∈ column', key.length ≤ m + trace.length :=
  ⟨fun _ _ _ h => length_getIntermediateKey h, fun _ _ _ _ run h => length_of_insertions run h⟩

/-- One key between `b` and `c`, and two insertions into an empty column. -/
theorem key_growth_base62 :
    (∃ key, base62.getIntermediateKey (some (js "b")) (some (js "c")) = .ok key ∧ key.length ≤ 2) ∧
      ∀ key ∈ [js "g", js "M"], key.length ≤ 0 + 2 := by
  constructor
  · obtain ⟨key, hok⟩ : ∃ key,
        base62.getIntermediateKey (some (js "b")) (some (js "c")) = .ok key :=
      ⟨js "bV", by decide⟩
    exact ⟨key, hok, (key_growth base62).1 _ _ key hok⟩
  · have hcolumn : [(none, none), (some (js "M"), none)].foldlM base62.insertBetween [] =
        some [js "g", js "M"] := by decide
    exact (key_growth base62).2 [] _ _ 0 (.of_actions hcolumn) nofun

end FractionalIndexer

end FlowLogix.Ordering
