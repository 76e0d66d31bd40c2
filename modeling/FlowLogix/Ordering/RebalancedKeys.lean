/-
  Ordering/RebalancedKeys.lean --- `rebalance` with all of its arguments
  (backend/src/common/ordering/fractional-indexer.ts).

  `FractionalIndexer.rebalance` is the call every caller in the repository makes: a
  count, and no forced width.  Here are the arguments as they come in (any number, or
  an array of which only the length is read) and the `targetLength` option, and what
  the returned keys are: an exact even spread.

  `Math.pow` is taken to be exact up to `Number.MAX_SAFE_INTEGER` and unsafe above.  An
  integer argument past 2^53 stands for the decimal it prints as; every safe key space
  is too small for it either way.
-/
import FlowLogix.Foundation.Json
import FlowLogix.Ordering.AcceptedAlphabet
import FlowLogix.Ordering.EvenSpread

set_option autoImplicit false

namespace FlowLogix.Ordering

open FlowLogix.Foundation

/-! ## Arguments -/

/-- An ECMAScript number. -/
inductive Number where
  | finite (x : JsNumber)
  | nan
  | infinity
  | negInfinity
  deriving DecidableEq

namespace Number

/-- What a template literal prints for the number. -/
def text : Number → JsString
  | .finite x => numberText x
  | .nan => js "NaN"
  | .infinity => js "Infinity"
  | .negInfinity => js "-Infinity"

/-- The number where `Number.isInteger(x) && x >= 0`. -/
def toNat? : Number → Option Nat
  | .finite x =>
      if 0 ≤ x.scale ∧ 0 ≤ x.coeff then some (x.coeff.toNat * 10 ^ x.scale.toNat) else none
  | .nan | .infinity | .negInfinity => none

end Number

/-- `itemsOrCount: number | readonly unknown[]`. -/
inductive ItemsOrCount (α : Type) where
  | count (count : Number)
  | items (items : List α)

namespace ItemsOrCount

variable {α : Type}

/-- `count` where it is a non-negative integer. -/
def toNat? : ItemsOrCount α → Option Nat
  | .count number => number.toNat?
  | .items elements => some elements.length

/-- `count` as a template literal prints it. -/
def text : ItemsOrCount α → JsString
  | .count number => number.text
  | .items elements => decimalDigits elements.length

end ItemsOrCount

namespace FractionalIndexer

variable {α : Type}

/-! ## The loop -/

/-- One round of the spacing loop, where it compares `value` with `previousValue`. -/
structure Round where
  previousValue : Int
  value : Nat
  deriving DecidableEq

/-- The comparison that steps past the previous key. -/
def Round.corrects (round : Round) : Bool := decide ((round.value : Int) ≤ round.previousValue)

/-- The value that is encoded, and the next `previousValue`. -/
def Round.placed (round : Round) : Int :=
  if round.corrects then round.previousValue + 1 else round.value

/-- The rounds of the spacing loop from the `k`-th on. -/
def rounds (ix : FractionalIndexer) (count capacity : Nat) : Nat → Nat → Int → List Round
  | 0, _, _ => []
  | left + 1, k, previousValue =>
      let value := (k + 1) * capacity / (count + 1)
      let value := if value % ix.alphabet.length = 0 then value + 1 else value
      let round := Round.mk previousValue value
      round :: rounds ix count capacity left (k + 1) round.placed

/-- The width of the keys: the given one, or the first that is wide enough. -/
def keyLength (ix : FractionalIndexer) (itemsOrCount : ItemsOrCount α) (count : Nat) :
    Option Number → Except Message Nat
  | none => ix.widen (2 * (count + 1)) 64 2
  | some targetLength =>
      match targetLength.toNat?.filter (2 ≤ ·) with
      | none =>
          .error (prefixed (js "targetLength must be an integer >= 2 (got " ++
            targetLength.text ++ js ")"))
      | some length =>
          if maxSafeInteger < ix.alphabet.length ^ length then
            .error (prefixed (js "targetLength " ++ targetLength.text ++
              js " is too large for a safe key space"))
          else if ix.alphabet.length ^ length < 2 * (count + 1) then
            .error (prefixed (js "targetLength " ++ targetLength.text ++
              js " is too small to evenly space " ++ itemsOrCount.text ++ js " keys"))
          else .ok length

/-- `rebalance(itemsOrCount, targetLength)`. -/
def rebalanceItems (ix : FractionalIndexer) (itemsOrCount : ItemsOrCount α)
    (targetLength : Option Number) : Except Message (List JsString) :=
  match itemsOrCount.toNat? with
  | none =>
      .error (prefixed (js "rebalance count must be a non-negative integer (got " ++
        itemsOrCount.text ++ js ")"))
  | some count =>
      if count = 0 then .ok []
      else do
        let length ← ix.keyLength itemsOrCount count targetLength
        return (ix.rounds count (ix.alphabet.length ^ length) count 0 (-1)).map fun round =>
          ix.encodeFixed round.placed.toNat length

variable {ix : FractionalIndexer}

/-- The value of the key before the `k`-th; there is none before the first. -/
def previousSpread (ix : FractionalIndexer) (count capacity k : Nat) : Int :=
  if k = 0 then -1 else ix.spread count capacity (k - 1)

/-- With room for two slots, no round steps past the key before. -/
theorem previousSpread_lt {count capacity : Nat} (h : 2 * (count + 1) ≤ capacity) (k : Nat) :
    ix.previousSpread count capacity k < ix.spread count capacity k := by
  unfold previousSpread
  split
  · omega
  · rename_i hk
    have hlt := ix.spread_lt_spread h (k - 1)
    rw [Nat.sub_add_cancel (Nat.pos_of_ne_zero hk)] at hlt
    exact Int.ofNat_lt.mpr hlt

theorem corrects_spread {count capacity : Nat} (h : 2 * (count + 1) ≤ capacity) (k : Nat) :
    (Round.mk (ix.previousSpread count capacity k) (ix.spread count capacity k)).corrects =
      false := by
  apply decide_eq_false
  exact not_le.mpr (previousSpread_lt h k)

/-- The rounds of the loop.  The induction is on what is left of the count. -/
theorem rounds_eq (ix : FractionalIndexer) {count capacity : Nat}
    (h : 2 * (count + 1) ≤ capacity) (left k : Nat) :
    ix.rounds count capacity left k (ix.previousSpread count capacity k) =
      (List.range' k left).map fun j =>
        Round.mk (ix.previousSpread count capacity j) (ix.spread count capacity j) := by
  induction left generalizing k with
  | zero => rfl
  | succ left ih =>
      have hplaced : (Round.mk (ix.previousSpread count capacity k)
          (ix.spread count capacity k)).placed = ix.previousSpread count capacity (k + 1) := by
        rw [Round.placed, corrects_spread h k]
        simp [previousSpread]
      rw [List.range'_succ, List.map_cons, ← ih, ← hplaced]
      rfl

/-- The keys of an even spread. -/
def spreadKeys (ix : FractionalIndexer) (count length : Nat) : List JsString :=
  (List.range count).map fun k =>
    ix.encodeFixed (ix.spread count (ix.alphabet.length ^ length) k) length

theorem keys_of_rounds {count length : Nat} (h : 2 * (count + 1) ≤ ix.alphabet.length ^ length) :
    ((ix.rounds count (ix.alphabet.length ^ length) count 0 (-1)).map fun round =>
      ix.encodeFixed round.placed.toNat length) = ix.spreadKeys count length := by
  have hrounds := ix.rounds_eq h count 0
  rw [previousSpread, if_pos rfl] at hrounds
  rw [hrounds, List.map_map, spreadKeys, List.range_eq_range']
  apply List.map_congr_left
  intro k _
  show ix.encodeFixed (Round.placed _).toNat length = _
  rw [Round.placed, corrects_spread h k]
  rfl

/-! ## The width -/

/-- The width the keys are to have: the forced one, or the least from 2 on whose key
space holds two slots for each gap. -/
def IsWidth (ix : FractionalIndexer) (count : Nat) (targetLength : Option Number)
    (length : Nat) : Prop :=
  2 ≤ length ∧
    match targetLength with
    | some number => number.toNat? = some length
    | none => 2 * (count + 1) ≤ ix.alphabet.length ^ length ∧
        ∀ l, 2 ≤ l → 2 * (count + 1) ≤ ix.alphabet.length ^ l → length ≤ l

theorem widen_least {required fuel length width l : Nat}
    (h : ix.widen required fuel length = .ok width) (hl : length ≤ l)
    (hrequired : required ≤ ix.alphabet.length ^ l) : width ≤ l := by
  induction fuel generalizing length with
  | zero => cases h
  | succ fuel ih =>
      rw [widen] at h
      split at h
      · obtain rfl := Except.ok.inj h
        exact hl
      · rename_i hnot
        split at h
        · cases h
        · have hne : length ≠ l := by
            rintro rfl
            exact hnot hrequired
          exact ih h (by omega)

/-- A safe key space has fewer than 66 digits. -/
theorem length_lt_of_safe {length : Nat} (h : ix.alphabet.length ^ length ≤ maxSafeInteger) :
    length < 66 := by
  have hpow : 2 ^ length ≤ ix.alphabet.length ^ length :=
    Nat.pow_le_pow_left ix.two_le_length length
  have hlt : 2 ^ length < 2 ^ 66 := lt_of_le_of_lt (hpow.trans h) (by decide)
  exact (Nat.pow_lt_pow_iff_right (by omega)).mp hlt

/-- Some width has room for `count` keys. -/
theorem exists_isWidth (ix : FractionalIndexer) (count : Nat) :
    ∃ length, ix.IsWidth count none length := by
  have hroom : ∃ l, 2 ≤ l ∧ 2 * (count + 1) ≤ ix.alphabet.length ^ l := by
    refine ⟨2 * (count + 1), by omega, ?_⟩
    exact (Nat.lt_pow_self ix.two_le_length).le
  obtain ⟨htwo, henough⟩ := Nat.find_spec hroom
  exact ⟨Nat.find hroom, htwo, henough, fun l hl hle => Nat.find_min' hroom ⟨hl, hle⟩⟩

variable {itemsOrCount : ItemsOrCount α} {targetLength : Option Number}

/-- A width that is returned is the right one, and wide enough. -/
theorem keyLength_eq_ok {count length : Nat}
    (h : ix.keyLength itemsOrCount count targetLength = .ok length) :
    ix.IsWidth count targetLength length ∧ 2 * (count + 1) ≤ ix.alphabet.length ^ length := by
  cases targetLength with
  | none =>
      obtain ⟨henough, htwo, -⟩ := widen_eq_ok h
      exact ⟨⟨htwo, henough, fun l hl hle => widen_least h hl hle⟩, henough⟩
  | some number =>
      rw [keyLength] at h
      split at h
      · cases h
      · rename_i width hwidth
        obtain ⟨hnumber, htwo⟩ := Option.filter_eq_some_iff.mp hwidth
        split at h
        · cases h
        · split at h
          · cases h
          · rename_i henough
            obtain rfl := Except.ok.inj h
            exact ⟨⟨by simpa using htwo, hnumber⟩, not_lt.mp henough⟩

/-- The width is refused for what it is, or for the key space it gives. -/
theorem keyLength_eq_error {count : Nat} {message : Message}
    (h : ix.keyLength itemsOrCount count targetLength = .error message) :
    (∃ number, targetLength = some number ∧ ∀ length, number.toNat? = some length → length < 2) ∨
      ∃ length, ix.IsWidth count targetLength length ∧
        (maxSafeInteger < ix.alphabet.length ^ length ∨
          ix.alphabet.length ^ length < 2 * (count + 1)) := by
  cases targetLength with
  | none =>
      right
      obtain ⟨length, hwidth⟩ := ix.exists_isWidth count
      refine ⟨length, hwidth, Or.inl ?_⟩
      by_contra hsafe
      have hle := not_lt.mp hsafe
      obtain ⟨chosen, hchosen⟩ : ∃ chosen, ix.widen (2 * (count + 1)) 64 2 = .ok chosen :=
        exists_widen hwidth.1 (by simpa using length_lt_of_safe hle) hwidth.2.1 hle
      rw [keyLength, hchosen] at h
      cases h
  | some number =>
      rw [keyLength] at h
      split at h
      · rename_i hnone
        left
        refine ⟨number, rfl, fun length hlength => ?_⟩
        rw [hlength, Option.filter_eq_none_iff] at hnone
        simpa using hnone length rfl
      · rename_i length hlength
        obtain ⟨hnumber, htwo⟩ := Option.filter_eq_some_iff.mp hlength
        right
        refine ⟨length, ⟨by simpa using htwo, hnumber⟩, ?_⟩
        split at h
        · rename_i hunsafe
          exact Or.inl hunsafe
        · split at h
          · rename_i hsmall
            exact Or.inr hsmall
          · cases h

/-! ## An even spread -/

/-- `count` keys of one length, spread evenly over its key space. -/
structure IsEvenSpread (ix : FractionalIndexer) (count length : Nat) (keys : List JsString) :
    Prop where
  length_keys : keys.length = count
  width : ∀ key ∈ keys, key.length = length
  valid : ∀ key ∈ keys, ix.isValidKey key = true
  ascending : keys.Pairwise (· < ·)
  /-- the `k`-th key encodes its even share of the key space, or the value after it -/
  encodes : ∀ k < count, ∃ value, value < ix.alphabet.length ^ length ∧
    (value = (k + 1) * ix.alphabet.length ^ length / (count + 1) ∨
      value = (k + 1) * ix.alphabet.length ^ length / (count + 1) + 1) ∧
    keys[k]? = some (ix.encodeFixed value length)
  /-- no round of the loop steps past the key before -/
  uncorrected : ∀ round ∈ ix.rounds count (ix.alphabet.length ^ length) count 0 (-1),
    round.corrects = false

theorem spread_lt_capacity (ix : FractionalIndexer) {count capacity k : Nat}
    (h : 2 * (count + 1) ≤ capacity) (hk : k < count) : ix.spread count capacity k < capacity := by
  have hpick := pick_add_two_le_capacity h hk
  have hspread := ix.spread_bounds count capacity k
  omega

theorem isEvenSpread_spreadKeys (hunpaired : ix.Unpaired) {count length : Nat} (htwo : 2 ≤ length)
    (h : 2 * (count + 1) ≤ ix.alphabet.length ^ length) :
    ix.IsEvenSpread count length (ix.spreadKeys count length) where
  length_keys := by rw [spreadKeys, List.length_map, List.length_range]
  width := by
    intro key hkey
    obtain ⟨k, -, rfl⟩ := List.mem_map.mp hkey
    exact length_encodeFixed _ _
  valid := by
    intro key hkey
    obtain ⟨k, -, rfl⟩ := List.mem_map.mp hkey
    apply IsKey.isValidKey_of_unpaired hunpaired
    exact isKey_encodeFixed (spread_mod_ne_zero _ _ _) (by omega)
  ascending := by
    rw [spreadKeys, List.pairwise_map]
    apply List.pairwise_lt_range.imp_of_mem
    intro k k' _ hk' hlt
    have hmono : StrictMono (ix.spread count (ix.alphabet.length ^ length)) :=
      strictMono_nat_of_lt_succ (spread_lt_spread h)
    apply encodeFixed_lt (hmono hlt)
    exact ix.spread_lt_capacity h (List.mem_range.mp hk')
  encodes := by
    intro k hk
    refine ⟨_, ix.spread_lt_capacity h hk, ?_, ?_⟩
    · unfold spread pick
      split
      · exact Or.inr rfl
      · exact Or.inl rfl
    · simp [spreadKeys, hk]
  uncorrected := by
    have hrounds := ix.rounds_eq h count 0
    rw [previousSpread, if_pos rfl] at hrounds
    intro round hround
    rw [hrounds] at hround
    obtain ⟨k, -, rfl⟩ := List.mem_map.mp hround
    exact corrects_spread h k

/-- What `rebalance` is to do with its arguments: spread the keys evenly, or throw for
one of the reasons it names. -/
structure SpreadsEvenly (ix : FractionalIndexer) (itemsOrCount : ItemsOrCount α)
    (targetLength : Option Number) : Prop where
  spreads : ∀ keys, ix.rebalanceItems itemsOrCount targetLength = .ok keys →
    ∃ count, itemsOrCount.toNat? = some count ∧ keys.length = count ∧
      (0 < count → ∃ length, ix.IsWidth count targetLength length ∧
        ix.IsEvenSpread count length keys)
  throws : ∀ message, ix.rebalanceItems itemsOrCount targetLength = .error message →
    itemsOrCount.toNat? = none ∨
      (∃ number, targetLength = some number ∧
        ∀ length, number.toNat? = some length → length < 2) ∨
      ∃ count length, itemsOrCount.toNat? = some count ∧ ix.IsWidth count targetLength length ∧
        (maxSafeInteger < ix.alphabet.length ^ length ∨
          ix.alphabet.length ^ length < 2 * (count + 1))

/-- What a call that returns has returned. -/
theorem rebalanceItems_eq_ok {keys : List JsString}
    (h : ix.rebalanceItems itemsOrCount targetLength = .ok keys) :
    ∃ count, itemsOrCount.toNat? = some count ∧ ((count = 0 ∧ keys = []) ∨
      ∃ length, ix.keyLength itemsOrCount count targetLength = .ok length ∧
        keys = ix.spreadKeys count length) := by
  unfold rebalanceItems at h
  split at h
  · cases h
  · rename_i count hcount
    refine ⟨count, hcount, ?_⟩
    split at h
    · rename_i hzero
      exact Or.inl ⟨hzero, (Except.ok.inj h).symm⟩
    · obtain ⟨length, hlength, h⟩ := bind_eq_ok.mp h
      refine Or.inr ⟨length, hlength, ?_⟩
      rw [← keys_of_rounds (keyLength_eq_ok hlength).2]
      exact (Except.ok.inj h).symm

theorem rebalanceItems_of_keyLength {count length : Nat} (hcount : itemsOrCount.toNat? = some count)
    (hpos : count ≠ 0) (hlength : ix.keyLength itemsOrCount count targetLength = .ok length) :
    ix.rebalanceItems itemsOrCount targetLength = .ok (ix.spreadKeys count length) := by
  unfold rebalanceItems
  simp only [hcount, if_neg hpos]
  rw [← keys_of_rounds (keyLength_eq_ok hlength).2]
  exact bind_eq_ok.mpr ⟨length, hlength, rfl⟩

/-- Without a forced width this is the call the callers make. -/
theorem rebalanceItems_eq_rebalance {count : Nat} (hcount : itemsOrCount.toNat? = some count) :
    ix.rebalanceItems itemsOrCount none = ix.rebalance count := by
  unfold rebalanceItems rebalance
  simp only [hcount]
  split
  · rfl
  · rw [keyLength]
    cases hwidth : ix.widen (2 * (count + 1)) 64 2 with
    | error message => rfl
    | ok length =>
        have henough := (widen_eq_ok hwidth).1
        have hkeys := spacedKeys_eq henough count 0 0 (absurd rfl)
        have hrounds := keys_of_rounds henough
        rw [spreadKeys, List.range_eq_range'] at hrounds
        exact congrArg Except.ok (hrounds.trans hkeys.symm)

theorem rebalanceItems_eq_error {message : Message}
    (h : ix.rebalanceItems itemsOrCount targetLength = .error message) :
    itemsOrCount.toNat? = none ∨ ∃ count, itemsOrCount.toNat? = some count ∧
      ix.keyLength itemsOrCount count targetLength = .error message := by
  unfold rebalanceItems at h
  split at h
  · rename_i hnone
    exact Or.inl hnone
  · rename_i count hcount
    refine Or.inr ⟨count, hcount, ?_⟩
    split at h
    · cases h
    · cases hlength : ix.keyLength itemsOrCount count targetLength with
      | error text =>
          rw [hlength] at h
          have htext : text = message := Except.error.inj h
          rw [htext]
      | ok length =>
          rw [hlength] at h
          cases h

theorem spreadsEvenly_of_unpaired (hunpaired : ix.Unpaired) (itemsOrCount : ItemsOrCount α)
    (targetLength : Option Number) : ix.SpreadsEvenly itemsOrCount targetLength where
  spreads := by
    intro keys h
    obtain ⟨count, hcount, hkeys⟩ := rebalanceItems_eq_ok h
    refine ⟨count, hcount, ?_⟩
    rcases hkeys with ⟨rfl, rfl⟩ | ⟨length, hlength, rfl⟩
    · exact ⟨rfl, fun hpos => absurd hpos (lt_irrefl 0)⟩
    · obtain ⟨hwidth, henough⟩ := keyLength_eq_ok hlength
      have hspread := isEvenSpread_spreadKeys hunpaired hwidth.1 henough
      exact ⟨hspread.length_keys, fun _ => ⟨length, hwidth, hspread⟩⟩
  throws := by
    intro message h
    rcases rebalanceItems_eq_error h with hnone | ⟨count, hcount, hlength⟩
    · exact Or.inl hnone
    · rcases keyLength_eq_error hlength with hbad | ⟨length, hwidth, hspace⟩
      · exact Or.inr (Or.inl hbad)
      · exact Or.inr (Or.inr ⟨count, length, hcount, hwidth, hspace⟩)

/-! ## Surrogates

The constructor and `rank` take the alphabet apart by code unit, `isValidKey` a key by
code point.  Where the alphabet holds both halves of a pair, some rebalanced key holds
them side by side. -/

/-- Half as many keys as there are values: the `k`-th even share is `2 (k + 1)`. -/
theorem pick_of_half {capacity k : Nat} (hk : k < capacity / 2 - 1) :
    pick (capacity / 2 - 1) capacity k = 2 * (k + 1) := by
  obtain ⟨m, hm⟩ : ∃ m, capacity / 2 = m := ⟨_, rfl⟩
  obtain ⟨r, hr⟩ : ∃ r, capacity = 2 * m + r := ⟨capacity - 2 * m, by omega⟩
  have hsmall : (k + 1) * r < m := by
    have hle : (k + 1) * r ≤ (k + 1) * 1 := Nat.mul_le_mul_left (k + 1) (by omega)
    omega
  have hsplit : (k + 1) * capacity = (k + 1) * r + m * (2 * (k + 1)) := by
    rw [hr]
    ring
  have hgaps : capacity / 2 - 1 + 1 = m := by omega
  unfold pick
  rw [hgaps, hsplit, Nat.add_mul_div_left _ _ (by omega), Nat.div_eq_of_lt hsmall, Nat.zero_add]

theorem encodeFixed_succ {q d length : Nat} (hd : d < ix.alphabet.length) :
    ix.encodeFixed (q * ix.alphabet.length + d) (length + 1) =
      ix.encodeFixed q length ++ [ix.charAt d] := by
  have hdiv : (q * ix.alphabet.length + d) / ix.alphabet.length = q := by
    rw [Nat.mul_comm, Nat.mul_add_div ix.length_pos, Nat.div_eq_of_lt hd, Nat.add_zero]
  rw [encodeFixed, hdiv, Nat.mul_add_mod_of_lt hd]

theorem isValidKey_of_pair {u v w : CodeUnit}
    (hpair : (isHighSurrogate u && isLowSurrogate v) = true) : ix.isValidKey [u, v, w] = false := by
  simp [isValidKey, codePoints, hpair, hasChar]

theorem length_alphabet_le (ix : FractionalIndexer) : ix.alphabet.length ≤ 65536 := by
  have hnodup : ix.alphabet.Nodup := ix.sorted.imp fun h => h.ne
  simpa using hnodup.length_le_card

/-- A call whose keys are three digits long, two slots apart. -/
theorem keyLength_of_half (ix : FractionalIndexer) (itemsOrCount : ItemsOrCount α) :
    ix.keyLength itemsOrCount (ix.alphabet.length ^ 3 / 2 - 1) none = .ok 3 := by
  have htwo := ix.two_le_length
  have hcube : ix.alphabet.length ^ 3 = ix.alphabet.length ^ 2 * ix.alphabet.length := rfl
  have hwide : ix.alphabet.length ^ 2 * 2 ≤ ix.alphabet.length ^ 3 := by
    rw [hcube]
    exact Nat.mul_le_mul_left _ htwo
  have hsquare : 2 ^ 2 ≤ ix.alphabet.length ^ 2 := Nat.pow_le_pow_left htwo 2
  have hsafe : ix.alphabet.length ^ 3 ≤ 65536 ^ 3 := Nat.pow_le_pow_left ix.length_alphabet_le 3
  have hmax : 65536 ^ 3 ≤ maxSafeInteger := by decide
  rw [keyLength, widen, if_neg (by omega), if_neg (not_lt.mpr (hsafe.trans hmax)), widen]
  apply if_pos
  show _ ≤ ix.alphabet.length ^ 3
  omega

/-- The value of the key that holds the digits `i`, `j` and the second lowest one. -/
theorem spread_of_half {i j b : Nat} (hb : ix.alphabet.length = b) (hij : i < j) (hj : j < b) :
    ∃ k < b ^ 3 / 2 - 1, ix.spread (b ^ 3 / 2 - 1) (b ^ 3) k = (i * b + j) * b + 1 := by
  have htwo := ix.two_le_length
  obtain ⟨value, hvalue⟩ : ∃ value, (i * b + j) * b = value := ⟨_, rfl⟩
  have hlow : b ≤ value := by
    rw [← hvalue]
    exact Nat.le_mul_of_pos_left b (by omega)
  have hhigh : value + b * b ≤ b ^ 3 := by
    have hrow : i * b + j + b ≤ b * b := by
      calc i * b + j + b ≤ i * b + b + b := by omega
        _ = (i + 2) * b := by ring
        _ ≤ b * b := Nat.mul_le_mul_right b (by omega)
    calc value + b * b = (i * b + j + b) * b := by rw [← hvalue]; ring
      _ ≤ b * b * b := Nat.mul_le_mul_right b hrow
      _ = b ^ 3 := by ring
  have hsquare : 2 * 2 ≤ b * b := Nat.mul_le_mul (hb ▸ htwo) (hb ▸ htwo)
  have hk : (value + 1) / 2 - 1 < b ^ 3 / 2 - 1 := by omega
  refine ⟨(value + 1) / 2 - 1, hk, ?_⟩
  have hmod : value % b = 0 := by rw [← hvalue, Nat.mul_mod_left]
  have hmod' : (value + 1) % b = 1 := by
    rw [← hvalue, Nat.mul_add_mod_of_lt (by omega)]
  unfold spread
  rw [pick_of_half hk, hb, hvalue]
  rcases Nat.mod_two_eq_zero_or_one value with heven | hodd
  · have hpick : 2 * ((value + 1) / 2 - 1 + 1) = value := by omega
    rw [hpick, if_pos hmod]
  · have hpick : 2 * ((value + 1) / 2 - 1 + 1) = value + 1 := by omega
    rw [hpick, if_neg (by omega)]

/-- Even keys for every count need an alphabet without both halves of a pair. -/
theorem unpaired_of_spreadsEvenly
    (h : ∀ items : List Unit, ix.SpreadsEvenly (.items items) none) : ix.Unpaired := by
  intro u hu v hv
  by_contra hpair
  rw [Bool.not_eq_false] at hpair
  obtain ⟨i, hi⟩ : ∃ i, ix.alphabet.idxOf u = i := ⟨_, rfl⟩
  obtain ⟨j, hj⟩ : ∃ j, ix.alphabet.idxOf v = j := ⟨_, rfl⟩
  obtain ⟨b, hb⟩ : ∃ b, ix.alphabet.length = b := ⟨_, rfl⟩
  have htwo := ix.two_le_length
  have huv : u < v := by
    simp only [isHighSurrogate, isLowSurrogate, Bool.and_eq_true, decide_eq_true_eq] at hpair
    exact Fin.lt_def.mpr (by omega)
  have hij : i < j := hi ▸ hj ▸ idxOf_lt_idxOf hu hv huv
  have hjb : j < b := hb ▸ hj ▸ List.idxOf_lt_length_of_mem hv
  obtain ⟨k, hk, hspread⟩ := spread_of_half hb hij hjb
  have hkey : ix.encodeFixed ((i * b + j) * b + 1) 3 = [u, v, ix.charAt 1] := by
    have hi' : i = 0 * ix.alphabet.length + i := by omega
    subst hb
    rw [encodeFixed_succ (by omega), encodeFixed_succ hjb, hi', encodeFixed_succ (by omega),
      ← hi, ← hj, charAt_idxOf hu, charAt_idxOf hv]
    rfl
  subst hb
  let items := List.replicate (ix.alphabet.length ^ 3 / 2 - 1) ()
  have hitems : (ItemsOrCount.items items).toNat? = some (ix.alphabet.length ^ 3 / 2 - 1) :=
    congrArg some List.length_replicate
  have hok := rebalanceItems_of_keyLength hitems (by omega)
    (ix.keyLength_of_half (.items items))
  obtain ⟨count, hcount, -, hspreads⟩ := (h items).spreads _ hok
  obtain rfl := Option.some.inj (hitems.symm.trans hcount)
  obtain ⟨length, -, heven⟩ := hspreads (by omega)
  have hmem : [u, v, ix.charAt 1] ∈ ix.spreadKeys (ix.alphabet.length ^ 3 / 2 - 1) 3 := by
    rw [← hkey, ← hspread]
    exact List.mem_map_of_mem (List.mem_range.mpr hk)
  have hvalid := heven.valid _ hmem
  rw [isValidKey_of_pair hpair] at hvalid
  cases hvalid

/-- **A rebalance is an exact even spread**, for every count and width, exactly where the
alphabet does not hold both halves of a surrogate pair. -/
theorem rebalance_spread_iff (ix : FractionalIndexer) :
    (∀ (α : Type) (itemsOrCount : ItemsOrCount α) (targetLength : Option Number),
      ix.SpreadsEvenly itemsOrCount targetLength) ↔ ix.Unpaired :=
  ⟨fun h => unpaired_of_spreadsEvenly fun items => h Unit (.items items) none,
    fun hunpaired _ itemsOrCount targetLength =>
      spreadsEvenly_of_unpaired hunpaired itemsOrCount targetLength⟩

/-- Two halves of a surrogate pair as digits. -/
def surrogateDigits : FractionalIndexer where
  alphabet := [0xD800, 0xDC00]
  seed := 0xDC00
  two_le_length := by decide
  sorted := by decide
  seed_mem := by decide
  seed_ne_zero := by decide

/-- The constructor accepts them, and the first of two rebalanced keys is no valid key:
its first two digits are read as one code point. -/
theorem surrogate_spread :
    construct (some [0xD800, 0xDC00]) none = .ok surrogateDigits ∧
      ¬ surrogateDigits.SpreadsEvenly (.items [(), ()]) none := by
  refine ⟨rfl, fun h => ?_⟩
  have hok : surrogateDigits.rebalanceItems (.items [(), ()]) none =
      .ok [[0xD800, 0xDC00, 0xDC00], [0xDC00, 0xD800, 0xDC00]] := by decide
  obtain ⟨count, hcount, -, hspreads⟩ := h.spreads _ hok
  obtain rfl : 2 = count := Option.some.inj hcount
  obtain ⟨length, -, heven⟩ := hspreads (by decide)
  have hvalid := heven.valid [0xD800, 0xDC00, 0xDC00] (by simp)
  exact absurd hvalid (by decide)

end FractionalIndexer

end FlowLogix.Ordering
