/-
  Ordering/FractionalIndexer.lean --- position keys
  (backend/src/common/ordering/fractional-indexer.ts).

  The structure is the class after its constructor has returned: the fields that
  end in `_` below are what the constructor checks before it assigns anything.
  `midpoint` is split by whether it has an upper bound.  The source copies the
  whole shared leading run before it recurs; here one shared digit is copied per
  step, which visits the same pairs of suffixes.
-/
import FlowLogix.Foundation.JsString

set_option autoImplicit false

namespace FlowLogix.Ordering

open FlowLogix.Foundation

/-- `BASE62_ALPHABET`. -/
def base62Alphabet : JsString :=
  js "0123456789ABCDEFGHIJKLMNOPQRSTUVWXYZabcdefghijklmnopqrstuvwxyz"

/-- A constructed indexer. -/
structure FractionalIndexer where
  alphabet : JsString
  seed : CodeUnit
  two_le_length : 2 ≤ alphabet.length
  /-- ascending, hence also without duplicates -/
  sorted : alphabet.Pairwise (· < ·)
  seed_mem : seed ∈ alphabet
  seed_ne_zero : alphabet.head? ≠ some seed

namespace FractionalIndexer

variable (ix : FractionalIndexer)

/-- The lowest character of the alphabet. -/
def zero : CodeUnit := ix.alphabet.headD 0

/-- The alphabet has this code point as a character: a surrogate pair never is
one, since the alphabet is indexed by code unit. -/
def hasChar : JsString → Bool
  | [u] => decide (u ∈ ix.alphabet)
  | _ => false

/-- A well-formed position key for this alphabet. -/
def isValidKey (key : JsString) : Bool :=
  !key.isEmpty && (codePoints key).all ix.hasChar && decide (key.getLast? ≠ some ix.zero)

/-- The message of a thrown `Error`. -/
abbrev Message : Type := JsString

def prefixed (text : JsString) : Message := js "FractionalIndexer: " ++ text

/-- Throws when `key` is not well formed, naming the first defect. -/
def assertValidKey (key : JsString) (label : JsString) : Except Message Unit :=
  if key.isEmpty then .error (prefixed (label ++ js " must be a non-empty key"))
  else
    match (codePoints key).find? fun c => !ix.hasChar c with
    | some c =>
        .error (prefixed (label ++ js " contains character \"" ++ c ++
          js "\" not in the alphabet"))
    | none =>
        if key.getLast? = some ix.zero then
          .error (prefixed (label ++ js " \"" ++ key ++
            js "\" is malformed — keys must not end in \"" ++ [ix.zero] ++ js "\""))
        else .ok ()

/-- The digit of a character. -/
def rank (c : CodeUnit) : Except Message Nat :=
  if c ∈ ix.alphabet then .ok (ix.alphabet.idxOf c)
  else .error (prefixed (js "character \"" ++ [c] ++ js "\" is not in the alphabet"))

/-- The character of a digit. -/
def charAt (digit : Nat) : CodeUnit := ix.alphabet.getD digit 0

/-- `Math.round(0.5 * (digitA + digitB))`. -/
def roundHalf (digitA digitB : Nat) : Nat := (digitA + digitB + 1) / 2

/-- `midpoint(a, null)`: a key above `a`. -/
def midpointOpen : JsString → Except Message JsString
  | [] => .ok [ix.charAt (roundHalf 0 ix.alphabet.length)]
  | x :: a => do
      let digitA ← ix.rank x
      if digitA + 1 < ix.alphabet.length then
        return [ix.charAt (roundHalf digitA ix.alphabet.length)]
      else
        let rest ← midpointOpen a
        return ix.charAt digitA :: rest

/-- `midpoint(a, b)`: a key strictly between `a` and `b`. -/
def midpointBelow (a : JsString) : JsString → Except Message JsString
  | [] => .error (prefixed (js "midpoint precondition violated (\"" ++ a ++ js "\" >= \"\")"))
  | y :: b =>
      if y :: b ≤ a then
        .error (prefixed (js "midpoint precondition violated (\"" ++ a ++ js "\" >= \"" ++
          (y :: b) ++ js "\")"))
      else if a.headD ix.zero = y then do
        let rest ← midpointBelow a.tail b
        return y :: rest
      else do
        let digitA ← match a with
          | [] => pure 0
          | x :: _ => ix.rank x
        let digitB ← ix.rank y
        if digitA + 1 < digitB then return [ix.charAt (roundHalf digitA digitB)]
        else if b ≠ [] then return [y]
        else
          let rest ← ix.midpointOpen a.tail
          return ix.charAt digitA :: rest

/-- The defensive post-condition of `getIntermediateKey`: betweenness of the
generated key. -/
def checkBetween (key : JsString) (prev next : Option JsString) : Except Message JsString :=
  if (prev.any fun p => decide (key ≤ p)) || (next.any fun n => decide (n ≤ key)) then
    .error (prefixed (js "internal error, generated key \"" ++ key ++
      js "\" is not strictly between \"" ++ prev.getD (js "null") ++ js "\" and \"" ++
      next.getD (js "null") ++ js "\""))
  else .ok key

/-- A key that sorts strictly between `prev` and `next`; `none` is an open
end. -/
def getIntermediateKey (prev next : Option JsString) : Except Message JsString := do
  if let some p := prev then ix.assertValidKey p (js "prev")
  if let some n := next then ix.assertValidKey n (js "next")
  match prev, next with
  | none, none => return [ix.seed]
  | some p, none => checkBetween (← ix.midpointOpen p) prev next
  | _, some n =>
      if prev.any fun p => decide (n ≤ p) then
        throw (prefixed (js "prev must sort strictly before next (prev=\"" ++ prev.getD [] ++
          js "\", next=\"" ++ n ++ js "\")"))
      checkBetween (← ix.midpointBelow (prev.getD []) n) prev next

/-! ## Even spread -/

/-- `Number.MAX_SAFE_INTEGER`. -/
def maxSafeInteger : Nat := 2 ^ 53 - 1

/-- Encode a value as a big-endian, zero-padded string of fixed width. -/
def encodeFixed (value : Nat) : Nat → JsString
  | 0 => []
  | length + 1 =>
      encodeFixed (value / ix.alphabet.length) length ++
        [ix.charAt (value % ix.alphabet.length)]

/-- The key width of `rebalance`: widen from `length` until the key space holds
`required` keys.  A safe key space is left after fewer than `fuel` steps. -/
def widen (required : Nat) : Nat → Nat → Except Message Nat
  | 0, _ => .error (prefixed (js "rebalance count too large for a safe key space"))
  | fuel + 1, length =>
      if required ≤ ix.alphabet.length ^ length then .ok length
      else if maxSafeInteger < ix.alphabet.length ^ (length + 1) then
        .error (prefixed (js "rebalance count too large for a safe key space"))
      else widen required fuel (length + 1)

/-- One step of the spacing loop: the value of the `k`-th key. -/
def spacedValue (count capacity previous k : Nat) : Nat :=
  let value := (k + 1) * capacity / (count + 1)
  let value := if value % ix.alphabet.length = 0 then value + 1 else value
  if k ≠ 0 ∧ value ≤ previous then previous + 1 else value

/-- The keys of the spacing loop from the `k`-th on. -/
def spacedKeys (count length : Nat) : Nat → Nat → Nat → List JsString
  | 0, _, _ => []
  | left + 1, k, previous =>
      let value := ix.spacedValue count (ix.alphabet.length ^ length) previous k
      ix.encodeFixed value length :: spacedKeys count length left (k + 1) value

/-- Re-index `count` ordered items onto evenly spaced keys. -/
def rebalance (count : Nat) : Except Message (List JsString) := do
  if count = 0 then return []
  let length ← ix.widen (2 * (count + 1)) 64 2
  return ix.spacedKeys count length count 0 0

end FractionalIndexer

/-- `new FractionalIndexer()`: Base62 with seed `'M'`. -/
def base62 : FractionalIndexer where
  alphabet := base62Alphabet
  seed := 77
  two_le_length := by decide
  sorted := by decide
  seed_mem := by decide
  seed_ne_zero := by decide

/-! ## `PositionService` (backend/src/common/ordering/position.service.ts) -/

namespace PositionService

/-- A key strictly between `prev` and `next`. -/
def keyBetween (prev next : Option JsString) : Except FractionalIndexer.Message JsString :=
  base62.getIntermediateKey prev next

/-- A key that sorts after `last`. -/
def keyForAppend (last : Option JsString) : Except FractionalIndexer.Message JsString :=
  base62.getIntermediateKey last none

/-- A well-formed Base62 key. -/
def isValid (key : JsString) : Bool := base62.isValidKey key

/-- `count` evenly spaced keys in ascending order. -/
def rebalancedKeys (count : Nat) : Except FractionalIndexer.Message (List JsString) :=
  base62.rebalance count

end PositionService

end FlowLogix.Ordering
