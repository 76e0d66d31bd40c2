/-
  Foundation/Json.lean --- JSON values and the text `JSON.stringify` gives them.

  Numbers.  A finite ECMAScript number is identified with the decimal
  `Number::toString` prints for it: the specification picks integers `s`, `k`,
  `n` with `s * 10^(n - k)` the number's value and `k` as small as possible, and
  those three determine the text.  `JsNumber` keeps `s` with its sign
  (`coeff`) and `n - k` (`scale`); the field `normal` says that `k` is least.

  Text.  `stringify` is `JSON.stringify` on a value without `toJSON`, in the
  member order of the value.  `canonicalJson` is the reading both merges apply
  to a field before they compare it, `JSON.stringify(v ?? null) ?? 'null'`, with
  `none` for `undefined`.
-/
import FlowLogix.Foundation.JsString

set_option autoImplicit false

namespace FlowLogix.Foundation

/-! ## Numbers -/

/-- A finite number, as the decimal `coeff * 10^scale` that denotes it. -/
structure JsNumber where
  coeff : Int
  scale : Int
  /-- no shorter digit string denotes the same number -/
  normal : coeff % 10 ≠ 0 ∨ (coeff = 0 ∧ scale = 0)
  deriving DecidableEq

/-- Code unit of a decimal digit. -/
def digitUnit (d : Nat) : CodeUnit := Fin.ofNat 65536 (48 + d % 10)

/-- The decimal digits of a natural number, most significant first. -/
def decimalDigits (n : Nat) : JsString :=
  if n = 0 then js "0" else (Nat.digits 10 n).reverse.map digitUnit

/-- `count` zeros. -/
def zeros (count : Int) : JsString := List.replicate count.toNat (digitUnit 0)

/-- The unsigned part of `Number::toString`, for a non-zero number with digits
`s` (`k` of them) and decimal point after the `n`-th. -/
def magnitudeText (s : JsString) (n : Int) : JsString :=
  if (s.length : Int) ≤ n ∧ n ≤ 21 then s ++ zeros (n - s.length)
  else if 0 < n ∧ n ≤ 21 then s.take n.toNat ++ js "." ++ s.drop n.toNat
  else if -6 < n ∧ n ≤ 0 then js "0." ++ zeros (-n) ++ s
  else
    s.take 1 ++ (if s.length = 1 then [] else js "." ++ s.drop 1) ++ js "e" ++
      (if 0 ≤ n - 1 then js "+" else js "-") ++ decimalDigits (n - 1).natAbs

/-- `Number::toString` of a finite number in base ten. -/
def numberText (x : JsNumber) : JsString :=
  if x.coeff = 0 then js "0"
  else
    let s := decimalDigits x.coeff.natAbs
    let text := magnitudeText s (s.length + x.scale)
    if x.coeff < 0 then js "-" ++ text else text

/-! ## Values -/

/-- A JSON value.  An object keeps its members in order. -/
inductive Json where
  | null
  | bool (b : Bool)
  | num (x : JsNumber)
  | str (s : JsString)
  | arr (elements : List Json)
  | obj (members : List (JsString × Json))
  deriving Inhabited

namespace Json

mutual

/-- Equality of JSON values is decidable, member order included. -/
def decEq : (a b : Json) → Decidable (a = b)
  | .null, .null => isTrue rfl
  | .bool a, .bool b => decidable_of_iff (a = b) (by simp)
  | .num a, .num b => decidable_of_iff (a = b) (by simp)
  | .str a, .str b => decidable_of_iff (a = b) (by simp)
  | .arr a, .arr b =>
      match decEqElements a b with
      | isTrue h => isTrue (by rw [h])
      | isFalse h => isFalse (by simpa using h)
  | .obj a, .obj b =>
      match decEqMembers a b with
      | isTrue h => isTrue (by rw [h])
      | isFalse h => isFalse (by simpa using h)
  | .null, .bool _ | .null, .num _ | .null, .str _ | .null, .arr _ | .null, .obj _
  | .bool _, .null | .bool _, .num _ | .bool _, .str _ | .bool _, .arr _ | .bool _, .obj _
  | .num _, .null | .num _, .bool _ | .num _, .str _ | .num _, .arr _ | .num _, .obj _
  | .str _, .null | .str _, .bool _ | .str _, .num _ | .str _, .arr _ | .str _, .obj _
  | .arr _, .null | .arr _, .bool _ | .arr _, .num _ | .arr _, .str _ | .arr _, .obj _
  | .obj _, .null | .obj _, .bool _ | .obj _, .num _ | .obj _, .str _ | .obj _, .arr _ =>
      isFalse (by simp)

def decEqElements : (a b : List Json) → Decidable (a = b)
  | [], [] => isTrue rfl
  | x :: xs, y :: ys =>
      match decEq x y, decEqElements xs ys with
      | isTrue h, isTrue h' => isTrue (by rw [h, h'])
      | isFalse h, _ => isFalse (by simp [h])
      | _, isFalse h => isFalse (by simp [h])
  | [], _ :: _ | _ :: _, [] => isFalse (by simp)

def decEqMembers : (a b : List (JsString × Json)) → Decidable (a = b)
  | [], [] => isTrue rfl
  | (k, x) :: xs, (l, y) :: ys =>
      match (inferInstance : Decidable (k = l)), decEq x y, decEqMembers xs ys with
      | isTrue h, isTrue h', isTrue h'' => isTrue (by rw [h, h', h''])
      | isFalse h, _, _ => isFalse (by simp [h])
      | _, isFalse h, _ => isFalse (by simp [h])
      | _, _, isFalse h => isFalse (by simp [h])
  | [], _ :: _ | _ :: _, [] => isFalse (by simp)

end

instance : DecidableEq Json := decEq

end Json

/-! ## Text -/

/-- One lowercase hexadecimal digit. -/
def hexUnit (d : Nat) : CodeUnit :=
  Fin.ofNat 65536 (if d % 16 < 10 then 48 + d % 16 else 87 + d % 16)

/-- The `\uXXXX` form of a code unit. -/
def unicodeEscape (u : CodeUnit) : JsString :=
  js "\\u" ++ [hexUnit (u.val / 4096), hexUnit (u.val / 256), hexUnit (u.val / 16), hexUnit u.val]

/-- A code unit that is not part of a surrogate pair, as it stands between the
quotes of a JSON string. -/
def quoteUnit (u : CodeUnit) : JsString :=
  if u.val = 8 then js "\\b"
  else if u.val = 9 then js "\\t"
  else if u.val = 10 then js "\\n"
  else if u.val = 12 then js "\\f"
  else if u.val = 13 then js "\\r"
  else if u.val = 34 then js "\\\""
  else if u.val = 92 then js "\\\\"
  else if u.val < 32 || isHighSurrogate u || isLowSurrogate u then unicodeEscape u
  else [u]

/-- The text between the quotes: surrogate pairs are copied, everything else
goes through `quoteUnit`. -/
def quoteUnits : JsString → JsString
  | [] => []
  | [u] => quoteUnit u
  | u :: v :: rest =>
      if isHighSurrogate u && isLowSurrogate v then u :: v :: quoteUnits rest
      else quoteUnit u ++ quoteUnits (v :: rest)

/-- `QuoteJSONString`. -/
def quote (s : JsString) : JsString := js "\"" ++ quoteUnits s ++ js "\""

mutual

/-- `JSON.stringify` of a JSON value. -/
def stringify : Json → JsString
  | .null => js "null"
  | .bool true => js "true"
  | .bool false => js "false"
  | .num x => numberText x
  | .str s => quote s
  | .arr elements => js "[" ++ stringifyElements elements ++ js "]"
  | .obj members => js "\x7b" ++ stringifyMembers members ++ js "\x7d"

def stringifyElements : List Json → JsString
  | [] => []
  | [x] => stringify x
  | x :: y :: rest => stringify x ++ js "," ++ stringifyElements (y :: rest)

def stringifyMembers : List (JsString × Json) → JsString
  | [] => []
  | [(k, x)] => quote k ++ js ":" ++ stringify x
  | (k, x) :: m :: rest =>
      quote k ++ js ":" ++ stringify x ++ js "," ++ stringifyMembers (m :: rest)

end

/-- `JSON.stringify(v ?? null) ?? 'null'`, where `none` is `undefined`. -/
def canonicalJson (v : Option Json) : JsString := stringify (v.getD .null)

@[simp] theorem canonicalJson_none : canonicalJson none = js "null" := rfl

@[simp] theorem canonicalJson_some (v : Json) : canonicalJson (some v) = stringify v := rfl

/-! ## Where `null` sorts

A field that one side lacks is compared as `null`, so the first character of
the other side's text decides the comparison. -/

/-- The text starts with a character no greater than `9`. -/
def StartsLow (s : JsString) : Prop := ∃ u t, s = u :: t ∧ u.val ≤ 57

theorem StartsLow.append {s : JsString} (h : StartsLow s) (t : JsString) :
    StartsLow (s ++ t) := by
  obtain ⟨u, r, rfl, hu⟩ := h
  exact ⟨u, r ++ t, rfl, hu⟩

theorem StartsLow.take {s : JsString} (h : StartsLow s) {n : Nat} (hn : 0 < n) :
    StartsLow (s.take n) := by
  obtain ⟨u, r, rfl, hu⟩ := h
  obtain ⟨m, rfl⟩ := Nat.exists_eq_add_of_lt hn
  exact ⟨u, r.take (0 + m), rfl, hu⟩

theorem digitUnit_val_le (d : Nat) : (digitUnit d).val ≤ 57 := by
  have hlt : 48 + d % 10 < 65536 := by omega
  simp only [digitUnit, Fin.val_ofNat, Nat.mod_eq_of_lt hlt]
  omega

theorem startsLow_decimalDigits (n : Nat) : StartsLow (decimalDigits n) := by
  unfold decimalDigits
  split
  · exact ⟨digitUnit 0, [], by decide, by decide⟩
  · rename_i hn
    cases h : (Nat.digits 10 n).reverse with
    | nil => exact absurd (Nat.digits_eq_nil_iff_eq_zero.mp (by simpa using h)) hn
    | cons d rest => exact ⟨digitUnit d, rest.map digitUnit, rfl, digitUnit_val_le d⟩

theorem startsLow_magnitudeText {s : JsString} (h : StartsLow s) (n : Int) :
    StartsLow (magnitudeText s n) := by
  unfold magnitudeText
  split
  · exact h.append _
  · split
    · rename_i hn
      rw [List.append_assoc]
      exact (h.take (by omega)).append _
    · split
      · rw [List.append_assoc]
        exact StartsLow.append ⟨digitUnit 0, js ".", by decide, by decide⟩ _
      · simp only [List.append_assoc]
        exact (h.take Nat.one_pos).append _

theorem startsLow_numberText (x : JsNumber) : StartsLow (numberText x) := by
  have hzero : StartsLow (js "0") := ⟨digitUnit 0, [], by decide, by decide⟩
  have hminus : ∀ t, StartsLow (js "-" ++ t) := fun t => ⟨45, t, rfl, by decide⟩
  unfold numberText
  split
  · exact hzero
  · dsimp only
    split
    · exact hminus _
    · exact startsLow_magnitudeText (startsLow_decimalDigits _) _

/-- Exactly `null`, `true` and objects have a text not below the text of
`null`. -/
theorem null_le_stringify_iff (v : Json) :
    js "null" ≤ stringify v ↔
      v = .null ∨ v = .bool true ∨ ∃ members, v = .obj members := by
  have hlow : ∀ (u : CodeUnit) (t : JsString), u < 110 → ¬ js "null" ≤ u :: t :=
    fun u t hu => not_le.mpr (cons_lt_of_head_lt hu t _)
  have hhigh : ∀ (u : CodeUnit) (t : JsString), 110 < u → js "null" ≤ u :: t :=
    fun u t hu => le_of_lt (cons_lt_of_head_lt hu _ t)
  cases v with
  | null => simp [stringify]
  | bool b =>
      cases b with
      | true =>
          have htext : stringify (.bool true) = 116 :: js "rue" := by decide
          simpa [htext] using hhigh 116 (js "rue") (by decide)
      | false =>
          have htext : stringify (.bool false) = 102 :: js "alse" := by decide
          simpa [htext] using hlow 102 (js "alse") (by decide)
  | num x =>
      obtain ⟨u, t, htext, hu⟩ := startsLow_numberText x
      have hlt : u < 110 := lt_of_le_of_lt (b := 57) hu (by decide)
      simpa [stringify, htext] using hlow u t hlt
  | str s =>
      have htext : stringify (.str s) = 34 :: (quoteUnits s ++ js "\"") := rfl
      simpa [htext] using hlow 34 (quoteUnits s ++ js "\"") (by decide)
  | arr elements =>
      have htext : stringify (.arr elements) =
          91 :: (stringifyElements elements ++ js "]") := rfl
      simpa [htext] using hlow 91 (stringifyElements elements ++ js "]") (by decide)
  | obj members =>
      have htext : stringify (.obj members) =
          123 :: (stringifyMembers members ++ js "\x7d") := rfl
      simpa [htext] using hhigh 123 (stringifyMembers members ++ js "\x7d") (by decide)

end FlowLogix.Foundation
