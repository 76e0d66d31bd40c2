/-
  Foundation/JsString.lean --- ECMAScript strings.

  An ECMAScript string is a finite sequence of 16-bit code units, and the
  relational operators compare two strings code unit by code unit.  That order
  is not the order of Unicode scalar values (a surrogate pair sorts below
  U+E000), and a string may hold a lone surrogate, so neither `String` nor
  `List Char` is the right carrier.  `JsString` is the sequence itself and its
  `<` is the lexicographic order Mathlib puts on lists.

  `js` reads a Lean literal as the string it denotes.
-/
import Mathlib

set_option autoImplicit false

namespace FlowLogix.Foundation

/-- A UTF-16 code unit. -/
abbrev CodeUnit : Type := Fin 65536

/-- An ECMAScript string.  `<` is the ECMAScript `<` on strings. -/
abbrev JsString : Type := List CodeUnit

-- under names of their own, so that every definition refers to the same ones
instance codeUnits_neZero : NeZero 65536 := ⟨by decide⟩

instance codeUnit_lawfulBEq : LawfulBEq CodeUnit := inferInstance

instance jsString_lawfulBEq : LawfulBEq JsString := inferInstance

/-- The UTF-16 encoding of one scalar value. -/
def encodeChar (c : Char) : JsString :=
  if c.toNat < 0x10000 then [Fin.ofNat 65536 c.toNat]
  else
    [Fin.ofNat 65536 (0xD800 + (c.toNat - 0x10000) / 0x400),
      Fin.ofNat 65536 (0xDC00 + (c.toNat - 0x10000) % 0x400)]

/-- A string literal of the source, as a sequence of code units. -/
def js (s : String) : JsString := s.toList.flatMap encodeChar

/-- A leading surrogate. -/
def isHighSurrogate (u : CodeUnit) : Bool := 0xD800 ≤ u.val && u.val < 0xDC00

/-- A trailing surrogate. -/
def isLowSurrogate (u : CodeUnit) : Bool := 0xDC00 ≤ u.val && u.val < 0xE000

/-- The code points of a string, as `for (const c of s)` visits them: a surrogate
pair is one, a lone surrogate is one. -/
def codePoints : JsString → List JsString
  | [] => []
  | [u] => [[u]]
  | u :: v :: rest =>
      if isHighSurrogate u && isLowSurrogate v then [u, v] :: codePoints rest
      else [u] :: codePoints (v :: rest)

/-- Number of code points.  This is the length a SQL `varchar(n)` bounds, where
`.length` counts code units. -/
def charLength (s : JsString) : Nat := (codePoints s).length

theorem charLength_le_length (s : JsString) : charLength s ≤ s.length := by
  unfold charLength
  induction s using codePoints.induct with
  | case1 => exact le_rfl
  | case2 u => exact le_rfl
  | case3 u v rest hpair ih =>
      rw [codePoints, if_pos hpair, List.length_cons, List.length_cons, List.length_cons]
      omega
  | case4 u v rest hpair ih =>
      rw [codePoints, if_neg hpair, List.length_cons, List.length_cons]
      omega

/-- The characters `String.prototype.trim` removes: white space and line
terminators. -/
def isWhiteSpace (u : CodeUnit) : Bool :=
  (9 ≤ u.val && u.val ≤ 13) || u.val == 0x20 || u.val == 0xA0 || u.val == 0x1680 ||
    (0x2000 ≤ u.val && u.val ≤ 0x200A) || u.val == 0x2028 || u.val == 0x2029 ||
    u.val == 0x202F || u.val == 0x205F || u.val == 0x3000 || u.val == 0xFEFF

/-- `String.prototype.trim`. -/
def trim (s : JsString) : JsString :=
  ((s.dropWhile isWhiteSpace).reverse.dropWhile isWhiteSpace).reverse

/-- `s.trim().length > 0`. -/
def hasNonBlank (s : JsString) : Bool := s.any fun u => !isWhiteSpace u

/-- A list that starts lower is lower, whatever follows. -/
theorem cons_lt_of_head_lt {u v : CodeUnit} (h : u < v) (s t : JsString) :
    u :: s < v :: t :=
  List.cons_lt_cons_iff.mpr (Or.inl h)

end FlowLogix.Foundation
