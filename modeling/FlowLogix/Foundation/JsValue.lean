/-
  Foundation/JsValue.lean --- what `JSON.parse` returns.

  The numbers are a parameter.  Members are kept in order; a property that is not there
  reads as `none`, which is `undefined`.
-/
import FlowLogix.Foundation.Dict
import FlowLogix.Foundation.Json

set_option autoImplicit false

namespace FlowLogix.Foundation

/-- The number a decimal denotes. -/
def JsNumber.toRat (x : JsNumber) : ℚ := x.coeff * 10 ^ x.scale

/-- A parsed value with numbers in `N`. -/
inductive JsValue (N : Type) where
  | null
  | bool (b : Bool)
  | num (x : N)
  | str (s : JsString)
  | arr (elements : List (JsValue N))
  | obj (members : List (JsString × JsValue N))

namespace JsValue

variable {N : Type}

/-- `typeof v === 'object' && v !== null`: an object or an array. -/
def isObject : JsValue N → Bool
  | .arr _ | .obj _ => true
  | .null | .bool _ | .num _ | .str _ => false

/-- An object that is not an array. -/
def isPlainObject : JsValue N → Bool
  | .obj _ => true
  | .null | .bool _ | .num _ | .str _ | .arr _ => false

/-- `typeof v === 'string'`. -/
def isString : JsValue N → Bool
  | .str _ => true
  | .null | .bool _ | .num _ | .arr _ | .obj _ => false

/-- The string a value is, if it is one. -/
def asString : JsValue N → Option JsString
  | .str s => some s
  | .null | .bool _ | .num _ | .arr _ | .obj _ => none

/-- `typeof v === 'number'`. -/
def isNumber : JsValue N → Bool
  | .num _ => true
  | .null | .bool _ | .str _ | .arr _ | .obj _ => false

/-- An own property of an object.  The elements of an array are not read this way. -/
def own (v : JsValue N) (key : JsString) : Option (JsValue N) :=
  match v with
  | .obj members => members.lookup key
  | .null | .bool _ | .num _ | .str _ | .arr _ => none

/-- The property of a name, for the names the sources write. -/
def get (v : JsValue N) (name : String) : Option (JsValue N) := v.own (js name)

/-- `Object.values`. -/
def values : JsValue N → List (JsValue N)
  | .arr elements => elements
  | .obj members => members.map Prod.snd
  | .null | .bool _ | .num _ | .str _ => []

theorem mem_values_of_own {v x : JsValue N} {key : JsString} (h : v.own key = some x) :
    x ∈ v.values := by
  cases v with
  | obj members =>
      obtain ⟨before, after, rfl, -⟩ := List.lookup_eq_some_iff.mp h
      simp [values]
  | null | bool | num | str | arr => cases h

theorem isString_iff {v : JsValue N} : v.isString = true ↔ ∃ s, v = .str s := by
  cases v <;> simp [isString]

theorem isNumber_iff {v : JsValue N} : v.isNumber = true ↔ ∃ x, v = .num x := by
  cases v <;> simp [isNumber]

/-! ## Sending a value -/

mutual

/-- A JSON value after `JSON.stringify` and `JSON.parse`. -/
def ofJson (number : JsNumber → N) : Json → JsValue N
  | .null => .null
  | .bool b => .bool b
  | .num x => .num (number x)
  | .str s => .str s
  | .arr elements => .arr (ofElements number elements)
  | .obj members => .obj (ofMembers number members)

def ofElements (number : JsNumber → N) : List Json → List (JsValue N)
  | [] => []
  | x :: rest => ofJson number x :: ofElements number rest

def ofMembers (number : JsNumber → N) : List (JsString × Json) → List (JsString × JsValue N)
  | [] => []
  | (k, x) :: rest => (k, ofJson number x) :: ofMembers number rest

end

/-- An object sent with its members. -/
def ofDict {α : Type} (value : α → JsValue N) (d : JsObject α) : JsValue N :=
  .obj (d.entries.map fun e => (js e.1, value e.2))

end JsValue

end FlowLogix.Foundation
