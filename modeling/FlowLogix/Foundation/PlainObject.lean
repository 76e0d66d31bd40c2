/-
  Foundation/PlainObject.lean --- plain ECMAScript objects read by computed names.

  An object written `{}`, or parsed from JSON, inherits from `Object.prototype`.  A
  program that uses one as a map and reads `object[key]` gets the own property of that
  name, and where there is none the member `Object.prototype` has under the name: a
  function, or `Object.prototype` itself for `__proto__`, and not `undefined`.  Assigning
  to `__proto__` calls a setter, which makes no own property: an object, an array or `null`
  becomes the prototype, and any other value is dropped.

  A `JsObject` has own properties alone.  A `PlainObject` is read and written as above;
  while its prototype is `Object.prototype`, the two agree on every name that is no member
  of it.
-/
import FlowLogix.Foundation.Dict

set_option autoImplicit false

namespace FlowLogix.Foundation

/-- The names of the members of `Object.prototype`. -/
def objectPrototype : List String :=
  ["constructor", "__defineGetter__", "__defineSetter__", "hasOwnProperty", "__lookupGetter__",
    "__lookupSetter__", "isPrototypeOf", "propertyIsEnumerable", "toString", "valueOf",
    "__proto__", "toLocaleString"]

/-- A dictionary with none of these names. -/
def OrdinaryNames {α : Type} (d : JsObject α) : Prop := ∀ key ∈ objectPrototype, key ∉ d

instance {α : Type} (d : JsObject α) : Decidable (OrdinaryNames d) :=
  inferInstanceAs (Decidable (∀ key ∈ objectPrototype, key ∉ d))

/-- What a property holds: a value of the program, or a member of `Object.prototype` that
was read under its name. -/
inductive Property (α : Type) where
  | value (a : α)
  | inherited (name : String)
  deriving DecidableEq

/-- What an object inherits from. -/
structure Prototype (α : Type) where
  /-- what is read under a name that is no own property -/
  member : String → Option (Property α)
  /-- assigning to `__proto__` calls the setter of `Object.prototype` -/
  setter : Bool

/-- `Object.prototype`. -/
def Prototype.ordinary {α : Type} : Prototype α where
  member key := if key ∈ objectPrototype then some (.inherited key) else none
  setter := true

theorem Prototype.member_ordinary {α : Type} {key : String} (hkey : key ∉ objectPrototype) :
    (Prototype.ordinary : Prototype α).member key = none :=
  if_neg hkey

/-- `null`. -/
def Prototype.null {α : Type} : Prototype α where
  member _ := none
  setter := false

/-- A plain object. -/
structure PlainObject (α : Type) where
  own : JsObject (Property α)
  proto : Prototype α

variable {α K : Type}

namespace PlainObject

/-- `{}`. -/
def empty : PlainObject α where
  own := ∅
  proto := .ordinary

/-- The object with the own properties of a dictionary. -/
def ofDict (d : JsObject α) : PlainObject α where
  own := d.mapValues .value
  proto := .ordinary

/-- `object[key]`, `none` standing for `undefined`. -/
def get (o : PlainObject α) (key : String) : Option (Property α) :=
  match o.own.lookup key with
  | some p => some p
  | none => o.proto.member key

/-- `object[key] ?? a`, for values that are not nullish. -/
def getD (o : PlainObject α) (key : String) (a : α) : Property α := (o.get key).getD (.value a)

/-- `object[key] = p`.  `asPrototype` is what the setter of `__proto__` makes of a value;
the one member of `Object.prototype` that is read under that name is `Object.prototype`. -/
def set (asPrototype : α → Option (Prototype α)) (o : PlainObject α) (key : String)
    (p : Property α) : PlainObject α :=
  if key = "__proto__" ∧ o.proto.setter = true ∧ key ∉ o.own then
    match p with
    | .value a => { o with proto := (asPrototype a).getD o.proto }
    | .inherited _ => { o with proto := .ordinary }
  else { o with own := o.own.insert key p }

/-! ## Reading -/

section Reading

variable {o : PlainObject α} {key : String}

theorem getD_of_lookup {p : Property α} (h : o.own.lookup key = some p) (a : α) :
    o.getD key a = p := by
  simp [getD, get, h]

/-- A name the prototype does not have. -/
theorem getD_of_ordinary (h : key ∉ o.own) (hkey : o.proto.member key = none) (a : α) :
    o.getD key a = .value a := by
  simp [getD, get, AList.lookup_eq_none.mpr h, hkey]

/-- A name `Object.prototype` has. -/
theorem getD_of_inherited (h : key ∉ o.own) (hproto : o.proto = .ordinary)
    (hkey : key ∈ objectPrototype) (a : α) : o.getD key a = .inherited key := by
  simp [getD, get, AList.lookup_eq_none.mpr h, hproto, Prototype.ordinary, hkey]

variable {d : JsObject α}

theorem lookup_ofDict (d : JsObject α) (key : String) :
    (ofDict d).own.lookup key = (d.lookup key).map .value :=
  Dict.lookup_mapValues Property.value d key

theorem mem_ofDict : key ∈ (ofDict d).own ↔ key ∈ d := by
  rw [← AList.lookup_isSome, lookup_ofDict, Option.isSome_map, AList.lookup_isSome]

theorem getD_ofDict_of_lookup {b : α} (h : d.lookup key = some b) (a : α) :
    (ofDict d).getD key a = .value b :=
  getD_of_lookup (by rw [lookup_ofDict, h, Option.map_some]) a

/-- An own property, or a name `Object.prototype` does not have, reads as in the
dictionary. -/
theorem getD_ofDict (h : key ∈ d ∨ key ∉ objectPrototype) (a : α) :
    (ofDict d).getD key a = .value ((d.lookup key).getD a) := by
  cases hlookup : d.lookup key with
  | some b => exact getD_ofDict_of_lookup hlookup a
  | none =>
      have hnot : key ∉ d := AList.lookup_eq_none.mp hlookup
      exact getD_of_ordinary (mt mem_ofDict.mp hnot)
        (Prototype.member_ordinary (h.resolve_left hnot)) a

theorem getD_ofDict_of_inherited (h : key ∉ d) (hkey : key ∈ objectPrototype) (a : α) :
    (ofDict d).getD key a = .inherited key :=
  getD_of_inherited (mt mem_ofDict.mp h) rfl hkey a

end Reading

/-! ## Writing under every key of a list -/

section Writing

variable {asPrototype : α → Option (Prototype α)} {f : String → Property α}

theorem set_of_ne {o : PlainObject α} {key : String} (h : key ≠ "__proto__") (p : Property α) :
    o.set asPrototype key p = { o with own := o.own.insert key p } :=
  if_neg fun hproto => h hproto.1

/-- The setter of `__proto__` makes no own property. -/
theorem own_set_proto (asPrototype : α → Option (Prototype α)) {o : PlainObject α}
    (hsetter : o.proto.setter = true) (h : "__proto__" ∉ o.own) (p : Property α) :
    (o.set asPrototype "__proto__" p).own = o.own := by
  unfold set
  rw [if_pos ⟨rfl, hsetter, h⟩]
  cases p <;> rfl

/-- Assigning `f key` under each key of a list, in order. -/
def setAll (asPrototype : α → Option (Prototype α)) (f : String → Property α)
    (keys : List String) (o : PlainObject α) : PlainObject α :=
  keys.foldl (fun o key => o.set asPrototype key (f key)) o

/-- The own properties after the keys of a list are written, each once.  The induction is
on the list; the setter of `__proto__` is still there when it is reached. -/
theorem lookup_setAll {keys : List String} (hkeys : keys.Nodup) {o : PlainObject α}
    (hown : "__proto__" ∉ o.own) (hsetter : "__proto__" ∈ keys → o.proto.setter = true)
    (key : String) : (o.setAll asPrototype f keys).own.lookup key =
      if key ∈ keys ∧ key ≠ "__proto__" then some (f key) else o.own.lookup key := by
  induction keys generalizing o with
  | nil => simp [setAll]
  | cons first rest ih =>
      obtain ⟨hfirst, hrest⟩ := List.nodup_cons.mp hkeys
      show ((o.set asPrototype first (f first)).setAll asPrototype f rest).own.lookup key = _
      by_cases hproto : first = "__proto__"
      · subst hproto
        have hset := own_set_proto asPrototype (hsetter List.mem_cons_self) hown (f "__proto__")
        rw [ih hrest (by rwa [hset]) fun hmem => absurd hmem hfirst, hset]
        refine if_congr ?_ rfl rfl
        rw [List.mem_cons]
        tauto
      · have hown' : "__proto__" ∉ (o.set asPrototype first (f first)).own := by
          rw [set_of_ne hproto, AList.mem_insert]
          tauto
        have hsetter' : "__proto__" ∈ rest →
            (o.set asPrototype first (f first)).proto.setter = true := by
          intro hmem
          rw [set_of_ne hproto]
          exact hsetter (List.mem_cons_of_mem _ hmem)
        rw [ih hrest hown' hsetter', set_of_ne hproto, Dict.lookup_insert_eq]
        by_cases hkey : key = first
        · subst hkey
          simp [hfirst, hproto]
        · simp [hkey]

/-- The keys of a list, written into an empty object. -/
theorem lookup_setAll_empty {keys : List String} (hkeys : keys.Nodup) (key : String) :
    ((empty : PlainObject α).setAll asPrototype f keys).own.lookup key =
      if key ∈ keys ∧ key ≠ "__proto__" then some (f key) else none :=
  lookup_setAll hkeys (AList.notMem_empty _) (fun _ => rfl) key

/-- The prototype stays one that every value written under `__proto__` leaves or replaces
by such a one. -/
theorem proto_setAll {P : Prototype α → Prop} {keys : List String} {o : PlainObject α}
    (hordinary : P .ordinary) (ho : P o.proto)
    (hvalue : "__proto__" ∈ keys → ∀ a, f "__proto__" = .value a →
      ∀ proto, asPrototype a = some proto → P proto) :
    P (o.setAll asPrototype f keys).proto := by
  induction keys generalizing o with
  | nil => exact ho
  | cons first rest ih =>
      refine ih (o := o.set asPrototype first (f first)) ?_ fun hmem =>
        hvalue (List.mem_cons_of_mem _ hmem)
      unfold set
      split
      · rename_i hproto
        obtain ⟨rfl, -⟩ := hproto
        cases hf : f "__proto__" with
        | inherited name => exact hordinary
        | value a =>
            show P ((asPrototype a).getD o.proto)
            cases ha : asPrototype a with
            | none => exact ho
            | some proto => exact hvalue List.mem_cons_self a hf proto ha
      · exact ho

end Writing

end PlainObject

/-! ## Members of `Object.prototype` as numbers -/

/-- `Number(p)`, `none` standing for `NaN`: no member of `Object.prototype` converts to a
number. -/
def Property.number : Property K → Option K
  | .value a => some a
  | .inherited _ => none

section Number

variable [LinearOrder K]

/-- `a > b`; `NaN` on either side makes a comparison false. -/
def numberGt (a b : Option K) : Bool :=
  match a, b with
  | some x, some y => decide (x > y)
  | _, _ => false

/-- `a >= b`. -/
def numberGe (a b : Option K) : Bool :=
  match a, b with
  | some x, some y => decide (x ≥ y)
  | _, _ => false

/-- `a !== b`: `NaN` differs from every number, itself included. -/
def numberNe (a b : Option K) : Bool :=
  match a, b with
  | some x, some y => decide (x ≠ y)
  | _, _ => true

/-- `Math.max(a, b)`. -/
def numberMax (a b : Option K) : Option K :=
  match a, b with
  | some x, some y => some (max x y)
  | _, _ => none

theorem ite_numberGt {ω : Type} (a b : K) (x y : ω) :
    (if numberGt (some a) (some b) then x else y) = if a > b then x else y := by
  simp [numberGt]

theorem ite_numberNe {ω : Type} (a b : K) (x y : ω) :
    (if numberNe (some a) (some b) then x else y) = if a ≠ b then x else y := by
  by_cases h : a = b
  · simp [numberNe, h]
  · simp [numberNe, h]

theorem foldl_numberMax_none (l : List (Option K)) : l.foldl numberMax none = none := by
  induction l with
  | nil => rfl
  | cons a rest ih => exact ih

theorem foldl_numberMax_of_none_mem {l : List (Option K)} (h : none ∈ l) (a : Option K) :
    l.foldl numberMax a = none := by
  induction l generalizing a with
  | nil => simp at h
  | cons b rest ih =>
      rcases List.mem_cons.mp h with rfl | hrest
      · rw [List.foldl_cons, show numberMax a none = none by cases a <;> rfl]
        exact foldl_numberMax_none rest
      · exact ih hrest (numberMax a b)

theorem foldl_numberMax_map_some (l : List K) (a : K) :
    (l.map some).foldl numberMax (some a) = some (l.foldl max a) := by
  induction l generalizing a with
  | nil => rfl
  | cons b rest ih => exact ih (max a b)

variable [Zero K]

/-- `Math.max(0, ...Object.values(object))`. -/
def PlainObject.mathMax (o : PlainObject K) : Option K :=
  (o.own.values.map Property.number).foldl numberMax (some 0)

/-- One inherited member makes it `NaN`. -/
theorem PlainObject.mathMax_of_inherited {o : PlainObject K} {key name : String}
    (h : o.own.lookup key = some (.inherited name)) : o.mathMax = none := by
  refine foldl_numberMax_of_none_mem ?_ (some 0)
  exact List.mem_map.mpr ⟨_, Dict.mem_values_iff.mpr ⟨key, h⟩, rfl⟩

/-- Without one it is the greatest of the values, and 0. -/
theorem PlainObject.mathMax_of_values {o : PlainObject K}
    (h : ∀ key p, o.own.lookup key = some p → ∃ a, p = .value a) :
    o.mathMax = some (o.own.filterMapValues Property.number).mathMax := by
  have hvalues : o.own.values ∈ Set.range (List.map (Property.value (α := K))) := by
    rw [Set.range_list_map]
    intro p hp
    obtain ⟨key, hkey⟩ := Dict.mem_values_iff.mp hp
    obtain ⟨a, rfl⟩ := h key p hkey
    exact ⟨a, rfl⟩
  obtain ⟨l, hl⟩ := hvalues
  rw [PlainObject.mathMax, ← hl, List.map_map,
    show Property.number ∘ Property.value = (some : K → Option K) from rfl,
    foldl_numberMax_map_some]
  refine congrArg some (eq_of_forall_ge_iff fun x => ?_)
  rw [Dict.foldl_max_le_iff, Dict.mathMax_le_iff]
  refine and_congr_right fun _ => ?_
  have hmem : ∀ a, a ∈ l ↔ ∃ key, (o.own.filterMapValues Property.number).lookup key = some a := by
    intro a
    rw [show a ∈ l ↔ Property.value a ∈ o.own.values by rw [← hl]; simp, Dict.mem_values_iff]
    refine exists_congr fun key => ?_
    rw [Dict.lookup_filterMapValues, Option.bind_eq_some_iff]
    refine ⟨fun hkey => ⟨_, hkey, rfl⟩, ?_⟩
    rintro ⟨p, hp, hnumber⟩
    obtain ⟨b, rfl⟩ := h key p hp
    rwa [← Option.some.inj hnumber]
  simp only [hmem]
  exact ⟨fun hx key a hkey => hx a ⟨key, hkey⟩,
    fun hx a ha => ha.elim fun key hkey => hx key a hkey⟩

/-- Its upper bounds are those of 0 and of every property. -/
theorem PlainObject.mathMax_le_iff {o : PlainObject K} {x : K} :
    (∃ m, o.mathMax = some m ∧ m ≤ x) ↔
      0 ≤ x ∧ ∀ key p, o.own.lookup key = some p → ∃ a, p = .value a ∧ a ≤ x := by
  by_cases h : ∀ key p, o.own.lookup key = some p → ∃ a, p = .value a
  · simp only [mathMax_of_values h, Option.some.injEq, exists_eq_left', Dict.mathMax_le_iff,
      Dict.lookup_filterMapValues, Option.bind_eq_some_iff]
    refine and_congr_right fun _ => forall_congr' fun key => ⟨fun hx p hp => ?_, fun hx a ha => ?_⟩
    · obtain ⟨a, rfl⟩ := h key p hp
      exact ⟨a, rfl, hx a ⟨_, hp, rfl⟩⟩
    · obtain ⟨p, hp, hnumber⟩ := ha
      obtain ⟨b, rfl, hb⟩ := hx p hp
      rwa [← Option.some.inj hnumber]
  · refine iff_of_false ?_ fun hx => h fun key p hp => (hx.2 key p hp).imp fun _ => And.left
    push Not at h
    obtain ⟨key, p, hp, hvalue⟩ := h
    cases p with
    | value a => exact absurd rfl (hvalue a)
    | inherited name => simp [mathMax_of_inherited hp]

/-- It depends on the own properties only. -/
theorem PlainObject.mathMax_congr {o o' : PlainObject K}
    (h : ∀ key, o.own.lookup key = o'.own.lookup key) : o.mathMax = o'.mathMax := by
  have hbound : ∀ x, (∃ m, o.mathMax = some m ∧ m ≤ x) ↔ ∃ m, o'.mathMax = some m ∧ m ≤ x := by
    intro x
    simp only [PlainObject.mathMax_le_iff, h]
  cases hmax : o.mathMax with
  | none =>
      cases hmax' : o'.mathMax with
      | none => rfl
      | some m' =>
          obtain ⟨m, hm, -⟩ := (hbound m').mpr ⟨m', hmax', le_rfl⟩
          exact absurd (hmax.symm.trans hm) (by simp)
  | some m =>
      obtain ⟨m', hm', hle⟩ := (hbound m).mp ⟨m, hmax, le_rfl⟩
      obtain ⟨m'', hm'', hle'⟩ := (hbound m').mpr ⟨m', hm', le_rfl⟩
      obtain rfl := Option.some.inj (hmax.symm.trans hm'')
      rw [hm', le_antisymm hle hle']

theorem PlainObject.mathMax_ofDict (d : JsObject K) :
    (PlainObject.ofDict d).mathMax = some d.mathMax := by
  have hvalues : ∀ key p, (PlainObject.ofDict d).own.lookup key = some p → ∃ a, p = .value a := by
    intro key p hp
    rw [PlainObject.lookup_ofDict] at hp
    obtain ⟨a, -, rfl⟩ := Option.map_eq_some_iff.mp hp
    exact ⟨a, rfl⟩
  rw [PlainObject.mathMax_of_values hvalues]
  refine congrArg some (Dict.mathMax_congr fun key => ?_)
  rw [Dict.lookup_filterMapValues, PlainObject.lookup_ofDict]
  cases d.lookup key <;> rfl

end Number

end FlowLogix.Foundation
