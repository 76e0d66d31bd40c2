/-
  Foundation/PlainRegister.lean --- last-writer-wins registers kept in plain objects.

  A record keeps its fields and a clock for each in two plain objects, and a merge compares
  `clocks[key] ?? 0` and `fields[key]` of two sides.  Under a name of `Object.prototype`
  that only one side has, it compares a number with a function: the two differ, neither is
  the greater, and the right side is taken whichever that is.  `rightWins` is the choice of
  the merge, `Merged` what a merge of two sides leaves.

  `Shows` relates such a record to dictionaries that hold the same registers, and
  `ShowsClocks` to dictionaries that hold the same clocks.  Sides that share their inherited
  names are merged as the dictionaries are: their clocks whatever they hold under
  `__proto__`, which no merge keeps (`ShowsClocks.merged`), their values where no object is
  made a prototype (`Shows.merged`).
-/
import FlowLogix.Foundation.PlainObject
import FlowLogix.Foundation.Register

set_option autoImplicit false

namespace FlowLogix.Foundation

/-! ## Comparing properties -/

/-- `JSON.stringify(p ?? null) ?? 'null'`: a function has no JSON text, and
`Object.prototype` has no enumerable member. -/
def Property.text : Property (Option Json) → JsString
  | .value v => canonicalJson v
  | .inherited name => if name = "__proto__" then js "{}" else js "null"

/-- Order of two properties by their canonical text. -/
def Property.compareValues (a b : Property (Option Json)) : Int :=
  if a.text < b.text then -1 else if a.text > b.text then 1 else 0

variable {K : Type}

/-! ## Values under `__proto__` -/

/-- The methods an array inherits beside the members of `Object.prototype`. -/
def arrayPrototype : List String :=
  ["at", "concat", "copyWithin", "entries", "every", "fill", "filter", "find", "findIndex",
    "findLast", "findLastIndex", "flat", "flatMap", "forEach", "includes", "indexOf", "join",
    "keys", "lastIndexOf", "map", "pop", "push", "reduce", "reduceRight", "reverse", "shift",
    "slice", "some", "sort", "splice", "toReversed", "toSorted", "toSpliced", "unshift",
    "values", "with"]

/-- `n * 10^scale`. -/
def JsNumber.ofDecimal (n : Nat) (scale : Int) : JsNumber :=
  if hzero : n = 0 then ⟨n, 0, Or.inr ⟨by omega, rfl⟩⟩
  else if hten : n % 10 = 0 then JsNumber.ofDecimal (n / 10) (scale + 1)
  else ⟨n, scale, Or.inl (by omega)⟩
  termination_by n

/-- What is read of an array by name. -/
def arrayMember (elements : List Json) (key : String) : Option (Property (Option Json)) :=
  if key = "length" then some (.value (some (.num (.ofDecimal elements.length 0))))
  else
    match elements.zipIdx.find? fun e => toString e.2 = key with
    | some e => some (.value (some e.1))
    | none =>
        if key ∈ arrayPrototype then some (.inherited key) else Prototype.ordinary.member key

/-- What the setter of `__proto__` makes of a value.  Under `__proto__` the prototype itself
is read then, unless it has a property of that name. -/
def asPrototype : Option Json → Option (Prototype (Option Json))
  | some .null => some .null
  | some (.arr elements) =>
      some {
        member := fun key =>
          if key = "__proto__" then some (.value (some (.arr elements)))
          else arrayMember elements key
        setter := true }
  | some (.obj members) =>
      some {
        member := fun key =>
          match members.lookup (js key) with
          | some v => some (.value (some v))
          | none =>
              if key = "__proto__" then some (.value (some (.obj members)))
              else Prototype.ordinary.member key
        setter := (members.lookup (js "__proto__")).isNone }
  | none | some (.bool _) | some (.num _) | some (.str _) => none

/-- `null`, `undefined`, or a member of `Object.prototype`. -/
def Property.Nullish : Property (Option Json) → Prop
  | .value v => v.getD .null = .null
  | .inherited _ => True

/-- Of these only `null` replaces a prototype. -/
theorem asPrototype_of_nullish {v : Option Json} (h : v.getD .null = .null)
    {proto : Prototype (Option Json)} (hproto : asPrototype v = some proto) : proto = .null := by
  cases v with
  | none => cases hproto
  | some x =>
      obtain rfl : x = .null := h
      exact (Option.some.inj hproto).symm

/-- They are what has the text of `null`. -/
theorem nullish_of_text {v : Option Json} (h : canonicalJson v = js "null") :
    v.getD .null = .null := by
  obtain hnull | htrue | ⟨members, hobj⟩ := (null_le_stringify_iff (v.getD .null)).mp h.ge
  · exact hnull
  · rw [canonicalJson, htrue] at h
    exact absurd h (by decide)
  · rw [canonicalJson, hobj] at h
    have hhead := congrArg List.head? h
    exact absurd (Option.some.inj hhead) (by decide)

section Choice

variable [LinearOrder K] {ω : Type}

/-- The winner of two field registers as they are read: the later clock, then the greater
value; `equal` when neither is greater. -/
def pickProperty (left right equal : ω) (lClock : Property K) (lValue : Property (Option Json))
    (rClock : Property K) (rValue : Property (Option Json)) : ω :=
  if lClock ≠ rClock then (if numberGt lClock.number rClock.number then left else right)
  else if lValue.compareValues rValue = 0 then equal
  else if lValue.compareValues rValue > 0 then left
  else right

variable {lClock rClock : Property K} {lValue rValue : Property (Option Json)}

/-- Every way of naming the outcomes takes the right side at once. -/
theorem pickProperty_eq_right_iff {left right equal : ω} (hl : left ≠ right)
    (he : equal ≠ right) :
    pickProperty left right equal lClock lValue rClock rValue = right ↔
      pickProperty false true false lClock lValue rClock rValue = true := by
  unfold pickProperty
  split
  · split <;> simp [hl]
  · split
    · simp [he]
    · split <;> simp [hl]

/-- On one clock the texts decide. -/
theorem pickProperty_same {clock : Property K} :
    pickProperty false true false clock lValue clock rValue = true ↔
      lValue.text < rValue.text := by
  unfold pickProperty Property.compareValues
  rw [if_neg (not_not.mpr rfl)]
  by_cases hlt : lValue.text < rValue.text
  · simp [hlt]
  · by_cases hgt : rValue.text < lValue.text
    · simp [hlt, hgt]
    · simp [hlt, hgt]

/-- Two clocks that are numbers are compared as registers. -/
theorem pickProperty_values {a b : K} :
    pickProperty false true false (.value a) lValue (.value b) rValue = true ↔
      (toLex (a, lValue.text) : Stamp K) < toLex (b, rValue.text) := by
  rw [Prod.Lex.toLex_lt_toLex]
  by_cases hclock : a = b
  · subst hclock
    rw [pickProperty_same]
    simp
  · rw [pickProperty, if_pos fun heq => hclock (Property.value.inj heq)]
    by_cases hgt : b < a
    · simp [numberGt, Property.number, hgt, hgt.not_gt, hclock]
    · simp [numberGt, Property.number, hgt, lt_of_le_of_ne (not_lt.mp hgt) hclock]

/-- A number and an inherited member: the right side, whichever it is. -/
theorem pickProperty_inherited_right {a : K} {name : String} :
    pickProperty false true false (.value a) lValue (.inherited name) rValue = true := by
  simp [pickProperty, Property.number, numberGt]

theorem pickProperty_inherited_left {b : K} {name : String} :
    pickProperty false true false (.inherited name) lValue (.value b) rValue = true := by
  simp [pickProperty, Property.number, numberGt]

end Choice

/-! ## Records of registers -/

/-- Fields, and a clock for each. -/
structure PlainFields (K : Type) where
  fields : PlainObject (Option Json)
  clocks : PlainObject K

namespace PlainFields

/-- The fields and clocks of two dictionaries. -/
def ofDicts (fields : JsObject (Option Json)) (clocks : JsObject K) : PlainFields K where
  fields := .ofDict fields
  clocks := .ofDict clocks

/-- `fields[key]`. -/
def value (r : PlainFields K) (key : String) : Property (Option Json) := r.fields.getD key none

/-- `clocks[key] ?? 0`. -/
def clock [Zero K] (r : PlainFields K) (key : String) : Property K := r.clocks.getD key 0

/-- The register of a field as its own properties hold it, an absent field being `null` at
clock 0. -/
def register [Zero K] (r : PlainFields K) (key : String) : Property K × JsString :=
  ((r.clocks.own.lookup key).getD (.value 0), ((r.fields.own.lookup key).getD (.value none)).text)

/-- The key set of a merge: every field name of either side, once. -/
def keys (l r : PlainFields K) : List String := (l.fields.own.keys ++ r.fields.own.keys).dedup

theorem mem_keys {l r : PlainFields K} {key : String} :
    key ∈ keys l r ↔ key ∈ l.fields.own ∨ key ∈ r.fields.own := by
  simp [keys, AList.mem_keys]

theorem nodup_keys (l r : PlainFields K) : (keys l r).Nodup := List.nodup_dedup _

variable [LinearOrder K] [Zero K]

/-- A merge takes the field of its right side. -/
def rightWins (l r : PlainFields K) (key : String) : Bool :=
  pickProperty false true false (l.clock key) (l.value key) (r.clock key) (r.value key)

/-- The clock a merge assigns. -/
def mergedClock (l r : PlainFields K) (key : String) : Property K :=
  if rightWins l r key then r.clock key else l.clock key

/-- The value a merge assigns. -/
def mergedValue (l r : PlainFields K) (key : String) : Property (Option Json) :=
  if rightWins l r key then r.value key else l.value key

theorem mergedClock_of_eq {l r : PlainFields K} {key : String} (h : l.clock key = r.clock key) :
    mergedClock l r key = l.clock key := by
  rw [mergedClock, h]
  exact ite_self _

/-- What a merge of two sides leaves. -/
structure Merged (l r m : PlainFields K) : Prop where
  clocks : ∀ key, m.clocks.own.lookup key =
    if key ∈ keys l r ∧ key ≠ "__proto__" then some (mergedClock l r key) else none
  fields : ∀ key, m.fields.own.lookup key =
    if key ∈ keys l r ∧ key ≠ "__proto__" then some (mergedValue l r key) else none
  clocksProto : m.clocks.proto = .ordinary
  fieldsProto : ("__proto__" ∈ keys l r → (mergedValue l r "__proto__").Nullish) →
    m.fields.proto = .ordinary ∨ m.fields.proto = .null

/-- No merge keeps a property under `__proto__`. -/
theorem Merged.lookup_proto {l r m : PlainFields K} (h : Merged l r m) :
    m.clocks.own.lookup "__proto__" = none ∧ m.fields.own.lookup "__proto__" = none :=
  ⟨(h.clocks _).trans (if_neg fun hand => hand.2 rfl),
    (h.fields _).trans (if_neg fun hand => hand.2 rfl)⟩

/-- Assigning the winners into two new objects. -/
theorem merged_setAll (l r : PlainFields K) :
    Merged l r
      { fields := PlainObject.empty.setAll asPrototype (mergedValue l r) (keys l r)
        clocks := PlainObject.empty.setAll (fun _ => none) (mergedClock l r) (keys l r) } where
  clocks := PlainObject.lookup_setAll_empty (nodup_keys l r)
  fields := PlainObject.lookup_setAll_empty (nodup_keys l r)
  clocksProto := PlainObject.proto_setAll (P := fun proto => proto = .ordinary) rfl rfl
    fun _ _ _ _ hnone => by cases hnone
  fieldsProto hnullish := by
    refine PlainObject.proto_setAll (P := fun proto => proto = .ordinary ∨ proto = .null)
      (Or.inl rfl) (Or.inl rfl) fun hmem v hv proto hproto => Or.inr ?_
    have hvalue := hnullish hmem
    rw [hv] at hvalue
    exact asPrototype_of_nullish hvalue hproto

end PlainFields

/-! ## Registers of dictionaries -/

/-- The register of a dictionary as the register of a plain object. -/
def ofStamp (s : Stamp K) : Property K × JsString := (.value (ofLex s).1, (ofLex s).2)

theorem ofStamp_injective : Function.Injective (ofStamp (K := K)) := by
  intro s s' h
  obtain ⟨hclock, htext⟩ := Prod.mk.inj h
  exact ofLex.injective (Prod.ext (Property.value.inj hclock) htext)

/-- The register of an absent field. -/
def zeroStamp [Zero K] : Stamp K := toLex (0, js "null")

namespace PlainFields

variable [Zero K] {p : PlainFields K} {fields : JsObject (Option Json)} {clocks : JsObject K}
  {key : String}

/-- A merge leaves nothing to read under `__proto__`. -/
theorem Merged.register_proto [LinearOrder K] {l r m : PlainFields K} (h : Merged l r m) :
    m.register "__proto__" = ofStamp zeroStamp := by
  rw [register, h.lookup_proto.1, h.lookup_proto.2]
  rfl

/-- A field is read as the dictionaries read it. -/
structure ReadsOwn (p : PlainFields K) (fields : JsObject (Option Json)) (clocks : JsObject K)
    (key : String) : Prop where
  clock : p.clock key = .value (readClock clocks key)
  value : p.value key = .value (readField fields key)

theorem register_of_lookup (hclock : p.clocks.own.lookup key = (clocks.lookup key).map .value)
    (hvalue : p.fields.own.lookup key = (fields.lookup key).map .value) :
    p.register key = ofStamp (stampOf fields clocks key) := by
  rw [register, hclock, hvalue]
  refine Prod.ext ?_ ?_
  · show _ = Property.value (readClock clocks key)
    rw [readClock]
    cases clocks.lookup key <;> rfl
  · show _ = canonicalJson (readField fields key)
    rw [readField]
    cases fields.lookup key <;> rfl

theorem register_ofDicts : (ofDicts fields clocks).register key =
    ofStamp (stampOf fields clocks key) :=
  register_of_lookup (PlainObject.lookup_ofDict clocks key) (PlainObject.lookup_ofDict fields key)

/-- A clock that is an own property, or bears no inherited name. -/
theorem clock_of_lookup (hclock : p.clocks.own.lookup key = (clocks.lookup key).map .value)
    (hread : key ∈ clocks ∨ p.clocks.proto.member key = none) :
    p.clock key = .value (readClock clocks key) := by
  rw [clock, readClock]
  cases hlookup : clocks.lookup key with
  | some c =>
      rw [hlookup] at hclock
      exact PlainObject.getD_of_lookup hclock 0
  | none =>
      rw [hlookup] at hclock
      exact PlainObject.getD_of_ordinary (AList.lookup_eq_none.mp hclock)
        (hread.resolve_left (AList.lookup_eq_none.mp hlookup)) 0

omit [Zero K] in
/-- A value likewise. -/
theorem value_of_lookup (hvalue : p.fields.own.lookup key = (fields.lookup key).map .value)
    (hread : key ∈ fields ∨ p.fields.proto.member key = none) :
    p.value key = .value (readField fields key) := by
  rw [value, readField]
  cases hlookup : fields.lookup key with
  | some v =>
      rw [hlookup] at hvalue
      exact PlainObject.getD_of_lookup hvalue none
  | none =>
      rw [hlookup] at hvalue
      exact PlainObject.getD_of_ordinary (AList.lookup_eq_none.mp hvalue)
        (hread.resolve_left (AList.lookup_eq_none.mp hlookup)) none

theorem readsOwn_ofDicts (hclocks : key ∈ clocks ∨ key ∉ objectPrototype)
    (hfields : key ∈ fields ∨ key ∉ objectPrototype) :
    ReadsOwn (ofDicts fields clocks) fields clocks key where
  clock := clock_of_lookup (PlainObject.lookup_ofDict clocks key)
    (hclocks.imp_right Prototype.member_ordinary)
  value := value_of_lookup (PlainObject.lookup_ofDict fields key)
    (hfields.imp_right Prototype.member_ordinary)

end PlainFields

/-! ## Merging the plain objects of two dictionaries -/

namespace PlainFields

variable [LinearOrder K] [Zero K] {m : PlainFields K} {lf rf : JsObject (Option Json)}
  {lc rc : JsObject K} {key : String}

theorem ReadsOwn.rightWins_iff {p q : PlainFields K} (h : ReadsOwn p lf lc key)
    (h' : ReadsOwn q rf rc key) :
    rightWins p q key = true ↔ stampOf lf lc key < stampOf rf rc key := by
  rw [rightWins, h.clock, h.value, h'.clock, h'.value]
  exact pickProperty_values

omit [LinearOrder K] [Zero K] in
theorem mem_keys_ofDicts :
    key ∈ keys (ofDicts lf lc) (ofDicts rf rc) ↔ key ∈ lf ∨ key ∈ rf := by
  rw [mem_keys]
  exact or_congr PlainObject.mem_ofDict PlainObject.mem_ofDict

/-- A member of `Object.prototype` beside a number: the right side is taken. -/
theorem rightWins_of_inherited_left {p q : PlainFields K} {name : String} {c : K}
    (hp : p.clock key = .inherited name) (hq : q.clock key = .value c) :
    rightWins p q key = true := by
  rw [rightWins, hp, hq]
  exact pickProperty_inherited_left

/-- An inherited name that has a clock on the left alone: the right side is taken, and
with it the member of `Object.prototype`. -/
theorem rightWins_left (lf rf : JsObject (Option Json)) (hl : key ∈ lc) (hr : key ∉ rc)
    (hkey : key ∈ objectPrototype) : rightWins (ofDicts lf lc) (ofDicts rf rc) key = true := by
  obtain ⟨c, hc⟩ := Option.isSome_iff_exists.mp (AList.lookup_isSome.mpr hl)
  have hclock : (ofDicts lf lc).clock key = .value c := PlainObject.getD_ofDict_of_lookup hc 0
  have hclock' : (ofDicts rf rc).clock key = .inherited key :=
    PlainObject.getD_ofDict_of_inherited hr hkey 0
  rw [rightWins, hclock, hclock']
  exact pickProperty_inherited_right

/-- One that has a clock on the right alone. -/
theorem rightWins_right (lf rf : JsObject (Option Json)) (hl : key ∉ lc) (hr : key ∈ rc)
    (hkey : key ∈ objectPrototype) : rightWins (ofDicts lf lc) (ofDicts rf rc) key = true := by
  obtain ⟨c, hc⟩ := Option.isSome_iff_exists.mp (AList.lookup_isSome.mpr hr)
  have hclock : (ofDicts lf lc).clock key = .inherited key :=
    PlainObject.getD_ofDict_of_inherited hl hkey 0
  exact rightWins_of_inherited_left hclock (PlainObject.getD_ofDict_of_lookup hc 0)

namespace Merged

variable (h : Merged (ofDicts lf lc) (ofDicts rf rc) m)

include h

theorem register_absent (hl : key ∉ lf) (hr : key ∉ rf) : m.register key = ofStamp zeroStamp := by
  have hnot : ¬(key ∈ keys (ofDicts lf lc) (ofDicts rf rc) ∧ key ≠ "__proto__") :=
    fun hand => (mem_keys_ofDicts.mp hand.1).elim hl hr
  rw [register, h.clocks, h.fields, if_neg hnot, if_neg hnot]
  rfl

/-- Under every other field name of either side stands what the merge assigned. -/
theorem register_assigned (hkey : key ≠ "__proto__") (hmem : key ∈ lf ∨ key ∈ rf) :
    m.register key = (mergedClock (ofDicts lf lc) (ofDicts rf rc) key,
      (mergedValue (ofDicts lf lc) (ofDicts rf rc) key).text) := by
  have hin : key ∈ keys (ofDicts lf lc) (ofDicts rf rc) ∧ key ≠ "__proto__" :=
    ⟨mem_keys_ofDicts.mpr hmem, hkey⟩
  rw [register, h.clocks, h.fields, if_pos hin, if_pos hin]
  rfl

/-- A field that both sides read as their dictionaries do. -/
theorem register_read (hkey : key ≠ "__proto__") (hmem : key ∈ lf ∨ key ∈ rf)
    (hl : ReadsOwn (ofDicts lf lc) lf lc key) (hr : ReadsOwn (ofDicts rf rc) rf rc key) :
    m.register key = ofStamp (stampOf lf lc key ⊔ stampOf rf rc key) := by
  have hwins := hl.rightWins_iff hr
  rw [h.register_assigned hkey hmem, mergedClock, mergedValue, hl.clock, hl.value, hr.clock,
    hr.value]
  by_cases hlt : stampOf lf lc key < stampOf rf rc key
  · rw [if_pos (hwins.mpr hlt), if_pos (hwins.mpr hlt), sup_eq_right.mpr hlt.le]
    rfl
  · rw [if_neg (mt hwins.mp hlt), if_neg (mt hwins.mp hlt), sup_eq_left.mpr (not_lt.mp hlt)]
    rfl

/-- The clock of an inherited name that the left side has alone is lost to the member of
`Object.prototype`. -/
theorem lookup_left (hkey : key ≠ "__proto__") (hin : key ∈ objectPrototype)
    (hlf : key ∈ lf) (hlc : key ∈ lc) (hrc : key ∉ rc) :
    m.clocks.own.lookup key = some (.inherited key) := by
  have hclock : (ofDicts rf rc).clock key = .inherited key :=
    PlainObject.getD_ofDict_of_inherited hrc hin 0
  rw [h.clocks, if_pos ⟨mem_keys_ofDicts.mpr (Or.inl hlf), hkey⟩, mergedClock,
    if_pos (rightWins_left lf rf hlc hrc hin), hclock]

/-- So is its value. -/
theorem register_left (hkey : key ≠ "__proto__") (hin : key ∈ objectPrototype)
    (hlf : key ∈ lf) (hlc : key ∈ lc) (hrf : key ∉ rf) (hrc : key ∉ rc) :
    m.register key = (.inherited key, js "null") := by
  have hclock : (ofDicts rf rc).clock key = .inherited key :=
    PlainObject.getD_ofDict_of_inherited hrc hin 0
  have hvalue : (ofDicts rf rc).value key = .inherited key :=
    PlainObject.getD_ofDict_of_inherited hrf hin none
  have hwins := rightWins_left lf rf hlc hrc hin
  rw [h.register_assigned hkey (Or.inl hlf), mergedClock, mergedValue, if_pos hwins, if_pos hwins,
    hclock, hvalue, Property.text, if_neg hkey]

/-- One of the right side alone is taken, whatever its clock. -/
theorem register_right (hkey : key ≠ "__proto__") (hin : key ∈ objectPrototype)
    (hlc : key ∉ lc) (hrf : key ∈ rf) (hrc : key ∈ rc) :
    m.register key = ofStamp (stampOf rf rc key) := by
  have hread : ReadsOwn (ofDicts rf rc) rf rc key := readsOwn_ofDicts (Or.inl hrc) (Or.inl hrf)
  have hwins := rightWins_right lf rf hlc hrc hin
  rw [h.register_assigned hkey (Or.inr hrf), mergedClock, mergedValue, if_pos hwins, if_pos hwins,
    hread.clock, hread.value]
  rfl

end Merged

end PlainFields

/-! ## Merging with the sides swapped -/

namespace PlainFields

variable [LinearOrder K] [Zero K] {p q m d : PlainFields K} {key : String}

/-- A merge and the merge with the sides swapped assign the same clock, and the same value
up to its text. -/
def AgreesAt (p q : PlainFields K) (key : String) : Prop :=
  mergedClock p q key = mergedClock q p key ∧
    (mergedValue p q key).text = (mergedValue q p key).text

/-- Where one order decides both choices, they fall on the same side or on equal ones. -/
theorem agreesAt_of_order {α : Type} [LinearOrder α] {x y : α}
    (h : rightWins p q key = true ↔ x < y) (h' : rightWins q p key = true ↔ y < x)
    (heq : x = y → p.clock key = q.clock key ∧ (p.value key).text = (q.value key).text) :
    AgreesAt p q key := by
  unfold AgreesAt mergedClock mergedValue
  obtain hlt | hxy | hgt := lt_trichotomy x y
  · rw [if_pos (h.mpr hlt), if_pos (h.mpr hlt), if_neg (mt h'.mp hlt.not_gt),
      if_neg (mt h'.mp hlt.not_gt)]
    exact ⟨rfl, rfl⟩
  · obtain ⟨hclock, htext⟩ := heq hxy
    rw [if_neg (mt h.mp hxy.not_lt), if_neg (mt h.mp hxy.not_lt), if_neg (mt h'.mp hxy.not_gt),
      if_neg (mt h'.mp hxy.not_gt)]
    exact ⟨hclock, htext⟩
  · rw [if_neg (mt h.mp hgt.not_gt), if_neg (mt h.mp hgt.not_gt), if_pos (h'.mpr hgt),
      if_pos (h'.mpr hgt)]
    exact ⟨rfl, rfl⟩

theorem agreesAt_of_values {a b : K} (hp : p.clock key = .value a) (hq : q.clock key = .value b) :
    AgreesAt p q key := by
  refine agreesAt_of_order (x := (toLex (a, (p.value key).text) : Stamp K))
    (y := toLex (b, (q.value key).text)) ?_ ?_ fun heq => ?_
  · rw [rightWins, hp, hq]
    exact pickProperty_values
  · rw [rightWins, hp, hq]
    exact pickProperty_values
  · obtain ⟨rfl, htext⟩ := Prod.mk.inj (toLex.injective heq)
    exact ⟨hp.trans hq.symm, htext⟩

theorem agreesAt_of_same (h : p.clock key = q.clock key) : AgreesAt p q key := by
  refine agreesAt_of_order (x := (p.value key).text) (y := (q.value key).text) ?_ ?_
    fun heq => ⟨h, heq⟩
  · rw [rightWins, h]
    exact pickProperty_same
  · rw [rightWins, h]
    exact pickProperty_same

variable {lf rf : JsObject (Option Json)} {lc rc : JsObject K}

/-- An inherited name with a clock on one side only ends with the clock of the right side,
which is another one when the sides are swapped. -/
theorem not_agreesAt_of_left (hl : key ∈ lc) (hr : key ∉ rc) (hin : key ∈ objectPrototype) :
    ¬AgreesAt (ofDicts lf lc) (ofDicts rf rc) key := by
  rintro ⟨hclock, -⟩
  rw [mergedClock, mergedClock, if_pos (rightWins_left lf rf hl hr hin),
    if_pos (rightWins_right rf lf hr hl hin)] at hclock
  obtain ⟨c, hc⟩ := Option.isSome_iff_exists.mp (AList.lookup_isSome.mpr hl)
  have hown : (ofDicts lf lc).clock key = .value c := PlainObject.getD_ofDict_of_lookup hc 0
  have hinherited : (ofDicts rf rc).clock key = .inherited key :=
    PlainObject.getD_ofDict_of_inherited hr hin 0
  rw [hown, hinherited] at hclock
  cases hclock

/-- **Swapped merges** of two dictionaries assign the same unless exactly one side has a
clock of that inherited name. -/
theorem agreesAt_iff : AgreesAt (ofDicts lf lc) (ofDicts rf rc) key ↔
    (key ∈ objectPrototype → (key ∈ lc ↔ key ∈ rc)) := by
  constructor
  · intro h hin
    constructor
    · intro hl
      by_contra hr
      exact not_agreesAt_of_left hl hr hin h
    · intro hr
      by_contra hl
      exact not_agreesAt_of_left hr hl hin ⟨h.1.symm, h.2.symm⟩
  · intro h
    have hread : (key ∈ lc ∨ key ∉ objectPrototype) ∧ (key ∈ rc ∨ key ∉ objectPrototype) ∨
        key ∉ lc ∧ key ∉ rc ∧ key ∈ objectPrototype := by tauto
    rcases hread with ⟨hl, hr⟩ | ⟨hl, hr, hin⟩
    · exact agreesAt_of_values (PlainObject.getD_ofDict hl 0) (PlainObject.getD_ofDict hr 0)
    · refine agreesAt_of_same ?_
      exact (PlainObject.getD_ofDict_of_inherited hl hin 0).trans
        (PlainObject.getD_ofDict_of_inherited hr hin 0).symm

/-- Two merges with the sides swapped leave the same record exactly where they assign the
same under every key that is kept. -/
theorem Merged.agree_iff (h : Merged p q m) (h' : Merged q p d) :
    (∀ key, m.clocks.own.lookup key = d.clocks.own.lookup key ∧
        (m.register key).2 = (d.register key).2) ↔
      ∀ key, (key ∈ p.fields.own ∨ key ∈ q.fields.own) → key ≠ "__proto__" →
        AgreesAt p q key := by
  have hkeys : ∀ key, key ∈ keys q p ∧ key ≠ "__proto__" ↔ key ∈ keys p q ∧ key ≠ "__proto__" := by
    intro key
    rw [mem_keys, mem_keys, or_comm]
  refine forall_congr' fun key => ?_
  rw [register, register, h.clocks, h.fields, h'.clocks, h'.fields, if_congr (hkeys key) rfl rfl,
    if_congr (hkeys key) rfl rfl, ← mem_keys]
  by_cases hkey : key ∈ keys p q ∧ key ≠ "__proto__"
  · rw [if_pos hkey, if_pos hkey, if_pos hkey, if_pos hkey]
    simp only [Option.some.injEq, Option.getD_some]
    exact ⟨fun hagree _ _ => hagree, fun hagree => hagree hkey.1 hkey.2⟩
  · rw [if_neg hkey, if_neg hkey, if_neg hkey, if_neg hkey]
    exact iff_of_true ⟨rfl, rfl⟩ fun hmem hne => absurd ⟨hmem, hne⟩ hkey

end PlainFields

/-! ## Merging as dictionaries are merged -/

section Shows

open PlainFields

variable {p q m : PlainFields K} {f lf rf mf : JsObject (Option Json)} {c lc rc mc : JsObject K}
  {key : String}

/-- Two dictionaries have the same inherited names, `__proto__` apart. -/
def SameNames (f f' : JsObject (Option Json)) : Prop :=
  ∀ key ∈ objectPrototype, key ≠ "__proto__" → (key ∈ f ↔ key ∈ f')

theorem sameNames_of_ordinary (h : OrdinaryNames f) (h' : OrdinaryNames rf) : SameNames f rf :=
  fun key hin _ => iff_of_false (h key hin) (h' key hin)

/-- The plain record holds the clocks of the dictionaries and has their fields, apart from
`__proto__`, which is no field of theirs.  A field with an inherited name has a clock. -/
structure ShowsClocks (p : PlainFields K) (f : JsObject (Option Json)) (c : JsObject K) :
    Prop where
  clocks : ∀ key, key ≠ "__proto__" → p.clocks.own.lookup key = (c.lookup key).map .value
  keys : ∀ key, key ≠ "__proto__" → (key ∈ p.fields.own ↔ key ∈ f)
  clocked : ∀ key ∈ objectPrototype, key ∈ f → key ∈ c
  noProto : "__proto__" ∉ f
  clocksProto : p.clocks.proto = .ordinary

/-- It holds their values too, and no object is its prototype or becomes that of a merge. -/
structure Shows (p : PlainFields K) (f : JsObject (Option Json)) (c : JsObject K) : Prop
    extends ShowsClocks p f c where
  fields : ∀ key, key ≠ "__proto__" → p.fields.own.lookup key = (f.lookup key).map .value
  fieldsProto : p.fields.proto = .ordinary ∨ p.fields.proto = .null
  nullish : (p.value "__proto__").Nullish

/-- A field of either side is then read on both as the dictionaries read it. -/
theorem SameNames.read (h : SameNames lf rf) (hkey : key ≠ "__proto__")
    (hmem : key ∈ lf ∨ key ∈ rf) :
    (key ∈ lf ∨ key ∉ objectPrototype) ∧ (key ∈ rf ∨ key ∉ objectPrototype) := by
  by_cases hin : key ∈ objectPrototype
  · have hiff := h key hin hkey
    tauto
  · exact ⟨Or.inr hin, Or.inr hin⟩

/-- What a dictionary without a value under `__proto__` has to read there. -/
theorem nullish_ofDicts (h : canonicalJson (readField f "__proto__") = js "null") :
    ((ofDicts f c).value "__proto__").Nullish := by
  rw [value, show (ofDicts f c).fields = .ofDict f from rfl]
  by_cases hmem : "__proto__" ∈ f
  · rw [PlainObject.getD_ofDict (Or.inl hmem)]
    refine nullish_of_text ?_
    rw [← h, readField]
    cases f.lookup "__proto__" <;> rfl
  · rw [PlainObject.getD_ofDict_of_inherited hmem (by decide)]
    trivial

/-- A record shows the clocks of its own properties without `__proto__`. -/
theorem ShowsClocks.of_erase (hclocked : ∀ key ∈ objectPrototype, key ∈ f → key ∈ c) :
    ShowsClocks (ofDicts f c) (f.erase "__proto__") (c.erase "__proto__") where
  clocks key hkey := by
    rw [AList.lookup_erase_ne hkey]
    exact PlainObject.lookup_ofDict c key
  keys key hkey := by
    rw [AList.mem_erase, and_iff_right hkey]
    exact PlainObject.mem_ofDict
  clocked key hin hmem := by
    rw [AList.mem_erase] at hmem ⊢
    exact ⟨hmem.1, hclocked key hin hmem.2⟩
  noProto := fun hmem => (AList.mem_erase.mp hmem).1 rfl
  clocksProto := rfl

namespace Shows

/-- It shows its registers, if nothing is to be read under `__proto__`. -/
theorem of_erase (hclocked : ∀ key ∈ objectPrototype, key ∈ f → key ∈ c)
    (hproto : canonicalJson (readField f "__proto__") = js "null") :
    Shows (ofDicts f c) (f.erase "__proto__") (c.erase "__proto__") where
  toShowsClocks := .of_erase hclocked
  fields key hkey := by
    rw [AList.lookup_erase_ne hkey]
    exact PlainObject.lookup_ofDict f key
  fieldsProto := Or.inl rfl
  nullish := nullish_ofDicts hproto

theorem of_dicts (hclocked : ∀ key ∈ objectPrototype, key ∈ f → key ∈ c)
    (hproto : "__proto__" ∉ f) :
    Shows (ofDicts f c) f c where
  clocks key _ := PlainObject.lookup_ofDict c key
  keys _ _ := PlainObject.mem_ofDict
  clocked := hclocked
  noProto := hproto
  clocksProto := rfl
  fields key _ := PlainObject.lookup_ofDict f key
  fieldsProto := Or.inl rfl
  nullish := by
    refine nullish_ofDicts ?_
    rw [readField, AList.lookup_eq_none.mpr hproto]
    rfl

end Shows

section Reading

variable [Zero K]

theorem ShowsClocks.clock_eq (h : ShowsClocks p f c) (hkey : key ≠ "__proto__")
    (hread : key ∈ f ∨ key ∉ objectPrototype) : p.clock key = .value (readClock c key) := by
  refine clock_of_lookup (h.clocks key hkey) ?_
  rw [h.clocksProto]
  by_cases hin : key ∈ objectPrototype
  · exact Or.inl (h.clocked key hin (hread.resolve_right fun hnot => hnot hin))
  · exact Or.inr (Prototype.member_ordinary hin)

omit [Zero K] in
theorem Shows.value_eq (h : Shows p f c) (hkey : key ≠ "__proto__")
    (hread : key ∈ f ∨ key ∉ objectPrototype) : p.value key = .value (readField f key) := by
  refine value_of_lookup (h.fields key hkey) (hread.imp_right fun hin => ?_)
  rcases h.fieldsProto with hproto | hproto
  · rw [hproto]
    exact Prototype.member_ordinary hin
  · rw [hproto]
    rfl

theorem Shows.readsOwn (h : Shows p f c) (hkey : key ≠ "__proto__")
    (hread : key ∈ f ∨ key ∉ objectPrototype) : ReadsOwn p f c key where
  clock := h.clock_eq hkey hread
  value := h.value_eq hkey hread

theorem Shows.register_eq (h : Shows p f c) (hkey : key ≠ "__proto__") :
    p.register key = ofStamp (stampOf f c key) :=
  register_of_lookup (h.clocks key hkey) (h.fields key hkey)

end Reading

variable [Zero K] [LinearOrder K]

/-- What a merge of dictionaries leaves: under each field name the later register. -/
structure MergedDicts (lf rf mf : JsObject (Option Json)) (lc rc mc : JsObject K) : Prop where
  clocks : ∀ key, mc.lookup key = if key ∈ lf ∨ key ∈ rf then
    some (if stampOf lf lc key < stampOf rf rc key then readClock rc key else readClock lc key)
    else none
  fields : ∀ key, mf.lookup key = if key ∈ lf ∨ key ∈ rf then
    some (if stampOf lf lc key < stampOf rf rc key then readField rf key else readField lf key)
    else none

theorem MergedDicts.mem_fields (h : MergedDicts lf rf mf lc rc mc) :
    key ∈ mf ↔ key ∈ lf ∨ key ∈ rf := by
  rw [← AList.lookup_isSome, h.fields]
  split <;> simp_all

theorem MergedDicts.mem_clocks (h : MergedDicts lf rf mf lc rc mc) : key ∈ mc ↔ key ∈ mf := by
  rw [← AList.lookup_isSome, ← AList.lookup_isSome, h.clocks, h.fields]
  split <;> rfl

/-- A merge has the inherited names that both of its sides have. -/
theorem SameNames.merged (hl : SameNames lf f) (hr : SameNames rf f)
    (h : MergedDicts lf rf mf lc rc mc) : SameNames mf f := by
  intro key hin hkey
  rw [h.mem_fields, hl key hin hkey, hr key hin hkey, or_self]

/-! ### Clocks -/

omit [Zero K] in
/-- The clock of the later register is the later clock. -/
theorem ite_stamp_eq_max {a b : K} {x y : JsString} :
    (if (toLex (a, x) : Stamp K) < toLex (b, y) then b else a) = max a b := by
  obtain hlt | heq | hgt := lt_trichotomy a b
  · rw [if_pos (Prod.Lex.toLex_lt_toLex.mpr (Or.inl hlt)), max_eq_right hlt.le]
  · rw [heq, ite_self, max_self]
  · rw [if_neg (Prod.Lex.toLex_lt_toLex.mpr (Or.inl hgt)).not_gt, max_eq_left hgt.le]

theorem mergedClock_values {a b : K} (hp : p.clock key = .value a) (hq : q.clock key = .value b) :
    mergedClock p q key = .value (max a b) := by
  have hwins : rightWins p q key = true ↔
      (toLex (a, (p.value key).text) : Stamp K) < toLex (b, (q.value key).text) := by
    rw [rightWins, hp, hq]
    exact pickProperty_values
  rw [mergedClock, if_congr hwins rfl rfl, hp, hq, ← apply_ite Property.value, ite_stamp_eq_max]

/-- The clocks of sides that share their inherited names are merged as those of the
dictionaries. -/
theorem ShowsClocks.merged (h : ShowsClocks p lf lc) (h' : ShowsClocks q rf rc)
    (hnames : SameNames lf rf) (hm : Merged p q m) (hd : MergedDicts lf rf mf lc rc mc) :
    ShowsClocks m mf mc := by
  have hmem : ∀ key, key ≠ "__proto__" →
      (key ∈ PlainFields.keys p q ∧ key ≠ "__proto__" ↔ key ∈ lf ∨ key ∈ rf) := by
    intro key hkey
    rw [mem_keys, h.keys key hkey, h'.keys key hkey]
    exact and_iff_left hkey
  refine ⟨fun key hkey => ?_, fun key hkey => ?_, fun key _ => hd.mem_clocks.mpr, ?_,
    hm.clocksProto⟩
  · rw [hm.clocks, hd.clocks, if_congr (hmem key hkey) rfl rfl]
    by_cases hfield : key ∈ lf ∨ key ∈ rf
    · obtain ⟨hl, hr⟩ := hnames.read hkey hfield
      rw [if_pos hfield, if_pos hfield, stampOf, stampOf, ite_stamp_eq_max,
        mergedClock_values (h.clock_eq hkey hl) (h'.clock_eq hkey hr)]
      rfl
    · rw [if_neg hfield, if_neg hfield]
      rfl
  · rw [← AList.lookup_isSome, hm.fields, hd.mem_fields, ← hmem key hkey]
    split
    · exact iff_of_true rfl ‹_›
    · exact iff_of_false Bool.false_ne_true ‹_›
  · rw [hd.mem_fields]
    exact not_or.mpr ⟨h.noProto, h'.noProto⟩

/-- So is the newest of them: no merge keeps a clock under `__proto__`. -/
theorem ShowsClocks.newest_merged (h : ShowsClocks m mf mc) (hm : Merged p q m)
    (hd : MergedDicts lf rf mf lc rc mc) : m.clocks.mathMax = some mc.mathMax := by
  rw [← PlainObject.mathMax_ofDict]
  refine PlainObject.mathMax_congr fun key => ?_
  rw [PlainObject.lookup_ofDict]
  by_cases hkey : key = "__proto__"
  · rw [hkey, hm.lookup_proto.1, AList.lookup_eq_none.mpr (mt hd.mem_clocks.mp h.noProto)]
    rfl
  · exact h.clocks key hkey

/-- The newest clock shown is that of the record, where `__proto__` has none that is
newer. -/
theorem mathMax_erase (hnewest : readClock c "__proto__" ≤ Dict.mathMax (c.erase "__proto__")) :
    Dict.mathMax (c.erase "__proto__") = c.mathMax := by
  refine eq_of_forall_ge_iff fun x => ?_
  rw [mathMax_le_iff, mathMax_le_iff]
  refine and_congr_right fun h0 => ⟨fun h key => ?_, fun h key => ?_⟩
  · by_cases hkey : key = "__proto__"
    · rw [hkey]
      exact hnewest.trans (mathMax_le_iff.mpr ⟨h0, h⟩)
    · rw [readClock, ← AList.lookup_erase_ne hkey]
      exact h key
  · by_cases hkey : key = "__proto__"
    · rw [hkey, readClock, AList.lookup_erase]
      exact h0
    · rw [readClock, AList.lookup_erase_ne hkey]
      exact h key

/-! ### Registers -/

namespace Shows

theorem rightWins_iff (h : Shows p lf lc) (h' : Shows q rf rc) (hnames : SameNames lf rf)
    (hkey : key ≠ "__proto__") (hmem : key ∈ lf ∨ key ∈ rf) :
    rightWins p q key = true ↔ stampOf lf lc key < stampOf rf rc key := by
  obtain ⟨hl, hr⟩ := hnames.read hkey hmem
  exact (h.readsOwn hkey hl).rightWins_iff (h'.readsOwn hkey hr)

/-- **Simulation.** Sides that share their inherited names are merged as the dictionaries
they show. -/
theorem merged (h : Shows p lf lc) (h' : Shows q rf rc) (hnames : SameNames lf rf)
    (hm : Merged p q m) (hd : MergedDicts lf rf mf lc rc mc) : Shows m mf mc := by
  have hnullish : (mergedValue p q "__proto__").Nullish := by
    unfold mergedValue
    split
    · exact h'.nullish
    · exact h.nullish
  have hproto := hm.fieldsProto fun _ => hnullish
  refine ⟨h.toShowsClocks.merged h'.toShowsClocks hnames hm hd, fun key hkey => ?_, hproto, ?_⟩
  · have hmem : key ∈ PlainFields.keys p q ∧ key ≠ "__proto__" ↔ key ∈ lf ∨ key ∈ rf := by
      rw [mem_keys, h.keys key hkey, h'.keys key hkey]
      exact and_iff_left hkey
    rw [hm.fields, hd.fields, if_congr hmem rfl rfl]
    by_cases hfield : key ∈ lf ∨ key ∈ rf
    · obtain ⟨hl, hr⟩ := hnames.read hkey hfield
      rw [if_pos hfield, if_pos hfield, mergedValue, h.value_eq hkey hl, h'.value_eq hkey hr,
        if_congr (h.rightWins_iff h' hnames hkey hfield) rfl rfl, Option.map_some,
        apply_ite Property.value]
    · rw [if_neg hfield, if_neg hfield]
      rfl
  · have hget : m.fields.get "__proto__" = m.fields.proto.member "__proto__" := by
      rw [PlainObject.get, hm.lookup_proto.2]
    rw [value, PlainObject.getD, hget]
    rcases hproto with hproto | hproto
    · rw [hproto]
      trivial
    · rw [hproto]
      exact (rfl : (none : Option Json).getD .null = .null)

end Shows

end Shows

end FlowLogix.Foundation
