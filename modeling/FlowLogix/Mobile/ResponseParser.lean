/-
  Mobile/ResponseParser.lean --- what the transport accepts of a response
  (`parse` and `parseChange` of mobile/src/sync/httpSyncTransport.ts).

  The parser looks at the id of a change and at the types of `fields` and `clocks`;
  the rest of the change is cast.  `accepts_only_remoteChanges_iff` says exactly which
  responses that lets through as they should be.
-/
import FlowLogix.Foundation.JsValue
import FlowLogix.Foundation.Run

set_option autoImplicit false

namespace FlowLogix.Mobile

open FlowLogix.Foundation

/-- A number `JSON.parse` returns: a literal past the largest double is an infinity. -/
inductive ParsedNumber where
  | finite (x : JsNumber)
  | infinity
  | negInfinity

/-- A value `JSON.parse` returns. -/
abbrev Payload : Type := JsValue ParsedNumber

/-- What the parser throws. -/
inductive ParseError where
  | error (message : JsString)
  /-- the `TypeError` of a value that has no text -/
  | typeError
  deriving DecidableEq

/-! ## `String(v)` -/

/-- `Number::toString`. -/
def ParsedNumber.text : ParsedNumber → JsString
  | .finite x => numberText x
  | .infinity => js "Infinity"
  | .negInfinity => js "-Infinity"

mutual

/-- `String(v)`.  No value of a payload can be called, so an own `toString` hides the
inherited one and leaves nothing to convert the object with. -/
def toText : Payload → Except ParseError JsString
  | .null => .ok (js "null")
  | .bool true => .ok (js "true")
  | .bool false => .ok (js "false")
  | .num x => .ok x.text
  | .str s => .ok s
  | .arr elements => do return (js ",").intercalate (← elementTexts elements)
  | .obj members =>
      if (members.lookup (js "toString")).isSome then .error .typeError
      else .ok (js "[object Object]")

/-- The parts `Array.prototype.join` puts together; `null` is the empty one. -/
def elementTexts : List Payload → Except ParseError (List JsString)
  | [] => .ok []
  | .null :: rest => do return [] :: (← elementTexts rest)
  | v :: rest => do return (← toText v) :: (← elementTexts rest)

end

/-! ## The parser -/

/-- `parseChange`. -/
def parseChange (raw : Payload) : Except ParseError Payload :=
  if !raw.isObject then
    .error (.error (js "sync response contains a non-object change"))
  else if !(raw.get "id").any JsValue.isString || !(raw.get "fields").any JsValue.isObject ||
      !(raw.get "clocks").any JsValue.isObject then do
    let id ← ((raw.get "id").map toText).getD (.ok (js "undefined"))
    throw (.error (js "sync response contains a malformed change (id=" ++ id ++ js ")"))
  else .ok raw

/-- `SyncResponseBody<F>`, its changes as the parser casts them. -/
structure SyncResponseBody where
  changes : List Payload
  checkpoint : ParsedNumber
  acceptedIds : List JsString

/-- The strings of `acceptedIds`; anything but an array counts as none. -/
def acceptedIds (raw : Payload) : List JsString :=
  match raw.get "acceptedIds" with
  | some (.arr ids) => ids.filterMap JsValue.asString
  | _ => []

/-- `parse`. -/
def parse (raw : Payload) : Except ParseError SyncResponseBody :=
  if !raw.isObject then .error (.error (js "sync response is not an object"))
  else
    match raw.get "changes" with
    | some (.arr changes) =>
        match raw.get "checkpoint" with
        | some (.num checkpoint) => do
            let changes ← changes.mapM parseChange
            return ⟨changes, checkpoint, acceptedIds raw⟩
        | _ => .error (.error (js "sync response missing numeric \"checkpoint\""))
    | _ => .error (.error (js "sync response missing \"changes\" array"))

/-! ## What a change should be -/

/-- A number that is neither an infinity nor `NaN`. -/
def IsFinite (v : Payload) : Prop := ∃ x, v = .num (.finite x)

/-- The change is a `RemoteChange<F>`. -/
structure IsRemoteChange (c : Payload) : Prop where
  id : ∃ s, c.get "id" = some (.str s)
  nodeId : ∃ s, c.get "nodeId" = some (.str s)
  fields : ∃ members, c.get "fields" = some (.obj members)
  clocks : ∃ members, c.get "clocks" = some (.obj members) ∧ ∀ m ∈ members, IsFinite m.2
  deletedAt : c.get "deletedAt" = some .null ∨ ∃ x, c.get "deletedAt" = some (.num x)

/-- `v ?? 0`. -/
def orZero (v : Option Payload) : Payload :=
  match v with
  | none | some .null => .num (.finite ⟨0, 0, Or.inr ⟨rfl, rfl⟩⟩)
  | some v => v

/-- What `mergeRecord` compares for a field, read off the change.  Where the change has no
clock of that name, a member of `Object.prototype` that is read instead is not taken from it. -/
def wireClock (c : Payload) (key : JsString) : Payload :=
  orZero ((c.get "clocks").bind fun clocks => clocks.own key)

/-- What `mergeRecord` compares for the deletion, read off the change. -/
def wireTombstone (c : Payload) : Payload := orZero (c.get "deletedAt")

/-- What a merge takes from the change and compares are numbers only. -/
structure ComparesNumbers (c : Payload) : Prop where
  clock : ∀ key, (wireClock c key).isNumber = true
  tombstone : (wireTombstone c).isNumber = true

/-! ## What the parser tests, and what it leaves out -/

/-- What `parseChange` tests. -/
structure Tested (c : Payload) : Prop where
  object : c.isObject = true
  id : (c.get "id").any JsValue.isString = true
  fields : (c.get "fields").any JsValue.isObject = true
  clocks : (c.get "clocks").any JsValue.isObject = true

/-- What it leaves to the cast. -/
structure LeftToCast (c : Payload) : Prop where
  nodeId : (c.get "nodeId").any JsValue.isString = true
  fields : ∀ elements, c.get "fields" ≠ some (.arr elements)
  clocks : ∀ elements, c.get "clocks" ≠ some (.arr elements)
  finite : ∀ clocks, c.get "clocks" = some clocks → ∀ v ∈ clocks.values, IsFinite v
  deletedAt : c.get "deletedAt" = some .null ∨ (c.get "deletedAt").any JsValue.isNumber = true

/-- What `parse` tests: the changes of a response it takes. -/
structure Takes (raw : Payload) (changes : List Payload) : Prop where
  object : raw.isObject = true
  array : raw.get "changes" = some (.arr changes)
  checkpoint : (raw.get "checkpoint").any JsValue.isNumber = true
  each : ∀ c ∈ changes, Tested c

theorem any_isString_iff {v : Option Payload} :
    v.any JsValue.isString = true ↔ ∃ s, v = some (.str s) := by
  cases v with
  | none => simp
  | some v => simp [JsValue.isString_iff]

theorem any_isNumber_iff {v : Option Payload} :
    v.any JsValue.isNumber = true ↔ ∃ x, v = some (.num x) := by
  cases v with
  | none => simp
  | some v => simp [JsValue.isNumber_iff]

/-- An object that is not an array has members. -/
theorem any_isObject_iff {v : Option Payload} :
    v.any JsValue.isObject = true ↔
      (∃ elements, v = some (.arr elements)) ∨ ∃ members, v = some (.obj members) := by
  cases v with
  | none => simp
  | some v => cases v <;> simp [JsValue.isObject]

/-- A tested change is what it should be exactly when the rest is. -/
theorem Tested.isRemoteChange_iff {c : Payload} (h : Tested c) :
    IsRemoteChange c ↔ LeftToCast c := by
  constructor
  · intro hc
    obtain ⟨fields, hfields⟩ := hc.fields
    obtain ⟨clocks, hclocks, hfinite⟩ := hc.clocks
    refine ⟨any_isString_iff.mpr hc.nodeId, ?_, ?_, ?_, hc.deletedAt.imp_right any_isNumber_iff.mpr⟩
    · simp [hfields]
    · simp [hclocks]
    · intro v hv
      obtain rfl := Option.some.inj (hclocks.symm.trans hv)
      intro x hx
      obtain ⟨m, hm, rfl⟩ := List.mem_map.mp hx
      exact hfinite m hm
  · intro hc
    refine ⟨any_isString_iff.mp h.id, any_isString_iff.mp hc.nodeId, ?_, ?_,
      hc.deletedAt.imp_right any_isNumber_iff.mp⟩
    · rcases any_isObject_iff.mp h.fields with ⟨elements, harr⟩ | hobj
      · exact absurd harr (hc.fields elements)
      · exact hobj
    · rcases any_isObject_iff.mp h.clocks with ⟨elements, harr⟩ | ⟨members, hobj⟩
      · exact absurd harr (hc.clocks elements)
      · refine ⟨members, hobj, fun m hm => hc.finite _ hobj m.2 ?_⟩
        exact List.mem_map_of_mem hm

theorem orZero_isNumber {v : Option Payload}
    (h : ∀ x, v = some x → x = .null ∨ x.isNumber = true) : (orZero v).isNumber = true := by
  cases v with
  | none => rfl
  | some x =>
      rcases h x rfl with rfl | hx
      · rfl
      · obtain ⟨n, rfl⟩ := JsValue.isNumber_iff.mp hx
        rfl

/-- A `RemoteChange` is merged on numbers. -/
theorem IsRemoteChange.comparesNumbers {c : Payload} (h : IsRemoteChange c) :
    ComparesNumbers c := by
  obtain ⟨members, hclocks, hfinite⟩ := h.clocks
  constructor
  · intro key
    refine orZero_isNumber fun x hx => Or.inr ?_
    rw [hclocks, Option.bind_some] at hx
    obtain ⟨m, hm, rfl⟩ := List.mem_map.mp (JsValue.mem_values_of_own hx)
    obtain ⟨n, hn⟩ := hfinite m hm
    rw [hn]
    rfl
  · refine orZero_isNumber fun x hx => ?_
    rcases h.deletedAt with hnull | ⟨n, hnum⟩
    · exact Or.inl (Option.some.inj (hx.symm.trans hnull))
    · exact Or.inr (Option.some.inj (hx.symm.trans hnum) ▸ rfl)

/-! ## What the parser accepts -/

/-- `parseChange` returns what it was given, when the tests pass. -/
theorem parseChange_eq_ok (raw c : Payload) : parseChange raw = .ok c ↔ c = raw ∧ Tested raw := by
  unfold parseChange
  constructor
  · intro h
    split at h
    · cases h
    · rename_i hobject
      split at h
      · obtain ⟨id, -, hthrow⟩ := bind_eq_ok.mp h
        cases hthrow
      · rename_i hparts
        simp only [Bool.or_eq_true, Bool.not_eq_true', not_or, Bool.not_eq_false] at hobject hparts
        exact ⟨(Except.ok.inj h).symm, hobject, hparts.1.1, hparts.1.2, hparts.2⟩
  · rintro ⟨rfl, h⟩
    simp [h.object, h.id, h.fields, h.clocks]

/-- A response that is taken passes the tests. -/
theorem takes_of_parse {raw : Payload} {res : SyncResponseBody} (h : parse raw = .ok res) :
    Takes raw res.changes := by
  unfold parse at h
  split at h
  · cases h
  · rename_i hobject
    split at h
    · rename_i changes harray
      split at h
      · rename_i checkpoint hcheckpoint
        obtain ⟨parsed, hparsed, hreturn⟩ := bind_eq_ok.mp h
        obtain ⟨rfl, heach⟩ := (mapM_check_eq_ok parseChange_eq_ok).mp hparsed
        obtain rfl := Except.ok.inj hreturn
        refine ⟨by simpa using hobject, harray, ?_, heach⟩
        exact any_isNumber_iff.mpr ⟨checkpoint, hcheckpoint⟩
      · cases h
    · cases h

/-- A response that passes the tests is taken. -/
theorem Takes.parse {raw : Payload} {changes : List Payload} (h : Takes raw changes) :
    ∃ res, parse raw = .ok res ∧ res.changes = changes := by
  obtain ⟨checkpoint, hcheckpoint⟩ := any_isNumber_iff.mp h.checkpoint
  refine ⟨⟨changes, checkpoint, acceptedIds raw⟩, ?_, rfl⟩
  have heach := (mapM_check_eq_ok parseChange_eq_ok).mpr ⟨rfl, h.each⟩
  simp only [Mobile.parse, h.object, h.array, hcheckpoint, Bool.not_true, Bool.false_eq_true,
    if_false]
  exact bind_eq_ok.mpr ⟨changes, heach, rfl⟩

/-- **What the parser accepts is typed as the transport says** for exactly the responses in
which every change that passes its tests also has the parts it casts. -/
theorem accepts_only_remoteChanges_iff (raw : Payload) :
    (∀ res, parse raw = .ok res → ∀ c ∈ res.changes, IsRemoteChange c ∧ ComparesNumbers c) ↔
      ∀ changes, Takes raw changes → ∀ c ∈ changes, LeftToCast c := by
  constructor
  · intro h changes htakes c hc
    obtain ⟨res, hres, rfl⟩ := htakes.parse
    exact (htakes.each c hc).isRemoteChange_iff.mp (h res hres c hc).1
  · intro h res hres c hc
    have htakes := takes_of_parse hres
    have hchange := (htakes.each c hc).isRemoteChange_iff.mpr (h res.changes htakes c hc)
    exact ⟨hchange, hchange.comparesNumbers⟩

namespace TextClock

/-- A change without a replica id, whose one clock is a text. -/
def change : Payload :=
  .obj [(js "id", .str (js "c1")), (js "fields", .obj [(js "title", .str (js "x"))]),
    (js "clocks", .obj [(js "title", .str (js "9"))])]

def response : Payload :=
  .obj [(js "changes", .arr [change]), (js "checkpoint", .num (.finite ⟨5, 0, by decide⟩))]

/-- The parser lets it through, and the merge compares the text. -/
theorem text_clock_accepted :
    ∃ res, parse response = .ok res ∧ change ∈ res.changes ∧ ¬ IsRemoteChange change ∧
      wireClock change (js "title") = .str (js "9") ∧ ¬ ComparesNumbers change := by
  have hclock : wireClock change (js "title") = .str (js "9") := rfl
  refine ⟨⟨[change], .finite ⟨5, 0, by decide⟩, []⟩, rfl, List.mem_singleton.mpr rfl, ?_, hclock,
    ?_⟩
  · intro h
    obtain ⟨s, hs⟩ := h.nodeId
    cases hs
  · intro h
    have hnumber := h.clock (js "title")
    rw [hclock] at hnumber
    cases hnumber

end TextClock

end FlowLogix.Mobile
