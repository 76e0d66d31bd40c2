/-
  Server/Sanitize.lean --- what a sync change contributes to a merge
  (backend/src/sync/dto/sync.dto.ts and `sanitizeClientChange` of
  backend/src/sync/sync.service.ts).

  A change arrives as unvalidated JSON: the field values are arbitrary and a
  clock may be anything, so the wire clocks are `Option Clock`, `none` for a
  value that is not a finite number.  `sanitizeClientChange` is the source's
  loop; `lookup_sanitize_fields` and `lookup_sanitize_clocks` say what it keeps,
  in terms of the pure function `accepted`.
-/
import FlowLogix.Server.Database
import FlowLogix.Server.SyncMerge
import FlowLogix.Ordering.FractionalIndexer

set_option autoImplicit false

namespace FlowLogix.Server

open FlowLogix.Foundation FlowLogix.Ordering

/-! ## The wire -/

/-- `SyncChangeDto`. -/
structure SyncChangeDto where
  id : JsString
  fields : JsObject Json
  clocks : JsObject (Option Clock)
  nodeId : JsString
  deletedAt : Option Clock

/-! ## Reading unvalidated values -/

/-- A hexadecimal digit, in either case. -/
def isHexDigit (u : CodeUnit) : Bool :=
  (48 ≤ u.val && u.val ≤ 57) || (65 ≤ u.val && u.val ≤ 70) || (97 ≤ u.val && u.val ≤ 102)

/-- The character classes of `UUID_RE`, in order. -/
def uuidPattern : List (CodeUnit → Bool) :=
  let hex := isHexDigit
  let dash := fun u : CodeUnit => u.val == 45
  let version := fun u : CodeUnit => 49 ≤ u.val && u.val ≤ 56
  let variant := fun u : CodeUnit => u ∈ js "89abAB"
  List.replicate 8 hex ++ [dash] ++ List.replicate 4 hex ++ [dash, version] ++
    List.replicate 3 hex ++ [dash, variant] ++ List.replicate 3 hex ++ [dash] ++
    List.replicate 12 hex

/-- `UUID_RE.test`. -/
def isUuid (s : JsString) : Bool :=
  s.length == uuidPattern.length && (uuidPattern.zip s).all fun p => p.1 p.2

/-- The text of a value that is a uuid. -/
def asUuid : Option Json → Option JsString
  | some (.str s) => if isUuid s then some s else none
  | _ => none

/-- The text of a value that is a string with a non-blank character. -/
def asNonEmptyString : Option Json → Option JsString
  | some (.str s) => if hasNonBlank s then some s else none
  | _ => none

/-- Keep only synced keys whose clock is a finite number. -/
def numericClocks (source : JsObject (Option Clock)) (fields : List String) :
    JsObject Clock :=
  fields.foldl (fun out field =>
    match (source.lookup field).join with
    | some value => out.insert field value
    | none => out) ∅

/-! ## Sanitizing -/

variable {pg : Postgres}

/-- The value a synced field contributes, if it is not dropped. -/
def acceptedValue (db : Database pg) (orgId : JsString) (field : String) (value : Json) :
    Option Json :=
  if field = "positionIdx" then
    match value with
    | .str s => if PositionService.isValid s then some value else none
    | _ => none
  else if field = "listId" then
    (asUuid (some value)).bind fun listId =>
      if db.listInOrg listId orgId then some (.str listId) else none
  else if field = "boardId" then
    (asUuid (some value)).bind fun boardId =>
      if db.boardInOrg boardId orgId then some (.str boardId) else none
  else some value

/-- What `sanitizeClientChange` returns. -/
structure SanitizedChange where
  fields : JsObject (Option Json)
  clocks : JsObject Clock

/-- The loop body of `sanitizeClientChange`. -/
def sanitizeField (db : Database pg) (orgId : JsString) (sourceFields : JsObject Json)
    (rawClocks : JsObject Clock) (out : SanitizedChange) (field : String) :
    SanitizedChange :=
  match sourceFields.lookup field with
  | none => out
  | some value =>
      match acceptedValue db orgId field value with
      | none => out
      | some value =>
          { fields := out.fields.insert field (some value)
            clocks :=
              match rawClocks.lookup field with
              | some clock => out.clocks.insert field clock
              | none => out.clocks }

/-- Keep only synced keys; drop invalid positions and out-of-org parents, and the
clocks of what is dropped. -/
def sanitizeClientChange (db : Database pg) (orgId : JsString) (fields : List String)
    (sourceFields : JsObject Json) (sourceClocks : JsObject (Option Clock)) :
    SanitizedChange :=
  fields.foldl (sanitizeField db orgId sourceFields (numericClocks sourceClocks fields))
    { fields := ∅, clocks := ∅ }

/-- The client state a change is merged as. -/
def clientState (db : Database pg) (orgId : JsString) (fields : List String)
    (change : SyncChangeDto) : RecordState Clock :=
  let sanitized := sanitizeClientChange db orgId fields change.fields change.clocks
  { fields := sanitized.fields
    clocks := sanitized.clocks
    nodeId := some change.nodeId
    deletedAt := change.deletedAt }

/-- Snapshot the synced fields of a row for the merge. -/
def readFields {c : SyncCollection} (row : Row pg c) (fields : List String) :
    JsObject (Option Json) :=
  Dict.writeAll (fun field => row.columns.lookup field) fields ∅

/-- The server state of a row. -/
def serverState {c : SyncCollection} (row : Row pg c) : RecordState Clock where
  fields := readFields row (syncFields c)
  clocks := row.syncClocks
  nodeId := row.nodeId
  deletedAt := row.syncDeletedAt

/-! ## What sanitizing keeps -/

/-- The value a field of a change contributes: none when the change omits the
field or sanitizing drops it. -/
def accepted (db : Database pg) (orgId : JsString) (change : SyncChangeDto) (field : String) :
    Option Json :=
  (change.fields.lookup field).bind (acceptedValue db orgId field)

/-- The clock of a field of a change, if it is a finite number. -/
def sentClock (change : SyncChangeDto) (field : String) : Option Clock :=
  (change.clocks.lookup field).join

theorem lookup_foldl_numericClocks (source : JsObject (Option Clock)) (fields : List String)
    (out : JsObject Clock) (field : String) :
    (fields.foldl (fun out field =>
        match (source.lookup field).join with
        | some value => out.insert field value
        | none => out) out).lookup field =
      if field ∈ fields then (source.lookup field).join.or (out.lookup field)
      else out.lookup field := by
  induction fields generalizing out with
  | nil => simp
  | cons key rest ih =>
      rw [List.foldl_cons, ih]
      by_cases hkey : field = key
      · subst hkey
        cases hs : (source.lookup field).join <;> simp
      · cases hs : (source.lookup key).join <;> simp [hkey]

theorem lookup_numericClocks (source : JsObject (Option Clock)) (fields : List String)
    (field : String) :
    (numericClocks source fields).lookup field =
      if field ∈ fields then (source.lookup field).join else none := by
  rw [numericClocks, lookup_foldl_numericClocks]
  simp

theorem lookup_foldl_sanitizeField (db : Database pg) (orgId : JsString)
    (change : SyncChangeDto) (rawClocks : JsObject Clock) (fields : List String)
    (out : SanitizedChange) (field : String) :
    ((fields.foldl (sanitizeField db orgId change.fields rawClocks) out).fields.lookup field =
        if field ∈ fields then ((accepted db orgId change field).map some).or
          (out.fields.lookup field)
        else out.fields.lookup field) ∧
      ((fields.foldl (sanitizeField db orgId change.fields rawClocks) out).clocks.lookup field =
        if field ∈ fields ∧ (accepted db orgId change field).isSome then
          (rawClocks.lookup field).or (out.clocks.lookup field)
        else out.clocks.lookup field) := by
  induction fields generalizing out with
  | nil => simp
  | cons key rest ih =>
      rw [List.foldl_cons]
      obtain ⟨ihf, ihc⟩ := ih (sanitizeField db orgId change.fields rawClocks out key)
      rw [ihf, ihc]
      by_cases hkey : field = key
      · subst hkey
        cases hv : change.fields.lookup field with
        | none => simp [sanitizeField, accepted, hv]
        | some value =>
            cases ha : acceptedValue db orgId field value with
            | none => simp [sanitizeField, accepted, hv, ha]
            | some w =>
                cases hc : rawClocks.lookup field <;>
                  simp [sanitizeField, accepted, hv, ha, hc]
      · have hf : (sanitizeField db orgId change.fields rawClocks out key).fields.lookup field =
            out.fields.lookup field := by
          unfold sanitizeField
          split
          · rfl
          · split
            · rfl
            · simp [hkey]
        have hc : (sanitizeField db orgId change.fields rawClocks out key).clocks.lookup field =
            out.clocks.lookup field := by
          unfold sanitizeField
          split
          · rfl
          · split
            · rfl
            · cases rawClocks.lookup key <;> simp [hkey]
        simp [hf, hc, hkey]

/-- The fields a change is merged with. -/
theorem lookup_clientState_fields (db : Database pg) (orgId : JsString)
    (fields : List String) (change : SyncChangeDto) (field : String) :
    (clientState db orgId fields change).fields.lookup field =
      if field ∈ fields then (accepted db orgId change field).map some else none := by
  rw [clientState, sanitizeClientChange, (lookup_foldl_sanitizeField db orgId change _ _ _ _).1]
  simp

/-- The clocks a change is merged with. -/
theorem lookup_clientState_clocks (db : Database pg) (orgId : JsString)
    (fields : List String) (change : SyncChangeDto) (field : String) :
    (clientState db orgId fields change).clocks.lookup field =
      if field ∈ fields ∧ (accepted db orgId change field).isSome then sentClock change field
      else none := by
  rw [clientState, sanitizeClientChange, (lookup_foldl_sanitizeField db orgId change _ _ _ _).2,
    lookup_numericClocks]
  by_cases hf : field ∈ fields <;> simp [hf, sentClock]

theorem lookup_readFields {c : SyncCollection} (row : Row pg c) (fields : List String)
    (field : String) :
    (readFields row fields).lookup field =
      if field ∈ fields then some (row.columns.lookup field) else none := by
  rw [readFields, Dict.lookup_writeAll]
  simp

/-! ## The registers of both sides -/

/-- The register a row holds for a field. -/
def Row.stamp {c : SyncCollection} (row : Row pg c) (field : String) : Stamp Clock :=
  toLex (readClock row.syncClocks field, canonicalJson (row.columns.lookup field))

/-- The register a change brings for a field: the zero register when it omits the
field or the field is dropped. -/
def sentStamp (db : Database pg) (orgId : JsString) (change : SyncChangeDto)
    (field : String) : Stamp Clock :=
  match accepted db orgId change field with
  | some value => toLex ((sentClock change field).getD 0, stringify value)
  | none => toLex (0, js "null")

section

variable {c : SyncCollection} {field : String}

theorem mem_serverState_fields (row : Row pg c) :
    field ∈ (serverState row).fields ↔ field ∈ syncFields c := by
  rw [← AList.lookup_isSome, serverState, lookup_readFields]
  split <;> simp_all

/-- The fields of the two sides together are the synced fields. -/
theorem mem_fields_iff (db : Database pg) (orgId : JsString) (row : Row pg c)
    (change : SyncChangeDto) :
    (field ∈ (serverState row).fields ∨
        field ∈ (clientState db orgId (syncFields c) change).fields) ↔
      field ∈ syncFields c := by
  have hclient : field ∈ (clientState db orgId (syncFields c) change).fields →
      field ∈ syncFields c := by
    rw [← AList.lookup_isSome, lookup_clientState_fields]
    split <;> simp_all
  rw [mem_serverState_fields]
  exact ⟨fun h => h.elim id hclient, Or.inl⟩

theorem readField_serverState (row : Row pg c) (hf : field ∈ syncFields c) :
    readField (serverState row).fields field = row.columns.lookup field := by
  rw [serverState, readField, lookup_readFields, if_pos hf, Option.join_some]

theorem stamp_serverState (row : Row pg c) (hf : field ∈ syncFields c) :
    (serverState row).stamp field = row.stamp field := by
  rw [RecordState.stamp, stampOf, readField_serverState row hf]
  rfl

theorem readField_clientState (db : Database pg) (orgId : JsString) (change : SyncChangeDto)
    (hf : field ∈ syncFields c) :
    readField (clientState db orgId (syncFields c) change).fields field =
      accepted db orgId change field := by
  rw [readField, lookup_clientState_fields, if_pos hf]
  cases accepted db orgId change field <;> rfl

theorem stamp_clientState (db : Database pg) (orgId : JsString) (change : SyncChangeDto)
    (hf : field ∈ syncFields c) :
    (clientState db orgId (syncFields c) change).stamp field =
      sentStamp db orgId change field := by
  rw [RecordState.stamp, stampOf, readField_clientState db orgId change hf, readClock,
    lookup_clientState_clocks, sentStamp]
  cases accepted db orgId change field <;> simp [hf]

end

end FlowLogix.Server
