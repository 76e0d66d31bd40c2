/-
  Server/SyncDto.lean --- what the sync endpoint accepts
  (backend/src/sync/dto/sync.dto.ts).

  The global `ValidationPipe` checks a body against the decorators before the service
  sees it.  A body is what `JSON.parse` makes of the text the transport sends, so its
  changes are objects; what their properties hold is for the decorators to find out.
  `validate_body_iff` reads them for a body made from a typed request.
-/
import FlowLogix.Foundation.JsValue
import FlowLogix.Server.SyncService

set_option autoImplicit false

namespace FlowLogix.Server

open FlowLogix.Foundation

/-- `SYNC_COLLECTIONS`. -/
def syncCollections : List JsString := [js "boards", js "lists", js "cards"]

/-- A parsed value of a request. -/
abbrev BodyValue : Type := JsValue Clock

/-- The body of a request. -/
structure SyncRequestBody where
  collection : BodyValue
  sinceCheckpoint : BodyValue
  changes : List (JsObject BodyValue)

/-! ## The decorators -/

/-- `@IsIn(values)`. -/
def isIn (values : List JsString) (v : BodyValue) : Bool := v.asString.any fun s => s ∈ values

/-- `@IsInt()`. -/
def isInt : BodyValue → Bool
  | .num x => x.den == 1
  | .null | .bool _ | .str _ | .arr _ | .obj _ => false

/-- `@Min(bound)`. -/
def isMin (bound : Clock) : BodyValue → Bool
  | .num x => bound ≤ x
  | .null | .bool _ | .str _ | .arr _ | .obj _ => false

/-- `@IsOptional()`: the other checks are skipped for a value that is missing or `null`. -/
def isOptional (check : BodyValue → Bool) : Option BodyValue → Bool
  | none | some .null => true
  | some v => check v

/-- The decorators of `SyncChangeDto`. -/
def SyncChangeDto.validate (change : JsObject BodyValue) : Bool :=
  (change.lookup "id").any JsValue.isString &&
    (change.lookup "fields").any JsValue.isPlainObject &&
    (change.lookup "clocks").any JsValue.isPlainObject &&
    (change.lookup "nodeId").any JsValue.isString &&
    isOptional isInt (change.lookup "deletedAt")

/-- The decorators of `SyncRequestDto`. -/
def SyncRequestDto.validate (body : SyncRequestBody) : Bool :=
  isIn syncCollections body.collection &&
    (isInt body.sinceCheckpoint && isMin 0 body.sinceCheckpoint) &&
    decide (body.changes.length ≤ maxSyncChanges) &&
    body.changes.all SyncChangeDto.validate

/-! ## The body of a request -/

/-- The name of a collection on the wire. -/
def SyncCollection.wireName : SyncCollection → JsString
  | .boards => js "boards"
  | .lists => js "lists"
  | .cards => js "cards"

/-- A number, or `null`. -/
def wireStamp : Option Clock → BodyValue
  | none => .null
  | some x => .num x

/-- A change as it stands in the body. -/
def SyncChangeDto.body (change : SyncChangeDto) : JsObject BodyValue :=
  Dict.ofList [
    ("id", .str change.id),
    ("fields", .ofDict (.ofJson JsNumber.toRat) change.fields),
    ("clocks", .ofDict wireStamp change.clocks),
    ("nodeId", .str change.nodeId),
    ("deletedAt", wireStamp change.deletedAt)]

/-- The body of a request. -/
def SyncRequestDto.body (request : SyncRequestDto) : SyncRequestBody where
  collection := .str request.collection.wireName
  sinceCheckpoint := .num request.sinceCheckpoint
  changes := request.changes.map SyncChangeDto.body

/-! ## What is accepted -/

/-- A stamp is missing or an integer. -/
def IsWhole (stamp : Option Clock) : Prop := ∀ x, stamp = some x → x.den = 1

theorem isOptional_isInt_wireStamp {stamp : Option Clock} :
    isOptional isInt (some (wireStamp stamp)) = true ↔ IsWhole stamp := by
  cases stamp with
  | none => simp [wireStamp, isOptional, IsWhole]
  | some x => simp [wireStamp, isOptional, isInt, IsWhole]

/-- A typed change can only be refused for its tombstone. -/
theorem SyncChangeDto.validate_body_iff (change : SyncChangeDto) :
    SyncChangeDto.validate change.body = true ↔ IsWhole change.deletedAt := by
  rw [← isOptional_isInt_wireStamp]
  have hid : change.body.lookup "id" = some (.str change.id) := rfl
  have hfields : change.body.lookup "fields" =
      some (.ofDict (.ofJson JsNumber.toRat) change.fields) := rfl
  have hclocks : change.body.lookup "clocks" = some (.ofDict wireStamp change.clocks) := rfl
  have hnode : change.body.lookup "nodeId" = some (.str change.nodeId) := rfl
  have hdeleted : change.body.lookup "deletedAt" = some (wireStamp change.deletedAt) := rfl
  rw [validate, hid, hfields, hclocks, hnode, hdeleted]
  simp [JsValue.isString, JsValue.isPlainObject, JsValue.ofDict]

theorem isIn_wireName (c : SyncCollection) : isIn syncCollections (.str c.wireName) = true := by
  cases c <;> decide

/-- **The validator on a typed request**: it counts the changes and looks at their
tombstones. -/
theorem SyncRequestDto.validate_body_iff (request : SyncRequestDto) :
    SyncRequestDto.validate request.body = true ↔
      request.changes.length ≤ maxSyncChanges ∧
        ∀ change ∈ request.changes, IsWhole change.deletedAt := by
  have hsince : isInt request.body.sinceCheckpoint = true ∧
      isMin 0 request.body.sinceCheckpoint = true :=
    ⟨beq_iff_eq.mpr (Rat.den_natCast _), decide_eq_true (Nat.cast_nonneg _)⟩
  have hchanges : request.body.changes.all SyncChangeDto.validate = true ↔
      ∀ change ∈ request.changes, IsWhole change.deletedAt := by
    rw [List.all_eq_true]
    exact List.forall_mem_map.trans
      (forall₂_congr fun change _ => SyncChangeDto.validate_body_iff change)
  have hcount : request.body.changes.length = request.changes.length := List.length_map _
  rw [validate, hsince.1, hsince.2, hcount,
    show isIn syncCollections request.body.collection = true from isIn_wireName _]
  simp only [Bool.and_eq_true, decide_eq_true_eq, hchanges, Bool.true_and]

end FlowLogix.Server
