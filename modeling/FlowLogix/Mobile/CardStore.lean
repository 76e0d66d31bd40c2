/-
  Mobile/CardStore.lean --- cards in local SQLite
  (mobile/src/model/watermelonStores.ts, Card.ts and schema.ts).

  `WatermelonCardStore` keeps a record in the columns of one row and reads it back from
  them.  The setters of the columns are the database package's: `Columns` takes them as a
  parameter, and `Columns.Documented` is what the decorators and the schema promise.

  What is read back is the record that was put when the record is card-shaped: it has the
  five fields of a card, typed as their columns are, and no text of it has blanks around
  it (`same_read_iff`).
-/
import FlowLogix.Mobile.SyncEngine

set_option autoImplicit false

namespace FlowLogix.Mobile

open FlowLogix.Foundation FlowLogix.Crdt
open FlowLogix.Server (Clock)

/-! ## Rows -/

/-- `Card`: the columns of a row. -/
structure CardRow where
  listId : JsString
  listIdUpdatedAt : Clock
  title : JsString
  titleUpdatedAt : Clock
  description : Option JsString
  descriptionUpdatedAt : Clock
  positionIdx : JsString
  positionIdxUpdatedAt : Clock
  isComplete : Bool
  isCompleteUpdatedAt : Clock
  nodeId : JsString
  deletedAt : Option Clock
  pending : Bool

/-- What a column holds after it was set; an optional one can hold null. -/
structure Columns where
  text : Option Json → JsString
  optionalText : Option Json → Option JsString
  flag : Option Json → Bool
  number : Option Clock → Clock
  optionalNumber : Option Clock → Option Clock

/-- `@text` trims; the schema puts an empty value in the place of one of another type, and
null where the column is optional. -/
structure Columns.Documented (columns : Columns) : Prop where
  text : ∀ s, columns.text (some (.str s)) = trim s
  optionalText : ∀ s, columns.optionalText (some (.str s)) = some (trim s)
  null : columns.optionalText (some .null) = none
  flag : ∀ b, columns.flag (some (.bool b)) = b
  number : ∀ x, columns.number (some x) = x
  missing : columns.number none = 0
  optionalNumber : ∀ x, columns.optionalNumber x = x

/-- A row that was just created. -/
def CardRow.blank : CardRow where
  listId := []
  listIdUpdatedAt := 0
  title := []
  titleUpdatedAt := 0
  description := none
  descriptionUpdatedAt := 0
  positionIdx := []
  positionIdxUpdatedAt := 0
  isComplete := false
  isCompleteUpdatedAt := 0
  nodeId := []
  deletedAt := none
  pending := false

/-- `assignCard`. -/
def assignCard (columns : Columns) (card : CardRow) (record : LocalRecord) : CardRow :=
  { card with
    listId := columns.text (readField record.fields "listId")
    listIdUpdatedAt := columns.number (record.clocks.lookup "listId")
    title := columns.text (readField record.fields "title")
    titleUpdatedAt := columns.number (record.clocks.lookup "title")
    description := columns.optionalText (readField record.fields "description")
    descriptionUpdatedAt := columns.number (record.clocks.lookup "description")
    positionIdx := columns.text (readField record.fields "positionIdx")
    positionIdxUpdatedAt := columns.number (record.clocks.lookup "positionIdx")
    isComplete := columns.flag (readField record.fields "isComplete")
    isCompleteUpdatedAt := columns.number (record.clocks.lookup "isComplete")
    nodeId := columns.text (some (.str record.nodeId))
    deletedAt := columns.optionalNumber record.deletedAt
    pending := columns.flag (some (.bool record.pending)) }

/-- A text that can be null. -/
def nullable : Option JsString → Json
  | some s => .str s
  | none => .null

/-- `cardToLocalRecord`. -/
def cardToLocalRecord (id : JsString) (card : CardRow) : LocalRecord where
  id := id
  fields := Dict.ofList
    [("listId", some (.str card.listId)), ("title", some (.str card.title)),
      ("description", some (nullable card.description)),
      ("positionIdx", some (.str card.positionIdx)),
      ("isComplete", some (.bool card.isComplete))]
  clocks := Dict.ofList
    [("listId", card.listIdUpdatedAt), ("title", card.titleUpdatedAt),
      ("description", card.descriptionUpdatedAt), ("positionIdx", card.positionIdxUpdatedAt),
      ("isComplete", card.isCompleteUpdatedAt)]
  nodeId := card.nodeId
  deletedAt := card.deletedAt
  pending := card.pending

/-! ## The store -/

/-- The `cards` table, under the ids of the rows. -/
structure CardStore where
  cards : Dict JsString CardRow

namespace CardStore

/-- A table without rows. -/
def empty : CardStore where
  cards := ∅

/-- `getById`. -/
def getById (store : CardStore) (id : JsString) : Option LocalRecord :=
  (store.cards.lookup id).map (cardToLocalRecord id)

/-- `getPending`. -/
def getPending (store : CardStore) : List LocalRecord :=
  (store.cards.entries.filter fun e => e.2.pending).map fun e => cardToLocalRecord e.1 e.2

/-- `put`: the row of the id is made, or written over. -/
def put (columns : Columns) (store : CardStore) (record : LocalRecord) : CardStore where
  cards :=
    match store.cards.lookup record.id with
    | none => store.cards.insert record.id (assignCard columns .blank record)
    | some card => store.cards.insert record.id (assignCard columns card record)

end CardStore

/-! ## Records that look the same -/

/-- Two versions with the same fields and, where a missing clock is 0, the same clocks. -/
structure SameVersion (r r' : VersionedRecord Clock) : Prop where
  id : r.id = r'.id
  fields : ∀ key, r.fields.lookup key = r'.fields.lookup key
  clocks : ∀ key, readClock r.clocks key = readClock r'.clocks key
  nodeId : r.nodeId = r'.nodeId
  deletedAt : r.deletedAt = r'.deletedAt

/-- Two such versions with the same flag. -/
structure LocalRecord.Same (r r' : LocalRecord) : Prop extends
    SameVersion r.toVersionedRecord r'.toVersionedRecord where
  pending : r.pending = r'.pending

/-- The fields of a card, `CardFields`. -/
def cardFields : List String := ["listId", "title", "description", "positionIdx", "isComplete"]

/-- A value of a field that its column can hold. -/
def Fits (key : String) (value : Option Json) : Prop :=
  if key = "isComplete" then ∃ b, value = some (.bool b)
  else if key = "description" then
    value = some .null ∨ ∃ s, value = some (.str s) ∧ trim s = s
  else ∃ s, value = some (.str s) ∧ trim s = s

/-- A record with the fields of a card, each with a value that fits. -/
structure CardShaped (r : VersionedRecord Clock) : Prop where
  fields : ∀ key, key ∈ r.fields ↔ key ∈ cardFields
  fits : ∀ key value, r.fields.lookup key = some value → Fits key value
  clocks : ∀ key, key ∉ cardFields → readClock r.clocks key = 0
  nodeId : trim r.nodeId = r.nodeId

section Read

variable {columns : Columns} {id : JsString} {card : CardRow} {record : LocalRecord}

/-- A key is one of the five or none of them. -/
theorem cardFields_cases (key : String) :
    key = "listId" ∨ key = "title" ∨ key = "description" ∨ key = "positionIdx" ∨
      key = "isComplete" ∨ key ∉ cardFields := by
  by_cases hkey : key ∈ cardFields
  · simp only [cardFields, List.mem_cons, List.not_mem_nil, or_false] at hkey
    tauto
  · tauto

/-- What becomes of the value of a field in its column. -/
def stored (columns : Columns) (key : String) (value : Option Json) : Option Json :=
  if key = "isComplete" then some (.bool (columns.flag value))
  else if key = "description" then some (nullable (columns.optionalText value))
  else some (.str (columns.text value))

/-- A column keeps a value that fits, and no other. -/
theorem stored_eq_iff (hdoc : columns.Documented) (key : String) (value : Option Json) :
    stored columns key value = value ↔ Fits key value := by
  unfold stored Fits
  split
  · refine ⟨fun h => ⟨_, h.symm⟩, ?_⟩
    rintro ⟨b, rfl⟩
    rw [hdoc.flag]
  · split
    · constructor
      · intro h
        cases htext : columns.optionalText value with
        | none =>
            rw [htext] at h
            exact Or.inl h.symm
        | some s =>
            rw [htext] at h
            rw [← h, nullable, hdoc.optionalText] at htext
            exact Or.inr ⟨s, h.symm, Option.some.inj htext⟩
      · rintro (rfl | ⟨s, rfl, htrim⟩)
        · rw [hdoc.null]
          rfl
        · rw [hdoc.optionalText, htrim]
          rfl
    · constructor
      · intro h
        have htext := hdoc.text (columns.text value)
        rw [h] at htext
        exact ⟨_, h.symm, htext.symm⟩
      · rintro ⟨s, rfl, htrim⟩
        rw [hdoc.text, htrim]

/-- The fields of a record that was put and is read back. -/
theorem lookup_read (key : String) :
    (cardToLocalRecord id (assignCard columns card record)).fields.lookup key =
      if key ∈ cardFields then some (stored columns key (readField record.fields key))
      else none := by
  simp only [cardToLocalRecord, assignCard, Dict.ofList, List.foldl_cons, List.foldl_nil,
    Dict.lookup_insert_eq, AList.lookup_empty]
  rcases cardFields_cases key with rfl | rfl | rfl | rfl | rfl | hkey
  · simp [cardFields, stored]
  · simp [cardFields, stored]
  · simp [cardFields, stored]
  · simp [cardFields, stored]
  · simp [cardFields, stored]
  · rw [if_neg hkey]
    simp only [cardFields, List.mem_cons, List.not_mem_nil, or_false, not_or] at hkey
    simp only [hkey, if_false]

/-- A clock comes back as it reads. -/
theorem number_lookup (hdoc : columns.Documented) (clocks : JsObject Clock) (key : String) :
    columns.number (clocks.lookup key) = readClock clocks key := by
  rw [readClock]
  cases clocks.lookup key with
  | none => exact hdoc.missing
  | some x => exact hdoc.number x

/-- The clocks of a record that was put and is read back. -/
theorem readClock_read (hdoc : columns.Documented) (key : String) :
    readClock (cardToLocalRecord id (assignCard columns card record)).clocks key =
      if key ∈ cardFields then readClock record.clocks key else 0 := by
  rw [readClock]
  simp only [cardToLocalRecord, assignCard, Dict.ofList, List.foldl_cons, List.foldl_nil,
    Dict.lookup_insert_eq, AList.lookup_empty, number_lookup hdoc]
  rcases cardFields_cases key with rfl | rfl | rfl | rfl | rfl | hkey
  · simp [cardFields]
  · simp [cardFields]
  · simp [cardFields]
  · simp [cardFields]
  · simp [cardFields]
  · rw [if_neg hkey]
    simp only [cardFields, List.mem_cons, List.not_mem_nil, or_false, not_or] at hkey
    simp only [hkey, if_false, Option.getD_none]

/-- **What the table keeps.** A record is read back as it was put exactly when it is
card-shaped. -/
theorem same_read_iff (hdoc : columns.Documented) (card : CardRow) (record : LocalRecord) :
    (cardToLocalRecord record.id (assignCard columns card record)).Same record ↔
      CardShaped record.toVersionedRecord := by
  constructor
  · intro h
    have hlookup : ∀ key, record.fields.lookup key = if key ∈ cardFields then
        some (stored columns key (readField record.fields key)) else none :=
      fun key => (h.fields key).symm.trans (lookup_read key)
    refine ⟨fun key => ?_, fun key value hvalue => ?_, fun key hkey => ?_, ?_⟩
    · rw [← AList.lookup_isSome, hlookup]
      split <;> simp_all
    · have hread := readField_of_lookup hvalue
      rw [hlookup] at hvalue
      split at hvalue
      · rw [hread] at hvalue
        exact (stored_eq_iff hdoc key value).mp (Option.some.inj hvalue)
      · cases hvalue
    · rw [← h.clocks, readClock_read hdoc, if_neg hkey]
    · exact (hdoc.text record.nodeId).symm.trans (h.nodeId)
  · intro h
    refine ⟨⟨rfl, fun key => ?_, fun key => ?_, ?_, hdoc.optionalNumber record.deletedAt⟩,
      hdoc.flag record.pending⟩
    · rw [lookup_read]
      split
      · rename_i hkey
        obtain ⟨value, hvalue⟩ := Option.isSome_iff_exists.mp
          (AList.lookup_isSome.mpr ((h.fields key).mpr hkey))
        rw [readField_of_lookup hvalue, hvalue,
          (stored_eq_iff hdoc key value).mpr (h.fits key value hvalue)]
      · rename_i hkey
        rw [AList.lookup_eq_none.mpr (mt (h.fields key).mp hkey)]
    · rw [readClock_read hdoc]
      split
      · rfl
      · rename_i hkey
        exact (h.clocks key hkey).symm
    · exact (hdoc.text record.nodeId).trans h.nodeId

end Read

/-! ## Reading the table -/

namespace CardStore

variable {columns : Columns} {store : CardStore} {record : LocalRecord} {id : JsString}

theorem id_of_getById (h : store.getById id = some record) : record.id = id := by
  obtain ⟨card, -, rfl⟩ := Option.map_eq_some_iff.mp h
  rfl

/-- Only the row of the record is written, and all of it. -/
theorem getById_put (store : CardStore) (record : LocalRecord) (id : JsString) :
    (store.put columns record).getById id =
      if id = record.id then some (cardToLocalRecord id (assignCard columns .blank record))
      else store.getById id := by
  have hput : store.put columns record =
      { cards := store.cards.insert record.id (assignCard columns .blank record) } := by
    rw [put]
    cases store.cards.lookup record.id <;> rfl
  rw [hput, getById, Dict.lookup_insert_eq]
  split <;> rfl

/-- The pending records of the table. -/
theorem mem_getPending :
    record ∈ store.getPending ↔ store.getById record.id = some record ∧ record.pending = true := by
  simp only [getPending, List.mem_map, List.mem_filter, getById, Option.map_eq_some_iff]
  constructor
  · rintro ⟨⟨id, card⟩, ⟨hmem, hpending⟩, rfl⟩
    exact ⟨⟨card, AList.mem_lookup_iff.mpr hmem, rfl⟩, hpending⟩
  · rintro ⟨⟨card, hcard, hrecord⟩, hpending⟩
    refine ⟨⟨record.id, card⟩, ⟨AList.mem_lookup_iff.mp hcard, ?_⟩, hrecord⟩
    rw [← hrecord] at hpending
    exact hpending

end CardStore

end FlowLogix.Mobile
