/-
  Server/Database.lean --- the tables behind the sync endpoint and the CRUD
  services (backend/src/boards/board.entity.ts, lists/list.entity.ts,
  cards/card.entity.ts, common/tenant/tenant-access.service.ts).

  PostgreSQL and its driver are not part of the repository.  `Postgres` is what
  the server relies on them for: reading a uuid literal, and converting a value
  on its way into a column.  A statement whose value has no conversion is
  rejected.  The three tables are indexed by primary key; a row keeps its
  entity's properties in one dictionary, apart from the sync metadata, and
  carries the proof that each of them is a value its column holds.

  Two reductions.  Text is ordered by code unit wherever SQL orders it, and a
  row's ownership chain ends in the `orgId` of its board, which is what both the
  row-level-security policies and the joined reads compute.
-/
import FlowLogix.Foundation.Register
import FlowLogix.Foundation.Run

set_option autoImplicit false

namespace FlowLogix.Server

open FlowLogix.Foundation

/-! ## Collections -/

/-- `SyncCollection`. -/
inductive SyncCollection where
  | boards
  | lists
  | cards
  deriving DecidableEq, Repr

/-- `syncFields` of a collection's strategy. -/
def syncFields : SyncCollection → List String
  | .boards => ["title"]
  | .lists => ["title", "boardId", "positionIdx"]
  | .cards => ["title", "description", "isComplete", "listId", "positionIdx"]

theorem syncFields_nodup (c : SyncCollection) : (syncFields c).Nodup := by
  cases c <;> decide

/-- The property that names a record's parent: its board, its list, or the
organization itself. -/
def parentProperty : SyncCollection → String
  | .boards => "orgId"
  | .lists => "boardId"
  | .cards => "listId"

/-! ## The store -/

/-- What the server relies on PostgreSQL and its driver for. -/
structure Postgres where
  /-- The canonical text of a uuid literal; `none` when it is not one. -/
  uuid : JsString → Option JsString
  uuid_canonical : ∀ s k, uuid s = some k → uuid k = some k
  /-- What a column holds after a value is written to it; `none` when the
  statement is rejected. -/
  store : SyncCollection → String → Json → Option Json
  store_stored : ∀ c field v w, store c field v = some w → store c field w = some w
  /-- A parent is stored as a uuid. -/
  store_parent : ∀ c s w, store c (parentProperty c) (.str s) = some w →
    ∃ k, uuid s = some k ∧ w = .str k

/-- Field clocks, deletion stamps and checkpoints: finite numbers. -/
abbrev Clock : Type := ℚ

/-- Why a request fails; its transaction is rolled back. -/
inductive Failure where
  /-- PostgreSQL rejects a statement: a constraint, a type or a cast -/
  | rejectedStatement
  /-- a statement after a rejected one of the same transaction -/
  | abortedTransaction
  | notFound (message : JsString)
  | badRequest (message : JsString)
  | error (message : JsString)
  deriving DecidableEq

/-- A number whose decimal text the `bigint` type reads.  The bound below is strict: the
text of `-2^63` is `-9223372036854776000`. -/
def isBigint (x : Clock) : Bool := x.den == 1 && -2 ^ 63 < x.num && x.num < 2 ^ 63

/-- The properties of an entity, by property name, each a value its column
holds. -/
structure Columns (pg : Postgres) (c : SyncCollection) where
  columns : JsObject Json
  stored : ∀ field v, columns.lookup field = some v → pg.store c field v = some v

/-- A row of one table. -/
structure Row (pg : Postgres) (c : SyncCollection) extends Columns pg c where
  createdAt : Int
  syncClocks : JsObject Clock
  nodeId : Option JsString
  syncDeletedAt : Option Clock
  /-- a row has every synced column -/
  complete : ∀ field ∈ syncFields c, field ∈ columns

variable {pg : Postgres} {c : SyncCollection}

namespace Columns

/-- The columns of a statement that names none. -/
def empty : Columns pg c where
  columns := ∅
  stored := by simp

/-- Write one column. -/
def write (cols : Columns pg c) (property : String) (v : Json) :
    Except Failure (Columns pg c) :=
  match h : pg.store c property v with
  | none => .error .rejectedStatement
  | some w => .ok
      { columns := cols.columns.insert property w
        stored := by
          intro field u hu
          rw [Dict.lookup_insert_eq] at hu
          by_cases hf : field = property
          · rw [if_pos hf] at hu
            obtain rfl := Option.some.inj hu
            exact hf ▸ pg.store_stored _ _ _ _ h
          · exact cols.stored field u (by rwa [if_neg hf] at hu) }

/-- Write a list of columns. -/
def writeAll (cols : Columns pg c) (values : List (String × Json)) :
    Except Failure (Columns pg c) :=
  values.foldlM (fun cols pair => cols.write pair.1 pair.2) cols

theorem write_eq_ok {cols cols' : Columns pg c} {property : String} {v : Json}
    (h : cols.write property v = .ok cols') :
    ∃ w, pg.store c property v = some w ∧ cols'.columns = cols.columns.insert property w := by
  unfold write at h
  split at h
  · cases h
  · rename_i w hw
    cases h
    exact ⟨w, hw, rfl⟩

/-- The effect of a list of writes on each column. -/
theorem writeAll_eq_ok {values : List (String × Json)} {cols cols' : Columns pg c}
    (hnodup : (values.map Prod.fst).Nodup) (h : cols.writeAll values = .ok cols') :
    (∀ property v, (property, v) ∈ values →
        ∃ w, pg.store c property v = some w ∧ cols'.columns.lookup property = some w) ∧
      ∀ property, property ∉ values.map Prod.fst →
        cols'.columns.lookup property = cols.columns.lookup property := by
  induction values generalizing cols with
  | nil =>
      obtain rfl : cols = cols' := Except.ok.inj h
      simp
  | cons pair rest ih =>
      obtain ⟨property, v⟩ := pair
      rw [writeAll, List.foldlM_cons] at h
      obtain ⟨mid, hmid, hrest⟩ := bind_eq_ok.mp h
      obtain ⟨w, hstore, hcolumns⟩ := write_eq_ok hmid
      rw [List.map_cons, List.nodup_cons] at hnodup
      obtain ⟨ihin, ihout⟩ := ih hnodup.2 hrest
      constructor
      · intro key u hmem
        rcases List.mem_cons.mp hmem with heq | hmem
        · cases heq
          refine ⟨w, hstore, ?_⟩
          rw [ihout property hnodup.1, hcolumns, Dict.lookup_insert_eq, if_pos rfl]
        · exact ihin key u hmem
      · intro key hkey
        rw [List.map_cons, List.mem_cons, not_or] at hkey
        rw [ihout key hkey.2, hcolumns, Dict.lookup_insert_eq, if_neg hkey.1]

/-- A list of writes goes through when the store takes every value. -/
theorem exists_writeAll {values : List (String × Json)} (cols : Columns pg c)
    (h : ∀ pair ∈ values, (pg.store c pair.1 pair.2).isSome = true) :
    ∃ cols', cols.writeAll values = .ok cols' := by
  induction values generalizing cols with
  | nil => exact ⟨cols, rfl⟩
  | cons pair rest ih =>
      have hwrite : ∃ mid, cols.write pair.1 pair.2 = .ok mid := by
        have hstore := h pair List.mem_cons_self
        unfold write
        split
        · rename_i hnone
          rw [hnone] at hstore
          cases hstore
        · exact ⟨_, rfl⟩
      obtain ⟨mid, hmid⟩ := hwrite
      obtain ⟨cols', hcols'⟩ := ih mid fun pair' hmem => h pair' (List.mem_cons_of_mem pair hmem)
      refine ⟨cols', ?_⟩
      rw [writeAll, List.foldlM_cons]
      exact bind_eq_ok.mpr ⟨mid, hmid, hcols'⟩

/-- A write removes no column. -/
theorem mem_of_writeAll {values : List (String × Json)} {cols cols' : Columns pg c}
    (h : cols.writeAll values = .ok cols') {field : String} (hf : field ∈ cols.columns) :
    field ∈ cols'.columns := by
  refine foldlM_invariant (fun cols : Columns pg c => field ∈ cols.columns) ?_ hf h
  intro mid pair mid' _ hmid hwrite
  obtain ⟨w, -, hcolumns⟩ := write_eq_ok hwrite
  rw [hcolumns, AList.mem_insert]
  exact Or.inr hmid

end Columns

namespace Row

/-- A property that holds text. -/
def text (row : Row pg c) (property : String) : Option JsString :=
  match row.columns.lookup property with
  | some (.str s) => some s
  | _ => none

theorem text_congr {row row' : Row pg c} {property : String}
    (h : row'.columns.lookup property = row.columns.lookup property) :
    row'.text property = row.text property := by
  rw [text, text, h]

/-- A parent a row names is a canonical uuid. -/
theorem text_eq_uuid {row : Row pg c} {s : JsString}
    (h : row.text (parentProperty c) = some s) : pg.uuid s = some s := by
  rw [text] at h
  split at h
  · rename_i s' hs
    obtain rfl := Option.some.inj h
    obtain ⟨k, hk, heq⟩ := pg.store_parent c s' _ (row.stored _ _ hs)
    rw [hk, Json.str.inj heq]
  · cases h

/-- A new row, if no synced column is missing. -/
def ofColumns (createdAt : Int) (cols : Columns pg c) : Except Failure (Row pg c) :=
  if h : ∀ field ∈ syncFields c, field ∈ cols.columns then
    .ok
      { toColumns := cols
        createdAt := createdAt
        syncClocks := ∅
        nodeId := none
        syncDeletedAt := none
        complete := h }
  else .error .rejectedStatement

/-- Write a list of columns. -/
def writeColumns (row : Row pg c) (values : List (String × Json)) :
    Except Failure (Row pg c) :=
  match h : row.toColumns.writeAll values with
  | .error e => .error e
  | .ok cols => .ok
      { row with
        toColumns := cols
        complete := fun field hf => Columns.mem_of_writeAll h (row.complete field hf) }

/-- Write the sync metadata: `node_id` is a `varchar(64)`, `sync_deleted_at` a
`bigint`. -/
def writeSync (row : Row pg c) (clocks : JsObject Clock) (nodeId : Option JsString)
    (deletedAt : Option Clock) : Except Failure (Row pg c) :=
  if (nodeId.all fun n => decide (charLength n ≤ 64)) && deletedAt.all isBigint then
    .ok { row with syncClocks := clocks, nodeId := nodeId, syncDeletedAt := deletedAt }
  else .error .rejectedStatement

theorem ofColumns_eq_ok {createdAt : Int} {cols : Columns pg c} {row : Row pg c}
    (h : ofColumns createdAt cols = .ok row) : row.columns = cols.columns := by
  unfold ofColumns at h
  split at h
  · cases h
    rfl
  · cases h

theorem writeColumns_eq_ok {values : List (String × Json)} {row row' : Row pg c}
    (hnodup : (values.map Prod.fst).Nodup) (h : row.writeColumns values = .ok row') :
    (∀ property v, (property, v) ∈ values →
        ∃ w, pg.store c property v = some w ∧ row'.columns.lookup property = some w) ∧
      (∀ property, property ∉ values.map Prod.fst →
        row'.columns.lookup property = row.columns.lookup property) ∧
      row'.syncClocks = row.syncClocks ∧ row'.syncDeletedAt = row.syncDeletedAt := by
  unfold writeColumns at h
  split at h
  · cases h
  · rename_i cols hcols
    cases h
    obtain ⟨hin, hout⟩ := Columns.writeAll_eq_ok hnodup hcols
    exact ⟨hin, hout, rfl, rfl⟩

theorem exists_writeColumns {values : List (String × Json)} (row : Row pg c)
    (h : ∀ pair ∈ values, (pg.store c pair.1 pair.2).isSome = true) :
    ∃ row', row.writeColumns values = .ok row' := by
  obtain ⟨cols, hcols⟩ := row.toColumns.exists_writeAll h
  unfold writeColumns
  split
  · rename_i e he
    rw [hcols] at he
    cases he
  · exact ⟨_, rfl⟩

/-- Writing columns touches nothing else. -/
theorem writeColumns_frame {values : List (String × Json)} {row row' : Row pg c}
    (h : row.writeColumns values = .ok row') :
    row'.createdAt = row.createdAt ∧ row'.syncClocks = row.syncClocks ∧
      row'.nodeId = row.nodeId ∧ row'.syncDeletedAt = row.syncDeletedAt := by
  unfold writeColumns at h
  split at h
  · cases h
  · cases h
    exact ⟨rfl, rfl, rfl, rfl⟩

theorem writeSync_eq_ok {row row' : Row pg c} {clocks : JsObject Clock}
    {nodeId : Option JsString} {deletedAt : Option Clock}
    (h : row.writeSync clocks nodeId deletedAt = .ok row') :
    row'.columns = row.columns ∧ row'.syncClocks = clocks ∧ row'.syncDeletedAt = deletedAt ∧
      deletedAt.all isBigint = true := by
  unfold writeSync at h
  split at h
  · rename_i hvalid
    cases h
    exact ⟨rfl, rfl, rfl, (Bool.and_eq_true_iff.mp hvalid).2⟩
  · cases h

/-- The sync metadata of a row fits its columns. -/
def FitsColumns (row : Row pg c) : Prop :=
  (row.nodeId.all fun n => decide (charLength n ≤ 64)) = true ∧
    row.syncDeletedAt.all isBigint = true

theorem writeSync_fitsColumns {row row' : Row pg c} {clocks : JsObject Clock}
    {nodeId : Option JsString} {deletedAt : Option Clock}
    (h : row.writeSync clocks nodeId deletedAt = .ok row') : row'.FitsColumns := by
  unfold writeSync at h
  split at h
  · rename_i hvalid
    cases h
    exact Bool.and_eq_true_iff.mp hvalid
  · cases h

/-- Metadata that fits is written. -/
theorem exists_writeSync {row : Row pg c} {source : Row pg c} (h : source.FitsColumns)
    (clocks : JsObject Clock) :
    ∃ row', row.writeSync clocks source.nodeId source.syncDeletedAt = .ok row' :=
  ⟨_, if_pos (Bool.and_eq_true_iff.mpr h)⟩

end Row

/-- The tables.  `users` maps a user to its organization. -/
structure Database (pg : Postgres) where
  table : (c : SyncCollection) → Dict JsString (Row pg c)
  users : Dict JsString JsString

namespace Database

/-- The row with a primary key. -/
def find (db : Database pg) (c : SyncCollection) (id : JsString) : Option (Row pg c) :=
  (db.table c).lookup id

theorem mem_table_of_find {db : Database pg} {id : JsString} {row : Row pg c}
    (h : db.find c id = some row) : id ∈ db.table c :=
  AList.lookup_isSome.mp (Option.isSome_of_eq_some h)

/-- Insert or replace a row. -/
def put (db : Database pg) (id : JsString) (row : Row pg c) : Database pg :=
  { db with table := Function.update db.table c ((db.table c).insert id row) }

theorem find_put (db : Database pg) (id j : JsString) (row : Row pg c) :
    (db.put id row).find c j = if j = id then some row else db.find c j := by
  simp [find, put, Dict.lookup_insert_eq]

theorem table_put_of_ne (db : Database pg) (id : JsString) (row : Row pg c)
    {c' : SyncCollection} (h : c' ≠ c) : (db.put id row).table c' = db.table c' := by
  simp [put, h]

theorem find_put_of_ne (db : Database pg) (id j : JsString) (row : Row pg c)
    {c' : SyncCollection} (h : c' ≠ c) : (db.put id row).find c' j = db.find c' j := by
  rw [find, find, table_put_of_ne db id row h]

/-! ## Ownership -/

/-- The organization of a board. -/
def boardOrg (db : Database pg) (id : JsString) : Option JsString :=
  (db.find .boards id).bind (·.text "orgId")

/-- The organization of a list, through its board. -/
def listOrg (db : Database pg) (id : JsString) : Option JsString :=
  ((db.find .lists id).bind (·.text "boardId")).bind db.boardOrg

/-- The organization a parent belongs to. -/
def ancestorOrg (db : Database pg) : SyncCollection → JsString → Option JsString
  | .boards => some
  | .lists => db.boardOrg
  | .cards => db.listOrg

/-- The organization a row's parent belongs to. -/
def parentOrg (db : Database pg) (c : SyncCollection) (row : Row pg c) : Option JsString :=
  (row.text (parentProperty c)).bind (db.ancestorOrg c)

/-- The organization a record belongs to, through its parent chain. -/
def owner (db : Database pg) (c : SyncCollection) (id : JsString) : Option JsString :=
  (db.find c id).bind (db.parentOrg c)

theorem parentOrg_boards (db : Database pg) (row : Row pg .boards) :
    db.parentOrg .boards row = row.text "orgId" :=
  Option.bind_fun_some _

theorem owner_boards (db : Database pg) : db.owner .boards = db.boardOrg := by
  funext id
  rw [owner, boardOrg, funext db.parentOrg_boards]

theorem owner_lists (db : Database pg) : db.owner .lists = db.listOrg := by
  funext id
  rw [owner, listOrg, Option.bind_assoc]
  rfl

theorem boardOrg_congr {db db' : Database pg} (h : db'.table .boards = db.table .boards) :
    db'.boardOrg = db.boardOrg := by
  funext id
  rw [boardOrg, boardOrg, find, find, h]

theorem listOrg_congr {db db' : Database pg} (hb : db'.table .boards = db.table .boards)
    (hl : db'.table .lists = db.table .lists) : db'.listOrg = db.listOrg := by
  funext id
  rw [listOrg, listOrg, boardOrg_congr hb, find, find, hl]

/-- `parentOrg` looks at the tables above the row's own. -/
theorem parentOrg_congr {db db' : Database pg} (h : ∀ c', c' ≠ c → db'.table c' = db.table c') :
    db'.parentOrg c = db.parentOrg c := by
  funext row
  rw [parentOrg, parentOrg]
  cases c with
  | boards => rfl
  | lists => rw [ancestorOrg, ancestorOrg, boardOrg_congr (h .boards (by decide))]
  | cards =>
      rw [ancestorOrg, ancestorOrg, listOrg_congr (h .boards (by decide)) (h .lists (by decide))]

/-- `parentOrg` reads the parent column. -/
theorem parentOrg_eq_of_lookup (db : Database pg) {row row' : Row pg c}
    (h : row'.columns.lookup (parentProperty c) = row.columns.lookup (parentProperty c)) :
    db.parentOrg c row' = db.parentOrg c row := by
  rw [parentOrg, parentOrg, Row.text_congr h]

/-- A row whose parent column was written with a parent of the organization. -/
theorem parentOrg_of_store {db : Database pg} {row : Row pg c} {s orgId : JsString} {w : Json}
    (hstore : pg.store c (parentProperty c) (.str s) = some w)
    (hw : row.columns.lookup (parentProperty c) = some w)
    (horg : ∀ k, pg.uuid s = some k → db.ancestorOrg c k = some orgId) :
    db.parentOrg c row = some orgId := by
  obtain ⟨k, hk, rfl⟩ := pg.store_parent _ _ _ hstore
  rw [parentOrg, Row.text, hw]
  exact horg k hk

/-- No record leaves its organization when one table is written and each of its
records still names a parent of the organization it belongs to. -/
theorem owner_of_table {db db' : Database pg} (htable : ∀ c', c' ≠ c → db'.table c' = db.table c')
    (hrows : ∀ k o, db.owner c k = some o →
      ∃ row, db'.find c k = some row ∧ db.parentOrg c row = some o)
    {c' : SyncCollection} {j o : JsString} (hj : db.owner c' j = some o) :
    db'.owner c' j = some o := by
  -- down the chain: what holds of the parents' collection holds of the children's
  have hdown : ∀ c', (∀ k o, db.ancestorOrg c' k = some o → db'.ancestorOrg c' k = some o) →
      ∀ j o, db.owner c' j = some o → db'.owner c' j = some o := by
    intro c' hancestor j o hj
    have hparent : ∀ r : Row pg c', db.parentOrg c' r = some o → db'.parentOrg c' r = some o := by
      intro r hr
      obtain ⟨k, hk, horg⟩ := Option.bind_eq_some_iff.mp hr
      exact Option.bind_eq_some_iff.mpr ⟨k, hk, hancestor k o horg⟩
    by_cases hc : c' = c
    · subst hc
      obtain ⟨row, hrow, horg⟩ := hrows j o hj
      exact Option.bind_eq_some_iff.mpr ⟨row, hrow, hparent row horg⟩
    · obtain ⟨row, hrow, horg⟩ := Option.bind_eq_some_iff.mp hj
      refine Option.bind_eq_some_iff.mpr ⟨row, ?_, hparent row horg⟩
      rw [find, htable c' hc]
      exact hrow
  have hboards := hdown .boards fun _ _ h => h
  have hlists := hdown .lists fun k o h => by
    rw [ancestorOrg, ← owner_boards] at h ⊢
    exact hboards k o h
  have hcards := hdown .cards fun k o h => by
    rw [ancestorOrg, ← owner_lists] at h ⊢
    exact hlists k o h
  cases c' with
  | boards => exact hboards j o hj
  | lists => exact hlists j o hj
  | cards => exact hcards j o hj

/-- Where no record leaves its organization, no parent does. -/
theorem parentOrg_of_owner {db db' : Database pg}
    (howner : ∀ c' j o, db.owner c' j = some o → db'.owner c' j = some o) {row : Row pg c}
    {o : JsString} (h : db.parentOrg c row = some o) : db'.parentOrg c row = some o := by
  obtain ⟨k, hk, horg⟩ := Option.bind_eq_some_iff.mp h
  refine Option.bind_eq_some_iff.mpr ⟨k, hk, ?_⟩
  cases c with
  | boards => exact horg
  | lists =>
      rw [ancestorOrg, ← owner_boards] at horg ⊢
      exact howner .boards k o horg
  | cards =>
      rw [ancestorOrg, ← owner_lists] at horg ⊢
      exact howner .lists k o horg

section Put

variable {db : Database pg} {id : JsString} {row : Row pg c}

/-- Writing a row under its own organization, or under a fresh key, keeps every
record in its organization. -/
theorem owner_put (hrow : ∀ o, db.owner c id = some o → db.parentOrg c row = some o)
    {c' : SyncCollection} {j o : JsString} (hj : db.owner c' j = some o) :
    (db.put id row).owner c' j = some o := by
  refine owner_of_table (fun c' hc => db.table_put_of_ne id row hc) (fun k o hk => ?_) hj
  rw [find_put]
  by_cases h : k = id
  · subst h
    exact ⟨row, if_pos rfl, hrow o hk⟩
  · obtain ⟨r, hr, horg⟩ := Option.bind_eq_some_iff.mp hk
    exact ⟨r, by rw [if_neg h, hr], horg⟩

/-- The row that is written, in the organization of its parent. -/
theorem owner_put_self {o : JsString} (h : db.parentOrg c row = some o) :
    (db.put id row).owner c id = some o := by
  rw [owner, find_put, if_pos rfl, Option.bind_some,
    parentOrg_congr fun c' hc => db.table_put_of_ne id row hc]
  exact h

end Put

/-! ## Queries -/

/-- A uuid parameter of a query. -/
def key (pg : Postgres) (id : JsString) : Except Failure JsString :=
  match pg.uuid id with
  | some k => .ok k
  | none => .error .rejectedStatement

/-- `findOne(entity, { where: { id, ...: { orgId } } })`: a record of the
organization, with its primary key. -/
def load (db : Database pg) (c : SyncCollection) (id orgId : JsString) :
    Except Failure (Option (JsString × Row pg c)) := do
  let k ← key pg id
  return if db.owner c k = some orgId then (db.find c k).map fun row => (k, row) else none

/-- `boardInOrg`.  The callers pass a text that matches `UUID_RE`, which is a uuid
literal. -/
def boardInOrg (db : Database pg) (boardId orgId : JsString) : Bool :=
  (pg.uuid boardId).any fun k => decide (db.owner .boards k = some orgId)

/-- `listInOrg`. -/
def listInOrg (db : Database pg) (listId orgId : JsString) : Bool :=
  (pg.uuid listId).any fun k => decide (db.owner .lists k = some orgId)

theorem ancestorOrg_of_boardInOrg {db : Database pg} {boardId orgId k : JsString}
    (h : db.boardInOrg boardId orgId = true) (hk : pg.uuid boardId = some k) :
    db.ancestorOrg .lists k = some orgId := by
  rw [ancestorOrg, ← owner_boards]
  simpa [boardInOrg, hk] using h

theorem ancestorOrg_of_listInOrg {db : Database pg} {listId orgId k : JsString}
    (h : db.listInOrg listId orgId = true) (hk : pg.uuid listId = some k) :
    db.ancestorOrg .cards k = some orgId := by
  rw [ancestorOrg, ← owner_lists]
  simpa [listInOrg, hk] using h

/-- Where no record leaves its organization, a parent that is in one stays in it. -/
theorem inOrg_of_owner {db db' : Database pg}
    (howner : ∀ c' j o, db.owner c' j = some o → db'.owner c' j = some o) {id orgId : JsString}
    (h : (pg.uuid id).any (fun k => decide (db.owner c k = some orgId)) = true) :
    (pg.uuid id).any (fun k => decide (db'.owner c k = some orgId)) = true := by
  obtain ⟨k, hk, hin⟩ := (Option.any_eq_true _ _).mp h
  refine (Option.any_eq_true _ _).mpr ⟨k, hk, ?_⟩
  exact decide_eq_true (howner c k orgId (of_decide_eq_true hin))

/-- `boardIdForList`. -/
def boardIdForList (db : Database pg) (listId : JsString) : Option JsString :=
  ((pg.uuid listId).bind (db.find .lists)).bind (·.text "boardId")

/-- The position keys of the children of a parent. -/
def siblingKeys (db : Database pg) (c : SyncCollection) (parentId : JsString) :
    List JsString :=
  (db.table c).values.filterMap fun row =>
    if row.text (parentProperty c) = some parentId then row.text "positionIdx" else none

/-- `findOne(entity, { where: { parent }, order: { positionIdx: 'DESC' } })`: the
greatest position key of a parent. -/
def lastKey (db : Database pg) (c : SyncCollection) (parentId : JsString) : Option JsString :=
  (db.siblingKeys c parentId).foldl (fun last key => some (last.elim key (max key))) none

/-- The rows of an organization, in ascending order of primary key. -/
def orgRows (db : Database pg) (c : SyncCollection) (orgId : JsString) :
    List (JsString × Row pg c) :=
  (((db.table c).entries.map fun e => (e.1, e.2)).filter fun e =>
    decide (db.owner c e.1 = some orgId)).insertionSort fun e e' => e.1 ≤ e'.1

end Database

/-- The rows of an organization are the records it owns. -/
theorem mem_orgRows {db : Database pg} {orgId k : JsString} {row : Row pg c} :
    (k, row) ∈ db.orgRows c orgId ↔ db.find c k = some row ∧ db.owner c k = some orgId := by
  rw [Database.orgRows, (List.perm_insertionSort _ _).mem_iff, List.mem_filter]
  exact and_congr Dict.mem_pairs decide_eq_true_iff

theorem nodup_orgRows {db : Database pg} {orgId : JsString} :
    ((db.orgRows c orgId).map Prod.fst).Nodup := by
  have hperm := List.perm_insertionSort (fun e e' : JsString × Row pg c => e.1 ≤ e'.1)
    (((db.table c).entries.map fun e => (e.1, e.2)).filter fun e =>
      decide (db.owner c e.1 = some orgId))
  rw [Database.orgRows, (hperm.map Prod.fst).nodup_iff]
  exact List.Nodup.sublist (List.Sublist.map _ List.filter_sublist) (Dict.nodup_keys_pairs _)

theorem pairwise_orgRows {db : Database pg} {orgId : JsString} :
    (db.orgRows c orgId).Pairwise fun e e' => e.1 < e'.1 := by
  have hle : (db.orgRows c orgId).Pairwise fun e e' => e.1 ≤ e'.1 :=
    List.pairwise_insertionSort _ _
  have hne : (db.orgRows c orgId).Pairwise fun e e' => e.1 ≠ e'.1 :=
    List.pairwise_map.mp nodup_orgRows
  exact hle.imp₂ (fun e e' hle hne => lt_of_le_of_ne hle hne) hne

/-! ## A plain store

An instance to run the model on: canonical ids, and columns that keep a value of
their type as it is and reject any other. -/

/-- The values of a column's type. -/
def hasColumnType (property : String) : Json → Bool
  | .null => property ∈ ["description", "dueDate", "createdBy"]
  | .bool _ => property ∈ ["isComplete", "isArchived"]
  | .str s =>
      property ∈ ["description", "dueDate", "visibility", "createdBy", "orgId", "boardId",
        "listId"] ||
        (property ∈ ["title", "positionIdx"] && charLength s ≤ 255)
  | .obj _ => property ∈ ["bgProperties", "customFields"]
  | _ => false

/-- The plain store. -/
def Postgres.plain : Postgres where
  uuid := some
  uuid_canonical _ _ _ := rfl
  store _ property v := if hasColumnType property v then some v else none
  store_stored := by
    intro c property v w h
    by_cases hv : hasColumnType property v = true
    · rw [if_pos hv] at h
      obtain rfl := Option.some.inj h
      rw [if_pos hv]
    · rw [if_neg hv] at h
      cases h
  store_parent := by
    intro c s w h
    by_cases hv : hasColumnType (parentProperty c) (.str s) = true
    · rw [if_pos hv] at h
      exact ⟨s, rfl, (Option.some.inj h).symm⟩
    · rw [if_neg hv] at h
      cases h

/-- A row of the plain store. -/
def Row.plain (columns : JsObject Json)
    (h : ∀ e ∈ columns.entries, hasColumnType e.1 e.2 = true)
    (complete : ∀ field ∈ syncFields c, field ∈ columns) : Row Postgres.plain c where
  columns := columns
  stored field v hv := if_pos (h ⟨field, v⟩ (AList.mem_lookup_iff.mp hv))
  createdAt := 0
  syncClocks := ∅
  nodeId := none
  syncDeletedAt := none
  complete := complete

/-! ### A small organization -/

namespace Sample

def orgId : JsString := js "00000000-0000-4000-8000-000000000001"
def boardId : JsString := js "00000000-0000-4000-8000-00000000000a"
def listId : JsString := js "00000000-0000-4000-8000-00000000000b"
def cardId : JsString := js "00000000-0000-4000-8000-00000000000c"

/-- A board of the organization. -/
def board : Row Postgres.plain .boards :=
  .plain (Dict.ofList [("orgId", .str orgId), ("title", .str (js "Roadmap"))]) (by decide)
    (by decide)

/-- A list on the board. -/
def list : Row Postgres.plain .lists :=
  .plain (Dict.ofList [("boardId", .str boardId), ("title", .str (js "Next")),
    ("positionIdx", .str (js "M"))]) (by decide) (by decide)

/-- A card in the list, as CRUD creation leaves it: no clocks. -/
def card : Row Postgres.plain .cards :=
  .plain (Dict.ofList [("title", .str (js "Ship")), ("description", .null),
    ("isComplete", .bool false), ("listId", .str listId), ("positionIdx", .str (js "M"))])
    (by decide) (by decide)

/-- Tables with the board, the list and the given cards. -/
def database (cards : Dict JsString (Row Postgres.plain .cards)) :
    Database Postgres.plain where
  table
    | .boards => Dict.ofList [(boardId, board)]
    | .lists => Dict.ofList [(listId, list)]
    | .cards => cards
  users := ∅

/-- Tables with one card. -/
def oneCard (card : Row Postgres.plain .cards) : Database Postgres.plain :=
  database (Dict.ofList [(cardId, card)])

theorem of_find_oneCard {card row : Row Postgres.plain .cards} {k : JsString}
    (h : (oneCard card).find .cards k = some row) : k = cardId ∧ row = card := by
  have hlookup : (AList.insert cardId card ∅ : Dict JsString _).lookup k = some row := h
  rw [Dict.lookup_insert_eq] at hlookup
  by_cases hk : k = cardId
  · rw [if_pos hk] at hlookup
    exact ⟨hk, (Option.some.inj hlookup).symm⟩
  · rw [if_neg hk, AList.lookup_empty] at hlookup
    cases hlookup

/-- Nothing at all. -/
def nothing : Database Postgres.plain where
  table _ := ∅
  users := ∅

end Sample

end FlowLogix.Server
