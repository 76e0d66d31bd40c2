/-
  Server/Tables.lean --- every table of the application
  (the entities under backend/src and the InitSchema migration).

  `Database` holds the three synced tables and, of the users, their organizations.
  `Tables` adds the others, and what their foreign keys do when a row is deleted: users
  and boards go with their organization, lists, cards, comments and memberships with
  what they belong to, and a board loses its creator.

  A column that is null has no entry.
-/
import FlowLogix.Server.BoardEndpoints

set_option autoImplicit false

namespace FlowLogix.Foundation.Dict

variable {κ α : Type} [DecidableEq κ]

/-- `DELETE ... WHERE`. -/
def removeWhere (p : κ → α → Bool) (d : Dict κ α) : Dict κ α :=
  (d.keys.filter fun k => (d.lookup k).any (p k)).foldl (fun d k => d.erase k) d

theorem lookup_removeWhere (p : κ → α → Bool) (d : Dict κ α) (k : κ) :
    (d.removeWhere p).lookup k = (d.lookup k).filter fun v => !p k v := by
  rw [removeWhere, lookup_foldl_erase]
  cases hk : d.lookup k with
  | none => simp
  | some v =>
      have hmem : k ∈ d.keys :=
        AList.mem_keys.mp (AList.lookup_isSome.mp (Option.isSome_of_eq_some hk))
      cases hp : p k v <;> simp [List.mem_filter, hmem, hk, hp, Option.filter]

end FlowLogix.Foundation.Dict

namespace FlowLogix.Server

open FlowLogix.Foundation

variable {pg : Postgres} {c : SyncCollection}

/-! ## Rows -/

/-- An `Organization`, without its timestamps. -/
structure Organization where
  name : JsString
  domain : Option JsString
  deriving DecidableEq

/-- A `User`, without its timestamp. -/
structure User where
  orgId : JsString
  email : JsString
  passwordHash : JsString
  firstName : JsString
  lastName : JsString
  avatarUrl : Option JsString
  timezone : JsString
  locale : JsString
  isActive : Bool
  deriving DecidableEq

/-- A `Comment`, without its timestamps. -/
structure Comment where
  cardId : JsString
  userId : JsString
  textContent : JsString
  deriving DecidableEq

/-- `BoardMemberRole`. -/
inductive BoardMemberRole where
  | owner
  | admin
  | member
  | viewer
  deriving DecidableEq, Repr

/-- `SET NULL` on a column no sync writes. -/
def Row.setNull (row : Row pg c) (property : String) (h : property ∉ syncFields c) : Row pg c where
  columns := row.columns.erase property
  stored field v hv := by
    by_cases hf : field = property
    · rw [hf, AList.lookup_erase] at hv
      cases hv
    · rw [AList.lookup_erase_ne hf] at hv
      exact row.stored field v hv
  createdAt := row.createdAt
  syncClocks := row.syncClocks
  nodeId := row.nodeId
  syncDeletedAt := row.syncDeletedAt
  complete field hf := by
    refine AList.mem_erase.mpr ⟨fun heq => h (heq ▸ hf), row.complete field hf⟩

theorem Row.text_setNull (row : Row pg c) {property : String} (h : property ∉ syncFields c)
    (field : String) :
    (row.setNull property h).text field = if field = property then none else row.text field := by
  split
  · rename_i hf
    rw [hf, text]
    simp [setNull]
  · rename_i hf
    exact text_congr (AList.lookup_erase_ne hf)

/-! ## The tables -/

/-- All tables, each by its primary key. -/
structure Tables (pg : Postgres) where
  table : (c : SyncCollection) → Dict JsString (Row pg c)
  organizations : Dict JsString Organization
  users : Dict JsString User
  comments : Dict JsString Comment
  /-- by board and user -/
  boardMembers : Dict (JsString × JsString) BoardMemberRole
  /-- by card and user -/
  cardMembers : Dict (JsString × JsString) Unit

namespace Tables

/-- What the synced tables' services see. -/
def database (t : Tables pg) : Database pg where
  table := t.table
  users := t.users.mapValues User.orgId

/-- The synced tables as a service left them. -/
def withDatabase (t : Tables pg) (db : Database pg) : Tables pg := { t with table := db.table }

/-- The organization of a user. -/
def userOrg (t : Tables pg) (user : JsString) : Option JsString :=
  (t.users.lookup user).map User.orgId

theorem users_database (t : Tables pg) (user : JsString) :
    t.database.users.lookup user = t.userOrg user :=
  Dict.lookup_mapValues _ _ _

/-! ## Deleting with foreign keys -/

/-- A row that is deleted. -/
def gone {κ α : Type} [DecidableEq κ] (rows : Dict κ α) (p : κ → α → Bool) (k : κ) : Bool :=
  (rows.lookup k).any (p k)

/-- `DELETE FROM cards`. -/
def removeCards (t : Tables pg) (p : JsString → Row pg .cards → Bool) : Tables pg :=
  { t with
    table := Function.update t.table .cards ((t.table .cards).removeWhere p)
    comments := t.comments.removeWhere fun _ comment => gone (t.table .cards) p comment.cardId
    cardMembers := t.cardMembers.removeWhere fun member _ => gone (t.table .cards) p member.1 }

/-- `DELETE FROM lists`. -/
def removeLists (t : Tables pg) (p : JsString → Row pg .lists → Bool) : Tables pg :=
  { t with
    table := Function.update t.table .lists ((t.table .lists).removeWhere p) }.removeCards
      fun _ card => (card.text "listId").any (gone (t.table .lists) p)

/-- `DELETE FROM boards`. -/
def removeBoards (t : Tables pg) (p : JsString → Row pg .boards → Bool) : Tables pg :=
  { t with
    table := Function.update t.table .boards ((t.table .boards).removeWhere p)
    boardMembers := t.boardMembers.removeWhere fun member _ =>
      gone (t.table .boards) p member.1 }.removeLists
        fun _ list => (list.text "boardId").any (gone (t.table .boards) p)

/-- `ON DELETE SET NULL` of a board's creator. -/
def forget (t : Tables pg) (p : JsString → User → Bool) (board : Row pg .boards) :
    Row pg .boards :=
  if (board.text "createdBy").any (gone t.users p) then board.setNull "createdBy" (by decide)
  else board

/-- Every board without a creator that is deleted. -/
def forgetCreators (t : Tables pg) (p : JsString → User → Bool) : Tables pg :=
  { t with
    table := Function.update t.table .boards ((t.table .boards).mapValues (t.forget p)) }

/-- `DELETE FROM users`. -/
def removeUsers (t : Tables pg) (p : JsString → User → Bool) : Tables pg :=
  { t.forgetCreators p with
    users := t.users.removeWhere p
    comments := t.comments.removeWhere fun _ comment => gone t.users p comment.userId
    boardMembers := t.boardMembers.removeWhere fun member _ => gone t.users p member.2
    cardMembers := t.cardMembers.removeWhere fun member _ => gone t.users p member.2 }

/-- `DELETE FROM organizations`, of one row. -/
def removeOrganization (t : Tables pg) (k : JsString) : Tables pg :=
  let rest := (t.removeUsers fun _ user => user.orgId = k).removeBoards fun _ board =>
    board.text "orgId" = some k
  { rest with organizations := t.organizations.erase k }

end Tables

end FlowLogix.Server
