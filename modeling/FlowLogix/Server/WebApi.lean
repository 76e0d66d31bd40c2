/-
  Server/WebApi.lean --- the web API, endpoint by endpoint
  (backend/src/boards, lists, cards, comments, board-members, card-members, users and
  organizations: the services and their controllers).

  `Request.run` is what a controller does with a request whose token names `orgId`: the
  response, and the tables after the transaction.  A request that fails changes nothing.
  `id` and `now` are the defaults `gen_random_uuid()` and `now()` of a new row.

  The validation pipe has checked the bodies: texts fit their columns, and ids are in
  uuid form.
-/
import FlowLogix.Server.Cascades

set_option autoImplicit false

namespace FlowLogix.Server

open FlowLogix.Foundation FlowLogix.Ordering

variable {pg : Postgres} {c : SyncCollection}

/-! ## Responses -/

/-- A `User` without its password hash. -/
structure SafeUser where
  orgId : JsString
  email : JsString
  firstName : JsString
  lastName : JsString
  avatarUrl : Option JsString
  timezone : JsString
  locale : JsString
  isActive : Bool
  deriving DecidableEq

def User.withoutHash (user : User) : SafeUser where
  orgId := user.orgId
  email := user.email
  firstName := user.firstName
  lastName := user.lastName
  avatarUrl := user.avatarUrl
  timezone := user.timezone
  locale := user.locale
  isActive := user.isActive

/-- The rows a list is loaded with: its board. -/
def listRelations (list : Row pg .lists) : List Record :=
  (list.text "boardId").toList.map (.synced .boards)

/-- The rows a row is loaded with: a list's board; a card's list, and the board of that. -/
def Database.relations (db : Database pg) : (c : SyncCollection) → Row pg c → List Record
  | .boards, _ => []
  | .lists, list => listRelations list
  | .cards, card => (card.text "listId").toList.flatMap fun k =>
      .synced .lists k :: (db.find .lists k).toList.flatMap listRelations

/-- The body of an answer: rows under their keys, or the key of the row that was saved. -/
inductive Response (pg : Postgres) where
  | rows (c : SyncCollection) (rows : List (JsString × Row pg c))
  /-- with the rows it was loaded with -/
  | row (c : SyncCollection) (found : JsString × Row pg c) (relations : List Record)
  | comments (rows : List (JsString × Comment))
  /-- with the relation `user` -/
  | boardMembers (rows : List ((JsString × JsString) × BoardMemberRole × Option SafeUser))
  | boardMember (member : JsString × JsString) (role : BoardMemberRole)
  | cardMembers (members : List (JsString × JsString))
  | users (rows : List (JsString × User))
  | organizations (rows : List (JsString × Organization))
  /-- with the rows it was loaded with -/
  | saved (r : Record) (relations : List Record)
  | done

/-- The rows a response tells of. -/
def Response.records : Response pg → List Record
  | .rows c found => found.map fun e => .synced c e.1
  | .row c found relations => .synced c found.1 :: relations
  | .comments found => found.map fun e => .comment e.1
  | .boardMembers found => found.flatMap fun e =>
      .boardMember e.1 :: (e.2.2.map fun _ => Record.user e.1.2).toList
  | .boardMember m _ => [.boardMember m]
  | .cardMembers found => found.map .cardMember
  | .users found => found.map fun e => .user e.1
  | .organizations found => found.map fun e => .organization e.1
  | .saved r relations => r :: relations
  | .done => []

/-- The rows of a table that meet a condition, in no order a caller may count on. -/
def select {κ α : Type} (rows : Dict κ α) (p : κ → α → Bool) : List (κ × α) :=
  (rows.entries.map fun e => (e.1, e.2)).filter fun e => p e.1 e.2

theorem mem_select {κ α : Type} [DecidableEq κ] {rows : Dict κ α} {p : κ → α → Bool} {k : κ}
    {v : α} : (k, v) ∈ select rows p ↔ rows.lookup k = some v ∧ p k v = true := by
  rw [select, List.mem_filter]
  exact and_congr_left fun _ => Dict.mem_pairs

/-- A property of a partial update: kept when it is absent, rejected when it is null. -/
def patch {α : Type} (current : α) : Option (Option α) → Except Failure α
  | none => .ok current
  | some none => .error .rejectedStatement
  | some (some v) => .ok v

/-! ## Boards -/

/-- `CreateBoardDto`: a title, and the properties present in the request. -/
structure CreateBoardDto extends UpdateBoardDto where
  title : "title" ∈ content.keys

namespace BoardsService

/-- `manager.create(Board, { ...dto, orgId })`, over the entity's initializers and the
columns' defaults. -/
def newBoard (now : Int) (orgId : JsString) (dto : CreateBoardDto) : Entity where
  columns := (Dict.ofList [("description", .null), ("visibility", .str (js "private")),
    ("bgProperties", .obj []), ("createdBy", .null)]).assign
      (dto.content.assign (Dict.ofList [("orgId", .str orgId)]))
  createdAt := now
  syncClocks := ∅
  nodeId := none
  syncDeletedAt := none

/-- `BoardsService.create`.  The organization is a foreign key. -/
def create (t : Tables pg) (orgId id : JsString) (now : Int) (dto : CreateBoardDto) :
    Except Failure (Tables pg) := do
  checkCreator t.database orgId dto.toUpdateBoardDto
  let row ← insertEntity .boards (newBoard now orgId dto)
  if (t.database.find .boards id).isSome then throw .rejectedStatement
  if (row.text "orgId").all (· ∉ t.organizations) then throw .rejectedStatement
  return t.set (.synced .boards id) row

/-- `BoardsService.findAll`. -/
def findAll (t : Tables pg) (orgId : JsString) :
    Except Failure (List (JsString × Row pg .boards)) := do
  let o ← Database.key pg orgId
  return filterVisible (t.database.children .boards o)

/-- `BoardsService.remove`. -/
def remove (t : Tables pg) (id orgId : JsString) : Except Failure (Tables pg) := do
  let found ← assertBoardInOrg t.database id orgId
  return t.removeBoards fun k _ => k = found.1

end BoardsService

/-- The three `findOne`s: a row of the organization that is not deleted. -/
def findVisible (db : Database pg) (c : SyncCollection) (id orgId message : JsString) :
    Except Failure (JsString × Row pg c) := do
  let found ← assertInOrg db c id orgId message
  if isSyncDeleted found.2 then throw (.notFound message)
  return found

/-! ## Lists and cards -/

/-- `ListsService.remove`, with all that the foreign keys take along. -/
def ListsService.delete (t : Tables pg) (id orgId : JsString) : Except Failure (Tables pg) := do
  let found ← assertListInOrg t.database id orgId
  return t.removeLists fun k _ => k = found.1

/-- `CardsService.remove`, with all that the foreign keys take along. -/
def CardsService.delete (t : Tables pg) (id orgId : JsString) : Except Failure (Tables pg) := do
  let found ← assertCardInOrg t.database id orgId
  return t.removeCards fun k _ => k = found.1

/-! ## Comments -/

namespace CommentsService

structure CreateCommentDto where
  userId : JsString
  textContent : JsString

/-- `CommentsService.create`. -/
def create (t : Tables pg) (cardId orgId id : JsString) (dto : CreateCommentDto) :
    Except Failure (Tables pg) := do
  let card ← assertCardInOrg t.database cardId orgId
  assertUserInOrg t.database dto.userId orgId
  let user ← Database.key pg dto.userId
  if id ∈ t.comments then throw .rejectedStatement
  return t.set (.comment id)
    { cardId := card.1, userId := user, textContent := dto.textContent }

/-- `CommentsService.findAll`. -/
def findAll (t : Tables pg) (cardId orgId : JsString) :
    Except Failure (List (JsString × Comment)) := do
  let card ← assertCardInOrg t.database cardId orgId
  return select t.comments fun _ comment => comment.cardId = card.1

/-- `CommentsService.findOne`: the read sees the comments of the organization's cards, and
the card is checked once more. -/
def findOne (t : Tables pg) (id orgId : JsString) : Except Failure (JsString × Comment) := do
  let k ← Database.key pg id
  match (t.comments.lookup k).filter fun comment =>
      t.database.owner .cards comment.cardId = some orgId with
  | none => throw (.notFound (js "Comment not found"))
  | some comment =>
      match assertCardInOrg t.database comment.cardId orgId with
      | .error _ => throw (.notFound (js "Comment not found"))
      | .ok _ => return (k, comment)

/-- `CommentsService.update`. -/
def update (t : Tables pg) (id orgId textContent : JsString) :
    Except Failure (Tables pg × JsString) := do
  let found ← findOne t id orgId
  return (t.set (.comment found.1) { found.2 with textContent := textContent }, found.1)

/-- `CommentsService.remove`. -/
def remove (t : Tables pg) (id orgId : JsString) : Except Failure (Tables pg) := do
  let found ← findOne t id orgId
  return { t with comments := t.comments.erase found.1 }

end CommentsService

/-! ## Members -/

namespace BoardMembersService

structure CreateBoardMemberDto where
  userId : JsString
  role : Option BoardMemberRole

/-- `BoardMembersService.create`: `save` writes over a membership that exists. -/
def create (t : Tables pg) (boardId orgId : JsString) (dto : CreateBoardMemberDto) :
    Except Failure (Tables pg × (JsString × JsString)) := do
  let board ← assertBoardInOrg t.database boardId orgId
  assertUserInOrg t.database dto.userId orgId
  let user ← Database.key pg dto.userId
  return (t.set (.boardMember (board.1, user)) (dto.role.getD .member), (board.1, user))

/-- `BoardMembersService.findAll`: each member with its user, whose password hash is
deleted. -/
def findAll (t : Tables pg) (boardId orgId : JsString) :
    Except Failure (List ((JsString × JsString) × BoardMemberRole × Option SafeUser)) := do
  let board ← assertBoardInOrg t.database boardId orgId
  return (select t.boardMembers fun member _ => member.1 = board.1).map fun e =>
    (e.1, e.2, (t.users.lookup e.1.2).map User.withoutHash)

/-- `BoardMembersService.findOne`. -/
def findOne (t : Tables pg) (boardId userId orgId : JsString) :
    Except Failure ((JsString × JsString) × BoardMemberRole) := do
  let board ← assertBoardInOrg t.database boardId orgId
  let user ← Database.key pg userId
  match t.boardMembers.lookup (board.1, user) with
  | none => throw (.notFound (js "Board member not found"))
  | some role => return ((board.1, user), role)

/-- `BoardMembersService.update`. -/
def update (t : Tables pg) (boardId userId orgId : JsString) (role : BoardMemberRole) :
    Except Failure (Tables pg × (JsString × JsString)) := do
  let found ← findOne t boardId userId orgId
  return (t.set (.boardMember found.1) role, found.1)

/-- `BoardMembersService.remove`. -/
def remove (t : Tables pg) (boardId userId orgId : JsString) : Except Failure (Tables pg) := do
  let found ← findOne t boardId userId orgId
  return { t with boardMembers := t.boardMembers.erase found.1 }

end BoardMembersService

namespace CardMembersService

/-- `CardMembersService.create`. -/
def create (t : Tables pg) (cardId orgId userId : JsString) :
    Except Failure (Tables pg × (JsString × JsString)) := do
  let card ← assertCardInOrg t.database cardId orgId
  assertUserInOrg t.database userId orgId
  let user ← Database.key pg userId
  return (t.set (.cardMember (card.1, user)) (), (card.1, user))

/-- `CardMembersService.findAll`. -/
def findAll (t : Tables pg) (cardId orgId : JsString) :
    Except Failure (List (JsString × JsString)) := do
  let card ← assertCardInOrg t.database cardId orgId
  return (select t.cardMembers fun member _ => member.1 = card.1).map Prod.fst

/-- `CardMembersService.findOne`. -/
def findOne (t : Tables pg) (cardId userId orgId : JsString) :
    Except Failure (JsString × JsString) := do
  let card ← assertCardInOrg t.database cardId orgId
  let user ← Database.key pg userId
  match t.cardMembers.lookup (card.1, user) with
  | none => throw (.notFound (js "Card member not found"))
  | some _ => return (card.1, user)

/-- `CardMembersService.remove`. -/
def remove (t : Tables pg) (cardId userId orgId : JsString) : Except Failure (Tables pg) := do
  let found ← findOne t cardId userId orgId
  return { t with cardMembers := t.cardMembers.erase found }

end CardMembersService

/-! ## Users -/

namespace UsersService

/-- `CreateUserDto`: `some none` is a property that is present and null. -/
structure CreateUserDto where
  email : JsString
  passwordHash : JsString
  firstName : JsString
  lastName : JsString
  avatarUrl : Option (Option JsString)
  timezone : Option (Option JsString)
  locale : Option (Option JsString)
  isActive : Option (Option Bool)

/-- `UpdateUserDto`. -/
structure UpdateUserDto where
  email : Option (Option JsString)
  passwordHash : Option (Option JsString)
  firstName : Option (Option JsString)
  lastName : Option (Option JsString)
  avatarUrl : Option (Option JsString)
  timezone : Option (Option JsString)
  locale : Option (Option JsString)
  isActive : Option (Option Bool)

/-- `email` is unique, in all organizations. -/
def emailTaken (t : Tables pg) (k email : JsString) : Bool :=
  !(select t.users fun j user => j ≠ k && user.email = email).isEmpty

/-- `usersRepo.create({ ...dto, orgId })`, over the entity's initializers. -/
def newUser (orgId : JsString) (dto : CreateUserDto) : Except Failure User := do
  let timezone ← patch (js "UTC") dto.timezone
  let locale ← patch (js "en") dto.locale
  let isActive ← patch true dto.isActive
  return {
    orgId := orgId
    email := dto.email
    passwordHash := dto.passwordHash
    firstName := dto.firstName
    lastName := dto.lastName
    avatarUrl := dto.avatarUrl.getD none
    timezone := timezone
    locale := locale
    isActive := isActive }

/-- `UsersService.create`.  The organization is a foreign key. -/
def create (t : Tables pg) (orgId id : JsString) (dto : CreateUserDto) :
    Except Failure (Tables pg) := do
  let user ← newUser orgId dto
  if id ∈ t.users ∨ orgId ∉ t.organizations ∨ emailTaken t id user.email = true then
    throw .rejectedStatement
  return t.set (.user id) user

/-- `UsersService.findAll`. -/
def findAll (t : Tables pg) (orgId : JsString) : Except Failure (List (JsString × User)) := do
  let o ← Database.key pg orgId
  return select t.users fun _ user => user.orgId = o

/-- `UsersService.findOne`. -/
def findOne (t : Tables pg) (id orgId : JsString) : Except Failure (JsString × User) := do
  let k ← Database.key pg id
  match (t.users.lookup k).filter fun user => user.orgId = orgId with
  | none => throw (.notFound (js "User not found"))
  | some user => return (k, user)

/-- `Object.assign(user, dto)`. -/
def assign (user : User) (dto : UpdateUserDto) : Except Failure User := do
  let email ← patch user.email dto.email
  let passwordHash ← patch user.passwordHash dto.passwordHash
  let firstName ← patch user.firstName dto.firstName
  let lastName ← patch user.lastName dto.lastName
  let timezone ← patch user.timezone dto.timezone
  let locale ← patch user.locale dto.locale
  let isActive ← patch user.isActive dto.isActive
  return {
    orgId := user.orgId
    email := email
    passwordHash := passwordHash
    firstName := firstName
    lastName := lastName
    avatarUrl := dto.avatarUrl.getD user.avatarUrl
    timezone := timezone
    locale := locale
    isActive := isActive }

/-- `UsersService.update`. -/
def update (t : Tables pg) (id orgId : JsString) (dto : UpdateUserDto) :
    Except Failure (Tables pg × JsString) := do
  let found ← findOne t id orgId
  let user ← assign found.2 dto
  if emailTaken t found.1 user.email = true then throw .rejectedStatement
  return (t.set (.user found.1) user, found.1)

/-- `UsersService.remove`. -/
def remove (t : Tables pg) (id orgId : JsString) : Except Failure (Tables pg) := do
  let found ← findOne t id orgId
  return t.removeUsers fun k _ => k = found.1

end UsersService

/-! ## Organizations -/

namespace OrganizationsService

structure CreateOrganizationDto where
  name : JsString
  domain : Option (Option JsString)

structure UpdateOrganizationDto where
  name : Option (Option JsString)
  domain : Option (Option JsString)

/-- `domain` is unique where it is not null. -/
def domainTaken (t : Tables pg) (k : JsString) (domain : Option JsString) : Bool :=
  !(select t.organizations fun j other =>
    j ≠ k && domain.isSome && other.domain = domain).isEmpty

/-- `OrganizationsService.create`. -/
def create (t : Tables pg) (id : JsString) (dto : CreateOrganizationDto) :
    Except Failure (Tables pg) := do
  if id ∈ t.organizations ∨ domainTaken t id (dto.domain.getD none) = true then
    throw .rejectedStatement
  return t.set (.organization id)
    ({ name := dto.name, domain := dto.domain.getD none } : Organization)

/-- `OrganizationsService.findActive`. -/
def findActive (t : Tables pg) (orgId : JsString) :
    Except Failure (List (JsString × Organization)) := do
  let o ← Database.key pg orgId
  return ((t.organizations.lookup o).map fun org => (o, org)).toList

/-- `OrganizationsService.findOne`, which refuses any id but the token's. -/
def findOne (t : Tables pg) (id orgId : JsString) : Except Failure (JsString × Organization) := do
  if id ≠ orgId then throw (.error (js "Cannot access another organization's data"))
  let k ← Database.key pg id
  match t.organizations.lookup k with
  | none => throw (.notFound (js "Organization not found"))
  | some org => return (k, org)

/-- `OrganizationsService.update`. -/
def update (t : Tables pg) (id orgId : JsString) (dto : UpdateOrganizationDto) :
    Except Failure (Tables pg × JsString) := do
  let found ← findOne t id orgId
  let name ← patch found.2.name dto.name
  let domain := dto.domain.getD found.2.domain
  if domainTaken t found.1 domain = true then throw .rejectedStatement
  let row : Organization := { name := name, domain := domain }
  return (t.set (.organization found.1) row, found.1)

/-- `OrganizationsService.remove`. -/
def remove (t : Tables pg) (id orgId : JsString) : Except Failure (Tables pg) := do
  let found ← findOne t id orgId
  return t.removeOrganization found.1

end OrganizationsService

/-! ## Requests -/

/-- A request, by its route. -/
inductive Request where
  | createBoard (id : JsString) (now : Int) (dto : CreateBoardDto)
  | findBoards
  | findBoard (id : JsString)
  | updateBoard (id : JsString) (dto : UpdateBoardDto)
  | removeBoard (id : JsString)
  | createList (boardId id : JsString) (now : Int) (dto : CreateListDto)
  | findLists (boardId : JsString)
  | findList (id : JsString)
  | updateList (id : JsString) (dto : UpdateListDto)
  | removeList (id : JsString)
  | createCard (listId id : JsString) (now : Int) (dto : CreateCardDto)
  | findCards (listId : JsString)
  | findCard (id : JsString)
  | updateCard (id : JsString) (dto : UpdateCardDto)
  | removeCard (id : JsString)
  | createComment (cardId id : JsString) (dto : CommentsService.CreateCommentDto)
  | findComments (cardId : JsString)
  | findComment (id : JsString)
  | updateComment (id textContent : JsString)
  | removeComment (id : JsString)
  | createBoardMember (boardId : JsString) (dto : BoardMembersService.CreateBoardMemberDto)
  | findBoardMembers (boardId : JsString)
  | findBoardMember (boardId userId : JsString)
  | updateBoardMember (boardId userId : JsString) (role : BoardMemberRole)
  | removeBoardMember (boardId userId : JsString)
  | createCardMember (cardId userId : JsString)
  | findCardMembers (cardId : JsString)
  | findCardMember (cardId userId : JsString)
  | removeCardMember (cardId userId : JsString)
  | createUser (id : JsString) (dto : UsersService.CreateUserDto)
  | findUsers
  | findUser (id : JsString)
  | updateUser (id : JsString) (dto : UsersService.UpdateUserDto)
  | removeUser (id : JsString)
  | createOrganization (id : JsString) (dto : OrganizationsService.CreateOrganizationDto)
  | findOrganizations
  | findOrganization (id : JsString)
  | updateOrganization (id : JsString) (dto : OrganizationsService.UpdateOrganizationDto)
  | removeOrganization (id : JsString)

/-- A read: the tables stay. -/
def Tables.answer {α : Type} (t : Tables pg) (found : Except Failure α)
    (response : α → Response pg) : Except Failure (Response pg × Tables pg) := do
  let rows ← found
  return (response rows, t)

/-- The row a read finds, with its relations. -/
def Tables.found (t : Tables pg) (c : SyncCollection) (found : JsString × Row pg c) :
    Response pg :=
  .row c found (t.database.relations c found.2)

/-- A write to a synced table, under the id of the row.  The answer keeps the relations
the row was loaded with. -/
def Tables.save (t : Tables pg) (c : SyncCollection) (id : JsString)
    (saved : Except Failure (Database pg)) : Except Failure (Response pg × Tables pg) := do
  let db ← saved
  let k ← Database.key pg id
  let relations := (t.database.find c k).toList.flatMap (t.database.relations c)
  return (.saved (.synced c k) relations, t.withDatabase db)

/-- A deletion. -/
def Tables.drop (rest : Except Failure (Tables pg)) : Except Failure (Response pg × Tables pg) := do
  let t ← rest
  return (.done, t)

/-- What a request of an organization does. -/
def Request.run (t : Tables pg) (orgId : JsString) :
    Request → Except Failure (Response pg × Tables pg)
  | .createBoard id now dto => do
      let t' ← BoardsService.create t orgId id now dto
      return (.saved (.synced .boards id) [], t')
  | .findBoards => t.answer (BoardsService.findAll t orgId) (.rows .boards)
  | .findBoard id =>
      t.answer (findVisible t.database .boards id orgId (js "Board not found")) (t.found .boards)
  | .updateBoard id dto => t.save .boards id (BoardsService.update t.database id orgId dto)
  | .removeBoard id => Tables.drop (BoardsService.remove t id orgId)
  | .createList boardId id now dto => do
      let db ← ListsService.create t.database boardId orgId id now dto
      return (.saved (.synced .lists id) [], t.withDatabase db)
  | .findLists boardId => t.answer (ListsService.findAll t.database boardId orgId) (.rows .lists)
  | .findList id =>
      t.answer (findVisible t.database .lists id orgId (js "List not found")) (t.found .lists)
  | .updateList id dto => t.save .lists id (ListsService.update t.database id orgId dto)
  | .removeList id => Tables.drop (ListsService.delete t id orgId)
  | .createCard listId id now dto => do
      let db ← CardsService.create t.database listId orgId id now dto
      return (.saved (.synced .cards id) [], t.withDatabase db)
  | .findCards listId => t.answer (CardsService.findAll t.database listId orgId) (.rows .cards)
  | .findCard id =>
      t.answer (findVisible t.database .cards id orgId (js "Card not found")) (t.found .cards)
  | .updateCard id dto => t.save .cards id (CardsService.update t.database id orgId dto)
  | .removeCard id => Tables.drop (CardsService.delete t id orgId)
  | .createComment cardId id dto => do
      let t' ← CommentsService.create t cardId orgId id dto
      return (.saved (.comment id) [], t')
  | .findComments cardId => t.answer (CommentsService.findAll t cardId orgId) .comments
  | .findComment id => t.answer (CommentsService.findOne t id orgId) fun found =>
      .comments [found]
  | .updateComment id textContent => do
      let (t', k) ← CommentsService.update t id orgId textContent
      return (.saved (.comment k) [], t')
  | .removeComment id => Tables.drop (CommentsService.remove t id orgId)
  | .createBoardMember boardId dto => do
      let (t', member) ← BoardMembersService.create t boardId orgId dto
      return (.saved (.boardMember member) [], t')
  | .findBoardMembers boardId =>
      t.answer (BoardMembersService.findAll t boardId orgId) .boardMembers
  | .findBoardMember boardId userId =>
      t.answer (BoardMembersService.findOne t boardId userId orgId) fun found =>
        .boardMember found.1 found.2
  | .updateBoardMember boardId userId role => do
      let (t', member) ← BoardMembersService.update t boardId userId orgId role
      return (.saved (.boardMember member) [], t')
  | .removeBoardMember boardId userId =>
      Tables.drop (BoardMembersService.remove t boardId userId orgId)
  | .createCardMember cardId userId => do
      let (t', member) ← CardMembersService.create t cardId orgId userId
      return (.saved (.cardMember member) [], t')
  | .findCardMembers cardId => t.answer (CardMembersService.findAll t cardId orgId) .cardMembers
  | .findCardMember cardId userId =>
      t.answer (CardMembersService.findOne t cardId userId orgId) fun member =>
        .cardMembers [member]
  | .removeCardMember cardId userId =>
      Tables.drop (CardMembersService.remove t cardId userId orgId)
  | .createUser id dto => do
      let t' ← UsersService.create t orgId id dto
      return (.saved (.user id) [], t')
  | .findUsers => t.answer (UsersService.findAll t orgId) .users
  | .findUser id => t.answer (UsersService.findOne t id orgId) fun found => .users [found]
  | .updateUser id dto => do
      let (t', k) ← UsersService.update t id orgId dto
      return (.saved (.user k) [], t')
  | .removeUser id => Tables.drop (UsersService.remove t id orgId)
  | .createOrganization id dto => do
      let t' ← OrganizationsService.create t id dto
      return (.saved (.organization id) [], t')
  | .findOrganizations => t.answer (OrganizationsService.findActive t orgId) .organizations
  | .findOrganization id => t.answer (OrganizationsService.findOne t id orgId) fun found =>
      .organizations [found]
  | .updateOrganization id dto => do
      let (t', k) ← OrganizationsService.update t id orgId dto
      return (.saved (.organization k) [], t')
  | .removeOrganization id => Tables.drop (OrganizationsService.remove t id orgId)

end FlowLogix.Server
