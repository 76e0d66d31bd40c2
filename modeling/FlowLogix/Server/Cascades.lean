/-
  Server/Cascades.lean --- what a deletion takes with it.

  A `Deletion` names rows of the users, boards, lists and cards; `falls` is the rows that
  go, directly or because a foreign key cascades.  The `DELETE`s of `Server/Tables.lean`
  remove exactly these (`state_removeBoards` and the others), so deleting an
  organization's own rows leaves the tables coherent and the other organizations alone.
-/
import FlowLogix.Server.TenantRecords

set_option autoImplicit false

namespace FlowLogix.Server

open FlowLogix.Foundation

variable {pg : Postgres} {t : Tables pg} {orgId : JsString}

namespace Tables

section Gone

variable {κ α : Type} [DecidableEq κ] {rows : Dict κ α} {k : κ}

theorem lookup_removeWhere_gone (rows : Dict κ α) (p : κ → α → Bool) (k : κ) :
    (rows.removeWhere p).lookup k = if gone rows p k then none else rows.lookup k := by
  rw [Dict.lookup_removeWhere, gone]
  cases rows.lookup k with
  | none => simp
  | some v => cases hp : p k v <;> simp [Option.filter, hp]

theorem gone_false (rows : Dict κ α) : gone rows (fun _ _ => false) = fun _ => false := by
  funext k
  rw [gone]
  cases rows.lookup k <;> rfl

theorem gone_eq_true {p : κ → α → Bool} :
    gone rows p k = true ↔ ∃ v, rows.lookup k = some v ∧ p k v = true :=
  Option.any_eq_true _ _

end Gone

/-! ## Deletions -/

/-- The rows a statement deletes. -/
structure Deletion (pg : Postgres) where
  users : JsString → User → Bool := fun _ _ => false
  boards : JsString → Row pg .boards → Bool := fun _ _ => false
  lists : JsString → Row pg .lists → Bool := fun _ _ => false
  cards : JsString → Row pg .cards → Bool := fun _ _ => false

namespace Deletion

variable (d : Deletion pg) (t : Tables pg)

def user (k : JsString) : Bool := gone t.users d.users k

def board (k : JsString) : Bool := gone (t.table .boards) d.boards k

def list (k : JsString) : Bool :=
  gone (t.table .lists) (fun k row => d.lists k row || (row.text "boardId").any (d.board t)) k

def card (k : JsString) : Bool :=
  gone (t.table .cards) (fun k row => d.cards k row || (row.text "listId").any (d.list t)) k

def comment (k : JsString) : Bool :=
  gone t.comments (fun _ row => d.card t row.cardId || d.user t row.userId) k

def boardMember (m : JsString × JsString) : Bool :=
  gone t.boardMembers (fun m _ => d.board t m.1 || d.user t m.2) m

def cardMember (m : JsString × JsString) : Bool :=
  gone t.cardMembers (fun m _ => d.card t m.1 || d.user t m.2) m

/-- The rows that go. -/
def falls : Record → Bool
  | .organization _ => false
  | .user k => d.user t k
  | .synced .boards k => d.board t k
  | .synced .lists k => d.list t k
  | .synced .cards k => d.card t k
  | .comment k => d.comment t k
  | .boardMember m => d.boardMember t m
  | .cardMember m => d.cardMember t m

section Members

variable {d t}

theorem board_eq_true {k : JsString} : d.board t k = true ↔
    ∃ row, t.database.find .boards k = some row ∧ d.boards k row = true :=
  gone_eq_true

theorem list_eq_true {k : JsString} : d.list t k = true ↔
    ∃ row, t.database.find .lists k = some row ∧
      (d.lists k row = true ∨ ∃ b, row.text "boardId" = some b ∧ d.board t b = true) := by
  rw [list, gone_eq_true]
  simp only [Bool.or_eq_true_iff, Option.any_eq_true]
  rfl

theorem card_eq_true {k : JsString} : d.card t k = true ↔
    ∃ row, t.database.find .cards k = some row ∧
      (d.cards k row = true ∨ ∃ l, row.text "listId" = some l ∧ d.list t l = true) := by
  rw [card, gone_eq_true]
  simp only [Bool.or_eq_true_iff, Option.any_eq_true]
  rfl

theorem comment_eq_true {k : JsString} : d.comment t k = true ↔
    ∃ row, t.comments.lookup k = some row ∧
      (d.card t row.cardId = true ∨ d.user t row.userId = true) := by
  simp only [comment, gone_eq_true, Bool.or_eq_true_iff]

theorem boardMember_eq_true {m : JsString × JsString} : d.boardMember t m = true ↔
    ∃ row, t.boardMembers.lookup m = some row ∧ (d.board t m.1 = true ∨ d.user t m.2 = true) := by
  simp only [boardMember, gone_eq_true, Bool.or_eq_true_iff]

theorem cardMember_eq_true {m : JsString × JsString} : d.cardMember t m = true ↔
    ∃ row, t.cardMembers.lookup m = some row ∧ (d.card t m.1 = true ∨ d.user t m.2 = true) := by
  simp only [cardMember, gone_eq_true, Bool.or_eq_true_iff]

end Members

/-- The rows a deletion names belong to the organization. -/
structure OwnedBy (orgId : JsString) : Prop where
  users : ∀ k row, t.users.lookup k = some row → d.users k row = true → row.orgId = orgId
  boards : ∀ k row, t.database.find .boards k = some row → d.boards k row = true →
    t.orgOf (.synced .boards k) = some orgId
  lists : ∀ k row, t.database.find .lists k = some row → d.lists k row = true →
    t.orgOf (.synced .lists k) = some orgId
  cards : ∀ k row, t.database.find .cards k = some row → d.cards k row = true →
    t.orgOf (.synced .cards k) = some orgId

variable {d t}

theorem OwnedBy.user (h : d.OwnedBy t orgId) {k : JsString} (hk : d.user t k = true) :
    t.orgOf (.user k) = some orgId := by
  obtain ⟨row, hrow, hd⟩ := gone_eq_true.mp hk
  exact Option.map_eq_some_iff.mpr ⟨row, hrow, h.users k row hrow hd⟩

theorem OwnedBy.board (h : d.OwnedBy t orgId) {k : JsString} (hk : d.board t k = true) :
    t.orgOf (.synced .boards k) = some orgId := by
  obtain ⟨row, hrow, hd⟩ := board_eq_true.mp hk
  exact h.boards k row hrow hd

theorem OwnedBy.list (h : d.OwnedBy t orgId) {k : JsString} (hk : d.list t k = true) :
    t.orgOf (.synced .lists k) = some orgId := by
  obtain ⟨row, hrow, hd | ⟨b, hb, hboard⟩⟩ := list_eq_true.mp hk
  · exact h.lists k row hrow hd
  · exact Tables.orgOf_above hrow (Option.map_eq_some_iff.mpr ⟨b, hb, rfl⟩) (h.board hboard)

theorem OwnedBy.card (h : d.OwnedBy t orgId) {k : JsString} (hk : d.card t k = true) :
    t.orgOf (.synced .cards k) = some orgId := by
  obtain ⟨row, hrow, hd | ⟨l, hl, hlist⟩⟩ := card_eq_true.mp hk
  · exact h.cards k row hrow hd
  · exact Tables.orgOf_above hrow (Option.map_eq_some_iff.mpr ⟨l, hl, rfl⟩) (h.list hlist)

/-- Everything that goes belongs to the organization. -/
theorem OwnedBy.falls (h : d.OwnedBy t orgId) (hc : t.Coherent) {r : Record}
    (hr : d.falls t r = true) : t.orgOf r = some orgId := by
  have hrefer : ∀ {r s : Record} {x : r.Content pg}, t.state r = some x → r.Refers x s →
      t.orgOf s = some orgId → t.orgOf r = some orgId :=
    fun {r s} x hx hs ho => (hc.refs r x s hx hs).symm.trans ho
  cases r with
  | organization k => cases hr
  | user k => exact h.user hr
  | synced c k =>
      cases c with
      | boards => exact h.board hr
      | lists => exact h.list hr
      | cards => exact h.card hr
  | comment k =>
      obtain ⟨row, hrow, hd | hd⟩ := comment_eq_true.mp hr
      · exact hrefer hrow (.card k row) (h.card hd)
      · exact hrefer hrow (.author k row) (h.user hd)
  | boardMember m =>
      obtain ⟨row, hrow, hd | hd⟩ := boardMember_eq_true.mp hr
      · exact hrefer hrow (.boardOf m row) (h.board hd)
      · exact hrefer hrow (.memberOfBoard m row) (h.user hd)
  | cardMember m =>
      obtain ⟨row, hrow, hd | hd⟩ := cardMember_eq_true.mp hr
      · exact hrefer hrow (.cardOf m row) (h.card hd)
      · exact hrefer hrow (.memberOfCard m row) (h.user hd)

/-- What refers to a row that goes, goes. -/
theorem falls_of_refers {r s : Record} {x : r.Content pg} (hr : t.state r = some x)
    (hrefers : r.Refers x s) (hs : d.falls t s = true)
    (hcreators : ∀ k (row : Row pg .boards) u, t.database.find .boards k = some row →
      row.text "createdBy" = some u → d.user t u = false) : d.falls t r = true := by
  cases hrefers with
  | @parent c k p row h =>
      cases c with
      | boards => cases hs
      | lists => exact list_eq_true.mpr ⟨row, hr, Or.inr ⟨p, h, hs⟩⟩
      | cards => exact card_eq_true.mpr ⟨row, hr, Or.inr ⟨p, h, hs⟩⟩
  | @creator k u row h =>
      have hkept : d.falls t (.user u) = false := hcreators k row u hr h
      rw [hkept] at hs
      cases hs
  | employer k row => cases hs
  | card k row => exact comment_eq_true.mpr ⟨row, hr, Or.inl hs⟩
  | author k row => exact comment_eq_true.mpr ⟨row, hr, Or.inr hs⟩
  | boardOf m row => exact boardMember_eq_true.mpr ⟨row, hr, Or.inl hs⟩
  | memberOfBoard m row => exact boardMember_eq_true.mpr ⟨row, hr, Or.inr hs⟩
  | cardOf m row => exact cardMember_eq_true.mpr ⟨row, hr, Or.inl hs⟩
  | memberOfCard m row => exact cardMember_eq_true.mpr ⟨row, hr, Or.inr hs⟩

/-- A deletion of the organization's own rows. -/
theorem OwnedBy.within {t' : Tables pg} (h : d.OwnedBy t orgId)
    (hcreators : ∀ k (row : Row pg .boards) u, t.database.find .boards k = some row →
      row.text "createdBy" = some u → d.user t u = false)
    (hstate : ∀ r, t'.state r = if d.falls t r then none else t.state r) : Within orgId t t' := by
  intro hc
  have hdrops : Schema.Drops t.state t'.state fun r => d.falls t r = true := by
    refine ⟨fun r hr => (hstate r).trans (if_neg hr), fun r hr => (hstate r).trans (if_pos hr), ?_⟩
    intro r x s hx hrefers hs
    exact falls_of_refers hx hrefers hs hcreators
  refine ⟨hdrops.coherent hc, fun o ho => hdrops.untouched fun r hr heq => ho ?_⟩
  exact Option.some.inj (heq.symm.trans (h.falls hc hr))

end Deletion

/-! ## The statements -/

namespace Deletion

variable {d : Deletion pg} {t' : Tables pg}

theorem user_eq (d : Deletion pg) (t : Tables pg) : d.user t = gone t.users d.users := rfl

theorem board_eq (d : Deletion pg) (t : Tables pg) :
    d.board t = gone (t.table .boards) d.boards := rfl

theorem list_eq (d : Deletion pg) (t : Tables pg) : d.list t =
    gone (t.table .lists) fun k row => d.lists k row || (row.text "boardId").any (d.board t) := rfl

theorem card_eq (d : Deletion pg) (t : Tables pg) : d.card t =
    gone (t.table .cards) fun k row => d.cards k row || (row.text "listId").any (d.list t) := rfl

/-- Tables without the rows that go. -/
structure Deletes (d : Deletion pg) (t t' : Tables pg) : Prop where
  organizations : t'.organizations = t.organizations
  users : ∀ k, t'.users.lookup k = if d.user t k then none else t.users.lookup k
  boards : ∀ k, (t'.table .boards).lookup k =
    if d.board t k then none else (t.table .boards).lookup k
  lists : ∀ k, (t'.table .lists).lookup k = if d.list t k then none else (t.table .lists).lookup k
  cards : ∀ k, (t'.table .cards).lookup k = if d.card t k then none else (t.table .cards).lookup k
  comments : ∀ k, t'.comments.lookup k = if d.comment t k then none else t.comments.lookup k
  boardMembers : ∀ m, t'.boardMembers.lookup m =
    if d.boardMember t m then none else t.boardMembers.lookup m
  cardMembers : ∀ m, t'.cardMembers.lookup m =
    if d.cardMember t m then none else t.cardMembers.lookup m

theorem Deletes.state (h : Deletes d t t') (r : Record) :
    t'.state r = if d.falls t r then none else t.state r := by
  cases r with
  | organization k => exact congrArg (AList.lookup k) h.organizations
  | user k => exact h.users k
  | synced c k =>
      cases c with
      | boards => exact h.boards k
      | lists => exact h.lists k
      | cards => exact h.cards k
  | comment k => exact h.comments k
  | boardMember m => exact h.boardMembers m
  | cardMember m => exact h.cardMembers m

/-- A statement that deletes rows of the organization, and all that refers to them. -/
theorem Deletes.within (h : Deletes d t t') (hown : d.OwnedBy t orgId)
    (hcreators : ∀ k (row : Row pg .boards) u, t.database.find .boards k = some row →
      row.text "createdBy" = some u → d.user t u = false) : Within orgId t t' :=
  hown.within hcreators h.state

end Deletion

theorem deletes_removeCards (t : Tables pg) (p : JsString → Row pg .cards → Bool) :
    Deletion.Deletes { cards := p } t (t.removeCards p) := by
  constructor <;> intros <;>
    simp [removeCards, lookup_removeWhere_gone, Deletion.comment, Deletion.boardMember,
      Deletion.cardMember, Deletion.card_eq, Deletion.list_eq, Deletion.board_eq,
      Deletion.user_eq, gone_false]

theorem deletes_removeLists (t : Tables pg) (p : JsString → Row pg .lists → Bool) :
    Deletion.Deletes { lists := p } t (t.removeLists p) := by
  constructor <;> intros <;>
    simp [removeLists, removeCards, lookup_removeWhere_gone, Deletion.comment, Deletion.boardMember,
      Deletion.cardMember, Deletion.card_eq, Deletion.list_eq, Deletion.board_eq,
      Deletion.user_eq, gone_false]

theorem deletes_removeBoards (t : Tables pg) (p : JsString → Row pg .boards → Bool) :
    Deletion.Deletes { boards := p } t (t.removeBoards p) := by
  constructor
  case boards => exact lookup_removeWhere_gone (t.table .boards) p
  all_goals
    intros
    simp [removeBoards, removeLists, removeCards, lookup_removeWhere_gone, Deletion.comment,
      Deletion.boardMember, Deletion.cardMember, Deletion.card_eq, Deletion.list_eq,
      Deletion.board_eq, Deletion.user_eq, gone_false]

theorem deletes_removeUsers (t : Tables pg) (p : JsString → User → Bool) :
    Deletion.Deletes { users := p } (t.forgetCreators p) (t.removeUsers p) := by
  constructor
  case users => exact lookup_removeWhere_gone t.users p
  all_goals
    intros
    simp [removeUsers, forgetCreators, lookup_removeWhere_gone, Deletion.comment,
      Deletion.boardMember, Deletion.cardMember, Deletion.card_eq, Deletion.list_eq,
      Deletion.board_eq, Deletion.user_eq, gone_false]

/-! ## Deletions of an organization's rows -/

theorem within_removeCards {p : JsString → Row pg .cards → Bool}
    (hown : ∀ k row, t.database.find .cards k = some row → p k row = true →
      t.orgOf (.synced .cards k) = some orgId) : Within orgId t (t.removeCards p) :=
  (deletes_removeCards t p).within ⟨nofun, nofun, nofun, hown⟩ fun _ _ u _ _ =>
    congrFun (gone_false t.users) u

theorem within_removeLists {p : JsString → Row pg .lists → Bool}
    (hown : ∀ k row, t.database.find .lists k = some row → p k row = true →
      t.orgOf (.synced .lists k) = some orgId) : Within orgId t (t.removeLists p) :=
  (deletes_removeLists t p).within ⟨nofun, nofun, hown, nofun⟩ fun _ _ u _ _ =>
    congrFun (gone_false t.users) u

theorem within_removeBoards {p : JsString → Row pg .boards → Bool}
    (hown : ∀ k row, t.database.find .boards k = some row → p k row = true →
      t.orgOf (.synced .boards k) = some orgId) : Within orgId t (t.removeBoards p) :=
  (deletes_removeBoards t p).within ⟨nofun, hown, nofun, nofun⟩ fun _ _ u _ _ =>
    congrFun (gone_false t.users) u

theorem text_forget (t : Tables pg) (p : JsString → User → Bool) (board : Row pg .boards)
    {field : String} (h : field ≠ "createdBy") :
    (t.forget p board).text field = board.text field := by
  rw [forget]
  split
  · rw [Row.text_setNull, if_neg h]
  · rfl

theorem find_forgetCreators (t : Tables pg) (p : JsString → User → Bool) (k : JsString) :
    (t.forgetCreators p).database.find .boards k =
      (t.database.find .boards k).map (t.forget p) := by
  simp only [database, Database.find, forgetCreators, Function.update_self]
  exact Dict.lookup_mapValues _ _ _

/-- Which organization a row belongs to does not depend on who made the boards. -/
theorem orgOf_forgetCreators (t : Tables pg) (p : JsString → User → Bool) (r : Record) :
    (t.forgetCreators p).orgOf r = t.orgOf r := by
  have hboard : boardOwner (t.forgetCreators p).state = boardOwner t.state := by
    funext k
    show Option.bind ((t.forgetCreators p).database.find .boards k) _ =
      Option.bind (t.database.find .boards k) _
    rw [find_forgetCreators]
    cases t.database.find .boards k with
    | none => rfl
    | some board => exact t.text_forget p board (by decide)
  have hlist : listOwner (t.forgetCreators p).state = listOwner t.state := by
    funext k
    exact congrArg (Option.bind _) hboard
  have hcard : cardOwner (t.forgetCreators p).state = cardOwner t.state := by
    funext k
    exact congrArg (Option.bind _) hlist
  cases r with
  | organization k => rfl
  | user k => rfl
  | synced c k =>
      cases c with
      | boards => exact congrFun hboard k
      | lists => exact congrFun hlist k
      | cards => exact congrFun hcard k
  | comment k =>
      exact congrArg (Option.bind (t.comments.lookup k)) (funext fun x => congrFun hcard x.cardId)
  | boardMember m =>
      exact congrArg (Option.bind (t.boardMembers.lookup m)) (funext fun _ => congrFun hboard m.1)
  | cardMember m =>
      exact congrArg (Option.bind (t.cardMembers.lookup m)) (funext fun _ => congrFun hcard m.1)

/-- No board is left with a creator that is deleted. -/
theorem creator_forgetCreators {p : JsString → User → Bool} {k u : JsString}
    {row : Row pg .boards} (hrow : (t.forgetCreators p).database.find .boards k = some row)
    (hu : row.text "createdBy" = some u) : gone t.users p u = false := by
  rw [find_forgetCreators] at hrow
  obtain ⟨board, -, rfl⟩ := Option.map_eq_some_iff.mp hrow
  rw [forget] at hu
  split at hu
  · rw [Row.text_setNull, if_pos rfl] at hu
    cases hu
  · rename_i hkept
    rw [hu, Option.any_some, Bool.not_eq_true] at hkept
    exact hkept

theorem within_forgetCreators {p : JsString → User → Bool}
    (hown : ∀ k user, t.users.lookup k = some user → p k user = true → user.orgId = orgId) :
    Within orgId t (t.forgetCreators p) := by
  intro hc
  -- a board whose creator goes is the organization's: it refers to its own users only
  have hboard : ∀ k (board : Row pg .boards), t.database.find .boards k = some board →
      t.orgOf (.synced .boards k) ≠ some orgId → t.forget p board = board := by
    intro k board hk hother
    rw [forget, if_neg]
    intro hgone
    obtain ⟨u, hu, hgone⟩ := (Option.any_eq_true _ _).mp hgone
    obtain ⟨user, huser, hp⟩ := gone_eq_true.mp hgone
    have horg : t.orgOf (.user u) = some orgId :=
      Option.map_eq_some_iff.mpr ⟨user, huser, hown u user huser hp⟩
    exact hother ((hc.refs (.synced .boards k) board _ hk (.creator hu)).symm.trans horg)
  have hedits : Schema.Edits (ownership pg) orgId t.state (t.forgetCreators p).state := by
    refine ⟨t.orgOf_forgetCreators p, fun r hother => ?_, fun r x' hx' => ?_⟩
    · cases r with
      | synced c k =>
          cases c with
          | boards =>
              show (t.forgetCreators p).database.find .boards k = t.database.find .boards k
              rw [find_forgetCreators]
              cases hk : t.database.find .boards k with
              | none => rfl
              | some board => exact congrArg some (hboard k board hk hother)
          | lists => rfl
          | cards => rfl
      | _ => rfl
    · cases r with
      | synced c k =>
          cases c with
          | boards =>
              have hrow : (t.forgetCreators p).database.find .boards k = some x' := hx'
              rw [find_forgetCreators] at hrow
              obtain ⟨board, hk, rfl⟩ := Option.map_eq_some_iff.mp hrow
              refine ⟨board, hk, fun s hs => ?_⟩
              cases hs with
              | parent h => exact .parent ((t.text_forget p board (by decide)).symm.trans h)
              | creator h =>
                  refine .creator ?_
                  rw [forget] at h
                  split at h
                  · rw [Row.text_setNull, if_pos rfl] at h
                    cases h
                  · exact h
          | lists => exact ⟨x', hx', fun _ => id⟩
          | cards => exact ⟨x', hx', fun _ => id⟩
      | _ => exact ⟨x', hx', fun _ => id⟩
  exact ⟨hedits.coherent hc, fun o ho => hedits.untouched ho⟩

theorem within_removeUsers {p : JsString → User → Bool}
    (hown : ∀ k user, t.users.lookup k = some user → p k user = true → user.orgId = orgId) :
    Within orgId t (t.removeUsers p) := by
  refine (within_forgetCreators hown).trans ((deletes_removeUsers t p).within ?_ ?_)
  · exact ⟨hown, nofun, nofun, nofun⟩
  · intro k row u hrow hu
    have hkept : gone t.users p u = false := creator_forgetCreators hrow hu
    exact hkept

/-- The row of an organization that nothing refers to. -/
theorem within_eraseOrganization {k : JsString}
    (husers : ∀ u user, t.users.lookup u = some user → user.orgId ≠ k)
    (hboards : ∀ b board, t.database.find .boards b = some board → board.text "orgId" ≠ some k) :
    Within k t { t with organizations := t.organizations.erase k } := by
  intro hc
  have hdrops : Schema.Drops t.state
      ({ t with organizations := t.organizations.erase k } : Tables pg).state
      fun r => r = .organization k := by
    refine ⟨fun r hr => ?_, fun r hr => ?_, fun r x s hx hs hgone => ?_⟩
    · cases r with
      | organization j => exact AList.lookup_erase_ne fun hj => hr (congrArg _ hj)
      | _ => rfl
    · subst hr
      exact AList.lookup_erase _ _
    · cases hs with
      | @parent c j p row h =>
          cases c with
          | boards =>
              obtain rfl := Record.organization.inj hgone
              exact absurd h (hboards j row hx)
          | lists => cases hgone
          | cards => cases hgone
      | employer j user =>
          exact absurd (Record.organization.inj hgone) (husers j user hx)
      | _ => cases hgone
  refine ⟨hdrops.coherent hc, fun o ho => hdrops.untouched fun r hr heq => ho ?_⟩
  subst hr
  obtain ⟨_, -, heq⟩ := Option.map_eq_some_iff.mp heq
  exact heq.symm

/-- An organization is deleted with everything it has. -/
theorem within_removeOrganization (t : Tables pg) (k : JsString) :
    Within k t (t.removeOrganization k) := by
  have husers : Within k t (t.removeUsers fun _ user => user.orgId = k) :=
    within_removeUsers fun _ _ _ h => of_decide_eq_true h
  have hboards : Within k (t.removeUsers fun _ user => user.orgId = k)
      ((t.removeUsers fun _ user => user.orgId = k).removeBoards fun _ board =>
        board.text "orgId" = some k) := by
    refine within_removeBoards fun j row hrow h => ?_
    exact Option.bind_eq_some_iff.mpr ⟨row, hrow, of_decide_eq_true h⟩
  refine (husers.trans hboards).trans (within_eraseOrganization ?_ ?_)
  · intro u user hu
    rw [(deletes_removeBoards _ _).users, Deletion.user_eq, gone_false, if_neg Bool.false_ne_true,
      (deletes_removeUsers t _).users] at hu
    split at hu
    · cases hu
    · rename_i hkept
      intro horg
      exact hkept (gone_eq_true.mpr ⟨user, hu, decide_eq_true horg⟩)
  · intro b board hb
    have hb := ((deletes_removeBoards _ _).boards b).symm.trans hb
    split at hb
    · cases hb
    · rename_i hkept
      intro horg
      exact hkept (gone_eq_true.mpr ⟨board, hb, decide_eq_true horg⟩)

end Tables

end FlowLogix.Server
