/-
  Server/WebTenancy.lean --- the web API keeps organizations apart.

  Every endpoint writes a row of the caller's organization that refers to rows of the
  caller's organization, or deletes rows of it.  So in any run of requests of any
  organizations the tables stay coherent, and an organization whose users sent none of
  them finds all of its rows as they were, whatever the others created, moved and deleted
  (`requests_stay_within`).
-/
import FlowLogix.Foundation.Steps
import FlowLogix.Server.AnnouncedCalls
import FlowLogix.Server.WebApi

set_option autoImplicit false

namespace FlowLogix.Server

open FlowLogix.Foundation FlowLogix.Ordering

variable {pg : Postgres} {c : SyncCollection} {t t' : Tables pg} {orgId id : JsString}

/-! ## Creators -/

/-- A column of type uuid that is not a parent: what it holds was named by a uuid
literal. -/
def CreatorColumn (pg : Postgres) : Prop :=
  ∀ v k, pg.store .boards "createdBy" v = some (.str k) → ∃ s, v = .str s ∧ pg.uuid s = some k

/-- The body passes `@IsUUID()`: an empty text is not an id. -/
def UpdateBoardDto.Accepted (dto : UpdateBoardDto) : Prop :=
  dto.content.lookup "createdBy" ≠ some (.str [])

instance (dto : UpdateBoardDto) : Decidable dto.Accepted :=
  inferInstanceAs (Decidable (dto.content.lookup "createdBy" ≠ some (.str [])))

theorem assertUserInOrg_eq_ok {db : Database pg} {userId : JsString}
    (h : assertUserInOrg db userId orgId = .ok ()) :
    ∃ k, pg.uuid userId = some k ∧ db.users.lookup k = some orgId := by
  obtain ⟨k, hk, h⟩ := bind_eq_ok.mp h
  refine ⟨k, key_eq_ok hk, ?_⟩
  split at h
  · assumption
  · cases h

/-- A creator that was checked and stored is a user of the organization. -/
theorem userOrg_of_checkCreator (hcreator : CreatorColumn pg) {dto : UpdateBoardDto}
    (haccepted : dto.Accepted) (hcheck : BoardsService.checkCreator t.database orgId dto = .ok ())
    {v : Json} (hv : dto.content.lookup "createdBy" = some v) {u : JsString}
    (hstore : pg.store .boards "createdBy" v = some (.str u)) : t.userOrg u = some orgId := by
  obtain ⟨s, rfl, hs⟩ := hcreator v u hstore
  unfold BoardsService.checkCreator at hcheck
  rw [hv] at hcheck
  cases s with
  | nil => exact absurd hv haccepted
  | cons x rest =>
      obtain ⟨k, hk, huser⟩ := assertUserInOrg_eq_ok hcheck
      obtain rfl : u = k := Option.some.inj (hs.symm.trans hk)
      rwa [Tables.users_database] at huser

/-! ## Synced rows -/

namespace Tables

/-- A row of a synced table, written under a parent of the organization. -/
theorem within_put {k : JsString} {row : Row pg c}
    (hprev : ∀ o, t.database.owner c k = some o → o = orgId)
    (hparent : t.database.parentOrg c row = some orgId)
    (hexists : t.Coherent → orgId ∈ t.organizations)
    (hcreator : t.Coherent → c = .boards → ∀ u, row.text "createdBy" = some u →
      t.userOrg u = some orgId) :
    Within orgId t (t.withDatabase (t.database.put k row)) := by
  intro hc
  obtain ⟨p, hp, horg⟩ := Option.bind_eq_some_iff.mp hparent
  have habove : Record.above (.synced c k) row = some (Record.parent p c) :=
    Option.map_eq_some_iff.mpr ⟨p, hp, rfl⟩
  refine within_set (r := .synced c k) (x := row) (by rw [habove]; rfl) (fun o ho => ?_)
    (fun s hs => ?_) hc
  · exact hprev o ((t.orgOf_synced c k).symm.trans ho)
  · cases hs with
    | @parent _ _ q _ h =>
        obtain rfl : p = q := Option.some.inj (hp.symm.trans h)
        cases c with
        | boards =>
            obtain rfl := Option.some.inj horg
            obtain ⟨x, hx⟩ := Option.isSome_iff_exists.mp (AList.lookup_isSome.mpr (hexists hc))
            exact Option.map_eq_some_iff.mpr ⟨x, hx, rfl⟩
        | lists => exact horg
        | cards => exact horg
    | creator h => exact hcreator hc rfl _ h

/-- A row nothing refers to is deleted. -/
theorem within_drop {r : Record} (hleaf : ∀ (s : Record) (x : s.Content pg), ¬ s.Refers x r)
    (howner : t.orgOf r = some orgId) (hdropped : t'.state r = none)
    (hkept : ∀ s, s ≠ r → t'.state s = t.state s) : Within orgId t t' := by
  intro hc
  have hdrops : Schema.Drops t.state t'.state fun s => s = r :=
    ⟨hkept, fun s hs => hs ▸ hdropped, fun s x s' _ hs hs' => absurd (hs' ▸ hs) (hleaf s x)⟩
  refine ⟨hdrops.coherent hc, fun o ho => hdrops.untouched fun s hs heq => ho ?_⟩
  subst hs
  exact Option.some.inj (heq.symm.trans howner)

/-- What a request keeps, and what its response tells of: rows of the organization, or an
organization it has just made. -/
structure Stays (orgId : JsString) (t : Tables pg) (records : List Record) (t' : Tables pg) :
    Prop where
  within : Within orgId t t'
  records : t.Coherent → ∀ r ∈ records, t'.orgOf r = some orgId ∨
    ∃ k, r = .organization k ∧ k ∉ t.organizations

namespace Stays

variable {records : List Record} {r s : Record}

theorem saved (h : Within orgId t t') (hr : t.Coherent → t'.orgOf r = some orgId) :
    Stays orgId t [r] t' where
  within := h
  records hc _ hmem := Or.inl (List.mem_singleton.mp hmem ▸ hr hc)

theorem read (h : t.Coherent → ∀ r ∈ records, t.orgOf r = some orgId) :
    Stays orgId t records t where
  within := .refl orgId t
  records hc r hmem := Or.inl (h hc r hmem)

theorem removed (h : Within orgId t t') : Stays orgId t [] t' where
  within := h
  records _ _ hmem := absurd hmem List.not_mem_nil

/-- A row that is saved under a row of the organization. -/
theorem set {x : r.Content pg} (habove : r.above x = some s)
    (hbefore : ∀ o, t.orgOf r = some o → o = orgId)
    (hrefs : t.Coherent → ∀ s, r.Refers x s → t.orgOf s = some orgId) :
    Stays orgId t [r] (t.set r x) := by
  have hrefers := Record.refers_above habove
  refine .saved (fun hc => within_set (by rw [habove]; rfl) hbefore (hrefs hc) hc) fun hc => ?_
  refine orgOf_above (t.state_set_self r x) habove ?_
  rw [t.orgOf_set_of_rank x (Record.rank_lt hrefers)]
  exact hrefs hc s hrefers

/-- A row of a synced table, saved under a parent of the organization. -/
theorem put {k : JsString} {row : Row pg c}
    (hprev : ∀ o, t.database.owner c k = some o → o = orgId)
    (hparent : t.database.parentOrg c row = some orgId)
    (hexists : t.Coherent → orgId ∈ t.organizations)
    (hcreator : t.Coherent → c = .boards → ∀ u, row.text "createdBy" = some u →
      t.userOrg u = some orgId) :
    Stays orgId t [.synced c k] (t.withDatabase (t.database.put k row)) := by
  refine .saved (within_put hprev hparent hexists hcreator) fun _ => ?_
  rw [orgOf_synced]
  exact Database.owner_put_self hparent

end Stays

end Tables

/-! ## Boards, lists and cards -/

section Synced

open Tables

/-- A row of the organization, loaded under its key. -/
theorem orgOf_of_assertInOrg {message k : JsString} {row : Row pg c}
    (h : assertInOrg t.database c id orgId message = .ok (k, row)) :
    t.database.find c k = some row ∧ t.orgOf (.synced c k) = some orgId := by
  obtain ⟨-, howner, hfind⟩ := assertInOrg_eq_ok h
  exact ⟨hfind, (t.orgOf_synced c k).trans howner⟩

/-- A save over a loaded row, which stays in the organization and gets no creator but one
that was checked. -/
theorem stays_save {k : JsString} {row : Row pg c} {values : JsObject Json} {db' : Database pg}
    (hfind : t.database.find c k = some row) (howner : t.orgOf (.synced c k) = some orgId)
    (hsave : saveEntity t.database c k (row.toEntity.assign values) = .ok db')
    (hkept : WebEffect t.database db')
    (hcreator : c = .boards → ∀ v, values.lookup "createdBy" = some v → ∀ u,
      pg.store c "createdBy" v = some (.str u) → t.userOrg u = some orgId) :
    Stays orgId t [.synced c k] (t.withDatabase db') := by
  obtain ⟨row', rfl, heffect⟩ := saveEntity_eq_ok hfind hsave
  have hprev := (t.orgOf_synced c k).symm.trans howner
  have hparent : t.database.parentOrg c row' = some orgId := by
    have hafter := hkept.owner c k orgId hprev
    rw [Database.owner, Database.find_put, if_pos rfl, Option.bind_some,
      Database.parentOrg_congr fun c' hc => t.database.table_put_of_ne k row' hc] at hafter
    exact hafter
  refine .put (fun o ho => Option.some.inj (ho.symm.trans hprev)) hparent
    (fun hc => hc.mem_organizations howner) fun hc hboards u hu => ?_
  -- the creator is the old one, or the request names it
  cases hv : values.lookup "createdBy" with
  | none =>
      rw [Row.text_congr (heffect.kept _ (AList.lookup_eq_none.mp hv))] at hu
      subst hboards
      exact (hc.refs (.synced .boards k) row _ hfind (.creator hu)).trans howner
  | some v =>
      obtain ⟨w, hstore, hw⟩ := heffect.assigned _ v hv
      rw [Row.text, hw] at hu
      cases w with
      | str s =>
          obtain rfl := Option.some.inj hu
          exact hcreator hboards v hv s hstore
      | _ => cases hu

theorem BoardsService.stays_update (hcolumn : CreatorColumn pg) {dto : UpdateBoardDto}
    (haccepted : dto.Accepted) {db' : Database pg}
    (h : BoardsService.update t.database id orgId dto = .ok db') :
    ∃ k, pg.uuid id = some k ∧ Stays orgId t [.synced .boards k] (t.withDatabase db') := by
  have hkept := BoardsService.update_effect h
  obtain ⟨⟨⟩, hcheck, h⟩ := bind_eq_ok.mp h
  obtain ⟨⟨k, row⟩, hfound, hsave⟩ := bind_eq_ok.mp h
  obtain ⟨hfind, howner⟩ := orgOf_of_assertInOrg hfound
  refine ⟨k, (assertInOrg_eq_ok hfound).1, stays_save hfind howner hsave hkept ?_⟩
  intro _ v hv u hu
  exact userOrg_of_checkCreator hcolumn haccepted hcheck hv hu

theorem ListsService.stays_update {dto : UpdateListDto} {db' : Database pg}
    (h : ListsService.update t.database id orgId dto = .ok db') :
    ∃ k, pg.uuid id = some k ∧ Stays orgId t [.synced .lists k] (t.withDatabase db') := by
  have hkept := ListsService.update_effect h
  obtain ⟨⟨k, row⟩, hfound, h⟩ := bind_eq_ok.mp h
  obtain ⟨-, -, hsave⟩ := bind_eq_ok.mp h
  obtain ⟨hfind, howner⟩ := orgOf_of_assertInOrg hfound
  exact ⟨k, (assertInOrg_eq_ok hfound).1, stays_save hfind howner hsave hkept nofun⟩

theorem CardsService.stays_update {dto : UpdateCardDto} {db' : Database pg}
    (h : CardsService.update t.database id orgId dto = .ok db') :
    ∃ k, pg.uuid id = some k ∧ Stays orgId t [.synced .cards k] (t.withDatabase db') := by
  have hkept := CardsService.update_effect h
  obtain ⟨loaded, next, hload, -, -, hsave⟩ := CardsService.updateAcross_eq_ok h
  obtain ⟨row, hk, howner, hfind, hcard, -⟩ := CardsService.load_eq_ok hload
  rw [hcard] at hsave
  exact ⟨loaded.key, hk, stays_save hfind ((t.orgOf_synced .cards loaded.key).trans howner) hsave
    hkept nofun⟩

/-- An inserted row whose parent is in the organization. -/
theorem stays_insert {k p : JsString} {entity : Entity} {row : Row pg c}
    (hrow : insertEntity c entity = .ok row) (hfree : t.database.find c k = none)
    (hentity : entity.columns.lookup (parentProperty c) = some (.str p))
    (hparent : ∀ q, pg.uuid p = some q → t.database.ancestorOrg c q = some orgId)
    (hexists : t.Coherent → orgId ∈ t.organizations)
    (hcreator : t.Coherent → c = .boards → ∀ u, row.text "createdBy" = some u →
      t.userOrg u = some orgId) :
    Stays orgId t [.synced c k] (t.withDatabase (t.database.put k row)) := by
  obtain ⟨w, hstore, hw⟩ := (insertEntity_eq_ok hrow).1 _ _ hentity
  refine .put (fun o ho => ?_) (Database.parentOrg_of_store hstore hw hparent) hexists hcreator
  rw [Database.owner, hfree] at ho
  cases ho

theorem ListsService.stays_create {boardId : JsString} {now : Int} {dto : CreateListDto}
    {db' : Database pg} (h : ListsService.create t.database boardId orgId id now dto = .ok db') :
    Stays orgId t [.synced .lists id] (t.withDatabase db') := by
  obtain ⟨⟨b, board⟩, hfound, h⟩ := bind_eq_ok.mp h
  obtain ⟨positionIdx, -, h⟩ := bind_eq_ok.mp h
  obtain ⟨row, hrow, h⟩ := bind_eq_ok.mp h
  obtain ⟨hb, howner, -⟩ := assertInOrg_eq_ok hfound
  cases hfree : t.database.find .lists id with
  | some current =>
      rw [hfree] at h
      cases h
  | none =>
      rw [hfree] at h
      obtain rfl := Except.ok.inj h
      refine stays_insert hrow hfree (lookup_newList_boardId now boardId positionIdx dto)
        (fun q hq => ?_) (fun hc => ?_) nofun
      · obtain rfl : b = q := Option.some.inj (hb.symm.trans hq)
        rwa [Database.ancestorOrg, ← Database.owner_boards]
      · exact hc.mem_organizations ((t.orgOf_synced .boards b).trans howner)

theorem CardsService.stays_create {listId : JsString} {now : Int} {dto : CreateCardDto}
    {db' : Database pg} (h : CardsService.create t.database listId orgId id now dto = .ok db') :
    Stays orgId t [.synced .cards id] (t.withDatabase db') := by
  obtain ⟨⟨l, list⟩, hfound, h⟩ := bind_eq_ok.mp h
  obtain ⟨positionIdx, -, h⟩ := bind_eq_ok.mp h
  obtain ⟨row, hrow, h⟩ := bind_eq_ok.mp h
  obtain ⟨hl, howner, -⟩ := assertInOrg_eq_ok hfound
  cases hfree : t.database.find .cards id with
  | some current =>
      rw [hfree] at h
      cases h
  | none =>
      rw [hfree] at h
      obtain rfl := Except.ok.inj h
      refine stays_insert hrow hfree (lookup_newCard_listId now listId positionIdx dto)
        (fun q hq => ?_) (fun hc => ?_) nofun
      · obtain rfl : l = q := Option.some.inj (hl.symm.trans hq)
        rwa [Database.ancestorOrg, ← Database.owner_lists]
      · exact hc.mem_organizations ((t.orgOf_synced .lists l).trans howner)

theorem BoardsService.lookup_newBoard_orgId (now : Int) (orgId : JsString) (dto : CreateBoardDto) :
    (newBoard now orgId dto).columns.lookup "orgId" = some (.str orgId) := by
  simp [newBoard, Dict.lookup_assign, Dict.ofList, Dict.lookup_singleton_eq]

theorem BoardsService.lookup_newBoard_createdBy (now : Int) (orgId : JsString)
    (dto : CreateBoardDto) : (newBoard now orgId dto).columns.lookup "createdBy" =
      (dto.content.lookup "createdBy").or (some .null) := by
  simp [newBoard, Dict.lookup_assign, Dict.ofList, Dict.lookup_singleton_eq]

theorem BoardsService.stays_create (hcolumn : CreatorColumn pg) (horg : pg.uuid orgId = some orgId)
    {now : Int} {dto : CreateBoardDto} (haccepted : dto.toUpdateBoardDto.Accepted)
    (h : BoardsService.create t orgId id now dto = .ok t') :
    Stays orgId t [.synced .boards id] t' := by
  obtain ⟨⟨⟩, hcheck, h⟩ := bind_eq_ok.mp h
  obtain ⟨row, hrow, h⟩ := bind_eq_ok.mp h
  cases hfree : t.database.find .boards id with
  | some current =>
      rw [hfree] at h
      cases h
  | none =>
      rw [hfree] at h
      by_cases hmissing : ((row.text "orgId").all fun o => decide (o ∉ t.organizations)) = true
      · rw [if_neg (by simp), if_pos hmissing] at h
        cases h
      · rw [if_neg (by simp), if_neg hmissing] at h
        obtain rfl := Except.ok.inj h
        have hstores := (insertEntity_eq_ok hrow).1
        have hparent : ∀ q, pg.uuid orgId = some q →
            t.database.ancestorOrg .boards q = some orgId := by
          intro q hq
          exact hq.symm.trans horg
        refine stays_insert hrow hfree (lookup_newBoard_orgId now orgId dto) hparent
          (fun _ => ?_) fun _ _ u hu => ?_
        · obtain ⟨w, hstore, hw⟩ := hstores _ _ (lookup_newBoard_orgId now orgId dto)
          obtain ⟨k, hk, rfl⟩ := pg.store_parent _ _ _ hstore
          obtain rfl : orgId = k := Option.some.inj (horg.symm.trans hk)
          simpa [Row.text, hw] using hmissing
        · have hentity := lookup_newBoard_createdBy now orgId dto
          cases hv : dto.content.lookup "createdBy" with
          | none =>
              rw [hv] at hentity
              obtain ⟨w, hstore, hw⟩ := hstores _ _ hentity
              rw [Row.text, hw] at hu
              cases w with
              | str s => obtain ⟨_, hnull, -⟩ := hcolumn _ _ hstore; cases hnull
              | _ => cases hu
          | some v =>
              rw [hv] at hentity
              obtain ⟨w, hstore, hw⟩ := hstores _ _ hentity
              rw [Row.text, hw] at hu
              cases w with
              | str s =>
                  obtain rfl := Option.some.inj hu
                  exact userOrg_of_checkCreator hcolumn haccepted hcheck hv hstore
              | _ => cases hu

theorem BoardsService.stays_remove (h : BoardsService.remove t id orgId = .ok t') :
    Stays orgId t [] t' := by
  obtain ⟨⟨k, row⟩, hfound, h⟩ := bind_eq_ok.mp h
  obtain rfl := Except.ok.inj h
  refine .removed (within_removeBoards fun j _ _ hj => ?_)
  obtain rfl := of_decide_eq_true hj
  exact (orgOf_of_assertInOrg hfound).2

theorem ListsService.stays_delete (h : ListsService.delete t id orgId = .ok t') :
    Stays orgId t [] t' := by
  obtain ⟨⟨k, row⟩, hfound, h⟩ := bind_eq_ok.mp h
  obtain rfl := Except.ok.inj h
  refine .removed (within_removeLists fun j _ _ hj => ?_)
  obtain rfl := of_decide_eq_true hj
  exact (orgOf_of_assertInOrg hfound).2

theorem CardsService.stays_delete (h : CardsService.delete t id orgId = .ok t') :
    Stays orgId t [] t' := by
  obtain ⟨⟨k, row⟩, hfound, h⟩ := bind_eq_ok.mp h
  obtain rfl := Except.ok.inj h
  refine .removed (within_removeCards fun j _ _ hj => ?_)
  obtain rfl := of_decide_eq_true hj
  exact (orgOf_of_assertInOrg hfound).2

/-! ### Reading -/

theorem findVisible_eq_ok {message k : JsString} {row : Row pg c}
    (h : findVisible t.database c id orgId message = .ok (k, row)) :
    t.database.find c k = some row ∧ t.orgOf (.synced c k) = some orgId := by
  obtain ⟨⟨j, found⟩, hfound, h⟩ := bind_eq_ok.mp h
  split at h
  · cases h
  · obtain ⟨rfl, rfl⟩ := Prod.mk.inj (Except.ok.inj h)
    exact orgOf_of_assertInOrg hfound

/-- The children of a row of the organization are the organization's. -/
theorem orgOf_children {p k : JsString} {row : Row pg c}
    (hparent : t.database.ancestorOrg c p = some orgId)
    (h : (k, row) ∈ filterVisible (t.database.children c p)) :
    t.orgOf (.synced c k) = some orgId := by
  obtain ⟨hfind, hp⟩ := Database.mem_children.mp (List.mem_of_mem_filter h)
  rw [orgOf_synced, Database.owner, hfind, Option.bind_some]
  exact Option.bind_eq_some_iff.mpr ⟨p, hp, hparent⟩

end Synced

/-! ## Comments and members -/

section Members

open Tables

/-- A user of the organization, by the id a request names. -/
theorem orgOf_of_assertUserInOrg {userId user : JsString}
    (hcheck : assertUserInOrg t.database userId orgId = .ok ())
    (hkey : Database.key pg userId = .ok user) : t.orgOf (.user user) = some orgId := by
  obtain ⟨k, hk, huser⟩ := assertUserInOrg_eq_ok hcheck
  obtain rfl : user = k := Option.some.inj ((key_eq_ok hkey).symm.trans hk)
  rwa [users_database] at huser

namespace CommentsService

theorem stays_create {cardId : JsString} {dto : CreateCommentDto}
    (h : create t cardId orgId id dto = .ok t') : Stays orgId t [.comment id] t' := by
  obtain ⟨⟨k, card⟩, hcard, h⟩ := bind_eq_ok.mp h
  obtain ⟨⟨⟩, huser, h⟩ := bind_eq_ok.mp h
  obtain ⟨user, hkey, h⟩ := bind_eq_ok.mp h
  split at h
  · cases h
  · rename_i hfree
    obtain rfl := Except.ok.inj h
    refine .set rfl (fun o ho => ?_) fun _ s hs => ?_
    · obtain ⟨row, hrow, -⟩ := Option.bind_eq_some_iff.mp ho
      exact absurd (AList.lookup_isSome.mp (Option.isSome_of_eq_some hrow)) hfree
    · cases hs with
      | card => exact (orgOf_of_assertInOrg hcard).2
      | author => exact orgOf_of_assertUserInOrg huser hkey

theorem findOne_eq_ok {k : JsString} {comment : Comment}
    (h : findOne t id orgId = .ok (k, comment)) :
    t.comments.lookup k = some comment ∧ t.orgOf (.comment k) = some orgId := by
  obtain ⟨j, -, h⟩ := bind_eq_ok.mp h
  split at h
  · cases h
  · rename_i row hrow
    obtain ⟨hrow, howner⟩ := Option.filter_eq_some_iff.mp hrow
    split at h
    · cases h
    · obtain ⟨rfl, rfl⟩ := Prod.mk.inj (Except.ok.inj h)
      exact ⟨hrow, (orgOf_comment hrow).trans (of_decide_eq_true howner)⟩

theorem stays_update {textContent k : JsString}
    (h : update t id orgId textContent = .ok (t', k)) : Stays orgId t [.comment k] t' := by
  obtain ⟨⟨j, comment⟩, hfound, h⟩ := bind_eq_ok.mp h
  obtain ⟨rfl, rfl⟩ := Prod.mk.inj (Except.ok.inj h)
  obtain ⟨hrow, howner⟩ := findOne_eq_ok hfound
  refine .set rfl (fun o ho => Option.some.inj (ho.symm.trans howner)) fun hc s hs => ?_
  -- what the new row refers to, the old one did
  have hold : ∀ s, @Record.Refers pg (.comment j) comment s → t.orgOf s = some orgId :=
    fun s hs => (hc.refs (.comment j) comment s hrow hs).trans howner
  cases hs with
  | card => exact hold _ (.card j comment)
  | author => exact hold _ (.author j comment)

theorem stays_remove (h : remove t id orgId = .ok t') : Stays orgId t [] t' := by
  obtain ⟨⟨k, comment⟩, hfound, h⟩ := bind_eq_ok.mp h
  obtain rfl := Except.ok.inj h
  refine .removed (within_drop not_refers_comment (findOne_eq_ok hfound).2
    (AList.lookup_erase _ _) fun s hs => ?_)
  cases s with
  | comment j => exact AList.lookup_erase_ne fun hj => hs (congrArg _ hj)
  | _ => rfl

theorem mem_findAll {cardId : JsString} {found : List (JsString × Comment)}
    (h : findAll t cardId orgId = .ok found) :
    ∀ e ∈ found, t.orgOf (.comment e.1) = some orgId := by
  obtain ⟨⟨k, card⟩, hcard, h⟩ := bind_eq_ok.mp h
  obtain rfl := Except.ok.inj h
  rintro ⟨j, comment⟩ he
  obtain ⟨hrow, hof⟩ := mem_select.mp he
  rw [orgOf_comment hrow, of_decide_eq_true hof, ← orgOf_synced]
  exact (orgOf_of_assertInOrg hcard).2

end CommentsService

namespace BoardMembersService

theorem stays_create {boardId : JsString} {dto : CreateBoardMemberDto}
    {member : JsString × JsString} (h : create t boardId orgId dto = .ok (t', member)) :
    Stays orgId t [.boardMember member] t' := by
  obtain ⟨⟨k, board⟩, hboard, h⟩ := bind_eq_ok.mp h
  obtain ⟨⟨⟩, huser, h⟩ := bind_eq_ok.mp h
  obtain ⟨user, hkey, h⟩ := bind_eq_ok.mp h
  obtain ⟨rfl, rfl⟩ := Prod.mk.inj (Except.ok.inj h)
  have howner := (orgOf_of_assertInOrg hboard).2
  refine .set rfl (fun o ho => ?_) fun _ s hs => ?_
  · obtain ⟨_, -, ho⟩ := Option.bind_eq_some_iff.mp ho
    exact Option.some.inj (ho.symm.trans howner)
  · cases hs with
    | boardOf => exact howner
    | memberOfBoard => exact orgOf_of_assertUserInOrg huser hkey

theorem findOne_eq_ok {boardId userId : JsString} {member : JsString × JsString}
    {role : BoardMemberRole} (h : findOne t boardId userId orgId = .ok (member, role)) :
    t.boardMembers.lookup member = some role ∧ t.orgOf (.boardMember member) = some orgId := by
  obtain ⟨⟨k, board⟩, hboard, h⟩ := bind_eq_ok.mp h
  obtain ⟨user, -, h⟩ := bind_eq_ok.mp h
  split at h
  · cases h
  · rename_i row hrow
    obtain ⟨rfl, rfl⟩ := Prod.mk.inj (Except.ok.inj h)
    refine ⟨hrow, ?_⟩
    rw [orgOf_boardMember hrow, ← orgOf_synced]
    exact (orgOf_of_assertInOrg hboard).2

theorem stays_update {boardId userId : JsString} {role : BoardMemberRole}
    {member : JsString × JsString}
    (h : update t boardId userId orgId role = .ok (t', member)) :
    Stays orgId t [.boardMember member] t' := by
  obtain ⟨⟨found, old⟩, hfound, h⟩ := bind_eq_ok.mp h
  obtain ⟨rfl, rfl⟩ := Prod.mk.inj (Except.ok.inj h)
  obtain ⟨hrow, howner⟩ := findOne_eq_ok hfound
  refine .set rfl (fun o ho => Option.some.inj (ho.symm.trans howner)) fun hc s hs => ?_
  refine (hc.refs (.boardMember found) old s hrow ?_).trans howner
  cases hs with
  | boardOf => exact .boardOf found old
  | memberOfBoard => exact .memberOfBoard found old

theorem stays_remove {boardId userId : JsString} (h : remove t boardId userId orgId = .ok t') :
    Stays orgId t [] t' := by
  obtain ⟨⟨member, role⟩, hfound, h⟩ := bind_eq_ok.mp h
  obtain rfl := Except.ok.inj h
  refine .removed (within_drop not_refers_boardMember (findOne_eq_ok hfound).2
    (AList.lookup_erase _ _) fun s hs => ?_)
  cases s with
  | boardMember j => exact AList.lookup_erase_ne fun hj => hs (congrArg _ hj)
  | _ => rfl

theorem mem_findAll {boardId : JsString}
    {found : List ((JsString × JsString) × BoardMemberRole × Option SafeUser)}
    (h : findAll t boardId orgId = .ok found) (hc : t.Coherent) :
    ∀ r ∈ (Response.boardMembers found : Response pg).records, t.orgOf r = some orgId := by
  obtain ⟨⟨k, board⟩, hboard, h⟩ := bind_eq_ok.mp h
  obtain rfl := Except.ok.inj h
  intro r hr
  obtain ⟨e, he, hr⟩ := List.mem_flatMap.mp hr
  obtain ⟨⟨member, role⟩, hmember, rfl⟩ := List.mem_map.mp he
  obtain ⟨hrow, hof⟩ := mem_select.mp hmember
  have howner : t.orgOf (.boardMember member) = some orgId := by
    rw [orgOf_boardMember hrow, of_decide_eq_true hof, ← orgOf_synced]
    exact (orgOf_of_assertInOrg hboard).2
  rcases List.mem_cons.mp hr with rfl | hr
  · exact howner
  · obtain ⟨_, -, rfl⟩ := Option.map_eq_some_iff.mp (Option.mem_toList.mp hr)
    exact (hc.refs (.boardMember member) role _ hrow (.memberOfBoard member role)).trans howner

end BoardMembersService

namespace CardMembersService

theorem stays_create {cardId userId : JsString} {member : JsString × JsString}
    (h : create t cardId orgId userId = .ok (t', member)) :
    Stays orgId t [.cardMember member] t' := by
  obtain ⟨⟨k, card⟩, hcard, h⟩ := bind_eq_ok.mp h
  obtain ⟨⟨⟩, huser, h⟩ := bind_eq_ok.mp h
  obtain ⟨user, hkey, h⟩ := bind_eq_ok.mp h
  obtain ⟨rfl, rfl⟩ := Prod.mk.inj (Except.ok.inj h)
  have howner := (orgOf_of_assertInOrg hcard).2
  refine .set rfl (fun o ho => ?_) fun _ s hs => ?_
  · obtain ⟨_, -, ho⟩ := Option.bind_eq_some_iff.mp ho
    exact Option.some.inj (ho.symm.trans howner)
  · cases hs with
    | cardOf => exact howner
    | memberOfCard => exact orgOf_of_assertUserInOrg huser hkey

theorem findOne_eq_ok {cardId userId : JsString} {member : JsString × JsString}
    (h : findOne t cardId userId orgId = .ok member) :
    t.orgOf (.cardMember member) = some orgId := by
  obtain ⟨⟨k, card⟩, hcard, h⟩ := bind_eq_ok.mp h
  obtain ⟨user, -, h⟩ := bind_eq_ok.mp h
  split at h
  · cases h
  · rename_i hrow
    obtain rfl := Except.ok.inj h
    rw [orgOf_cardMember hrow, ← orgOf_synced]
    exact (orgOf_of_assertInOrg hcard).2

theorem stays_remove {cardId userId : JsString} (h : remove t cardId userId orgId = .ok t') :
    Stays orgId t [] t' := by
  obtain ⟨member, hfound, h⟩ := bind_eq_ok.mp h
  obtain rfl := Except.ok.inj h
  refine .removed (within_drop not_refers_cardMember (findOne_eq_ok hfound)
    (AList.lookup_erase _ _) fun s hs => ?_)
  cases s with
  | cardMember j => exact AList.lookup_erase_ne fun hj => hs (congrArg _ hj)
  | _ => rfl

theorem mem_findAll {cardId : JsString} {found : List (JsString × JsString)}
    (h : findAll t cardId orgId = .ok found) :
    ∀ member ∈ found, t.orgOf (.cardMember member) = some orgId := by
  obtain ⟨⟨k, card⟩, hcard, h⟩ := bind_eq_ok.mp h
  obtain rfl := Except.ok.inj h
  intro member hmember
  obtain ⟨⟨m, row⟩, he, rfl⟩ := List.mem_map.mp hmember
  obtain ⟨hrow, hof⟩ := mem_select.mp he
  rw [orgOf_cardMember hrow, of_decide_eq_true hof, ← orgOf_synced]
  exact (orgOf_of_assertInOrg hcard).2

end CardMembersService

end Members

/-! ## Users and organizations -/

section Accounts

open Tables

namespace UsersService

theorem orgId_of_newUser {dto : CreateUserDto} {user : User} (h : newUser orgId dto = .ok user) :
    user.orgId = orgId := by
  obtain ⟨_, -, h⟩ := bind_eq_ok.mp h
  obtain ⟨_, -, h⟩ := bind_eq_ok.mp h
  obtain ⟨_, -, h⟩ := bind_eq_ok.mp h
  obtain rfl := Except.ok.inj h
  rfl

theorem stays_create {dto : CreateUserDto} (h : create t orgId id dto = .ok t') :
    Stays orgId t [.user id] t' := by
  obtain ⟨user, huser, h⟩ := bind_eq_ok.mp h
  split at h
  · cases h
  · rename_i hchecked
    obtain ⟨hfree, hexists, -⟩ := not_or.mp hchecked |>.imp_right not_or.mp
    obtain rfl := Except.ok.inj h
    refine .set rfl (fun o ho => ?_) fun _ s hs => ?_
    · obtain ⟨row, hrow, -⟩ := Option.map_eq_some_iff.mp ho
      exact absurd (AList.lookup_isSome.mp (Option.isSome_of_eq_some hrow)) hfree
    · cases hs with
      | employer =>
          rw [orgId_of_newUser huser]
          obtain ⟨x, hx⟩ :=
            Option.isSome_iff_exists.mp (AList.lookup_isSome.mpr (not_not.mp hexists))
          exact Option.map_eq_some_iff.mpr ⟨x, hx, rfl⟩

theorem findOne_eq_ok {k : JsString} {user : User} (h : findOne t id orgId = .ok (k, user)) :
    t.users.lookup k = some user ∧ user.orgId = orgId ∧ t.orgOf (.user k) = some orgId := by
  obtain ⟨j, -, h⟩ := bind_eq_ok.mp h
  split at h
  · cases h
  · rename_i row hrow
    obtain ⟨hrow, horg⟩ := Option.filter_eq_some_iff.mp hrow
    obtain ⟨rfl, rfl⟩ := Prod.mk.inj (Except.ok.inj h)
    have horg := of_decide_eq_true horg
    exact ⟨hrow, horg, Option.map_eq_some_iff.mpr ⟨row, hrow, horg⟩⟩

theorem orgId_of_assign {user user' : User} {dto : UpdateUserDto}
    (h : assign user dto = .ok user') : user'.orgId = user.orgId := by
  obtain ⟨_, -, h⟩ := bind_eq_ok.mp h
  obtain ⟨_, -, h⟩ := bind_eq_ok.mp h
  obtain ⟨_, -, h⟩ := bind_eq_ok.mp h
  obtain ⟨_, -, h⟩ := bind_eq_ok.mp h
  obtain ⟨_, -, h⟩ := bind_eq_ok.mp h
  obtain ⟨_, -, h⟩ := bind_eq_ok.mp h
  obtain ⟨_, -, h⟩ := bind_eq_ok.mp h
  obtain rfl := Except.ok.inj h
  rfl

theorem stays_update {dto : UpdateUserDto} {k : JsString}
    (h : update t id orgId dto = .ok (t', k)) : Stays orgId t [.user k] t' := by
  obtain ⟨⟨j, old⟩, hfound, h⟩ := bind_eq_ok.mp h
  obtain ⟨user, hassign, h⟩ := bind_eq_ok.mp h
  split at h
  · cases h
  · obtain ⟨rfl, rfl⟩ := Prod.mk.inj (Except.ok.inj h)
    obtain ⟨hrow, horg, howner⟩ := findOne_eq_ok hfound
    refine .set rfl (fun o ho => Option.some.inj (ho.symm.trans howner)) fun hc s hs => ?_
    cases hs with
    | employer =>
        rw [orgId_of_assign hassign]
        exact (hc.refs (.user j) old _ hrow (.employer j old)).trans howner

theorem stays_remove (h : remove t id orgId = .ok t') : Stays orgId t [] t' := by
  obtain ⟨⟨k, user⟩, hfound, h⟩ := bind_eq_ok.mp h
  obtain rfl := Except.ok.inj h
  obtain ⟨hrow, horg, -⟩ := findOne_eq_ok hfound
  refine .removed (within_removeUsers fun j row hj hk => ?_)
  obtain rfl := of_decide_eq_true hk
  obtain rfl : row = user := Option.some.inj (hj.symm.trans hrow)
  exact horg

end UsersService

namespace OrganizationsService

/-- A new organization has no rows yet. -/
theorem stays_create {dto : CreateOrganizationDto} (h : create t id dto = .ok t') :
    Stays orgId t [.organization id] t' := by
  unfold create at h
  split at h
  · cases h
  · rename_i hchecked
    have hfree := (not_or.mp hchecked).1
    obtain rfl := Except.ok.inj h
    refine ⟨fun hc => ?_, fun _ r hr => Or.inr ⟨id, List.mem_singleton.mp hr, hfree⟩⟩
    obtain ⟨hc', hkept⟩ := t.within_setOrganization id _ hc
    refine ⟨hc', fun o _ r hr => hkept o ?_ r hr⟩
    rintro rfl
    exact hfree (hc.mem_organizations hr)

theorem findOne_eq_ok (horg : pg.uuid orgId = some orgId) {k : JsString} {org : Organization}
    (h : findOne t id orgId = .ok (k, org)) :
    k = orgId ∧ t.organizations.lookup k = some org := by
  unfold findOne at h
  split at h
  · cases h
  · rename_i hid
    obtain rfl := not_not.mp hid
    obtain ⟨j, hj, h⟩ := bind_eq_ok.mp h
    split at h
    · cases h
    · rename_i row hrow
      obtain ⟨rfl, rfl⟩ := Prod.mk.inj (Except.ok.inj h)
      exact ⟨Option.some.inj ((key_eq_ok hj).symm.trans horg), hrow⟩

theorem stays_update (horg : pg.uuid orgId = some orgId) {dto : UpdateOrganizationDto}
    {k : JsString} (h : update t id orgId dto = .ok (t', k)) :
    Stays orgId t [.organization k] t' := by
  obtain ⟨⟨j, old⟩, hfound, h⟩ := bind_eq_ok.mp h
  obtain ⟨name, -, h⟩ := bind_eq_ok.mp h
  dsimp only at h
  split at h
  · cases h
  · obtain ⟨rfl, rfl⟩ := Prod.mk.inj (Except.ok.inj h)
    obtain ⟨rfl, -⟩ := findOne_eq_ok horg hfound
    refine .saved (t.within_setOrganization j _) fun _ => ?_
    exact Option.map_eq_some_iff.mpr ⟨_, t.state_set_self (.organization j) _, rfl⟩

theorem stays_remove (horg : pg.uuid orgId = some orgId) (h : remove t id orgId = .ok t') :
    Stays orgId t [] t' := by
  obtain ⟨⟨k, org⟩, hfound, h⟩ := bind_eq_ok.mp h
  obtain rfl := Except.ok.inj h
  obtain ⟨rfl, -⟩ := findOne_eq_ok horg hfound
  exact .removed (t.within_removeOrganization k)

end OrganizationsService

end Accounts

/-! ## Every request -/

/-- The bodies that name a creator pass validation. -/
def Request.Accepted : Request → Prop
  | .createBoard _ _ dto => dto.toUpdateBoardDto.Accepted
  | .updateBoard _ dto => dto.Accepted
  | _ => True

section Requests

open Tables

variable {response : Response pg} {α : Type} {found : Except Failure α} {f : α → Response pg}

theorem answer_eq_ok (h : t.answer found f = .ok (response, t')) :
    ∃ rows, found = .ok rows ∧ response = f rows ∧ t' = t := by
  obtain ⟨rows, hrows, h⟩ := bind_eq_ok.mp h
  obtain ⟨rfl, rfl⟩ := Prod.mk.inj (Except.ok.inj h)
  exact ⟨rows, hrows, rfl, rfl⟩

theorem drop_eq_ok {rest : Except Failure (Tables pg)}
    (h : Tables.drop rest = .ok (response, t')) : rest = .ok t' ∧ response = .done := by
  obtain ⟨_, hrest, h⟩ := bind_eq_ok.mp h
  obtain ⟨rfl, rfl⟩ := Prod.mk.inj (Except.ok.inj h)
  exact ⟨hrest, rfl⟩

theorem save_eq_ok {saved : Except Failure (Database pg)}
    (h : t.save c id saved = .ok (response, t')) :
    ∃ db k, saved = .ok db ∧ pg.uuid id = some k ∧ response = .saved (.synced c k)
      ((t.database.find c k).toList.flatMap (t.database.relations c)) ∧
      t' = t.withDatabase db := by
  obtain ⟨db, hsaved, h⟩ := bind_eq_ok.mp h
  obtain ⟨k, hk, h⟩ := bind_eq_ok.mp h
  obtain ⟨rfl, rfl⟩ := Prod.mk.inj (Except.ok.inj h)
  exact ⟨db, k, hsaved, key_eq_ok hk, rfl, rfl⟩

theorem orgOf_listRelations (hc : t.Coherent) {k : JsString} {list : Row pg .lists}
    (hfind : t.database.find .lists k = some list)
    (howner : t.orgOf (.synced .lists k) = some orgId) :
    ∀ r ∈ listRelations list, ∃ c k, r = .synced c k ∧ t.orgOf r = some orgId := by
  intro r hr
  obtain ⟨b, hb, rfl⟩ := List.mem_map.mp hr
  have hrefers := Record.Refers.parent (k := k) (Option.mem_toList.mp hb)
  exact ⟨.boards, b, rfl, (hc.refs (.synced .lists k) list _ hfind hrefers).trans howner⟩

/-- The rows a row is loaded with are of its organization. -/
theorem orgOf_relations (hc : t.Coherent) {k : JsString} {row : Row pg c}
    (hfind : t.database.find c k = some row) (howner : t.orgOf (.synced c k) = some orgId) :
    ∀ r ∈ t.database.relations c row, ∃ c k, r = .synced c k ∧ t.orgOf r = some orgId := by
  intro r hr
  cases c with
  | boards => cases hr
  | lists => exact orgOf_listRelations hc hfind howner r hr
  | cards =>
      obtain ⟨l, hl, hr⟩ := List.mem_flatMap.mp hr
      have hrefers := Record.Refers.parent (k := k) (Option.mem_toList.mp hl)
      have hlist := (hc.refs (.synced .cards k) row _ hfind hrefers).trans howner
      rcases List.mem_cons.mp hr with rfl | hr
      · exact ⟨.lists, l, rfl, hlist⟩
      · obtain ⟨list, hfound, hr⟩ := List.mem_flatMap.mp hr
        exact orgOf_listRelations hc (Option.mem_toList.mp hfound) hlist r hr

/-- An update of a synced row. -/
theorem stays_of_save {saved : Except Failure (Database pg)}
    (h : t.save c id saved = .ok (response, t'))
    (hkept : ∀ db, saved = .ok db → WebEffect t.database db)
    (hstays : ∀ db, saved = .ok db → ∃ k, pg.uuid id = some k ∧
      Stays orgId t [.synced c k] (t.withDatabase db)) : Stays orgId t response.records t' := by
  obtain ⟨db, k, hsaved, hk, rfl, rfl⟩ := save_eq_ok h
  obtain ⟨k', hk', hdb⟩ := hstays db hsaved
  obtain rfl : k = k' := Option.some.inj (hk.symm.trans hk')
  have hafter := fun hc => hdb.records hc _ (List.mem_singleton.mpr rfl)
  refine ⟨hdb.within, fun hc r hr => ?_⟩
  rcases List.mem_cons.mp hr with rfl | hr
  · exact hafter hc
  · obtain ⟨row, hrow, hr⟩ := List.mem_flatMap.mp hr
    have hfind := Option.mem_toList.mp hrow
    -- the row has stayed in its organization, and so have its relations
    obtain ⟨o, howner⟩ := hc.owned (.synced c k) row hfind
    have hstayed := (hkept db hsaved).owner c k o ((t.orgOf_synced c k).symm.trans howner)
    rcases hafter hc with hmine | ⟨_, hne, -⟩
    · rw [orgOf_synced] at hmine
      obtain rfl : o = orgId := Option.some.inj (hstayed.symm.trans hmine)
      obtain ⟨c', k', rfl, hof⟩ := orgOf_relations hc hfind howner r hr
      refine Or.inl (((t.withDatabase db).orgOf_synced c' k').trans ?_)
      exact (hkept db hsaved).owner c' k' o ((t.orgOf_synced c' k').symm.trans hof)
    · cases hne

/-- A read. -/
theorem stays_of_answer (h : t.answer found f = .ok (response, t'))
    (hread : ∀ rows, found = .ok rows → t.Coherent → ∀ r ∈ (f rows).records,
      t.orgOf r = some orgId) : Stays orgId t response.records t' := by
  obtain ⟨rows, hrows, rfl, rfl⟩ := answer_eq_ok h
  exact .read (hread rows hrows)

/-- A write that answers with the record it has written. -/
theorem stays_of_write {α : Type} {written : Except Failure α} {f : α → Response pg × Tables pg}
    (h : (do let a ← written; return f a) = .ok (response, t'))
    (hwritten : ∀ a, written = .ok a → Stays orgId t (f a).1.records (f a).2) :
    Stays orgId t response.records t' := by
  obtain ⟨a, ha, h⟩ := bind_eq_ok.mp h
  obtain ⟨rfl, rfl⟩ := Prod.mk.inj (Except.ok.inj h)
  exact hwritten a ha

/-- A deletion. -/
theorem stays_of_drop {rest : Except Failure (Tables pg)}
    (h : Tables.drop rest = .ok (response, t'))
    (hrest : rest = .ok t' → Stays orgId t [] t') : Stays orgId t response.records t' := by
  obtain ⟨hdrop, rfl⟩ := drop_eq_ok h
  exact hrest hdrop

/-- A list of rows of the organization. -/
theorem records_rows {rows : List (JsString × Row pg c)}
    (h : ∀ k row, (k, row) ∈ rows → t.orgOf (.synced c k) = some orgId) :
    ∀ r ∈ (Response.rows c rows).records, t.orgOf r = some orgId := by
  intro r hr
  obtain ⟨⟨k, row⟩, hmem, rfl⟩ := List.mem_map.mp hr
  exact h k row hmem

/-- One row of the organization, with its relations. -/
theorem records_found (hc : t.Coherent) {message : JsString} (found : JsString × Row pg c)
    (h : findVisible t.database c id orgId message = .ok found) :
    ∀ r ∈ (t.found c found).records, t.orgOf r = some orgId := by
  intro r hr
  obtain ⟨hfind, howner⟩ := findVisible_eq_ok h
  rcases List.mem_cons.mp hr with rfl | hr
  · exact howner
  · obtain ⟨_, _, -, hof⟩ := orgOf_relations hc hfind howner r hr
    exact hof

/-- **Every request stays in its organization.** -/
theorem Request.stays (hcolumn : CreatorColumn pg) (horg : pg.uuid orgId = some orgId)
    {request : Request} (haccepted : request.Accepted)
    (h : request.run t orgId = .ok (response, t')) : Stays orgId t response.records t' := by
  cases request with
  | createBoard id now dto =>
      exact stays_of_write h fun _ hcreate =>
        BoardsService.stays_create hcolumn horg haccepted hcreate
  | findBoards =>
      refine stays_of_answer h fun rows hrows _ => records_rows fun k row hmem => ?_
      obtain ⟨o, ho, hrows⟩ := bind_eq_ok.mp hrows
      obtain rfl := Except.ok.inj hrows
      exact orgOf_children ((key_eq_ok ho).symm.trans horg) hmem
  | findBoard id => exact stays_of_answer h fun found hfound hc => records_found hc found hfound
  | updateBoard id dto =>
      exact stays_of_save h (fun db hdb => BoardsService.update_effect hdb) fun db hdb =>
        BoardsService.stays_update hcolumn haccepted hdb
  | removeBoard id => exact stays_of_drop h BoardsService.stays_remove
  | createList boardId id now dto =>
      exact stays_of_write h fun _ hcreate => ListsService.stays_create hcreate
  | findLists boardId =>
      refine stays_of_answer h fun rows hrows _ => records_rows fun k row hmem => ?_
      obtain ⟨⟨b, board⟩, hboard, hrows⟩ := bind_eq_ok.mp hrows
      obtain rfl := Except.ok.inj hrows
      exact orgOf_children (orgOf_of_assertInOrg hboard).2 hmem
  | findList id => exact stays_of_answer h fun found hfound hc => records_found hc found hfound
  | updateList id dto =>
      exact stays_of_save h (fun db hdb => ListsService.update_effect hdb) fun db hdb =>
        ListsService.stays_update hdb
  | removeList id => exact stays_of_drop h ListsService.stays_delete
  | createCard listId id now dto =>
      exact stays_of_write h fun _ hcreate => CardsService.stays_create hcreate
  | findCards listId =>
      refine stays_of_answer h fun rows hrows _ => records_rows fun k row hmem => ?_
      obtain ⟨⟨l, list⟩, hlist, hrows⟩ := bind_eq_ok.mp hrows
      obtain rfl := Except.ok.inj hrows
      exact orgOf_children (orgOf_of_assertInOrg hlist).2 hmem
  | findCard id => exact stays_of_answer h fun found hfound hc => records_found hc found hfound
  | updateCard id dto =>
      exact stays_of_save h (fun db hdb => CardsService.update_effect hdb) fun db hdb =>
        CardsService.stays_update hdb
  | removeCard id => exact stays_of_drop h CardsService.stays_delete
  | createComment cardId id dto =>
      exact stays_of_write h fun _ hcreate => CommentsService.stays_create hcreate
  | findComments cardId =>
      refine stays_of_answer h fun rows hrows _ r hr => ?_
      obtain ⟨e, he, rfl⟩ := List.mem_map.mp hr
      exact CommentsService.mem_findAll hrows e he
  | findComment id =>
      refine stays_of_answer h fun found hfound _ r hr => ?_
      obtain rfl := List.mem_singleton.mp hr
      exact (CommentsService.findOne_eq_ok hfound).2
  | updateComment id textContent =>
      obtain ⟨_, hupdate, h⟩ := bind_eq_ok.mp h
      obtain ⟨rfl, rfl⟩ := Prod.mk.inj (Except.ok.inj h)
      exact CommentsService.stays_update hupdate
  | removeComment id => exact stays_of_drop h CommentsService.stays_remove
  | createBoardMember boardId dto =>
      obtain ⟨_, hcreate, h⟩ := bind_eq_ok.mp h
      obtain ⟨rfl, rfl⟩ := Prod.mk.inj (Except.ok.inj h)
      exact BoardMembersService.stays_create hcreate
  | findBoardMembers boardId =>
      exact stays_of_answer h fun found hfound hc => BoardMembersService.mem_findAll hfound hc
  | findBoardMember boardId userId =>
      refine stays_of_answer h fun found hfound _ r hr => ?_
      obtain rfl := List.mem_singleton.mp hr
      exact (BoardMembersService.findOne_eq_ok hfound).2
  | updateBoardMember boardId userId role =>
      obtain ⟨_, hupdate, h⟩ := bind_eq_ok.mp h
      obtain ⟨rfl, rfl⟩ := Prod.mk.inj (Except.ok.inj h)
      exact BoardMembersService.stays_update hupdate
  | removeBoardMember boardId userId => exact stays_of_drop h BoardMembersService.stays_remove
  | createCardMember cardId userId =>
      obtain ⟨_, hcreate, h⟩ := bind_eq_ok.mp h
      obtain ⟨rfl, rfl⟩ := Prod.mk.inj (Except.ok.inj h)
      exact CardMembersService.stays_create hcreate
  | findCardMembers cardId =>
      refine stays_of_answer h fun found hfound _ r hr => ?_
      obtain ⟨member, hmember, rfl⟩ := List.mem_map.mp hr
      exact CardMembersService.mem_findAll hfound member hmember
  | findCardMember cardId userId =>
      refine stays_of_answer h fun found hfound _ r hr => ?_
      obtain rfl := List.mem_singleton.mp hr
      exact CardMembersService.findOne_eq_ok hfound
  | removeCardMember cardId userId => exact stays_of_drop h CardMembersService.stays_remove
  | createUser id dto =>
      exact stays_of_write h fun _ hcreate => UsersService.stays_create hcreate
  | findUsers =>
      refine stays_of_answer h fun found hfound _ r hr => ?_
      obtain ⟨⟨k, user⟩, huser, rfl⟩ := List.mem_map.mp hr
      obtain ⟨o, ho, hfound⟩ := bind_eq_ok.mp hfound
      obtain rfl := Except.ok.inj hfound
      obtain ⟨hrow, hof⟩ := mem_select.mp huser
      refine Option.map_eq_some_iff.mpr ⟨user, hrow, (of_decide_eq_true hof).trans ?_⟩
      exact Option.some.inj ((key_eq_ok ho).symm.trans horg)
  | findUser id =>
      refine stays_of_answer h fun found hfound _ r hr => ?_
      obtain rfl := List.mem_singleton.mp hr
      exact (UsersService.findOne_eq_ok hfound).2.2
  | updateUser id dto =>
      obtain ⟨_, hupdate, h⟩ := bind_eq_ok.mp h
      obtain ⟨rfl, rfl⟩ := Prod.mk.inj (Except.ok.inj h)
      exact UsersService.stays_update hupdate
  | removeUser id => exact stays_of_drop h UsersService.stays_remove
  | createOrganization id dto =>
      exact stays_of_write h fun _ hcreate => OrganizationsService.stays_create hcreate
  | findOrganizations =>
      refine stays_of_answer h fun found hfound _ r hr => ?_
      obtain ⟨⟨k, org⟩, hmem, rfl⟩ := List.mem_map.mp hr
      obtain ⟨o, ho, hfound⟩ := bind_eq_ok.mp hfound
      obtain rfl := Except.ok.inj hfound
      obtain ⟨row, hrow, heq⟩ := Option.map_eq_some_iff.mp (Option.mem_toList.mp hmem)
      obtain ⟨rfl, rfl⟩ := Prod.mk.inj heq
      exact Option.map_eq_some_iff.mpr
        ⟨row, hrow, Option.some.inj ((key_eq_ok ho).symm.trans horg)⟩
  | findOrganization id =>
      refine stays_of_answer h fun found hfound _ r hr => ?_
      obtain rfl := List.mem_singleton.mp hr
      obtain ⟨hk, hrow⟩ := OrganizationsService.findOne_eq_ok horg hfound
      exact Option.map_eq_some_iff.mpr ⟨found.2, hrow, hk⟩
  | updateOrganization id dto =>
      obtain ⟨_, hupdate, h⟩ := bind_eq_ok.mp h
      obtain ⟨rfl, rfl⟩ := Prod.mk.inj (Except.ok.inj h)
      exact OrganizationsService.stays_update horg hupdate
  | removeOrganization id => exact stays_of_drop h (OrganizationsService.stays_remove horg)

end Requests

/-! ## Every run -/

/-- A request with the organization its token names. -/
structure WebRequest where
  orgId : JsString
  request : Request

/-- The tables after a request: a failed one is rolled back. -/
def Tables.serve (t : Tables pg) (a : WebRequest) : Tables pg :=
  match a.request.run t a.orgId with
  | .ok (_, t') => t'
  | .error _ => t

/-- A request, as a step. -/
def Tables.step (t : Tables pg) (a : WebRequest) : Option (Tables pg) := some (t.serve a)

theorem Tables.within_serve (hcolumn : CreatorColumn pg) {a : WebRequest}
    (horg : pg.uuid a.orgId = some a.orgId) (haccepted : a.request.Accepted) :
    Tables.Within a.orgId t (t.serve a) := by
  unfold Tables.serve
  split
  · rename_i h
    exact (Request.stays hcolumn horg haccepted h).within
  · exact .refl a.orgId t

/-- **The web API keeps organizations apart.** In every run of requests, of any
organizations in any order: every row still belongs to an organization and refers to rows
of its own only; a response tells of rows of the caller's organization, or of an
organization the request has made; and whoever sent none of the requests finds all rows of
their organization as they were. -/
theorem requests_stay_within (hcolumn : CreatorColumn pg) {start : Tables pg}
    {trace : List (Tables pg × WebRequest)} (run : Steps Tables.step start trace t)
    (hstart : start.Coherent)
    (hallowed : ∀ e ∈ trace, pg.uuid e.2.orgId = some e.2.orgId ∧ e.2.request.Accepted) :
    t.Coherent ∧
      (∀ e ∈ trace, ∀ response t', e.2.request.run e.1 e.2.orgId = .ok (response, t') →
        ∀ r ∈ response.records, t'.orgOf r = some e.2.orgId ∨
          ∃ k, r = .organization k ∧ k ∉ e.1.organizations) ∧
      ∀ o, (∀ e ∈ trace, e.2.orgId ≠ o) → Tables.Untouched o start t := by
  have hstep : ∀ (s : Tables pg) a s', (pg.uuid a.orgId = some a.orgId ∧ a.request.Accepted) →
      s.Coherent → Tables.step s a = some s' → s'.Coherent := by
    intro s a s' hok hc h
    obtain rfl := Option.some.inj h
    exact (Tables.within_serve hcolumn hok.1 hok.2 hc).1
  obtain ⟨hstates, hend⟩ := run.everywhere hallowed hstart hstep
  refine ⟨hend, fun e he response t' h => ?_, fun o ho => ?_⟩
  · obtain ⟨horg, haccepted⟩ := hallowed e he
    exact (Request.stays hcolumn horg haccepted h).records (hstates e he)
  · -- one request after the other, by the same induction
    have hboth : ∀ (s : Tables pg) a s', ((pg.uuid a.orgId = some a.orgId ∧ a.request.Accepted) ∧
        a.orgId ≠ o) → (s.Coherent ∧ Tables.Untouched o start s) → Tables.step s a = some s' →
          s'.Coherent ∧ Tables.Untouched o start s' := by
      intro s a s' hok hs h
      obtain rfl := Option.some.inj h
      obtain ⟨hc', hkept⟩ := Tables.within_serve hcolumn hok.1.1 hok.1.2 hs.1
      exact ⟨hc', hs.2.trans (hkept o fun heq => hok.2 heq.symm)⟩
    exact (run.invariant_along (fun e he => ⟨hallowed e he, ho e he⟩)
      ⟨hstart, Schema.Untouched.refl o start.state⟩ hboth).2

/-! ### Two organizations -/

namespace TwoTenants

def otherOrgId : JsString := js "00000000-0000-4000-8000-000000000002"
def userId : JsString := js "00000000-0000-4000-8000-0000000000e1"

/-- Two organizations without rows. -/
def start : Tables Postgres.plain where
  table _ := ∅
  organizations := Dict.ofList [(Sample.orgId, { name := js "A", domain := none }),
    (otherOrgId, { name := js "B", domain := none })]
  users := ∅
  comments := ∅
  boardMembers := ∅
  cardMembers := ∅

theorem start_coherent : start.Coherent := by
  have honly : ∀ (r : Record) (x : r.Content Postgres.plain), start.state r = some x →
      ∃ k, r = .organization k := by
    intro r x hx
    cases r with
    | organization k => exact ⟨k, rfl⟩
    | _ => cases hx
  constructor
  · intro r x hx
    obtain ⟨k, rfl⟩ := honly r x hx
    exact ⟨k, Option.map_eq_some_iff.mpr ⟨x, hx, rfl⟩⟩
  · intro r x s hx hs
    obtain ⟨k, rfl⟩ := honly r x hx
    cases hs

/-- The first organization gets a user. -/
def addUser : WebRequest where
  orgId := Sample.orgId
  request := .createUser userId
    { email := js "ann", passwordHash := js "h", firstName := js "Ann", lastName := js "B",
      avatarUrl := none, timezone := none, locale := none, isActive := none }

/-- A title and a creator. -/
def board : CreateBoardDto where
  content := Dict.ofList [("title", .str (js "Roadmap")), ("createdBy", .str userId)]
  content_keys := by decide
  title := by decide

/-- The user makes a board. -/
def addBoard : WebRequest where
  orgId := Sample.orgId
  request := .createBoard Sample.boardId 5 board

/-- The user is removed. -/
def removeUser : WebRequest where
  orgId := Sample.orgId
  request := .removeUser userId

theorem plain_creatorColumn : CreatorColumn Postgres.plain := by
  intro v k h
  have hstore : (if hasColumnType "createdBy" v then some v else none) = some (.str k) := h
  split at hstore
  · exact ⟨k, Option.some.inj hstore, rfl⟩
  · cases hstore

/-- The tables at the end. -/
def last : Tables Postgres.plain := ((start.serve addUser).serve addBoard).serve removeUser

end TwoTenants

/-- A board outlives its creator, and the other organization sees nothing of it. -/
theorem requests_stay_within_two :
    ((TwoTenants.last.database.find .boards Sample.boardId).map fun board =>
        board.text "createdBy") = some none ∧
      TwoTenants.last.Coherent ∧
      Tables.Untouched TwoTenants.otherOrgId TwoTenants.start TwoTenants.last := by
  have hrun := requests_stay_within TwoTenants.plain_creatorColumn
    (((Steps.none.next rfl).next rfl).next rfl : Steps Tables.step TwoTenants.start _
      TwoTenants.last) TwoTenants.start_coherent ?_
  · refine ⟨by decide +kernel, hrun.1, hrun.2.2 TwoTenants.otherOrgId ?_⟩
    intro e he
    have horg : e.2.orgId = Sample.orgId := by
      simp only [List.nil_append, List.cons_append, List.mem_cons, List.not_mem_nil,
        or_false] at he
      rcases he with rfl | rfl | rfl <;> rfl
    rw [horg]
    decide
  · intro e he
    simp only [List.nil_append, List.cons_append, List.mem_cons, List.not_mem_nil, or_false] at he
    rcases he with rfl | rfl | rfl
    · exact ⟨rfl, trivial⟩
    · have haccepted : TwoTenants.board.toUpdateBoardDto.Accepted := by decide
      exact ⟨rfl, haccepted⟩
    · exact ⟨rfl, trivial⟩

end FlowLogix.Server
