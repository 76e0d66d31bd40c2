/-
  Server/TenantRecords.lean --- the tables as records with owners.

  A `Record` is a row of any table, by its key.  What it refers to is what its foreign keys
  name; its owner is the organization at the end of the chain.  `Tables.state` reads the
  tables as a state of that schema, so that `Foundation/Ownership.lean` applies: a write
  under an organization's own records, and a deletion with everything that refers to the
  deleted rows, keep every reference inside an organization and leave the others alone.
-/
import FlowLogix.Foundation.Ownership
import FlowLogix.Server.Tables

set_option autoImplicit false

namespace FlowLogix.Server

open FlowLogix.Foundation

variable {pg : Postgres}

/-! ## Records -/

/-- A row, by its key. -/
inductive Record where
  | organization (k : JsString)
  | user (k : JsString)
  | synced (c : SyncCollection) (k : JsString)
  | comment (k : JsString)
  | boardMember (member : JsString × JsString)
  | cardMember (member : JsString × JsString)
  deriving DecidableEq

namespace Record

/-- What a row holds. -/
def Content (pg : Postgres) : Record → Type
  | organization _ => Organization
  | user _ => User
  | synced c _ => Row pg c
  | comment _ => Comment
  | boardMember _ => BoardMemberRole
  | cardMember _ => Unit

/-- The row a parent column names. -/
def parent (k : JsString) : SyncCollection → Record
  | .boards => .organization k
  | .lists => .synced .boards k
  | .cards => .synced .lists k

/-- The rows the foreign keys of a row name. -/
inductive Refers : (r : Record) → r.Content pg → Record → Prop
  | parent {c : SyncCollection} {k p : JsString} {row : Row pg c}
      (h : row.text (parentProperty c) = some p) : Refers (synced c k) row (Record.parent p c)
  | creator {k u : JsString} {row : Row pg .boards} (h : row.text "createdBy" = some u) :
      Refers (synced .boards k) row (.user u)
  | employer (k : JsString) (row : User) : Refers (user k) row (.organization row.orgId)
  | card (k : JsString) (row : Comment) : Refers (comment k) row (.synced .cards row.cardId)
  | author (k : JsString) (row : Comment) : Refers (comment k) row (.user row.userId)
  | boardOf (member : JsString × JsString) (row : BoardMemberRole) :
      Refers (boardMember member) row (.synced .boards member.1)
  | memberOfBoard (member : JsString × JsString) (row : BoardMemberRole) :
      Refers (boardMember member) row (.user member.2)
  | cardOf (member : JsString × JsString) (row : Unit) :
      Refers (cardMember member) row (.synced .cards member.1)
  | memberOfCard (member : JsString × JsString) (row : Unit) :
      Refers (cardMember member) row (.user member.2)

/-- How far a row is from an organization. -/
def rank : Record → ℕ
  | organization _ => 0
  | user _ => 1
  | synced .boards _ => 2
  | synced .lists _ => 3
  | synced .cards _ => 4
  | _ => 5

end Record

theorem Record.rank_lt {r s : Record} {x : r.Content pg} (h : r.Refers x s) : s.rank < r.rank := by
  cases h with
  | @parent c => cases c <;> simp [rank, Record.parent]
  | creator => simp [rank]
  | employer => simp [rank]
  | card => simp [rank]
  | author => simp [rank]
  | boardOf => simp [rank]
  | memberOfBoard => simp [rank]
  | cardOf => simp [rank]
  | memberOfCard => simp [rank]

/-! Nothing refers to comments and memberships. -/

theorem not_refers_comment {k : JsString} (s : Record) (x : s.Content pg) :
    ¬ s.Refers x (.comment k) := by
  generalize hr : Record.comment k = r
  intro h
  cases h with
  | @parent c => cases c <;> cases hr
  | _ => cases hr

theorem not_refers_boardMember {member : JsString × JsString} (s : Record) (x : s.Content pg) :
    ¬ s.Refers x (.boardMember member) := by
  generalize hr : Record.boardMember member = r
  intro h
  cases h with
  | @parent c => cases c <;> cases hr
  | _ => cases hr

theorem not_refers_cardMember {member : JsString × JsString} (s : Record) (x : s.Content pg) :
    ¬ s.Refers x (.cardMember member) := by
  generalize hr : Record.cardMember member = r
  intro h
  cases h with
  | @parent c => cases c <;> cases hr
  | _ => cases hr

/-- The foreign keys of the tables. -/
def schema (pg : Postgres) : Schema Record where
  Content := Record.Content pg
  refers r x s := r.Refers x s
  rank := Record.rank
  rank_lt _ _ _ h := Record.rank_lt h

/-! ## Owners -/

section Owner

variable (b : (schema pg).State)

/-- The organization of a board. -/
def boardOwner (k : JsString) : Option JsString :=
  Option.bind (b (.synced .boards k) : Option (Row pg .boards)) (·.text "orgId")

/-- The organization of a list, through its board. -/
def listOwner (k : JsString) : Option JsString :=
  (Option.bind (b (.synced .lists k) : Option (Row pg .lists)) (·.text "boardId")).bind
    (boardOwner b)

/-- The organization of a card, through its list. -/
def cardOwner (k : JsString) : Option JsString :=
  (Option.bind (b (.synced .cards k) : Option (Row pg .cards)) (·.text "listId")).bind (listOwner b)

/-- The organization a row belongs to. -/
def rowOwner : Record → Option JsString
  | .organization k => Option.map (fun _ => k) (b (.organization k) : Option Organization)
  | .user k => Option.map User.orgId (b (.user k) : Option User)
  | .synced .boards k => boardOwner b k
  | .synced .lists k => listOwner b k
  | .synced .cards k => cardOwner b k
  | .comment k => Option.bind (b (.comment k) : Option Comment) fun comment =>
      cardOwner b comment.cardId
  | .boardMember member => Option.bind (b (.boardMember member) : Option BoardMemberRole) fun _ =>
      boardOwner b member.1
  | .cardMember member => Option.bind (b (.cardMember member) : Option Unit) fun _ =>
      cardOwner b member.1

end Owner

/-- A row belongs to the organization its chain of foreign keys ends in. -/
def ownership (pg : Postgres) : (schema pg).Ownership JsString where
  owner := rowOwner
  exists_content b r o h := by
    cases r with
    | organization k =>
        obtain ⟨x, hx, -⟩ := Option.map_eq_some_iff.mp h
        exact ⟨x, hx⟩
    | user k =>
        obtain ⟨x, hx, -⟩ := Option.map_eq_some_iff.mp h
        exact ⟨x, hx⟩
    | synced c k =>
        cases c with
        | boards =>
            obtain ⟨x, hx, -⟩ := Option.bind_eq_some_iff.mp h
            exact ⟨x, hx⟩
        | lists =>
            obtain ⟨_, h, -⟩ := Option.bind_eq_some_iff.mp h
            obtain ⟨x, hx, -⟩ := Option.bind_eq_some_iff.mp h
            exact ⟨x, hx⟩
        | cards =>
            obtain ⟨_, h, -⟩ := Option.bind_eq_some_iff.mp h
            obtain ⟨x, hx, -⟩ := Option.bind_eq_some_iff.mp h
            exact ⟨x, hx⟩
    | comment k =>
        obtain ⟨x, hx, -⟩ := Option.bind_eq_some_iff.mp h
        exact ⟨x, hx⟩
    | boardMember member =>
        obtain ⟨x, hx, -⟩ := Option.bind_eq_some_iff.mp h
        exact ⟨x, hx⟩
    | cardMember member =>
        obtain ⟨x, hx, -⟩ := Option.bind_eq_some_iff.mp h
        exact ⟨x, hx⟩
  owner_congr b b' r hsame hrefs := by
    have hchain : ∀ {α : Type} {x : Option α} {f g : α → Option JsString},
        (∀ a, x = some a → f a = g a) → x.bind f = x.bind g := by
      intro α x f g h
      cases x with
      | none => rfl
      | some a => exact h a rfl
    cases r with
    | organization k => exact congrArg (Option.map fun _ => k) hsame
    | user k => exact congrArg (Option.map User.orgId) hsame
    | synced c k =>
        cases c with
        | boards =>
            show Option.bind (b' (.synced .boards k)) _ = Option.bind (b (.synced .boards k)) _
            rw [hsame]
        | lists =>
            show (Option.bind (b' (.synced .lists k)) _).bind _ =
              (Option.bind (b (.synced .lists k)) _).bind _
            rw [hsame]
            refine hchain fun board hboard => ?_
            obtain ⟨row, hrow, hp⟩ := Option.bind_eq_some_iff.mp hboard
            exact hrefs row _ hrow (.parent hp)
        | cards =>
            show (Option.bind (b' (.synced .cards k)) _).bind _ =
              (Option.bind (b (.synced .cards k)) _).bind _
            rw [hsame]
            refine hchain fun list hlist => ?_
            obtain ⟨row, hrow, hp⟩ := Option.bind_eq_some_iff.mp hlist
            exact hrefs row _ hrow (.parent hp)
    | comment k =>
        show Option.bind (b' (.comment k)) _ = Option.bind (b (.comment k)) _
        rw [hsame]
        exact hchain fun row hrow => hrefs row _ hrow (.card k row)
    | boardMember member =>
        show Option.bind (b' (.boardMember member)) _ = Option.bind (b (.boardMember member)) _
        rw [hsame]
        exact hchain fun row hrow => hrefs row _ hrow (.boardOf member row)
    | cardMember member =>
        show Option.bind (b' (.cardMember member)) _ = Option.bind (b (.cardMember member)) _
        rw [hsame]
        exact hchain fun row hrow => hrefs row _ hrow (.cardOf member row)

/-! ## The tables as a state -/

variable {c : SyncCollection} {t t' : Tables pg} {r s : Record}

namespace Tables

/-- The rows there are. -/
def state (t : Tables pg) : (schema pg).State
  | .organization k => t.organizations.lookup k
  | .user k => t.users.lookup k
  | .synced c k => (t.table c).lookup k
  | .comment k => t.comments.lookup k
  | .boardMember member => t.boardMembers.lookup member
  | .cardMember member => t.cardMembers.lookup member

/-- The organization of a row. -/
def orgOf (t : Tables pg) (r : Record) : Option JsString := (ownership pg).owner t.state r

/-- Every row belongs to an organization, and refers to rows of its own. -/
def Coherent (t : Tables pg) : Prop := Schema.Coherent (ownership pg) t.state

/-- The rows of an organization are as they were. -/
def Untouched (orgId : JsString) (t t' : Tables pg) : Prop :=
  Schema.Untouched (ownership pg) orgId t.state t'.state

theorem orgOf_synced (t : Tables pg) (c : SyncCollection) (k : JsString) :
    t.orgOf (.synced c k) = t.database.owner c k := by
  cases c with
  | boards => exact (congrFun (Database.owner_boards t.database) k).symm
  | lists => exact (congrFun (Database.owner_lists t.database) k).symm
  | cards => exact Option.bind_assoc _ _ _

theorem orgOf_comment {k : JsString} {comment : Comment} (h : t.comments.lookup k = some comment) :
    t.orgOf (.comment k) = t.database.owner .cards comment.cardId := by
  rw [← orgOf_synced]
  show Option.bind (t.comments.lookup k) _ = _
  rw [h]
  rfl

theorem orgOf_boardMember {member : JsString × JsString} {role : BoardMemberRole}
    (h : t.boardMembers.lookup member = some role) :
    t.orgOf (.boardMember member) = t.database.owner .boards member.1 := by
  rw [← orgOf_synced]
  show Option.bind (t.boardMembers.lookup member) _ = _
  rw [h]
  rfl

theorem orgOf_cardMember {member : JsString × JsString}
    (h : t.cardMembers.lookup member = some ()) :
    t.orgOf (.cardMember member) = t.database.owner .cards member.1 := by
  rw [← orgOf_synced]
  show Option.bind (t.cardMembers.lookup member) _ = _
  rw [h]
  rfl

/-- The organization of a row is a row itself, in coherent tables. -/
theorem Coherent.mem_organizations (h : t.Coherent) {o : JsString} (hr : t.orgOf r = some o) :
    o ∈ t.organizations := by
  have hrefer : ∀ {r s : Record} {x : r.Content pg}, t.state r = some x → r.Refers x s →
      t.orgOf s = t.orgOf r := fun {r s} x hx hs => h.refs r x s hx hs
  -- up the chain of foreign keys to the board or the user, and from there to the organization
  have hboard : ∀ k, t.orgOf (.synced .boards k) = some o → o ∈ t.organizations := by
    intro k hk
    obtain ⟨row, hrow, hp⟩ := Option.bind_eq_some_iff.mp hk
    have horg := (hrefer hrow (.parent hp)).trans hk
    obtain ⟨x, hx⟩ := (ownership pg).exists_content t.state _ o horg
    exact AList.lookup_isSome.mp (Option.isSome_of_eq_some hx)
  have hlist : ∀ k, t.orgOf (.synced .lists k) = some o → o ∈ t.organizations := by
    intro k hk
    obtain ⟨board, -, hb⟩ := Option.bind_eq_some_iff.mp hk
    exact hboard board hb
  have hcard : ∀ k, t.orgOf (.synced .cards k) = some o → o ∈ t.organizations := by
    intro k hk
    obtain ⟨list, -, hl⟩ := Option.bind_eq_some_iff.mp hk
    exact hlist list hl
  cases r with
  | organization k =>
      obtain ⟨x, hx, rfl⟩ := Option.map_eq_some_iff.mp hr
      exact AList.lookup_isSome.mp (Option.isSome_of_eq_some hx)
  | user k =>
      obtain ⟨user, huser, hk⟩ := Option.map_eq_some_iff.mp hr
      have horg := (hrefer huser (.employer k user)).trans hr
      obtain ⟨x, hx⟩ := (ownership pg).exists_content t.state _ o horg
      exact hk ▸ AList.lookup_isSome.mp (Option.isSome_of_eq_some hx)
  | synced c k =>
      cases c with
      | boards => exact hboard k hr
      | lists => exact hlist k hr
      | cards => exact hcard k hr
  | comment k =>
      obtain ⟨comment, -, hk⟩ := Option.bind_eq_some_iff.mp hr
      exact hcard _ hk
  | boardMember member =>
      obtain ⟨_, -, hk⟩ := Option.bind_eq_some_iff.mp hr
      exact hboard _ hk
  | cardMember member =>
      obtain ⟨_, -, hk⟩ := Option.bind_eq_some_iff.mp hr
      exact hcard _ hk

/-! ## Writing one row -/

/-- Insert or replace a row. -/
def set (t : Tables pg) : (r : Record) → r.Content pg → Tables pg
  | .organization k, x => { t with organizations := t.organizations.insert k x }
  | .user k, x => { t with users := t.users.insert k x }
  | .synced _ k, x => t.withDatabase (t.database.put k x)
  | .comment k, x => { t with comments := t.comments.insert k x }
  | .boardMember member, x => { t with boardMembers := t.boardMembers.insert member x }
  | .cardMember member, x => { t with cardMembers := t.cardMembers.insert member x }

theorem state_set_self (t : Tables pg) (r : Record) (x : r.Content pg) :
    (t.set r x).state r = some x := by
  cases r with
  | synced c k => exact ((t.database.find_put k k x).trans (if_pos rfl))
  | organization k => exact AList.lookup_insert _
  | user k => exact AList.lookup_insert _
  | comment k => exact AList.lookup_insert _
  | boardMember member => exact AList.lookup_insert _
  | cardMember member => exact AList.lookup_insert _

theorem state_set_of_ne (t : Tables pg) {r s : Record} (x : r.Content pg) (h : s ≠ r) :
    (t.set r x).state s = t.state s := by
  cases r with
  | synced c k =>
      cases s with
      | synced c' k' =>
          by_cases hc : c' = c
          · subst hc
            exact (t.database.find_put k k' x).trans (if_neg fun hk : k' = k => h (by rw [hk]))
          · exact t.database.find_put_of_ne k k' x hc
      | _ => rfl
  | organization k =>
      cases s with
      | organization k' => exact AList.lookup_insert_ne fun hk => h (hk ▸ rfl)
      | _ => rfl
  | user k =>
      cases s with
      | user k' => exact AList.lookup_insert_ne fun hk => h (hk ▸ rfl)
      | _ => rfl
  | comment k =>
      cases s with
      | comment k' => exact AList.lookup_insert_ne fun hk => h (hk ▸ rfl)
      | _ => rfl
  | boardMember member =>
      cases s with
      | boardMember member' => exact AList.lookup_insert_ne fun hk => h (hk ▸ rfl)
      | _ => rfl
  | cardMember member =>
      cases s with
      | cardMember member' => exact AList.lookup_insert_ne fun hk => h (congrArg _ hk)
      | _ => rfl

/-- A row that is written leaves the rows above it in their organizations. -/
theorem orgOf_set_of_rank (t : Tables pg) {r s : Record} (x : r.Content pg)
    (h : s.rank < r.rank) : (t.set r x).orgOf s = t.orgOf s := by
  refine @Schema.owner_eq_of_closed _ _ _ (ownership pg) t.state (t.set r x).state
    (fun s => s.rank < r.rank) (fun s hs => Or.inl ?_) ?_ _ h
  · exact t.state_set_of_ne x (by rintro rfl; exact lt_irrefl _ hs)
  · intro s _ s' hs _ hrefers
    exact (Record.rank_lt hrefers).trans hs

end Tables

/-- The row that gives a row its organization. -/
def Record.above : (r : Record) → r.Content pg → Option Record
  | .organization _, _ => none
  | .user _, row => some (.organization (User.orgId row))
  | .synced c _, row => (Row.text row (parentProperty c)).map fun p => Record.parent p c
  | .comment _, row => some (.synced .cards (Comment.cardId row))
  | .boardMember member, _ => some (.synced .boards member.1)
  | .cardMember member, _ => some (.synced .cards member.1)

theorem Record.refers_above {x : r.Content pg} (h : r.above x = some s) : r.Refers x s := by
  cases r with
  | organization k => cases h
  | user k =>
      obtain rfl := Option.some.inj h
      exact .employer k x
  | synced c k =>
      obtain ⟨p, hp, rfl⟩ := Option.map_eq_some_iff.mp h
      exact .parent hp
  | comment k =>
      obtain rfl := Option.some.inj h
      exact .card k x
  | boardMember member =>
      obtain rfl := Option.some.inj h
      exact .boardOf member x
  | cardMember member =>
      obtain rfl := Option.some.inj h
      exact .cardOf member x

namespace Tables

theorem orgOf_above {x : r.Content pg} {o : JsString} (hr : t.state r = some x)
    (habove : r.above x = some s) (hs : t.orgOf s = some o) : t.orgOf r = some o := by
  cases r with
  | organization k => cases habove
  | user k =>
      obtain rfl := Option.some.inj habove
      obtain ⟨_, -, rfl⟩ := Option.map_eq_some_iff.mp hs
      exact Option.map_eq_some_iff.mpr ⟨x, hr, rfl⟩
  | synced c k =>
      obtain ⟨p, hp, rfl⟩ := Option.map_eq_some_iff.mp habove
      rw [orgOf_synced]
      refine Option.bind_eq_some_iff.mpr ⟨x, hr, Option.bind_eq_some_iff.mpr ⟨p, hp, ?_⟩⟩
      cases c with
      | boards =>
          obtain ⟨_, -, rfl⟩ := Option.map_eq_some_iff.mp hs
          rfl
      | lists => exact hs
      | cards => exact hs
  | comment k =>
      obtain rfl := Option.some.inj habove
      exact Option.bind_eq_some_iff.mpr ⟨x, hr, hs⟩
  | boardMember member =>
      obtain rfl := Option.some.inj habove
      exact Option.bind_eq_some_iff.mpr ⟨x, hr, hs⟩
  | cardMember member =>
      obtain rfl := Option.some.inj habove
      exact Option.bind_eq_some_iff.mpr ⟨x, hr, hs⟩

/-- What a write keeps: the tables stay coherent, and the rows of other organizations stay
as they are. -/
def Within (orgId : JsString) (t t' : Tables pg) : Prop :=
  t.Coherent → t'.Coherent ∧ ∀ o, o ≠ orgId → Untouched o t t'

theorem Within.refl (orgId : JsString) (t : Tables pg) : Within orgId t t :=
  fun h => ⟨h, fun o _ => Schema.Untouched.refl o t.state⟩

theorem Within.trans {t'' : Tables pg} {orgId : JsString} (h : Within orgId t t')
    (h' : Within orgId t' t'') : Within orgId t t'' := by
  intro hc
  obtain ⟨hc', hkept⟩ := h hc
  obtain ⟨hc'', hkept'⟩ := h' hc'
  exact ⟨hc'', fun o ho => (hkept o ho).trans (hkept' o ho)⟩

/-- A row that refers to rows of the organization only, written over one of the
organization or a new one. -/
theorem within_set {x : r.Content pg} {orgId : JsString} (habove : (r.above x).isSome = true)
    (hbefore : ∀ o, t.orgOf r = some o → o = orgId)
    (hrefs : ∀ s, r.Refers x s → t.orgOf s = some orgId) : Within orgId t (t.set r x) := by
  intro hc
  have hafter : ∀ s, r.Refers x s → (t.set r x).orgOf s = some orgId := by
    intro s hs
    rw [t.orgOf_set_of_rank x (Record.rank_lt hs)]
    exact hrefs s hs
  have hwrites : Schema.Writes (ownership pg) orgId t.state (t.set r x).state r := by
    refine ⟨fun s hs => t.state_set_of_ne x hs, hbefore, ?_, fun y s hy hs => hafter s ?_⟩
    · obtain ⟨s, hs⟩ := Option.isSome_iff_exists.mp habove
      exact orgOf_above (t.state_set_self r x) hs (hafter s (Record.refers_above hs))
    · obtain rfl := Option.some.inj ((t.state_set_self r x).symm.trans hy)
      exact hs
  exact ⟨hwrites.coherent hc, fun o ho => hwrites.untouched hc ho⟩

/-- The row of an organization is its own. -/
theorem within_setOrganization (t : Tables pg) (k : JsString) (x : Organization) :
    Within k t (t.set (.organization k) x) := by
  intro hc
  have hwrites : Schema.Writes (ownership pg) k t.state (t.set (.organization k) x).state
      (.organization k) := by
    refine ⟨fun s hs => @state_set_of_ne pg t (.organization k) s x hs, fun o ho => ?_, ?_, nofun⟩
    · obtain ⟨_, -, rfl⟩ := Option.map_eq_some_iff.mp ho
      rfl
    · exact Option.map_eq_some_iff.mpr ⟨x, t.state_set_self (.organization k) x, rfl⟩
  exact ⟨hwrites.coherent hc, fun o ho => hwrites.untouched hc ho⟩

end Tables

end FlowLogix.Server
