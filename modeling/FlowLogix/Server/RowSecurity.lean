/-
  Server/RowSecurity.lean --- the row-level security policies
  (EnableRlsAndTriggers, AlignRlsTenantSetting and EnableRlsOnListsCardsComments under
  backend/src/database/migrations).

  A policy lets a statement see and write the rows of the tenant its connection is set to:
  a board by its organization, a list, a card or a comment when its parent is visible.
  What the policies let through is exactly what `Tables.orgOf` gives that organization, so
  a statement on these tables reads nothing else and leaves every other organization's rows
  alone, whatever its own conditions say.  Foreign keys and their cascades are checked
  without the policies.
-/
import FlowLogix.Server.Cascades

set_option autoImplicit false

namespace FlowLogix.Server

open FlowLogix.Foundation

variable {pg : Postgres}

/-! ## The policies -/

/-- `current_setting('app.current_tenant_id', true)::uuid`. -/
def currentTenant (pg : Postgres) : Option JsString → Except Failure (Option JsString)
  | none => .ok none
  | some setting => (Database.key pg setting).map some

/-- The policy on boards. -/
def boardsPolicy (tenant : Option JsString) (row : Row pg .boards) : Bool :=
  tenant.any fun o => row.text "orgId" = some o

/-- `EXISTS (SELECT 1 FROM parents p WHERE p.id = fk)`, where the parents have a policy
themselves. -/
def membership {α : Type} (parents : Dict JsString α) (policy : α → Bool)
    (fk : Option JsString) : Bool :=
  fk.any fun k => (parents.lookup k).any policy

/-- The policy on lists. -/
def listsPolicy (t : Tables pg) (tenant : Option JsString) (row : Row pg .lists) : Bool :=
  membership (t.table .boards) (boardsPolicy tenant) (row.text "boardId")

/-- The policy on cards. -/
def cardsPolicy (t : Tables pg) (tenant : Option JsString) (row : Row pg .cards) : Bool :=
  membership (t.table .lists) (listsPolicy t tenant) (row.text "listId")

/-- The policy on comments. -/
def commentsPolicy (t : Tables pg) (tenant : Option JsString) (row : Comment) : Bool :=
  membership (t.table .cards) (cardsPolicy t tenant) (some row.cardId)

/-- The tables with row-level security. -/
def Record.secured : Record → Bool
  | .synced _ _ => true
  | .comment _ => true
  | _ => false

/-- Whether a row may be seen and written. -/
def policy (t : Tables pg) (tenant : Option JsString) : (r : Record) → r.Content pg → Bool
  | .synced .boards _, row => boardsPolicy tenant row
  | .synced .lists _, row => listsPolicy t tenant row
  | .synced .cards _, row => cardsPolicy t tenant row
  | .comment _, row => commentsPolicy t tenant row
  | _, _ => true

namespace Tables

/-- The tables as the policies show them. -/
def seen (t : Tables pg) (tenant : Option JsString) : Tables pg :=
  { t with
    table := fun c => (t.table c).removeWhere fun k row => !policy t tenant (.synced c k) row
    comments := t.comments.removeWhere fun k row => !policy t tenant (.comment k) row }

end Tables

/-! ## Statements -/

/-- The rows the foreign keys of a secured row name. -/
def Record.references : (r : Record) → r.Content pg → List Record
  | .synced c _, row =>
      ((Row.text row (parentProperty c)).map fun p => Record.parent p c).toList ++
        if c = .boards then ((Row.text row "createdBy").map Record.user).toList else []
  | .comment _, row => [.synced .cards (Comment.cardId row), .user (Comment.userId row)]
  | _, _ => []

/-- A statement on the tables with row-level security. A condition is one of its own, that
the policy is added to. -/
inductive SecuredStatement (pg : Postgres) where
  | select
  | insert (r : Record) (h : r.secured = true) (x : r.Content pg)
  | update (r : Record) (h : r.secured = true) (x : r.Content pg)
  | deleteBoards (p : JsString → Row pg .boards → Bool)
  | deleteLists (p : JsString → Row pg .lists → Bool)
  | deleteCards (p : JsString → Row pg .cards → Bool)
  | deleteComments (p : JsString → Comment → Bool)

namespace SecuredStatement

/-- A row as a statement writes it: `WITH CHECK` and the foreign keys. -/
def write (t : Tables pg) (tenant : Option JsString) (r : Record) (x : r.Content pg) :
    Except Failure (Tables pg) :=
  if policy t tenant r x = true ∧ ∀ s ∈ r.references x, (t.state s).isSome = true then
    .ok (t.set r x)
  else .error .rejectedStatement

/-- The tables after a statement for a tenant. -/
def effect (t : Tables pg) (tenant : Option JsString) :
    SecuredStatement pg → Except Failure (Tables pg)
  | .select => .ok t
  | .insert r _ x =>
      if (t.state r).isSome then .error .rejectedStatement else write t tenant r x
  | .update r _ x =>
      if (t.state r).any (policy t tenant r) then write t tenant r x else .ok t
  | .deleteBoards p => .ok (t.removeBoards fun k row => boardsPolicy tenant row && p k row)
  | .deleteLists p => .ok (t.removeLists fun k row => listsPolicy t tenant row && p k row)
  | .deleteCards p => .ok (t.removeCards fun k row => cardsPolicy t tenant row && p k row)
  | .deleteComments p =>
      .ok { t with comments := t.comments.removeWhere fun k row =>
        commentsPolicy t tenant row && p k row }

/-- What a statement reads, and the tables after it. -/
def run (s : SecuredStatement pg) (t : Tables pg) (setting : Option JsString) :
    Except Failure (Tables pg × Tables pg) := do
  let tenant ← currentTenant pg setting
  let t' ← s.effect t tenant
  return (t.seen tenant, t')

end SecuredStatement

/-! ## What the policies let through -/

variable {t t' : Tables pg} {o o' : JsString} {r : Record}

/-- The organization a row belongs to by its content. -/
def Tables.ownerOf (t : Tables pg) : (r : Record) → r.Content pg → Option JsString
  | .organization k, _ => some k
  | .user _, row => some (User.orgId row)
  | .synced .boards _, row => Row.text row "orgId"
  | r, x => (r.above x).bind t.orgOf

namespace Tables

theorem orgOf_eq_ownerOf {x : r.Content pg} (h : t.state r = some x) :
    t.orgOf r = t.ownerOf r x := by
  have hchain : ∀ {α : Type} {found : Option α} {a : α} {p : α → Option JsString}
      {owner : JsString → Option JsString} {above : JsString → Record},
      found = some a → (∀ k, t.orgOf (above k) = owner k) →
        (found.bind p).bind owner = ((p a).map above).bind t.orgOf := by
    intro α found a p owner above hfound howner
    rw [hfound, Option.bind_some]
    cases p a with
    | none => rfl
    | some k => exact (howner k).symm
  cases r with
  | organization k => exact congrArg (Option.map fun _ => k) h
  | user k => exact congrArg (Option.map User.orgId) h
  | synced c k =>
      cases c with
      | boards => exact congrArg (Option.bind · fun row : Row pg .boards => row.text "orgId") h
      | lists => exact hchain h fun _ => rfl
      | cards => exact hchain h fun _ => rfl
  | comment k => exact congrArg (Option.bind · fun row : Comment => cardOwner t.state row.cardId) h
  | boardMember member =>
      exact congrArg (Option.bind · fun _ : BoardMemberRole => boardOwner t.state member.1) h
  | cardMember member =>
      exact congrArg (Option.bind · fun _ : Unit => cardOwner t.state member.1) h

end Tables

theorem boardsPolicy_eq_true {row : Row pg .boards} :
    boardsPolicy (some o) row = true ↔ row.text "orgId" = some o :=
  decide_eq_true_iff

/-- Where a policy on the parents shows those of an organization, the rows under them are
shown by their own organization. -/
theorem membership_eq_true {α : Type} {parents : Dict JsString α} {shown : α → Bool}
    {owner : JsString → Option JsString}
    (h : ∀ k x, parents.lookup k = some x → (shown x = true ↔ owner k = some o))
    (hnone : ∀ k, owner k = some o → ∃ x, parents.lookup k = some x) {fk : Option JsString} :
    membership parents shown fk = true ↔ fk.bind owner = some o := by
  rw [membership, Option.any_eq_true, Option.bind_eq_some_iff]
  constructor
  · rintro ⟨k, hk, hshown⟩
    obtain ⟨x, hx, hshown⟩ := (Option.any_eq_true _ _).mp hshown
    exact ⟨k, hk, (h k x hx).mp hshown⟩
  · rintro ⟨k, hk, howner⟩
    obtain ⟨x, hx⟩ := hnone k howner
    exact ⟨k, hk, (Option.any_eq_true _ _).mpr ⟨x, hx, (h k x hx).mpr howner⟩⟩

theorem orgOf_exists (h : t.orgOf r = some o) : ∃ x, t.state r = some x :=
  (ownership pg).exists_content t.state r o h

theorem listsPolicy_eq_true {k : JsString} {row : Row pg .lists} :
    listsPolicy t (some o) row = true ↔ t.ownerOf (.synced .lists k) row = some o := by
  have hparents := @membership_eq_true o _ (t.table .boards) (boardsPolicy (some o))
    (fun b => t.orgOf (.synced .boards b)) (fun b board hb => ?_) (fun b hb => orgOf_exists hb)
    (row.text "boardId")
  · rw [listsPolicy, hparents]
    exact iff_of_eq (congrArg (· = some o) (Option.bind_map ..).symm)
  · have hrow : t.state (.synced .boards b) = some board := hb
    rw [Tables.orgOf_eq_ownerOf hrow]
    exact boardsPolicy_eq_true

theorem cardsPolicy_eq_true {k : JsString} {row : Row pg .cards} :
    cardsPolicy t (some o) row = true ↔ t.ownerOf (.synced .cards k) row = some o := by
  have hparents := @membership_eq_true o _ (t.table .lists) (listsPolicy t (some o))
    (fun l => t.orgOf (.synced .lists l)) (fun l list hl => ?_) (fun l hl => orgOf_exists hl)
    (row.text "listId")
  · rw [cardsPolicy, hparents]
    exact iff_of_eq (congrArg (· = some o) (Option.bind_map ..).symm)
  · have hrow : t.state (.synced .lists l) = some list := hl
    rw [Tables.orgOf_eq_ownerOf hrow]
    exact listsPolicy_eq_true

theorem commentsPolicy_eq_true {k : JsString} {row : Comment} :
    commentsPolicy t (some o) row = true ↔ t.ownerOf (.comment k) row = some o := by
  have hparents := @membership_eq_true o _ (t.table .cards) (cardsPolicy t (some o))
    (fun c => t.orgOf (.synced .cards c)) (fun c card hc => ?_) (fun c hc => orgOf_exists hc)
    (some row.cardId)
  · exact hparents
  · have hrow : t.state (.synced .cards c) = some card := hc
    rw [Tables.orgOf_eq_ownerOf hrow]
    exact cardsPolicy_eq_true

/-- **The policies are the organization.** -/
theorem policy_eq_true (h : r.secured = true) {x : r.Content pg} :
    policy t (some o) r x = true ↔ t.ownerOf r x = some o := by
  cases r with
  | synced c k =>
      cases c with
      | boards => exact boardsPolicy_eq_true
      | lists => exact listsPolicy_eq_true
      | cards => exact cardsPolicy_eq_true
  | comment k => exact commentsPolicy_eq_true
  | _ => cases h

theorem policy_none (t : Tables pg) (h : r.secured = true) (x : r.Content pg) :
    policy t none r x = false := by
  have hnone : ∀ {α : Type} {parents : Dict JsString α} {shown : α → Bool} {fk : Option JsString},
      (∀ row, shown row = false) → membership parents shown fk = false := by
    intro α parents shown fk hshown
    obtain rfl : shown = fun _ => false := funext hshown
    cases fk with
    | none => rfl
    | some k => rw [membership, Option.any_some, Option.any_false]
  have hboards : ∀ row : Row pg .boards, boardsPolicy none row = false := fun row => rfl
  have hlists : ∀ row, listsPolicy t none row = false := fun row => hnone hboards
  have hcards : ∀ row, cardsPolicy t none row = false := fun row => hnone hlists
  cases r with
  | synced c k =>
      cases c with
      | boards => exact hboards x
      | lists => exact hlists x
      | cards => exact hcards x
  | comment k =>
      show membership _ (cardsPolicy t none) (some (Comment.cardId x)) = false
      exact hnone hcards
  | _ => cases h

/-! ## What a statement sees -/

namespace Tables

theorem state_seen (t : Tables pg) (tenant : Option JsString) (h : r.secured = true) :
    (t.seen tenant).state r = (t.state r).filter (policy t tenant r) := by
  cases r with
  | synced c k => exact (Dict.lookup_removeWhere ..).trans (by simp only [Bool.not_not]; rfl)
  | comment k => exact (Dict.lookup_removeWhere ..).trans (by simp only [Bool.not_not]; rfl)
  | _ => cases h

theorem state_seen_some (t : Tables pg) (o : JsString) (h : r.secured = true) :
    (t.seen (some o)).state r = if t.orgOf r = some o then t.state r else none := by
  rw [state_seen t _ h]
  cases hr : t.state r with
  | none => exact (ite_self _).symm
  | some x =>
      rw [orgOf_eq_ownerOf hr]
      exact Option.filter_some.trans (if_congr (policy_eq_true h) rfl rfl)

theorem state_seen_none (t : Tables pg) (h : r.secured = true) :
    (t.seen none).state r = none := by
  rw [state_seen t _ h]
  refine Option.filter_eq_none_iff.mpr fun x _ => ?_
  rw [policy_none t h]
  exact Bool.false_ne_true

/-! ## What a statement leaves -/

/-- Only rows of an organization change, or become rows of it. -/
structure OnlyOf (o : JsString) (t t' : Tables pg) : Prop where
  others : ∀ o', o' ≠ o → Untouched o' t t'
  changed : ∀ r, t'.state r = t.state r ∨ t'.state r = none ∨ t'.orgOf r = some o

theorem OnlyOf.refl (o : JsString) (t : Tables pg) : OnlyOf o t t where
  others o' _ := Schema.Untouched.refl o' t.state
  changed _ := Or.inl rfl

theorem ownerOf_of_above {x : r.Content pg}
    (h : ∀ s, r.above x = some s → t.orgOf s = some o → t'.orgOf s = some o)
    (howner : t.ownerOf r x = some o) : t'.ownerOf r x = some o := by
  have hchain : (r.above x).bind t.orgOf = some o → (r.above x).bind t'.orgOf = some o := by
    intro hbind
    obtain ⟨s, hs, hso⟩ := Option.bind_eq_some_iff.mp hbind
    exact Option.bind_eq_some_iff.mpr ⟨s, hs, h s hs hso⟩
  cases r with
  | organization k => exact howner
  | user k => exact howner
  | synced c k =>
      cases c with
      | boards => exact howner
      | lists => exact hchain howner
      | cards => exact hchain howner
  | _ => exact hchain howner

/-- A write over a row of the organization, or a new one, leaves the others alone. -/
theorem untouched_set {x : r.Content pg} (hbefore : ∀ o', t.orgOf r = some o' → o' = o)
    (ho : o' ≠ o) : Untouched o' t (t.set r x) := by
  have hsame : ∀ s, t.orgOf s = some o' → (t.set r x).state s = t.state s := by
    intro s hs
    refine t.state_set_of_ne x ?_
    rintro rfl
    exact ho (hbefore o' hs)
  -- up the chain of foreign keys, which stays in the other organization
  have howner : ∀ n, ∀ s : Record, s.rank = n → t.orgOf s = some o' →
      (t.set r x).orgOf s = some o' := by
    intro n
    induction n using Nat.strong_induction_on with
    | _ n ih =>
        intro s hn hs
        obtain ⟨y, hy⟩ := orgOf_exists hs
        rw [orgOf_eq_ownerOf ((hsame s hs).trans hy)]
        refine ownerOf_of_above (fun p hp hpo => ?_) (orgOf_eq_ownerOf hy ▸ hs)
        exact ih p.rank (hn ▸ Record.rank_lt (Record.refers_above hp)) p rfl hpo
  exact fun s hs => ⟨hsame s hs, howner s.rank s rfl hs⟩

/-- A row that the policy admits is written. -/
theorem onlyOf_set {x : r.Content pg} (hbefore : ∀ o', t.orgOf r = some o' → o' = o)
    (howner : t.ownerOf r x = some o) : OnlyOf o t (t.set r x) where
  others o' ho := untouched_set hbefore ho
  changed s := by
    by_cases hs : s = r
    · subst hs
      rw [orgOf_eq_ownerOf (t.state_set_self s x)]
      refine Or.inr (Or.inr (ownerOf_of_above (fun p hp hpo => ?_) howner))
      rw [t.orgOf_set_of_rank x (Record.rank_lt (Record.refers_above hp))]
      exact hpo
    · exact Or.inl (t.state_set_of_ne x hs)

/-- Rows of the organization are deleted, with all that refer to them. -/
theorem onlyOf_drops {gone : Record → Prop} (h : Schema.Drops t.state t'.state gone)
    (hgone : ∀ r, gone r → t.orgOf r = some o) : OnlyOf o t t' where
  others o' ho := h.untouched fun r hr heq =>
    ho (Option.some.inj (heq.symm.trans (hgone r hr)))
  changed r := by
    by_cases hr : gone r
    · exact Or.inr (Or.inl (h.dropped r hr))
    · exact Or.inl (h.kept r hr)

namespace Deletion

variable {d : Deletion pg}

/-- Without users, all that goes with rows of the organization is its own. -/
theorem OwnedBy.falls_of_users (h : d.OwnedBy t o) (husers : ∀ k, d.user t k = false)
    (hr : d.falls t r = true) : t.orgOf r = some o := by
  cases r with
  | organization k => cases hr
  | user k => exact h.user hr
  | synced c k =>
      cases c with
      | boards => exact h.board hr
      | lists => exact h.list hr
      | cards => exact h.card hr
  | comment k =>
      obtain ⟨row, hrow, hd⟩ := comment_eq_true.mp hr
      rw [husers] at hd
      exact orgOf_above hrow rfl (h.card (hd.resolve_right Bool.false_ne_true))
  | boardMember m =>
      obtain ⟨row, hrow, hd⟩ := boardMember_eq_true.mp hr
      rw [husers] at hd
      exact orgOf_above hrow rfl (h.board (hd.resolve_right Bool.false_ne_true))
  | cardMember m =>
      obtain ⟨row, hrow, hd⟩ := cardMember_eq_true.mp hr
      rw [husers] at hd
      exact orgOf_above hrow rfl (h.card (hd.resolve_right Bool.false_ne_true))

theorem Deletes.onlyOf (h : d.Deletes t t') (hown : d.OwnedBy t o)
    (husers : ∀ k, d.user t k = false) : OnlyOf o t t' := by
  refine onlyOf_drops ⟨fun r hr => (h.state r).trans (if_neg hr),
    fun r hr => (h.state r).trans (if_pos hr), fun r x s hx hrefers hs => ?_⟩
    fun r hr => hown.falls_of_users husers hr
  exact falls_of_refers hx hrefers hs fun _ _ u _ _ => husers u

/-- A deletion whose rows would belong to every organization deletes nothing. -/
theorem Deletes.state_eq (h : d.Deletes t t') (hown : ∀ o, d.OwnedBy t o)
    (husers : ∀ k, d.user t k = false) : t'.state = t.state := by
  funext r
  refine (h.state r).trans (if_neg fun hr => ?_)
  have hone := (hown []).falls_of_users husers hr
  have hother := (hown [0]).falls_of_users husers hr
  cases hone.symm.trans hother

end Deletion

end Tables

/-! ## Statements of a tenant -/

namespace SecuredStatement

open Tables

theorem write_eq_ok {tenant : Option JsString} {x : r.Content pg}
    (h : write t tenant r x = .ok t') : policy t tenant r x = true ∧ t' = t.set r x := by
  unfold write at h
  split at h
  · rename_i hadmitted
    exact ⟨hadmitted.1, (Except.ok.inj h).symm⟩
  · cases h

/-- Written over nothing or over a row that is shown, a row of the tenant is all that
changes. -/
theorem onlyOf_write {x : r.Content pg} (hsecured : r.secured = true)
    (hbefore : ∀ o', t.orgOf r = some o' → o' = o) (h : write t (some o) r x = .ok t') :
    OnlyOf o t t' := by
  obtain ⟨hpolicy, rfl⟩ := write_eq_ok h
  exact onlyOf_set hbefore ((policy_eq_true hsecured).mp hpolicy)

theorem onlyOf_deleteComments (p : JsString → Comment → Bool)
    (hp : ∀ k row, t.comments.lookup k = some row → p k row = true →
      t.orgOf (.comment k) = some o) :
    OnlyOf o t { t with comments := t.comments.removeWhere p } := by
  have hgone : ∀ k, (t.comments.removeWhere p).lookup k =
      if gone t.comments p k then none else t.comments.lookup k := lookup_removeWhere_gone _ p
  have hdrops : Schema.Drops t.state
      { t with comments := t.comments.removeWhere p : Tables pg }.state
      fun r => ∃ k, r = .comment k ∧ gone t.comments p k = true := by
    refine ⟨fun r hr => ?_, ?_, ?_⟩
    · cases r with
      | comment k => exact (hgone k).trans (if_neg fun hk => hr ⟨k, rfl, hk⟩)
      | _ => rfl
    · rintro r ⟨k, rfl, hk⟩
      exact (hgone k).trans (if_pos hk)
    · rintro r x s - hrefers ⟨k, rfl, -⟩
      exact absurd hrefers (not_refers_comment r x)
  refine onlyOf_drops hdrops ?_
  rintro r ⟨k, rfl, hk⟩
  obtain ⟨row, hrow, hdeleted⟩ := gone_eq_true.mp hk
  exact hp k row hrow hdeleted

/-- A condition with the policy added names rows of the tenant only. -/
theorem orgOf_of_policy {x : r.Content pg} (hsecured : r.secured = true) {q : Bool}
    (hrow : t.state r = some x) (h : (policy t (some o) r x && q) = true) :
    t.orgOf r = some o := by
  rw [orgOf_eq_ownerOf hrow]
  exact (policy_eq_true hsecured).mp (Bool.and_eq_true_iff.mp h).1

/-- **A statement for a tenant changes the tenant's rows only.** -/
theorem onlyOf_effect {s : SecuredStatement pg} (h : s.effect t (some o) = .ok t') :
    OnlyOf o t t' := by
  have husers : ∀ k, gone t.users (fun _ _ => false) k = false := congrFun (gone_false t.users)
  cases s with
  | select =>
      obtain rfl := Except.ok.inj h
      exact .refl o t
  | insert r hsecured x =>
      simp only [effect] at h
      split at h
      · cases h
      · rename_i hfree
        refine onlyOf_write hsecured (fun o' ho => ?_) h
        obtain ⟨y, hy⟩ := orgOf_exists ho
        exact absurd (Option.isSome_of_eq_some hy) hfree
  | update r hsecured x =>
      simp only [effect] at h
      split at h
      · rename_i hshown
        obtain ⟨y, hy, hpolicy⟩ := (Option.any_eq_true _ _).mp hshown
        refine onlyOf_write hsecured (fun o' ho => ?_) h
        rw [orgOf_eq_ownerOf hy, (policy_eq_true hsecured).mp hpolicy] at ho
        exact (Option.some.inj ho).symm
      · obtain rfl := Except.ok.inj h
        exact .refl o t
  | deleteBoards p =>
      obtain rfl := Except.ok.inj h
      refine (deletes_removeBoards t _).onlyOf ⟨nofun, fun k row hrow hp => ?_, nofun, nofun⟩ husers
      exact @orgOf_of_policy pg t o (.synced .boards k) row rfl _ hrow hp
  | deleteLists p =>
      obtain rfl := Except.ok.inj h
      refine (deletes_removeLists t _).onlyOf ⟨nofun, nofun, fun k row hrow hp => ?_, nofun⟩ husers
      exact @orgOf_of_policy pg t o (.synced .lists k) row rfl _ hrow hp
  | deleteCards p =>
      obtain rfl := Except.ok.inj h
      refine (deletes_removeCards t _).onlyOf ⟨nofun, nofun, nofun, fun k row hrow hp => ?_⟩ husers
      exact @orgOf_of_policy pg t o (.synced .cards k) row rfl _ hrow hp
  | deleteComments p =>
      obtain rfl := Except.ok.inj h
      refine onlyOf_deleteComments _ fun k row hrow hp => ?_
      exact @orgOf_of_policy pg t o (.comment k) row rfl _ hrow hp

/-- A statement for no tenant changes nothing. -/
theorem state_effect_none {s : SecuredStatement pg} (h : s.effect t none = .ok t') :
    t'.state = t.state := by
  have husers : ∀ k, gone t.users (fun _ _ => false) k = false := congrFun (gone_false t.users)
  have hnot : ∀ (r : Record) (x : r.Content pg) (q : Bool), r.secured = true →
      (policy t none r x && q) ≠ true := by
    intro r x q hsecured hp
    rw [policy_none t hsecured] at hp
    cases hp
  have hwrite : ∀ {r : Record} {x : r.Content pg}, r.secured = true →
      write t none r x = .ok t' → t'.state = t.state := by
    intro r x hsecured hwritten
    have hpolicy := (write_eq_ok hwritten).1
    rw [policy_none t hsecured] at hpolicy
    cases hpolicy
  cases s with
  | select => rw [← Except.ok.inj h]
  | insert r hsecured x =>
      simp only [effect] at h
      split at h
      · cases h
      · exact hwrite hsecured h
  | update r hsecured x =>
      simp only [effect] at h
      split at h
      · exact hwrite hsecured h
      · rw [← Except.ok.inj h]
  | deleteBoards p =>
      obtain rfl := Except.ok.inj h
      refine (deletes_removeBoards t _).state_eq
        (fun o => ⟨nofun, fun k row hrow hp => ?_, nofun, nofun⟩) husers
      exact absurd hp (hnot (.synced .boards k) row (p k row) rfl)
  | deleteLists p =>
      obtain rfl := Except.ok.inj h
      refine (deletes_removeLists t _).state_eq
        (fun o => ⟨nofun, nofun, fun k row hrow hp => ?_, nofun⟩) husers
      exact absurd hp (hnot (.synced .lists k) row (p k row) rfl)
  | deleteCards p =>
      obtain rfl := Except.ok.inj h
      refine (deletes_removeCards t _).state_eq
        (fun o => ⟨nofun, nofun, nofun, fun k row hrow hp => ?_⟩) husers
      exact absurd hp (hnot (.synced .cards k) row (p k row) rfl)
  | deleteComments p =>
      obtain rfl := Except.ok.inj h
      funext r
      cases r with
      | comment k =>
          have hkept : ∀ row, (!(commentsPolicy t none row && p k row)) = true := fun row =>
            Bool.not_eq_true' _ ▸ Bool.eq_false_iff.mpr (hnot (.comment k) row (p k row) rfl)
          refine (Dict.lookup_removeWhere ..).trans ?_
          cases hrow : t.comments.lookup k with
          | none => exact hrow.symm
          | some row =>
              rw [Option.filter_some, if_pos (hkept row)]
              exact hrow.symm
      | _ => rfl

/-- What a statement reads and changes when its connection is set to a tenant, or to
none. -/
structure Confined (tenant : Option JsString) (t seen t' : Tables pg) : Prop where
  read : ∀ r : Record, r.secured = true → seen.state r =
    if tenant.isSome = true ∧ t.orgOf r = tenant then t.state r else none
  others : ∀ o, tenant ≠ some o → Tables.Untouched o t t'
  changed : ∀ r, t'.state r = t.state r ∨
    tenant.isSome = true ∧ (t'.state r = none ∨ t'.orgOf r = tenant)

/-- **Every statement is confined to the tenant of its connection.** -/
theorem confined_run {s : SecuredStatement pg} {setting : Option JsString} {seen : Tables pg}
    (h : s.run t setting = .ok (seen, t')) :
    ∃ tenant, currentTenant pg setting = .ok tenant ∧ Confined tenant t seen t' := by
  obtain ⟨tenant, htenant, h⟩ := bind_eq_ok.mp h
  obtain ⟨after, heffect, h⟩ := bind_eq_ok.mp h
  obtain ⟨rfl, rfl⟩ := Prod.mk.inj (Except.ok.inj h)
  refine ⟨tenant, htenant, ?_⟩
  cases tenant with
  | none =>
      have hstate := state_effect_none heffect
      refine ⟨fun r hr => ?_, fun o _ => ?_, fun r => Or.inl (congrFun hstate r)⟩
      · rw [state_seen_none t hr, if_neg fun hnone => Bool.false_ne_true hnone.1]
      · show Schema.Untouched (ownership pg) o t.state after.state
        rw [hstate]
        exact .refl o t.state
  | some o =>
      have honly := onlyOf_effect heffect
      refine ⟨fun r hr => ?_, fun o' ho => ?_, fun r => ?_⟩
      · rw [state_seen_some t o hr]
        exact if_congr (and_iff_right rfl).symm rfl rfl
      · exact honly.others o' fun heq => ho (congrArg some heq.symm)
      · exact (honly.changed r).imp id fun hr => ⟨rfl, hr⟩

end SecuredStatement

end FlowLogix.Server
