/-
  Server/SyncRun.lean --- histories of committed sync requests.

  A request that fails leaves no trace, so a history is the list of the requests
  that committed, each with the state it found and the result it left.
-/
import FlowLogix.Server.SyncEffects

set_option autoImplicit false

namespace FlowLogix.Server

open FlowLogix.Foundation

variable {pg : Postgres} {orgId : JsString}

/-- A committed request of an organization. -/
structure SyncStep (pg : Postgres) (orgId : JsString) where
  before : ServerState pg
  now : Nat
  req : SyncRequestDto
  result : SyncResult pg
  committed : sync orgId now before req = .ok result

/-- A request that commits, as a step. -/
def SyncStep.of (before : ServerState pg) (now : Nat) (req : SyncRequestDto)
    (h : (sync orgId now before req).isOk = true) : SyncStep pg orgId where
  before := before
  now := now
  req := req
  result := okOr (sync orgId now before req) ⟨before, ⟨[], 0, []⟩, []⟩
  committed := eq_ok_okOr h

theorem SyncStep.before_of {before : ServerState pg} {now : Nat} {req : SyncRequestDto}
    {h : (sync orgId now before req).isOk = true} :
    (SyncStep.of before now req h).before = before :=
  rfl

theorem SyncStep.req_of {before : ServerState pg} {now : Nat} {req : SyncRequestDto}
    {h : (sync orgId now before req).isOk = true} : (SyncStep.of before now req h).req = req :=
  rfl

/-- Consecutive requests, from a state on. -/
def IsRun : ServerState pg → List (SyncStep pg orgId) → Prop
  | _, [] => True
  | server, step :: rest => step.before = server ∧ IsRun step.result.server rest

/-- The requests after one of a run, from the state it left on. -/
theorem IsRun.after {server : ServerState pg} {pre post : List (SyncStep pg orgId)}
    {step : SyncStep pg orgId} (h : IsRun server (pre ++ step :: post)) :
    IsRun step.result.server post := by
  induction pre generalizing server with
  | nil => exact h.2
  | cons _ rest ih => exact ih h.2

/-- What every request of a run preserves holds before and after each of them. -/
theorem IsRun.invariant (P : ServerState pg → Prop) {server : ServerState pg}
    {steps : List (SyncStep pg orgId)} (hrun : IsRun server steps)
    (hstep : ∀ step ∈ steps, P step.before → P step.result.server) (h : P server) :
    ∀ step ∈ steps, P step.before ∧ P step.result.server := by
  induction steps generalizing server with
  | nil => simp
  | cons first rest ih =>
      obtain ⟨hbefore, hrest⟩ := hrun
      have hfirst := hstep first List.mem_cons_self (hbefore ▸ h)
      intro step hmem
      rcases List.mem_cons.mp hmem with rfl | hmem
      · exact ⟨hbefore ▸ h, hfirst⟩
      · exact ih hrest (fun s hs => hstep s (List.mem_cons_of_mem _ hs)) hfirst step hmem

/-! ## Change by change -/

/-- The request comes to a change with the tables in this state. -/
def SyncStep.Processes (step : SyncStep pg orgId) (db : Database pg) (change : SyncChangeDto) :
    Prop :=
  ∃ pre post loop, orderedChanges step.req.changes = pre ++ change :: post ∧
    processChanges orgId step.req.collection step.now step.before.db pre = .ok loop ∧ loop.db = db

/-- What every change a request processes preserves in the tables, the request
preserves. -/
theorem SyncStep.invariant (step : SyncStep pg orgId) (P : Database pg → Prop)
    (hchange : ∀ change loop loop', step.Processes loop.db change → P loop.db →
      processChange orgId step.req.collection step.now loop change = .ok loop' → P loop'.db)
    (h : P step.before.db) : P step.result.server.db := by
  obtain ⟨loop, hloop, hdb, -⟩ := sync_eq_ok step.committed
  rw [hdb]
  refine foldlM_invariant_reached (fun l : SyncLoop pg => P l.db) ?_ h hloop
  intro pre change post mid mid' hordered hpre
  exact hchange change mid mid' ⟨pre, post, mid, hordered, hpre, rfl⟩

/-! ## Several organizations -/

/-- A committed request of some organization. -/
structure TenantStep (pg : Postgres) where
  orgId : JsString
  step : SyncStep pg orgId

/-- Consecutive requests of any organizations, from a state on. -/
def IsTenantRun : ServerState pg → List (TenantStep pg) → Prop
  | _, [] => True
  | server, s :: rest => s.step.before = server ∧ IsTenantRun s.step.result.server rest

/-- What every request of a run preserves in the tables holds after each of them. -/
theorem IsTenantRun.invariant (P : Database pg → Prop) {server : ServerState pg}
    {steps : List (TenantStep pg)} (hrun : IsTenantRun server steps)
    (hstep : ∀ s ∈ steps, P s.step.before.db → P s.step.result.server.db) (h : P server.db) :
    ∀ s ∈ steps, P s.step.result.server.db := by
  induction steps generalizing server with
  | nil => nofun
  | cons first rest ih =>
      obtain ⟨rfl, hrest⟩ := hrun
      have hfirst := hstep first List.mem_cons_self h
      intro s hmem
      rcases List.mem_cons.mp hmem with rfl | hmem
      · exact hfirst
      · exact ih hrest (fun s hs => hstep s (List.mem_cons_of_mem _ hs)) hfirst s hmem

/-! ## One row along a run -/

section Row

variable {c : SyncCollection} {k : JsString}

/-- A record of the organization sits in a row with a property. -/
def HoldsRow (orgId : JsString) (c : SyncCollection) (k : JsString) (P : Row pg c → Prop)
    (server : ServerState pg) : Prop :=
  server.db.owner c k = some orgId ∧ ∃ row, server.db.find c k = some row ∧ P row

/-- The request merges a change into the record. -/
def Names (pg : Postgres) (c : SyncCollection) (k : JsString) (req : SyncRequestDto)
    (change : SyncChangeDto) : Prop :=
  req.collection = c ∧ change ∈ req.changes ∧ pg.uuid change.id = some k

/-- The values the request sends for the field are stored as they are sent. -/
def StoresAsSent (orgId : JsString) (c : SyncCollection) (k : JsString) (field : String)
    (step : SyncStep pg orgId) : Prop :=
  ∀ change, Names pg c k step.req change →
    SentAsStored pg c step.before.db orgId change field

/-- A property of a record's row that every merge of a change naming it preserves
survives a request. -/
theorem SyncStep.holdsRow (step : SyncStep pg orgId) (P : Row pg c → Prop)
    (hmerge : ∀ change, Names pg c k step.req change →
      ∀ r r', P r → MergeEffect step.before.db orgId change r r' → P r')
    (h : HoldsRow orgId c k P step.before) : HoldsRow orgId c k P step.result.server := by
  obtain ⟨howner, row, hfind, hrow⟩ := h
  obtain ⟨loop, hloop, hdb, -⟩ := sync_eq_ok step.committed
  obtain ⟨htable, howners⟩ := processChanges_frame hloop
  rw [HoldsRow, hdb]
  refine ⟨howners c k orgId howner, ?_⟩
  by_cases hc : step.req.collection = c
  · subst hc
    refine processChanges_row P howner hfind hrow (fun change hmem hk => ?_) hloop
    exact hmerge change ⟨rfl, mem_orderedChanges.mp hmem, hk⟩
  · refine ⟨row, ?_, hrow⟩
    rw [Database.find, htable c (Ne.symm hc)]
    exact hfind

/-- A property that one merge of a request establishes and every merge preserves
holds after the request. -/
theorem SyncStep.holdsRow_established (step : SyncStep pg orgId) (I U : Row pg c → Prop)
    (hI : ∀ change, Names pg c k step.req change →
      ∀ r r', I r → MergeEffect step.before.db orgId change r r' → I r')
    {change₀ : SyncChangeDto} (hnames : Names pg c k step.req change₀)
    (hstart : ∀ r r', I r → MergeEffect step.before.db orgId change₀ r r' → U r')
    (hU : ∀ change, Names pg c k step.req change →
      ∀ r r', U r → MergeEffect step.before.db orgId change r r' → U r')
    (h : HoldsRow orgId c k I step.before) :
    HoldsRow orgId c k (fun r => I r ∧ U r) step.result.server := by
  obtain ⟨howner, row, hfind, hrow⟩ := h
  obtain ⟨loop, hloop, hdb, -⟩ := sync_eq_ok step.committed
  obtain ⟨-, howners⟩ := processChanges_frame hloop
  obtain ⟨hc, hmem₀, hk₀⟩ := hnames
  subst hc
  rw [HoldsRow, hdb]
  refine ⟨howners _ k orgId howner, ?_⟩
  exact processChanges_row_established I U howner hfind hrow
    (fun change hmem hk => hI change ⟨rfl, mem_orderedChanges.mp hmem, hk⟩)
    (mem_orderedChanges.mpr hmem₀) hk₀ hstart
    (fun change hmem hk => hU change ⟨rfl, mem_orderedChanges.mp hmem, hk⟩) hloop

end Row

end FlowLogix.Server
