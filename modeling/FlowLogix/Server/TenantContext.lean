/-
  Server/TenantContext.lean --- connections and the tenants they are set to
  (backend/src/common/tenant/tenant-transaction.util.ts).

  `runInTenantContext` takes a client from the pool, starts a transaction, sets the tenant
  for that transaction and runs the work; it commits, or rolls back when anything failed,
  and gives the client back.  The nightly rebalance holds one transaction and sets one
  organization after the other.  Everything else runs without a transaction on a client
  nobody holds.

  Calls take their steps in any order, a statement of a call may come after the call has
  failed or ended, and a client may be lost at any time.  A tenant never outlives its
  transaction, so each statement of a call runs as the call's own organization or as none,
  and all others as none.
-/
import FlowLogix.Foundation.Steps
import FlowLogix.Server.RowSecurity

set_option autoImplicit false

namespace FlowLogix.Server.TenantContext

open FlowLogix.Foundation

variable {pg : Postgres}

/-! ## Connections -/

/-- A transaction: the tenant set in it, and whether it has failed. -/
structure Transaction where
  tenant : Option JsString
  aborted : Bool
  deriving DecidableEq

/-- A client of the pool. -/
structure Connection where
  /-- the setting outside of transactions -/
  session : Option JsString
  transaction : Option Transaction
  deriving DecidableEq

namespace Connection

/-- A new client. -/
def opened : Connection where
  session := none
  transaction := none

/-- `current_setting('app.current_tenant_id', true)`. -/
def setting (conn : Connection) : Option JsString :=
  (conn.transaction.bind Transaction.tenant).or conn.session

/-- `START TRANSACTION`. -/
def startTransaction (conn : Connection) : Connection :=
  { conn with transaction := some { tenant := none, aborted := false } }

/-- `set_config('app.current_tenant_id', orgId, true)`. -/
def setConfig (conn : Connection) (orgId : JsString) : Connection :=
  { conn with transaction := conn.transaction.map fun tr => { tr with tenant := some orgId } }

/-- A statement is rejected. -/
def abort (conn : Connection) : Connection :=
  { conn with transaction := conn.transaction.map fun tr => { tr with aborted := true } }

/-- `COMMIT` and `ROLLBACK`. A setting that was local to the transaction is the empty string
from then on. -/
def endTransaction (conn : Connection) : Connection where
  session := if (conn.transaction.bind Transaction.tenant).isSome then conn.session.or (some [])
    else conn.session
  transaction := none

/-- What a statement reads, and the tables after it. -/
def execute (conn : Connection) (t : Tables pg) (s : SecuredStatement pg) :
    Except Failure (Tables pg × Tables pg) :=
  if conn.transaction.any Transaction.aborted then .error .abortedTransaction
  else s.run t conn.setting

/-- The client after a statement. -/
def after (conn : Connection) (t : Tables pg) (s : SecuredStatement pg) : Connection :=
  match conn.execute t s with
  | .ok _ => conn
  | .error _ => conn.abort

end Connection

/-! ## Calls -/

/-- What holds a client. -/
inductive Job where
  /-- `runInTenantContext` -/
  | request (orgId : JsString)
  /-- `rebalanceOverlongColumns` -/
  | rebalance
  deriving DecidableEq

/-- How far a call is. -/
inductive Phase where
  | connected
  | started
  | working
  /-- in the `catch` -/
  | failed
  /-- in the `finally` -/
  | finished
  deriving DecidableEq

/-- A call between `connect` and `release`. -/
structure Call where
  job : Job
  /-- the organization it works for; for the rebalance the one its loop has set -/
  orgId : Option JsString
  /-- `none` once the client is lost -/
  connection : Option Connection
  phase : Phase

/-- The steps of a call. -/
inductive CallAction (pg : Postgres) where
  | startTransaction
  /-- `taken` is false when PostgreSQL rejects the value -/
  | setConfig (orgId : JsString) (taken : Bool)
  /-- on the tables as the statement finds them -/
  | statement (t : Tables pg) (s : SecuredStatement pg)
  /-- the work rejects -/
  | fail
  /-- `done` is false when the commit is rejected -/
  | commit (done : Bool)
  | rollback
  | lose

namespace Call

/-- A call that has its client. -/
def connect (job : Job) (conn : Connection) : Call where
  job := job
  orgId := match job with
    | .request orgId => some orgId
    | .rebalance => none
  connection := some conn
  phase := .connected

/-- Whether a call sets this tenant now. -/
def sets (call : Call) (orgId : JsString) : Bool :=
  match call.job with
  | .request own => call.phase = .started && orgId = own
  | .rebalance => call.phase = .working

/-- A query of the call: on a lost client it rejects. -/
def query (call : Call) (f : Connection → Call) : Call :=
  match call.connection with
  | none => { call with phase := .failed }
  | some conn => f conn

/-- One step. -/
def step (call : Call) : CallAction pg → Option Call
  | .startTransaction =>
      if call.phase = .connected then
        some (call.query fun conn =>
          { call with
            connection := some conn.startTransaction
            phase := match call.job with
              | .request _ => .started
              | .rebalance => .working })
      else none
  | .setConfig orgId taken =>
      if call.sets orgId then
        some (call.query fun conn =>
          if taken && !conn.transaction.any Transaction.aborted then
            { call with
              orgId := some orgId, connection := some (conn.setConfig orgId), phase := .working }
          else { call with connection := some conn.abort, phase := .failed })
      else none
  | .statement t s =>
      if call.phase = .connected ∨ call.phase = .started then none
      else some { call with connection := call.connection.map fun conn => conn.after t s }
  | .fail => if call.phase = .working then some { call with phase := .failed } else none
  | .commit done =>
      if call.phase = .working then
        some (call.query fun conn =>
          { call with
            connection := some conn.endTransaction
            phase := if done then .finished else .failed })
      else none
  | .rollback =>
      if call.phase = .failed then
        some { call with
          connection := call.connection.map Connection.endTransaction, phase := .finished }
      else none
  | .lose => some { call with connection := none }

end Call

/-! ## The pool -/

/-- The clients nobody holds, and the calls that hold one. -/
structure Pool where
  idle : List Connection
  calls : Dict ℕ Call

/-- What happens at the pool. -/
inductive PoolAction (pg : Postgres) where
  /-- a call takes a client, a new one or one of those nobody holds -/
  | connect (id : ℕ) (job : Job) (client : Option ℕ)
  | call (id : ℕ) (action : CallAction pg)
  | release (id : ℕ)
  /-- a query without a transaction -/
  | query (client : ℕ) (t : Tables pg) (s : SecuredStatement pg)
  | close (client : ℕ)

namespace Pool

/-- A pool without clients. -/
def empty : Pool where
  idle := []
  calls := ∅

/-- One step. -/
def step (pool : Pool) : PoolAction pg → Option Pool
  | .connect id job client =>
      if id ∈ pool.calls then none
      else match client with
        | none => some { pool with calls := pool.calls.insert id (.connect job .opened) }
        | some i => (pool.idle[i]?).map fun conn =>
            { idle := pool.idle.eraseIdx i, calls := pool.calls.insert id (.connect job conn) }
  | .call id action => (pool.calls.lookup id).bind fun call => (call.step action).map fun call' =>
      { pool with calls := pool.calls.insert id call' }
  | .release id => (pool.calls.lookup id).bind fun call =>
      if call.phase = .finished then
        some { idle := pool.idle ++ call.connection.toList, calls := pool.calls.erase id }
      else none
  | .query i t s => (pool.idle[i]?).map fun conn =>
      { pool with idle := pool.idle.set i (conn.after t s) }
  | .close i => some { pool with idle := pool.idle.eraseIdx i }

end Pool

/-! ## Where a tenant can be set -/

namespace Connection

/-- No tenant outside of transactions. -/
def Unset (conn : Connection) : Prop := conn.session = none ∨ conn.session = some []

/-- No transaction either. -/
def Clean (conn : Connection) : Prop := conn.Unset ∧ conn.transaction = none

theorem Unset.endTransaction {conn : Connection} (h : conn.Unset) : conn.endTransaction.Clean := by
  refine ⟨?_, rfl⟩
  unfold Unset Connection.endTransaction
  rcases h with h | h <;> simp only [h] <;> split <;> simp

/-- A statement leaves the tenants as they are. -/
theorem after_eq (conn : Connection) (t : Tables pg) (s : SecuredStatement pg) :
    conn.after t s = conn ∨ conn.after t s = conn.abort := by
  unfold after
  cases conn.execute t s with
  | ok result => exact Or.inl rfl
  | error failure => exact Or.inr rfl

end Connection

namespace Call

/-- What a call's client may be set to. -/
def Holds (call : Call) (conn : Connection) : Prop :=
  match call.phase with
  | .connected => conn.transaction = none
  | .started => ∃ tr, conn.transaction = some tr ∧ tr.tenant = none
  | .working => ∃ tr, conn.transaction = some tr ∧ tr.tenant = call.orgId
  | .failed => ∀ tr, conn.transaction = some tr → tr.tenant = none ∨ tr.tenant = call.orgId
  | .finished => conn.transaction = none

/-- A call and its client. -/
structure Safe (call : Call) : Prop where
  unset : ∀ conn, call.connection = some conn → conn.Unset
  holds : ∀ conn, call.connection = some conn → call.Holds conn
  own : ∀ orgId, call.job = .request orgId → call.orgId = some orgId
  /-- the rebalance starts without an organization -/
  idle : call.job = .rebalance → call.phase = .connected → call.orgId = none

variable {call call' : Call}

theorem safe_connect (job : Job) {conn : Connection} (h : conn.Clean) :
    (connect job conn).Safe where
  unset c hc := Option.some.inj hc ▸ h.1
  holds c hc := Option.some.inj hc ▸ h.2
  own orgId hjob := by
    have hjob : job = .request orgId := hjob
    rw [hjob]
    rfl
  idle hjob _ := by
    have hjob : job = .rebalance := hjob
    rw [hjob]
    rfl

/-- A lost client is set to nothing. -/
theorem Safe.of_lost (h : call.Safe) (hlost : call'.connection = none)
    (hjob : call'.job = call.job) (horgId : call'.orgId = call.orgId)
    (hphase : call'.phase = .connected → call.phase = .connected) : call'.Safe where
  unset conn hconn := by
    rw [hlost] at hconn
    cases hconn
  holds conn hconn := by
    rw [hlost] at hconn
    cases hconn
  own orgId hown := horgId.trans (h.own orgId (hjob.symm.trans hown))
  idle hidle hconnected := horgId.trans (h.idle (hjob.symm.trans hidle) (hphase hconnected))

/-- A step on a client keeps a call safe. -/
theorem Safe.of_client {conn : Connection} (h : call.Safe) (hconn : call'.connection = some conn)
    (hunset : conn.Unset) (hholds : call'.Holds conn) (hjob : call'.job = call.job)
    (horgId : call'.orgId = call.orgId) (hphase : call'.phase ≠ .connected) : call'.Safe where
  unset _ hconn' := Option.some.inj (hconn.symm.trans hconn') ▸ hunset
  holds _ hconn' := Option.some.inj (hconn.symm.trans hconn') ▸ hholds
  own orgId hown := horgId.trans (h.own orgId (hjob.symm.trans hown))
  idle _ hconnected := absurd hconnected hphase

theorem Holds.abort {conn : Connection} (h : call.Holds conn) : call.Holds conn.abort := by
  unfold Holds at h ⊢
  unfold Connection.abort
  split at h
  · rw [h]
    rfl
  · obtain ⟨tr, htr, htenant⟩ := h
    rw [htr]
    exact ⟨_, rfl, htenant⟩
  · obtain ⟨tr, htr, htenant⟩ := h
    rw [htr]
    exact ⟨_, rfl, htenant⟩
  · intro tr htr
    obtain ⟨tr', htr', rfl⟩ := Option.map_eq_some_iff.mp htr
    exact h tr' htr'
  · rw [h]
    rfl

/-- A query that keeps a call safe when its client answers, keeps it safe. -/
theorem Safe.query {f : Connection → Call} (h : call.Safe)
    (hf : ∀ conn, call.connection = some conn → (f conn).Safe) : (call.query f).Safe := by
  unfold Call.query
  split
  · rename_i hlost
    exact h.of_lost hlost rfl rfl nofun
  · rename_i conn hconn
    exact hf conn hconn

/-- Where a client of the call has a tenant at all, it is the call's. -/
theorem Holds.tenant {conn : Connection} (h : call.Holds conn) {tr : Transaction}
    (htr : conn.transaction = some tr) : tr.tenant = none ∨ tr.tenant = call.orgId := by
  unfold Holds at h
  split at h
  · rw [h] at htr
    cases htr
  · obtain ⟨tr', htr', htenant⟩ := h
    obtain rfl := Option.some.inj (htr.symm.trans htr')
    exact Or.inl htenant
  · obtain ⟨tr', htr', htenant⟩ := h
    obtain rfl := Option.some.inj (htr.symm.trans htr')
    exact Or.inr htenant
  · exact h tr htr
  · rw [h] at htr
    cases htr

theorem Safe.setConfig {orgId : JsString} {conn : Connection} (h : call.Safe)
    (hsets : call.sets orgId = true) (hconn : call.connection = some conn) :
    ({ call with
      orgId := some orgId
      connection := some (conn.setConfig orgId)
      phase := .working } : Call).Safe := by
  have hholds := h.holds conn hconn
  unfold Holds at hholds
  unfold sets at hsets
  cases hjob : call.job with
  | request own =>
      simp only [hjob, Bool.and_eq_true_iff, decide_eq_true_eq] at hsets
      obtain ⟨hphase, rfl⟩ := hsets
      rw [hphase] at hholds
      obtain ⟨tr, htr, -⟩ := hholds
      refine h.of_client rfl (h.unset conn hconn) ⟨{ tr with tenant := some orgId }, ?_, rfl⟩
        hjob.symm (h.own orgId hjob).symm nofun
      rw [Connection.setConfig, htr]
      rfl
  | rebalance =>
      simp only [hjob, decide_eq_true_eq] at hsets
      rw [hsets] at hholds
      obtain ⟨tr, htr, -⟩ := hholds
      refine ⟨fun c hc => Option.some.inj hc ▸ h.unset conn hconn, fun c hc => ?_, ?_, nofun⟩
      · obtain rfl := Option.some.inj hc
        refine ⟨{ tr with tenant := some orgId }, ?_, rfl⟩
        rw [Connection.setConfig, htr]
        rfl
      · intro own hown
        cases hown

/-- A step keeps a call safe. -/
theorem Safe.step {a : CallAction pg} (h : call.Safe) (hstep : call.step a = some call') :
    call'.Safe := by
  cases a with
  | startTransaction =>
      obtain ⟨hphase, hstep⟩ := Option.ite_none_right_eq_some.mp hstep
      obtain rfl := Option.some.inj hstep
      refine h.query fun conn hconn => ?_
      cases hjob : call.job with
      | request orgId =>
          exact h.of_client rfl (h.unset conn hconn) ⟨_, rfl, rfl⟩ hjob.symm rfl nofun
      | rebalance =>
          exact h.of_client rfl (h.unset conn hconn) ⟨_, rfl, (h.idle hjob hphase).symm⟩
            hjob.symm rfl nofun
  | setConfig orgId taken =>
      obtain ⟨hsets, hstep⟩ := Option.ite_none_right_eq_some.mp hstep
      obtain rfl := Option.some.inj hstep
      refine h.query fun conn hconn => ?_
      split
      · exact h.setConfig hsets hconn
      · refine h.of_client rfl (h.unset conn hconn) ?_ rfl rfl nofun
        have hholds : Holds { call with phase := .failed } conn := fun tr htr =>
          (h.holds conn hconn).tenant htr
        exact hholds.abort
  | statement t s =>
      obtain ⟨hphase, hstep⟩ := Option.ite_none_left_eq_some.mp hstep
      obtain rfl := Option.some.inj hstep
      have hworks : call.phase ≠ .connected := fun heq => hphase (Or.inl heq)
      cases hconn : call.connection with
      | none => exact h.of_lost rfl rfl rfl id
      | some conn =>
          have hunset := h.unset conn hconn
          have hholds := h.holds conn hconn
          refine @Safe.of_client call _ (conn.after t s) h rfl ?_ ?_ rfl rfl hworks
          · rcases conn.after_eq t s with heq | heq <;> rw [heq] <;> exact hunset
          · rcases conn.after_eq t s with heq | heq <;> rw [heq]
            · exact hholds
            · exact hholds.abort
  | fail =>
      obtain ⟨-, hstep⟩ := Option.ite_none_right_eq_some.mp hstep
      obtain rfl := Option.some.inj hstep
      refine ⟨h.unset, fun conn hconn tr htr => (h.holds conn hconn).tenant htr, h.own, nofun⟩
  | commit done =>
      obtain ⟨-, hstep⟩ := Option.ite_none_right_eq_some.mp hstep
      obtain rfl := Option.some.inj hstep
      refine h.query fun conn hconn => ?_
      have hclean := (h.unset conn hconn).endTransaction
      cases done with
      | false => exact h.of_client rfl hclean.1 (fun tr htr => nomatch htr) rfl rfl nofun
      | true => exact h.of_client rfl hclean.1 rfl rfl rfl nofun
  | rollback =>
      obtain ⟨-, hstep⟩ := Option.ite_none_right_eq_some.mp hstep
      obtain rfl := Option.some.inj hstep
      cases hconn : call.connection with
      | none => exact h.of_lost rfl rfl rfl nofun
      | some conn =>
          have hclean := (h.unset conn hconn).endTransaction
          exact h.of_client rfl hclean.1 hclean.2 rfl rfl nofun
  | lose =>
      obtain rfl := Option.some.inj hstep
      exact h.of_lost rfl rfl rfl id

end Call

/-! ## What the statements of a run see -/

/-- The tenant a statement runs as. -/
theorem Connection.currentTenant_eq (hempty : pg.uuid [] = none) {conn : Connection}
    (h : conn.Unset) {orgId tenant : Option JsString}
    (horgId : conn.transaction.bind Transaction.tenant = orgId)
    (htenant : currentTenant pg conn.setting = .ok tenant) : tenant = orgId.bind pg.uuid := by
  unfold Connection.setting at htenant
  rw [horgId] at htenant
  cases orgId with
  | none =>
      rw [Option.none_or] at htenant
      rcases h with hsession | hsession <;> rw [hsession] at htenant
      · exact (Except.ok.inj htenant).symm
      · simp [currentTenant, Database.key, hempty, Except.map] at htenant
  | some o =>
      rw [Option.some_or, currentTenant, Database.key] at htenant
      cases hkey : pg.uuid o with
      | none =>
          rw [hkey] at htenant
          cases htenant
      | some k =>
          rw [hkey] at htenant
          exact (Except.ok.inj htenant).symm.trans hkey.symm

/-- What ran, ran as the tenant of the client. -/
theorem Connection.confined_execute {conn : Connection} {s : SecuredStatement pg}
    {t t' seen : Tables pg} (h : conn.execute t s = .ok (seen, t')) : ∃ tenant,
      currentTenant pg conn.setting = .ok tenant ∧ SecuredStatement.Confined tenant t seen t' := by
  unfold Connection.execute at h
  split at h
  · cases h
  · exact SecuredStatement.confined_run h

namespace Call

variable {call : Call} {t t' seen : Tables pg}

/-- A statement of a call sees and changes the rows of the call's organization, or, once its
work is over, nothing. -/
def Confines (call : Call) (t seen t' : Tables pg) : Prop :=
  SecuredStatement.Confined (call.orgId.bind pg.uuid) t seen t' ∨
    call.phase ≠ .working ∧ SecuredStatement.Confined none t seen t'

theorem Safe.confines (hempty : pg.uuid [] = none) (h : call.Safe) {conn : Connection}
    (hconn : call.connection = some conn) {s : SecuredStatement pg}
    (hrun : conn.execute t s = .ok (seen, t')) : call.Confines t seen t' := by
  obtain ⟨tenant, htenant, hconfined⟩ := Connection.confined_execute hrun
  have hholds := h.holds conn hconn
  have hown : conn.transaction.bind Transaction.tenant = call.orgId → call.Confines t seen t' := by
    intro horgId
    rw [Connection.currentTenant_eq hempty (h.unset conn hconn) horgId htenant] at hconfined
    exact Or.inl hconfined
  have hnone : call.phase ≠ .working → conn.transaction.bind Transaction.tenant = none →
      call.Confines t seen t' := by
    intro hphase horgId
    rw [Connection.currentTenant_eq hempty (h.unset conn hconn) horgId htenant] at hconfined
    exact Or.inr ⟨hphase, hconfined⟩
  by_cases hphase : call.phase = .working
  · unfold Holds at hholds
    rw [hphase] at hholds
    obtain ⟨tr, htr, horgId⟩ := hholds
    exact hown (by rw [htr]; exact horgId)
  · cases htr : conn.transaction with
    | none => exact hnone hphase (by rw [htr]; rfl)
    | some tr =>
        rcases hholds.tenant htr with horgId | horgId
        · exact hnone hphase (by rw [htr]; exact horgId)
        · exact hown (by rw [htr]; exact horgId)

end Call

namespace Pool

/-- Clients nobody holds are clean, and calls safe. -/
structure Safe (pool : Pool) : Prop where
  idle : ∀ conn ∈ pool.idle, conn.Clean
  calls : ∀ id call, pool.calls.lookup id = some call → call.Safe

theorem safe_empty : empty.Safe where
  idle := nofun
  calls := nofun

variable {pool pool' : Pool}

theorem Safe.insert {idle : List Connection} {id : ℕ} {call : Call} (h : pool.Safe)
    (hidle : ∀ conn ∈ idle, conn.Clean) (hcall : call.Safe) :
    ({ idle := idle, calls := pool.calls.insert id call } : Pool).Safe where
  idle := hidle
  calls id' call' hlookup := by
    rw [Dict.lookup_insert_eq] at hlookup
    split at hlookup
    · exact Option.some.inj hlookup ▸ hcall
    · exact h.calls id' call' hlookup

/-- A step keeps the pool safe. -/
theorem Safe.step {a : PoolAction pg} (h : pool.Safe) (hstep : pool.step a = some pool') :
    pool'.Safe := by
  cases a with
  | connect id job client =>
      obtain ⟨-, hstep⟩ := Option.ite_none_left_eq_some.mp hstep
      cases client with
      | none =>
          obtain rfl := Option.some.inj hstep
          exact h.insert h.idle (Call.safe_connect job ⟨Or.inl rfl, rfl⟩)
      | some i =>
          obtain ⟨conn, hconn, rfl⟩ := Option.map_eq_some_iff.mp hstep
          refine h.insert (fun c hc => h.idle c (List.mem_of_mem_eraseIdx hc)) ?_
          exact Call.safe_connect job (h.idle conn (List.mem_of_getElem? hconn))
  | call id action =>
      obtain ⟨call, hcall, hstep⟩ := Option.bind_eq_some_iff.mp hstep
      obtain ⟨call', hcall', rfl⟩ := Option.map_eq_some_iff.mp hstep
      exact h.insert h.idle ((h.calls id call hcall).step hcall')
  | release id =>
      obtain ⟨call, hcall, hstep⟩ := Option.bind_eq_some_iff.mp hstep
      obtain ⟨hphase, hstep⟩ := Option.ite_none_right_eq_some.mp hstep
      obtain rfl := Option.some.inj hstep
      have hsafe := h.calls id call hcall
      refine ⟨fun conn hconn => ?_, fun id' call' hlookup => ?_⟩
      · rcases List.mem_append.mp hconn with hconn | hconn
        · exact h.idle conn hconn
        · have hheld := Option.mem_toList.mp hconn
          have hholds := hsafe.holds conn hheld
          unfold Call.Holds at hholds
          rw [hphase] at hholds
          exact ⟨hsafe.unset conn hheld, hholds⟩
      · by_cases hid : id' = id
        · rw [hid, AList.lookup_erase] at hlookup
          cases hlookup
        · rw [AList.lookup_erase_ne hid] at hlookup
          exact h.calls id' call' hlookup
  | query i t s =>
      obtain ⟨conn, hconn, rfl⟩ := Option.map_eq_some_iff.mp hstep
      refine ⟨fun c hc => ?_, h.calls⟩
      rcases List.mem_or_eq_of_mem_set hc with hc | rfl
      · exact h.idle c hc
      · have hclean := h.idle conn (List.mem_of_getElem? hconn)
        rcases conn.after_eq t s with heq | heq <;> rw [heq]
        · exact hclean
        · exact ⟨hclean.1, by rw [Connection.abort, hclean.2]; rfl⟩
  | close i =>
      obtain rfl := Option.some.inj hstep
      exact ⟨fun conn hconn => h.idle conn (List.mem_of_mem_eraseIdx hconn), h.calls⟩

end Pool

/-- What a statement of a run may see and change. -/
def PoolAction.InTenant (pool : Pool) : PoolAction pg → Prop
  | .call id (.statement t s) => ∀ call conn seen t', pool.calls.lookup id = some call →
      call.connection = some conn → conn.execute t s = .ok (seen, t') →
        call.Confines t seen t' ∧ ∀ orgId, call.job = .request orgId → call.orgId = some orgId
  | .query client t s => ∀ conn seen t', pool.idle[client]? = some conn →
      conn.execute t s = .ok (seen, t') → SecuredStatement.Confined none t seen t'
  | _ => True

/-- **No tenant leaks.** However calls, queries and failures interleave, a statement at work
for an organization sees its rows and changes no others; a statement of anything else on the
secured tables sees and changes nothing, and no client goes back with a tenant. -/
theorem Pool.statements_in_tenant (hempty : pg.uuid [] = none)
    {trace : List (Pool × PoolAction pg)} {pool : Pool}
    (run : Steps Pool.step Pool.empty trace pool) :
    (∀ e ∈ trace, e.2.InTenant e.1) ∧
      ∀ conn ∈ pool.idle, conn.setting = none ∨ conn.setting = some [] := by
  have hsafe := @Steps.everywhere _ _ _ _ _ _ Pool.Safe (fun _ _ => True) run
    (fun _ _ => trivial) Pool.safe_empty fun pool a pool' _ h hstep => h.step hstep
  refine ⟨fun e he => ?_, fun conn hconn => ?_⟩
  · obtain ⟨before, action⟩ := e
    have hbefore : before.Safe := hsafe.1 _ he
    unfold PoolAction.InTenant
    split
    · intro call conn seen t' hcall hconn hrun
      have hcall := hbefore.calls _ call hcall
      exact ⟨hcall.confines hempty hconn hrun, hcall.own⟩
    · intro conn seen t' hconn hrun
      obtain ⟨hunset, htr⟩ := hbefore.idle conn (List.mem_of_getElem? hconn)
      obtain ⟨tenant, htenant, hconfined⟩ := Connection.confined_execute hrun
      have hnone : conn.transaction.bind Transaction.tenant = none := by rw [htr]; rfl
      rw [Connection.currentTenant_eq hempty hunset hnone htenant] at hconfined
      exact hconfined
    · trivial
  · obtain ⟨hunset, htr⟩ := hsafe.2.idle conn hconn
    rw [Connection.setting, htr]
    exact hunset

/-! ## A request and its client -/

/-- The plain store, where an empty string is no uuid. -/
def Postgres.strict : Postgres where
  uuid s := if s = [] then none else some s
  uuid_canonical s k h := by
    obtain ⟨hs, hk⟩ := Option.ite_none_left_eq_some.mp h
    obtain rfl := Option.some.inj hk
    exact if_neg hs
  store c property v :=
    if property = parentProperty c ∧ v = .str [] then none else Postgres.plain.store c property v
  store_stored c property v w h := by
    obtain ⟨hv, hw⟩ := Option.ite_none_left_eq_some.mp h
    obtain rfl : v = w := by
      have hplain : (if hasColumnType property v then some v else none) = some w := hw
      exact Option.some.inj (Option.ite_none_right_eq_some.mp hplain).2
    exact h
  store_parent c s w h := by
    obtain ⟨hv, hw⟩ := Option.ite_none_left_eq_some.mp h
    obtain ⟨k, hk, rfl⟩ := Postgres.plain.store_parent c s w hw
    obtain rfl := Option.some.inj hk
    exact ⟨s, if_neg fun hs => hv ⟨rfl, congrArg _ hs⟩, rfl⟩

namespace TenantRun

/-- A board. -/
def board : Row Postgres.strict .boards where
  columns := Sample.board.columns
  stored field v hv := by
    have hentries : ∀ e ∈ Sample.board.columns.entries, e.2 ≠ .str [] := by decide
    refine (if_neg fun hempty => ?_).trans (Sample.board.stored field v hv)
    exact hentries ⟨field, v⟩ (AList.mem_lookup_iff.mp hv) hempty.2
  createdAt := 0
  syncClocks := ∅
  nodeId := none
  syncDeletedAt := none
  complete := Sample.board.complete

/-- The tables with one board. -/
def tables : Tables Postgres.strict where
  table
    | .boards => Dict.ofList [(Sample.boardId, board)]
    | _ => ∅
  organizations := Dict.ofList [(Sample.orgId, { name := js "A", domain := none })]
  users := ∅
  comments := ∅
  boardMembers := ∅
  cardMembers := ∅

/-- A request of the organization, at work on a new client. -/
def working : Pool where
  idle := []
  calls := Dict.ofList [(0,
    { job := .request Sample.orgId
      orgId := some Sample.orgId
      connection := some
        { session := none, transaction := some { tenant := some Sample.orgId, aborted := false } }
      phase := .working })]

end TenantRun

/-- A request reads its board, and its client goes back without the tenant. -/
theorem statements_in_tenant_read : ∃ pool : Pool, pool.idle.length = 1 ∧
    (PoolAction.call 0 (.statement TenantRun.tables .select)).InTenant TenantRun.working ∧
      ∀ conn ∈ pool.idle, conn.setting = none ∨ conn.setting = some [] := by
  let step : Pool → PoolAction Postgres.strict → Option Pool := Pool.step
  have hworking : Steps step Pool.empty _ TenantRun.working :=
    ((Steps.none.next (a := .connect 0 (.request Sample.orgId) none) rfl).next
      (a := .call 0 .startTransaction) rfl).next (a := .call 0 (.setConfig Sample.orgId true)) rfl
  have run := ((hworking.next (a := .call 0 (.statement TenantRun.tables .select)) rfl).next
    (a := .call 0 (.commit true)) rfl).next (a := .release 0) rfl
  have hrun := Pool.statements_in_tenant rfl run
  refine ⟨_, rfl, hrun.1 (_, _) ?_, hrun.2⟩
  exact List.mem_append_left _ (List.mem_append_left _ (List.mem_append_right _
    (List.mem_singleton.mpr rfl)))

end FlowLogix.Server.TenantContext
