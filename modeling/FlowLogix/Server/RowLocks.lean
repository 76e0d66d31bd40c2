/-
  Server/RowLocks.lean --- sync requests that run at the same time
  (the transaction of `sync` in backend/src/sync/sync.service.ts).

  Each request is a transaction under READ COMMITTED: a statement sees what is
  committed when it is issued, and what its own transaction has written.
  `System.step` issues one statement of one transaction.  A row that is locked
  FOR UPDATE, written or inserted stays with its transaction until that ends,
  and `lock` is where the loop reads the row again.  The statements of a
  `tryInsert` need not see the same tables, so they may see any.

  `Move` says once what a statement can do to its transaction, and `Effect` what
  a step does to the system.  `LockInv` holds in every interleaving: no two
  running transactions hold one row, and what a transaction holds is in its
  organization.
-/
import FlowLogix.Server.SyncEffects

set_option autoImplicit false

namespace FlowLogix.Server

open FlowLogix.Foundation
open FlowLogix.Crdt (VersionedRecord)

variable {pg : Postgres}

/-! ## Transactions -/

/-- A call of `sync`; `now` is its `Date.now()`. -/
structure SyncCall where
  orgId : JsString
  now : Nat
  req : SyncRequestDto

/-- What the loop does next with its first change. -/
inductive Stage where
  | next
  /-- `load` found nothing in the organization -/
  | unseen
  /-- nor did `tryInsert` insert -/
  | refused
  /-- authorized: the record's key, before its row is locked -/
  | found (k : JsString)
  /-- the row is locked and was read again -/
  | locked (k : JsString)
  deriving DecidableEq

/-- How a transaction ended. -/
inductive Ending where
  | running
  | committed (response : SyncResponseDto)
  | aborted

def Ending.isRunning : Ending → Bool
  | .running => true
  | _ => false

def Ending.isCommitted : Ending → Bool
  | .committed _ => true
  | _ => false

/-- A transaction: the loop over the changes, and the rows it holds locks on, as
it sees them. -/
structure Transaction (pg : Postgres) where
  call : SyncCall
  processed : List SyncChangeDto
  ahead : List SyncChangeDto
  stage : Stage
  held : (c : SyncCollection) → Dict JsString (Row pg c)
  changes : List (VersionedRecord Clock)
  acceptedIds : List JsString
  pendingEvents : List PendingBoardEvent
  ending : Ending

/-- The tables under rows that are not committed. -/
def Database.overlay (db : Database pg) (rows : (c : SyncCollection) → Dict JsString (Row pg c)) :
    Database pg :=
  { db with table := fun c => rows c ∪ db.table c }

namespace Transaction

/-- A call that has not begun. -/
def start (call : SyncCall) : Transaction pg where
  call := call
  processed := []
  ahead := orderedChanges call.req.changes
  stage := .next
  held _ := ∅
  changes := []
  acceptedIds := []
  pendingEvents := []
  ending := .running

/-- The collection of the request. -/
def collection (t : Transaction pg) : SyncCollection := t.call.req.collection

/-- The tables a statement of the transaction sees. -/
def view (t : Transaction pg) (committed : Database pg) : Database pg := committed.overlay t.held

/-- What the loop carries. -/
def loop (t : Transaction pg) (db : Database pg) : SyncLoop pg where
  db := db
  changes := t.changes
  acceptedIds := t.acceptedIds
  pendingEvents := t.pendingEvents

/-- The row of the collection with a key, as the transaction has it from now on. -/
def hold (t : Transaction pg) (k : JsString) (row : Row pg t.collection) : Transaction pg :=
  { t with held := Function.update t.held t.collection ((t.held t.collection).insert k row) }

/-- The loop goes on to the next change. -/
def advance (t : Transaction pg) : Transaction pg :=
  { t with
    processed := t.processed ++ t.ahead.take 1
    ahead := t.ahead.tail
    stage := .next }

end Transaction

/-! ## Statements -/

/-- The statements of a transaction. -/
inductive Statement (pg : Postgres) where
  | load
  /-- `tryInsert`; `seen` is what its statements see -/
  | insert (seen : Database pg)
  | lock
  /-- sanitize, merge and write back -/
  | merge
  /-- the delta and the commit -/
  | commit
  | abort

/-- The server, and the transactions on it. -/
structure System (pg : Postgres) (ι : Type) where
  server : ServerState pg
  transactions : ι → Transaction pg

/-- The server before any of the calls begins. -/
def System.start {ι : Type} (server : ServerState pg) (calls : ι → SyncCall) : System pg ι where
  server := server
  transactions i := .start (calls i)

namespace Transaction

/-- The first load, and the re-load after an insert that was refused. -/
def issueLoad (t : Transaction pg) (view : Database pg) (change : SyncChangeDto) :
    Option (Transaction pg) :=
  match t.stage, view.load t.collection change.id t.call.orgId with
  | .next, .ok none => some { t with stage := .unseen }
  | .refused, .ok none => some t.advance
  | .next, .ok (some (k, _)) | .refused, .ok (some (k, _)) => some { t with stage := .found k }
  | _, _ => none

/-- `tryInsert`.  A key that is taken leaves the transaction nothing but to be
aborted. -/
def issueInsert (t : Transaction pg) (view seen : Database pg) (free : JsString → Bool)
    (change : SyncChangeDto) : Option (Transaction pg) :=
  match t.stage, tryInsert seen t.call.orgId t.call.now change t.collection,
      pg.uuid change.id with
  | .unseen, .ok .refused, _ => some { t with stage := .refused }
  | .unseen, .ok (.inserted db), some k =>
      if free k ∧ view.find t.collection k = none then
        (db.find t.collection k).map fun row =>
          { (t.hold k row).advance with
            acceptedIds := t.acceptedIds ++ [change.id]
            pendingEvents := t.pendingEvents ++
              (eventForInsert db t.collection change).toList }
      else none
  | _, _, _ => none

/-- The lock, and the row read again; a row that is gone is skipped. -/
def issueLock (t : Transaction pg) (view : Database pg) (free : JsString → Bool) :
    Option (Transaction pg) :=
  match t.stage with
  | .found k =>
      if free k then
        match view.find t.collection k with
        | some row => some { t.hold k row with stage := .locked k }
        | none => some t.advance
      else none
  | _ => none

/-- The merge into the locked row. -/
def issueMerge (t : Transaction pg) (view : Database pg) (change : SyncChangeDto) :
    Option (Transaction pg) :=
  match t.stage with
  | .locked k =>
      (view.find t.collection k).bind fun row =>
        (mergeChange t.call.orgId (t.loop view) change k row).toOption.bind fun merged =>
          (merged.db.find t.collection k).map fun row' =>
            { (t.hold k row').advance with
              changes := merged.changes
              acceptedIds := merged.acceptedIds
              pendingEvents := merged.pendingEvents }
  | _ => none

end Transaction

variable {ι : Type}

section Step

variable [Fintype ι] [DecidableEq ι]

/-- No other running transaction holds the row. -/
def System.free (sys : System pg ι) (i : ι) (c : SyncCollection) (k : JsString) : Bool :=
  decide (∀ j, j ≠ i → (sys.transactions j).ending.isRunning = true →
    k ∉ (sys.transactions j).held c)

/-- One statement of one transaction; none when it is not its turn, when it has
to wait, or when it fails. -/
def System.step (sys : System pg ι) (i : ι) (statement : Statement pg) : Option (System pg ι) :=
  let t := sys.transactions i
  let view := t.view sys.server.db
  let free := sys.free i t.collection
  let next := fun t' => { sys with transactions := Function.update sys.transactions i t' }
  if t.ending.isRunning then
    match statement, t.ahead with
    | .load, change :: _ => (t.issueLoad view change).map next
    | .insert seen, change :: _ => (t.issueInsert view seen free change).map next
    | .lock, _ :: _ => (t.issueLock view free).map next
    | .merge, change :: _ => (t.issueMerge view change).map next
    | .commit, [] =>
        (deltaPull (t.loop view) t.collection t.call.orgId
            t.call.req.sinceCheckpoint).toOption.map fun pulled =>
          let checkpoint := nowMicros sys.server.lastMicros t.call.now
          { server := { db := view, lastMicros := checkpoint }
            transactions := Function.update sys.transactions i
              { t with ending := .committed ⟨t.changes ++ pulled, checkpoint, t.acceptedIds⟩ } }
    | .abort, _ => some (next { t with ending := .aborted })
    | _, _ => none
  else none

/-- A sequence of statements. -/
def System.run (sys : System pg ι) : List (ι × Statement pg) → Option (System pg ι)
  | [] => some sys
  | (i, statement) :: rest => (sys.step i statement).bind fun next => next.run rest

end Step

/-! ## What a statement can do -/

theorem Database.find_overlay (db : Database pg)
    (rows : (c : SyncCollection) → Dict JsString (Row pg c)) (c : SyncCollection) (k : JsString) :
    (db.overlay rows).find c k = ((rows c).lookup k).or (db.find c k) := by
  rw [find, overlay]
  by_cases hk : k ∈ rows c
  · obtain ⟨row, hrow⟩ := Option.isSome_iff_exists.mp (AList.lookup_isSome.mpr hk)
    rw [AList.lookup_union_left hk, hrow, Option.some_or]
  · rw [AList.lookup_union_right hk, AList.lookup_eq_none.mpr hk, Option.none_or, find]

/-- What a statement that is not the last does to its transaction. -/
inductive Move (t : Transaction pg) (view : Database pg) (free : JsString → Bool) :
    Statement pg → Transaction pg → Prop where
  | stays (s : Statement pg) (stage : Stage) (hlocked : ∀ k, stage ≠ .locked k)
      (hfound : ∀ k, stage = .found k → view.owner t.collection k = some t.call.orgId ∧
        ∃ change rest, t.ahead = change :: rest ∧ pg.uuid change.id = some k) :
      Move t view free s { t with stage := stage }
  | skips (s : Statement pg) (change : SyncChangeDto) (rest : List SyncChangeDto)
      (hahead : t.ahead = change :: rest)
      (hgone : (∃ k, pg.uuid change.id = some k ∧
          view.owner t.collection k ≠ some t.call.orgId) ∨
        ∃ k, t.stage = .found k ∧ view.find t.collection k = none) :
      Move t view free s t.advance
  | inserts (s : Statement pg) (change : SyncChangeDto) (rest : List SyncChangeDto)
      (k : JsString) (row : Row pg t.collection) (acceptedIds : List JsString)
      (pendingEvents : List PendingBoardEvent) (hahead : t.ahead = change :: rest)
      (hk : pg.uuid change.id = some k) (hfree : free k = true)
      (hnone : view.find t.collection k = none) :
      Move t view free s
        { (t.hold k row).advance with acceptedIds := acceptedIds, pendingEvents := pendingEvents }
  | locks (s : Statement pg) (k : JsString) (row : Row pg t.collection)
      (hstage : t.stage = .found k) (hfree : free k = true)
      (hfind : view.find t.collection k = some row) :
      Move t view free s { t.hold k row with stage := .locked k }
  | merges (change : SyncChangeDto) (rest : List SyncChangeDto) (k : JsString)
      (row row' : Row pg t.collection) (changes : List (VersionedRecord Clock))
      (acceptedIds : List JsString) (pendingEvents : List PendingBoardEvent)
      (hahead : t.ahead = change :: rest) (hstage : t.stage = .locked k)
      (hfind : view.find t.collection k = some row)
      (heffect : MergeEffect view t.call.orgId change row row')
      (hcreated : row'.createdAt = row.createdAt) :
      Move t view free .merge
        { (t.hold k row').advance with
          changes := changes, acceptedIds := acceptedIds, pendingEvents := pendingEvents }

section Issue

variable {t t' : Transaction pg} {view seen : Database pg} {free : JsString → Bool}
  {change : SyncChangeDto} {rest : List SyncChangeDto}

theorem Move.of_issueLoad (hahead : t.ahead = change :: rest)
    (h : t.issueLoad view change = some t') : Move t view free .load t' := by
  unfold Transaction.issueLoad at h
  split at h
  · cases h
    exact .stays _ _ (by simp) (by simp)
  · rename_i hload
    cases h
    obtain ⟨k, hk, ⟨row, hrow, -⟩ | ⟨-, howner⟩⟩ := Database.load_eq_ok hload
    · cases hrow
    · exact .skips _ change rest hahead (Or.inl ⟨k, hk, howner⟩)
  all_goals try cases h
  all_goals
    rename_i hload
    obtain ⟨k', hk, ⟨row, hrow, howner, -⟩ | ⟨hnone, -⟩⟩ := Database.load_eq_ok hload
    · cases hrow
      refine .stays _ _ (by simp) fun k heq => ?_
      obtain rfl := Stage.found.inj heq
      exact ⟨howner, change, rest, hahead, hk⟩
    · cases hnone

theorem Move.of_issueInsert (hahead : t.ahead = change :: rest)
    (h : t.issueInsert view seen free change = some t') :
    Move t view free (.insert seen) t' := by
  unfold Transaction.issueInsert at h
  split at h
  · cases h
    exact .stays _ _ (by simp) (by simp)
  · rename_i db k _ _ hk
    split at h
    · rename_i hguard
      obtain ⟨row, -, rfl⟩ := Option.map_eq_some_iff.mp h
      exact .inserts _ change rest k row _ _ hahead hk hguard.1 hguard.2
    · cases h
  · cases h

theorem Move.of_issueLock (hahead : t.ahead = change :: rest)
    (h : t.issueLock view free = some t') : Move t view free .lock t' := by
  unfold Transaction.issueLock at h
  split at h
  · rename_i k hstage
    split at h
    · rename_i hfree
      split at h
      · rename_i row hfind
        cases h
        exact .locks _ k row hstage hfree hfind
      · rename_i hnone
        cases h
        exact .skips _ change rest hahead (Or.inr ⟨k, hstage, hnone⟩)
    · cases h
  · cases h

theorem Move.of_issueMerge (hahead : t.ahead = change :: rest)
    (h : t.issueMerge view change = some t') : Move t view free .merge t' := by
  unfold Transaction.issueMerge at h
  split at h
  · rename_i k hstage
    obtain ⟨row, hfind, h⟩ := Option.bind_eq_some_iff.mp h
    obtain ⟨merged, hmerged, h⟩ := Option.bind_eq_some_iff.mp h
    obtain ⟨row', hfind', rfl⟩ := Option.map_eq_some_iff.mp h
    obtain ⟨written, hwritten, hloop⟩ := bind_eq_ok.mp (toOption_eq_some.mp hmerged)
    obtain rfl := Except.ok.inj hloop
    obtain ⟨row'', heffect, hfind'', -⟩ := writeMerged_eq_ok hfind hwritten
    obtain rfl : row' = row'' := Option.some.inj (hfind'.symm.trans hfind'')
    exact .merges change rest k row row' _ _ _ hahead hstage hfind heffect
      (writeMerged_createdAt hfind hwritten hfind')
  · cases h

end Issue

/-- What a step does: a move of one transaction, its commit, or its end. -/
inductive Effect (sys sys' : System pg ι) (i : ι) (free : JsString → Bool) (s : Statement pg) :
    Prop where
  | moves (hmove : Move (sys.transactions i) ((sys.transactions i).view sys.server.db) free s
        (sys'.transactions i))
      (hrunning : (sys'.transactions i).ending.isRunning = true)
      (hdb : sys'.server.db = sys.server.db)
  | commits (response : SyncResponseDto) (hahead : (sys.transactions i).ahead = [])
      (ht : sys'.transactions i = { sys.transactions i with ending := .committed response })
      (hdb : sys'.server.db = (sys.transactions i).view sys.server.db)
  | aborts (ht : sys'.transactions i = { sys.transactions i with ending := .aborted })
      (hdb : sys'.server.db = sys.server.db)

theorem Move.ending {t t' : Transaction pg} {view : Database pg} {free : JsString → Bool}
    {s : Statement pg} (h : Move t view free s t') : t'.ending = t.ending := by
  cases h <;> rfl

theorem Move.call {t t' : Transaction pg} {view : Database pg} {free : JsString → Bool}
    {s : Statement pg} (h : Move t view free s t') : t'.call = t.call := by
  cases h <;> rfl

/-- A step is one of a running transaction, and leaves the others alone. -/
theorem System.step_cases [Fintype ι] [DecidableEq ι] {sys sys' : System pg ι} {i : ι}
    {s : Statement pg} (h : sys.step i s = some sys') :
    (sys.transactions i).ending.isRunning = true ∧
      (∀ j, j ≠ i → sys'.transactions j = sys.transactions j) ∧
      Effect sys sys' i (sys.free i (sys.transactions i).collection) s := by
  unfold System.step at h
  by_cases hrunning : (sys.transactions i).ending.isRunning = true
  · simp only [if_pos hrunning] at h
    have hmoves : ∀ t', Move (sys.transactions i) ((sys.transactions i).view sys.server.db)
        (sys.free i (sys.transactions i).collection) s t' →
        sys' = { sys with transactions := Function.update sys.transactions i t' } →
        (sys.transactions i).ending.isRunning = true ∧
          (∀ j, j ≠ i → sys'.transactions j = sys.transactions j) ∧
          Effect sys sys' i (sys.free i (sys.transactions i).collection) s := by
      intro t' hmove hsys
      have hself : sys'.transactions i = t' := by
        rw [hsys]
        exact Function.update_self _ _ _
      rw [← hself] at hmove
      refine ⟨hrunning, fun j hj => ?_, .moves hmove (by rwa [hmove.ending]) (by rw [hsys])⟩
      rw [hsys]
      exact Function.update_of_ne hj _ _
    split at h
    · rename_i change rest hahead
      obtain ⟨t', ht', hsys⟩ := Option.map_eq_some_iff.mp h
      exact hmoves t' (.of_issueLoad hahead ht') hsys.symm
    · rename_i seen change rest hahead
      obtain ⟨t', ht', hsys⟩ := Option.map_eq_some_iff.mp h
      exact hmoves t' (.of_issueInsert hahead ht') hsys.symm
    · rename_i change rest hahead
      obtain ⟨t', ht', hsys⟩ := Option.map_eq_some_iff.mp h
      exact hmoves t' (.of_issueLock hahead ht') hsys.symm
    · rename_i change rest hahead
      obtain ⟨t', ht', hsys⟩ := Option.map_eq_some_iff.mp h
      exact hmoves t' (.of_issueMerge hahead ht') hsys.symm
    · rename_i hahead
      obtain ⟨pulled, -, rfl⟩ := Option.map_eq_some_iff.mp h
      exact ⟨hrunning, fun j hj => Function.update_of_ne hj _ _,
        .commits _ hahead (Function.update_self _ _ _) rfl⟩
    · obtain rfl := Option.some.inj h
      exact ⟨hrunning, fun j hj => Function.update_of_ne hj _ _,
        .aborts (Function.update_self _ _ _) rfl⟩
    · cases h
  · simp only [if_neg hrunning] at h
    cases h

namespace Effect

variable {sys sys' : System pg ι} {i : ι} {free : JsString → Bool} {s : Statement pg}

/-- A transaction that is still running has moved. -/
theorem move (h : Effect sys sys' i free s)
    (hrunning : (sys'.transactions i).ending.isRunning = true) :
    Move (sys.transactions i) ((sys.transactions i).view sys.server.db) free s
        (sys'.transactions i) ∧
      sys'.server.db = sys.server.db := by
  cases h with
  | moves hmove _ hdb => exact ⟨hmove, hdb⟩
  | commits response hahead ht hdb =>
      rw [ht] at hrunning
      cases hrunning
  | aborts ht hdb =>
      rw [ht] at hrunning
      cases hrunning

/-- A transaction that is committed now was at its end. -/
theorem commit (h : Effect sys sys' i free s)
    (hcommitted : (sys'.transactions i).ending.isCommitted = true) :
    (sys.transactions i).ahead = [] ∧
      (sys'.transactions i).processed = (sys.transactions i).processed ∧
      sys'.server.db = (sys.transactions i).view sys.server.db := by
  cases h with
  | moves hmove hrunning hdb =>
      cases hending : (sys'.transactions i).ending with
      | running =>
          rw [hending] at hcommitted
          cases hcommitted
      | committed response =>
          rw [hending] at hrunning
          cases hrunning
      | aborted =>
          rw [hending] at hrunning
          cases hrunning
  | commits response hahead ht hdb => exact ⟨hahead, by rw [ht], hdb⟩
  | aborts ht hdb =>
      rw [ht] at hcommitted
      cases hcommitted

/-- The tables are as they were, or as the transaction saw them. -/
theorem db_eq (h : Effect sys sys' i free s) :
    sys'.server.db = sys.server.db ∨
      sys'.server.db = (sys.transactions i).view sys.server.db := by
  cases h with
  | moves _ _ hdb => exact Or.inl hdb
  | commits _ _ _ hdb => exact Or.inr hdb
  | aborts _ hdb => exact Or.inl hdb

/-- The call of a transaction stays. -/
theorem call (h : Effect sys sys' i free s) :
    (sys'.transactions i).call = (sys.transactions i).call := by
  cases h with
  | moves hmove _ _ => exact hmove.call
  | commits _ _ ht _ => rw [ht]
  | aborts ht _ => rw [ht]

end Effect

/-! ## Locks -/

namespace Transaction

theorem lookup_hold (t : Transaction pg) (k j : JsString) (row : Row pg t.collection) :
    ((t.hold k row).held t.collection).lookup j =
      if j = k then some row else (t.held t.collection).lookup j := by
  simp [hold, Dict.lookup_insert_eq]

theorem lookup_hold_self (t : Transaction pg) (k : JsString) (row : Row pg t.collection) :
    ((t.hold k row).held t.collection).lookup k = some row := by
  rw [lookup_hold, if_pos rfl]

theorem mem_hold (t : Transaction pg) (k : JsString) (row : Row pg t.collection) :
    k ∈ (t.hold k row).held t.collection :=
  AList.lookup_isSome.mp (Option.isSome_of_eq_some (t.lookup_hold_self k row))

theorem held_hold_of_ne (t : Transaction pg) (k : JsString) (row : Row pg t.collection)
    {c : SyncCollection} (hc : c ≠ t.collection) : (t.hold k row).held c = t.held c := by
  simp [hold, hc]

theorem find_view (t : Transaction pg) (db : Database pg) (c : SyncCollection) (k : JsString) :
    (t.view db).find c k = ((t.held c).lookup k).or (db.find c k) :=
  db.find_overlay t.held c k

/-- The change the loop is at names a record. -/
def Names (t : Transaction pg) (k : JsString) : Prop :=
  ∃ change rest, t.ahead = change :: rest ∧ pg.uuid change.id = some k

/-- A running transaction holds rows of its collection only; the rows it did not
insert are in its organization, and so is the record it is about to lock. -/
structure Sound (t : Transaction pg) (db : Database pg) : Prop where
  only : ∀ c, c ≠ t.collection → t.held c = ∅
  held : ∀ k row, (t.held t.collection).lookup k = some row →
    db.find t.collection k = none ∨ db.owner t.collection k = some t.call.orgId ∧
      db.parentOrg t.collection row = some t.call.orgId
  found : ∀ k, t.stage = .found k → t.Names k ∧
    (k ∈ t.held t.collection ∨ db.owner t.collection k = some t.call.orgId)
  locked : ∀ k, t.stage = .locked k → t.Names k ∧ k ∈ t.held t.collection
  ordered : t.processed ++ t.ahead = orderedChanges t.call.req.changes

namespace Sound

variable {t t' : Transaction pg} {db db' : Database pg}

theorem start (call : SyncCall) : (Transaction.start call : Transaction pg).Sound db where
  only _ _ := rfl
  held := by simp [Transaction.start]
  found := by simp [Transaction.start]
  locked := by simp [Transaction.start]
  ordered := rfl

/-- A transaction between two changes. -/
theorem of_next (hstage : t.stage = .next) (honly : ∀ c, c ≠ t.collection → t.held c = ∅)
    (hheld : ∀ k row, (t.held t.collection).lookup k = some row →
      db.find t.collection k = none ∨ db.owner t.collection k = some t.call.orgId ∧
        db.parentOrg t.collection row = some t.call.orgId)
    (hordered : t.processed ++ t.ahead = orderedChanges t.call.req.changes) : t.Sound db where
  only := honly
  held := hheld
  found := by simp [hstage]
  locked := by simp [hstage]
  ordered := hordered

/-- A transaction sees the other tables as they are committed. -/
theorem table_view (h : t.Sound db) {c : SyncCollection} (hc : c ≠ t.collection) :
    (t.view db).table c = db.table c := by
  simp [view, Database.overlay, h.only c hc]

theorem parentOrg_view (h : t.Sound db) :
    (t.view db).parentOrg t.collection = db.parentOrg t.collection :=
  Database.parentOrg_congr fun _ hc => h.table_view hc

/-- What a transaction sees has every record in its organization. -/
theorem owner_view (h : t.Sound db) {c : SyncCollection} {j o : JsString}
    (hj : db.owner c j = some o) : (t.view db).owner c j = some o := by
  refine Database.owner_of_table (fun c hc => h.table_view hc) (fun k p hk => ?_) hj
  obtain ⟨row, hrow, hparent⟩ := Option.bind_eq_some_iff.mp hk
  rw [find_view, hrow]
  cases hheld : (t.held t.collection).lookup k with
  | none => exact ⟨row, rfl, hparent⟩
  | some mine =>
      refine ⟨mine, rfl, ?_⟩
      rcases h.held k mine hheld with hnone | ⟨howner, hmine⟩
      · rw [hrow] at hnone
        cases hnone
      · rw [hmine, ← howner, hk]

/-- A row that is not held is in the organization it is seen in. -/
theorem owner_of_view (h : t.Sound db) {k o : JsString} (hk : k ∉ t.held t.collection)
    (ho : (t.view db).owner t.collection k = some o) : db.owner t.collection k = some o := by
  rw [Database.owner, find_view, AList.lookup_eq_none.mpr hk, Option.none_or,
    h.parentOrg_view] at ho
  exact ho

/-- The loop goes on in the order of the ids. -/
theorem ordered_advance (h : t.Sound db) {change : SyncChangeDto} {rest : List SyncChangeDto}
    (hahead : t.ahead = change :: rest) :
    t.processed ++ t.ahead.take 1 ++ t.ahead.tail = orderedChanges t.call.req.changes := by
  rw [← h.ordered, List.append_assoc, hahead]
  rfl

/-- Holding one more row of the organization, or a fresh one. -/
theorem hold (h : t.Sound db) {k : JsString} {row : Row pg t.collection}
    (hrow : db.find t.collection k = none ∨ db.owner t.collection k = some t.call.orgId ∧
      db.parentOrg t.collection row = some t.call.orgId) :
    (∀ c, c ≠ t.collection → (t.hold k row).held c = ∅) ∧
      ∀ j r, ((t.hold k row).held t.collection).lookup j = some r →
        db.find t.collection j = none ∨ db.owner t.collection j = some t.call.orgId ∧
          db.parentOrg t.collection r = some t.call.orgId := by
  refine ⟨fun c hc => (t.held_hold_of_ne k row hc).trans (h.only c hc), fun j r hj => ?_⟩
  rw [lookup_hold] at hj
  by_cases hjk : j = k
  · rw [if_pos hjk] at hj
    obtain rfl := Option.some.inj hj
    exact hjk ▸ hrow
  · exact h.held j r (by rwa [if_neg hjk] at hj)

/-- A move keeps a transaction sound. -/
theorem move (h : t.Sound db) {free : JsString → Bool} {s : Statement pg}
    (hmove : Move t (t.view db) free s t') : t'.Sound db := by
  cases hmove with
  | stays _ stage hlocked hfound =>
      refine ⟨h.only, h.held, fun k hk => ?_, fun k hk => absurd hk (hlocked k), h.ordered⟩
      obtain ⟨howner, hnames⟩ := hfound k hk
      refine ⟨hnames, ?_⟩
      by_cases hheld : k ∈ t.held t.collection
      · exact Or.inl hheld
      · exact Or.inr (h.owner_of_view hheld howner)
  | skips _ change rest hahead _ =>
      exact .of_next rfl h.only h.held (h.ordered_advance hahead)
  | inserts _ change rest k row _ _ hahead hk hfree hnone =>
      rw [find_view, Option.or_eq_none_iff] at hnone
      have hrow : db.find t.collection k = none ∨
          db.owner t.collection k = some t.call.orgId ∧
            db.parentOrg t.collection row = some t.call.orgId := Or.inl hnone.2
      obtain ⟨honly, hheld⟩ := h.hold hrow
      exact .of_next rfl honly hheld (h.ordered_advance hahead)
  | locks _ k row hstage hfree hfind =>
      obtain ⟨hnames, hauthorized⟩ := h.found k hstage
      have hrow : db.find t.collection k = none ∨
          db.owner t.collection k = some t.call.orgId ∧
            db.parentOrg t.collection row = some t.call.orgId := by
        rw [find_view] at hfind
        cases hmine : (t.held t.collection).lookup k with
        | some mine =>
            rw [hmine, Option.some_or] at hfind
            exact Option.some.inj hfind ▸ h.held k mine hmine
        | none =>
            rw [hmine, Option.none_or] at hfind
            have howner := hauthorized.resolve_left (AList.lookup_eq_none.mp hmine)
            refine Or.inr ⟨howner, ?_⟩
            rwa [Database.owner, hfind] at howner
      obtain ⟨honly, hheld⟩ := h.hold hrow
      refine ⟨honly, hheld, by simp, fun j hj => ?_, h.ordered⟩
      obtain rfl := Stage.locked.inj hj
      exact ⟨hnames, t.mem_hold k row⟩
  | merges change rest k row row' _ _ _ hahead hstage hfind heffect hcreated =>
      obtain ⟨mine, hmine⟩ := Option.isSome_iff_exists.mp
        (AList.lookup_isSome.mpr (h.locked k hstage).2)
      rw [find_view, hmine, Option.some_or] at hfind
      obtain rfl := Option.some.inj hfind
      have hrow : db.find t.collection k = none ∨
          db.owner t.collection k = some t.call.orgId ∧
            db.parentOrg t.collection row' = some t.call.orgId := by
        refine (h.held k mine hmine).imp_right fun hin => ⟨hin.1, ?_⟩
        rw [← h.parentOrg_view] at hin ⊢
        exact heffect.parentOrg hin.2
      obtain ⟨honly, hheld⟩ := h.hold hrow
      exact .of_next rfl honly hheld (h.ordered_advance hahead)

/-- The commit of another transaction keeps a transaction sound, if it leaves the
rows this one holds alone. -/
theorem congr (h : t.Sound db)
    (howner : ∀ c j o, db.owner c j = some o → db'.owner c j = some o)
    (hsame : ∀ k ∈ t.held t.collection, db'.find t.collection k = db.find t.collection k) :
    t.Sound db' where
  only := h.only
  held k row hk := by
    rw [hsame k (AList.lookup_isSome.mp (Option.isSome_of_eq_some hk))]
    exact (h.held k row hk).imp_right fun hin =>
      ⟨howner _ k _ hin.1, Database.parentOrg_of_owner howner hin.2⟩
  found k hk := ⟨(h.found k hk).1, (h.found k hk).2.imp_right (howner _ k _)⟩
  locked := h.locked
  ordered := h.ordered

end Sound

end Transaction

/-- A move takes hold of free rows only. -/
theorem Move.held {t t' : Transaction pg} {view : Database pg} {free : JsString → Bool}
    {s : Statement pg} (h : Move t view free s t') (hlocked : ∀ k, t.stage = .locked k →
      k ∈ t.held t.collection) {c : SyncCollection} {k : JsString} (hk : k ∈ t'.held c) :
    k ∈ t.held c ∨ c = t.collection ∧ free k = true := by
  have hhold : ∀ j row, k ∈ (t.hold j row).held c →
      k ∈ t.held c ∨ c = t.collection ∧ k = j := by
    intro j row hmem
    by_cases hc : c = t.collection
    · subst hc
      rw [← AList.lookup_isSome, Transaction.lookup_hold] at hmem
      by_cases hj : k = j
      · exact Or.inr ⟨rfl, hj⟩
      · rw [if_neg hj] at hmem
        exact Or.inl (AList.lookup_isSome.mp hmem)
    · rw [Transaction.held_hold_of_ne t j row hc] at hmem
      exact Or.inl hmem
  cases h with
  | stays => exact Or.inl hk
  | skips => exact Or.inl hk
  | inserts _ change rest j row _ _ hahead hj hfree hnone =>
      rcases hhold j row hk with hk | ⟨hc, rfl⟩
      · exact Or.inl hk
      · exact Or.inr ⟨hc, hfree⟩
  | locks _ j row hstage hfree hfind =>
      rcases hhold j row hk with hk | ⟨hc, rfl⟩
      · exact Or.inl hk
      · exact Or.inr ⟨hc, hfree⟩
  | merges change rest j row row' _ _ _ hahead hstage hfind heffect hcreated =>
      rcases hhold j row' hk with hk | ⟨rfl, rfl⟩
      · exact Or.inl hk
      · exact Or.inl (hlocked k hstage)

/-- Every running transaction is sound, and no two of them hold one row. -/
structure System.LockInv (sys : System pg ι) : Prop where
  sound : ∀ i, (sys.transactions i).ending.isRunning = true →
    (sys.transactions i).Sound sys.server.db
  exclusive : ∀ i j, i ≠ j → (sys.transactions i).ending.isRunning = true →
    (sys.transactions j).ending.isRunning = true → ∀ c k,
      k ∈ (sys.transactions i).held c → k ∉ (sys.transactions j).held c
  complete : ∀ i, (sys.transactions i).ending.isCommitted = true →
    (sys.transactions i).processed = orderedChanges (sys.transactions i).call.req.changes

namespace System.LockInv

variable {sys sys' : System pg ι} {server : ServerState pg} {calls : ι → SyncCall}

theorem start : (System.start server calls).LockInv where
  sound i _ := .start (calls i)
  exclusive _ _ _ _ _ _ _ hk := absurd hk (AList.notMem_empty _)
  complete _ h := by cases h

variable [Fintype ι] [DecidableEq ι] {i : ι} {s : Statement pg}

/-- Every record stays in its organization. -/
theorem owner (h : sys.LockInv) (hstep : sys.step i s = some sys') {c : SyncCollection}
    {j o : JsString} (hj : sys.server.db.owner c j = some o) :
    sys'.server.db.owner c j = some o := by
  obtain ⟨hrunning, -, heffect⟩ := System.step_cases hstep
  rcases heffect.db_eq with hdb | hdb
  · rwa [hdb]
  · rw [hdb]
    exact (h.sound i hrunning).owner_view hj

/-- A step of one transaction leaves the rows another one holds alone. -/
theorem find_held (h : sys.LockInv) (hstep : sys.step i s = some sys') {j : ι} (hij : j ≠ i)
    (hj : (sys.transactions j).ending.isRunning = true) {c : SyncCollection} {k : JsString}
    (hk : k ∈ (sys.transactions j).held c) : sys'.server.db.find c k = sys.server.db.find c k := by
  obtain ⟨hrunning, -, heffect⟩ := System.step_cases hstep
  rcases heffect.db_eq with hdb | hdb
  · rw [hdb]
  · rw [hdb, Transaction.find_view,
      AList.lookup_eq_none.mpr (h.exclusive j i hij hj hrunning c k hk), Option.none_or]

/-- No two transactions hold one row after a step: the one that moves takes hold of
free rows only. -/
theorem exclusive_step (h : sys.LockInv) (hstep : sys.step i s = some sys') (j j' : ι)
    (hne : j ≠ j') (hj : (sys'.transactions j).ending.isRunning = true)
    (hj' : (sys'.transactions j').ending.isRunning = true) (c : SyncCollection) (k : JsString)
    (hk : k ∈ (sys'.transactions j).held c) : k ∉ (sys'.transactions j').held c := by
  obtain ⟨hrunning, hothers, heffect⟩ := System.step_cases hstep
  have hfree : ∀ j, j ≠ i → (sys.transactions j).ending.isRunning = true →
      (sys'.transactions i).ending.isRunning = true →
      k ∈ (sys'.transactions i).held c → k ∉ (sys.transactions j).held c := by
    intro j hij hj hi hmem
    obtain ⟨hmove, -⟩ := heffect.move hi
    rcases hmove.held (fun k hk => ((h.sound i hrunning).locked k hk).2) hmem with
      hmine | ⟨rfl, hfree⟩
    · exact h.exclusive i j (Ne.symm hij) hrunning hj c k hmine
    · exact of_decide_eq_true hfree j hij hj
  by_cases hji : j = i
  · subst hji
    rw [hothers j' (Ne.symm hne)] at hj' ⊢
    exact hfree j' (Ne.symm hne) hj' hj hk
  · rw [hothers j hji] at hj hk
    by_cases hji' : j' = i
    · subst hji'
      exact fun hmem => hfree j hji hj hj' hmem hk
    · rw [hothers j' hji'] at hj' ⊢
      exact h.exclusive j j' hne hj hj' c k hk

theorem step (h : sys.LockInv) (hstep : sys.step i s = some sys') : sys'.LockInv := by
  obtain ⟨hrunning, hothers, heffect⟩ := System.step_cases hstep
  refine ⟨fun j hj => ?_, h.exclusive_step hstep, fun j hj => ?_⟩
  · by_cases hij : j = i
    · subst hij
      obtain ⟨hmove, hdb⟩ := heffect.move hj
      rw [hdb]
      exact (h.sound j hrunning).move hmove
    · rw [hothers j hij] at hj ⊢
      exact (h.sound j hj).congr (fun c k o ho => h.owner hstep ho)
        fun k hk => h.find_held hstep hij hj hk
  · by_cases hij : j = i
    · subst hij
      obtain ⟨hahead, hprocessed, -⟩ := heffect.commit hj
      have hordered := (h.sound j hrunning).ordered
      rwa [hahead, List.append_nil, ← hprocessed, ← heffect.call] at hordered
    · rw [hothers j hij] at hj ⊢
      exact h.complete j hj

end System.LockInv

end FlowLogix.Server
