/-
  Server/StoredClocks.lean --- the clocks a sync stores, and the clocks a pull can
  read.

  `numericClocks` keeps any finite number, and the merge and the insert store what
  it keeps.  The predicate of the delta pull casts every stored clock to `bigint`,
  so a clock of 1.5 in one row makes each later pull of the organization fail.
  `run_castable` says that nothing else does: as long as the clocks that reach a
  row are 64-bit integers, every clock in the tables is one.
-/
import FlowLogix.Server.BadChange
import FlowLogix.Server.DeltaPull

set_option autoImplicit false

namespace FlowLogix.Server

open FlowLogix.Foundation

variable {pg : Postgres} {orgId : JsString} {c : SyncCollection} {db : Database pg}
  {change : SyncChangeDto}

/-! ## Rows -/

theorem castable_iff {row : Row pg c} :
    castable row = true ↔
      ∀ field clock, row.syncClocks.lookup field = some clock → isBigint clock = true := by
  rw [castable, List.all_eq_true]
  constructor
  · intro h field clock hclock
    exact h clock (Dict.mem_values_iff.mpr ⟨field, hclock⟩)
  · intro h clock hmem
    obtain ⟨field, hclock⟩ := Dict.mem_values_iff.mp hmem
    exact h field clock hclock

/-- An absent clock reads as 0, which is a `bigint` as well. -/
theorem isBigint_readClock {row : Row pg c} (h : castable row = true) (field : String) :
    isBigint (readClock row.syncClocks field) = true := by
  rw [readClock]
  cases hclock : row.syncClocks.lookup field with
  | none => decide
  | some clock => exact castable_iff.mp h field clock hclock

/-- A patch stores the clocks of the synced fields and no others. -/
theorem mem_syncFields_of_patchRow {row row' : Row pg c}
    (h : patchRow row (mergeInto db orgId row change).merged = .ok row') {field : String}
    {clock : Clock} (hclock : row'.syncClocks.lookup field = some clock) :
    field ∈ syncFields c := by
  obtain ⟨-, -, hclocks, -⟩ := patchRow_eq_ok h
  have hlookup := lookup_merged_clocks (serverState row)
    (clientState db orgId (syncFields c) change) field
  rw [hclocks, mergeInto, hlookup] at hclock
  by_contra hf
  rw [if_neg (mt (mem_fields_iff db orgId row change).mp hf)] at hclock
  cases hclock

/-- The tables hold only clocks a pull can read. -/
def Castable (db : Database pg) : Prop :=
  ∀ c k (row : Row pg c), db.find c k = some row → castable row = true

theorem Castable.put {k : JsString} {row : Row pg c} (h : Castable db)
    (hrow : castable row = true) : Castable (db.put k row) := by
  intro c' j r hr
  by_cases hc : c' = c
  · subst hc
    rw [Database.find_put] at hr
    split at hr
    · exact Option.some.inj hr ▸ hrow
    · exact h c' j r hr
  · rw [Database.find_put_of_ne db k j row hc] at hr
    exact h c' j r hr

/-- Every pull of such tables succeeds. -/
theorem Castable.pullSinceCheckpoint (h : Castable db) (c : SyncCollection) (orgId : JsString)
    (since : Nat) (excludeIds : List JsString) (limit : Nat) :
    ∃ rows, Server.pullSinceCheckpoint db c orgId since excludeIds limit = .ok rows := by
  have hrows : ((db.orgRows c orgId).all fun e => castable e.2) = true := by
    rw [List.all_eq_true]
    rintro ⟨k, row⟩ hmem
    exact h c k row (mem_orgRows.mp hmem).1
  exact ⟨_, if_pos hrows⟩

/-! ## One change -/

/-- The change brings a clock that no pull can read to a row: with a field it wins,
or with a record it inserts. -/
def StoresOddClock (db : Database pg) (orgId : JsString) (c : SyncCollection)
    (change : SyncChangeDto) : Prop :=
  ∃ k, pg.uuid change.id = some k ∧
    if db.owner c k = some orgId then
      ∃ row, db.find c k = some row ∧ ∃ field ∈ syncFields c,
        row.stamp field < sentStamp db orgId change field ∧
          isBigint (ofLex (sentStamp db orgId change field)).1 = false
    else insertable db orgId c change = true ∧ ∃ field ∈ syncFields c, ∃ clock,
      sentClock change field = some clock ∧ isBigint clock = false

/-- A merge that stores no odd clock leaves a castable row. -/
theorem castable_of_writeMerged {k id : JsString} {row : Row pg c}
    {written : Database pg × List PendingBoardEvent} (hdb : Castable db)
    (hfind : db.find c k = some row)
    (hclocks : ∀ field ∈ syncFields c, row.stamp field < sentStamp db orgId change field →
      isBigint (ofLex (sentStamp db orgId change field)).1 = true)
    (h : writeMerged db k id row (mergeInto db orgId row change) = .ok written) :
    Castable written.1 := by
  have hrow := hdb c k row hfind
  unfold writeMerged at h
  split at h
  · obtain ⟨row', hpatch, hpair⟩ := bind_eq_ok.mp h
    obtain rfl := Except.ok.inj hpair
    have heffect := mergeEffect_of_patchRow hpatch
    refine hdb.put (castable_iff.mpr fun field clock hclock => ?_)
    have hf := mem_syncFields_of_patchRow hpatch hclock
    have hread : readClock row'.syncClocks field = clock := readClock_of_lookup hclock
    rw [← hread]
    by_cases hwins : row.stamp field < sentStamp db orgId change field
    · rw [heffect.wonClock field hf hwins]
      exact hclocks field hf hwins
    · rw [(heffect.kept field hf hwins).2]
      exact isBigint_readClock hrow field
  · obtain rfl := Except.ok.inj h
    exact hdb

/-- One change that stores no odd clock keeps the tables castable. -/
theorem processChange_castable {now : Nat} {loop loop' : SyncLoop pg} (hdb : Castable loop.db)
    (hodd : ¬ StoresOddClock loop.db orgId c change)
    (h : processChange orgId c now loop change = .ok loop') : Castable loop'.db := by
  obtain ⟨k, hk, hstep⟩ := processChange_eq_ok h
  cases hstep with
  | merged row written howner hfind hwritten =>
      refine castable_of_writeMerged hdb hfind (fun field hf hwins => ?_) hwritten
      by_contra hnot
      refine hodd ⟨k, hk, ?_⟩
      rw [if_pos howner]
      exact ⟨row, hfind, field, hf, hwins, by simpa using hnot⟩
  | refused _ _ => exact hdb
  | inserted db howner hinserted =>
      obtain ⟨k', row, -, -, rfl, heffect⟩ := tryInsert_eq_ok hinserted
      refine hdb.put (castable_iff.mpr fun field clock hclock => ?_)
      rw [heffect.clocks, lookup_numericClocks] at hclock
      split at hclock
      · rename_i hf
        by_contra hnot
        refine hodd ⟨k, hk, ?_⟩
        rw [if_neg howner]
        refine ⟨?_, field, hf, clock, hclock, by simpa using hnot⟩
        by_contra hrefused
        rw [tryInsert_refused_iff.mpr (by simpa using hrefused)] at hinserted
        cases hinserted
      · cases hclock

/-! ## A run -/

/-- No change of the request stores an odd clock. -/
def TenantStep.StoresNoOddClock (s : TenantStep pg) : Prop :=
  ∀ db change, s.step.Processes db change →
    ¬ StoresOddClock db s.orgId s.step.req.collection change

/-- **Pulls go through as long as only `bigint` clocks are stored.** Along a run of
requests, of any organizations, none of which stores an odd clock, every stored
clock is a 64-bit integer and no pull fails. -/
theorem run_castable {server : ServerState pg} {steps : List (TenantStep pg)}
    (hrun : IsTenantRun server steps) (hodd : ∀ s ∈ steps, s.StoresNoOddClock)
    (hserver : Castable server.db) :
    ∀ s ∈ steps, Castable s.step.result.server.db ∧
      ∀ c orgId since excludeIds limit, ∃ rows,
        pullSinceCheckpoint s.step.result.server.db c orgId since excludeIds limit = .ok rows := by
  have hrows := hrun.invariant Castable (fun s hs hbefore => ?_) hserver
  · intro s hs
    exact ⟨hrows s hs, (hrows s hs).pullSinceCheckpoint⟩
  · refine s.step.invariant Castable (fun change loop loop' hprocesses hloop h => ?_) hbefore
    exact processChange_castable hloop (hodd s hs loop.db change hprocesses) h

/-! ### A clock of 1.5 -/

/-- What the validation pipe checks of a request beyond its types. -/
def SyncRequestDto.passesValidation (req : SyncRequestDto) : Bool :=
  decide (req.changes.length ≤ maxSyncChanges) &&
    req.changes.all fun change => change.deletedAt.all fun deletedAt => deletedAt.den == 1

namespace OddClock

/-- A board with a list, and no clocks. -/
def server : ServerState Postgres.plain where
  db := Sample.database ∅
  lastMicros := 0

theorem server_castable : Castable server.db := by
  intro c k row hrow
  have hall : ∀ c, ((server.db.table c).values.all castable) = true := by
    intro c
    cases c <;> decide +kernel
  exact List.all_eq_true.mp (hall c) row (Dict.mem_values_iff.mpr ⟨k, hrow⟩)

/-- A device renames the board under a clock. -/
def rename (clock : Clock) : SyncRequestDto where
  collection := .boards
  sinceCheckpoint := 0
  changes := [
    { id := Sample.boardId
      fields := Dict.ofList [("title", .str (js "Plans"))]
      clocks := Dict.ofList [("title", some clock)]
      nodeId := js "device"
      deletedAt := none }]

def step (clock : Clock) (h : (sync Sample.orgId 1 server (rename clock)).isOk = true) :
    TenantStep Postgres.plain where
  orgId := Sample.orgId
  step := .of server 1 (rename clock) h

/-- The clock is a number of microseconds. -/
def whole : TenantStep Postgres.plain := step 5 (by decide +kernel)

/-- The clock is 1.5. -/
def half : TenantStep Postgres.plain := step (3 / 2) (by decide +kernel)

theorem whole_storesNoOddClock : whole.StoresNoOddClock := by
  rintro db change ⟨pre, post, loop, hordered, -⟩ ⟨k, -, h⟩
  have hmem : change ∈ orderedChanges (rename 5).changes := by
    rw [show orderedChanges (rename 5).changes = _ from hordered]
    simp
  obtain rfl := List.mem_singleton.mp (mem_orderedChanges.mp hmem)
  split at h
  · obtain ⟨row, -, field, hf, -, hodd⟩ := h
    obtain rfl : field = "title" := List.mem_singleton.mp hf
    have hclock : isBigint 5 = false := hodd
    exact absurd hclock (by decide)
  · obtain ⟨-, field, hf, clock, hclock, hodd⟩ := h
    obtain rfl : field = "title" := List.mem_singleton.mp hf
    obtain rfl : 5 = clock := Option.some.inj hclock
    exact absurd hodd (by decide)

end OddClock

/-- After a rename under a whole clock every stored clock is one, and pulls go
through. -/
theorem whole_castable : Castable OddClock.whole.step.result.server.db ∧
    ∀ c orgId since excludeIds limit, ∃ rows,
      pullSinceCheckpoint OddClock.whole.step.result.server.db c orgId since excludeIds limit =
        .ok rows := by
  have hrun : IsTenantRun OddClock.server [OddClock.whole] := ⟨rfl, trivial⟩
  have hodd : ∀ s ∈ [OddClock.whole], s.StoresNoOddClock :=
    List.forall_mem_singleton.mpr OddClock.whole_storesNoOddClock
  exact run_castable hrun hodd OddClock.server_castable OddClock.whole List.mem_cons_self

/-- A rename under the clock 1.5 passes validation and is stored, and the pulls of
the organization fail from then on. -/
theorem halfClock_stored : ¬ ∀ (server : ServerState Postgres.plain)
    (steps : List (TenantStep Postgres.plain)), IsTenantRun server steps → Castable server.db →
      (∀ s ∈ steps, s.step.req.passesValidation = true) →
        ∀ s ∈ steps, Castable s.step.result.server.db ∧
          ∀ c orgId since excludeIds limit, ∃ rows,
            pullSinceCheckpoint s.step.result.server.db c orgId since excludeIds limit =
              .ok rows := by
  intro hclaim
  have hvalid : ∀ s ∈ [OddClock.half], s.step.req.passesValidation = true :=
    List.forall_mem_singleton.mpr (by decide +kernel)
  obtain ⟨-, hpulls⟩ := hclaim OddClock.server [OddClock.half] ⟨rfl, trivial⟩
    OddClock.server_castable hvalid OddClock.half List.mem_cons_self
  obtain ⟨rows, hpull⟩ := hpulls .boards Sample.orgId 1 [] maxSyncChanges
  have hfails : (pullSinceCheckpoint OddClock.half.step.result.server.db .boards Sample.orgId 1 []
      maxSyncChanges).isOk = false := by decide +kernel
  rw [hpull] at hfails
  cases hfails

end FlowLogix.Server
