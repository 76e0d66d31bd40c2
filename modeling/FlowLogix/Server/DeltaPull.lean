/-
  Server/DeltaPull.lean --- what a pull returns, and what it misses.

  A request without changes is a pull.  `pull_eq_ok` says what it returns: the
  first `MAX_SYNC_CHANGES` rows of the organization, by id, that are stamped
  after the checkpoint it names, and nothing at checkpoint 0.  The checkpoint
  is a reading of the server's clock and the stamps are readings of the devices'
  clocks, so an edit made before a pull and pushed after it can stay below the
  next checkpoint: `secondPull_covers_iff` says which versions committed between
  two pulls reach the second one.
-/
import FlowLogix.Server.SyncRun

set_option autoImplicit false

namespace FlowLogix.Server

open FlowLogix.Foundation
open FlowLogix.Crdt (VersionedRecord)

variable {pg : Postgres} {orgId : JsString} {c : SyncCollection}

/-! ## A pull -/

/-- The request of a pull: no changes. -/
def pullRequest (c : SyncCollection) (since : Nat) : SyncRequestDto where
  collection := c
  sinceCheckpoint := since
  changes := []

/-- The rows of the organization stamped after a checkpoint that fit in one
response, in the order of their ids. -/
def page (db : Database pg) (c : SyncCollection) (orgId : JsString) (since : Nat) :
    List (JsString × Row pg c) :=
  ((db.orgRows c orgId).filter fun e => stampedAfter since e.2).take maxSyncChanges

theorem mem_of_mem_page {db : Database pg} {since : Nat} {e : JsString × Row pg c}
    (h : e ∈ page db c orgId since) : e ∈ db.orgRows c orgId ∧ stampedAfter since e.2 = true :=
  List.mem_filter.mp (List.mem_of_mem_take h)

/-- A page is not cut when the rows that are stamped after the checkpoint fit. -/
theorem mem_page_iff {db : Database pg} {since : Nat} {e : JsString × Row pg c}
    (hroom : ((db.orgRows c orgId).filter fun e => stampedAfter since e.2).length ≤
      maxSyncChanges) :
    e ∈ page db c orgId since ↔ e ∈ db.orgRows c orgId ∧ stampedAfter since e.2 = true := by
  rw [page, List.take_of_length_le hroom, List.mem_filter]

section Pull

variable {since now : Nat} {server : ServerState pg} {result : SyncResult pg}

/-- A pull reads one page at a positive checkpoint, and nothing at 0. -/
theorem deltaPull_start {db : Database pg} :
    deltaPull (.start db) c orgId since =
      if 0 < since then
        if (db.orgRows c orgId).all fun e => castable e.2 then
          .ok ((page db c orgId since).map fun e => (serverState e.2).sent e.1)
        else .error .rejectedStatement
      else .ok [] := by
  by_cases hsince : 0 < since
  · have hall : ∀ rows : List (JsString × Row pg c),
        (rows.filter fun e => decide (e.1 ∉ ([] : List JsString))) = rows :=
      fun rows => List.filter_eq_self.mpr (by simp)
    rw [deltaPull, if_pos ⟨hsince, (by decide : 0 < maxSyncChanges)⟩, if_pos hsince]
    show pullSinceCheckpoint db c orgId since [] maxSyncChanges = _
    unfold pullSinceCheckpoint
    simp only [hall, List.length_nil, Nat.add_zero, List.take_take, min_self]
    rfl
  · rw [deltaPull, if_neg (fun h => hsince h.1), if_neg hsince]

/-- A committed pull: the tables stay as they are, the checkpoint is the server's
clock, and the response is one page, or nothing at checkpoint 0. -/
theorem pull_eq_ok (h : sync orgId now server (pullRequest c since) = .ok result) :
    result.server.db = server.db ∧
      result.server.lastMicros = nowMicros server.lastMicros now ∧
      result.response.checkpoint = nowMicros server.lastMicros now ∧
      result.response.changes = if 0 < since then
        (page server.db c orgId since).map fun e => (serverState e.2).sent e.1 else [] := by
  obtain ⟨loop, hloop, hdb, hlast, hcheckpoint, -, pulled, hpulled, hchanges⟩ := sync_eq_ok h
  obtain rfl := Except.ok.inj hloop
  refine ⟨hdb, hlast, hcheckpoint, ?_⟩
  rw [hchanges, show (SyncLoop.start server.db).changes ++ pulled = pulled from rfl]
  have hread : deltaPull (.start server.db) c orgId since = .ok pulled := hpulled
  rw [deltaPull_start] at hread
  split at hread
  · rename_i hsince
    split at hread
    · rw [if_pos hsince]
      exact (Except.ok.inj hread).symm
    · cases hread
  · rename_i hsince
    rw [if_neg hsince]
    exact (Except.ok.inj hread).symm

/-- A pull commits when every clock of the organization's rows is a `bigint`, and
at checkpoint 0 in any case. -/
theorem exists_pull (h : 0 < since → ∀ e ∈ server.db.orgRows c orgId, castable e.2 = true) :
    ∃ result, sync orgId now server (pullRequest c since) = .ok result := by
  have hdelta : ∃ pulled, deltaPull (.start server.db) c orgId since = .ok pulled := by
    rw [deltaPull_start]
    by_cases hsince : 0 < since
    · rw [if_pos hsince, if_pos (List.all_eq_true.mpr (h hsince))]
      exact ⟨_, rfl⟩
    · rw [if_neg hsince]
      exact ⟨[], rfl⟩
  obtain ⟨pulled, hpulled⟩ := hdelta
  exact ⟨_, bind_eq_ok.mpr ⟨_, rfl, bind_eq_ok.mpr ⟨pulled, hpulled, rfl⟩⟩⟩

end Pull

/-! ## Versions of a row -/

/-- A record contains a row: every synced register and the tombstone of the row
is at most the record's. -/
def Covers (row : Row pg c) (v : VersionedRecord Clock) : Prop :=
  (∀ field ∈ syncFields c, row.stamp field ≤ v.stamp field) ∧
    tombOf row.syncDeletedAt ≤ tombOf v.deletedAt

/-- A row is an earlier version of another, or the same. -/
def Row.AtMost (row r : Row pg c) : Prop :=
  (∀ field ∈ syncFields c, row.stamp field ≤ r.stamp field) ∧
    tombOf row.syncDeletedAt ≤ tombOf r.syncDeletedAt

theorem Row.AtMost.refl (row : Row pg c) : row.AtMost row :=
  ⟨fun _ _ => le_rfl, le_rfl⟩

theorem Row.AtMost.trans {row r r' : Row pg c} (h : row.AtMost r) (h' : r.AtMost r') :
    row.AtMost r' :=
  ⟨fun field hf => (h.1 field hf).trans (h'.1 field hf), h.2.trans h'.2⟩

/-- A sent row contains its earlier versions. -/
theorem covers_sent_iff {row r : Row pg c} {k : JsString} :
    Covers row ((serverState r).sent k) ↔ row.AtMost r := by
  refine and_congr_left fun _ => forall₂_congr fun field hf => ?_
  rw [← stamp_serverState r hf]
  rfl

/-- A merge of values that are stored as sent leaves a later version. -/
theorem MergeEffect.atMost {db : Database pg} {change : SyncChangeDto} {row row' : Row pg c}
    (h : MergeEffect db orgId change row row')
    (hstored : ∀ field ∈ syncFields c, SentAsStored pg c db orgId change field) :
    row.AtMost row' :=
  ⟨fun field hf => h.stamp_le hf (hstored field hf), h.tombOf_eq ▸ le_sup_left⟩

/-! ## Versions a request commits -/

/-- The request writes this version of a record. -/
def Commits (step : SyncStep pg orgId) (k : JsString) (row : Row pg c) : Prop :=
  step.result.server.db.find c k = some row ∧ step.before.db.find c k ≠ some row

/-- A request that changes a column of a record commits a version of it. -/
theorem exists_commits {step : SyncStep pg orgId} {k : JsString} {field : String} {v v' : Json}
    (hafter : (step.result.server.db.find c k).bind (·.columns.lookup field) = some v)
    (hbefore : (step.before.db.find c k).bind (·.columns.lookup field) = some v') (hne : v ≠ v') :
    ∃ row : Row pg c, Commits step k row := by
  obtain ⟨row, hrow, hv⟩ := Option.bind_eq_some_iff.mp hafter
  refine ⟨row, hrow, fun h => hne ?_⟩
  rw [h, Option.bind_some, hv] at hbefore
  exact Option.some.inj hbefore

/-- A request writes records of its organization only. -/
theorem Commits.owner {step : SyncStep pg orgId} {k : JsString} {row : Row pg c}
    (h : Commits step k row) (horg : pg.uuid orgId = some orgId) :
    step.result.server.db.owner c k = some orgId := by
  obtain ⟨hafter, hbefore⟩ := h
  obtain ⟨loop, hloop, hdb, -⟩ := sync_eq_ok step.committed
  rw [hdb] at hafter ⊢
  by_cases hc : step.req.collection = c
  · subst hc
    -- a row is as it was until a change of the loop writes it
    have hwritten : loop.db.find step.req.collection k = step.before.db.find step.req.collection k ∨
        loop.db.owner step.req.collection k = some orgId := by
      refine foldlM_invariant (fun l : SyncLoop pg => l.db.find step.req.collection k =
        step.before.db.find step.req.collection k ∨
          l.db.owner step.req.collection k = some orgId) ?_ (Or.inl rfl) hloop
      rintro l change l' - hl hprocess
      obtain ⟨k', -, heffect⟩ := processChange_cases hprocess
      rcases hl with hsame | howner
      · by_cases hk : k = k'
        · subst hk
          rcases heffect.owner_self horg with howner | hdb
          · exact Or.inr howner
          · exact Or.inl (hdb ▸ hsame)
        · exact Or.inl ((heffect.find_of_ne hk).trans hsame)
      · exact Or.inr (heffect.owner howner)
    exact hwritten.resolve_left fun heq => hbefore (heq.symm.trans hafter)
  · have htable := (processChanges_frame hloop).1 c (Ne.symm hc)
    exact absurd (by rw [Database.find, ← htable]; exact hafter) hbefore

/-- Requests that send values as they are stored leave later versions. -/
theorem IsRun.atMost {server : ServerState pg} {steps : List (SyncStep pg orgId)} {k : JsString}
    {row : Row pg c} (hrun : IsRun server steps)
    (hstores : ∀ step ∈ steps, ∀ field ∈ syncFields c, StoresAsSent orgId c k field step)
    (howner : server.db.owner c k = some orgId) (hfind : server.db.find c k = some row) :
    ∀ step ∈ steps, HoldsRow orgId c k row.AtMost step.before := by
  intro step hmem
  refine (hrun.invariant (HoldsRow orgId c k row.AtMost) (fun s hs h => ?_)
    ⟨howner, row, hfind, .refl row⟩ step hmem).1
  exact s.holdsRow _ (fun change hnames r r' hr heffect =>
    hr.trans (heffect.atMost fun field hf => hstores s hs field hf change hnames)) h

/-! ## Two pulls -/

/-- The response contains a version of a record. -/
def Returns (result : SyncResult pg) (k : JsString) (row : Row pg c) : Prop :=
  ∃ v ∈ result.response.changes, v.id = k ∧ Covers row v

/-- **What a pull misses.** In a history of requests of an organization, `second`
pulls with the checkpoint that `first` was given, and the rows of the
organization fit in one response.  If every row written in between is by then
stamped after that checkpoint, and the values sent are stored as they are sent,
the response contains every version committed in between; and it contains them
only if every row written in between is stamped after the checkpoint. -/
theorem secondPull_covers_iff (horg : pg.uuid orgId = some orgId) {server : ServerState pg}
    {first second : SyncStep pg orgId} {between : List (SyncStep pg orgId)}
    (hrun : IsRun server (first :: (between ++ [second])))
    (hsecond : second.req = pullRequest c first.result.response.checkpoint)
    (hroom : (second.before.db.orgRows c orgId).length ≤ maxSyncChanges) :
    ((∀ step ∈ between, ∀ k, ∀ field ∈ syncFields c, StoresAsSent orgId c k field step) →
        (∀ step ∈ between, ∀ k (row : Row pg c), Commits step k row →
          (second.before.db.find c k).any (stampedAfter first.result.response.checkpoint)) →
        ∀ step ∈ between, ∀ k (row : Row pg c), Commits step k row →
          Returns second.result k row) ∧
      ((∀ step ∈ between, ∀ k (row : Row pg c), Commits step k row →
          Returns second.result k row) →
        ∀ step ∈ between, ∀ k (row : Row pg c), Commits step k row →
          (second.before.db.find c k).any
            (stampedAfter first.result.response.checkpoint)) := by
  have hpositive : 0 < first.result.response.checkpoint := by
    obtain ⟨-, -, -, -, hcheckpoint, -⟩ := sync_eq_ok first.committed
    rw [hcheckpoint]
    exact Nat.zero_lt_of_lt (lt_strictMicros _ _)
  have hcommitted := second.committed
  rw [hsecond] at hcommitted
  obtain ⟨-, -, -, hchanges⟩ := pull_eq_ok hcommitted
  rw [if_pos hpositive] at hchanges
  have hpage : ∀ e, e ∈ page second.before.db c orgId first.result.response.checkpoint ↔
      e ∈ second.before.db.orgRows c orgId ∧
        stampedAfter first.result.response.checkpoint e.2 = true :=
    fun _ => mem_page_iff ((List.length_filter_le _ _).trans hroom)
  constructor
  · intro hstores hstamped step hmem k row hcommits
    obtain ⟨pre, post, rfl⟩ := List.append_of_mem hmem
    have hsuffix : IsRun step.result.server (post ++ [second]) := by
      have hrest := hrun.2
      rw [List.append_assoc, List.cons_append] at hrest
      exact hrest.after
    have hlater : ∀ s ∈ post ++ [second], ∀ field ∈ syncFields c,
        StoresAsSent orgId c k field s := by
      intro s hs field hf
      rcases List.mem_append.mp hs with hs | hs
      · exact hstores s (by simp [hs]) k field hf
      · obtain rfl := List.mem_singleton.mp hs
        rintro change ⟨-, hnone, -⟩
        rw [hsecond] at hnone
        cases hnone
    obtain ⟨howner, r, hr, hrow⟩ := hsuffix.atMost hlater (hcommits.owner horg) hcommits.1 second
      (List.mem_append_right _ (List.mem_singleton.mpr rfl))
    have hafter := hstamped step hmem k row hcommits
    rw [hr] at hafter
    refine ⟨(serverState r).sent k, ?_, rfl, covers_sent_iff.mpr hrow⟩
    rw [hchanges]
    exact List.mem_map.mpr ⟨(k, r), (hpage (k, r)).mpr ⟨mem_orgRows.mpr ⟨hr, howner⟩, hafter⟩, rfl⟩
  · intro hreturns step hmem k row hcommits
    obtain ⟨v, hv, hid, -⟩ := hreturns step hmem k row hcommits
    rw [hchanges] at hv
    obtain ⟨⟨j, r⟩, he, rfl⟩ := List.mem_map.mp hv
    obtain ⟨hrow, hafter⟩ := (hpage (j, r)).mp he
    obtain rfl : j = k := hid
    rw [(mem_orgRows.mp hrow).1]
    exact hafter

/-! ### A title edited before a pull and pushed after it -/

namespace LatePush

/-- The card, its title written at 5. -/
def card : Row Postgres.plain .cards :=
  { Sample.card with syncClocks := Dict.ofList [("title", 5)] }

def server : ServerState Postgres.plain where
  db := Sample.database (Dict.ofList [(Sample.cardId, card)])
  lastMicros := 0

/-- The first pull of a device, which is given the checkpoint 1000. -/
def first : SyncStep Postgres.plain Sample.orgId :=
  .of server 1 (pullRequest .cards 1) (by decide +kernel)

/-- Another device retitles the card, at the given reading of its own clock. -/
def retitle (clock : Clock) : SyncRequestDto where
  collection := .cards
  sinceCheckpoint := 0
  changes := [{
    id := Sample.cardId
    fields := Dict.ofList [("title", .str (js "Shipped"))]
    clocks := Dict.ofList [("title", some clock)]
    nodeId := js "device"
    deletedAt := none }]

/-- The push of an edit made before the first pull. -/
def late : SyncStep Postgres.plain Sample.orgId :=
  .of first.result.server 2 (retitle 500) (by decide +kernel)

/-- The push of an edit made after it. -/
def prompt : SyncStep Postgres.plain Sample.orgId :=
  .of first.result.server 2 (retitle 1500) (by decide +kernel)

/-- The second pull of the first device. -/
def afterLate : SyncStep Postgres.plain Sample.orgId :=
  .of late.result.server 3 (pullRequest .cards first.result.response.checkpoint)
    (by decide +kernel)

def afterPrompt : SyncStep Postgres.plain Sample.orgId :=
  .of prompt.result.server 3 (pullRequest .cards first.result.response.checkpoint)
    (by decide +kernel)

theorem late_run : IsRun server [first, late, afterLate] :=
  ⟨by rw [first, SyncStep.before_of], by rw [late, SyncStep.before_of],
    by rw [afterLate, SyncStep.before_of], trivial⟩

theorem prompt_run : IsRun server (first :: ([prompt] ++ [afterPrompt])) :=
  ⟨by rw [first, SyncStep.before_of], by rw [prompt, SyncStep.before_of],
    by rw [afterPrompt, SyncStep.before_of], trivial⟩

end LatePush

/-- The edit that was made after the first pull is committed, and the second pull
returns it. -/
theorem promptEdit_returned :
    ∃ row : Row Postgres.plain .cards, Commits LatePush.prompt Sample.cardId row ∧
      Returns LatePush.afterPrompt.result Sample.cardId row := by
  have hsecond : LatePush.afterPrompt.req =
      pullRequest .cards LatePush.first.result.response.checkpoint := by
    rw [LatePush.afterPrompt, SyncStep.req_of]
  have horg : Postgres.plain.uuid Sample.orgId = some Sample.orgId := rfl
  have hafter : (LatePush.prompt.result.server.db.find .cards Sample.cardId).bind
      (·.columns.lookup "title") = some (.str (js "Shipped")) := by decide +kernel
  have hbefore : (LatePush.prompt.before.db.find .cards Sample.cardId).bind
      (·.columns.lookup "title") = some (.str (js "Ship")) := by decide +kernel
  obtain ⟨row, hcommits⟩ := exists_commits hafter hbefore (by decide)
  refine ⟨row, hcommits, (secondPull_covers_iff horg LatePush.prompt_run hsecond
    (by decide +kernel)).1 ?_ ?_ LatePush.prompt (List.mem_singleton_self _) _ _ hcommits⟩
  · intro step hmem k field hf change hnames v hv
    obtain rfl := List.mem_singleton.mp hmem
    obtain rfl := List.mem_singleton.mp hnames.2.1
    have hall : ∀ field ∈ syncFields .cards, ∀ change ∈ (LatePush.retitle 1500).changes,
        (accepted LatePush.prompt.before.db Sample.orgId change field).all
          (fun v => decide (Postgres.plain.store .cards field v = some v)) = true := by
      decide +kernel
    have hstored := hall field hf _ hnames.2.1
    rw [hv] at hstored
    exact of_decide_eq_true hstored
  · intro step hmem k row hcommits
    obtain rfl := List.mem_singleton.mp hmem
    have hkeys : (LatePush.prompt.result.server.db.table .cards).keys = [Sample.cardId] := by
      decide +kernel
    have hk := AList.mem_keys.mp (Database.mem_table_of_find hcommits.1)
    rw [hkeys, List.mem_singleton] at hk
    subst hk
    decide +kernel

/-- The edit that was made before the first pull and pushed after it is committed
and never returned. -/
theorem lateEdit_missed :
    IsRun LatePush.server [LatePush.first, LatePush.late, LatePush.afterLate] ∧
      LatePush.first.req = pullRequest .cards 1 ∧
      LatePush.afterLate.req = pullRequest .cards LatePush.first.result.response.checkpoint ∧
      (LatePush.afterLate.before.db.orgRows .cards Sample.orgId).length ≤ maxSyncChanges ∧
      ∃ row : Row Postgres.plain .cards, Commits LatePush.late Sample.cardId row ∧
        ¬ Returns LatePush.afterLate.result Sample.cardId row := by
  refine ⟨LatePush.late_run, by rw [LatePush.first, SyncStep.req_of],
    by rw [LatePush.afterLate, SyncStep.req_of], by decide +kernel, ?_⟩
  have hafter : (LatePush.late.result.server.db.find .cards Sample.cardId).bind
      (·.columns.lookup "title") = some (.str (js "Shipped")) := by decide +kernel
  have hbefore : (LatePush.late.before.db.find .cards Sample.cardId).bind
      (·.columns.lookup "title") = some (.str (js "Ship")) := by decide +kernel
  have hnone : LatePush.afterLate.result.response.changes = [] :=
    List.eq_nil_of_length_eq_zero (by decide +kernel)
  obtain ⟨row, hcommits⟩ := exists_commits hafter hbefore (by decide)
  refine ⟨row, hcommits, ?_⟩
  rintro ⟨v, hv, -⟩
  rw [hnone] at hv
  cases hv

end FlowLogix.Server
