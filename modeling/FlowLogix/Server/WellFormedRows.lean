/-
  Server/WellFormedRows.lean --- what a sync can store in a synced column.

  A change is validated in two places.  `tryInsert` refuses a record without a
  title and replaces what it cannot store; `sanitizeClientChange` drops positions
  and parents that are not valid and lets every other value through to the merge.
  `insertsAsSent` is what an insert stores as it is sent, and a column is well
  formed when it holds such a value.

  The columns' types do for `description` and `isComplete` what the merge leaves
  out.  Nothing does it for `title`: a merge stores the blank title that an insert
  refuses.  `run_wellFormed` says that this is the only way a synced column goes
  bad.
-/
import FlowLogix.Ordering.Midpoint
import FlowLogix.Server.SyncRun

set_option autoImplicit false

namespace FlowLogix.Server

open FlowLogix.Foundation FlowLogix.Ordering

variable {pg : Postgres} {orgId : JsString} {c : SyncCollection} {db : Database pg}
  {change : SyncChangeDto} {field : String}

/-! ## Columns -/

/-- The column holds a value that an insert would store as it is sent. -/
def Row.WellFormedAt (row : Row pg c) (field : String) : Prop :=
  ∃ v, row.columns.lookup field = some v ∧ insertsAsSent field v = true

/-- Every row of a table holds such a value. -/
def Database.WellFormedAt (db : Database pg) (c : SyncCollection) (field : String) : Prop :=
  ∀ k row, db.find c k = some row → row.WellFormedAt field

/-- A text without a non-blank character. -/
def isBlankText : Json → Bool
  | .str s => !hasNonBlank s
  | _ => false

/-- What the synced columns hold, by their types. -/
structure TypedColumns (pg : Postgres) : Prop where
  /-- `varchar(255) not null`: every value is stored as text, and only a blank text
  as a blank one -/
  title : ∀ c v w, pg.store c "title" v = some w → isBlankText v = false →
    (asNonEmptyString (some w)).isSome = true
  /-- `text` -/
  description : ∀ v w, pg.store .cards "description" v = some w → w = .null ∨ ∃ s, w = .str s
  /-- `boolean not null` -/
  isComplete : ∀ v w, pg.store .cards "isComplete" v = some w → ∃ b, w = .bool b
  /-- `varchar(255) not null`: a text without blanks is stored as it is -/
  positionIdx : ∀ c s w, PositionService.isValid s = true →
    pg.store c "positionIdx" (.str s) = some w → w = .str s
  /-- `uuid not null`: the canonical text has the form that was sent -/
  parent : ∀ c s w, isUuid s = true → pg.store c (parentProperty c) (.str s) = some w →
    (asUuid (some w)).isSome = true

/-- The fields whose values are checked before they are stored. -/
def isStructural (field : String) : Bool :=
  decide (field ∈ ["boardId", "listId", "positionIdx"])

/-- A value leaves its column well formed if it is not a blank title and, for a
parent or a position, one that was checked. -/
theorem TypedColumns.insertsAsSent_of_store (hpg : TypedColumns pg) (hf : field ∈ syncFields c)
    {v w : Json} (hstore : pg.store c field v = some w)
    (htitle : field = "title" → isBlankText v = false)
    (hchecked : isStructural field = true → insertsAsSent field v = true) :
    insertsAsSent field w = true := by
  have hcases : field = "title" ∨ field = parentProperty c ∨ field = "positionIdx" ∨
      field = "description" ∨ field = "isComplete" := by
    revert hf
    cases c <;> simp [syncFields, parentProperty] <;> tauto
  rcases hcases with rfl | rfl | rfl | rfl | rfl
  · exact hpg.title c v w hstore (htitle rfl)
  · -- a parent: `orgId` is not synced
    have hsent : (asUuid (some v)).isSome = true := by
      cases c with
      | boards => exact absurd hf (by decide)
      | lists => exact hchecked rfl
      | cards => exact hchecked rfl
    obtain ⟨s, hs⟩ := Option.isSome_iff_exists.mp hsent
    obtain rfl := Option.some.inj (asUuid_eq hs)
    have huuid : isUuid s = true := by
      by_contra hnot
      simp [asUuid, hnot] at hs
    have hstored := hpg.parent c s w huuid hstore
    cases c with
    | boards => exact absurd hf (by decide)
    | lists => exact hstored
    | cards => exact hstored
  · have hsent : (asString (some v)).any PositionService.isValid = true := hchecked rfl
    obtain ⟨s, hs, hvalid⟩ := (Option.any_eq_true _ _).mp hsent
    cases v with
    | str t =>
        obtain rfl : t = s := Option.some.inj hs
        obtain rfl := hpg.positionIdx c t w hvalid hstore
        exact hsent
    | _ => cases hs
  · cases c with
    | cards =>
        rcases hpg.description v w hstore with rfl | ⟨s, rfl⟩
        · rfl
        · rfl
    | _ => exact absurd hf (by decide)
  · cases c with
    | cards =>
        obtain ⟨b, rfl⟩ := hpg.isComplete v w hstore
        rfl
    | _ => exact absurd hf (by decide)

/-! ## The merge path -/

theorem isSome_asUuid {v : Option Json} {s : JsString} (h : asUuid v = some s) :
    (asUuid (some (.str s))).isSome = true := by
  rw [asUuid_eq h] at h
  exact Option.isSome_of_eq_some h

/-- What sanitizing lets through of a parent or a position was checked. -/
theorem insertsAsSent_of_accepted (hfield : isStructural field = true) {v : Json}
    (hv : accepted db orgId change field = some v) : insertsAsSent field v = true := by
  obtain ⟨sent, -, hvalue⟩ := Option.bind_eq_some_iff.mp hv
  have hcases : field = "boardId" ∨ field = "listId" ∨ field = "positionIdx" := by
    simpa [isStructural] using hfield
  rcases hcases with rfl | rfl | rfl
  · obtain ⟨boardId, hboardId, hin⟩ := Option.bind_eq_some_iff.mp
      (show (asUuid (some sent)).bind _ = some v from hvalue)
    split at hin
    · obtain rfl := Option.some.inj hin
      exact isSome_asUuid hboardId
    · cases hin
  · obtain ⟨listId, hlistId, hin⟩ := Option.bind_eq_some_iff.mp
      (show (asUuid (some sent)).bind _ = some v from hvalue)
    split at hin
    · obtain rfl := Option.some.inj hin
      exact isSome_asUuid hlistId
    · cases hin
  · cases sent with
    | str s =>
        have hin : (if PositionService.isValid s then some (Json.str s) else none) = some v :=
          hvalue
        split at hin
        · obtain rfl := Option.some.inj hin
          assumption
        · cases hin
    | _ => cases hvalue

/-- The change puts a blank title on a record that exists: it is merged into the
record, its title wins, and is blank. -/
def BlanksTitle (db : Database pg) (orgId : JsString) (c : SyncCollection)
    (change : SyncChangeDto) : Prop :=
  ∃ k row, pg.uuid change.id = some k ∧ db.owner c k = some orgId ∧ db.find c k = some row ∧
    row.stamp "title" < sentStamp db orgId change "title" ∧
    (accepted db orgId change "title").any isBlankText = true

/-- A merge that blanks no title keeps a column well formed. -/
theorem MergeEffect.wellFormedAt (hpg : TypedColumns pg) {row row' : Row pg c}
    (h : MergeEffect db orgId change row row') (hf : field ∈ syncFields c)
    (htitle : field = "title" → row.stamp field < sentStamp db orgId change field →
      (accepted db orgId change field).any isBlankText = false)
    (hrow : row.WellFormedAt field) : row'.WellFormedAt field := by
  obtain ⟨u, hu, hform⟩ := hrow
  by_cases hwins : row.stamp field < sentStamp db orgId change field
  · cases hv : accepted db orgId change field with
    | none => exact ⟨u, (h.wonNothing field hf hwins hv).trans hu, hform⟩
    | some v =>
        obtain ⟨w, hstore, hw⟩ := h.wonValue field hf hwins v hv
        refine ⟨w, hw, hpg.insertsAsSent_of_store hf hstore (fun heq => ?_) fun hfield => ?_⟩
        · simpa [hv] using htitle heq hwins
        · exact insertsAsSent_of_accepted hfield hv
  · exact ⟨u, (h.kept field hf hwins).1.trans hu, hform⟩

/-! ## The insert path -/

/-- The position of an inserted record is valid, sent or minted. -/
theorem isValid_of_resolvePositionKey {parentId key : JsString} {provided : Option Json}
    (h : resolvePositionKey db c parentId provided = .ok key) :
    PositionService.isValid key = true := by
  unfold resolvePositionKey at h
  split at h
  · rename_i sent hsent
    obtain rfl := Except.ok.inj h
    exact (Option.filter_eq_some_iff.mp hsent).2
  · have hmint : PositionService.keyForAppend ((pg.uuid parentId).bind (db.lastKey c)) = .ok key :=
      mapError_eq_ok.mp h
    exact (FractionalIndexer.isKey_of_getIntermediateKey hmint).isValidKey base62_plain

/-- The values of an insert that goes through. -/
structure Complete (c : SyncCollection) (values : List (String × Json)) : Prop where
  nodup : ((values ++ schemaDefaults c).map Prod.fst).Nodup
  sent : ∀ field ∈ syncFields c, ∃ v, (field, v) ∈ values ∧ insertsAsSent field v = true

theorem insertsAsSent_title {v : Option Json} {s : JsString} (h : asNonEmptyString v = some s) :
    insertsAsSent "title" (.str s) = true := by
  rw [asNonEmptyString_eq h] at h
  exact Option.isSome_of_eq_some h

theorem insertsAsSent_stringOrNull (v : Option Json) :
    insertsAsSent "description" (stringOrNull v) = true := by
  unfold stringOrNull
  split <;> rfl

theorem insertsAsSent_booleanOrFalse (v : Option Json) :
    insertsAsSent "isComplete" (booleanOrFalse v) = true := by
  unfold booleanOrFalse
  split <;> rfl

/-- Every strategy refuses or replaces what it cannot store as it is sent. -/
theorem tryInsert_values {now : Nat} {db' : Database pg}
    (h : tryInsert db orgId now change c = .ok (.inserted db')) :
    ∃ values, Complete c values ∧ insertRow db c now change values = .ok (.inserted db') := by
  cases c with
  | boards =>
      have h : tryInsertBoard db orgId now change = .ok (.inserted db') := h
      unfold tryInsertBoard at h
      split at h
      · cases h
      split at h
      · cases h
      · rename_i title htitle
        refine ⟨_, ⟨by simp [schemaDefaults], ?_⟩, h⟩
        intro field hf
        obtain rfl : field = "title" := by simpa [syncFields] using hf
        exact ⟨.str title, by simp, insertsAsSent_title htitle⟩
  | lists =>
      have h : tryInsertList db orgId now change = .ok (.inserted db') := h
      unfold tryInsertList at h
      split at h
      · cases h
      split at h
      · rename_i title boardId htitle hboardId
        split at h
        · cases h
        obtain ⟨positionIdx, hposition, h⟩ := bind_eq_ok.mp h
        refine ⟨_, ⟨by simp [schemaDefaults], ?_⟩, h⟩
        intro field hf
        have hcases : field = "title" ∨ field = "boardId" ∨ field = "positionIdx" := by
          simpa [syncFields] using hf
        rcases hcases with rfl | rfl | rfl
        · exact ⟨.str title, by simp, insertsAsSent_title htitle⟩
        · exact ⟨.str boardId, by simp, isSome_asUuid hboardId⟩
        · exact ⟨.str positionIdx, by simp, isValid_of_resolvePositionKey hposition⟩
      · cases h
  | cards =>
      have h : tryInsertCard db orgId now change = .ok (.inserted db') := h
      unfold tryInsertCard at h
      split at h
      · cases h
      split at h
      · rename_i title listId htitle hlistId
        split at h
        · cases h
        obtain ⟨positionIdx, hposition, h⟩ := bind_eq_ok.mp h
        refine ⟨_, ⟨by simp [schemaDefaults], ?_⟩, h⟩
        intro field hf
        have hcases : field = "title" ∨ field = "description" ∨ field = "isComplete" ∨
            field = "listId" ∨ field = "positionIdx" := by
          simpa [syncFields] using hf
        rcases hcases with rfl | rfl | rfl | rfl | rfl
        · exact ⟨.str title, by simp, insertsAsSent_title htitle⟩
        · exact ⟨_, by simp, insertsAsSent_stringOrNull (change.fields.lookup "description")⟩
        · exact ⟨_, by simp, insertsAsSent_booleanOrFalse (change.fields.lookup "isComplete")⟩
        · exact ⟨.str listId, by simp, isSome_asUuid hlistId⟩
        · exact ⟨.str positionIdx, by simp, isValid_of_resolvePositionKey hposition⟩
      · cases h

/-- An inserted row is well formed. -/
theorem tryInsert_wellFormed (hpg : TypedColumns pg) {now : Nat} {db' : Database pg}
    (h : tryInsert db orgId now change c = .ok (.inserted db')) :
    ∃ k, ∃ row : Row pg c, pg.uuid change.id = some k ∧ db' = db.put k row ∧
      ∀ field ∈ syncFields c, row.WellFormedAt field := by
  obtain ⟨values, hvalues, hinsert⟩ := tryInsert_values h
  obtain ⟨k, row, hk, -, hdb, hin, -⟩ := insertRow_eq_ok hvalues.nodup hinsert
  refine ⟨k, row, hk, hdb, fun field hf => ?_⟩
  obtain ⟨v, hmem, hsent⟩ := hvalues.sent field hf
  obtain ⟨w, hstore, hw⟩ := hin field v (List.mem_append_left _ hmem)
  refine ⟨w, hw, hpg.insertsAsSent_of_store hf hstore (fun heq => ?_) fun _ => hsent⟩
  subst heq
  cases v with
  | str s =>
      have hname : (asNonEmptyString (some (.str s))).isSome = true := hsent
      by_contra hblank
      simp [isBlankText, asNonEmptyString] at hblank hname
      simp [hblank] at hname
  | _ => rfl

/-! ## A request -/

/-- Writing a well-formed row keeps a table well formed. -/
theorem Database.WellFormedAt.put {k : JsString} {row : Row pg c} (h : db.WellFormedAt c field)
    (hrow : row.WellFormedAt field) : (db.put k row).WellFormedAt c field := by
  intro j r hr
  rw [Database.find_put] at hr
  split at hr
  · exact Option.some.inj hr ▸ hrow
  · exact h j r hr

/-- One change that blanks no title keeps a column of every row well formed. -/
theorem processChange_wellFormedAt (hpg : TypedColumns pg) {now : Nat} {loop loop' : SyncLoop pg}
    (hf : field ∈ syncFields c) (hblank : field = "title" → ¬ BlanksTitle loop.db orgId c change)
    (hrows : loop.db.WellFormedAt c field)
    (h : processChange orgId c now loop change = .ok loop') : loop'.db.WellFormedAt c field := by
  obtain ⟨k, hk, hstep⟩ := processChange_eq_ok h
  cases hstep with
  | merged row written howner hfind hwritten =>
      obtain ⟨row', heffect, -, hdb⟩ := writeMerged_eq_ok hfind hwritten
      have hrow' : row'.WellFormedAt field := by
        refine heffect.wellFormedAt hpg hf ?_ (hrows k row hfind)
        rintro rfl hwins
        by_contra hany
        exact hblank rfl ⟨k, row, hk, howner, hfind, hwins, by simpa using hany⟩
      rcases hdb with hdb | hdb
      · rwa [hdb]
      · rw [hdb]
        exact hrows.put hrow'
  | refused _ _ => exact hrows
  | inserted db _ hinserted =>
      obtain ⟨k', row, -, rfl, hrow⟩ := tryInsert_wellFormed hpg hinserted
      exact hrows.put (hrow field hf)

/-- No change of the request blanks a title. -/
def TenantStep.BlanksNoTitle (s : TenantStep pg) : Prop :=
  ∀ db change, s.step.Processes db change → ¬ BlanksTitle db s.orgId s.step.req.collection change

/-- **Only a blank title goes through.** Along a run of requests, of any
organizations, in which no merged change brings a blank title that wins, every
synced column stays well formed. -/
theorem run_wellFormed (hpg : TypedColumns pg) {server : ServerState pg}
    {steps : List (TenantStep pg)} (hrun : IsTenantRun server steps)
    (hblank : ∀ s ∈ steps, s.BlanksNoTitle) (hf : field ∈ syncFields c)
    (hrows : server.db.WellFormedAt c field) :
    ∀ s ∈ steps, s.step.result.server.db.WellFormedAt c field := by
  refine hrun.invariant (·.WellFormedAt c field) (fun s hs hbefore => ?_) hrows
  refine s.step.invariant (·.WellFormedAt c field) (fun change loop loop' hprocesses hloop h => ?_)
    hbefore
  by_cases hc : s.step.req.collection = c
  · subst hc
    exact processChange_wellFormedAt hpg hf (fun _ => hblank s hs loop.db change hprocesses) hloop h
  · obtain ⟨k, -, heffect⟩ := processChange_cases h
    intro j row hrow
    rw [Database.find, heffect.table_of_ne (Ne.symm hc)] at hrow
    exact hloop j row hrow

/-! ### A board without a title -/

theorem plain_typedColumns : TypedColumns Postgres.plain := by
  have hkept : ∀ c field v w, Postgres.plain.store c field v = some w →
      hasColumnType field v = true ∧ w = v := by
    intro c field v w h
    have hstore : (if hasColumnType field v then some v else none) = some w := h
    split at hstore
    · exact ⟨by assumption, (Option.some.inj hstore).symm⟩
    · cases hstore
  refine ⟨?_, ?_, ?_, ?_, ?_⟩
  · intro c v w h hblank
    obtain ⟨htype, rfl⟩ := hkept c _ _ _ h
    cases w with
    | str s =>
        have hname : hasNonBlank s = true := by simpa [isBlankText] using hblank
        simp [asNonEmptyString, hname]
    | _ => cases htype
  · intro v w h
    obtain ⟨htype, rfl⟩ := hkept _ _ _ _ h
    cases w with
    | null => exact Or.inl rfl
    | str s => exact Or.inr ⟨s, rfl⟩
    | _ => cases htype
  · intro v w h
    obtain ⟨htype, rfl⟩ := hkept _ _ _ _ h
    cases w with
    | bool b => exact ⟨b, rfl⟩
    | _ => cases htype
  · intro c s w _ h
    exact (hkept _ _ _ _ h).2
  · intro c s w huuid h
    obtain ⟨-, rfl⟩ := hkept _ _ _ _ h
    simp [asUuid, huuid]

theorem Database.wellFormedAt_of_entries
    (h : ∀ e ∈ (db.table c).entries, (e.2.columns.lookup field).any (insertsAsSent field) = true) :
    db.WellFormedAt c field := by
  intro k row hrow
  exact (Option.any_eq_true _ _).mp (h ⟨k, row⟩ (AList.mem_lookup_iff.mp hrow))

namespace Untitled

/-- A board with a list. -/
def server : ServerState Postgres.plain where
  db := Sample.database ∅
  lastMicros := 0

theorem server_wellFormed : ∀ c, ∀ field ∈ syncFields c, server.db.WellFormedAt c field := by
  intro c field hf
  apply Database.wellFormedAt_of_entries
  revert field
  cases c <;> decide

/-- A device renames the board. -/
def rename (title : String) : SyncRequestDto where
  collection := .boards
  sinceCheckpoint := 0
  changes := [
    { id := Sample.boardId
      fields := Dict.ofList [("title", .str (js title))]
      clocks := Dict.ofList [("title", some 5)]
      nodeId := js "device"
      deletedAt := none }]

def step (title : String) (h : (sync Sample.orgId 1 server (rename title)).isOk = true) :
    TenantStep Postgres.plain where
  orgId := Sample.orgId
  step := .of server 1 (rename title) h

/-- The board gets the name "Plans". -/
def renamed : TenantStep Postgres.plain := step "Plans" (by decide)

/-- The board gets three blanks for a name. -/
def blanked : TenantStep Postgres.plain := step "   " (by decide)

theorem renamed_blanksNoTitle : renamed.BlanksNoTitle := by
  rintro db change ⟨pre, post, loop, hordered, -⟩ ⟨k, row, -, -, -, -, hblank⟩
  have hmem : change ∈ orderedChanges (rename "Plans").changes := by
    rw [show orderedChanges (rename "Plans").changes = _ from hordered]
    simp
  obtain rfl := List.mem_singleton.mp (mem_orderedChanges.mp hmem)
  have hname : isBlankText (.str (js "Plans")) = true := hblank
  exact absurd hname (by decide)

end Untitled

/-- The titles are well formed after the board is renamed. -/
theorem renamed_wellFormed :
    Untitled.renamed.step.result.server.db.WellFormedAt .boards "title" := by
  have hrun : IsTenantRun Untitled.server [Untitled.renamed] := ⟨rfl, trivial⟩
  have hblank : ∀ s ∈ [Untitled.renamed], s.BlanksNoTitle :=
    List.forall_mem_singleton.mpr Untitled.renamed_blanksNoTitle
  have hrows := Untitled.server_wellFormed .boards "title" (by decide)
  exact run_wellFormed plain_typedColumns hrun hblank (by decide) hrows Untitled.renamed
    List.mem_cons_self

/-- Three blanks under a newer clock are merged, where an insert would refuse
them. -/
theorem blankTitle_merged : ¬ ∀ (server : ServerState Postgres.plain)
    (steps : List (TenantStep Postgres.plain)), IsTenantRun server steps →
      (∀ c, ∀ field ∈ syncFields c, server.db.WellFormedAt c field) →
        ∀ s ∈ steps, ∀ c, ∀ field ∈ syncFields c, s.step.result.server.db.WellFormedAt c field := by
  intro hclaim
  have hrows := hclaim Untitled.server [Untitled.blanked] ⟨rfl, trivial⟩ Untitled.server_wellFormed
    Untitled.blanked List.mem_cons_self .boards "title" (by decide)
  have hstored : (Untitled.blanked.step.result.server.db.find .boards Sample.boardId).any
      (fun row => decide (row.columns.lookup "title" = some (.str (js "   ")))) = true := by
    decide
  obtain ⟨row, hfind, htitle⟩ := (Option.any_eq_true _ _).mp hstored
  obtain ⟨v, hv, hform⟩ := hrows Sample.boardId row hfind
  rw [of_decide_eq_true htitle] at hv
  obtain rfl := Option.some.inj hv
  exact absurd hform (by decide)

end FlowLogix.Server
