/-
  Server/DeleteFrames.lean --- when a merge announces a deletion
  (backend/src/sync/sync.service.ts, sync-merge.ts and common/sync-visibility.ts).

  Every read hides a row whose tombstone is at least as new as its newest field clock.
  The event of a merge looks at something else: that there is a tombstone afterwards and
  was none before.  The two agree where a first tombstone outlasts all field clocks, and
  where a row that has one already stays as hidden or as visible as it was.
-/
import FlowLogix.Server.AnnouncedSyncs
import FlowLogix.Server.Deletion

set_option autoImplicit false

namespace FlowLogix.Server

open FlowLogix.Foundation

variable {pg : Postgres} {c : SyncCollection} {db : Database pg} {orgId k id : JsString}
  {change : SyncChangeDto} {row row' : Row pg c}

/-! ## The tombstone a merge keeps -/

section Merged

variable {K : Type} [LinearOrder K] [Zero K] {s cl : RecordState K}

/-- A tombstone at least as new as every field clock of two states. -/
def Outlasts (s cl : RecordState K) (d : K) : Prop :=
  0 ≤ d ∧ ∀ key, key ∈ s.fields ∨ key ∈ cl.fields →
    readClock s.clocks key ≤ d ∧ readClock cl.clocks key ≤ d

theorem Outlasts.mono {d e : K} (h : Outlasts s cl d) (hle : d ≤ e) : Outlasts s cl e :=
  ⟨h.1.trans hle, fun key hkey => ⟨(h.2 key hkey).1.trans hle, (h.2 key hkey).2.trans hle⟩⟩

/-- The merged field clocks are the later ones. -/
theorem mathMax_merged_le_iff {d : K} :
    (mergeServerRecord s cl).merged.clocks.mathMax ≤ d ↔ Outlasts s cl d := by
  rw [Dict.mathMax_le_iff, Outlasts]
  refine and_congr_right fun _ => forall_congr' fun key => ?_
  rw [lookup_merged_clocks]
  by_cases hkey : key ∈ s.fields ∨ key ∈ cl.fields
  · have hclock := congrArg (fun stamp => (ofLex stamp).1) (stamp_merged_of_mem hkey)
    rw [clock_sup] at hclock
    have hmerged : readClock (mergeServerRecord s cl).merged.clocks key = mergedClock s cl key :=
      readClock_of_lookup (by rw [lookup_merged_clocks, if_pos hkey])
    have hmax : mergedClock s cl key = max (readClock s.clocks key) (readClock cl.clocks key) :=
      hmerged.symm.trans hclock
    simp only [hkey, if_true, Option.some.injEq, forall_eq', true_imp_iff, hmax, max_le_iff]
  · simp only [hkey, if_false, reduceCtorEq, false_imp_iff, implies_true]

/-- The merged state is hidden where a tombstone of either outlasts the clocks of both. -/
theorem isBuried_merged_iff :
    (mergeServerRecord s cl).merged.IsBuried ↔
      ∃ d, (s.deletedAt = some d ∨ cl.deletedAt = some d) ∧ Outlasts s cl d := by
  have hpick : (mergeServerRecord s cl).merged.deletedAt = pickTomb s.deletedAt cl.deletedAt := rfl
  unfold RecordState.IsBuried
  simp only [mathMax_merged_le_iff]
  constructor
  · rintro ⟨d, hd, houtlasts⟩
    refine ⟨d, ?_, houtlasts⟩
    rw [hpick] at hd
    rcases pickTomb_eq_or s.deletedAt cl.deletedAt with heq | heq
    · exact Or.inl (heq ▸ hd)
    · exact Or.inr (heq ▸ hd)
  · rintro ⟨d, hd, houtlasts⟩
    -- the merged tombstone is no older than that one
    have hle : tombOf (some d) ≤ tombOf (mergeServerRecord s cl).merged.deletedAt := by
      rw [hpick, tombOf_pickTomb]
      rcases hd with hd | hd
      · exact hd ▸ le_sup_left
      · exact hd ▸ le_sup_right
    cases hmerged : (mergeServerRecord s cl).merged.deletedAt with
    | none =>
        rw [hmerged] at hle
        exact absurd hle (not_tombOf_le_none houtlasts.1)
    | some e =>
        rw [hmerged] at hle
        exact ⟨e, rfl, houtlasts.mono (le_of_tombOf_le hle)⟩

/-- A first tombstone of the other side that is not before the epoch is kept. -/
theorem isSome_merged_deletedAt_iff (hs : s.deletedAt = none) :
    (mergeServerRecord s cl).merged.deletedAt.isSome = true ↔
      ∃ d, cl.deletedAt = some d ∧ 0 ≤ d := by
  have hpick : (mergeServerRecord s cl).merged.deletedAt = pickTomb none cl.deletedAt := by
    rw [← hs]
    rfl
  rw [hpick, pickTomb]
  cases cl.deletedAt with
  | none => simp
  | some d =>
      simp only [Option.getD_none, Option.getD_some, Option.some.injEq, exists_eq_left']
      rcases lt_trichotomy d 0 with hlt | rfl | hgt
      · simp [hlt, hlt.ne', hlt.not_ge]
      · simp
      · simp [hgt.ne, hgt.not_gt, hgt.le]

/-- The first tombstone of a record outlasts the field clocks of both states; a record that
has one is hidden already, or no tombstone of either state outlasts them. -/
def TombstoneDecides (s cl : RecordState K) : Prop :=
  match s.deletedAt with
  | none => ∀ d, cl.deletedAt = some d → 0 ≤ d → Outlasts s cl d
  | some _ => s.IsBuried ∨
      ∀ d, s.deletedAt = some d ∨ cl.deletedAt = some d → ¬ Outlasts s cl d

/-- Where a first tombstone appears just when the record gets hidden. -/
theorem tombstoneDecides_iff :
    (((mergeServerRecord s cl).merged.deletedAt.isSome = true ∧ s.deletedAt = none) ↔
      (¬ s.IsBuried ∧ (mergeServerRecord s cl).merged.IsBuried)) ↔ TombstoneDecides s cl := by
  unfold TombstoneDecides
  cases hs : s.deletedAt with
  | none =>
      have hvisible : ¬ s.IsBuried := fun ⟨d, hd, _⟩ => by
        rw [hs] at hd
        cases hd
      rw [isSome_merged_deletedAt_iff hs, isBuried_merged_iff, hs]
      simp only [hvisible, not_false_iff, true_and, and_true, reduceCtorEq, false_or]
      constructor
      · intro h d hd hpos
        obtain ⟨e, he, houtlasts⟩ := h.mp ⟨d, hd, hpos⟩
        obtain rfl := Option.some.inj (hd.symm.trans he)
        exact houtlasts
      · intro h
        exact ⟨fun ⟨d, hd, hpos⟩ => ⟨d, hd, h d hd hpos⟩,
          fun ⟨d, hd, houtlasts⟩ => ⟨d, hd, houtlasts.1⟩⟩
  | some stamp =>
      rw [isBuried_merged_iff, hs]
      simp only [reduceCtorEq, and_false, false_iff, not_and, not_exists, not_and]
      exact or_iff_not_imp_left.symm

end Merged

/-! ## The event -/

/-- The event deletes a list or a card. -/
def PendingBoardEvent.Deletes (e : PendingBoardEvent) : Prop :=
  e.type = .listDeleted ∨ e.type = .cardDeleted

/-- Where the board of a merged record is known, its event deletes just where there is a
tombstone now and was none. -/
theorem deletes_eventForUpdate_iff (hc : c ≠ .boards) {before after : RecordState Clock}
    (hboard : (db.boardNamed c (coalesce (readField after.fields (parentProperty c))
      (readField before.fields (parentProperty c)))).isSome) :
    (∃ e, eventForUpdate db c id before after = some e ∧ e.Deletes) ↔
      after.deletedAt.isSome = true ∧ before.deletedAt = none := by
  obtain ⟨board, hboard⟩ := Option.isSome_iff_exists.mp hboard
  rw [← Option.not_isSome_iff_eq_none]
  cases c with
  | boards => exact absurd rfl hc
  | lists =>
      rw [Database.boardNamed, parentProperty] at hboard
      rw [eventForUpdate, hboard]
      cases after.deletedAt <;> cases before.deletedAt <;> simp [PendingBoardEvent.Deletes]
  | cards =>
      rw [Database.boardNamed, parentProperty] at hboard
      obtain ⟨listId, hlist, hboard⟩ := Option.bind_eq_some_iff.mp hboard
      rw [eventForUpdate, hlist, Option.bind_eq_bind, Option.bind_some, hboard]
      cases after.deletedAt <;> cases before.deletedAt <;>
        simp [PendingBoardEvent.Deletes] <;> split <;> simp

/-- The board of a parent in an organization is known. -/
theorem isSome_boardNamed (hc : c ≠ .boards) {s parent : JsString}
    (hs : asUuid (some (.str s)) = some s) (hparent : pg.uuid s = some parent)
    (horg : db.ancestorOrg c parent = some orgId) :
    (db.boardNamed c (some (.str s))).isSome := by
  cases c with
  | boards => exact absurd rfl hc
  | lists => exact Option.isSome_of_eq_some hs
  | cards =>
      obtain ⟨board, hboard, -⟩ := Option.bind_eq_some_iff.mp
        (show ((db.find .lists parent).bind (·.text "boardId")).bind db.boardOrg = _ from horg)
      rw [Database.boardNamed, hs, Option.bind_some, Database.boardIdForList, hparent,
        Option.bind_some, hboard]
      rfl

/-- A merge of a record of the organization finds the board of its event. -/
theorem isSome_boardNamed_merged (hc : c ≠ .boards) (howner : db.parentOrg c row = some orgId)
    (hrow : row.WellFormedAt (parentProperty c))
    (hpatch : patchRow row (mergeInto db orgId row change).merged = .ok row') :
    (db.boardNamed c
      (coalesce (readField (mergeInto db orgId row change).merged.fields (parentProperty c))
        (readField (serverState row).fields (parentProperty c)))).isSome := by
  rw [coalesce_merged hc hrow]
  cases hmoved : movedTo db orgId row change with
  | some v =>
      obtain ⟨raw, rfl, huuid⟩ := uuid_of_movedTo hc hmoved
      obtain ⟨parent, hparent, -⟩ := (mergeEffect_of_patchRow hpatch).text_parent hc hmoved
      rw [movedTo] at hmoved
      split at hmoved
      · obtain ⟨s, hs, horg⟩ := ancestorOrg_of_accepted (parentProperty_mem_syncFields hc) hmoved
        obtain rfl := Json.str.inj hs
        exact isSome_boardNamed hc huuid hparent (horg parent hparent)
      · cases hmoved
  | none =>
      obtain ⟨v, hv, hform⟩ := hrow
      obtain ⟨s, rfl, huuid⟩ := uuid_of_insertsAsSent hc hform
      have htext : row.text (parentProperty c) = some s := by rw [Row.text, hv]
      rw [Database.parentOrg, htext] at howner
      rw [hv]
      exact isSome_boardNamed hc huuid (Row.text_eq_uuid htext) howner

/-! ## The frame and the reads -/

/-- The event deletes just where the row was visible before and is hidden after. -/
def DeletesAsHidden (event : Option PendingBoardEvent) (row row' : Row pg c) : Prop :=
  (∃ e, event = some e ∧ e.Deletes) ↔ isSyncDeleted row = false ∧ isSyncDeleted row' = true

/-- What the reads hide. -/
theorem isSyncDeleted_row_iff (row : Row pg c) :
    isSyncDeleted row = true ↔ (serverState row).IsBuried := by
  rw [← isSyncDeleted_serverState, isSyncDeleted_plain_iff]

theorem isSyncDeleted_patchRow {merged : RecordState Clock}
    (hpatch : patchRow row merged = .ok row') : isSyncDeleted row' = true ↔ merged.IsBuried := by
  obtain ⟨-, -, hclocks, hdeleted, -⟩ := patchRow_eq_ok hpatch
  rw [isSyncDeleted_row_iff, RecordState.IsBuried, RecordState.IsBuried, serverState]
  simp only [hclocks, hdeleted]

/-- The event of a merge of a list or a card deletes just where the merge hides the row, if
and only if the tombstone decides. -/
theorem delete_frame_iff (hc : c ≠ .boards)
    (hload : db.load c change.id orgId = .ok (some (k, row)))
    (hrow : row.WellFormedAt (parentProperty c))
    (hpatch : patchRow row (mergeInto db orgId row change).merged = .ok row') :
    DeletesAsHidden (eventForUpdate (db.put k row') c change.id (serverState row)
        (mergeInto db orgId row change).merged) row row' ↔
      TombstoneDecides (serverState row) (clientState db orgId (syncFields c) change) := by
  have howner : db.parentOrg c row = some orgId := by
    obtain ⟨k', -, ⟨found, hfound, howner, hfind⟩ | ⟨hnone, -⟩⟩ := Database.load_eq_ok hload
    · cases hfound
      rwa [Database.owner, hfind, Option.bind_some] at howner
    · cases hnone
  have hboard := isSome_boardNamed_merged hc howner hrow hpatch
  rw [← Database.boardNamed_put db k row'] at hboard
  unfold DeletesAsHidden
  rw [deletes_eventForUpdate_iff hc hboard, isSyncDeleted_patchRow hpatch,
    ← Bool.not_eq_true, isSyncDeleted_row_iff]
  exact tombstoneDecides_iff

/-! ### A card that was edited after it was deleted -/

namespace EditedAfter

/-- The card, its title written at 10. -/
def card (deletedAt : Option Clock) : Row Postgres.plain .cards :=
  { Sample.card with syncClocks := Dict.ofList [("title", 10)], syncDeletedAt := deletedAt }

/-- A device sends a deletion. -/
def deletion (deletedAt : Clock) : SyncChangeDto where
  id := Sample.cardId
  fields := ∅
  clocks := ∅
  nodeId := js "device"
  deletedAt := some deletedAt

/-- The merged row. -/
def merged (before : Option Clock) (deletedAt : Clock) :
    Except Failure (Row Postgres.plain .cards) :=
  patchRow (card before)
    (mergeInto (Sample.oneCard (card before)) Sample.orgId (card before)
      (deletion deletedAt)).merged

/-- The event of the merge. -/
def event (before : Option Clock) (deletedAt : Clock) (row' : Row Postgres.plain .cards) :
    Option PendingBoardEvent :=
  eventForUpdate ((Sample.oneCard (card before)).put Sample.cardId row') .cards Sample.cardId
    (serverState (card before))
    (mergeInto (Sample.oneCard (card before)) Sample.orgId (card before)
      (deletion deletedAt)).merged

theorem load (before : Option Clock) :
    (Sample.oneCard (card before)).load .cards Sample.cardId Sample.orgId =
      .ok (some (Sample.cardId, card before)) := by
  cases before <;> rfl

theorem card_wellFormedAt (before : Option Clock) : (card before).WellFormedAt "listId" :=
  ⟨.str Sample.listId, rfl, by decide⟩

/-- The row after the merge is hidden, and the event of the merge deletes. -/
def seen (before : Option Clock) (deletedAt : Clock) : Option (Bool × Bool) :=
  (merged before deletedAt).toOption.map fun row' =>
    (isSyncDeleted row',
      (event before deletedAt row').any fun e => e.type = .listDeleted ∨ e.type = .cardDeleted)

theorem of_seen (before : Option Clock) (deletedAt : Clock) (hidden deletes : Bool)
    (h : seen before deletedAt = some (hidden, deletes)) :
    ∃ row', merged before deletedAt = .ok row' ∧ isSyncDeleted row' = hidden ∧
      ((∃ e, event before deletedAt row' = some e ∧ e.Deletes) ↔ deletes = true) := by
  obtain ⟨row', hrow', hpair⟩ := Option.map_eq_some_iff.mp h
  obtain ⟨rfl, rfl⟩ := Prod.mk.inj hpair
  have hok : merged before deletedAt = .ok row' := by
    cases hmerged : merged before deletedAt with
    | ok found =>
        rw [hmerged] at hrow'
        rw [Option.some.inj hrow']
    | error e =>
        rw [hmerged] at hrow'
        cases hrow'
  refine ⟨row', hok, rfl, ?_⟩
  rw [Option.any_eq_true]
  simp only [decide_eq_true_eq]
  exact Iff.rfl

end EditedAfter

/-- A deletion older than the newest edit is announced though the card stays visible, and
one after a deletion that lost to an edit is not announced though it hides the card. -/
theorem delete_frames_disagree :
    (∃ row', EditedAfter.merged none 5 = .ok row' ∧
      ¬ DeletesAsHidden (EditedAfter.event none 5 row') (EditedAfter.card none) row') ∧
    ∃ row', EditedAfter.merged (some 5) 20 = .ok row' ∧
      ¬ DeletesAsHidden (EditedAfter.event (some 5) 20 row') (EditedAfter.card (some 5)) row' := by
  constructor
  · obtain ⟨row', hok, hhidden, hdeletes⟩ :=
      EditedAfter.of_seen none 5 false true (by decide)
    refine ⟨row', hok, fun h => ?_⟩
    have hboth := h.mp (hdeletes.mpr rfl)
    rw [hhidden] at hboth
    cases hboth.2
  · obtain ⟨row', hok, hhidden, hdeletes⟩ :=
      EditedAfter.of_seen (some 5) 20 true false (by decide)
    refine ⟨row', hok, fun h => ?_⟩
    have hvisible : isSyncDeleted (EditedAfter.card (some 5)) = false := by decide
    cases hdeletes.mp (h.mpr ⟨hvisible, hhidden⟩)

/-- A first deletion after the newest edit is announced, and hides the card. -/
theorem fresh_deletion_announced :
    ∃ row', EditedAfter.merged none 20 = .ok row' ∧
      DeletesAsHidden (EditedAfter.event none 20 row') (EditedAfter.card none) row' ∧
      TombstoneDecides (serverState (EditedAfter.card none))
        (clientState (Sample.oneCard (EditedAfter.card none)) Sample.orgId (syncFields .cards)
          (EditedAfter.deletion 20)) := by
  obtain ⟨row', hok, hhidden, hdeletes⟩ :=
    EditedAfter.of_seen none 20 true true (by decide)
  have hvisible : isSyncDeleted (EditedAfter.card none) = false := by decide
  have hshown : DeletesAsHidden (EditedAfter.event none 20 row') (EditedAfter.card none) row' :=
    iff_of_true (hdeletes.mpr rfl) ⟨hvisible, hhidden⟩
  exact ⟨row', hok, hshown, (delete_frame_iff (by decide) (EditedAfter.load none)
    (EditedAfter.card_wellFormedAt none) hok).mp hshown⟩

end FlowLogix.Server
