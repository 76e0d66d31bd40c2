/-
  Server/InsertedPairs.lean --- the clocks of an inserted record
  (backend/src/sync/sync.service.ts).

  The merge drops the clock of every value it drops.  An insert filters its values
  field by field and its clocks by `numericClocks`, apart from each other, so a field
  whose value it replaces (a minted position, a defaulted description or flag) keeps
  the clock the client sent, and the server then holds another value under it than the
  client does.
-/
import FlowLogix.Server.WellFormedRows

set_option autoImplicit false

namespace FlowLogix.Server

open FlowLogix.Foundation

variable {pg : Postgres} {orgId : JsString} {c : SyncCollection} {db db' : Database pg}
  {change : SyncChangeDto} {now : Nat}

/-- Every synced field that a row stores with a clock has the value and the clock the
client sent. -/
def Row.PairsAsSent (row : Row pg c) (change : SyncChangeDto) : Prop :=
  ∀ field ∈ syncFields c, ∀ clock, row.syncClocks.lookup field = some clock →
    sentClock change field = some clock ∧
      row.columns.lookup field = change.fields.lookup field

/-- Every synced field that a change sends a clock for has a value that the insert takes
over, in the spelling its column stores. -/
def SendsPairs (pg : Postgres) (c : SyncCollection) (change : SyncChangeDto) : Prop :=
  ∀ field ∈ syncFields c, (sentClock change field).isSome = true →
    ∃ v, change.fields.lookup field = some v ∧ insertsAsSent field v = true ∧
      pg.store c field v = some v

/-- The row of an accepted insert. -/
theorem row_of_tryInsert (hpg : TypedColumns pg)
    (h : tryInsert db orgId now change c = .ok (.inserted db')) :
    ∃ k, ∃ row : Row pg c, pg.uuid change.id = some k ∧ db'.find c k = some row ∧
      InsertEffect db orgId change row ∧ ∀ field ∈ syncFields c, row.WellFormedAt field := by
  obtain ⟨k, row, hk, -, hdb, heffect⟩ := tryInsert_eq_ok h
  obtain ⟨k', row', hk', hdb', hformed⟩ := tryInsert_wellFormed hpg h
  obtain rfl : k = k' := Option.some.inj (hk.symm.trans hk')
  have hfind : db'.find c k = some row := by rw [hdb, Database.find_put, if_pos rfl]
  have hfind' : db'.find c k = some row' := by rw [hdb', Database.find_put, if_pos rfl]
  obtain rfl : row = row' := Option.some.inj (hfind.symm.trans hfind')
  exact ⟨k, row, hk, hfind, heffect, hformed⟩

/-- The clock an inserted row stores for a synced field is the one sent. -/
theorem InsertEffect.lookup_clock {row : Row pg c} (h : InsertEffect db orgId change row)
    {field : String} (hf : field ∈ syncFields c) :
    row.syncClocks.lookup field = sentClock change field := by
  rw [h.clocks, lookup_numericClocks, if_pos hf]
  rfl

/-- **An insert stores what the client holds** under each of its clocks, exactly where
every clock comes with a value that is taken over as it is. -/
theorem inserted_pairs_iff (hpg : TypedColumns pg)
    (h : tryInsert db orgId now change c = .ok (.inserted db')) :
    ∃ k, ∃ row : Row pg c, pg.uuid change.id = some k ∧ db'.find c k = some row ∧
      (row.PairsAsSent change ↔ SendsPairs pg c change) := by
  obtain ⟨k, row, hk, hfind, heffect, hformed⟩ := row_of_tryInsert hpg h
  refine ⟨k, row, hk, hfind, ?_⟩
  constructor
  · intro hpairs field hf hsent
    obtain ⟨clock, hclock⟩ := Option.isSome_iff_exists.mp hsent
    have hstored := (hpairs field hf clock ((heffect.lookup_clock hf).trans hclock)).2
    obtain ⟨v, hv, hform⟩ := hformed field hf
    exact ⟨v, hstored.symm.trans hv, hform, row.stored field v hv⟩
  · intro hsends field hf clock hclock
    rw [heffect.lookup_clock hf] at hclock
    obtain ⟨v, hv, hform, hstore⟩ := hsends field hf (Option.isSome_of_eq_some hclock)
    obtain ⟨w, hw, hcolumn⟩ := heffect.values field hf v hv hform
    rw [hstore] at hw
    exact ⟨hclock, by rw [hcolumn, hv, hw]⟩

/-! ### A card with a position of another alphabet -/

namespace Offline

/-- A card a device created offline. -/
def create (positionIdx : String) : SyncChangeDto where
  id := Sample.cardId
  fields := Dict.ofList [("title", .str (js "Ship")), ("listId", .str Sample.listId),
    ("positionIdx", .str (js positionIdx))]
  clocks := Dict.ofList [("title", some 5), ("listId", some 5), ("positionIdx", some 5)]
  nodeId := js "device"
  deletedAt := none

def outcome (positionIdx : String) : Except Failure (InsertOutcome Postgres.plain) :=
  tryInsert (Sample.database ∅) Sample.orgId 1 (create positionIdx) .cards

def isInserted : Except Failure (InsertOutcome Postgres.plain) → Bool
  | .ok (.inserted _) => true
  | _ => false

/-- The tables after the insert. -/
def after (positionIdx : String) : Database Postgres.plain :=
  match outcome positionIdx with
  | .ok (.inserted db) => db
  | _ => Sample.nothing

theorem outcome_eq {positionIdx : String} (h : isInserted (outcome positionIdx) = true) :
    outcome positionIdx = .ok (.inserted (after positionIdx)) := by
  unfold after
  split
  · assumption
  · rename_i hnot
    unfold isInserted at h
    split at h
    · rename_i db hdb
      exact absurd hdb (hnot db)
    · cases h

/-- With a Base62 position everything that has a clock is taken over. -/
theorem create_sendsPairs : SendsPairs Postgres.plain .cards (create "V") := by
  intro field hf hsent
  have hcases : field = "title" ∨ field = "description" ∨ field = "isComplete" ∨
      field = "listId" ∨ field = "positionIdx" := by
    simpa [syncFields] using hf
  rcases hcases with rfl | rfl | rfl | rfl | rfl
  · exact ⟨.str (js "Ship"), by decide, by decide, by decide⟩
  · exact absurd hsent (by decide)
  · exact absurd hsent (by decide)
  · exact ⟨.str Sample.listId, by decide, by decide, by decide⟩
  · exact ⟨.str (js "V"), by decide, by decide, by decide⟩

end Offline

theorem offline_pairs :
    ∃ k, ∃ row : Row Postgres.plain .cards, Postgres.plain.uuid (Offline.create "V").id = some k ∧
      (Offline.after "V").find .cards k = some row ∧ row.PairsAsSent (Offline.create "V") := by
  have hok : tryInsert (Sample.database ∅) Sample.orgId 1 (Offline.create "V") .cards =
      .ok (.inserted (Offline.after "V")) := Offline.outcome_eq (by decide)
  obtain ⟨k, row, hk, hfind, hpairs⟩ := inserted_pairs_iff plain_typedColumns hok
  exact ⟨k, row, hk, hfind, hpairs.mpr Offline.create_sendsPairs⟩

/-- A position that ends in the lowest digit is replaced by a minted one, under the clock
of the position that was sent. -/
theorem minted_under_clock :
    Offline.outcome "M0" = .ok (.inserted (Offline.after "M0")) ∧
      ∃ row, (Offline.after "M0").find .cards Sample.cardId = some row ∧
        row.syncClocks.lookup "positionIdx" = some 5 ∧
        row.columns.lookup "positionIdx" = some (.str (js "M")) ∧
        ¬ row.PairsAsSent (Offline.create "M0") := by
  have hrow : ((Offline.after "M0").find .cards Sample.cardId).any (fun row =>
      decide (row.syncClocks.lookup "positionIdx" = some 5) &&
        decide (row.columns.lookup "positionIdx" = some (.str (js "M")))) = true := by
    decide
  obtain ⟨row, hfind, hstored⟩ := (Option.any_eq_true _ _).mp hrow
  obtain ⟨hclock, hkey⟩ := Bool.and_eq_true_iff.mp hstored
  have hclock := of_decide_eq_true hclock
  have hkey := of_decide_eq_true hkey
  refine ⟨Offline.outcome_eq (by decide), row, hfind, hclock, hkey, fun hpairs => ?_⟩
  have hsent := (hpairs "positionIdx" (by decide) 5 hclock).2
  rw [hkey] at hsent
  exact absurd hsent (by decide)

end FlowLogix.Server
