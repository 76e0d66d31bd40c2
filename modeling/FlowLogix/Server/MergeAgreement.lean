/-
  Server/MergeAgreement.lean --- the two merges, field by field.

  Each side calls its own merge with itself as the first argument, so the server
  evaluates `mergeServerRecord S C` where the device evaluates
  `mergeRecord C S`.  On own properties the two results have the same clocks,
  the same texts and the same writer, with no assumption on which keys the two
  field maps and clock maps have; `PlainMerge.lean` says what becomes of that on
  plain objects.
-/
import FlowLogix.Crdt.MergeRecord
import FlowLogix.Server.SyncMerge

set_option autoImplicit false

namespace FlowLogix.Server

open FlowLogix.Foundation
open FlowLogix.Crdt (VersionedRecord mergedRecord RemoteWins lookup_mergeFields_clocks
  lookup_mergeFields_fields)

variable {K : Type}

/-! ## The wire -/

/-- A server record as it is sent: a `null` writer travels as `''`. -/
def RecordState.sent (s : RecordState K) (id : JsString) : VersionedRecord K where
  id := id
  fields := s.fields
  clocks := s.clocks
  nodeId := s.nodeId.getD []
  deletedAt := s.deletedAt

/-- A received client version as the server merges it. -/
def ofClient (c : VersionedRecord K) : RecordState K where
  fields := c.fields
  clocks := c.clocks
  nodeId := some c.nodeId
  deletedAt := c.deletedAt

variable [LinearOrder K] [Zero K]

/-! ## Field by field -/

/-- Both sides keep the same clock. -/
theorem mergedClock_eq (s : RecordState K) (c : VersionedRecord K) (key : String) :
    mergedClock s (ofClient c) key =
      if RemoteWins c (s.sent c.id) key then readClock s.clocks key
      else readClock c.clocks key := by
  obtain h | h | h := lt_trichotomy (c.stamp key) ((s.sent c.id).stamp key)
  · rw [mergedClock, if_neg (show ¬ ClientWins s (ofClient c) key from h.not_gt),
      if_pos (show RemoteWins c (s.sent c.id) key from h)]
  · have hclock : readClock c.clocks key = readClock s.clocks key :=
      congrArg Prod.fst (toLex.injective h)
    rw [mergedClock, if_neg (show ¬ ClientWins s (ofClient c) key from h.not_gt),
      if_neg (show ¬ RemoteWins c (s.sent c.id) key from h.not_lt)]
    exact hclock.symm
  · rw [mergedClock, if_pos (show ClientWins s (ofClient c) key from h),
      if_neg (show ¬ RemoteWins c (s.sent c.id) key from h.not_gt)]
    rfl

/-- Both sides keep the same value, up to its canonical text. -/
theorem mergedValue_eq (s : RecordState K) (c : VersionedRecord K) (key : String) :
    canonicalJson (mergedValue s (ofClient c) key) =
      canonicalJson (if RemoteWins c (s.sent c.id) key then readField s.fields key
        else readField c.fields key) := by
  obtain h | h | h := lt_trichotomy (c.stamp key) ((s.sent c.id).stamp key)
  · rw [mergedValue, if_neg (show ¬ ClientWins s (ofClient c) key from h.not_gt),
      if_pos (show RemoteWins c (s.sent c.id) key from h)]
  · have htext : canonicalJson (readField c.fields key) =
        canonicalJson (readField s.fields key) :=
      congrArg Prod.snd (toLex.injective h)
    rw [mergedValue, if_neg (show ¬ ClientWins s (ofClient c) key from h.not_gt),
      if_neg (show ¬ RemoteWins c (s.sent c.id) key from h.not_lt)]
    exact htext.symm
  · rw [mergedValue, if_pos (show ClientWins s (ofClient c) key from h),
      if_neg (show ¬ RemoteWins c (s.sent c.id) key from h.not_gt)]
    rfl

/-! ## Record by record -/

/-- Both merged clock maps have the same entries. -/
theorem merged_clocks_eq (s : RecordState K) (c : VersionedRecord K) (key : String) :
    (mergeServerRecord s (ofClient c)).merged.clocks.lookup key =
      (mergedRecord c (s.sent c.id)).clocks.lookup key := by
  rw [lookup_merged_clocks, mergedClock_eq, mergedRecord, lookup_mergeFields_clocks]
  exact if_congr or_comm rfl rfl

/-- Both merged field maps have the same texts. -/
theorem merged_fields_eq (s : RecordState K) (c : VersionedRecord K) (key : String) :
    canonicalJson (readField (mergeServerRecord s (ofClient c)).merged.fields key) =
      canonicalJson (readField (mergedRecord c (s.sent c.id)).fields key) := by
  rw [readField, readField, lookup_merged_fields, mergedRecord, lookup_mergeFields_fields]
  by_cases hkey : key ∈ s.fields ∨ key ∈ (ofClient c).fields
  · rw [if_pos hkey, if_pos (show key ∈ c.fields ∨ key ∈ (s.sent c.id).fields from hkey.symm)]
    exact mergedValue_eq s c key
  · rw [if_neg hkey,
      if_neg (show ¬ (key ∈ c.fields ∨ key ∈ (s.sent c.id).fields) from fun h => hkey h.symm)]

/-- Both sides converge to the same writer, `null` and `''` identified.  On a
full tie the server keeps itself and the device takes the remote: the same
record. -/
theorem newestNode_eq (s : RecordState K) (c : VersionedRecord K) :
    (newestNode s (ofClient c)).getD [] = Crdt.newestNode c (s.sent c.id) := by
  show (newestNode s (ofClient c)).getD [] = if c.clocks.mathMax ≠ s.clocks.mathMax then
      (if c.clocks.mathMax > s.clocks.mathMax then c.nodeId else s.nodeId.getD [])
    else if c.nodeId > s.nodeId.getD [] then c.nodeId else s.nodeId.getD []
  unfold newestNode
  by_cases hc : s.clocks.mathMax = c.clocks.mathMax
  · by_cases hn : s.nodeId.getD [] ≥ c.nodeId
    · simp [ofClient, hc, hn, hn.not_gt]
    · simp [ofClient, hc, hn, not_le.mp hn]
  · by_cases hgt : c.clocks.mathMax < s.clocks.mathMax
    · simp [ofClient, hc, Ne.symm hc, hgt, hgt.not_gt]
    · have hlt : s.clocks.mathMax < c.clocks.mathMax := lt_of_le_of_ne (not_lt.mp hgt) hc
      simp [ofClient, hc, Ne.symm hc, hgt, hlt]

/-! ## The server's merge as a join -/

/-- Every clock belongs to a field. -/
def RecordState.Timed (s : RecordState K) : Prop := ∀ key, key ∈ s.clocks → key ∈ s.fields

theorem timed_merged (s c : RecordState K) : (mergeServerRecord s c).merged.Timed := by
  intro key hkey
  rw [← AList.lookup_isSome, lookup_merged_clocks] at hkey
  split at hkey
  · rename_i hmem
    exact mem_merged_fields.mpr hmem
  · cases hkey

/-- Where every clock belongs to a field, the server's merge computes the join of
the registers. -/
theorem registers_merged {s : RecordState K} {c : VersionedRecord K} (hs : s.Timed)
    (hc : c.Timed) :
    (mergeServerRecord s (ofClient c)).merged.registers = s.registers ⊔ c.registers := by
  refine Prod.ext (funext fun key => ?_) (tombOf_merged s (ofClient c))
  have hclock : readClock (mergeServerRecord s (ofClient c)).merged.clocks key =
      readClock (mergedRecord c (s.sent c.id)).clocks key := by
    rw [readClock, merged_clocks_eq, readClock]
  have hstamp : (mergeServerRecord s (ofClient c)).merged.stamp key =
      (mergedRecord c (s.sent c.id)).stamp key :=
    congrArg toLex (Prod.ext hclock (merged_fields_eq s c key))
  have hjoin := Crdt.stamp_mergedRecord hc (show (s.sent c.id).Timed from hs) key
  exact (hstamp.trans hjoin).trans (sup_comm _ _)

/-- A merge that changes nothing had nothing to take from the client. -/
theorem registers_le_of_not_changed {s : RecordState K} {c : VersionedRecord K} (hs : s.Timed)
    (hc : c.Timed) (h : (mergeServerRecord s (ofClient c)).serverChanged = false) :
    c.registers ≤ s.registers := by
  have hchanged := mt (serverChanged_iff s (ofClient c)).mpr (ne_true_of_eq_false h)
  rw [not_or, not_not] at hchanged
  obtain ⟨hfields, htomb⟩ := hchanged
  refine ⟨fun key => ?_, ?_⟩
  · by_cases hkey : key ∈ s.fields ∨ key ∈ c.fields
    · exact not_lt.mp fun hlt => hfields ⟨key, hkey, hlt⟩
    · obtain ⟨hsf, hcf⟩ := not_or.mp hkey
      show stampOf c.fields c.clocks key ≤ stampOf s.fields s.clocks key
      rw [stampOf_of_not_mem hsf (fun hmem => hsf (hs key hmem)),
        stampOf_of_not_mem hcf (fun hmem => hcf (hc key hmem))]
  · show tombOf c.deletedAt ≤ tombOf s.deletedAt
    have hle : tombOf c.deletedAt ≤ tombOf (pickTomb s.deletedAt c.deletedAt) := by
      rw [tombOf_pickTomb]
      exact le_sup_right
    rwa [show pickTomb s.deletedAt c.deletedAt = s.deletedAt from htomb] at hle

end FlowLogix.Server
