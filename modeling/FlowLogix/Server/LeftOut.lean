/-
  Server/LeftOut.lean --- the changes an echo leaves out
  (backend/src/sync/sync-merge.ts).

  `serverAhead` decides whether a merged record is sent back, by a loop of its own over
  the clocks.  A tie is not ahead, and a tie is where the merge may keep the server's
  side all the same: the greater value of two under one clock, and a tombstone stamped
  0 beside none.  A record is left out of the echo while the client still holds the
  other value exactly there.
-/
import FlowLogix.Server.SyncMerge

set_option autoImplicit false

namespace FlowLogix.Server

open FlowLogix.Foundation

variable {K : Type} [LinearOrder K] [Zero K] {server client : RecordState K}

/-! ## Tombstones -/

/-- Where the server's stamp is not newer, the merge keeps the client's unless the two
are 0 and none. -/
theorem mergeTombstone_eq_right_iff {s c : Option K} (h : s.getD 0 ≤ c.getD 0) :
    mergeTombstone s c = c ↔ ¬ (s = some 0 ∧ c = none) := by
  unfold mergeTombstone pickTomb
  rcases h.lt_or_eq with hlt | heq
  · rw [if_neg hlt.ne, if_neg hlt.not_gt]
    refine iff_of_true rfl ?_
    rintro ⟨rfl, rfl⟩
    exact lt_irrefl _ hlt
  · rw [if_pos heq]
    cases s with
    | none => simp
    | some d =>
        cases c with
        | none =>
            obtain rfl : d = 0 := heq
            simp
        | some e =>
            obtain rfl : d = e := heq
            simp

/-! ## The echo -/

theorem isServerAhead_eq_false_iff :
    isServerAhead server client = false ↔
      (∀ key ∈ server.fields, readClock server.clocks key ≤ readClock client.clocks key) ∧
        server.deletedAt.getD 0 ≤ client.deletedAt.getD 0 := by
  simp [isServerAhead, AList.mem_keys]

/-- The client is at the merged state: for every field the value it has, up to the
canonical text, and its clock, and the tombstone. -/
structure AtMerged (server client : RecordState K) : Prop where
  values : ∀ key ∈ client.fields,
    canonicalJson (readField (mergeServerRecord server client).merged.fields key) =
      canonicalJson (readField client.fields key)
  clocks : ∀ key ∈ client.fields,
    readClock (mergeServerRecord server client).merged.clocks key = readClock client.clocks key
  deletedAt : (mergeServerRecord server client).merged.deletedAt = client.deletedAt

/-- The server's side is strictly newer in a field or the tombstone. -/
def StrictlyNewer (server client : RecordState K) : Prop :=
  (∃ key ∈ server.fields, readClock client.clocks key < readClock server.clocks key) ∨
    client.deletedAt.getD 0 < server.deletedAt.getD 0

/-- No tie goes to the server: under one clock its value is no greater, and it has no
tombstone stamped 0 where the client has none. -/
def WinsNoTie (server client : RecordState K) : Prop :=
  (∀ key ∈ server.fields, readClock server.clocks key = readClock client.clocks key →
    canonicalJson (readField server.fields key) ≤ canonicalJson (readField client.fields key)) ∧
    ¬ (server.deletedAt = some 0 ∧ client.deletedAt = none)

/-- The register of a field that neither side is ahead in is the client's exactly where
the server does not win a tie. -/
theorem stamp_le_iff_of_clock_le {key : String}
    (h : readClock server.clocks key ≤ readClock client.clocks key) :
    server.stamp key ≤ client.stamp key ↔
      (readClock server.clocks key = readClock client.clocks key →
        canonicalJson (readField server.fields key) ≤
          canonicalJson (readField client.fields key)) := by
  rw [RecordState.stamp, RecordState.stamp, stampOf, stampOf, Prod.Lex.toLex_le_toLex]
  constructor
  · rintro (hlt | ⟨-, hle⟩) heq
    · exact absurd heq hlt.ne
    · exact hle
  · intro htie
    exact h.lt_or_eq.imp_right fun heq => ⟨heq, htie heq⟩

/-- The merged register of a field is the client's exactly where the server's is no
greater. -/
theorem merged_eq_client_iff {key : String} (hkey : key ∈ client.fields) :
    (canonicalJson (readField (mergeServerRecord server client).merged.fields key) =
        canonicalJson (readField client.fields key) ∧
      readClock (mergeServerRecord server client).merged.clocks key =
        readClock client.clocks key) ↔ server.stamp key ≤ client.stamp key := by
  have heither : key ∈ server.fields ∨ key ∈ client.fields := Or.inr hkey
  have hstamp := stamp_merged_of_mem heither
  rw [← sup_eq_right, ← hstamp]
  constructor
  · rintro ⟨hvalue, hclock⟩
    exact congrArg toLex (Prod.ext hclock hvalue)
  · intro h
    have hpair := toLex.injective h
    exact ⟨congrArg Prod.snd hpair, congrArg Prod.fst hpair⟩

/-- **The server tells a client that is not at the merged state**, exactly where it is
strictly newer or wins no tie. -/
theorem leftOut_iff (hsame : ∀ key, key ∈ server.fields ↔ key ∈ client.fields) :
    ((mergeServerRecord server client).serverAhead = false → AtMerged server client) ↔
      StrictlyNewer server client ∨ WinsNoTie server client := by
  have hnewer : ¬ StrictlyNewer server client ↔ isServerAhead server client = false := by
    simp [isServerAhead_eq_false_iff, StrictlyNewer]
  constructor
  · intro h
    rw [or_iff_not_imp_left, hnewer]
    intro hahead
    have hat := h hahead
    obtain ⟨hclocks, htomb⟩ := isServerAhead_eq_false_iff.mp hahead
    refine ⟨fun key hkey => ?_, ?_⟩
    · have hmem := (hsame key).mp hkey
      have hle := (merged_eq_client_iff hmem).mp ⟨hat.values key hmem, hat.clocks key hmem⟩
      exact (stamp_le_iff_of_clock_le (hclocks key hkey)).mp hle
    · exact (mergeTombstone_eq_right_iff htomb).mp hat.deletedAt
  · intro h hahead
    obtain ⟨hties, hstamps⟩ := h.resolve_left (hnewer.mpr hahead)
    obtain ⟨hclocks, htomb⟩ := isServerAhead_eq_false_iff.mp hahead
    have hle : ∀ key ∈ client.fields, server.stamp key ≤ client.stamp key := by
      intro key hkey
      have hmem := (hsame key).mpr hkey
      exact (stamp_le_iff_of_clock_le (hclocks key hmem)).mpr (hties key hmem)
    exact {
      values := fun key hkey => ((merged_eq_client_iff hkey).mpr (hle key hkey)).1
      clocks := fun key hkey => ((merged_eq_client_iff hkey).mpr (hle key hkey)).2
      deletedAt := (mergeTombstone_eq_right_iff htomb).mpr hstamps }

/-! ### Two titles under one clock -/

namespace TiedTitle

def titled (title : String) : RecordState Nat where
  fields := Dict.ofList [("title", some (.str (js title)))]
  clocks := Dict.ofList [("title", 5)]
  nodeId := none
  deletedAt := none

end TiedTitle

/-- The client holds the greater of two titles: it is at the merged state. -/
theorem tiedTitle_settled :
    AtMerged (TiedTitle.titled "Alpha") (TiedTitle.titled "Beta") := by
  have hkeys : ∀ key, key ∈ (TiedTitle.titled "Alpha").fields ↔
      key ∈ (TiedTitle.titled "Beta").fields := fun _ => Iff.rfl
  apply (leftOut_iff hkeys).mpr
  · right
    refine ⟨fun key hkey _ => ?_, by decide⟩
    obtain rfl : key = "title" := List.mem_singleton.mp hkey
    decide
  · decide

/-- The server holds the greater one: the client is told nothing and keeps the other. -/
theorem tiedTitle_leftOut :
    (mergeServerRecord (TiedTitle.titled "Beta") (TiedTitle.titled "Alpha")).serverAhead = false ∧
      ¬ AtMerged (TiedTitle.titled "Beta") (TiedTitle.titled "Alpha") := by
  refine ⟨by decide, fun h => ?_⟩
  have htitle := h.values "title" (by decide)
  exact absurd htitle (by decide)

end FlowLogix.Server
