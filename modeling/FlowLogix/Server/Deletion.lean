/-
  Server/Deletion.lean --- when a merged record is deleted
  (mobile/src/crdt/mergeRecord.ts, backend/src/sync/sync-merge.ts,
  backend/src/common/sync-visibility.ts).

  Three packages derive visibility from a tombstone and the field clocks, each with a
  function of its own, and two merges produce what they read.  `Merges` is any way of
  merging a family of versions, each step by either merge.  The three functions agree on
  the result, and hold exactly where the greatest tombstone of the family is at least its
  greatest field clock, on the families of versions that share their inherited names and
  have finite clocks only (`deletedAlike_iff`): a member of `Object.prototype` among the
  clocks makes `Math.max` `NaN`, and the web reads drop a clock that is not finite.
-/
import FlowLogix.Server.BoardEndpoints
import FlowLogix.Server.PlainMerge

set_option autoImplicit false

namespace FlowLogix.Server

open FlowLogix.Foundation
open FlowLogix.Crdt (VersionedRecord PlainRecord MergeError mergedRecord)

variable {K : Type}

/-! ## The web reads -/

/-- A value of the `sync_clocks` column, as `Number` reads it: a number, or another value
with the number it converts to, if that is not `NaN`. -/
inductive ClockValue (K : Type) where
  | number (value : K)
  | other (converted : Option K)

/-- `Number(value)`, `none` standing for `NaN`. -/
def ClockValue.toNumber : ClockValue K → Option K
  | .number value => some value
  | .other converted => converted

/-- `SyncDeletable`. -/
structure SyncDeletable (K : Type) where
  syncDeletedAt : Option K
  syncClocks : Option (JsObject (ClockValue K))

/-- `isSyncDeleted` of the web reads, on what the columns can hold; `isFinite` is
`Number.isFinite` on the numbers other than `NaN`. -/
def SyncDeletable.isSyncDeleted [LinearOrder K] [Zero K] (isFinite : K → Bool)
    (row : SyncDeletable K) : Bool :=
  match row.syncDeletedAt with
  | none => false
  | some deletedAt =>
      let clockValues :=
        ((row.syncClocks.getD ∅).values.filterMap ClockValue.toNumber).filter isFinite
      let newestFieldWrite := clockValues.foldl max 0
      decide (newestFieldWrite ≤ deletedAt)

/-- A clock as the column holds it: no member of `Object.prototype` is a number. -/
def ClockValue.ofProperty : Property K → ClockValue K
  | .value value => .number value
  | .inherited _ => .other none

/-- The columns a record is stored in. -/
def PlainState.row (r : PlainState K) : SyncDeletable K where
  syncDeletedAt := r.deletedAt
  syncClocks := some (r.clocks.own.mapValues .ofProperty)

/-! ## One predicate -/

section Predicates

variable [LinearOrder K] [Zero K]

/-- A tombstone at least as new as every field write. -/
def PlainState.IsBuried (r : PlainState K) : Prop :=
  ∃ d, r.deletedAt = some d ∧ ∃ m, r.clocks.mathMax = some m ∧ m ≤ d

/-- The same, of a state that is not in plain objects. -/
def RecordState.IsBuried (r : RecordState K) : Prop :=
  ∃ d, r.deletedAt = some d ∧ r.clocks.mathMax ≤ d

theorem isBuried_plain_iff (r : RecordState K) : r.plain.IsBuried ↔ r.IsBuried := by
  simp [PlainState.IsBuried, RecordState.IsBuried, RecordState.plain, PlainFields.ofDicts,
    PlainObject.mathMax_ofDict]

theorem numberGe_some_iff {d : K} {m : Option K} :
    numberGe (some d) m = true ↔ ∃ x, m = some x ∧ x ≤ d := by
  cases m with
  | none => simp [numberGe]
  | some x => simp [numberGe]

theorem isDeleted_iff_isBuried (r : PlainState K) : Plain.isDeleted r = true ↔ r.IsBuried := by
  unfold Plain.isDeleted PlainState.IsBuried
  cases r.deletedAt with
  | none => simp
  | some d => simp [numberGe_some_iff]

theorem mobile_isDeleted_iff_isBuried (r : PlainState K) (id : JsString) :
    Crdt.Plain.isDeleted (r.sent id) = true ↔ r.IsBuried := by
  unfold Crdt.Plain.isDeleted PlainState.IsBuried PlainState.sent
  cases r.deletedAt with
  | none => simp
  | some d =>
      simp only [numberGe_some_iff, Option.some.injEq, exists_eq_left']
      rfl

/-- The web reads compare with the finite numbers among the clocks. -/
theorem isSyncDeleted_iff (isFinite : K → Bool) (r : PlainState K) :
    r.row.isSyncDeleted isFinite = true ↔ ∃ d, r.deletedAt = some d ∧ 0 ≤ d ∧
      ∀ key a, r.clocks.own.lookup key = some (.value a) → isFinite a = true → a ≤ d := by
  unfold SyncDeletable.isSyncDeleted PlainState.row
  cases r.deletedAt with
  | none => simp
  | some d =>
      simp only [Option.getD_some, decide_eq_true_eq, Option.some.injEq, exists_eq_left',
        Dict.foldl_max_le_iff, List.mem_filter, List.mem_filterMap, Dict.mem_values_iff,
        Dict.lookup_mapValues, Option.map_eq_some_iff]
      refine and_congr_right fun _ => ⟨fun h key a ha hfinite => ?_, ?_⟩
      · exact h a ⟨⟨.number a, ⟨key, .value a, ha, rfl⟩, rfl⟩, hfinite⟩
      · rintro h a ⟨⟨_, ⟨key, p, hp, rfl⟩, hnumber⟩, hfinite⟩
        cases p with
        | value b =>
            obtain rfl := Option.some.inj hnumber
            exact h key b hp hfinite
        | inherited name => cases hnumber

/-- Where every clock is a finite number, so is what the others compare with. -/
theorem isSyncDeleted_iff_isBuried {isFinite : K → Bool} {r : PlainState K}
    (h : ∀ key p, r.clocks.own.lookup key = some p → ∃ a, p = .value a ∧ isFinite a = true) :
    r.row.isSyncDeleted isFinite = true ↔ r.IsBuried := by
  rw [isSyncDeleted_iff, PlainState.IsBuried]
  refine exists_congr fun d => and_congr_right fun _ => ?_
  rw [PlainObject.mathMax_le_iff]
  refine and_congr_right fun _ => forall_congr' fun key =>
    ⟨fun hle p hp => ?_, fun hle a ha _ => ?_⟩
  · obtain ⟨a, rfl, hfinite⟩ := h key p hp
    exact ⟨a, rfl, hle a hp hfinite⟩
  · obtain ⟨b, hb, hle'⟩ := hle _ ha
    exact Property.value.inj hb ▸ hle'

/-- On a state that is not in plain objects. -/
theorem isSyncDeleted_plain_iff (r : RecordState K) :
    r.plain.row.isSyncDeleted (fun _ => true) = true ↔ r.IsBuried := by
  rw [isSyncDeleted_iff_isBuried, isBuried_plain_iff]
  intro key p hp
  obtain ⟨a, -, rfl⟩ := Option.map_eq_some_iff.mp ((PlainObject.lookup_ofDict _ _).symm.trans hp)
  exact ⟨a, rfl, rfl⟩

end Predicates

/-- On the rows of the tables, whose clocks are finite, it is the function the read
endpoints filter by. -/
theorem isSyncDeleted_serverState {pg : Postgres} {c : SyncCollection} (row : Row pg c) :
    (serverState row).plain.row.isSyncDeleted (fun _ => true) = isSyncDeleted row := by
  rw [Bool.eq_iff_iff, isSyncDeleted_plain_iff, isSyncDeleted]
  simp [RecordState.IsBuried, serverState, Option.any_eq_true]

/-! ## Merging a family of versions -/

/-- A way of merging versions of one record: at each step on a device or on the server. -/
inductive Merges (K : Type) where
  | version (record : RecordState K)
  | device (loc remote : Merges K)
  | server (master client : Merges K)

namespace Merges

/-- The versions that are merged. -/
def versions : Merges K → List (RecordState K)
  | .version record => [record]
  | .device loc remote => loc.versions ++ remote.versions
  | .server master client => master.versions ++ client.versions

theorem exists_mem_versions (merges : Merges K) : ∃ v, v ∈ merges.versions := by
  induction merges with
  | version record => exact ⟨record, List.mem_cons_self⟩
  | device loc remote ih _ =>
      obtain ⟨v, hv⟩ := ih
      exact ⟨v, List.mem_append_left remote.versions hv⟩
  | server master client ih _ =>
      obtain ⟨v, hv⟩ := ih
      exact ⟨v, List.mem_append_left client.versions hv⟩

variable [LinearOrder K] [Zero K]

/-- The merged record, a `null` writer travelling as `''`. -/
def eval (id : JsString) : Merges K → Except MergeError (PlainState K)
  | .version record => .ok record.plain
  | .device loc remote => do
      let l ← loc.eval id
      let r ← remote.eval id
      let result ← Crdt.Plain.mergeRecord (l.sent id) (r.sent id)
      return .received result.merged
  | .server master client => do
      let s ← master.eval id
      let c ← client.eval id
      return (Plain.mergeServerRecord s c).merged

end Merges

section Merged

variable [LinearOrder K] [Zero K] {s c r : RecordState K}

/-- What deletion depends on, of a record merged from two others. -/
structure Joins (r s c : RecordState K) : Prop where
  timed : r.Timed
  clock : ∀ key, readClock r.clocks key = max (readClock s.clocks key) (readClock c.clocks key)
  deletedAt : r.deletedAt = pickTomb s.deletedAt c.deletedAt

theorem joins_of_mergedDicts (hs : s.Timed) (hc : c.Timed)
    (h : MergedDicts s.fields c.fields r.fields s.clocks c.clocks r.clocks)
    (hdeletedAt : r.deletedAt = pickTomb s.deletedAt c.deletedAt) : Joins r s c where
  timed key hkey := by
    rw [← AList.lookup_isSome, h.clocks] at hkey
    rw [← AList.lookup_isSome, h.fields]
    split at hkey
    · rename_i hmem
      rw [if_pos hmem]
      rfl
    · cases hkey
  clock key := by
    by_cases hkey : key ∈ s.fields ∨ key ∈ c.fields
    · have hmono := Prod.Lex.monotone_fst_ofLex (α := K) (β := JsString)
      rw [readClock, h.clocks, if_pos hkey, Option.getD_some]
      by_cases hlt : stampOf s.fields s.clocks key < stampOf c.fields c.clocks key
      · rw [if_pos hlt]
        exact (max_eq_right (hmono hlt.le)).symm
      · rw [if_neg hlt]
        exact (max_eq_left (hmono (not_lt.mp hlt))).symm
    · obtain ⟨hsf, hcf⟩ := not_or.mp hkey
      have hmerged : r.clocks.lookup key = none := by
        rw [h.clocks, if_neg hkey]
      rw [readClock_of_not_mem (AList.lookup_eq_none.mp hmerged),
        readClock_of_not_mem (mt (hs key) hsf), readClock_of_not_mem (mt (hc key) hcf), max_self]
  deletedAt := hdeletedAt

/-- What a family of versions leaves in a record merged from it. -/
structure Summary (versions : List (RecordState K)) (r : RecordState K) : Prop where
  timed : r.Timed
  newest : ∀ x, r.clocks.mathMax ≤ x ↔ ∀ v ∈ versions, v.clocks.mathMax ≤ x
  /-- the tombstone is one of theirs -/
  stamped : ∃ v ∈ versions, r.deletedAt = v.deletedAt
  /-- and none of theirs is later -/
  latest : ∀ v ∈ versions, tombOf v.deletedAt ≤ tombOf r.deletedAt

/-- One merge, of two families. -/
theorem Joins.summary {vs ws : List (RecordState K)} (h : Joins r s c) (hs : Summary vs s)
    (hc : Summary ws c) : Summary (vs ++ ws) r where
  timed := h.timed
  newest x := by
    have hmax : r.clocks.mathMax ≤ x ↔ s.clocks.mathMax ≤ x ∧ c.clocks.mathMax ≤ x := by
      simp only [mathMax_le_iff, h.clock, max_le_iff, forall_and]
      tauto
    rw [hmax, hs.newest, hc.newest, List.forall_mem_append]
  stamped := by
    obtain ⟨v, hv, heq⟩ := hs.stamped
    obtain ⟨w, hw, heq'⟩ := hc.stamped
    rcases pickTomb_eq_or s.deletedAt c.deletedAt with hpick | hpick
    · exact ⟨v, List.mem_append_left ws hv, by rw [h.deletedAt, hpick, heq]⟩
    · exact ⟨w, List.mem_append_right vs hw, by rw [h.deletedAt, hpick, heq']⟩
  latest := by
    rw [h.deletedAt, tombOf_pickTomb]
    intro v hv
    rcases List.mem_append.mp hv with hv | hv
    · exact (hs.latest v hv).trans le_sup_left
    · exact (hc.latest v hv).trans le_sup_right

/-- Some version has a tombstone, and the greatest tombstone of all of them is at least
the greatest field clock that occurs in any. -/
def DeletedTogether (versions : List (RecordState K)) : Prop :=
  ∃ v ∈ versions, ∃ d, v.deletedAt = some d ∧
    (∀ w ∈ versions, ∀ e, w.deletedAt = some e → e ≤ d) ∧
    ∀ w ∈ versions, ∀ key clock, w.clocks.lookup key = some clock → clock ≤ d

/-- Among stamps that are not negative, a later register is a later stamp. -/
theorem le_of_tombOf_le {d e : K} (h : tombOf (some e) ≤ tombOf (some d)) : e ≤ d := by
  rcases Prod.Lex.toLex_le_toLex.mp h with hlt | ⟨heq, -⟩
  · exact le_of_lt hlt
  · exact le_of_eq heq

/-- Beside a stamp that is not negative, `null` is not the later register. -/
theorem not_tombOf_le_none {e : K} (he : 0 ≤ e) : ¬ tombOf (some e) ≤ tombOf none := by
  intro h
  rcases Prod.Lex.toLex_le_toLex.mp h with hlt | ⟨-, hle⟩
  · exact absurd he (not_le.mpr hlt)
  · exact absurd hle (show ¬ true ≤ false by decide)

theorem Summary.isBuried_iff {versions : List (RecordState K)} (h : Summary versions r)
    (hstamps : ∀ v ∈ versions, ∀ d, v.deletedAt = some d → 0 ≤ d) :
    r.IsBuried ↔ DeletedTogether versions := by
  constructor
  · rintro ⟨d, hd, hnewest⟩
    obtain ⟨v, hv, hstamp⟩ := h.stamped
    refine ⟨v, hv, d, hstamp.symm.trans hd, ?_, ?_⟩
    · intro w hw e he
      have hle := h.latest w hw
      rw [hd, he] at hle
      exact le_of_tombOf_le hle
    · intro w hw key clock hclock
      have hle := (h.newest d).mp hnewest w hw
      exact (Dict.mathMax_le_iff.mp hle).2 key clock hclock
  · rintro ⟨v, hv, d, hd, hlatest, hclocks⟩
    have hpos := hstamps v hv d hd
    obtain ⟨w, hw, hstamp⟩ := h.stamped
    -- the stamp of the result is one of theirs, hence not after `d`
    have hle := h.latest v hv
    rw [hd] at hle
    cases hr : r.deletedAt with
    | none =>
        rw [hr] at hle
        exact absurd hle (not_tombOf_le_none hpos)
    | some e =>
        rw [hr] at hle
        have hde := le_of_tombOf_le hle
        refine ⟨e, hr, (h.newest e).mpr fun u hu => ?_⟩
        refine (Dict.mathMax_le_iff.mpr ⟨hpos, hclocks u hu⟩).trans hde

end Merged

/-! ## Families of versions -/

/-- The numbers other than `NaN`, the finite ones as rationals. -/
abbrev Numeric : Type := WithBot (WithTop ℚ)

/-- `Number.isFinite`. -/
def isFinite (x : Numeric) : Bool := decide (x ≠ ⊥) && decide (x ≠ ⊤)

/-- A version up to its tombstone: fields, with a clock for each that is not negative. -/
structure FieldVersion where
  record : RecordState Numeric
  complete : ∀ key, key ∈ record.clocks ↔ key ∈ record.fields
  nonneg : ∀ key c, record.clocks.lookup key = some c → 0 ≤ c

/-- The version with some tombstone: `null`, or a stamp that is not negative. -/
structure FieldVersion.Stamped (u : FieldVersion) (v : RecordState Numeric) : Prop where
  fields : v.fields = u.record.fields
  clocks : v.clocks = u.record.clocks
  nonneg : ∀ d, v.deletedAt = some d → 0 ≤ d

/-- However versions of the family are merged, with whatever tombstones, the three
predicates hold of the result exactly where the greatest tombstone is at least the greatest
field clock. -/
def DeletedAlike (family : Set FieldVersion) : Prop :=
  ∀ (id : JsString) (merges : Merges Numeric), (∀ v ∈ merges.versions, ∃ u ∈ family, u.Stamped v) →
    ∃ r, merges.eval id = .ok r ∧
      (Crdt.Plain.isDeleted (r.sent id) = true ↔ DeletedTogether merges.versions) ∧
      (Plain.isDeleted r = true ↔ DeletedTogether merges.versions) ∧
      (r.row.isSyncDeleted isFinite = true ↔ DeletedTogether merges.versions)

/-- The versions of the family have the same fields named like a member of
`Object.prototype`, none has its newest clock under `__proto__` alone, and every clock is
finite. -/
structure Comparable (family : Set FieldVersion) : Prop where
  same : ∀ a ∈ family, ∀ b ∈ family, SameNames a.record.fields b.record.fields
  proto : ∀ a ∈ family, readClock a.record.clocks "__proto__" ≤
    Dict.mathMax (a.record.clocks.erase "__proto__")
  finite : ∀ a ∈ family, ∀ key c, a.record.clocks.lookup key = some c → isFinite c = true

/-! ### Comparable families -/

section Comparable

variable {family : Set FieldVersion}

theorem isFinite_zero : isFinite 0 = true := by
  have htop : (0 : Numeric) ≠ ⊤ := fun h => WithTop.zero_ne_top (WithBot.coe_injective h)
  simp [isFinite, htop]

/-- A plain state shows what deletion depends on of a state: its clocks, the newest of them
and the tombstone. -/
structure ShowsDeletion (p : PlainState Numeric) (r : RecordState Numeric) : Prop where
  clocks : ShowsClocks p.toPlainFields r.fields r.clocks
  newest : p.clocks.mathMax = some r.clocks.mathMax
  deletedAt : p.deletedAt = r.deletedAt

/-- What merging versions of a comparable family comes to: a state with finite clocks that
shows one with the summary of the versions and the family's inherited names. -/
structure MergesTo (family : Set FieldVersion) (versions : List (RecordState Numeric))
    (p : PlainState Numeric) : Prop where
  finite : ∀ key q, p.clocks.own.lookup key = some q → ∃ a, q = .value a ∧ isFinite a = true
  shows : ∃ r, ShowsDeletion p r ∧ Summary versions r ∧
    ∀ u ∈ family, SameNames r.fields u.record.fields

theorem mergesTo_version (h : Comparable family) {u : FieldVersion} (hu : u ∈ family)
    {v : RecordState Numeric} (hv : u.Stamped v) : MergesTo family [v] v.plain where
  finite key q hq := by
    obtain ⟨a, ha, rfl⟩ := Option.map_eq_some_iff.mp
      ((PlainObject.lookup_ofDict v.clocks key).symm.trans hq)
    exact ⟨a, rfl, h.finite u hu key a (hv.clocks ▸ ha)⟩
  shows := by
    have hcomplete : ∀ key, key ∈ v.clocks ↔ key ∈ v.fields := by
      rw [hv.fields, hv.clocks]
      exact u.complete
    have hmax : Dict.mathMax (v.clocks.erase "__proto__") = v.clocks.mathMax := by
      rw [hv.clocks]
      exact mathMax_erase (h.proto u hu)
    have hclocks : ShowsClocks v.plain.toPlainFields (v.fields.erase "__proto__")
        (v.clocks.erase "__proto__") := .of_erase fun key _ => (hcomplete key).mpr
    refine ⟨{ v with fields := v.fields.erase "__proto__", clocks := v.clocks.erase "__proto__" },
      ⟨hclocks, (PlainObject.mathMax_ofDict v.clocks).trans (congrArg some hmax.symm), rfl⟩,
      ⟨fun key hmem => ?_, fun x => ?_, ⟨v, List.mem_cons_self, rfl⟩, ?_⟩,
      fun w hw key hin hkey => ?_⟩
    · have hclock := AList.mem_erase.mp hmem
      exact AList.mem_erase.mpr ⟨hclock.1, (hcomplete key).mp hclock.2⟩
    · show Dict.mathMax (v.clocks.erase "__proto__") ≤ x ↔ _
      rw [hmax]
      simp
    · simp
    · show key ∈ v.fields.erase "__proto__" ↔ _
      rw [AList.mem_erase, hv.fields, ← h.same u hu w hw key hin hkey]
      exact and_iff_right hkey

/-- A clock shown by a state with finite clocks is finite. -/
theorem isFinite_readClock {p : PlainState Numeric} {r : RecordState Numeric}
    (h : ShowsDeletion p r)
    (hfinite : ∀ key q, p.clocks.own.lookup key = some q → ∃ a, q = .value a ∧ isFinite a = true)
    {key : String} (hkey : key ≠ "__proto__") : isFinite (readClock r.clocks key) = true := by
  rw [readClock]
  cases hlookup : r.clocks.lookup key with
  | none => exact isFinite_zero
  | some c =>
      have hown := h.clocks.clocks key hkey
      rw [hlookup] at hown
      obtain ⟨a, ha, hfin⟩ := hfinite key _ hown
      exact Property.value.inj ha ▸ hfin

theorem nonempty_of_versions {merges : Merges Numeric}
    (h : ∀ v ∈ merges.versions, ∃ u ∈ family, u.Stamped v) : family.Nonempty := by
  obtain ⟨v, hv⟩ := merges.exists_mem_versions
  obtain ⟨u, hu, -⟩ := h v hv
  exact ⟨u, hu⟩

/-- One merge, on either side. -/
theorem MergesTo.merged {vs ws : List (RecordState Numeric)} {p q m : PlainState Numeric}
    (hfamily : family.Nonempty) (hp : MergesTo family vs p) (hq : MergesTo family ws q)
    (hm : PlainFields.Merged p.toPlainFields q.toPlainFields m.toPlainFields)
    (hdeletedAt : m.deletedAt = pickTomb p.deletedAt q.deletedAt) :
    MergesTo family (vs ++ ws) m := by
  obtain ⟨u, hu⟩ := hfamily
  obtain ⟨l, hl, hlsum, hlnames⟩ := hp.shows
  obtain ⟨r, hr, hrsum, hrnames⟩ := hq.shows
  have hnames : SameNames l.fields r.fields := fun key hin hkey =>
    (hlnames u hu key hin hkey).trans (hrnames u hu key hin hkey).symm
  have hdicts := mergedDicts_mergeServerRecord l r
  have hclocks := hl.clocks.merged hr.clocks hnames hm hdicts
  have hproto := hm.lookup_proto.1
  refine ⟨fun key q' hq' => ?_, (mergeServerRecord l r).merged,
    ⟨hclocks, hclocks.newest_merged hm hdicts, ?_⟩,
    (joins_of_mergedDicts hlsum.timed hrsum.timed hdicts rfl).summary hlsum hrsum,
    fun w hw => (hlnames w hw).merged (hrnames w hw) hdicts⟩
  · have hkey : key ≠ "__proto__" := by
      rintro rfl
      cases hproto.symm.trans hq'
    obtain ⟨a, ha, rfl⟩ := Option.map_eq_some_iff.mp ((hclocks.clocks key hkey).symm.trans hq')
    rw [hdicts.clocks] at ha
    split at ha
    · refine ⟨a, rfl, ?_⟩
      rw [← Option.some.inj ha]
      split
      · exact isFinite_readClock hr hq.finite hkey
      · exact isFinite_readClock hl hp.finite hkey
    · cases ha
  · rw [hdeletedAt, hl.deletedAt, hr.deletedAt]
    rfl

/-- Any way of merging the versions.  The induction is on the way. -/
theorem Merges.mergesTo (h : Comparable family) (id : JsString) (merges : Merges Numeric)
    (hversions : ∀ v ∈ merges.versions, ∃ u ∈ family, u.Stamped v) :
    ∃ p, merges.eval id = .ok p ∧ MergesTo family merges.versions p := by
  induction merges with
  | version record =>
      obtain ⟨u, hu, hstamped⟩ := hversions record List.mem_cons_self
      exact ⟨record.plain, rfl, mergesTo_version h hu hstamped⟩
  | device loc remote ihl ihr =>
      obtain ⟨hl, hr⟩ := List.forall_mem_append.mp hversions
      obtain ⟨p, hevalp, hp⟩ := ihl hl
      obtain ⟨q, hevalq, hq⟩ := ihr hr
      obtain ⟨result, hok, hmerged, -⟩ := Crdt.Plain.mergeRecord_ok
        (show (p.sent id).id = (q.sent id).id from rfl)
      have hfamily : family.Nonempty := nonempty_of_versions hl
      refine ⟨.received result.merged, ?_, ?_⟩
      · rw [eval, hevalp, hevalq]
        show (Crdt.Plain.mergeRecord (p.sent id) (q.sent id) >>= fun result =>
          pure (PlainState.received result.merged)) = _
        exact bind_eq_ok.mpr ⟨result, hok, rfl⟩
      · rw [hmerged]
        exact hp.merged hfamily hq (Crdt.Plain.merged_mergedRecord (p.sent id) (q.sent id)) rfl
  | server master client ihm ihc =>
      obtain ⟨hm, hc⟩ := List.forall_mem_append.mp hversions
      obtain ⟨p, hevalp, hp⟩ := ihm hm
      obtain ⟨q, hevalq, hq⟩ := ihc hc
      have hfamily : family.Nonempty := nonempty_of_versions hm
      refine ⟨(Plain.mergeServerRecord p q).merged, ?_, ?_⟩
      · rw [eval, hevalp, hevalq]
        rfl
      · exact hp.merged hfamily hq (Plain.merged_mergeServerRecord p q) rfl

theorem Comparable.deletedAlike (h : Comparable family) : DeletedAlike family := by
  intro id merges hversions
  obtain ⟨p, heval, hmerges⟩ := merges.mergesTo h id hversions
  obtain ⟨r, hr, hsummary, -⟩ := hmerges.shows
  have hstamps : ∀ v ∈ merges.versions, ∀ d, v.deletedAt = some d → 0 ≤ d := by
    intro v hv
    obtain ⟨u, -, hstamped⟩ := hversions v hv
    exact hstamped.nonneg
  have hburied : p.IsBuried ↔ DeletedTogether merges.versions := by
    rw [← hsummary.isBuried_iff hstamps, PlainState.IsBuried, hr.deletedAt, hr.newest]
    simp [RecordState.IsBuried]
  refine ⟨p, heval, ?_, ?_, ?_⟩
  · rw [mobile_isDeleted_iff_isBuried, hburied]
  · rw [isDeleted_iff_isBuried, hburied]
  · rw [isSyncDeleted_iff_isBuried hmerges.finite, hburied]

end Comparable

/-! ### Families that are not -/

section Incomparable

variable {family : Set FieldVersion} {a b : FieldVersion} {key : String}

/-- A version with a tombstone. -/
def FieldVersion.stamp (u : FieldVersion) (deletedAt : Option Numeric) : RecordState Numeric :=
  { u.record with deletedAt := deletedAt }

theorem FieldVersion.stamped_stamp (u : FieldVersion) (deletedAt : Option Numeric)
    (h : ∀ d, deletedAt = some d → 0 ≤ d) : u.Stamped (u.stamp deletedAt) :=
  ⟨rfl, rfl, h⟩

theorem foldl_max_ne_top {l : List Numeric} (hl : ∀ x ∈ l, x ≠ ⊤) {a : Numeric} (ha : a ≠ ⊤) :
    l.foldl max a ≠ ⊤ := by
  induction l generalizing a with
  | nil => exact ha
  | cons x rest ih =>
      obtain ⟨hx, hrest⟩ := List.forall_mem_cons.mp hl
      refine ih hrest (lt_top_iff_ne_top.mp (max_lt ?_ ?_))
      · exact lt_top_iff_ne_top.mpr ha
      · exact lt_top_iff_ne_top.mpr hx

/-- The finite clocks of a map have a finite bound. -/
theorem exists_finite_bound (clocks : JsObject Numeric) : ∃ d : Numeric, 0 ≤ d ∧ d ≠ ⊤ ∧
    ∀ key x, clocks.lookup key = some x → isFinite x = true → x ≤ d := by
  have hle := Dict.foldl_max_le_iff (clocks.values.filter isFinite) 0
    ((clocks.values.filter isFinite).foldl max 0)
  obtain ⟨h0, hvalues⟩ := hle.mp le_rfl
  refine ⟨_, h0, foldl_max_ne_top (fun x hx => ?_) ?_, fun key x hx hfinite => ?_⟩
  · have hfinite := (List.mem_filter.mp hx).2
    exact of_decide_eq_true (Bool.and_eq_true_iff.mp hfinite).2
  · exact of_decide_eq_true (Bool.and_eq_true_iff.mp isFinite_zero).2
  · exact hvalues x (List.mem_filter.mpr ⟨Dict.mem_values_iff.mpr ⟨key, hx⟩, hfinite⟩)

/-- A clock that is not finite keeps the record for the two `isDeleted` functions, and not
for the web reads. -/
theorem DeletedAlike.finite (h : DeletedAlike family) (ha : a ∈ family) {c : Numeric}
    (hc : a.record.clocks.lookup key = some c) : isFinite c = true := by
  by_contra hinfinite
  have htop : c = ⊤ := by
    have hbot : c ≠ ⊥ := by
      rintro rfl
      exact absurd (a.nonneg key ⊥ hc) (by simp)
    by_contra hne
    exact hinfinite (by simp [isFinite, hbot, hne])
  -- the tombstone is a bound of the finite clocks
  obtain ⟨d, hd0, hdtop, hd⟩ := exists_finite_bound a.record.clocks
  have hstamped := a.stamped_stamp (some d) (by simpa using hd0)
  obtain ⟨r, heval, hmobile, -, hweb⟩ := h [] (.version (a.stamp (some d)))
    (by simpa [Merges.versions] using ⟨a, ha, hstamped⟩)
  obtain rfl := Except.ok.inj heval
  have hburied : (a.stamp (some d)).plain.IsBuried := by
    rw [← mobile_isDeleted_iff_isBuried _ [], hmobile, ← hweb, isSyncDeleted_iff]
    refine ⟨d, rfl, hd0, fun key' x hx hfinite => hd key' x ?_ hfinite⟩
    obtain ⟨y, hy, hvalue⟩ := Option.map_eq_some_iff.mp
      ((PlainObject.lookup_ofDict a.record.clocks key').symm.trans hx)
    rwa [← Property.value.inj hvalue]
  obtain ⟨e, he, m, hm, hle⟩ := hburied
  obtain rfl : d = e := Option.some.inj he
  obtain rfl := Option.some.inj ((PlainObject.mathMax_ofDict a.record.clocks).symm.trans hm)
  have hmax := (Dict.mathMax_le_iff.mp hle).2 key c hc
  rw [htop] at hmax
  exact hdtop (top_le_iff.mp hmax)

/-- Merging a version without a tombstone and one with: what the three predicates see. -/
theorem DeletedAlike.device (h : DeletedAlike family) (ha : a ∈ family) (hb : b ∈ family)
    {d : Numeric} (hd : 0 ≤ d) :
    (PlainState.received (Crdt.Plain.mergedRecord ((a.stamp none).plain.sent [])
        ((b.stamp (some d)).plain.sent []))).IsBuried ↔
      (∀ key c, a.record.clocks.lookup key = some c → c ≤ d) ∧
        ∀ key c, b.record.clocks.lookup key = some c → c ≤ d := by
  have hstamped := a.stamped_stamp none (by simp)
  have hstamped' := b.stamped_stamp (some d) (by simpa using hd)
  obtain ⟨r, heval, hmobile, -⟩ := h []
    (.device (.version (a.stamp none)) (.version (b.stamp (some d))))
    (List.forall_mem_cons.mpr ⟨⟨a, ha, hstamped⟩,
      List.forall_mem_singleton.mpr ⟨b, hb, hstamped'⟩⟩)
  obtain ⟨result, hok, hmerged, -⟩ := Crdt.Plain.mergeRecord_ok
    (show ((a.stamp none).plain.sent []).id = ((b.stamp (some d)).plain.sent []).id from rfl)
  have heval' : Merges.eval [] (.device (.version (a.stamp none)) (.version (b.stamp (some d)))) =
      .ok (.received result.merged) := by
    show (Crdt.Plain.mergeRecord ((a.stamp none).plain.sent [])
      ((b.stamp (some d)).plain.sent []) >>= fun result =>
        pure (PlainState.received result.merged)) = _
    exact bind_eq_ok.mpr ⟨result, hok, rfl⟩
  have hr : PlainState.received result.merged = r := Except.ok.inj (heval'.symm.trans heval)
  rw [← hmerged, hr, ← mobile_isDeleted_iff_isBuried r [], hmobile]
  simp [DeletedTogether, Merges.versions, FieldVersion.stamp]

/-- A name that one version has alone is `NaN` after the last merge. -/
theorem DeletedAlike.shared (h : DeletedAlike family) (ha : a ∈ family) (hb : b ∈ family)
    (hin : key ∈ objectPrototype) (hkey : key ≠ "__proto__") (hmem : key ∈ a.record.fields) :
    key ∈ b.record.fields := by
  by_contra hnot
  have hac := (a.complete key).mpr hmem
  have hbc := mt (b.complete key).mp hnot
  obtain ⟨d, hda, hdb⟩ : ∃ d, a.record.clocks.mathMax ≤ d ∧ b.record.clocks.mathMax ≤ d :=
    ⟨_, le_max_left _ _, le_max_right _ _⟩
  obtain ⟨h0, hla⟩ := Dict.mathMax_le_iff.mp hda
  obtain ⟨-, hlb⟩ := Dict.mathMax_le_iff.mp hdb
  obtain ⟨e, -, m, hm, -⟩ := (h.device ha hb h0).mpr ⟨hla, hlb⟩
  have hmerged : PlainFields.Merged (.ofDicts a.record.fields a.record.clocks)
      (.ofDicts b.record.fields b.record.clocks)
      (Crdt.Plain.mergedRecord ((a.stamp none).plain.sent [])
        ((b.stamp (some d)).plain.sent [])).toPlainFields :=
    Crdt.Plain.merged_mergedRecord ((a.stamp none).plain.sent []) ((b.stamp (some d)).plain.sent [])
  have hlookup := hmerged.lookup_left hkey hin hmem hac hbc
  cases (PlainObject.mathMax_of_inherited hlookup).symm.trans hm

/-- A clock under `__proto__` is dropped by the first merge. -/
theorem DeletedAlike.proto (h : DeletedAlike family) (ha : a ∈ family) :
    readClock a.record.clocks "__proto__" ≤ Dict.mathMax (a.record.clocks.erase "__proto__") := by
  have h0 : 0 ≤ Dict.mathMax (a.record.clocks.erase "__proto__") := Dict.zero_le_mathMax _
  have hburied := (h.device ha ha h0).mp ?_
  · rw [readClock]
    cases hlookup : a.record.clocks.lookup "__proto__" with
    | none => exact h0
    | some c => exact hburied.1 "__proto__" c hlookup
  · refine ⟨_, ?_, PlainObject.mathMax_le_iff.mpr ⟨h0, fun key p hp => ?_⟩⟩
    · show pickTomb none (some _) = _
      unfold pickTomb
      split
      · rfl
      · exact if_neg h0.not_gt
    · have hmerged := Crdt.Plain.merged_mergedRecord ((a.stamp none).plain.sent [])
        ((a.stamp (some (Dict.mathMax (a.record.clocks.erase "__proto__")))).plain.sent [])
      have hown := (hmerged.clocks key).symm.trans hp
      split at hown
      · rename_i hkey
        have hmem : key ∈ a.record.fields :=
          (PlainFields.mem_keys_ofDicts.mp hkey.1).elim id id
        obtain ⟨c, hc⟩ := Option.isSome_iff_exists.mp
          (AList.lookup_isSome.mpr ((a.complete key).mpr hmem))
        have hclock : (PlainFields.ofDicts a.record.fields a.record.clocks).clock key = .value c :=
          PlainObject.getD_ofDict_of_lookup hc 0
        refine ⟨c, ?_, ?_⟩
        · rw [← Option.some.inj hown]
          exact (PlainFields.mergedClock_of_eq rfl).trans hclock
        · refine (Dict.mathMax_le_iff.mp le_rfl).2 key c ?_
          rw [AList.lookup_erase_ne hkey.2]
          exact hc
      · cases hown

theorem DeletedAlike.comparable (h : DeletedAlike family) : Comparable family where
  same _ ha _ hb _ hin hkey := ⟨h.shared ha hb hin hkey, h.shared hb ha hin hkey⟩
  proto _ ha := h.proto ha
  finite _ ha _ _ hc := h.finite ha hc

end Incomparable

/-- **Where a record is deleted everywhere or nowhere**: however versions of a family are
merged and stamped, the three predicates agree on the result, and hold exactly where the
greatest tombstone is at least the greatest field clock, if and only if the family is
comparable. -/
theorem deletedAlike_iff (family : Set FieldVersion) :
    DeletedAlike family ↔ Comparable family :=
  ⟨DeletedAlike.comparable, Comparable.deletedAlike⟩

/-! ### A title that is never old, and a field named `constructor` -/

namespace Undecided

/-- A version of one field. -/
def version (field : String) (clock : Numeric) (deletedAt : Option Numeric) :
    RecordState Numeric where
  fields := Dict.ofList [(field, some (.str (js "Ship")))]
  clocks := Dict.ofList [(field, clock)]
  nodeId := none
  deletedAt := deletedAt

/-- A device merges a deletion into a version with one field more. -/
def merges : Merges Numeric :=
  .device (.version (version "constructor" 3 none)) (.version (version "title" 4 (some 5)))

end Undecided

/-- With the clock `Infinity` a version is deleted for the web reads alone; and with a field
named `constructor` a deletion after every field write goes unseen on the phone. -/
theorem undecided_deletions :
    ((Undecided.version "title" ⊤ (some 5)).plain.row.isSyncDeleted isFinite = true ∧
      Plain.isDeleted (Undecided.version "title" ⊤ (some 5)).plain = false) ∧
    DeletedTogether Undecided.merges.versions ∧
      (Undecided.merges.eval []).map (fun r => Crdt.Plain.isDeleted (r.sent [])) = .ok false := by
  refine ⟨⟨by decide, by decide⟩, ⟨Undecided.version "title" 4 (some 5), ?_, 5, rfl, ?_, ?_⟩, ?_⟩
  · simp [Undecided.merges, Merges.versions]
  · simp [Undecided.merges, Merges.versions, Undecided.version]
  · have h3 : (3 : Numeric) ≤ 5 := by decide
    have h4 : (4 : Numeric) ≤ 5 := by decide
    simp [Undecided.merges, Merges.versions, Undecided.version, Dict.ofList,
      Dict.lookup_singleton_eq, h3, h4]
  · decide

end FlowLogix.Server
