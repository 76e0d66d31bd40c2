/-
  Crdt/Semilattice.lean --- where the mobile merge is a join semilattice on content.

  The three registers of a record are merged by three rules.  Fields and
  tombstone are points of `Registers`; the writer annotation is the register
  whose clock is the newest field clock of the whole record.  `content` is the
  record in the product of the two semilattices, and `content_mergedRecord` says
  the merge is the join there.  Associativity of the annotation is where the clock
  maps matter: the newest field clock of a merged record is the newest of both
  sides (`maxFieldClock_mergedRecord`), which needs every clock to belong to a
  field.

  The code merges plain objects.  A field that is named like a member of
  `Object.prototype` and that one version lacks is taken from whichever version
  is merged last, so the merge is a join exactly on the families of versions that
  share such names (`isSemilatticeOn_iff`).
-/
import FlowLogix.Crdt.PlainMerge
import FlowLogix.Foundation.Bracketing

set_option autoImplicit false

namespace FlowLogix.Crdt

open FlowLogix.Foundation

variable {K : Type} [LinearOrder K] [Zero K]

/-! ## The newest field clock -/

theorem readClock_mergedRecord {l r : VersionedRecord K} (hl : l.Complete)
    (hr : r.Complete) (key : String) :
    readClock (mergedRecord l r).clocks key =
      max (readClock l.clocks key) (readClock r.clocks key) := by
  have hstamp := congrArg (fun s => (ofLex s).1) (stamp_mergedRecord hl.timed hr.timed key)
  rw [clock_sup] at hstamp
  exact hstamp

/-- The newest field clock of a merged record is the newest of both sides. -/
theorem maxFieldClock_mergedRecord {l r : VersionedRecord K} (hl : l.Complete)
    (hr : r.Complete) :
    maxFieldClock (mergedRecord l r) = max (maxFieldClock l) (maxFieldClock r) := by
  refine eq_of_forall_ge_iff fun x => ?_
  simp only [maxFieldClock, max_le_iff, mathMax_le_iff, readClock_mergedRecord hl hr]
  constructor
  · rintro ⟨h0, h⟩
    exact ⟨⟨h0, fun key => (h key).1⟩, h0, fun key => (h key).2⟩
  · rintro ⟨⟨h0, hl'⟩, -, hr'⟩
    exact ⟨h0, fun key => ⟨hl' key, hr' key⟩⟩

/-! ## Content -/

/-- The register of the writer annotation. -/
def VersionedRecord.writer (r : VersionedRecord K) : Stamp K :=
  toLex (maxFieldClock r, r.nodeId)

/-- The newest writer of a merge is the later writer register. -/
theorem newestNode_eq (l r : VersionedRecord K) :
    (toLex (max (maxFieldClock l) (maxFieldClock r), newestNode l r) : Stamp K) =
      l.writer ⊔ r.writer := by
  unfold newestNode
  by_cases hc : maxFieldClock l = maxFieldClock r
  · by_cases hn : r.nodeId < l.nodeId
    · have hle : r.writer ≤ l.writer :=
        Prod.Lex.toLex_le_toLex.mpr (Or.inr ⟨hc.symm, hn.le⟩)
      rw [sup_eq_left.mpr hle]
      simp [hc, hn, VersionedRecord.writer]
    · have hle : l.writer ≤ r.writer :=
        Prod.Lex.toLex_le_toLex.mpr (Or.inr ⟨hc, not_lt.mp hn⟩)
      rw [sup_eq_right.mpr hle]
      simp [hc, hn, VersionedRecord.writer]
  · by_cases hgt : maxFieldClock r < maxFieldClock l
    · have hle : r.writer ≤ l.writer := Prod.Lex.toLex_le_toLex.mpr (Or.inl hgt)
      rw [sup_eq_left.mpr hle]
      simp [hc, hgt, hgt.le, VersionedRecord.writer]
    · have hlt : maxFieldClock l < maxFieldClock r := lt_of_le_of_ne (not_lt.mp hgt) hc
      have hle : l.writer ≤ r.writer := Prod.Lex.toLex_le_toLex.mpr (Or.inl hlt)
      rw [sup_eq_right.mpr hle]
      simp [hc, hgt, hlt.le, VersionedRecord.writer]

/-- A record in the product of the register semilattices. -/
def VersionedRecord.content (r : VersionedRecord K) : Registers K × Stamp K :=
  (r.registers, r.writer)

/-- The merged record is the join of the contents. -/
theorem content_mergedRecord {l r : VersionedRecord K} (hl : l.Complete) (hr : r.Complete) :
    (mergedRecord l r).content = l.content ⊔ r.content := by
  refine Prod.ext (registers_mergedRecord hl.timed hr.timed) ?_
  show toLex (maxFieldClock (mergedRecord l r), newestNode l r) = _
  rw [maxFieldClock_mergedRecord hl hr]
  exact newestNode_eq l r

/-! ## Versions of one record -/

/-- A version of the record `id`: its clock map has an entry for exactly the
keys of its field map. -/
structure Version (K : Type) (id : JsString) where
  record : VersionedRecord K
  id_eq : record.id = id
  complete : record.Complete

/-- What two merge results are compared by: `field -> (clock, canonical JSON)`
with an absent field read as `(0, null)`, the tombstone and the writer. -/
structure View (K : Type) where
  field : String → Property K × JsString
  deletedAt : Option K
  nodeId : JsString

/-- The view of a record. -/
def PlainRecord.view (r : PlainRecord K) : View K where
  field := r.register
  deletedAt := r.deletedAt
  nodeId := r.nodeId

/-- Two records with the same content look the same to a reader of their plain
objects, if they do so under `__proto__`. -/
theorem view_eq_of_content_eq {p q : PlainRecord K} {r s : VersionedRecord K}
    (hp : p.ShowsRecord r) (hq : q.ShowsRecord s)
    (hproto : p.register "__proto__" = q.register "__proto__") (h : r.content = s.content) :
    p.view = q.view := by
  obtain ⟨hregisters, hwriter⟩ := Prod.mk.inj h
  obtain ⟨hfields, htomb⟩ := Prod.mk.inj hregisters
  have hfield : ∀ key, p.register key = q.register key := by
    intro key
    by_cases hkey : key = "__proto__"
    · rw [hkey, hproto]
    · rw [hp.fields.register_eq hkey, hq.fields.register_eq hkey]
      exact congrArg ofStamp (congrFun hfields key)
  have hdeleted : r.deletedAt = s.deletedAt := tombOf_injective htomb
  have hnode : r.nodeId = s.nodeId := congrArg Prod.snd (toLex.injective hwriter)
  simp only [PlainRecord.view, View.mk.injEq]
  exact ⟨funext hfield, by rw [hp.deletedAt, hq.deletedAt, hdeleted],
    by rw [hp.nodeId, hq.nodeId, hnode]⟩

variable {id : JsString}

/-- `mergeRecord(a, b).merged`. -/
def mergedOf (a b : PlainRecord K) : Except MergeError (PlainRecord K) :=
  (Plain.mergeRecord a b).map Plain.MergeResult.merged

/-- A bracketed fold of `mergeRecord` over versions, as it looks to a reader. -/
def viewOf (t : Bracketing (Version K id)) : Except MergeError (View K) :=
  (t.fold mergedOf fun v => v.record.plain).map PlainRecord.view

/-- The merge is a join semilattice on the content of a family of versions: every
bracketed fold depends on the set of versions alone, and so it is idempotent,
commutative and associative. -/
structure IsSemilatticeOn (family : Set (Version K id)) : Prop where
  idempotent : ∀ a ∈ family, viewOf (.node (.leaf a) (.leaf a)) = .ok a.record.plain.view
  commutative : ∀ a ∈ family, ∀ b ∈ family,
    viewOf (.node (.leaf a) (.leaf b)) = viewOf (.node (.leaf b) (.leaf a))
  associative : ∀ a ∈ family, ∀ b ∈ family, ∀ c ∈ family,
    viewOf (.node (.node (.leaf a) (.leaf b)) (.leaf c)) =
      viewOf (.node (.leaf a) (.node (.leaf b) (.leaf c)))
  folds : ∀ t u : Bracketing (Version K id), (∀ v ∈ t.leaves, v ∈ family) →
    (∀ v, v ∈ t.leaves ↔ v ∈ u.leaves) → ∃ view, viewOf t = .ok view ∧ viewOf u = .ok view

/-- The versions of a family have the same fields among those named like a member
of `Object.prototype`, and nothing to read under `__proto__`. -/
structure SharesNames (family : Set (Version K id)) : Prop where
  same : ∀ a ∈ family, ∀ b ∈ family, SameNames a.record.fields b.record.fields
  proto : ∀ a ∈ family, a.record.stamp "__proto__" = zeroStamp

/-! ## Where names are shared -/

/-- What a fold over a family comes to: a record that shows one with the content
`s` and the family's inherited names. -/
structure FoldsTo (family : Set (Version K id)) (p : PlainRecord K)
    (s : Registers K × Stamp K) : Prop where
  id : p.id = id
  proto : p.register "__proto__" = ofStamp zeroStamp
  shows : ∃ r, p.ShowsRecord r ∧ r.Complete ∧ r.content = s ∧
    ∀ v ∈ family, SameNames r.fields v.record.fields

theorem foldsTo_plain {family : Set (Version K id)} (h : SharesNames family) {a : Version K id}
    (ha : a ∈ family) : FoldsTo family a.record.plain a.record.withoutProto.content where
  id := a.id_eq
  proto := PlainFields.register_ofDicts.trans (congrArg ofStamp (h.proto a ha))
  shows := by
    refine ⟨a.record.withoutProto, shows_withoutProto a.complete (h.proto a ha),
      a.complete.withoutProto, rfl, fun v hv key hin hkey => ?_⟩
    rw [← h.same a ha v hv key hin hkey]
    show key ∈ a.record.fields.erase "__proto__" ↔ _
    rw [AList.mem_erase]
    exact and_iff_right hkey

theorem FoldsTo.merged {family : Set (Version K id)} (hfamily : family.Nonempty)
    {p q : PlainRecord K} {s t : Registers K × Stamp K} (hp : FoldsTo family p s)
    (hq : FoldsTo family q t) : ∃ m, mergedOf p q = .ok m ∧ FoldsTo family m (s ⊔ t) := by
  obtain ⟨v, hv⟩ := hfamily
  obtain ⟨l, hl, hlc, rfl, hlnames⟩ := hp.shows
  obtain ⟨r, hr, hrc, rfl, hrnames⟩ := hq.shows
  obtain ⟨result, hok, hmerged, -⟩ := Plain.mergeRecord_ok (hp.id.trans hq.id.symm)
  have hnames : SameNames l.fields r.fields := fun key hin hkey =>
    (hlnames v hv key hin hkey).trans (hrnames v hv key hin hkey).symm
  refine ⟨Plain.mergedRecord p q, ?_, hp.id, ?_, mergedRecord l r, hl.mergedRecord hr hnames,
    mergedRecord_complete l r, content_mergedRecord hlc hrc, fun w hw => ?_⟩
  · rw [mergedOf, hok, ← hmerged]
    rfl
  · exact (Plain.merged_mergedRecord p q).register_proto
  · exact (hlnames w hw).merged (hrnames w hw) (mergedDicts_mergedRecord l r)

/-- Folds over the same versions look the same. -/
theorem exists_viewOf {family : Set (Version K id)} (h : SharesNames family)
    {t u : Bracketing (Version K id)} (ht : ∀ v ∈ t.leaves, v ∈ family)
    (hmem : ∀ v, v ∈ t.leaves ↔ v ∈ u.leaves) :
    ∃ view, viewOf t = .ok view ∧ viewOf u = .ok view := by
  have hfold : ∀ w : Bracketing (Version K id), (∀ v ∈ w.leaves, v ∈ family) →
      ∃ p s, w.fold mergedOf (fun v => v.record.plain) = .ok p ∧ FoldsTo family p s ∧
        IsLUB ((fun v : Version K id => v.record.withoutProto.content) '' {v | v ∈ w.leaves})
          s := by
    intro w hw
    refine w.exists_isLUB_fold (fun a ha => foldsTo_plain h (hw a ha)) fun p q s s' hp hq => ?_
    obtain ⟨v, hv⟩ : ∃ v, v ∈ w.leaves := w.exists_mem_leaves
    exact hp.merged ⟨v, hw v hv⟩ hq
  obtain ⟨p, s, hp, hfolds, hlub⟩ := hfold t ht
  obtain ⟨q, s', hq, hfolds', hlub'⟩ := hfold u fun v hv => ht v ((hmem v).mpr hv)
  have hleaves : {v | v ∈ t.leaves} = {v | v ∈ u.leaves} := Set.ext hmem
  rw [hleaves] at hlub
  obtain rfl := hlub.unique hlub'
  obtain ⟨r, hr, -, hcontent, -⟩ := hfolds.shows
  obtain ⟨r', hr', -, hcontent', -⟩ := hfolds'.shows
  have hview := view_eq_of_content_eq hr hr' (hfolds.proto.trans hfolds'.proto.symm)
    (hcontent.trans hcontent'.symm)
  exact ⟨p.view, by rw [viewOf, hp]; rfl, by rw [viewOf, hq, hview]; rfl⟩

theorem SharesNames.isSemilatticeOn {family : Set (Version K id)} (h : SharesNames family) :
    IsSemilatticeOn family where
  idempotent a ha := by
    have hleaves : ∀ v ∈ (Bracketing.node (.leaf a) (.leaf a)).leaves, v ∈ family := by
      simp [Bracketing.leaves, ha]
    obtain ⟨view, hnode, hleaf⟩ := exists_viewOf h (u := .leaf a) hleaves
      (by simp [Bracketing.leaves])
    exact hnode.trans hleaf.symm
  commutative a ha b hb := by
    obtain ⟨view, hab, hba⟩ := exists_viewOf h (t := .node (.leaf a) (.leaf b))
      (u := .node (.leaf b) (.leaf a)) (by simp [Bracketing.leaves, ha, hb])
      (by simp [Bracketing.leaves, or_comm])
    exact hab.trans hba.symm
  associative a ha b hb c hc := by
    obtain ⟨view, hleft, hright⟩ := exists_viewOf h
      (t := .node (.node (.leaf a) (.leaf b)) (.leaf c))
      (u := .node (.leaf a) (.node (.leaf b) (.leaf c))) (by simp [Bracketing.leaves, ha, hb, hc])
      (by simp [Bracketing.leaves])
    exact hleft.trans hright.symm
  folds t u ht hmem := exists_viewOf h ht hmem

/-! ## Where they are not -/

/-- The merge of two versions, as it looks. -/
theorem viewOf_node (a b : Version K id) : viewOf (.node (.leaf a) (.leaf b)) =
    .ok (Plain.mergedRecord a.record.plain b.record.plain).view := by
  obtain ⟨result, hok, hmerged, -⟩ := Plain.mergeRecord_ok
    (show a.record.plain.id = b.record.plain.id from a.id_eq.trans b.id_eq.symm)
  show ((Plain.mergeRecord a.record.plain b.record.plain).map Plain.MergeResult.merged).map
    PlainRecord.view = _
  rw [hok, ← hmerged]
  rfl

/-- A name that one version has alone is taken from whichever is merged last. -/
theorem ne_of_unshared {a b : Version K id} (key : String) (hin : key ∈ objectPrototype)
    (hkey : key ≠ "__proto__") (ha : key ∈ a.record.fields) (hb : key ∉ b.record.fields) :
    viewOf (.node (.leaf a) (.leaf b)) ≠ viewOf (.node (.leaf b) (.leaf a)) := by
  intro heq
  rw [viewOf_node, viewOf_node] at heq
  have hfield := congrFun (congrArg View.field (Except.ok.inj heq)) key
  have hac := (a.complete key).mpr ha
  have hbc := mt (b.complete key).mp hb
  have hleft := (Plain.merged_mergedRecord a.record.plain b.record.plain).register_left hkey hin
    ha hac hb hbc
  have hright := (Plain.merged_mergedRecord b.record.plain a.record.plain).register_right hkey hin
    hbc ha hac
  have hclock := congrArg Prod.fst (hleft.symm.trans (hfield.trans hright))
  cases hclock

theorem IsSemilatticeOn.sharesNames {family : Set (Version K id)} (h : IsSemilatticeOn family) :
    SharesNames family where
  same a ha b hb key hin hkey := by
    constructor
    · intro hmem
      by_contra hnot
      exact ne_of_unshared key hin hkey hmem hnot (h.commutative a ha b hb)
    · intro hmem
      by_contra hnot
      exact ne_of_unshared key hin hkey hmem hnot (h.commutative b hb a ha)
  proto a ha := by
    have hidem := h.idempotent a ha
    rw [viewOf_node] at hidem
    have hfield := congrFun (congrArg View.field (Except.ok.inj hidem)) "__proto__"
    have hmerged := (Plain.merged_mergedRecord a.record.plain a.record.plain).register_proto
    exact ofStamp_injective (PlainFields.register_ofDicts.symm.trans (hfield.symm.trans hmerged))

/-- **Where the mobile merge is a join semilattice on content**: exactly on the
families of versions that share their inherited names. -/
theorem isSemilatticeOn_iff (family : Set (Version K id)) :
    IsSemilatticeOn family ↔ SharesNames family :=
  ⟨IsSemilatticeOn.sharesNames, SharesNames.isSemilatticeOn⟩

/-! ### A field named `constructor` -/

namespace Constructed

def titled : Version Nat (js "c1") where
  record :=
    { id := js "c1"
      fields := Dict.ofList [("title", some (.str (js "Ship")))]
      clocks := Dict.ofList [("title", 3)]
      nodeId := js "a"
      deletedAt := none }
  id_eq := rfl
  complete := fun _ => Iff.rfl

/-- The same version with a field named `constructor`. -/
def constructed : Version Nat (js "c1") where
  record :=
    { titled.record with
      fields := Dict.ofList [("title", some (.str (js "Ship"))), ("constructor", some (.str []))]
      clocks := Dict.ofList [("title", 3), ("constructor", 5)] }
  id_eq := rfl
  complete := fun _ => Iff.rfl

end Constructed

/-- Merged in one order the field keeps its value, in the other it becomes
`Object`. -/
theorem constructed_order :
    viewOf (.node (.leaf Constructed.constructed) (.leaf Constructed.titled)) ≠
      viewOf (.node (.leaf Constructed.titled) (.leaf Constructed.constructed)) :=
  ne_of_unshared "constructor" (by decide) (by decide) (by decide) (by decide)

end FlowLogix.Crdt
