/-
  Mobile/InterruptedPull.lean --- a pull that stops half way and is repeated
  (mobile/src/sync/SyncService.ts).

  A pull stores its checkpoint after its changes, so one that stops leaves the
  checkpoint and a store that has absorbed a prefix of the changes.  A store of
  dictionaries has absorbed a change when the record dominates it and, if it is pending,
  is still ahead of it (`Absorbed`): applying the change again writes nothing, and
  applying others keeps it so.

  The code keeps plain objects.  While the records share their inherited names, the store
  shows one of dictionaries at every step (`Simulated`), and the pull can be repeated.  A
  name that one version has alone is never absorbed, and neither is `__proto__`
  (`resumable_iff`).
-/
import FlowLogix.Crdt.Semilattice
import FlowLogix.Mobile.PlainStore

set_option autoImplicit false

namespace FlowLogix.Mobile

open FlowLogix.Foundation FlowLogix.Crdt
open FlowLogix.Server (Clock Failure)

/-! ## Changes in a row -/

/-- `applyRemote` over a list of changes: the store they leave. -/
def applyChanges (store : LocalStore) (changes : List (VersionedRecord Clock)) :
    Except Failure LocalStore :=
  changes.foldlM (fun store remote => (applyRemote store remote).map Prod.fst) store

/-- `applyRemote` returns before its `put`. -/
def skipsWrite (store : LocalStore) (remote : VersionedRecord Clock) : Bool :=
  match store.getById remote.id with
  | none => false
  | some loc =>
      match mergeRecord loc.toVersionedRecord remote with
      | .error _ => false
      | .ok result =>
          !result.changed &&
            (loc.pending && localIsAhead loc.toVersionedRecord remote) == loc.pending

/-! ## Content -/

section Content

variable {l v r : VersionedRecord Clock}

/-- A merge changes nothing exactly where the local record dominates the remote one. -/
theorem changed_eq_false_iff (hl : l.Complete) (hv : v.Complete) {result : MergeResult Clock}
    (h : mergeRecord l v = .ok result) : result.changed = false ↔ v.content ≤ l.content := by
  have hid : l.id = v.id := by
    by_contra hne
    simp [mergeRecord, hne] at h
  obtain ⟨result', hok, -, hflag⟩ := mergeRecord_ok hid
  obtain rfl := Except.ok.inj (hok.symm.trans h)
  rw [hflag, Bool.or_eq_false_iff, Bool.or_eq_false_iff]
  constructor
  · rintro ⟨⟨hfields, htomb⟩, hnode⟩
    have hstamps : ∀ key, v.stamp key ≤ l.stamp key := by
      intro key
      by_cases hkey : key ∈ l.fields ∨ key ∈ v.fields
      · refine not_lt.mp fun hlt => ne_true_of_eq_false hfields ?_
        exact (mergeFields_changed_iff l v).mpr ⟨key, hkey, hlt⟩
      · obtain ⟨hlf, hvf⟩ := not_or.mp hkey
        rw [VersionedRecord.stamp, VersionedRecord.stamp,
          stampOf_of_not_mem hlf (mt (hl.timed key) hlf),
          stampOf_of_not_mem hvf (mt (hv.timed key) hvf)]
    have hmax : maxFieldClock v ≤ maxFieldClock l := by
      refine mathMax_le_iff.mpr ⟨Dict.zero_le_mathMax l.clocks, fun key => ?_⟩
      have hclock : readClock v.clocks key ≤ readClock l.clocks key :=
        Prod.Lex.monotone_fst_ofLex (hstamps key)
      exact hclock.trans ((mathMax_le_iff.mp le_rfl).2 key)
    refine ⟨⟨hstamps, ?_⟩, ?_⟩
    · have hdeletion : mergeDeletion l v = l.deletedAt := by simpa using htomb
      have hjoin := tombOf_pickTomb l.deletedAt v.deletedAt
      rw [show pickTomb l.deletedAt v.deletedAt = l.deletedAt from hdeletion] at hjoin
      exact sup_eq_left.mp hjoin.symm
    · have hwriter := newestNode_eq l v
      rw [max_eq_left hmax, show newestNode l v = l.nodeId by simpa using hnode] at hwriter
      exact sup_eq_left.mp hwriter.symm
  · intro hle
    obtain ⟨⟨hstamps, htombs⟩, hwriters⟩ := hle
    have htomb : mergeDeletion l v = l.deletedAt := by
      apply tombOf_injective
      rw [mergeDeletion, tombOf_pickTomb]
      exact sup_eq_left.mpr htombs
    have hnode : newestNode l v = l.nodeId := by
      have hwriter := newestNode_eq l v
      rw [sup_eq_left.mpr (show v.writer ≤ l.writer from hwriters)] at hwriter
      exact congrArg Prod.snd (toLex.injective hwriter)
    refine ⟨⟨?_, by simpa using htomb⟩, by simpa using hnode⟩
    rw [Bool.eq_false_iff, ne_eq, mergeFields_changed_iff]
    rintro ⟨key, -, hwins⟩
    exact absurd hwins (not_lt.mpr (hstamps key))

/-- A record that dominates one that is ahead is ahead. -/
theorem localIsAhead_mono (hkeys : ∀ key, key ∈ l.clocks → key ∈ r.clocks)
    (hle : l.registers ≤ r.registers) (h : localIsAhead l v = true) : localIsAhead r v = true := by
  obtain ⟨hstamps, htomb⟩ := hle
  rcases Bool.or_eq_true_iff.mp h with h | h
  · obtain ⟨key, hkey, hlt⟩ := List.any_eq_true.mp h
    apply Bool.or_eq_true_iff.mpr
    left
    refine List.any_eq_true.mpr ⟨key, hkeys key hkey, ?_⟩
    have hclock : readClock l.clocks key ≤ readClock r.clocks key :=
      Prod.Lex.monotone_fst_ofLex (hstamps key)
    exact decide_eq_true ((of_decide_eq_true hlt).trans_le hclock)
  · apply Bool.or_eq_true_iff.mpr
    right
    have hstamp : l.deletedAt.getD 0 ≤ r.deletedAt.getD 0 := Prod.Lex.monotone_fst_ofLex htomb
    exact decide_eq_true ((of_decide_eq_true h).trans_le hstamp)

end Content

/-! ## Absorbed changes -/

/-- Every record of the store has a clock for exactly its fields. -/
def LocalStore.Complete (store : LocalStore) : Prop :=
  ∀ id r, store.getById id = some r → r.toVersionedRecord.Complete

/-- The store holds the change: its record dominates it, and is pending only while it
is ahead of it. -/
def Absorbed (store : LocalStore) (v : VersionedRecord Clock) : Prop :=
  ∃ r, store.getById v.id = some r ∧ v.content ≤ r.content ∧
    (r.pending = true → localIsAhead r.toVersionedRecord v = true)

/-- What one change does to the record it names: it is inserted, or joined to the record
there, which stays pending while it is ahead. -/
structure Applied (store : LocalStore) (v : VersionedRecord Clock) (store' : LocalStore) :
    Prop where
  other : ∀ id, id ≠ v.id → store'.getById id = store.getById id
  complete : store'.Complete
  absorbs : Absorbed store' v
  grows : ∀ l, store.getById v.id = some l → ∃ r, store'.getById v.id = some r ∧
    l.content ≤ r.content ∧ (∀ key, key ∈ l.clocks → key ∈ r.clocks) ∧
      (r.pending = true → l.pending = true)

section Applying

variable {store store' : LocalStore} {u v : VersionedRecord Clock}

theorem LocalStore.Complete.put (h : store.Complete) {r : LocalRecord}
    (hr : r.toVersionedRecord.Complete) : (store.put r).Complete := by
  intro id r' hr'
  rw [LocalStore.getById_put] at hr'
  split at hr'
  · exact Option.some.inj hr' ▸ hr
  · exact h id r' hr'

/-- A change that is absorbed is not written again. -/
theorem Absorbed.skipsWrite (h : Absorbed store v) (hstore : store.Complete) (hv : v.Complete) :
    skipsWrite store v = true := by
  obtain ⟨r, hr, hle, hahead⟩ := h
  have hrecord := hstore v.id r hr
  obtain ⟨result, hok, -⟩ := mergeRecord_ok (show r.toVersionedRecord.id = v.id from
    LocalStore.id_of_getById hr)
  have hchanged := (changed_eq_false_iff hrecord hv hok).mpr hle
  simp only [Mobile.skipsWrite, hr, hok, hchanged, Bool.not_false, Bool.true_and, beq_iff_eq]
  cases hpending : r.pending with
  | false => rfl
  | true => rw [hahead hpending, Bool.and_self]

/-- A record written over one that it dominates. -/
theorem applied_put {l r : LocalRecord} (hstore : store.Complete) (hl : store.getById v.id = some l)
    (hid : r.id = v.id) (hr : r.toVersionedRecord.Complete) (hgrows : l.content ≤ r.content)
    (hle : v.content ≤ r.content) (hkeys : ∀ key, key ∈ l.clocks → key ∈ r.clocks)
    (hpending : r.pending = true →
      l.pending = true ∧ localIsAhead r.toVersionedRecord v = true) :
    Applied store v (store.put r) where
  other id hne := by rw [LocalStore.getById_put, if_neg (fun h => hne (h.trans hid))]
  complete := hstore.put hr
  absorbs := by
    refine ⟨r, ?_, hle, fun htrue => (hpending htrue).2⟩
    rw [LocalStore.getById_put, if_pos hid.symm]
  grows := by
    intro l' hl'
    obtain rfl := Option.some.inj (hl.symm.trans hl')
    refine ⟨r, ?_, hgrows, hkeys, fun htrue => (hpending htrue).1⟩
    rw [LocalStore.getById_put, if_pos hid.symm]

/-- One change.  A merge that is not written had nothing to write. -/
theorem applied_of_applyRemote (hstore : store.Complete) (hv : v.Complete) {changed : Bool}
    (h : applyRemote store v = .ok (store', changed)) : Applied store v store' := by
  unfold applyRemote at h
  split at h
  · rename_i hnone
    obtain ⟨rfl, -⟩ := Prod.mk.inj (Except.ok.inj h)
    exact {
      other := fun id hid => by rw [LocalStore.getById_put, if_neg hid]
      complete := hstore.put hv
      absorbs := ⟨{ v with pending := false }, by rw [LocalStore.getById_put, if_pos rfl], le_rfl,
        fun hpending => by cases hpending⟩
      grows := fun l hl => absurd (hnone.symm.trans hl) nofun }
  · rename_i l hl
    have hrecord := hstore v.id l hl
    have hid : l.toVersionedRecord.id = v.id := LocalStore.id_of_getById hl
    obtain ⟨result, hok, hmerged, -⟩ := mergeRecord_ok hid
    rw [hok] at h
    change (if _ then _ else _) = _ at h
    split at h
    · -- nothing to write
      rename_i hskip
      obtain ⟨rfl, -⟩ := Prod.mk.inj (Except.ok.inj h)
      obtain ⟨hchanged, hpending⟩ := Bool.and_eq_true_iff.mp hskip
      have hle := (changed_eq_false_iff hrecord hv hok).mp (by simpa using hchanged)
      have hahead := beq_iff_eq.mp hpending
      refine ⟨fun _ _ => rfl, hstore, ⟨l, hl, hle, fun htrue => ?_⟩,
        fun l' hl' => ⟨l', hl', le_rfl, fun _ => id, id⟩⟩
      rw [htrue, Bool.true_and] at hahead
      exact hahead
    · obtain ⟨rfl, -⟩ := Prod.mk.inj (Except.ok.inj h)
      have hcontent := content_mergedRecord hrecord hv
      have hkeys : ∀ key, key ∈ l.clocks → key ∈ (mergedRecord l.toVersionedRecord v).clocks :=
        fun key hkey => (mem_mergedRecord_clocks _ v key).mpr (Or.inl ((hrecord key).mp hkey))
      have hle : l.content ≤ (mergedRecord l.toVersionedRecord v).content :=
        le_of_le_of_eq le_sup_left hcontent.symm
      rw [hmerged]
      refine applied_put (r := ⟨mergedRecord l.toVersionedRecord v, _⟩) hstore hl hid
        (mergedRecord_complete _ v) hle (le_of_le_of_eq le_sup_right hcontent.symm) hkeys ?_
      intro htrue
      obtain ⟨hpending, hahead⟩ := Bool.and_eq_true_iff.mp htrue
      exact ⟨hpending, localIsAhead_mono hkeys hle.1 hahead⟩

/-- A change that is absorbed stays so. -/
theorem Absorbed.applied (h : Absorbed store u) (happlied : Applied store v store') :
    Absorbed store' u := by
  obtain ⟨l, hl, hle, hahead⟩ := h
  by_cases hid : u.id = v.id
  · obtain ⟨r, hr, hgrows, hkeys, hpending⟩ := happlied.grows l (hid ▸ hl)
    refine ⟨r, hid.symm ▸ hr, hle.trans hgrows, fun htrue => ?_⟩
    exact localIsAhead_mono hkeys hgrows.1 (hahead (hpending htrue))
  · exact ⟨l, by rw [happlied.other u.id hid, hl], hle, hahead⟩

end Applying

/-! ## A list of changes -/

section Changes

variable {store store' : LocalStore} {changes : List (VersionedRecord Clock)}

/-- One turn of the loop. -/
theorem applied_of_turn {v : VersionedRecord Clock} (hstore : store.Complete) (hv : v.Complete)
    (h : (applyRemote store v).map Prod.fst = .ok store') : Applied store v store' := by
  obtain ⟨after, changed, hok, -⟩ := applyRemote_ok store v
  rw [hok] at h
  obtain rfl : after = store' := Except.ok.inj h
  exact applied_of_applyRemote hstore hv hok

/-- The changes of a list are absorbed when the list is through.  The induction is on
the changes that are done. -/
theorem absorbed_applyChanges (hstore : store.Complete) (hchanges : ∀ v ∈ changes, v.Complete)
    (h : applyChanges store changes = .ok store') : ∀ v ∈ changes, Absorbed store' v := by
  refine (foldlM_reached (fun done mid => mid.Complete ∧ ∀ v ∈ done, Absorbed mid v) ?_
    ⟨hstore, nofun⟩ h).2
  rintro pre v post mid mid' rfl ⟨hmid, habsorbed⟩ hturn
  have happlied := applied_of_turn hmid (hchanges v (by simp)) hturn
  refine ⟨happlied.complete, fun u hu => ?_⟩
  rcases List.mem_append.mp hu with hu | hu
  · exact (habsorbed u hu).applied happlied
  · obtain rfl := List.mem_singleton.mp hu
    exact happlied.absorbs

end Changes

/-! ## The pull on plain objects -/

/-- `applyRemote` over a list of changes: the store they leave. -/
def Plain.applyChanges (store : PlainStore) (changes : List (PlainRecord Clock)) :
    Except Failure PlainStore :=
  changes.foldlM (fun store remote => (Plain.applyRemote store remote).map Prod.fst) store

/-- Where `pullAndMerge` is. -/
inductive PullPoint where
  /-- remote changes still to be applied -/
  | applying (rest : List (PlainRecord Clock))
  /-- `applyRemote` awaits its `getById` -/
  | merging (remote : PlainRecord Clock) (read : Option PlainLocalRecord)
      (rest : List (PlainRecord Clock))
  /-- the checkpoint is stored -/
  | done

/-- A device in the middle of a pull. -/
structure Pull where
  store : PlainStore
  checkpoint : Nat
  point : PullPoint

/-- One step of a pull whose response carries the checkpoint `next`. -/
def Pull.step (next : Nat) (pull : Pull) : Option Pull :=
  match pull.point with
  | .applying (remote :: rest) =>
      some { pull with point := .merging remote (pull.store.getById remote.id) rest }
  | .merging remote read rest =>
      (Plain.writeRemote pull.store remote read).toOption.map fun applied =>
        { pull with store := applied.1, point := .applying rest }
  | .applying [] => some { pull with checkpoint := next, point := .done }
  | .done => none

/-- The states a pull goes through. -/
def Pull.Reaches (next : Nat) : Pull → Pull → Prop :=
  Relation.ReflTransGen fun pull pull' => pull.step next = some pull'

/-- A well-formed version: it has a clock for exactly its fields. -/
abbrev WellFormed : Type := { r : VersionedRecord Clock // r.Complete }

/-- A list of versions as it is received. -/
def received (changes : List WellFormed) : List (PlainRecord Clock) :=
  changes.map fun v => v.val.plain

/-- Every record of the store is a version of the family, pending or not. -/
def StoredFrom (family : Set WellFormed) (store : LocalStore) : Prop :=
  ∀ id r, store.getById id = some r → ∃ v ∈ family, v.val = r.toVersionedRecord

/-- Wherever a pull of versions of the family into a store of such versions stops before it
stores its checkpoint, the checkpoint is the old one, all changes applied to the store it
has left come to the store of one uninterrupted pull, and after that they write nothing. -/
def Resumable (family : Set WellFormed) : Prop :=
  ∀ (store : LocalStore) (changes : List WellFormed) (checkpoint next : Nat) (pull : Pull),
    StoredFrom family store → (∀ v ∈ changes, v ∈ family) →
    Pull.Reaches next ⟨store.plain, checkpoint, .applying (received changes)⟩ pull →
    pull.point ≠ .done →
    pull.checkpoint = checkpoint ∧
      ∃ after, Plain.applyChanges store.plain (received changes) = .ok after ∧
        Plain.applyChanges pull.store (received changes) = .ok after ∧
        Plain.applyChanges after (received changes) = .ok after ∧
        ∀ v ∈ changes, Plain.skipsWrite after v.val.plain = true

/-- Versions of one record have the same fields among those named like a member of
`Object.prototype`, and no version has a field named `__proto__`. -/
structure NamesShared (family : Set WellFormed) : Prop where
  same : ∀ a ∈ family, ∀ b ∈ family, a.val.id = b.val.id → SameNames a.val.fields b.val.fields
  proto : ∀ a ∈ family, "__proto__" ∉ a.val.fields

namespace Plain

variable {store mid : PlainStore} {changes : List (PlainRecord Clock)}

theorem applyChanges_cons {remote : PlainRecord Clock} {changed : Bool}
    (h : applyRemote store remote = .ok (mid, changed)) :
    applyChanges store (remote :: changes) = applyChanges mid changes := by
  rw [applyChanges, List.foldlM_cons, h]
  rfl

theorem applyChanges_append (store : PlainStore) (pre post : List (PlainRecord Clock)) :
    applyChanges store (pre ++ post) = applyChanges store pre >>= (applyChanges · post) :=
  List.foldlM_append ..

/-- Changes that write nothing leave the store as it is. -/
theorem applyChanges_of_skips (h : ∀ remote ∈ changes, skipsWrite store remote = true) :
    applyChanges store changes = .ok store := by
  induction changes with
  | nil => rfl
  | cons remote rest ih =>
      obtain ⟨hfirst, hrest⟩ := List.forall_mem_cons.mp h
      rw [applyChanges_cons (applyRemote_of_skipsWrite hfirst), ih hrest]

/-- Starting over after a part of the changes comes to the same store, if the part is then
skipped. -/
theorem applyChanges_resumed {pre post : List (PlainRecord Clock)}
    (h : applyChanges store pre = .ok mid) (hskips : ∀ remote ∈ pre, skipsWrite mid remote = true) :
    applyChanges mid (pre ++ post) = applyChanges store (pre ++ post) := by
  rw [applyChanges_append, applyChanges_append, h, applyChanges_of_skips hskips]

end Plain

/-! ### A pull that stops -/

/-- The invariant of a pull: the store is that of a prefix of the changes, the rest is still
to be applied, and the checkpoint is the old one until it is through. -/
structure PulledSoFar (store : PlainStore) (checkpoint : Nat) (changes : List (PlainRecord Clock))
    (pull : Pull) : Prop where
  checkpoint : pull.point ≠ .done → pull.checkpoint = checkpoint
  store : ∃ pre post, changes = pre ++ post ∧ Plain.applyChanges store pre = .ok pull.store ∧
    match pull.point with
    | .applying rest => rest = post
    | .merging remote read rest =>
        remote :: rest = post ∧ read = pull.store.getById remote.id
    | .done => True

section Pulling

variable {store : PlainStore} {checkpoint next : Nat} {changes : List (PlainRecord Clock)}
  {pull pull' : Pull}

theorem PulledSoFar.step (h : PulledSoFar store checkpoint changes pull)
    (hstep : pull.step next = some pull') : PulledSoFar store checkpoint changes pull' := by
  obtain ⟨device, mark, point⟩ := pull
  obtain ⟨hmark, pre, post, hchanges, hpre, hpoint⟩ := h
  cases point with
  | applying inbox =>
      obtain rfl : inbox = post := hpoint
      cases inbox with
      | nil =>
          cases hstep
          exact ⟨fun hne => absurd rfl hne, pre, [], hchanges, hpre, trivial⟩
      | cons remote rest =>
          cases hstep
          exact ⟨fun _ => hmark (by simp), pre, _, hchanges, hpre, rfl, rfl⟩
  | merging remote read rest =>
      obtain ⟨rfl, hread⟩ := hpoint
      obtain rfl : read = device.getById remote.id := hread
      obtain ⟨⟨after, changed⟩, hwrite, hafter⟩ := Option.map_eq_some_iff.mp hstep
      have hok : Plain.applyRemote device remote = .ok (after, changed) :=
        toOption_eq_some.mp hwrite
      cases hafter
      refine ⟨fun _ => hmark (by simp), pre ++ [remote], rest, by simp [hchanges], ?_, rfl⟩
      rw [Plain.applyChanges_append, hpre]
      exact Plain.applyChanges_cons hok
  | done => cases hstep

theorem PulledSoFar.reaches (h : PulledSoFar store checkpoint changes pull)
    (hreaches : pull.Reaches next pull') : PulledSoFar store checkpoint changes pull' := by
  induction hreaches with
  | refl => exact h
  | tail _ hstep ih => exact ih.step hstep

end Pulling

/-! ### Families that share their names -/

section Shared

variable {family : Set WellFormed} {plain : PlainStore} {store store' : LocalStore} {v : WellFormed}

/-- A plain store shows one of dictionaries, whose records have the inherited names of the
family. -/
structure Simulated (family : Set WellFormed) (plain : PlainStore) (store : LocalStore) : Prop where
  shows : plain.ShowsStore store
  complete : store.Complete
  names : ∀ id r, store.getById id = some r → ∀ v ∈ family, v.val.id = id →
    SameNames r.fields v.val.fields

theorem simulated_plain (h : NamesShared family) (hstore : StoredFrom family store) :
    Simulated family store.plain store where
  shows := showsStore_plain fun id r hr => by
    obtain ⟨v, hv, heq⟩ := hstore id r hr
    exact ⟨heq ▸ v.property, heq ▸ h.proto v hv⟩
  complete id r hr := by
    obtain ⟨v, -, heq⟩ := hstore id r hr
    exact heq ▸ v.property
  names id r hr u hu hid := by
    obtain ⟨v, hv, heq⟩ := hstore id r hr
    have hsame := h.same v hv u hu
    rw [heq] at hsame
    exact hsame ((LocalStore.id_of_getById hr).trans hid.symm)

/-- A merge of versions with the names of a third has its names. -/
theorem Merged.sameNames {loc remote r : VersionedRecord Clock} {f : JsObject (Option Json)}
    (h : Merged loc remote r) (hloc : SameNames loc.fields f)
    (hremote : SameNames remote.fields f) : SameNames r.fields f := by
  intro key hin hkey
  constructor
  · intro hmem
    exact (h.mem key hmem).elim (hloc key hin hkey).mp (hremote key hin hkey).mp
  · intro hmem
    exact h.keeps key ((hloc key hin hkey).mpr hmem)

/-- One change, on both stores. -/
theorem Simulated.applyRemote (h : Simulated family plain store) (hfamily : NamesShared family)
    (hv : v ∈ family) : ∃ plain' store' changed,
      Plain.applyRemote plain v.val.plain = .ok (plain', changed) ∧
        applyRemote store v.val = .ok (store', changed) ∧ Simulated family plain' store' := by
  obtain ⟨store', changed, happly, heffect⟩ := applyRemote_ok store v.val
  have happlied := applied_of_applyRemote h.complete v.property happly
  have hproto := hfamily.proto v hv
  obtain ⟨plain', hplain, hshows⟩ := applyRemote_shows h.shows (shows_plain v.property hproto)
    (noProto_plain v.property hproto) (fun loc hloc => h.names _ loc hloc v hv rfl) happly
  refine ⟨plain', store', changed, hplain, happly, hshows, happlied.complete, ?_⟩
  intro id r hr u hu hid
  by_cases hne : id = v.val.id
  · have hsame := hfamily.same v hv u hu (hne.symm.trans hid.symm)
    rw [hne] at hr
    cases hloc : store.getById v.val.id with
    | none =>
        rw [heffect.unseen hloc] at hr
        obtain rfl := Option.some.inj hr
        exact hsame
    | some loc =>
        obtain ⟨r', hr', hmerged, -⟩ := heffect.seen loc hloc
        obtain rfl := Option.some.inj (hr'.symm.trans hr)
        exact hmerged.sameNames (h.names _ loc hloc u hu (hid.trans hne)) hsame
  · rw [heffect.other id hne] at hr
    exact h.names id r hr u hu hid

/-- A list of them.  The induction is on the list. -/
theorem Simulated.applyChanges (h : Simulated family plain store) (hfamily : NamesShared family)
    {changes : List WellFormed} (hchanges : ∀ v ∈ changes, v ∈ family) : ∃ plain' store',
      Plain.applyChanges plain (received changes) = .ok plain' ∧
        applyChanges store (changes.map Subtype.val) = .ok store' ∧
        Simulated family plain' store' := by
  induction changes generalizing plain store with
  | nil => exact ⟨plain, store, rfl, rfl, h⟩
  | cons v rest ih =>
      obtain ⟨hv, hrest⟩ := List.forall_mem_cons.mp hchanges
      obtain ⟨plain', store', changed, hplain, hstore, hnext⟩ := h.applyRemote hfamily hv
      obtain ⟨plain'', store'', hplain', hstore', hlast⟩ := ih hnext hrest
      refine ⟨plain'', store'', ?_, ?_, hlast⟩
      · rw [received, List.map_cons, Plain.applyChanges_cons hplain]
        exact hplain'
      · rw [List.map_cons, Mobile.applyChanges, List.foldlM_cons, hstore]
        exact hstore'

/-- A change that is absorbed is skipped. -/
theorem Simulated.skipsWrite (h : Simulated family plain store) (hfamily : NamesShared family)
    (hv : v ∈ family) (habsorbed : Absorbed store v.val) :
    Plain.skipsWrite plain v.val.plain = true := by
  have hskips := habsorbed.skipsWrite h.complete v.property
  obtain ⟨r, hr, -⟩ := habsorbed
  obtain ⟨q, hq, hshows⟩ := h.shows.known _ r hr
  have hproto := hfamily.proto v hv
  have hnames := h.names _ r hr v hv rfl
  have hversion := shows_plain v.property hproto
  obtain ⟨result, result', hok, hok', -, hchanged, -⟩ := changed_shows hshows.record hversion hnames
    hshows.noProto.1 (noProto_plain v.property hproto).1 (LocalStore.id_of_getById hr)
  rw [Mobile.skipsWrite, hr] at hskips
  simp only [hok'] at hskips
  rw [Plain.skipsWrite, show v.val.plain.id = v.val.id from rfl, hq]
  simp only [hok, hchanged, hshows.pending,
    localIsAhead_shows hshows.record hversion hnames hshows.noProto.2]
  exact hskips

/-- All changes of a list are skipped once they are applied. -/
theorem NamesShared.skips (hfamily : NamesShared family) (hstore : StoredFrom family store)
    {changes : List WellFormed} (hchanges : ∀ v ∈ changes, v ∈ family) :
    ∃ after, Plain.applyChanges store.plain (received changes) = .ok after ∧
      ∀ remote ∈ received changes, Plain.skipsWrite after remote = true := by
  have hstart := simulated_plain hfamily hstore
  obtain ⟨after, store', hafter, happly, hend⟩ := hstart.applyChanges hfamily hchanges
  have habsorbed := absorbed_applyChanges hstart.complete
    (fun r hr => by
      obtain ⟨v, -, rfl⟩ := List.mem_map.mp hr
      exact v.property) happly
  refine ⟨after, hafter, fun remote hremote => ?_⟩
  obtain ⟨v, hv, rfl⟩ := List.mem_map.mp hremote
  exact hend.skipsWrite hfamily (hchanges v hv) (habsorbed v.val (List.mem_map_of_mem hv))

theorem NamesShared.resumable (hfamily : NamesShared family) : Resumable family := by
  intro store changes checkpoint next pull hstore hchanges hreaches hpoint
  have hstart : PulledSoFar store.plain checkpoint (received changes)
      ⟨store.plain, checkpoint, .applying (received changes)⟩ :=
    ⟨fun _ => rfl, [], received changes, rfl, rfl, rfl⟩
  obtain ⟨hcheckpoint, pre, post, happend, hpre, -⟩ := hstart.reaches hreaches
  obtain ⟨after, hafter, hskips⟩ := hfamily.skips hstore hchanges
  refine ⟨hcheckpoint hpoint, after, hafter, ?_, Plain.applyChanges_of_skips hskips,
    fun v hv => hskips _ (List.mem_map_of_mem hv)⟩
  -- the prefix is a list of versions of the family
  obtain ⟨done, todo, rfl, rfl, rfl⟩ := List.map_eq_append_iff.mp happend
  obtain ⟨mid, hmid, hskipped⟩ := hfamily.skips hstore
    fun v hv => hchanges v (List.mem_append_left todo hv)
  obtain rfl := Except.ok.inj (hmid.symm.trans hpre)
  rw [← hafter, received, List.map_append]
  exact Plain.applyChanges_resumed hmid hskipped

end Shared

/-! ### Families that do not -/

section Unshared

variable {family : Set WellFormed} {store : PlainStore} {remote : PlainRecord Clock}
  {loc : PlainLocalRecord} {key : String}

/-- A record in which a field is a member of `Object.prototype` is written again whenever
the field arrives. -/
theorem not_skipsWrite_of_inherited (hloc : store.getById remote.id = some loc)
    (hmem : key ∈ remote.fields.own) {name : String} (hclock : loc.clock key = .inherited name)
    {c : Clock} (hremote : remote.clock key = .value c) :
    Plain.skipsWrite store remote = false := by
  obtain ⟨result, hok, -, hchanged⟩ := Plain.mergeRecord_ok
    (show loc.toPlainRecord.id = remote.id from PlainStore.id_of_getById hloc)
  have hwins : (Plain.mergeFields loc.toPlainRecord remote).changed = true :=
    (Plain.mergeFields_changed_iff _ _).mpr
      ⟨key, Or.inr hmem, PlainFields.rightWins_of_inherited_left hclock hremote⟩
  rw [Plain.skipsWrite, hloc]
  simp [hok, hchanged, hwins]

/-- A change that is written leaves the merged record. -/
theorem stored_of_written (hloc : store.getById remote.id = some loc)
    (hwrite : (Plain.mergeFields loc.toPlainRecord remote).changed = true ∨
      (loc.pending && Plain.localIsAhead loc.toPlainRecord remote) ≠ loc.pending) :
    ∃ after changed stored, Plain.applyRemote store remote = .ok (after, changed) ∧
      after.getById remote.id = some stored ∧
      stored.toPlainRecord = Plain.mergedRecord loc.toPlainRecord remote := by
  have hid : loc.toPlainRecord.id = remote.id := PlainStore.id_of_getById hloc
  obtain ⟨result, hok, hmerged, hchanged⟩ := Plain.mergeRecord_ok hid
  have hnot : ¬(!result.changed &&
      (loc.pending && Plain.localIsAhead loc.toPlainRecord remote) == loc.pending) = true := by
    rcases hwrite with hwins | hpending
    · simp [hchanged, hwins]
    · simp [hpending]
  refine ⟨_, _, ⟨result.merged, loc.pending && Plain.localIsAhead loc.toPlainRecord remote⟩,
    (Plain.applyRemote_known remote hloc hok).trans (if_neg hnot), ?_, hmerged⟩
  rw [PlainStore.getById_put, if_pos]
  rw [hmerged]
  exact hid.symm

/-- A record that is merged with itself is not ahead. -/
theorem localIsAhead_self (record : PlainRecord Clock) :
    Plain.localIsAhead record record = false := by
  have hirrefl : ∀ n : Option Clock, numberGt n n = false := by
    intro n
    cases n <;> simp [numberGt]
  simp [Plain.localIsAhead, hirrefl]

/-- Where a pull can be repeated, no merge leaves a member of `Object.prototype` in a field
of a change that has been applied. -/
theorem Resumable.skips (h : Resumable family) {local_ : LocalStore} (changes : List WellFormed)
    (hstore : StoredFrom family local_) (hchanges : ∀ v ∈ changes, v ∈ family)
    {after : PlainStore} (hafter : Plain.applyChanges local_.plain (received changes) = .ok after) :
    ∀ v ∈ changes, Plain.skipsWrite after v.val.plain = true := by
  obtain ⟨-, after', hafter', -, -, hskips⟩ := h local_ changes 0 0 _ hstore hchanges
    Relation.ReflTransGen.refl (by simp)
  obtain rfl := Except.ok.inj (hafter.symm.trans hafter')
  exact hskips

/-- A name that a first change has and a second one lacks is lost, and written again when
the first one is applied again. -/
theorem exists_not_skipsWrite {a b : WellFormed} (hid : a.val.id = b.val.id) (key : String)
    (hin : key ∈ objectPrototype) (hkey : key ≠ "__proto__") (hmem : key ∈ a.val.fields)
    (hnot : key ∉ b.val.fields) :
    ∃ after, Plain.applyChanges LocalStore.empty.plain (received [a, b]) = .ok after ∧
      Plain.skipsWrite after a.val.plain = false := by
  have hac := (a.property key).mpr hmem
  have hbc := mt (b.property key).mp hnot
  have hown : key ∈ a.val.plain.fields.own := PlainObject.mem_ofDict.mpr hmem
  have hfirst : Plain.applyRemote LocalStore.empty.plain a.val.plain =
      .ok (LocalStore.empty.plain.put ⟨a.val.plain, false⟩, true) :=
    Plain.applyRemote_unknown rfl
  have hstored : (LocalStore.empty.plain.put ⟨a.val.plain, false⟩).getById b.val.plain.id =
      some ⟨a.val.plain, false⟩ := by
    rw [PlainStore.getById_put]
    exact if_pos hid.symm
  have hwins : (Plain.mergeFields a.val.plain b.val.plain).changed = true :=
    (Plain.mergeFields_changed_iff _ _).mpr
      ⟨key, Or.inl hown, PlainFields.rightWins_left _ _ hac hbc hin⟩
  obtain ⟨after, changed, loc, hsecond, hloc, hmerged⟩ := stored_of_written hstored (Or.inl hwins)
  refine ⟨after, ?_, ?_⟩
  · show Plain.applyChanges LocalStore.empty.plain [a.val.plain, b.val.plain] = .ok after
    rw [Plain.applyChanges_cons hfirst, Plain.applyChanges_cons hsecond]
    rfl
  · have hclock : loc.clock key = .inherited key := by
      have hlookup := (Plain.merged_mergedRecord a.val.plain b.val.plain).lookup_left hkey hin hmem
        hac hbc
      rw [← hmerged] at hlookup
      exact PlainObject.getD_of_lookup hlookup 0
    obtain ⟨c, hc⟩ := Option.isSome_iff_exists.mp (AList.lookup_isSome.mpr hac)
    rw [show b.val.plain.id = a.val.plain.id from hid.symm] at hloc
    exact not_skipsWrite_of_inherited hloc hown hclock (PlainObject.getD_ofDict_of_lookup hc 0)

theorem Resumable.shared (h : Resumable family) {a b : WellFormed} (ha : a ∈ family)
    (hb : b ∈ family) (hid : a.val.id = b.val.id) (hin : key ∈ objectPrototype)
    (hkey : key ≠ "__proto__") (hmem : key ∈ a.val.fields) : key ∈ b.val.fields := by
  by_contra hnot
  obtain ⟨after, hafter, hwrites⟩ := exists_not_skipsWrite hid key hin hkey hmem hnot
  have hskips := h.skips [a, b] (fun _ _ hnone => by cases hnone) (by simp [ha, hb]) hafter a
    (by simp)
  cases hwrites.symm.trans hskips

/-- A field named `__proto__` is dropped when its version is put back with another flag, and
written again when it arrives again. -/
theorem Resumable.proto (h : Resumable family) {a : WellFormed} (ha : a ∈ family) :
    "__proto__" ∉ a.val.fields := by
  intro hmem
  have hac := (a.property "__proto__").mpr hmem
  have hown : "__proto__" ∈ a.val.plain.fields.own := PlainObject.mem_ofDict.mpr hmem
  obtain ⟨local_, hlocal⟩ : ∃ store : LocalStore, store =
    LocalStore.empty.put ⟨a.val, true⟩ := ⟨_, rfl⟩
  have hread : ∀ id, local_.getById id =
      if id = a.val.id then some ⟨a.val, true⟩ else none := by
    intro id
    rw [hlocal, LocalStore.getById_put]
    rfl
  have hstored : local_.plain.getById a.val.plain.id = some ⟨a.val.plain, true⟩ := by
    rw [LocalStore.getById_plain, hread, if_pos (show a.val.plain.id = a.val.id from rfl)]
    rfl
  have hahead : (true && Plain.localIsAhead a.val.plain a.val.plain) ≠ true := by
    rw [localIsAhead_self]
    decide
  obtain ⟨after, changed, loc, hwrite, hloc, hmerged⟩ := stored_of_written hstored (Or.inr hahead)
  have hafter : Plain.applyChanges local_.plain (received [a]) = .ok after := by
    show Plain.applyChanges local_.plain [a.val.plain] = .ok after
    rw [Plain.applyChanges_cons hwrite]
    rfl
  have hfrom : StoredFrom family local_ := by
    intro id r hr
    rw [hread] at hr
    split at hr
    · obtain rfl := Option.some.inj hr
      exact ⟨a, ha, rfl⟩
    · cases hr
  have hskips := h.skips [a] hfrom (by simp [ha]) hafter a (by simp)
  have hclock : loc.clock "__proto__" = .inherited "__proto__" := by
    have hresult := Plain.merged_mergedRecord a.val.plain a.val.plain
    rw [← hmerged] at hresult
    exact PlainObject.getD_of_inherited (AList.lookup_eq_none.mp hresult.lookup_proto.1)
      hresult.clocksProto (by decide) 0
  obtain ⟨c, hc⟩ := Option.isSome_iff_exists.mp (AList.lookup_isSome.mpr hac)
  have hwrites := not_skipsWrite_of_inherited hloc hown hclock
    (PlainObject.getD_ofDict_of_lookup hc 0)
  cases hwrites.symm.trans hskips

theorem Resumable.namesShared (h : Resumable family) : NamesShared family where
  same _ ha _ hb hid _ hin hkey := ⟨h.shared ha hb hid hin hkey, h.shared hb ha hid.symm hin hkey⟩
  proto _ ha := h.proto ha

end Unshared

/-- **Where a pull can be interrupted and repeated**: exactly on the families whose versions
of one record share their inherited names and have no field named `__proto__`. -/
theorem resumable_iff (family : Set WellFormed) : Resumable family ↔ NamesShared family :=
  ⟨Resumable.namesShared, NamesShared.resumable⟩

/-! ### A field named `constructor` -/

namespace Constructed

/-- A version of a card, its fields stamped alike. -/
def version (fields : JsObject (Option Json)) (clock : Clock) (nodeId : String) : WellFormed where
  val :=
    { id := js "c1"
      fields := fields
      clocks := fields.mapValues fun _ => clock
      nodeId := js nodeId
      deletedAt := none }
  property key := by
    show key ∈ fields.mapValues _ ↔ key ∈ fields
    rw [← AList.lookup_isSome, Dict.lookup_mapValues, Option.isSome_map, AList.lookup_isSome]

def constructed : WellFormed :=
  version (Dict.ofList [("constructor", some (.str (js "x")))]) 5 "a"

def titled : WellFormed :=
  version (Dict.ofList [("title", some (.str (js "Ship")))]) 3 "b"

end Constructed

/-- The card is stored with `Object` as its `constructor`, and its first version is written
over it whenever it arrives. -/
theorem constructed_pull_repeats :
    ∃ after, Plain.applyChanges LocalStore.empty.plain
        (received [Constructed.constructed, Constructed.titled]) = .ok after ∧
      Plain.skipsWrite after Constructed.constructed.val.plain = false :=
  exists_not_skipsWrite rfl "constructor" (by decide) (by decide) (by decide) (by decide)

end FlowLogix.Mobile
