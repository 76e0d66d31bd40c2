/-
  Mobile/Delivery.lean --- which rows pulls bring to a device.

  A device asks for what changed since its checkpoint and moves the checkpoint
  to the server's clock.  At checkpoint 0 the server sends no delta, so a new
  device receives nothing; and a page is cut by id while the checkpoint is a
  time, so the rows a page leaves out are behind the next checkpoint as well.
  `bootstrap_complete_iff` and `delta_delivered_iff` say exactly when neither
  matters.
-/
import FlowLogix.Mobile.HttpSync

set_option autoImplicit false

namespace FlowLogix.Mobile

open FlowLogix.Foundation FlowLogix.Server

variable {pg : Postgres} {orgId : JsString} {c : SyncCollection}

/-! ## A new device -/

/-- A device that holds nothing and has no stored checkpoint. -/
def SyncEngine.fresh (nodeId : JsString) : SyncEngine where
  nodeId := nodeId
  clock := ⟨0⟩
  store := .empty
  checkpoint := 0

/-- The sync of a new device leaves it empty. -/
theorem sync_fresh (orgId : JsString) (c : SyncCollection) (nodeId : JsString)
    (server : ServerState pg) (pullAt pushAt : Nat) :
    ∃ r, sync true orgId c pullAt pushAt ⟨.fresh nodeId, server⟩ = .ok r ∧
      r.session.engine.store = .empty := by
  have hzero : ¬ 0 < (SyncEngine.fresh nodeId).checkpoint := Nat.lt_irrefl 0
  obtain ⟨p, hp⟩ : ∃ p, pullAndMerge orgId c pullAt ⟨.fresh nodeId, server⟩ = .ok p :=
    exists_pullAndMerge fun h => absurd h hzero
  obtain ⟨happlied, -⟩ := pullAndMerge_eq_ok hp
  rw [delivered, if_neg hzero] at happlied
  have hstore : p.session.engine.store = .empty :=
    (congrArg Prod.fst (Except.ok.inj happlied)).symm
  have hpush : pushPending orgId c pushAt p.session =
      .ok { session := p.session, sent := [], accepted := 0 } := by
    rw [pushPending, if_pos]
    rw [hstore]
    rfl
  exact ⟨_, bind_eq_ok.mpr ⟨p, hp, bind_eq_ok.mpr ⟨_, hpush, rfl⟩⟩, hstore⟩

/-- **A new device.** The first sync of a device that holds nothing completes,
and leaves it with a copy of every row of the organization exactly when the
organization has none. -/
theorem bootstrap_complete_iff (orgId : JsString) (c : SyncCollection) (nodeId : JsString)
    (server : ServerState pg) (pullAt pushAt : Nat) :
    ∃ r, sync true orgId c pullAt pushAt ⟨.fresh nodeId, server⟩ = .ok r ∧
      ((∀ k (row : Row pg c), (k, row) ∈ server.db.orgRows c orgId →
          HasCopy r.session.engine.store k row) ↔
        server.db.orgRows c orgId = []) := by
  obtain ⟨r, hr, hstore⟩ := sync_fresh orgId c nodeId server pullAt pushAt
  refine ⟨r, hr, fun hall => ?_, fun hnone k row hmem => ?_⟩
  · refine List.eq_nil_iff_forall_not_mem.mpr fun e he => ?_
    obtain ⟨record, hrecord, -⟩ := hall e.1 e.2 he
    rw [hstore] at hrecord
    cases hrecord
  · rw [hnone] at hmem
    cases hmem

/-- An organization with one card: the first sync completes, and the new device
has no card. -/
theorem bootstrap_missesCard :
    (Sample.database (Dict.ofList [(Sample.cardId, Sample.card)])).find .cards Sample.cardId =
        some Sample.card ∧
      (Sample.database (Dict.ofList [(Sample.cardId, Sample.card)])).owner .cards Sample.cardId =
        some Sample.orgId ∧
      ∃ r, sync true Sample.orgId .cards 1 2 ⟨.fresh (js "device"),
          { db := Sample.database (Dict.ofList [(Sample.cardId, Sample.card)])
            lastMicros := 0 }⟩ = .ok r ∧
        r.session.engine.store.getById Sample.cardId = none := by
  obtain ⟨r, hr, hstore⟩ := sync_fresh Sample.orgId .cards (js "device")
    { db := Sample.database (Dict.ofList [(Sample.cardId, Sample.card)]), lastMicros := 0 } 1 2
  exact ⟨rfl, by decide, r, hr, by rw [hstore]; rfl⟩

/-! ## Repeated pulls -/

/-- The device and the server after `n` pulls, the `i`-th of them at `nows i`. -/
def rounds (orgId : JsString) (c : SyncCollection) (nows : Nat → Nat) (s : Session pg) :
    Nat → Except Failure (Session pg)
  | 0 => .ok s
  | n + 1 => do
      let mid ← rounds orgId c nows s n
      let p ← pullAndMerge orgId c (nows n) mid
      return p.session

/-- The pull after the first `n` returns no changes, and leaves `final`. -/
def Drained (orgId : JsString) (c : SyncCollection) (nows : Nat → Nat) (s : Session pg)
    (n : Nat) (final : Session pg) : Prop :=
  ∃ mid p, rounds orgId c nows s n = .ok mid ∧ pullAndMerge orgId c (nows n) mid = .ok p ∧
    p.pulled = 0 ∧ p.session = final

/-- The reading of the server's clock after `n` requests. -/
def clockAfter (lastMicros : Nat) (nows : Nat → Nat) : Nat → Nat
  | 0 => lastMicros
  | n + 1 => nowMicros (clockAfter lastMicros nows n) (nows n)

/-- The checkpoint the `n`-th pull names. -/
def sinceAt (s : Session pg) (nows : Nat → Nat) : Nat → Nat
  | 0 => s.engine.checkpoint
  | n + 1 => clockAfter s.server.lastMicros nows (n + 1)

theorem le_clockAfter (lastMicros : Nat) (nows : Nat → Nat) (n : Nat) :
    n ≤ clockAfter lastMicros nows n := by
  induction n with
  | zero => exact Nat.zero_le _
  | succ n ih => exact Nat.lt_of_le_of_lt ih (lt_strictMicros _ _)

variable {s : Session pg} {nows : Nat → Nat}

theorem sinceAt_pos (hcheckpoint : 0 < s.engine.checkpoint) (n : Nat) : 0 < sinceAt s nows n := by
  cases n with
  | zero => exact hcheckpoint
  | succ n => exact Nat.lt_of_lt_of_le (Nat.succ_pos n) (le_clockAfter _ _ _)

/-- What holds after `n` pulls: the tables as they were, the two clocks, and on
the device copies of the rows of the pages so far. -/
theorem rounds_eq_ok (hcheckpoint : 0 < s.engine.checkpoint) {n : Nat} {mid : Session pg}
    (h : rounds orgId c nows s n = .ok mid) :
    mid.server.db = s.server.db ∧
      mid.server.lastMicros = clockAfter s.server.lastMicros nows n ∧
      mid.engine.checkpoint = sinceAt s nows n ∧
      ∀ k (row : Row pg c), (k, row) ∈ s.server.db.orgRows c orgId →
        (HasCopy mid.engine.store k row ↔
          (∃ i < n, (k, row) ∈ page s.server.db c orgId (sinceAt s nows i)) ∨
            HasCopy s.engine.store k row) := by
  induction n generalizing mid with
  | zero =>
      obtain rfl := Except.ok.inj h
      exact ⟨rfl, rfl, rfl, fun k row _ => ⟨Or.inr, fun hor => hor.elim
        (fun ⟨i, hi, _⟩ => absurd hi (Nat.not_lt_zero i)) id⟩⟩
  | succ n ih =>
      obtain ⟨prev, hprev, h⟩ := bind_eq_ok.mp h
      obtain ⟨p, hp, h⟩ := bind_eq_ok.mp h
      obtain rfl := Except.ok.inj h
      obtain ⟨hdb, hlast, hsince, hcopies⟩ := ih hprev
      obtain ⟨-, hcheckpoint', hdb', hlast', -⟩ := pullAndMerge_eq_ok hp
      have hclock : nowMicros prev.server.lastMicros (nows n) =
          clockAfter s.server.lastMicros nows (n + 1) := by
        rw [hlast]
        rfl
      refine ⟨hdb'.trans hdb, hlast'.trans hclock, hcheckpoint'.trans hclock, ?_⟩
      intro k row hrow
      rw [hasCopy_pullAndMerge_iff hp (hdb ▸ hrow), delivered, hsince,
        if_pos (sinceAt_pos hcheckpoint n), hdb, hcopies k row hrow]
      constructor
      · rintro (hpage | ⟨i, hi, hpage⟩ | hcopy)
        · exact Or.inl ⟨n, Nat.lt_succ_self n, hpage⟩
        · exact Or.inl ⟨i, Nat.lt_succ_of_lt hi, hpage⟩
        · exact Or.inr hcopy
      · rintro (⟨i, hi, hpage⟩ | hcopy)
        · rcases Nat.lt_succ_iff_lt_or_eq.mp hi with hlt | rfl
          · exact Or.inr (Or.inl ⟨i, hlt, hpage⟩)
          · exact Or.inl hpage
        · exact Or.inr (Or.inr hcopy)

/-- When the pulls have stopped returning changes, the device has copies of the
rows of the pages it was sent and of the rows it had copies of. -/
theorem hasCopy_drained_iff (hcheckpoint : 0 < s.engine.checkpoint) {n : Nat}
    {final : Session pg} (h : Drained orgId c nows s n final) {k : JsString} {row : Row pg c}
    (hrow : (k, row) ∈ s.server.db.orgRows c orgId) :
    HasCopy final.engine.store k row ↔
      (∃ i < n, (k, row) ∈ page s.server.db c orgId (sinceAt s nows i)) ∨
        HasCopy s.engine.store k row := by
  obtain ⟨mid, p, hmid, hp, hnone, rfl⟩ := h
  obtain ⟨hdb, -, -, hcopies⟩ := rounds_eq_ok hcheckpoint hmid
  obtain ⟨-, -, -, -, hpulled⟩ := pullAndMerge_eq_ok hp
  have hempty : delivered orgId c mid = [] :=
    List.eq_nil_of_length_eq_zero (hpulled.symm.trans hnone)
  rw [hasCopy_pullAndMerge_iff hp (hdb ▸ hrow), hempty, ← hcopies k row hrow]
  simp

/-- A delta that fits on one page is delivered. -/
theorem hasCopy_of_fits (hcheckpoint : 0 < s.engine.checkpoint)
    (hfits : ((s.server.db.orgRows c orgId).filter
      fun e => stampedAfter s.engine.checkpoint e.2).length ≤ maxSyncChanges)
    {n : Nat} {final : Session pg} (h : Drained orgId c nows s n final) {k : JsString}
    {row : Row pg c} (hrow : (k, row) ∈ s.server.db.orgRows c orgId)
    (hstamped : stampedAfter s.engine.checkpoint row = true) :
    HasCopy final.engine.store k row := by
  have hpage : (k, row) ∈ page s.server.db c orgId (sinceAt s nows 0) :=
    (mem_page_iff hfits).mpr ⟨hrow, hstamped⟩
  cases n with
  | zero =>
      obtain ⟨mid, p, hmid, hp, hnone, rfl⟩ := h
      obtain rfl := Except.ok.inj hmid
      refine (hasCopy_pullAndMerge_iff hp hrow).mpr (Or.inl ?_)
      rw [delivered, if_pos hcheckpoint]
      exact hpage
  | succ n =>
      exact (hasCopy_drained_iff hcheckpoint h hrow).mpr (Or.inl ⟨0, Nat.succ_pos n, hpage⟩)

/-! ### The pulls stop -/

/-- Every clock and tombstone of some rows is at most some number. -/
theorem exists_stampedAfter_bound (rows : List (JsString × Row pg c)) :
    ∃ bound : Nat, ∀ e ∈ rows, ∀ since, bound ≤ since → stampedAfter since e.2 = false := by
  let stamps := rows.flatMap fun e => e.2.syncDeletedAt.toList ++ e.2.syncClocks.values
  obtain ⟨top, htop⟩ := stamps.toFinset.exists_le
  obtain ⟨bound, hbound⟩ := exists_nat_ge top
  refine ⟨bound, fun e he since hsince => ?_⟩
  have hle : ∀ x ∈ e.2.syncDeletedAt.toList ++ e.2.syncClocks.values, ¬ (since : Clock) < x := by
    intro x hx
    have hmem : x ∈ stamps.toFinset :=
      List.mem_toFinset.mpr (List.mem_flatMap.mpr ⟨e, he, hx⟩)
    exact not_lt.mpr ((htop x hmem).trans (hbound.trans (Nat.cast_le.mpr hsince)))
  rw [stampedAfter, Bool.or_eq_false_iff]
  constructor
  · cases hd : e.2.syncDeletedAt with
    | none => rfl
    | some d => exact decide_eq_false (hle d (by simp [hd]))
  · exact List.any_eq_false.mpr fun x hx => by
      simpa using not_lt.mp (hle x (List.mem_append_right _ hx))

/-- Pulls of a castable organization complete. -/
theorem exists_rounds
    (hcast : ∀ e ∈ s.server.db.orgRows c orgId, castable e.2 = true)
    (hcheckpoint : 0 < s.engine.checkpoint) (nows : Nat → Nat) (n : Nat) :
    ∃ mid, rounds orgId c nows s n = .ok mid := by
  induction n with
  | zero => exact ⟨s, rfl⟩
  | succ n ih =>
      obtain ⟨mid, hmid⟩ := ih
      have hdb := (rounds_eq_ok hcheckpoint hmid).1
      obtain ⟨p, hp⟩ : ∃ p, pullAndMerge orgId c (nows n) mid = .ok p :=
        exists_pullAndMerge fun _ => hdb ▸ hcast
      exact ⟨p.session, bind_eq_ok.mpr ⟨mid, hmid, bind_eq_ok.mpr ⟨p, hp, rfl⟩⟩⟩

/-- Whatever the times of the pulls, at some point one returns no changes: the
checkpoint passes every stamp. -/
theorem exists_drained
    (hcast : ∀ e ∈ s.server.db.orgRows c orgId, castable e.2 = true)
    (hcheckpoint : 0 < s.engine.checkpoint) (nows : Nat → Nat) :
    ∃ n final, Drained orgId c nows s n final := by
  obtain ⟨bound, hbound⟩ := exists_stampedAfter_bound (s.server.db.orgRows c orgId)
  obtain ⟨mid, hmid⟩ := exists_rounds hcast hcheckpoint nows (bound + 1)
  obtain ⟨hdb, -, hsince, -⟩ := rounds_eq_ok hcheckpoint hmid
  obtain ⟨p, hp⟩ : ∃ p, pullAndMerge orgId c (nows (bound + 1)) mid = .ok p :=
    exists_pullAndMerge fun _ => hdb ▸ hcast
  obtain ⟨-, -, -, -, hpulled⟩ := pullAndMerge_eq_ok hp
  refine ⟨bound + 1, p.session, mid, p, hmid, hp, ?_, rfl⟩
  have hlate : bound ≤ mid.engine.checkpoint :=
    hsince ▸ (Nat.le_succ bound).trans (le_clockAfter _ _ _)
  have hempty : delivered orgId c mid = [] := by
    rw [delivered]
    split
    · rw [page, hdb, List.filter_eq_nil_iff.mpr, List.take_nil]
      intro e he
      simp [hbound e he _ hlate]
    · rfl
  rw [hpulled, hempty]
  rfl

/-- **Pages.** A device with a positive checkpoint pulls until a pull returns no
changes, nobody writing meanwhile.  If the clocks of the organization are
`bigint`s, such a pull comes, whatever the times of the pulls.  Whenever it
comes, the device has a copy of every row that was stamped after its first
checkpoint exactly when each of them is on the page of one of the pulls, which
is at their own checkpoint and cut at `MAX_SYNC_CHANGES` rows, or was copied
before. -/
theorem delta_delivered_iff (hcheckpoint : 0 < s.engine.checkpoint) (nows : Nat → Nat) :
    ((∀ e ∈ s.server.db.orgRows c orgId, castable e.2 = true) →
        ∃ n final, Drained orgId c nows s n final) ∧
      ∀ n final, Drained orgId c nows s n final →
        ((∀ k (row : Row pg c), (k, row) ∈ s.server.db.orgRows c orgId →
            stampedAfter s.engine.checkpoint row = true → HasCopy final.engine.store k row) ↔
          ∀ k (row : Row pg c), (k, row) ∈ s.server.db.orgRows c orgId →
            stampedAfter s.engine.checkpoint row = true →
              (∃ i < n, (k, row) ∈ page s.server.db c orgId (sinceAt s nows i)) ∨
                HasCopy s.engine.store k row) := by
  refine ⟨fun hcast => exists_drained hcast hcheckpoint nows, fun n final hdrained => ?_⟩
  exact forall₂_congr fun k row => forall₂_congr fun hrow _ =>
    hasCopy_drained_iff hcheckpoint hdrained hrow

/-! ### One card, and one card too many -/

namespace Paging

/-- A card written at 5. -/
def card : Row Postgres.plain .cards :=
  { Sample.card with syncClocks := Dict.ofList [("title", 5)] }

/-- A device at checkpoint 1, and a server with the given cards. -/
def session (cards : Dict JsString (Row Postgres.plain .cards)) : Session Postgres.plain where
  engine := { nodeId := js "device", clock := ⟨0⟩, store := .empty, checkpoint := 1 }
  server := { db := Sample.database cards, lastMicros := 0 }

/-- A pull every millisecond. -/
def everyMillisecond (n : Nat) : Nat := n + 1

/-- One card. -/
def one : Session Postgres.plain := session (Dict.ofList [(Sample.cardId, card)])

/-- The ids of many cards: the last four digits are those of a number. -/
def cardId (i : Nat) : JsString :=
  js "00000000-0000-4000-8000-00000000" ++
    [digitUnit (i / 1000), digitUnit (i / 100), digitUnit (i / 10), digitUnit i]

theorem digitUnit_inj {d e : Nat} (h : digitUnit d = digitUnit e) : d % 10 = e % 10 := by
  have hval := congrArg Fin.val h
  simp only [digitUnit, Fin.val_ofNat] at hval
  omega

theorem cardId_inj {i j : Nat} (hi : i < 10000) (hj : j < 10000) (h : cardId i = cardId j) :
    i = j := by
  have hdigits := List.append_cancel_left h
  simp only [List.cons.injEq, and_true] at hdigits
  obtain ⟨h3, h2, h1, h0⟩ := hdigits
  have := digitUnit_inj h3
  have := digitUnit_inj h2
  have := digitUnit_inj h1
  have := digitUnit_inj h0
  omega

/-- A number of cards. -/
def cards (count : Nat) (h : count ≤ 10000) : Dict JsString (Row Postgres.plain .cards) where
  entries := (List.range count).map fun i => ⟨cardId i, card⟩
  nodupKeys := by
    rw [List.NodupKeys, List.keys, List.map_map]
    refine List.Nodup.map_on (fun i hi j hj heq => ?_) List.nodup_range
    exact cardId_inj ((List.mem_range.mp hi).trans_le h) ((List.mem_range.mp hj).trans_le h) heq

/-- Every card is one of the organization. -/
theorem orgRows_cards {count : Nat} (h : count ≤ 10000) :
    ((session (cards count h)).server.db.orgRows .cards Sample.orgId).Nodup ∧
      ((session (cards count h)).server.db.orgRows .cards Sample.orgId).length = count ∧
      ∀ e ∈ (session (cards count h)).server.db.orgRows .cards Sample.orgId, e.2 = card := by
  have howner : ∀ e ∈ (cards count h).entries,
      (session (cards count h)).server.db.owner .cards e.1 = some Sample.orgId ∧ e.2 = card := by
    intro e he
    obtain ⟨i, -, rfl⟩ := List.mem_map.mp he
    have hfind : (session (cards count h)).server.db.find .cards (cardId i) = some card :=
      AList.mem_lookup_iff.mpr he
    refine ⟨?_, rfl⟩
    rw [Database.owner, hfind]
    rfl
  have hperm : ((session (cards count h)).server.db.orgRows .cards Sample.orgId).Perm
      ((cards count h).entries.map fun e => (e.1, e.2)) := by
    refine (List.perm_insertionSort _ _).trans (List.Perm.of_eq (List.filter_eq_self.mpr ?_))
    intro e he
    obtain ⟨e', he', rfl⟩ := List.mem_map.mp he
    exact decide_eq_true (howner e' he').1
  refine ⟨hperm.nodup_iff.mpr ?_, ?_, fun e he => ?_⟩
  · exact List.Nodup.of_map _ (Dict.nodup_keys_pairs (cards count h))
  · rw [hperm.length_eq, List.length_map]
    simp [cards]
  · obtain ⟨e', he', rfl⟩ := List.mem_map.mp (hperm.mem_iff.mp he)
    exact (howner e' he').2

/-- One card more than fits on a page. -/
def many : Session Postgres.plain := session (cards (maxSyncChanges + 1) (by decide))

/-- Only the first pull finds a card stamped after its checkpoint. -/
theorem page_many (i : Nat) :
    page many.server.db .cards Sample.orgId (sinceAt many everyMillisecond (i + 1)) = [] := by
  have hlate : 5 ≤ sinceAt many everyMillisecond (i + 1) := by
    have hwall := le_strictMicros (clockAfter many.server.lastMicros everyMillisecond i)
      (everyMillisecond i)
    have hmillis : 1000 ≤ everyMillisecond i * 1000 := by
      unfold everyMillisecond
      omega
    exact (show 5 ≤ 1000 by decide).trans (hmillis.trans hwall)
  rw [page, List.filter_eq_nil_iff.mpr, List.take_nil]
  intro e he
  have hvalues : card.syncClocks.values = [5] := by decide
  have hcast : (5 : Clock) ≤ (sinceAt many everyMillisecond (i + 1) : Clock) := by
    exact_mod_cast hlate
  rw [(orgRows_cards (by decide)).2.2 e he, stampedAfter, hvalues]
  simpa [card, Sample.card, Row.plain] using hcast

end Paging

/-- One card is delivered. -/
theorem onePage_delivered :
    ∃ final, Drained Sample.orgId .cards Paging.everyMillisecond Paging.one 1 final ∧
      ∀ k (row : Row Postgres.plain .cards),
        (k, row) ∈ Paging.one.server.db.orgRows .cards Sample.orgId →
          stampedAfter 1 row = true → HasCopy final.engine.store k row := by
  have hmid : rounds Sample.orgId .cards Paging.everyMillisecond Paging.one 1 =
      .ok (okOr (rounds Sample.orgId .cards Paging.everyMillisecond Paging.one 1) Paging.one) :=
    eq_ok_okOr (by decide)
  generalize hdef :
    okOr (rounds Sample.orgId .cards Paging.everyMillisecond Paging.one 1) Paging.one = mid at hmid
  have hlast : pullAndMerge Sample.orgId .cards 2 mid =
      .ok (okOr (pullAndMerge Sample.orgId .cards 2 mid) ⟨mid, 0, 0⟩) :=
    eq_ok_okOr (by rw [← hdef]; decide)
  have hdrained : Drained Sample.orgId .cards Paging.everyMillisecond Paging.one 1
      (okOr (pullAndMerge Sample.orgId .cards 2 mid) ⟨mid, 0, 0⟩).session :=
    ⟨mid, _, hmid, hlast, by rw [← hdef]; decide, rfl⟩
  have hcheckpoint : 0 < Paging.one.engine.checkpoint := Nat.one_pos
  have hall := ((delta_delivered_iff hcheckpoint Paging.everyMillisecond).2 1 _ hdrained).mpr
  refine ⟨_, hdrained, hall fun k row hrow hstamped => Or.inl ⟨0, Nat.one_pos, ?_⟩⟩
  exact (mem_page_iff (by decide)).mpr ⟨hrow, hstamped⟩

/-- With one card too many, every clock is after the checkpoint, the pulls stop,
and some card is not on the device. -/
theorem secondPage_lost :
    (∀ e ∈ Paging.many.server.db.orgRows .cards Sample.orgId,
        ∀ clock ∈ e.2.syncClocks.values, (Paging.many.engine.checkpoint : Clock) < clock) ∧
      ∃ n final, Drained Sample.orgId .cards Paging.everyMillisecond Paging.many n final ∧
        ∃ k row, (k, row) ∈ Paging.many.server.db.orgRows .cards Sample.orgId ∧
          stampedAfter Paging.many.engine.checkpoint row = true ∧
            ¬ HasCopy final.engine.store k row := by
  obtain ⟨hnodup, hlength, hcard⟩ :=
    Paging.orgRows_cards (show maxSyncChanges + 1 ≤ 10000 by decide)
  have hcheckpoint : 0 < Paging.many.engine.checkpoint := Nat.one_pos
  have hcast : castable Paging.card = true := by decide
  have hstamped : stampedAfter 1 Paging.card = true := by decide
  have hclocks : ∀ clock ∈ Paging.card.syncClocks.values, ((1 : Nat) : Clock) < clock := by decide
  refine ⟨fun e he => hcard e he ▸ hclocks, ?_⟩
  obtain ⟨n, final, hdrained⟩ := exists_drained (fun e he => hcard e he ▸ hcast) hcheckpoint
    Paging.everyMillisecond
  refine ⟨n, final, hdrained, ?_⟩
  by_contra hnone
  -- then every card is on the first page
  have hsubset : Paging.many.server.db.orgRows .cards Sample.orgId ⊆
      page Paging.many.server.db .cards Sample.orgId 1 := by
    rintro ⟨k, row⟩ hrow
    have hcopy : HasCopy final.engine.store k row := by
      by_contra hcopy
      obtain rfl : row = Paging.card := hcard (k, row) hrow
      exact hnone ⟨k, Paging.card, hrow, hstamped, hcopy⟩
    rcases (hasCopy_drained_iff hcheckpoint hdrained hrow).mp hcopy with ⟨i, -, hpage⟩ | ⟨r, hr, -⟩
    · cases i with
      | zero => exact hpage
      | succ i =>
          rw [Paging.page_many] at hpage
          cases hpage
    · cases hr
  have hle := (List.subperm_of_subset hnodup hsubset).length_le
  rw [page, List.length_take] at hle
  exact absurd (hlength.symm.trans_le (hle.trans (min_le_left _ _))) (by decide)

end FlowLogix.Mobile
