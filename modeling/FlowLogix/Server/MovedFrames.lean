/-
  Server/MovedFrames.lean --- moves of one card at the same time
  (`update` in backend/src/cards/cards.service.ts, with `emit` in
  realtime/board-events.service.ts).

  A move loads the card, checks the target, finds the place and saves, each in a
  transaction of its own; its emit then takes a number, appends and publishes.  Any
  number of moves of one card interleave at these steps.  Every save writes the list
  and the position the move has in memory, so the last commit decides what is stored
  (`MoveInv.stored`).  The numbers are taken in an order of their own, and the last
  one decides which frame is the latest (`latest_eq_last_numbered`).
-/
import FlowLogix.Server.Crud
import FlowLogix.Server.WebEffects
import FlowLogix.Realtime.Broadcast
import FlowLogix.Foundation.Steps

set_option autoImplicit false

namespace FlowLogix.Server

open FlowLogix.Foundation
open FlowLogix.Realtime (Broadcast BoardRedis EmitStep)

variable {pg : Postgres} {ι : Type} [DecidableEq ι]

/-! ## The system -/

/-- A call of `CardsService.update`. -/
structure UpdateCall where
  id : JsString
  orgId : JsString
  dto : UpdateCardDto

/-- How far a call has come, with what it has in memory. -/
inductive UpdatePhase where
  | called
  | loaded (loaded : CardsService.LoadedCard)
  | checked (loaded : CardsService.LoadedCard)
  | placed (loaded : CardsService.LoadedCard) (nextPositionIdx : Option JsString)
  /-- committed, its emit yet to take a number -/
  | saved (loaded : CardsService.LoadedCard) (nextPositionIdx : Option JsString)
  | numbered (loaded : CardsService.LoadedCard) (nextPositionIdx : Option JsString)

/-- The tables, the board's Redis, and the calls. -/
structure CardMoves (pg : Postgres) (ι : Type) where
  db : Database pg
  broadcast : Broadcast
  phase : ι → UpdatePhase
  /-- the calls that committed, in order -/
  commits : List ι
  /-- the frames, in the order they took their numbers, each with its call -/
  frames : List (ι × BoardMutationEnvelope)

/-- A step of one call. -/
inductive MoveStep (ι : Type) where
  | load (i : ι)
  | check (i : ι)
  | place (i : ι)
  | save (i : ι)
  | number (i : ι) (ts : Nat)
  | append (envelope : BoardMutationEnvelope)
  | publish (envelope : BoardMutationEnvelope)

namespace CardMoves

/-- No call has begun. -/
def start (db : Database pg) (redis : BoardRedis) : CardMoves pg ι where
  db := db
  broadcast := { redis := redis, numbered := [], appended := [], published := [] }
  phase := fun _ => .called
  commits := []
  frames := []

/-- One call comes further. -/
def goTo (s : CardMoves pg ι) (i : ι) (phase : UpdatePhase) : CardMoves pg ι :=
  { s with phase := Function.update s.phase i phase }

/-- One step of one of the calls, which all move cards of the board `boardId`. -/
def step (calls : ι → UpdateCall) (boardId : JsString) (s : CardMoves pg ι) :
    MoveStep ι → Option (CardMoves pg ι)
  | .load i =>
      match s.phase i with
      | .called =>
          (CardsService.load s.db (calls i).id (calls i).orgId).toOption.map fun loaded =>
            s.goTo i (.loaded loaded)
      | _ => none
  | .check i =>
      match s.phase i with
      | .loaded loaded =>
          (CardsService.checkTarget s.db (calls i).orgId (calls i).dto loaded).toOption.map fun _ =>
            s.goTo i (.checked loaded)
      | _ => none
  | .place i =>
      match s.phase i with
      | .checked loaded =>
          (CardsService.place s.db (calls i).id (calls i).dto loaded).toOption.map fun next =>
            s.goTo i (.placed loaded next)
      | _ => none
  | .save i =>
      match s.phase i with
      | .placed loaded next =>
          (saveEntity s.db .cards loaded.key
              (CardsService.edited (calls i).dto loaded next)).toOption.map fun db =>
            { s.goTo i (.saved loaded next) with db := db, commits := s.commits ++ [i] }
      | _ => none
  | .number i ts =>
      match s.phase i with
      | .saved loaded next =>
          let event := CardsService.eventForSave (calls i).dto loaded next
          if event.boardId = boardId then
            (s.broadcast.step boardId (.number event.type event.payload ts)).map fun broadcast =>
              { s.goTo i (.numbered loaded next) with
                broadcast := broadcast
                frames := s.frames ++ [(i,
                  { seq := broadcast.redis.seq
                    boardId := boardId
                    type := event.type
                    payload := event.payload
                    ts := ts })] }
          else none
      | _ => none
  | .append envelope =>
      (s.broadcast.step boardId (.append envelope)).map fun broadcast =>
        { s with broadcast := broadcast }
  | .publish envelope =>
      (s.broadcast.step boardId (.publish envelope)).map fun broadcast =>
        { s with broadcast := broadcast }

end CardMoves

/-! ## What a step does -/

/-- What a call has loaded, and the position it found. -/
def UpdatePhase.memory : UpdatePhase → Option (CardsService.LoadedCard × Option JsString)
  | .called => none
  | .loaded card | .checked card => some (card, none)
  | .placed card next | .saved card next | .numbered card next => some (card, next)

/-- The call has committed. -/
def UpdatePhase.isCommitted : UpdatePhase → Bool
  | .saved _ _ | .numbered _ _ => true
  | _ => false

namespace CardMoves

variable {calls : ι → UpdateCall} {boardId : JsString} {s s' : CardMoves pg ι}

@[simp] theorem goTo_phase_self (s : CardMoves pg ι) (i : ι) (phase : UpdatePhase) :
    (s.goTo i phase).phase i = phase := by
  simp [goTo]

theorem goTo_phase_of_ne (s : CardMoves pg ι) {i j : ι} (phase : UpdatePhase) (h : j ≠ i) :
    (s.goTo i phase).phase j = s.phase j := by
  simp [goTo, h]

/-- What a step can do: it prepares a call for its save, saves, takes a number, or sends a
frame on. -/
inductive Effect (calls : ι → UpdateCall) (boardId : JsString) (s : CardMoves pg ι) :
    CardMoves pg ι → Prop where
  | prepares (i : ι) (phase : UpdatePhase) (hold : (s.phase i).isCommitted = false)
      (hnew : phase.isCommitted = false)
      (hmemory : ∀ m, phase.memory = some m →
        CardsService.load s.db (calls i).id (calls i).orgId = .ok m.1 ∨
          ∃ next, (s.phase i).memory = some (m.1, next)) :
      Effect calls boardId s (s.goTo i phase)
  | saves (i : ι) (loaded : CardsService.LoadedCard) (next : Option JsString) (db : Database pg)
      (hphase : s.phase i = .placed loaded next)
      (hsave : saveEntity s.db .cards loaded.key
        (CardsService.edited (calls i).dto loaded next) = .ok db) :
      Effect calls boardId s
        { s.goTo i (.saved loaded next) with db := db, commits := s.commits ++ [i] }
  | numbers (i : ι) (loaded : CardsService.LoadedCard) (next : Option JsString)
      (frame : BoardMutationEnvelope) (broadcast : Broadcast)
      (hphase : s.phase i = .saved loaded next)
      (htype : frame.type = (CardsService.eventForSave (calls i).dto loaded next).type)
      (hpayload : frame.payload = (CardsService.eventForSave (calls i).dto loaded next).payload)
      (hseq : frame.seq = broadcast.redis.seq)
      (hnext : broadcast.redis.seq = s.broadcast.redis.seq + 1)
      (hfrom : ∀ f ∈ broadcast.frames, f = frame ∨ f ∈ s.broadcast.frames) :
      Effect calls boardId s
        { s.goTo i (.numbered loaded next) with
          broadcast := broadcast
          frames := s.frames ++ [(i, frame)] }
  | sends (broadcast : Broadcast) (hseq : broadcast.redis.seq = s.broadcast.redis.seq)
      (hfrom : ∀ f ∈ broadcast.frames, f ∈ s.broadcast.frames) :
      Effect calls boardId s { s with broadcast := broadcast }

theorem effect_of_step {a : MoveStep ι} (hs : s.step calls boardId a = some s') :
    Effect calls boardId s s' := by
  cases a with
  | load i =>
      simp only [step] at hs
      split at hs
      · rename_i hphase
        obtain ⟨loaded, hload, rfl⟩ := Option.map_eq_some_iff.mp hs
        refine .prepares i _ (by rw [hphase]; rfl) rfl fun m hm => ?_
        obtain rfl := Option.some.inj hm
        exact Or.inl (toOption_eq_some.mp hload)
      · cases hs
  | check i =>
      simp only [step] at hs
      split at hs
      · rename_i loaded hphase
        obtain ⟨-, -, rfl⟩ := Option.map_eq_some_iff.mp hs
        refine .prepares i _ (by rw [hphase]; rfl) rfl fun m hm => ?_
        obtain rfl := Option.some.inj hm
        exact Or.inr ⟨none, by rw [hphase]; rfl⟩
      · cases hs
  | place i =>
      simp only [step] at hs
      split at hs
      · rename_i loaded hphase
        obtain ⟨next, -, rfl⟩ := Option.map_eq_some_iff.mp hs
        refine .prepares i _ (by rw [hphase]; rfl) rfl fun m hm => ?_
        obtain rfl := Option.some.inj hm
        exact Or.inr ⟨none, by rw [hphase]; rfl⟩
      · cases hs
  | save i =>
      simp only [step] at hs
      split at hs
      · rename_i loaded next hphase
        obtain ⟨db, hsave, rfl⟩ := Option.map_eq_some_iff.mp hs
        exact .saves i loaded next db hphase (toOption_eq_some.mp hsave)
      · cases hs
  | number i ts =>
      simp only [step] at hs
      split at hs
      · rename_i loaded next hphase
        split at hs
        · obtain ⟨broadcast, hnumber, rfl⟩ := Option.map_eq_some_iff.mp hs
          obtain rfl := Option.some.inj hnumber
          refine .numbers i loaded next _ _ hphase rfl rfl rfl rfl fun f hf => ?_
          simpa [Broadcast.frames, or_comm, or_assoc, or_left_comm] using hf
        · cases hs
      · cases hs
  | append envelope =>
      obtain ⟨broadcast, happend, rfl⟩ := Option.map_eq_some_iff.mp hs
      obtain ⟨hseq, hfrom⟩ := Broadcast.frames_of_append happend
      exact .sends broadcast hseq hfrom
  | publish envelope =>
      obtain ⟨broadcast, hpublish, rfl⟩ := Option.map_eq_some_iff.mp hs
      obtain ⟨hseq, hfrom⟩ := Broadcast.frames_of_publish hpublish
      exact .sends broadcast hseq hfrom

/-! ## What holds along a run -/

/-- Every call is about the card `k`; a frame is the event of a call that committed, in the
order of the numbers; and what the last commit had in memory is stored. -/
structure Inv (calls : ι → UpdateCall) (k : JsString) (s : CardMoves pg ι) : Prop where
  keys : ∀ i loaded next, (s.phase i).memory = some (loaded, next) → loaded.key = k
  committed : ∀ i, i ∈ s.commits ↔ (s.phase i).isCommitted = true
  numbered : ∀ i frame, (i, frame) ∈ s.frames → ∃ loaded next,
    s.phase i = .numbered loaded next ∧
      frame.type = (CardsService.eventForSave (calls i).dto loaded next).type ∧
      frame.payload = (CardsService.eventForSave (calls i).dto loaded next).payload
  ascending : s.frames.Pairwise fun a b => a.2.seq < b.2.seq
  below : ∀ e ∈ s.frames, e.2.seq ≤ s.broadcast.redis.seq
  once : (s.frames.map Prod.fst).Nodup
  known : ∀ frame ∈ s.broadcast.frames, ∃ i, (i, frame) ∈ s.frames
  stored : ∀ i loaded next, s.commits.getLast? = some i →
    (s.phase i).memory = some (loaded, next) →
      ∃ row : Row pg .cards, s.db.find .cards k = some row ∧
        Stores row (CardsService.edited (calls i).dto loaded next)

omit [DecidableEq ι] in
theorem inv_start (calls : ι → UpdateCall) (k : JsString) (db : Database pg)
    (redis : BoardRedis) : (start db redis : CardMoves pg ι).Inv calls k where
  keys _ _ _ h := by cases h
  committed i := by simp [start, UpdatePhase.isCommitted]
  numbered _ _ h := by cases h
  ascending := List.Pairwise.nil
  below _ h := by cases h
  once := List.nodup_nil
  known _ h := by cases h
  stored _ _ _ h := by cases h

section Step

variable {k : JsString} {i : ι} {phase : UpdatePhase} {loaded : CardsService.LoadedCard}
  {next : Option JsString}

/-- A call that comes further with what it has in memory. -/
theorem memory_goTo (h : phase.memory = (s.phase i).memory) (j : ι) :
    ((s.goTo i phase).phase j).memory = (s.phase j).memory := by
  rcases eq_or_ne j i with rfl | hji
  · rw [goTo_phase_self, h]
  · rw [goTo_phase_of_ne _ _ hji]

theorem isCommitted_goTo (h : phase.isCommitted = (s.phase i).isCommitted) (j : ι) :
    ((s.goTo i phase).phase j).isCommitted = (s.phase j).isCommitted := by
  rcases eq_or_ne j i with rfl | hji
  · rw [goTo_phase_self, h]
  · rw [goTo_phase_of_ne _ _ hji]

omit [DecidableEq ι] in
/-- A call that has taken no number has no frame. -/
theorem Inv.ne_of_framed (h : s.Inv calls k)
    (hold : ∀ loaded next, s.phase i ≠ .numbered loaded next) {j : ι}
    {frame : BoardMutationEnvelope} (hframe : (j, frame) ∈ s.frames) : j ≠ i := by
  obtain ⟨loaded, next, hphase, -⟩ := h.numbered j frame hframe
  intro hji
  exact hold loaded next (hji ▸ hphase)

/-- When such a call comes further, the frames stay with their calls. -/
theorem Inv.numbered_goTo (h : s.Inv calls k)
    (hold : ∀ loaded next, s.phase i ≠ .numbered loaded next) {j : ι}
    {frame : BoardMutationEnvelope} (hframe : (j, frame) ∈ s.frames) :
    ∃ loaded next, (s.goTo i phase).phase j = .numbered loaded next ∧
      frame.type = (CardsService.eventForSave (calls j).dto loaded next).type ∧
      frame.payload = (CardsService.eventForSave (calls j).dto loaded next).payload := by
  obtain ⟨loaded, next, hphase, heq⟩ := h.numbered j frame hframe
  exact ⟨loaded, next, (goTo_phase_of_ne _ _ (h.ne_of_framed hold hframe)).trans hphase, heq⟩

/-- A call prepares its save. -/
theorem Inv.prepares (hcalls : ∀ i, pg.uuid (calls i).id = some k) (h : s.Inv calls k)
    (hold : (s.phase i).isCommitted = false) (hnew : phase.isCommitted = false)
    (hmemory : ∀ m, phase.memory = some m →
      CardsService.load s.db (calls i).id (calls i).orgId = .ok m.1 ∨
        ∃ next, (s.phase i).memory = some (m.1, next)) :
    (s.goTo i phase).Inv calls k := by
  refine { h with keys := ?_, committed := ?_, numbered := ?_, stored := ?_ }
  · intro j loaded next hm
    rcases eq_or_ne j i with rfl | hji
    · rw [goTo_phase_self] at hm
      rcases hmemory _ hm with hload | ⟨next', hm'⟩
      · obtain ⟨row, hk, -⟩ := CardsService.load_eq_ok hload
        exact Option.some.inj (hk.symm.trans (hcalls j))
      · exact h.keys j loaded next' hm'
    · rw [goTo_phase_of_ne _ _ hji] at hm
      exact h.keys j loaded next hm
  · intro j
    rw [isCommitted_goTo (hnew.trans hold.symm)]
    exact h.committed j
  · intro j frame hframe
    refine h.numbered_goTo (fun loaded next hphase => ?_) hframe
    rw [hphase] at hold
    cases hold
  · intro j loaded next hlast hm
    have hji : j ≠ i := by
      rintro rfl
      rw [(h.committed j).mp (List.mem_of_getLast? hlast)] at hold
      cases hold
    rw [goTo_phase_of_ne _ _ hji] at hm
    exact h.stored j loaded next hlast hm

/-- A call saves: it is the last that committed, and what it has in memory is stored. -/
theorem Inv.saves (h : s.Inv calls k) {db : Database pg} (hphase : s.phase i = .placed loaded next)
    (hsave : saveEntity s.db .cards loaded.key
      (CardsService.edited (calls i).dto loaded next) = .ok db) :
    { s.goTo i (.saved loaded next) with db := db, commits := s.commits ++ [i] }.Inv calls k := by
  have hkey : loaded.key = k := h.keys i loaded next (by rw [hphase]; rfl)
  have hmemory : ∀ j, ((s.goTo i (.saved loaded next)).phase j).memory = (s.phase j).memory :=
    memory_goTo (by rw [hphase]; rfl)
  refine { h with keys := ?_, committed := ?_, numbered := ?_, stored := ?_ }
  · exact fun j loaded' next' hm => h.keys j loaded' next' (hmemory j ▸ hm)
  · intro j
    show j ∈ s.commits ++ [i] ↔ ((s.goTo i (.saved loaded next)).phase j).isCommitted = true
    rw [List.mem_append, List.mem_singleton]
    rcases eq_or_ne j i with rfl | hji
    · rw [goTo_phase_self]
      exact iff_of_true (Or.inr rfl) rfl
    · rw [goTo_phase_of_ne _ _ hji, ← h.committed j]
      exact or_iff_left hji
  · intro j frame hframe
    refine h.numbered_goTo (fun loaded' next' hphase' => ?_) hframe
    rw [hphase] at hphase'
    cases hphase'
  · intro j loaded' next' hlast hm
    simp only [List.getLast?_append, List.getLast?_singleton, Option.some_or] at hlast
    obtain rfl := Option.some.inj hlast
    have hm' := (hmemory i).symm.trans hm
    rw [hphase] at hm'
    obtain ⟨rfl, rfl⟩ := Prod.mk.inj (Option.some.inj hm')
    obtain ⟨row, rfl, hstores, -⟩ := saveEntity_stores hsave
    refine ⟨row, ?_, hstores⟩
    rw [Database.find_put, if_pos hkey.symm]

/-- A call takes the next number. -/
theorem Inv.numbers (h : s.Inv calls k) {frame : BoardMutationEnvelope} {broadcast : Broadcast}
    (hphase : s.phase i = .saved loaded next)
    (htype : frame.type = (CardsService.eventForSave (calls i).dto loaded next).type)
    (hpayload : frame.payload = (CardsService.eventForSave (calls i).dto loaded next).payload)
    (hseq : frame.seq = broadcast.redis.seq)
    (hnext : broadcast.redis.seq = s.broadcast.redis.seq + 1)
    (hfrom : ∀ f ∈ broadcast.frames, f = frame ∨ f ∈ s.broadcast.frames) :
    { s.goTo i (.numbered loaded next) with
      broadcast := broadcast
      frames := s.frames ++ [(i, frame)] }.Inv calls k := by
  have hmemory : ∀ j, ((s.goTo i (.numbered loaded next)).phase j).memory = (s.phase j).memory :=
    memory_goTo (by rw [hphase]; rfl)
  have hold : ∀ loaded' next', s.phase i ≠ .numbered loaded' next' := by
    intro loaded' next' hphase'
    rw [hphase] at hphase'
    cases hphase'
  constructor
  · exact fun j loaded' next' hm => h.keys j loaded' next' (hmemory j ▸ hm)
  · intro j
    rw [isCommitted_goTo (by rw [hphase]; rfl)]
    exact h.committed j
  · intro j frame' hframe
    rcases List.mem_append.mp hframe with hframe | hframe
    · exact h.numbered_goTo hold hframe
    · obtain ⟨rfl, rfl⟩ := Prod.mk.inj (List.mem_singleton.mp hframe)
      exact ⟨loaded, next, goTo_phase_self s j _, htype, hpayload⟩
  · refine List.pairwise_append.mpr ⟨h.ascending, List.pairwise_singleton _ _, ?_⟩
    intro a ha b hb
    obtain rfl := List.mem_singleton.mp hb
    have hle := h.below a ha
    show a.2.seq < frame.seq
    omega
  · intro e he
    show e.2.seq ≤ broadcast.redis.seq
    rcases List.mem_append.mp he with he | he
    · have hle := h.below e he
      omega
    · obtain rfl := List.mem_singleton.mp he
      exact hseq.le
  · rw [List.map_append, List.nodup_append]
    refine ⟨h.once, List.nodup_singleton _, ?_⟩
    rintro j hj _ hi rfl
    obtain ⟨⟨j', frame'⟩, hmem, rfl⟩ := List.mem_map.mp hj
    exact h.ne_of_framed hold hmem (List.mem_singleton.mp hi)
  · intro f hf
    rcases hfrom f hf with rfl | hf
    · exact ⟨i, List.mem_append_right _ List.mem_cons_self⟩
    · obtain ⟨j, hj⟩ := h.known f hf
      exact ⟨j, List.mem_append_left _ hj⟩
  · intro j loaded' next' hlast hm
    exact h.stored j loaded' next' hlast ((hmemory j).symm.trans hm)

theorem Inv.step (hcalls : ∀ i, pg.uuid (calls i).id = some k) (h : s.Inv calls k)
    (he : Effect calls boardId s s') : s'.Inv calls k := by
  cases he with
  | prepares i phase hold hnew hmemory => exact h.prepares hcalls hold hnew hmemory
  | saves i loaded next db hphase hsave => exact h.saves hphase hsave
  | numbers i loaded next frame broadcast hphase htype hpayload hseq hnext hfrom =>
      exact h.numbers hphase htype hpayload hseq hnext hfrom
  | sends broadcast hseq hfrom =>
      exact { h with
        below := fun e he => (h.below e he).trans_eq hseq.symm
        known := fun frame hframe => h.known frame (hfrom frame hframe) }

end Step

/-! ## The latest frame -/

/-- The event of a call that has committed. -/
def event (calls : ι → UpdateCall) (s : CardMoves pg ι) (i : ι) : Option PendingBoardEvent :=
  (s.phase i).memory.map fun m => CardsService.eventForSave (calls i).dto m.1 m.2

/-- Every call that committed has published its frame. -/
def Quiet (s : CardMoves pg ι) : Prop :=
  ∀ i ∈ s.commits, ∃ frame, (i, frame) ∈ s.frames ∧ frame ∈ s.broadcast.published

/-- The `card.moved` frame of the card `k` with the highest number. -/
structure IsLatest (s : CardMoves pg ι) (k : JsString) (frame : BoardMutationEnvelope) : Prop where
  published : frame ∈ s.broadcast.published
  moved : frame.type = .cardMoved
  card : frame.payload.cardId = some k
  highest : ∀ f ∈ s.broadcast.published, f.type = .cardMoved → f.payload.cardId = some k →
    f.seq ≤ frame.seq

/-- The frame carries the list and the position of a call. -/
def Carries (calls : ι → UpdateCall) (s : CardMoves pg ι) (frame : BoardMutationEnvelope)
    (i : ι) : Prop :=
  (s.event calls i).map (fun e => (some e.listId, e.positionIdx)) =
    some (frame.payload.listId, frame.payload.positionIdx)

/-- Two calls put the card at the same place. -/
def SamePlace (calls : ι → UpdateCall) (s : CardMoves pg ι) (i j : ι) : Prop :=
  (s.event calls i).map (fun e => (e.listId, e.positionIdx)) =
    (s.event calls j).map fun e => (e.listId, e.positionIdx)

/-- The latest frame is the one that took the last number. -/
theorem Inv.latest_eq_last_numbered {k : JsString} (h : s.Inv calls k) (hquiet : s.Quiet)
    (hmoves : ∀ i ∈ s.commits, ∀ e, s.event calls i = some e → e.type = .cardMoved)
    {frame : BoardMutationEnvelope} (hframe : s.IsLatest k frame) :
    ∃ i, s.frames.getLast? = some (i, frame) := by
  obtain ⟨j, hj⟩ := h.known frame (List.mem_append_right _ hframe.published)
  obtain ⟨⟨i, last⟩, hlast⟩ : ∃ e, s.frames.getLast? = some e :=
    Option.isSome_iff_exists.mp (List.getLast?_isSome.mpr (List.ne_nil_of_mem hj))
  refine ⟨i, ?_⟩
  obtain ⟨before, hframes⟩ := List.getLast?_eq_some_iff.mp hlast
  have hmem : (i, last) ∈ s.frames := List.mem_of_getLast? hlast
  obtain ⟨loaded, next, hphase, htype, hpayload⟩ := h.numbered i last hmem
  have hcommitted : i ∈ s.commits := (h.committed i).mpr (by rw [hphase]; rfl)
  have hmemory : (s.phase i).memory = some (loaded, next) := by rw [hphase]; rfl
  have hevent : s.event calls i = some (CardsService.eventForSave (calls i).dto loaded next) := by
    rw [event, hmemory]
    rfl
  -- the last frame is published, and a move of this card
  obtain ⟨last', hmem', hpublished⟩ := hquiet i hcommitted
  have hsame : last' = last := by
    have hnodup := h.once
    have hpair := List.inj_on_of_nodup_map hnodup hmem' hmem rfl
    exact (Prod.mk.inj hpair).2
  rw [hsame] at hpublished
  have hle := hframe.highest last hpublished (htype.trans (hmoves i hcommitted _ hevent)) (by
    rw [hpayload]
    exact congrArg some (h.keys i loaded next hmemory))
  have hascending := h.ascending
  rw [hframes, List.pairwise_append] at hascending
  rw [hframes] at hj
  rcases List.mem_append.mp hj with hbefore | hbefore
  · have hlt := hascending.2.2 _ hbefore _ List.mem_cons_self
    simp only at hlt
    omega
  · obtain ⟨-, rfl⟩ := Prod.mk.inj (List.mem_singleton.mp hbefore)
    exact hlast

end CardMoves

/-- **When the latest frame of a card matches the tables.** After any number of concurrent moves
of one card, all announced, the card is stored as the last commit had it in memory;
and the `card.moved` frame with the highest number carries the list and the position of
that last commit exactly when the move that took the last number puts the card at the
same place. -/
theorem lastFrame_matches_iff {calls : ι → UpdateCall} {boardId k : JsString} {db : Database pg}
    {redis : BoardRedis} {trace : List (CardMoves pg ι × MoveStep ι)} {s : CardMoves pg ι}
    (run : Steps (CardMoves.step calls boardId) (.start db redis) trace s)
    (hcalls : ∀ i, pg.uuid (calls i).id = some k)
    (hmoves : ∀ i ∈ s.commits, ∀ e, s.event calls i = some e → e.type = .cardMoved)
    (hquiet : s.Quiet) {frame : BoardMutationEnvelope} (hframe : s.IsLatest k frame) {last : ι}
    (hlast : s.commits.getLast? = some last) :
    (∃ loaded next, ∃ row : Row pg .cards, (s.phase last).memory = some (loaded, next) ∧
        s.db.find .cards k = some row ∧
        Stores row (CardsService.edited (calls last).dto loaded next)) ∧
      (s.Carries calls frame last ↔
        ∀ e, s.frames.getLast? = some e → s.SamePlace calls e.1 last) := by
  have hinv : s.Inv calls k := run.invariant (CardMoves.inv_start calls k db redis)
    fun _ _ _ h hs => h.step hcalls (CardMoves.effect_of_step hs)
  constructor
  · have hcommitted := (hinv.committed last).mp (List.mem_of_getLast? hlast)
    obtain ⟨⟨loaded, next⟩, hmemory⟩ : ∃ m, (s.phase last).memory = some m := by
      cases hphase : s.phase last <;> simp_all [UpdatePhase.isCommitted, UpdatePhase.memory]
    obtain ⟨row, hfind, hstores⟩ := hinv.stored last loaded next hlast hmemory
    exact ⟨loaded, next, row, hmemory, hfind, hstores⟩
  · obtain ⟨i, hi⟩ := hinv.latest_eq_last_numbered hquiet hmoves hframe
    obtain ⟨loaded, next, hphase, htype, hpayload⟩ :=
      hinv.numbered i frame (List.mem_of_getLast? hi)
    have hevent : s.event calls i =
        some (CardsService.eventForSave (calls i).dto loaded next) := by
      rw [CardMoves.event, hphase]
      rfl
    have hplace : s.Carries calls frame last ↔ s.SamePlace calls i last := by
      rw [CardMoves.Carries, CardMoves.SamePlace, hevent, hpayload]
      cases s.event calls last with
      | none => simp
      | some e => simp [PendingBoardEvent.payload, eq_comm]
    rw [hplace, hi]
    simp

/-! ### Two moves of one card -/

namespace Sample

/-- Two moves of the sample card, to different places of its list. -/
def moves (i : Bool) : UpdateCall where
  id := cardId
  orgId := orgId
  dto :=
    { content := ∅
      content_keys := UpdateCardDto.no_content
      listId := none
      positionIdx := some (if i then js "X" else js "C")
      beforeCardId := none
      afterCardId := none }

/-- The frame of a move. -/
def moveFrame (i : Bool) (seq : Nat) : BoardMutationEnvelope where
  seq := seq
  boardId := boardId
  type := .cardMoved
  payload :=
    { cardId := some cardId
      listId := some listId
      positionIdx := some (if i then js "X" else js "C") }
  ts := 0

/-- One after the other, the first move saves first; `first` takes number 1. -/
def moving (first : Bool) : List (MoveStep Bool) :=
  [.load false, .load true, .check false, .check true, .place false, .place true, .save false,
    .save true, .number first 0, .number (!first) 0, .append (moveFrame first 1),
    .append (moveFrame (!first) 2), .publish (moveFrame first 1), .publish (moveFrame (!first) 2)]

def unmoved : CardMoves Postgres.plain Bool := .start (oneCard card) .empty

/-- The event of a move. -/
def moveEvent (i : Bool) : PendingBoardEvent where
  type := .cardMoved
  boardId := boardId
  cardId := some cardId
  listId := listId
  positionIdx := some (if i then js "X" else js "C")

set_option synthInstance.maxSize 256 in
theorem moving_run (first : Bool) :
    ∃ s, (moving first).foldlM (CardMoves.step moves boardId) unmoved = some s ∧
      s.commits = [false, true] ∧
      s.frames = [(first, moveFrame first 1), (!first, moveFrame (!first) 2)] ∧
      s.broadcast.published = [moveFrame first 1, moveFrame (!first) 2] ∧
      s.event moves false = some (moveEvent false) ∧
      s.event moves true = some (moveEvent true) := by
  have hrun : ((moving first).foldlM (CardMoves.step moves boardId) unmoved).map
      (fun s => (s.commits, s.frames, s.broadcast.published, s.event moves false,
        s.event moves true)) =
      some ([false, true], [(first, moveFrame first 1), (!first, moveFrame (!first) 2)],
        [moveFrame first 1, moveFrame (!first) 2], some (moveEvent false),
        some (moveEvent true)) := by
    cases first <;> decide
  obtain ⟨s, hs, hfields⟩ := Option.map_eq_some_iff.mp hrun
  simp only [Prod.mk.injEq] at hfields
  exact ⟨s, hs, hfields⟩

/-- After both moves the frame with number 2 is the latest. -/
theorem moving_latest {s : CardMoves Postgres.plain Bool} {first : Bool}
    (hframes : s.frames = [(first, moveFrame first 1), (!first, moveFrame (!first) 2)])
    (hpublished : s.broadcast.published = [moveFrame first 1, moveFrame (!first) 2]) :
    s.Quiet ∧ s.IsLatest cardId (moveFrame (!first) 2) := by
  constructor
  · intro i _
    rw [hframes, hpublished]
    cases i <;> cases first <;> simp
  · refine ⟨by simp [hpublished], rfl, rfl, ?_⟩
    rw [hpublished]
    simp [moveFrame]

theorem moving_moves {s : CardMoves Postgres.plain Bool}
    (hfalse : s.event moves false = some (moveEvent false))
    (htrue : s.event moves true = some (moveEvent true)) :
    ∀ i ∈ s.commits, ∀ e, s.event moves i = some e → e.type = .cardMoved := by
  intro i _ e he
  cases i with
  | false =>
      rw [hfalse] at he
      obtain rfl := Option.some.inj he
      rfl
  | true =>
      rw [htrue] at he
      obtain rfl := Option.some.inj he
      rfl

end Sample

/-- Two moves that take their numbers in the order they commit. -/
theorem moving_inOrder :
    ∃ trace s, Steps (CardMoves.step Sample.moves Sample.boardId) Sample.unmoved trace s ∧
      s.IsLatest Sample.cardId (Sample.moveFrame true 2) ∧ s.commits.getLast? = some true ∧
      s.Carries Sample.moves (Sample.moveFrame true 2) true := by
  obtain ⟨s, hs, hcommits, hframes, hpublished, hfalse, htrue⟩ := Sample.moving_run false
  obtain ⟨hquiet, hlatest⟩ := Sample.moving_latest hframes hpublished
  have hlast : s.commits.getLast? = some true := by rw [hcommits]; rfl
  have hrun := Steps.of_actions hs
  have hiff := (lastFrame_matches_iff hrun (fun i => by cases i <;> rfl)
    (Sample.moving_moves hfalse htrue) hquiet hlatest hlast).2
  refine ⟨_, s, hrun, hlatest, hlast, hiff.mpr ?_⟩
  rw [hframes]
  simp [CardMoves.SamePlace]

/-- Two moves that take their numbers the other way round: the latest frame carries the place
of the first commit. -/
theorem moving_outOfOrder :
    ∃ trace s, Steps (CardMoves.step Sample.moves Sample.boardId) Sample.unmoved trace s ∧
      s.Quiet ∧ s.IsLatest Sample.cardId (Sample.moveFrame false 2) ∧
      s.commits.getLast? = some true ∧
      ¬ s.Carries Sample.moves (Sample.moveFrame false 2) true := by
  obtain ⟨s, hs, hcommits, hframes, hpublished, hfalse, htrue⟩ := Sample.moving_run true
  obtain ⟨hquiet, hlatest⟩ := Sample.moving_latest hframes hpublished
  refine ⟨_, s, Steps.of_actions hs, hquiet, hlatest, by rw [hcommits]; rfl, ?_⟩
  rw [CardMoves.Carries, htrue]
  decide

end FlowLogix.Server
