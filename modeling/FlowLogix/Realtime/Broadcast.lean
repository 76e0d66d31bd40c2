/-
  Realtime/Broadcast.lean --- the frames of one board on their way to the clients
  (backend/src/realtime/board-events.service.ts).

  `BoardEventsService.emit` takes a number, appends the frame to the replay log and
  publishes it, three commands to Redis with nothing to tie them together.
  `Broadcast` is Redis and the frames that are between these commands, and a step is
  one command of one emit; emits of any number of writers interleave freely.

  A number is taken by one frame.  So the numbers up to the counter are those of the
  frames that are numbered and not yet logged, and of those that were logged
  (`Broadcast.Inv`), and a number missing between two logged ones is still to be
  appended (`exists_numbered_of_hole`).
-/
import FlowLogix.Realtime.ReplayLog

set_option autoImplicit false

namespace FlowLogix.Realtime

open FlowLogix.Foundation FlowLogix.Server

/-- Redis, and the emits of one board. -/
structure Broadcast where
  redis : BoardRedis
  /-- frames whose number was taken, not yet in the log -/
  numbered : List BoardMutationEnvelope
  /-- the frames appended to the log so far, in order -/
  appended : List BoardMutationEnvelope
  /-- the frames published so far, in order -/
  published : List BoardMutationEnvelope

/-- A command of one emit. -/
inductive EmitStep where
  | number (type : BoardMutationType) (payload : BoardMutationPayload) (ts : Nat)
  | append (envelope : BoardMutationEnvelope)
  | publish (envelope : BoardMutationEnvelope)

namespace Broadcast

/-- Nothing was emitted on the board yet. -/
def empty : Broadcast where
  redis := .empty
  numbered := []
  appended := []
  published := []

/-- One command of one emit on the board. -/
def step (boardId : JsString) (b : Broadcast) : EmitStep → Option Broadcast
  | .number type payload ts =>
      let redis := b.redis.nextSequence
      some { b with
        redis := redis
        numbered := b.numbered ++
          [{ seq := redis.seq, boardId := boardId, type := type, payload := payload, ts := ts }] }
  | .append envelope =>
      if envelope ∈ b.numbered then
        some { b with
          redis := b.redis.appendToReplayLog envelope
          numbered := b.numbered.erase envelope
          appended := b.appended ++ [envelope] }
      else none
  | .publish envelope =>
      if envelope ∈ b.appended ∧ envelope ∉ b.published then
        some { b with published := b.published ++ [envelope] }
      else none

/-- The frames of the board, wherever they are. -/
def frames (b : Broadcast) : List BoardMutationEnvelope := b.numbered ++ b.appended ++ b.published

/-- An append makes no frame. -/
theorem frames_of_append {b b' : Broadcast} {boardId : JsString} {envelope : BoardMutationEnvelope}
    (h : b.step boardId (.append envelope) = some b') :
    b'.redis.seq = b.redis.seq ∧ ∀ f ∈ b'.frames, f ∈ b.frames := by
  simp only [step] at h
  split at h
  · rename_i hmem
    obtain rfl := Option.some.inj h
    refine ⟨rfl, fun f hf => ?_⟩
    simp only [frames, List.mem_append, List.mem_singleton] at hf ⊢
    rcases hf with (hf | hf | rfl) | hf
    · exact Or.inl (Or.inl (List.mem_of_mem_erase hf))
    · exact Or.inl (Or.inr hf)
    · exact Or.inl (Or.inl hmem)
    · exact Or.inr hf
  · cases h

/-- A publication makes no frame. -/
theorem frames_of_publish {b b' : Broadcast} {boardId : JsString}
    {envelope : BoardMutationEnvelope} (h : b.step boardId (.publish envelope) = some b') :
    b'.redis.seq = b.redis.seq ∧ ∀ f ∈ b'.frames, f ∈ b.frames := by
  simp only [step] at h
  split at h
  · rename_i hmem
    obtain rfl := Option.some.inj h
    refine ⟨rfl, fun f hf => ?_⟩
    simp only [frames, List.mem_append, List.mem_singleton] at hf ⊢
    rcases hf with hf | hf | rfl
    · exact Or.inl hf
    · exact Or.inr hf
    · exact Or.inl (Or.inr hmem.1)
  · cases h

/-! ## Where the numbers are -/

/-- The log holds what was appended, and each number up to the counter was taken by one
frame. -/
structure Inv (b : Broadcast) : Prop where
  logs : b.redis.Logs b.appended
  numbers : ((b.numbered ++ b.appended).map BoardMutationEnvelope.seq).Perm
    (List.range' 1 b.redis.seq)

theorem inv_empty : empty.Inv where
  logs := BoardRedis.logs_empty
  numbers := List.Perm.refl _

theorem Inv.nodup {b : Broadcast} (h : b.Inv) :
    ((b.numbered ++ b.appended).map BoardMutationEnvelope.seq).Nodup :=
  h.numbers.nodup_iff.mpr List.nodup_range'

theorem Inv.step {b b' : Broadcast} (h : b.Inv) {boardId : JsString} {s : EmitStep}
    (hs : b.step boardId s = some b') : b'.Inv := by
  cases s with
  | number type payload ts =>
      obtain rfl := Option.some.inj hs
      refine ⟨h.logs, ?_⟩
      have hnumbers := h.numbers.append_right [b.redis.seq + 1]
      simp only [BoardRedis.seq_nextSequence, List.range'_concat]
      refine List.Perm.trans ?_ (hnumbers.trans (by simp [Nat.add_comm]))
      simp only [List.map_append, List.append_assoc]
      exact List.perm_append_comm.append_left _
  | append envelope =>
      simp only [Broadcast.step] at hs
      split at hs
      · rename_i hmem
        obtain rfl := Option.some.inj hs
        have hperm : (b.numbered.erase envelope ++ (b.appended ++ [envelope])).Perm
            (b.numbered ++ b.appended) := by
          refine List.Perm.trans ?_ ((List.perm_cons_erase hmem).symm.append_right _)
          rw [← List.append_assoc]
          exact List.perm_append_singleton _ _
        refine ⟨h.logs.appendToReplayLog ?_, (hperm.map _).trans h.numbers⟩
        intro happended
        have hnodup := (List.Nodup.of_map _ h.nodup)
        exact (List.nodup_append.mp hnodup).2.2 envelope hmem envelope happended rfl
      · cases hs
  | publish envelope =>
      simp only [Broadcast.step] at hs
      split at hs
      · obtain rfl := Option.some.inj hs
        exact ⟨h.logs, h.numbers⟩
      · cases hs

/-! ## Reading the log -/

/-- A log read is in strictly ascending order. -/
theorem Inv.missed_ascending {b : Broadcast} (h : b.Inv) (afterSeq : Nat) :
    (b.redis.getMissedEvents afterSeq).Pairwise fun e e' => e.seq < e'.seq := by
  refine h.logs.missed_ascending ?_ afterSeq
  have hnodup := h.nodup
  rw [List.map_append] at hnodup
  exact (List.nodup_append.mp hnodup).2.1

/-- A number missing from a log read between two of its frames is one whose frame was not
appended yet. -/
theorem Inv.exists_numbered_of_hole {b : Broadcast} (h : b.Inv) {afterSeq hole : Nat}
    {low high : BoardMutationEnvelope} (hlow : low ∈ b.redis.getMissedEvents afterSeq)
    (hhigh : high ∈ b.redis.getMissedEvents afterSeq) (hl : low.seq < hole) (hh : hole < high.seq)
    (hhole : hole ∉ (b.redis.getMissedEvents afterSeq).map BoardMutationEnvelope.seq) :
    ∃ envelope ∈ b.numbered, envelope.seq = hole := by
  obtain ⟨hafter, hlowLogged⟩ := h.logs.mem_getMissedEvents.mp hlow
  have hseq : ∀ envelope ∈ b.numbered ++ b.appended,
      1 ≤ envelope.seq ∧ envelope.seq < 1 + b.redis.seq := fun envelope hmem =>
    List.mem_range'_1.mp (h.numbers.mem_iff.mp (List.mem_map_of_mem hmem))
  have hbound := hseq high (List.mem_append_right _
    (h.logs.mem_appended (h.logs.mem_getMissedEvents.mp hhigh).2).1)
  obtain ⟨envelope, hmem, henvelope⟩ := List.mem_map.mp
    (h.numbers.mem_iff.mpr
      (List.mem_range'_1.mpr (show 1 ≤ hole ∧ hole < 1 + b.redis.seq by omega)))
  rcases List.mem_append.mp hmem with hnumbered | happended
  · exact ⟨envelope, hnumbered, henvelope⟩
  · -- an appended frame above a logged one would have been read
    exfalso
    apply hhole
    rw [← henvelope]
    apply List.mem_map_of_mem
    refine h.logs.mem_getMissedEvents.mpr ⟨by omega, ?_⟩
    exact h.logs.mem_entries_of_lt hlowLogged happended (by omega)

end Broadcast

end FlowLogix.Realtime
