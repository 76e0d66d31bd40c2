/-
  Web/MoveTokens.lean --- which move of a card may settle
  (frontend/src/store/useBoardStore.ts).

  Each move of a card, and each peer's move or deletion of it, counts up the card's
  token, and a move's completion goes ahead if the token is still the one the move was
  issued with.  While no snapshot is loaded a token only grows, so a completion that
  goes ahead is that of the latest move.  `hydrateBoard` forgets the tokens and they
  start over: a move issued before it finds its token again once the card was moved as
  often after the snapshot as it had been before the move.
-/
import FlowLogix.Web.WebBoard
import FlowLogix.Foundation.Steps

set_option autoImplicit false

namespace FlowLogix.Web

open FlowLogix.Foundation FlowLogix.Server

/-! ## What a token counts -/

/-- A later move of a card, or a peer's move or deletion of it. -/
def Action.moves (cardId : Id) : Action → Bool
  | .moveCard moved _ _ _ => moved = cardId
  | .applyRemoteMutation envelope => BoardStore.overruled envelope = some cardId
  | _ => false

/-- A snapshot replaces the board. -/
def Action.reloads : Action → Bool
  | .hydrateBoard _ => true
  | _ => false

/-- The card's token after an action. -/
def Action.token (cardId : Id) (token : Nat) (action : Action) : Nat :=
  if action.reloads then 0 else if action.moves cardId then token + 1 else token

theorem Action.token_of_reloads {action : Action} (h : action.reloads = false) (cardId : Id)
    (token : Nat) :
    action.token cardId token = if action.moves cardId then token + 1 else token := by
  simp [Action.token, h]

namespace InFlight

/-- What the token of the move's card has come to since the move was issued. -/
def token (f : InFlight) : Nat := f.since.foldl (Action.token f.move.cardId) f.move.version

/-- A snapshot was loaded since the move was issued, and the card's token, which
started over then, has come to the move's own. -/
def recycled (f : InFlight) : Prop :=
  (∃ action ∈ f.since, action.reloads = true) ∧ f.token = f.move.version

/-- Nothing has overtaken the move since it was issued. -/
def isLatest (f : InFlight) : Prop :=
  ∀ action ∈ f.since, action.moves f.move.cardId = false ∧ action.reloads = false

/-- Without a snapshot a token only grows. -/
theorem le_foldl_token (cardId : Id) (actions : List Action) (n : Nat)
    (h : ∀ action ∈ actions, action.reloads = false) :
    n ≤ actions.foldl (Action.token cardId) n := by
  induction actions generalizing n with
  | nil => simp
  | cons action rest ih =>
      have hrest := ih (action.token cardId n) fun a ha => h a (List.mem_cons_of_mem _ ha)
      rw [Action.token_of_reloads (h action List.mem_cons_self)] at hrest
      rw [List.foldl_cons, Action.token_of_reloads (h action List.mem_cons_self)]
      split at hrest <;> rename_i hmoves <;> simp only [hmoves] <;> simp <;> omega

/-- A token that is back at its start without a snapshot was never counted up. -/
theorem moves_eq_false_of_foldl_token {cardId : Id} {actions : List Action} {n : Nat}
    (h : ∀ action ∈ actions, action.reloads = false)
    (heq : actions.foldl (Action.token cardId) n = n) :
    ∀ action ∈ actions, action.moves cardId = false := by
  induction actions with
  | nil => simp
  | cons action rest ih =>
      have hrest : ∀ a ∈ rest, a.reloads = false := fun a ha => h a (List.mem_cons_of_mem _ ha)
      rw [List.foldl_cons, Action.token_of_reloads (h action List.mem_cons_self)] at heq
      cases hmoves : action.moves cardId with
      | true =>
          have hle := le_foldl_token cardId rest (n + 1) hrest
          simp only [hmoves, if_true] at heq
          omega
      | false => simpa [hmoves] using ih hrest (by simpa [hmoves] using heq)

/-- A move whose token is back at its own was not overtaken, unless it is recycled. -/
theorem isLatest_of_token {f : InFlight} (h : f.token = f.move.version) (hfresh : ¬f.recycled) :
    f.isLatest := by
  have hreloads : ∀ action ∈ f.since, action.reloads = false := by
    intro action hmem
    by_contra hreload
    exact hfresh ⟨⟨action, hmem, by simpa using hreload⟩, h⟩
  have hmoves := moves_eq_false_of_foldl_token hreloads h
  exact fun action hmem => ⟨hmoves action hmem, hreloads action hmem⟩

end InFlight

/-! ## What one step does to the tokens -/

namespace BoardStore

variable (store : BoardStore)

@[simp] theorem moveVersion_hydrateBoard (snapshot : BoardState) (cardId : Id) :
    (hydrateBoard snapshot).moveVersion cardId = 0 := by
  simp [hydrateBoard, moveVersion]

theorem moveVersion_bump (moved cardId : Id) :
    (store.bump moved).moveVersion cardId =
      if moved = cardId then store.moveVersion cardId + 1 else store.moveVersion cardId := by
  simp only [bump, moveVersion, Dict.lookup_insert_eq, eq_comm (a := cardId)]
  split
  · rename_i h
    subst h
    rfl
  · rfl

/-- The tokens of two stores with the same counters. -/
theorem moveVersion_congr {store store' : BoardStore} (h : store'.moveVersions = store.moveVersions)
    (cardId : Id) : store'.moveVersion cardId = store.moveVersion cardId := by
  rw [moveVersion, moveVersion, h]

@[simp] theorem moveVersions_showMove (cardId fromListId toListId : Id) (toIndex : Int) :
    (store.showMove cardId fromListId toListId toIndex).moveVersions = store.moveVersions := by
  unfold showMove
  split
  · split <;> rfl
  · rfl

@[simp] theorem moveVersions_patched (patch : ReconcilePatch) :
    (store.patched patch).moveVersions = store.moveVersions := by
  cases patch <;> rfl

@[simp] theorem moveVersions_toggleChecklistItem (cardId itemId : Id) :
    (store.toggleChecklistItem cardId itemId).moveVersions = store.moveVersions := by
  unfold toggleChecklistItem
  split <;> rfl

theorem moveVersion_applyRemoteMutation (envelope : BoardMutationEnvelope) (cardId : Id) :
    (store.applyRemoteMutation envelope).moveVersion cardId =
      if overruled envelope = some cardId then store.moveVersion cardId + 1
      else store.moveVersion cardId := by
  have hpatched := moveVersion_congr
    (moveVersions_patched store (reconcileRemoteMutation store.toBoardState envelope)) cardId
  unfold applyRemoteMutation
  cases overruled envelope with
  | none => simpa using hpatched
  | some moved => simp [moveVersion_bump, hpatched]

end BoardStore

@[simp] theorem PendingCard.moveVersions_settle (pending : PendingCard) (store : BoardStore)
    (outcome : CreateOutcome) :
    (pending.settle store outcome).moveVersions = store.moveVersions := by
  cases outcome <;> rfl

@[simp] theorem PendingMove.moveVersions_settle (pending : PendingMove) (store : BoardStore)
    (outcome : MoveOutcome) : (pending.settle store outcome).moveVersions = store.moveVersions := by
  cases outcome with
  | resolved positionIdx =>
      cases positionIdx with
      | none => rfl
      | some key =>
          simp only [settle]
          split <;> rfl
  | rejected message =>
      simp only [settle, rollback]
      split
      · split <;> rfl
      · rfl

/-! ## The tokens of the pending moves -/

namespace WebBoard

/-- The actions a pending move keeps are counted in its card's token. -/
def TokensCount (w : WebBoard) : Prop :=
  ∀ f ∈ w.moves, w.store.moveVersion f.move.cardId = f.token

@[simp] theorem after_store (w : WebBoard) (action : Action) (store : BoardStore) :
    (w.after action store).store = store :=
  rfl

/-- What a recorded action does to the tokens keeps the count. -/
theorem TokensCount.after {w : WebBoard} {action : Action} {store : BoardStore}
    (hw : w.TokensCount)
    (h : ∀ cardId, store.moveVersion cardId = action.token cardId (w.store.moveVersion cardId)) :
    (w.after action store).TokensCount := by
  intro f hf
  obtain ⟨f, hmem, rfl⟩ := List.mem_map.mp hf
  have hcount := hw f hmem
  calc store.moveVersion f.move.cardId
      = action.token f.move.cardId (w.store.moveVersion f.move.cardId) := h _
    _ = action.token f.move.cardId f.token := by rw [hcount]
    _ = (f.since ++ [action]).foldl (Action.token f.move.cardId) f.move.version := by
        simp [InFlight.token, List.foldl_append]

/-- An action that leaves every token keeps the count. -/
theorem TokensCount.after_of_eq {w : WebBoard} {action : Action} {store : BoardStore}
    (hw : w.TokensCount) (haction : ∀ cardId n, action.token cardId n = n)
    (h : store.moveVersions = w.store.moveVersions) : (w.after action store).TokensCount :=
  hw.after fun cardId => by rw [haction, BoardStore.moveVersion_congr h]

/-- A move is issued with the next token of its card. -/
theorem TokensCount.moveCard {w w' : WebBoard} {cardId fromListId toListId : Id} {toIndex : Int}
    (hw : w.TokensCount)
    (h : w.step (.moveCard cardId fromListId toListId toIndex) = some w') : w'.TokensCount := by
  simp only [step, BoardStore.moveCard] at h
  split at h
  · obtain rfl := Option.some.inj h
    exact hw
  · rename_i store move hmove
    obtain rfl := Option.some.inj h
    split at hmove
    · cases hmove
      have hversion : ∀ c, ((w.store.bump cardId).showMove cardId fromListId toListId
          toIndex).moveVersion c = (w.store.bump cardId).moveVersion c :=
        BoardStore.moveVersion_congr (by simp)
      intro f hf
      rcases List.mem_append.mp hf with hf | hf
      · refine hw.after (fun c => ?_) f hf
        rw [after_store, hversion, BoardStore.moveVersion_bump]
        simp [Action.token, Action.reloads, Action.moves]
      · obtain rfl := List.mem_singleton.mp hf
        simp [hversion, BoardStore.moveVersion_bump, InFlight.token]
    · cases hmove

/-- Every step keeps the count. -/
theorem TokensCount.step {w w' : WebBoard} {action : Action} (hw : w.TokensCount)
    (h : w.step action = some w') : w'.TokensCount := by
  cases action with
  | moveCard cardId fromListId toListId toIndex => exact hw.moveCard h
  | settleMove i outcome =>
      obtain ⟨f, -, rfl⟩ := Option.map_eq_some_iff.mp h
      have hleft : WebBoard.TokensCount { w with moves := w.moves.eraseIdx i } :=
        fun g hg => hw g (List.mem_of_mem_eraseIdx hg)
      exact hleft.after_of_eq (fun _ _ => rfl) (by simp)
  | addCard apiMode listId title id =>
      obtain rfl := Option.some.inj h
      simp only [WebBoard.addCard]
      have hshown : ∀ store : BoardStore, store.moveVersions = w.store.moveVersions →
          (w.after (.addCard apiMode listId title id) store).TokensCount :=
        fun store => hw.after_of_eq fun _ _ => rfl
      split
      · exact hw
      · split
        · exact hshown _ rfl
        · exact hshown _ rfl
  | settleCard i outcome =>
      obtain ⟨pending, -, rfl⟩ := Option.map_eq_some_iff.mp h
      have hleft : WebBoard.TokensCount { w with creations := w.creations.eraseIdx i } := hw
      exact hleft.after_of_eq (fun _ _ => rfl) (by simp)
  | toggleChecklistItem cardId itemId =>
      obtain rfl := Option.some.inj h
      exact hw.after_of_eq (fun _ _ => rfl) (by simp)
  | applyRemoteMutation envelope =>
      obtain rfl := Option.some.inj h
      refine hw.after fun cardId => ?_
      rw [BoardStore.moveVersion_applyRemoteMutation]
      simp [Action.token, Action.reloads, Action.moves]
  | hydrateBoard snapshot =>
      obtain rfl := Option.some.inj h
      refine hw.after fun cardId => ?_
      simp [Action.token, Action.reloads]

/-! ## Settling -/

/-- A completion that changes lists or cards goes ahead by the move's token. -/
theorem moveVersion_of_settle {move : PendingMove} {store : BoardStore} {outcome : MoveOutcome}
    (h : (move.settle store outcome).toBoardState ≠ store.toBoardState) :
    store.moveVersion move.cardId = move.version := by
  have hlatest : move.latest store ≠ none := by
    intro hnone
    apply h
    cases outcome with
    | resolved positionIdx => cases positionIdx <;> simp [PendingMove.settle, hnone]
    | rejected message => simp [PendingMove.settle, hnone]
  unfold PendingMove.latest at hlatest
  split at hlatest
  · rename_i hversion
    simp [BoardStore.moveVersion, hversion]
  · exact absurd rfl hlatest

/-- If the step settles a move and changes lists or cards, nothing has overtaken the
move. -/
def SettlesLatest (w : WebBoard) : Action → Prop
  | .settleMove i outcome =>
      ∀ f, w.moves[i]? = some f →
        (f.move.settle w.store outcome).toBoardState ≠ w.store.toBoardState → f.isLatest
  | _ => True

/-- The step settles a move that is recycled. -/
def SettlesRecycled (w : WebBoard) : Action → Prop
  | .settleMove i _ => ∃ f, w.moves[i]? = some f ∧ f.recycled
  | _ => False

/-- In every run the pending moves are counted. -/
theorem tokensCount_of_run {snapshot : BoardState} {trace : List (WebBoard × Action)}
    {w : WebBoard} (run : Steps step (loaded snapshot) trace w) : w.TokensCount := by
  refine run.invariant ?_ fun w action w' hw h => hw.step h
  intro f hf
  simp [loaded] at hf

/-- In every run, a completion that changes lists or cards is that of a move nothing
has overtaken, or of a recycled one. -/
theorem settles_latest {snapshot : BoardState} {trace : List (WebBoard × Action)} {w : WebBoard}
    (run : Steps step (loaded snapshot) trace w) :
    ∀ e ∈ trace, ¬e.1.SettlesRecycled e.2 → e.1.SettlesLatest e.2 := by
  rintro ⟨w, action⟩ he hfresh
  obtain ⟨before, hrun⟩ := run.reached he
  cases action with
  | settleMove i outcome =>
      intro f hf hchanges
      have htoken : f.token = f.move.version := by
        rw [← tokensCount_of_run hrun f (List.mem_of_getElem? hf), moveVersion_of_settle hchanges]
      exact InFlight.isLatest_of_token htoken fun hrecycled => hfresh ⟨f, hf, hrecycled⟩
  | _ => trivial

/-! ## A token that comes back -/

section Reloading

/-- A board with one card. -/
def oneCard : BoardState where
  lists := [{ id := js "l1", title := js "To do", cardIds := [js "c1"] },
    { id := js "l2", title := js "Done", cardIds := [] }]
  cards := AList.singleton (js "c1") (BoardStore.newCard (js "c1") (js "Ship it"))

/-- The card is dragged to the other list. -/
def drag : Action := .moveCard (js "c1") (js "l1") (js "l2") 0

/-- The first move settles: it failed. -/
def fail : Action := .settleMove 0 (.rejected (js "Move failed"))

/-- Of the first pending move: whether a snapshot was loaded since it was issued, and
whether its failure changes the lists. -/
def firstMove (w : WebBoard) : Option (Bool × Bool) :=
  w.moves[0]?.map fun f =>
    (f.since.any Action.reloads,
      (f.move.settle w.store (.rejected (js "Move failed"))).lists ≠ w.store.lists)

/-- The card is dragged, the board is loaded again as it was before, and the card is
dragged once more: when the first move fails now, it is the second that is undone. -/
theorem reload_recycles :
    ∃ trace w, Steps step (loaded oneCard) trace w ∧ ∃ e ∈ trace, ¬e.1.SettlesLatest e.2 := by
  have hrun : ([drag, .hydrateBoard oneCard, drag].foldlM step (loaded oneCard)).map firstMove =
      some (some (true, true)) := by
    decide
  obtain ⟨w, hw, hseen⟩ := Option.map_eq_some_iff.mp hrun
  obtain ⟨f, hf, hseen⟩ := Option.map_eq_some_iff.mp hseen
  simp only [Prod.mk.injEq, decide_eq_true_eq] at hseen
  obtain ⟨hreload, hlists⟩ := hseen
  have hnext : w.step fail = some _ := congrArg (Option.map _) hf
  refine ⟨_, _, (Steps.of_actions hw).next hnext, (w, fail), by simp, fun hlatest => ?_⟩
  obtain ⟨action, hmem, hreloads⟩ := List.any_eq_true.mp hreload
  have hchanges := hlatest f hf (fun heq => hlists (congrArg BoardState.lists heq)) action hmem
  rw [hreloads] at hchanges
  cases hchanges.2

/-- A move that fails with nothing in between is undone. -/
theorem drag_settlesLatest :
    ∃ w, (loaded oneCard).step drag = some w ∧ w.SettlesLatest fail ∧
      firstMove w = some (false, true) := by
  have hrun : ([drag].foldlM step (loaded oneCard)).map firstMove = some (some (false, true)) := by
    decide
  obtain ⟨w, hw, hfirst⟩ := Option.map_eq_some_iff.mp hrun
  obtain ⟨f, hf, hseen⟩ := Option.map_eq_some_iff.mp hfirst
  have hnext : w.step fail = some _ := congrArg (Option.map _) hf
  refine ⟨w, by simpa using hw, settles_latest ((Steps.of_actions hw).next hnext) (w, fail)
    (by simp) ?_, hfirst⟩
  rintro ⟨g, hg, ⟨action, hmem, hreloads⟩, -⟩
  obtain rfl := Option.some.inj (hf.symm.trans hg)
  have hreload := List.any_eq_true.mpr ⟨action, hmem, hreloads⟩
  simp [hreload] at hseen

end Reloading

end WebBoard

end FlowLogix.Web
