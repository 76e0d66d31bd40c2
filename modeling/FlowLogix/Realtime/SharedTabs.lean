/-
  Realtime/SharedTabs.lean --- two tabs on one board.

  Two managers of one board in two tabs of a browser share the store, and with it
  the number of the last applied frame, while each has its own listeners.  When
  the same frames are delivered to both, the tab that handles a frame first writes
  its number, and the other one then drops it as a duplicate.  Every frame is
  handed over in exactly one of the tabs.
-/
import FlowLogix.Realtime.BoardSocketManager

set_option autoImplicit false

namespace FlowLogix.Realtime

open FlowLogix.Foundation FlowLogix.Server

/-- The tabs. -/
inductive Tab where
  | first
  | second
  deriving DecidableEq, Repr

def Tab.other : Tab → Tab
  | .first => .second
  | .second => .first

@[simp] theorem Tab.other_other (tab : Tab) : tab.other.other = tab := by
  cases tab <;> rfl

theorem Tab.other_ne (tab : Tab) : tab.other ≠ tab := by
  cases tab <;> simp [Tab.other]

theorem Tab.eq_or_eq_other (tab tab' : Tab) : tab = tab' ∨ tab' = tab.other := by
  cases tab <;> cases tab' <;> simp [Tab.other]

/-- The frame a tab is delivered next. -/
structure Delivery where
  tab : Tab
  envelope : BoardMutationEnvelope

/-- The shared store, and the effects of each tab. -/
structure Tabs where
  store : KeyValueStore
  effects : Tab → List Effect

/-- Neither tab has done anything yet. -/
def Tabs.opened (store : KeyValueStore) : Tabs where
  store := store
  effects := fun _ => []

/-- One tab handles a `board:mutation`. -/
def Tabs.deliver (manager : BoardSocketManager) (tabs : Tabs) (delivery : Delivery) : Tabs :=
  let handled := manager.handleIncoming tabs.store delivery.envelope
  { store := handled.store
    effects := Function.update tabs.effects delivery.tab
      (tabs.effects delivery.tab ++ handled.effects) }

/-- The frames delivered to one tab, in order. -/
def deliveredTo (tab : Tab) (deliveries : List Delivery) : List BoardMutationEnvelope :=
  (deliveries.filter fun d => d.tab = tab).map Delivery.envelope

/-- The tab handed every frame to its listeners exactly once, or signalled that the board
has to be reloaded. -/
def Tabs.Sees (tabs : Tabs) (tab : Tab) (frames : List BoardMutationEnvelope) : Prop :=
  (∀ envelope ∈ frames, (handed (tabs.effects tab)).count envelope = 1) ∨
    Effect.needsResync ∈ tabs.effects tab

instance (tabs : Tabs) (tab : Tab) (frames : List BoardMutationEnvelope) :
    Decidable (tabs.Sees tab frames) :=
  inferInstanceAs (Decidable (_ ∨ _))

theorem deliveredTo_concat (tab : Tab) (deliveries : List Delivery) (delivery : Delivery) :
    deliveredTo tab (deliveries ++ [delivery]) =
      if delivery.tab = tab then deliveredTo tab deliveries ++ [delivery.envelope]
      else deliveredTo tab deliveries := by
  rw [deliveredTo, List.filter_append, List.map_append]
  split
  · rename_i h
    simp [h, deliveredTo]
  · rename_i h
    simp [h, deliveredTo]

/-! ## What the tabs have handed over -/

variable {manager : BoardSocketManager} {store : KeyValueStore}
variable {frames : List BoardMutationEnvelope}

/-- Between them the tabs have handed over the frames up to the shared number, which is
that of the last frame delivered to either. -/
structure Tabs.Shares (tabs : Tabs) (manager : BoardSocketManager) (lastSeq : Nat)
    (frames : List BoardMutationEnvelope) (count : Tab → Nat) : Prop where
  last : ∀ tab, manager.getLastSeq tabs.store = lastSeq + max (count tab) (count tab.other)
  shared : ∀ tab, (handed (tabs.effects tab) ++ handed (tabs.effects tab.other)).Perm
    (frames.take (max (count tab) (count tab.other)))
  quiet : ∀ tab, Effect.needsResync ∉ tabs.effects tab

/-- The next frame of a tab is handed over unless the other tab was ahead. -/
theorem Tabs.Shares.deliver {tabs : Tabs} {lastSeq : Nat} {count : Tab → Nat}
    (h : tabs.Shares manager lastSeq frames count) {delivery : Delivery}
    (hnext : frames[count delivery.tab]? = some delivery.envelope)
    (hseq : delivery.envelope.seq = lastSeq + count delivery.tab + 1) :
    (tabs.deliver manager delivery).Shares manager lastSeq frames
      (Function.update count delivery.tab (count delivery.tab + 1)) := by
  obtain ⟨tab, envelope⟩ := delivery
  simp only at hnext hseq
  have hmax : ∀ tab', max (Function.update count tab (count tab + 1) tab')
      (Function.update count tab (count tab + 1) tab'.other) =
        max (count tab + 1) (count tab.other) := by
    intro tab'
    rcases tab.eq_or_eq_other tab' with rfl | rfl
    · rw [Function.update_self, Function.update_of_ne tab.other_ne]
    · rw [Tab.other_other, Function.update_self, Function.update_of_ne tab.other_ne, max_comm]
  have hlast := h.last tab
  have hpair : ∀ tab', (handed (tabs.effects tab') ++ handed (tabs.effects tab'.other)).Perm
      (frames.take (max (count tab) (count tab.other))) := by
    intro tab'
    rcases tab.eq_or_eq_other tab' with rfl | rfl
    · exact h.shared tab
    · rw [max_comm]
      simpa using h.shared tab.other
  rcases Nat.lt_or_ge (count tab) (count tab.other) with hbehind | hahead
  · -- the other tab handled this frame first
    have hle : envelope.seq ≤ manager.getLastSeq tabs.store := by omega
    have hdrop : tabs.deliver manager ⟨tab, envelope⟩ = tabs := by
      simp [Tabs.deliver, manager.handleIncoming_of_le hle]
    rw [hdrop]
    refine ⟨fun tab' => ?_, fun tab' => ?_, h.quiet⟩
    · rw [hmax, hlast]
      omega
    · rw [hmax, show max (count tab + 1) (count tab.other) = max (count tab) (count tab.other) by
        omega]
      exact hpair tab'
  · have hseq : envelope.seq = manager.getLastSeq tabs.store + 1 := by omega
    have hhand := manager.handleIncoming_of_next hseq
    have htake : frames.take (count tab + 1) = frames.take (count tab) ++ [envelope] := by
      rw [List.take_add_one, hnext]
      rfl
    refine ⟨fun tab' => ?_, fun tab' => ?_, fun tab' => ?_⟩
    · rw [hmax]
      simp only [Tabs.deliver, hhand, BoardSocketManager.getLastSeq_setLastSeq]
      omega
    · rw [hmax, show max (count tab + 1) (count tab.other) = count tab + 1 by omega, htake]
      have hbefore := hpair tab'
      rw [Nat.max_eq_left hahead] at hbefore
      refine List.Perm.trans ?_ (hbefore.append_right [envelope])
      simp only [Tabs.deliver, hhand]
      rcases tab.eq_or_eq_other tab' with rfl | rfl
      · simp only [Function.update_self, handed_append, handed_mutation, handed_nil]
        rw [Function.update_of_ne tab.other_ne, List.append_assoc, List.append_assoc]
        exact (List.perm_append_comm).append_left _
      · rw [Function.update_of_ne tab.other_ne, Tab.other_other, Function.update_self,
          handed_append, List.append_assoc]
        rfl
    · simp only [Tabs.deliver, hhand]
      rcases tab.eq_or_eq_other tab' with rfl | rfl
      · simp [h.quiet tab]
      · rw [Function.update_of_ne tab.other_ne]
        exact h.quiet tab.other

/-- The tabs after the deliveries. -/
theorem Tabs.shares_run (hseq : frames.map BoardMutationEnvelope.seq =
      List.range' (manager.getLastSeq store + 1) frames.length)
    (deliveries : List Delivery) (hpre : ∀ tab, deliveredTo tab deliveries <+: frames) :
    (deliveries.foldl (Tabs.deliver manager) (.opened store)).Shares manager
      (manager.getLastSeq store) frames fun tab => (deliveredTo tab deliveries).length := by
  induction deliveries using List.reverseRecOn with
  | nil =>
      refine ⟨fun tab => ?_, fun tab => ?_, fun tab => ?_⟩
      · simp [opened, deliveredTo]
      · simp [opened, deliveredTo]
      · simp [opened]
  | append_singleton deliveries delivery ih =>
      have hstep := hpre delivery.tab
      rw [deliveredTo_concat, if_pos rfl] at hstep
      have hbefore : ∀ tab, deliveredTo tab deliveries <+: frames := by
        intro tab
        refine List.IsPrefix.trans ?_ (hpre tab)
        rw [deliveredTo_concat]
        split
        · exact List.prefix_append _ _
        · exact List.prefix_rfl
      obtain ⟨rest, hrest⟩ := hstep
      have hnext : frames[(deliveredTo delivery.tab deliveries).length]? =
          some delivery.envelope := by
        rw [← hrest]
        simp
      have hnumber : delivery.envelope.seq =
          manager.getLastSeq store + (deliveredTo delivery.tab deliveries).length + 1 := by
        have hget := congrArg (·[(deliveredTo delivery.tab deliveries).length]?) hseq
        simp only [List.getElem?_map, hnext, Option.map_some] at hget
        rw [List.getElem?_range' (by rw [← hrest]; simp)] at hget
        have hvalue := Option.some.inj hget
        omega
      have hcount : (fun tab => (deliveredTo tab (deliveries ++ [delivery])).length) =
          Function.update (fun tab => (deliveredTo tab deliveries).length) delivery.tab
            ((deliveredTo delivery.tab deliveries).length + 1) := by
        funext tab
        rw [deliveredTo_concat]
        rcases eq_or_ne delivery.tab tab with rfl | hne
        · simp
        · rw [if_neg hne, Function.update_of_ne hne.symm]
      rw [List.foldl_append, hcount]
      exact (ih hbefore).deliver hnext hnumber

/-- **Two tabs share the frames out between them.** When the frames after the shared number
are delivered to both tabs, in any interleaving, both tabs see every frame only if there is
none. -/
theorem tabs_see_iff (hseq : frames.map BoardMutationEnvelope.seq =
      List.range' (manager.getLastSeq store + 1) frames.length)
    (deliveries : List Delivery) (hall : ∀ tab, deliveredTo tab deliveries = frames) :
    (∀ tab, (deliveries.foldl (Tabs.deliver manager) (.opened store)).Sees tab frames) ↔
      frames = [] := by
  have hshares := Tabs.shares_run hseq deliveries fun tab => by rw [hall tab]
  constructor
  · intro hsees
    by_contra hne
    obtain ⟨envelope, henvelope⟩ := List.exists_mem_of_ne_nil frames hne
    have hcount : ∀ tab, (handed ((deliveries.foldl (Tabs.deliver manager)
        (.opened store)).effects tab)).count envelope = 1 := by
      intro tab
      rcases hsees tab with hcount | hsignal
      · exact hcount envelope henvelope
      · exact absurd hsignal (hshares.quiet tab)
    -- each frame is handed over once in both tabs together
    have htotal := (hshares.shared .first).count_eq envelope
    have hnodup : frames.Nodup := by
      refine List.Nodup.of_map BoardMutationEnvelope.seq ?_
      rw [hseq]
      exact List.nodup_range'
    have honce := List.nodup_iff_count_le_one.mp hnodup envelope
    have htake := (List.take_sublist (max (deliveredTo .first deliveries).length
      (deliveredTo .second deliveries).length) frames).count_le envelope
    rw [List.count_append, hcount, hcount] at htotal
    simp only [Tab.other] at htotal
    omega
  · rintro rfl tab
    left
    simp

/-- One frame, delivered to the second tab and then to the first. -/
theorem tabs_split_one :
    ¬ ∀ tab, ([⟨.second, Sample.frame 1⟩, ⟨.first, Sample.frame 1⟩].foldl
      (Tabs.deliver Sample.manager) (.opened (Sample.applied 0))).Sees tab [Sample.frame 1] := by
  have hlast : Sample.manager.getLastSeq (Sample.applied 0) = 0 :=
    Sample.manager.getLastSeq_setLastSeq ∅ 0
  rw [tabs_see_iff (by rw [hlast]; rfl) _ fun tab => by cases tab <;> rfl]
  simp

/-- Two frames, the first delivered to the first tab first, the second to the second tab
first: neither tab sees both. -/
theorem tabs_miss :
    let deliveries : List Delivery := [⟨.first, Sample.frame 1⟩, ⟨.second, Sample.frame 1⟩,
      ⟨.second, Sample.frame 2⟩, ⟨.first, Sample.frame 2⟩]
    let tabs := deliveries.foldl (Tabs.deliver Sample.manager) (.opened (Sample.applied 0))
    (∀ tab, deliveredTo tab deliveries = [Sample.frame 1, Sample.frame 2]) ∧
      ¬ tabs.Sees .first [Sample.frame 1, Sample.frame 2] ∧
      ¬ tabs.Sees .second [Sample.frame 1, Sample.frame 2] := by
  refine ⟨fun tab => by cases tab <;> rfl, ?_, ?_⟩
  · decide
  · decide

end FlowLogix.Realtime
