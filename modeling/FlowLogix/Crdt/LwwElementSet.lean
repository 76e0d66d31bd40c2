/-
  Crdt/LwwElementSet.lean --- the last-writer-wins element set
  (mobile/src/crdt/lwwElementSet.ts).

  A set is two maps `element -> latest timestamp`, one for adds and one for
  removes, and every way of changing one is a `bump` of these maps.  A program
  over several replicas adds, removes, merges one replica into another and
  rebuilds a replica from the snapshot of another, in any order.  `gathered`
  keeps, beside the replicas, the operations that have reached each; the two maps
  track their greatest stamps (`gathered_tracked`), and `values` is read off the
  maps.
-/
import FlowLogix.Foundation.Latest
import FlowLogix.Foundation.JsString

set_option autoImplicit false

namespace FlowLogix.Crdt

open FlowLogix.Foundation

/-- How an element whose add and remove stamps are equal is decided. -/
inductive SetBias where
  | add
  | remove
  deriving DecidableEq, Repr

/-- `LwwElementSet<T>`: the greatest add and remove stamp of every element. -/
structure LwwElementSet (T K : Type) where
  adds : Dict T K
  removes : Dict T K
  bias : SetBias

/-- `LwwElementSetState<T>`: the two maps as plain objects. -/
structure LwwElementSetState (T K : Type) where
  adds : Dict T K
  removes : Dict T K
  bias : SetBias

variable {T K : Type}

/-! ## Operations -/

/-- An operation on an element set. -/
inductive SetOp (T K : Type) where
  | add (element : T) (timestamp : K)
  | remove (element : T) (timestamp : K)

/-- The add stamps of an element. -/
def addStamps (ops : List (SetOp T K)) (element : T) : Set K :=
  {timestamp | SetOp.add element timestamp ∈ ops}

/-- The remove stamps of an element. -/
def removeStamps (ops : List (SetOp T K)) (element : T) : Set K :=
  {timestamp | SetOp.remove element timestamp ∈ ops}

section

variable (ops ops' : List (SetOp T K)) (element other : T) (timestamp : K)

@[simp] theorem addStamps_append :
    addStamps (ops ++ ops') element = addStamps ops element ∪ addStamps ops' element := by
  ext
  simp [addStamps]

@[simp] theorem removeStamps_append :
    removeStamps (ops ++ ops') element = removeStamps ops element ∪ removeStamps ops' element := by
  ext
  simp [removeStamps]

@[simp] theorem addStamps_remove : addStamps [.remove element timestamp] other = ∅ := by
  ext
  simp [addStamps]

@[simp] theorem removeStamps_add : removeStamps [.add element timestamp] other = ∅ := by
  ext
  simp [removeStamps]

variable [DecidableEq T]

@[simp] theorem addStamps_add :
    addStamps [.add element timestamp] other = if other = element then {timestamp} else ∅ := by
  ext
  split <;> simp_all [addStamps]

@[simp] theorem removeStamps_remove :
    removeStamps [.remove element timestamp] other =
      if other = element then {timestamp} else ∅ := by
  ext
  split <;> simp_all [removeStamps]

end

/-! ## `LwwElementSet` -/

variable [LinearOrder T] [LinearOrder K]

namespace LwwElementSet

/-- `new LwwElementSet(bias)`. -/
def new (bias : SetBias) : LwwElementSet T K where
  adds := ∅
  removes := ∅
  bias := bias

def add (set : LwwElementSet T K) (element : T) (timestamp : K) : LwwElementSet T K :=
  { set with adds := set.adds.bump element timestamp }

def remove (set : LwwElementSet T K) (element : T) (timestamp : K) : LwwElementSet T K :=
  { set with removes := set.removes.bump element timestamp }

/-- Membership under the last-writer-wins rule and the tie bias. -/
def has (set : LwwElementSet T K) (element : T) : Bool :=
  match set.adds.lookup element with
  | none => false
  | some added =>
      match set.removes.lookup element with
      | none => true
      | some removed =>
          if added = removed then decide (set.bias = .add) else decide (added > removed)

/-- The present elements, sorted. -/
def values (set : LwwElementSet T K) : List T :=
  (set.adds.keys.filter set.has).insertionSort (· ≤ ·)

/-- Fold `other` into `set`: the elementwise maximum of both maps. -/
def merge (set other : LwwElementSet T K) : LwwElementSet T K where
  adds := set.adds.bumpAll other.adds
  removes := set.removes.bumpAll other.removes
  bias := set.bias

def toJSON (set : LwwElementSet T K) : LwwElementSetState T K where
  adds := set.adds
  removes := set.removes
  bias := set.bias

/-- A new set to which every entry of the snapshot is added or removed. -/
def fromJSON (state : LwwElementSetState T K) : LwwElementSet T K :=
  let set := state.adds.entries.foldl (fun set e => set.add e.1 e.2) (new state.bias)
  state.removes.entries.foldl (fun set e => set.remove e.1 e.2) set

theorem foldl_add (entries : List (Sigma fun _ : T => K)) (set : LwwElementSet T K) :
    entries.foldl (fun set e => set.add e.1 e.2) set =
      { set with adds := entries.foldl (fun d e => d.bump e.1 e.2) set.adds } := by
  induction entries generalizing set with
  | nil => rfl
  | cons entry rest ih =>
      rw [List.foldl_cons, ih]
      rfl

theorem foldl_remove (entries : List (Sigma fun _ : T => K)) (set : LwwElementSet T K) :
    entries.foldl (fun set e => set.remove e.1 e.2) set =
      { set with removes := entries.foldl (fun d e => d.bump e.1 e.2) set.removes } := by
  induction entries generalizing set with
  | nil => rfl
  | cons entry rest ih =>
      rw [List.foldl_cons, ih]
      rfl

/-- Reading a snapshot back is merging it into a new set. -/
theorem fromJSON_toJSON (set : LwwElementSet T K) :
    fromJSON set.toJSON = (new set.bias).merge set := by
  simp only [fromJSON, foldl_add, foldl_remove]
  rfl

/-- A set merged into itself is unchanged. -/
theorem merge_self (set : LwwElementSet T K) : set.merge set = set := by
  simp only [merge, Dict.bumpAll_self]

end LwwElementSet

/-! ## What a set records -/

/-- The element was added, and its greatest add stamp is greater than its greatest
remove stamp, or equal to it with bias `add`, or it was never removed. -/
def Present (bias : SetBias) (ops : List (SetOp T K)) (element : T) : Prop :=
  ∃ added, IsGreatest (addStamps ops element) added ∧
    ∀ removed, IsGreatest (removeStamps ops element) removed →
      removed < added ∨ (removed = added ∧ bias = .add)

/-- The two maps hold the greatest stamps of the operations. -/
structure LwwElementSet.Records (set : LwwElementSet T K) (bias : SetBias)
    (ops : List (SetOp T K)) : Prop where
  adds : set.adds.Tracks (addStamps ops)
  removes : set.removes.Tracks (removeStamps ops)
  bias_eq : set.bias = bias

namespace LwwElementSet.Records

variable {set other : LwwElementSet T K} {bias : SetBias} {ops ops' : List (SetOp T K)}

theorem new (bias : SetBias) : (new bias : LwwElementSet T K).Records bias [] where
  adds := Dict.tracks_empty.of_eq fun e => by simp [addStamps]
  removes := Dict.tracks_empty.of_eq fun e => by simp [removeStamps]
  bias_eq := rfl

theorem add (h : set.Records bias ops) (element : T) (timestamp : K) :
    (set.add element timestamp).Records bias (ops ++ [.add element timestamp]) where
  adds := by
    refine (h.adds.bump element timestamp).of_eq fun e => ?_
    split <;> simp_all
  removes := h.removes.of_eq fun e => by simp
  bias_eq := h.bias_eq

theorem remove (h : set.Records bias ops) (element : T) (timestamp : K) :
    (set.remove element timestamp).Records bias (ops ++ [.remove element timestamp]) where
  adds := h.adds.of_eq fun e => by simp
  removes := by
    refine (h.removes.bump element timestamp).of_eq fun e => ?_
    split <;> simp_all
  bias_eq := h.bias_eq

/-- A merge gathers the operations of both sets. -/
theorem merge (h : set.Records bias ops) (h' : other.Records bias ops') :
    (set.merge other).Records bias (ops ++ ops') where
  adds := (h.adds.bumpAll h'.adds).of_eq fun e => by simp
  removes := (h.removes.bumpAll h'.removes).of_eq fun e => by simp
  bias_eq := h.bias_eq

theorem fromJSON_toJSON (h : set.Records bias ops) : (fromJSON set.toJSON).Records bias ops := by
  rw [LwwElementSet.fromJSON_toJSON, h.bias_eq]
  exact (new bias).merge h

/-- `has` decides membership by the operations. -/
theorem has_iff (h : set.Records bias ops) (element : T) :
    set.has element = true ↔ Present bias ops element := by
  have hadds := h.adds.lookup_eq_some_iff element
  have hremoves := h.removes.lookup_eq_some_iff element
  unfold has Present
  simp only [← hadds, ← hremoves, h.bias_eq]
  cases set.adds.lookup element with
  | none => simp
  | some added =>
      cases set.removes.lookup element with
      | none => simp
      | some removed =>
          rcases eq_or_ne added removed with rfl | hne
          · simp
          · simp [hne, hne.symm]

/-- `values` lists the present elements, ascending and without duplicates. -/
theorem values_iff (h : set.Records bias ops) :
    set.values.Pairwise (· < ·) ∧ ∀ element, element ∈ set.values ↔ Present bias ops element := by
  have hperm := List.perm_insertionSort (· ≤ ·) (set.adds.keys.filter set.has)
  constructor
  · have hsorted := List.pairwise_insertionSort (· ≤ ·) (set.adds.keys.filter set.has)
    have hnodup : set.values.Nodup := hperm.nodup_iff.mpr (set.adds.keys_nodup.filter _)
    exact (hsorted.and hnodup).imp fun ⟨hle, hne⟩ => lt_of_le_of_ne hle hne
  · intro element
    have hmem : element ∈ set.values ↔ element ∈ set.adds.keys ∧ set.has element = true := by
      rw [values, hperm.mem_iff, List.mem_filter]
    rw [hmem, h.has_iff]
    refine and_iff_right_of_imp ?_
    rintro ⟨added, hadded, -⟩
    have hlookup := (h.adds.lookup_eq_some_iff element added).mpr hadded
    exact AList.lookup_isSome.mp (Option.isSome_iff_exists.mpr ⟨added, hlookup⟩)

end LwwElementSet.Records

/-! ## Programs over replicas -/

/-- A statement of a program over the replicas `ι`. -/
inductive ReplicaStmt (ι T K : Type) where
  | op (replica : ι) (operation : SetOp T K)
  /-- `replica.merge(other)` -/
  | merge (replica other : ι)
  /-- `replica = LwwElementSet.fromJSON(other.toJSON())` -/
  | reload (replica other : ι)

variable {ι : Type} [DecidableEq ι]

/-- Apply one operation to a set. -/
def LwwElementSet.apply (set : LwwElementSet T K) : SetOp T K → LwwElementSet T K
  | .add element timestamp => set.add element timestamp
  | .remove element timestamp => set.remove element timestamp

/-- One statement: the replica it writes gets a new value. -/
def ReplicaStmt.exec (sets : ι → LwwElementSet T K) : ReplicaStmt ι T K → ι → LwwElementSet T K
  | .op i operation => Function.update sets i ((sets i).apply operation)
  | .merge i j => Function.update sets i ((sets i).merge (sets j))
  | .reload i j => Function.update sets i (.fromJSON (sets j).toJSON)

/-- A program run from new sets of one bias. -/
def runReplicas (bias : SetBias) (program : List (ReplicaStmt ι T K)) : ι → LwwElementSet T K :=
  program.foldl ReplicaStmt.exec fun _ => .new bias

/-- What one statement adds to the operations that have reached each replica. -/
def ReplicaStmt.gather (ops : ι → List (SetOp T K)) : ReplicaStmt ι T K → ι → List (SetOp T K)
  | .op i operation => Function.update ops i (ops i ++ [operation])
  | .merge i j => Function.update ops i (ops i ++ ops j)
  | .reload i j => Function.update ops i (ops j)

/-- The operations that have reached each replica, its own and those it merged. -/
def gathered (program : List (ReplicaStmt ι T K)) : ι → List (SetOp T K) :=
  program.foldl ReplicaStmt.gather fun _ => []

/-- One statement keeps every replica a record of the operations that reached it. -/
theorem exec_records {bias : SetBias} {sets : ι → LwwElementSet T K} {ops : ι → List (SetOp T K)}
    (h : ∀ i, (sets i).Records bias (ops i)) (stmt : ReplicaStmt ι T K) (i : ι) :
    (stmt.exec sets i).Records bias (stmt.gather ops i) := by
  cases stmt with
  | op j operation =>
      simp only [ReplicaStmt.exec, ReplicaStmt.gather]
      rcases eq_or_ne i j with rfl | hne
      · rw [Function.update_self, Function.update_self]
        cases operation with
        | add element timestamp => exact (h i).add element timestamp
        | remove element timestamp => exact (h i).remove element timestamp
      · rw [Function.update_of_ne hne, Function.update_of_ne hne]
        exact h i
  | merge j k =>
      simp only [ReplicaStmt.exec, ReplicaStmt.gather]
      rcases eq_or_ne i j with rfl | hne
      · rw [Function.update_self, Function.update_self]
        exact (h i).merge (h k)
      · rw [Function.update_of_ne hne, Function.update_of_ne hne]
        exact h i
  | reload j k =>
      simp only [ReplicaStmt.exec, ReplicaStmt.gather]
      rcases eq_or_ne i j with rfl | hne
      · rw [Function.update_self, Function.update_self]
        exact (h k).fromJSON_toJSON
      · rw [Function.update_of_ne hne, Function.update_of_ne hne]
        exact h i

/-- After every program, each replica records the operations that reached it. -/
theorem gathered_recorded (bias : SetBias) (program : List (ReplicaStmt ι T K)) (i : ι) :
    (runReplicas bias program i).Records bias (gathered program i) := by
  have hrun : ∀ (sets : ι → LwwElementSet T K) (ops : ι → List (SetOp T K)),
      (∀ i, (sets i).Records bias (ops i)) →
        ∀ i, (program.foldl ReplicaStmt.exec sets i).Records bias
          (program.foldl ReplicaStmt.gather ops i) := by
    induction program with
    | nil => exact fun _ _ h => h
    | cons stmt rest ih => exact fun sets ops h => ih _ _ (exec_records h stmt)
  exact hrun _ _ (fun _ => .new bias) i

/-! ## Convergence -/

/-- A merge leaves the replica it reads as it was, also when the two are one. -/
theorem exec_merge_argument (sets : ι → LwwElementSet T K) (i j : ι) :
    ReplicaStmt.exec sets (.merge i j) j = sets j := by
  simp only [ReplicaStmt.exec]
  rcases eq_or_ne j i with rfl | hne
  · rw [Function.update_self, LwwElementSet.merge_self]
  · rw [Function.update_of_ne hne]

/-- **The element set converges to the last operation per element.** Whatever a
program does over replicas of equal bias, `values()` of a replica is the sorted
list, without duplicates, of the elements present by the operations that reached
it; replicas reached by the same operations list the same elements; and a merge
does not change its argument. -/
theorem lwwElementSet_converges (bias : SetBias) (program : List (ReplicaStmt ι T K)) :
    (∀ i, (runReplicas bias program i).values.Pairwise (· < ·) ∧
      ∀ element, element ∈ (runReplicas bias program i).values ↔
        Present bias (gathered program i) element) ∧
      (∀ i j, (∀ op, op ∈ gathered program i ↔ op ∈ gathered program j) →
        (runReplicas bias program i).values = (runReplicas bias program j).values) ∧
      ∀ i j, ReplicaStmt.exec (runReplicas bias program) (.merge i j) j =
        runReplicas bias program j := by
  have hvalues := fun i => (gathered_recorded bias program i).values_iff
  refine ⟨hvalues, fun i j hops => ?_, exec_merge_argument _⟩
  have hpresent : ∀ element, Present bias (gathered program i) element ↔
      Present bias (gathered program j) element := by
    intro element
    simp only [Present, addStamps, removeStamps, hops]
  have hnodup := fun i => (hvalues i).1.imp fun hlt => hlt.ne
  have hperm : (runReplicas bias program i).values.Perm (runReplicas bias program j).values := by
    rw [List.perm_ext_iff_of_nodup (hnodup i) (hnodup j)]
    intro element
    rw [(hvalues i).2, (hvalues j).2, hpresent]
  exact hperm.eq_of_pairwise (fun a b _ _ hab hba => absurd hab hba.not_gt) (hvalues i).1
    (hvalues j).1

end FlowLogix.Crdt
