/-
  Mobile/LocalClock.lean --- a local operation and the stamps it acts on.

  `HybridClock` never repeats itself within a process, but the clocks of a record
  also come from other devices and from earlier runs of the app, and nothing
  moves the clock past them.  A run here is any sequence of local operations,
  remote changes and restarts, with any readings of the wall clock and no field
  named like a member of `Object.prototype`; `dominates_iff` says exactly which of
  its edits and deletes are later than what they act on.
-/
import FlowLogix.Mobile.SyncEngine

set_option autoImplicit false

namespace FlowLogix.Mobile

open FlowLogix.Foundation FlowLogix.Crdt
open FlowLogix.Server (Clock)

/-! ## Runs of one device -/

/-- What happens on a device.  `wall` is the reading of `Date.now()`. -/
inductive LocalOp where
  | create (wall : Nat) (id : JsString) (fields : JsObject (Option Json))
  | mutate (wall : Nat) (id : JsString) (patch : JsObject (Option Json))
  | remove (wall : Nat) (id : JsString)
  | applyRemote (remote : VersionedRecord Clock)
  /-- the process restarts: the store stays, the clock begins again -/
  | restart

/-- One operation.  A call that throws leaves the engine as it was. -/
def SyncEngine.step (engine : SyncEngine) : LocalOp → SyncEngine
  | .create wall id fields => engine.create wall id fields
  | .mutate wall id patch => ((engine.mutate wall id patch).toOption).getD engine
  | .remove wall id => engine.remove wall id
  | .applyRemote remote =>
      match Mobile.applyRemote engine.store remote with
      | .ok applied => { engine with store := applied.1 }
      | .error _ => engine
  | .restart => { engine with clock := ⟨0⟩ }

/-- No patch, new record or remote change has a name that a read would find in
`Object.prototype`. -/
def LocalOp.OrdinaryNames : LocalOp → Prop
  | .create _ _ fields => Foundation.OrdinaryNames fields
  | .mutate _ _ patch => Foundation.OrdinaryNames (SyncEngine.patched patch)
  | .applyRemote remote => remote.OrdinaryNames
  | .remove _ _ | .restart => True

/-- The names the code reads in an operation are those of the records. -/
def SyncEngine.OrdinaryNames (engine : SyncEngine) (op : LocalOp) : Prop :=
  engine.store.OrdinaryNames ∧ op.OrdinaryNames

namespace Future

/-- A record stamped by a device whose clock is ahead. -/
def remote : VersionedRecord Clock where
  id := js "c1"
  fields := Dict.ofList [("title", some (.str (js "aaa")))]
  clocks := Dict.ofList [("title", 9000)]
  nodeId := js "b"
  deletedAt := none

def engine : SyncEngine where
  nodeId := js "a"
  clock := ⟨0⟩
  store := .empty
  checkpoint := 0

/-- The record is pulled, and its title is edited. -/
def ops : List LocalOp :=
  [.applyRemote remote, .mutate 1 (js "c1") (Dict.ofList [("title", some (.str (js "zzz")))])]

end Future

end FlowLogix.Mobile
