/-
  Realtime/GatewaySockets.lean --- the sockets the gateway counts
  (backend/src/realtime/realtime.gateway.ts).

  The handlers are cut at their awaits.  `handleConnection` and `handleDisconnect` have
  none; `handleJoin` awaits the ownership check, the room join and the head of the log,
  and enters the socket into `boardsBySocket` after the second of them; `handleLeave`
  awaits the room leave.  Nothing cancels a handler whose socket disconnects.

  A pipe is awaited before a handler starts, so its socket may be gone by then.
-/
import FlowLogix.Foundation.Dict
import FlowLogix.Foundation.JsString
import FlowLogix.Foundation.Steps

set_option autoImplicit false

namespace FlowLogix.Realtime

open FlowLogix.Foundation

/-! ## The code -/

/-- `RealtimeGateway`, with the gauges it sets. -/
structure RealtimeGateway where
  connectedSockets : Nat
  /-- socket id -> board rooms it has joined -/
  boardsBySocket : Dict JsString (Finset JsString)
  websocketPoolSize : Nat
  activeBoardUsers : Nat

namespace RealtimeGateway

/-- `boardsBySocket.size`. -/
def size (g : RealtimeGateway) : Nat := g.boardsBySocket.keys.length

def setWebsocketPoolSize (g : RealtimeGateway) : RealtimeGateway :=
  { g with websocketPoolSize := g.connectedSockets }

def setActiveBoardUsers (g : RealtimeGateway) : RealtimeGateway :=
  { g with activeBoardUsers := g.size }

def handleConnection (g : RealtimeGateway) : RealtimeGateway :=
  { g with connectedSockets := g.connectedSockets + 1 }.setWebsocketPoolSize

/-- `handleDisconnect`; `Math.max(0, n - 1)` is the subtraction of natural numbers. -/
def handleDisconnect (g : RealtimeGateway) (socketId : JsString) : RealtimeGateway :=
  { g with
    connectedSockets := g.connectedSockets - 1
    boardsBySocket := g.boardsBySocket.erase socketId
    }.setWebsocketPoolSize.setActiveBoardUsers

def trackBoardJoin (g : RealtimeGateway) (socketId boardId : JsString) : RealtimeGateway :=
  let boards := (g.boardsBySocket.lookup socketId).getD ∅
  { g with
    boardsBySocket := g.boardsBySocket.insert socketId (insert boardId boards)
    }.setActiveBoardUsers

def trackBoardLeave (g : RealtimeGateway) (socketId boardId : JsString) : RealtimeGateway :=
  match g.boardsBySocket.lookup socketId with
  | none => g
  | some boards =>
      let left := boards.erase boardId
      { g with
        boardsBySocket :=
          if left.card = 0 then g.boardsBySocket.erase socketId
          else g.boardsBySocket.insert socketId left
        }.setActiveBoardUsers

end RealtimeGateway

/-- A value that `requireBoardId` and `requireOrgId` let through: a string that is not
empty. -/
def required (value : Option JsString) : Option JsString := value.filter (· ≠ [])

/-- A handler that awaits something, with its socket and board. -/
inductive HandlerCall where
  /-- `handleJoin` awaits `assertBoardInOrg` -/
  | ownership (socketId boardId : JsString)
  /-- `handleJoin` awaits `client.join` -/
  | roomJoin (socketId boardId : JsString)
  /-- `handleJoin` awaits `currentSequence` -/
  | headSeq (socketId boardId : JsString)
  /-- `handleLeave` awaits `client.leave` -/
  | roomLeave (socketId boardId : JsString)

/-- The socket that a handler enters into `boardsBySocket` when it goes on. -/
def HandlerCall.registers : HandlerCall → Option JsString
  | .roomJoin socketId _ => some socketId
  | .ownership _ _ | .headSeq _ _ | .roomLeave _ _ => none

/-- The gateway, the connected sockets and the handlers in progress. -/
structure GatewaySockets where
  gateway : RealtimeGateway
  sockets : Finset JsString
  calls : List HandlerCall

/-- What happens next. -/
inductive SocketEvent where
  | connect (socketId : JsString)
  | disconnect (socketId : JsString)
  /-- `handleJoin` starts; `orgId` is that of the handshake -/
  | join (socketId : JsString) (boardId orgId : Option JsString)
  /-- `handleLeave` starts -/
  | leave (socketId : JsString) (boardId : Option JsString)
  /-- what a handler awaits is fulfilled or fails -/
  | settle (call : Nat) (fulfilled : Bool)

namespace GatewaySockets

/-- The gateway before the first connection. -/
def start : GatewaySockets where
  gateway :=
    { connectedSockets := 0, boardsBySocket := ∅, websocketPoolSize := 0, activeBoardUsers := 0 }
  sockets := ∅
  calls := []

/-- A handler goes on to its next await, or to its end. -/
def resume (s : GatewaySockets) : HandlerCall → GatewaySockets
  | .ownership socketId boardId => { s with calls := s.calls ++ [.roomJoin socketId boardId] }
  | .roomJoin socketId boardId =>
      { s with
        gateway := s.gateway.trackBoardJoin socketId boardId
        calls := s.calls ++ [.headSeq socketId boardId] }
  | .headSeq _ _ => s
  | .roomLeave socketId boardId =>
      { s with gateway := s.gateway.trackBoardLeave socketId boardId }

def step (s : GatewaySockets) : SocketEvent → Option GatewaySockets
  | .connect socketId =>
      if socketId ∈ s.sockets then none
      else some { s with
        gateway := s.gateway.handleConnection
        sockets := insert socketId s.sockets }
  | .disconnect socketId =>
      if socketId ∈ s.sockets then
        some { s with
          gateway := s.gateway.handleDisconnect socketId
          sockets := s.sockets.erase socketId }
      else none
  | .join socketId boardId orgId =>
      match required boardId, required orgId with
      | some boardId, some _ => some { s with calls := s.calls ++ [.ownership socketId boardId] }
      | _, _ => some s
  | .leave socketId boardId =>
      match required boardId with
      | some boardId => some { s with calls := s.calls ++ [.roomLeave socketId boardId] }
      | none => some s
  | .settle call fulfilled =>
      match s.calls[call]? with
      | none => none
      | some handler =>
          let s := { s with calls := s.calls.eraseIdx call }
          some (if fulfilled then s.resume handler else s)

/-! ## Live sockets -/

/-- Only live sockets are counted: as many as are connected, and a key of
`boardsBySocket` is one of them and has a board. -/
structure OnlyLive (s : GatewaySockets) : Prop where
  counted : s.gateway.connectedSockets = s.sockets.card
  live : ∀ socketId boards, s.gateway.boardsBySocket.lookup socketId = some boards →
    socketId ∈ s.sockets ∧ boards.Nonempty

/-- A handler that has joined its room finds its socket still connected. -/
def RegistersConnected (s : GatewaySockets) : SocketEvent → Prop
  | .settle call fulfilled => fulfilled = true →
      ∀ socketId ∈ s.calls[call]?.bind HandlerCall.registers, socketId ∈ s.sockets
  | .connect _ | .disconnect _ | .join _ _ _ | .leave _ _ => True

instance (s : GatewaySockets) : (event : SocketEvent) → Decidable (s.RegistersConnected event)
  | .settle call fulfilled => inferInstanceAs (Decidable (fulfilled = true →
      ∀ socketId ∈ s.calls[call]?.bind HandlerCall.registers, socketId ∈ s.sockets))
  | .connect _ | .disconnect _ | .join _ _ _ | .leave _ _ => inferInstanceAs (Decidable True)

variable {s s' : GatewaySockets} {socketId boardId : JsString}

/-- The boards of a socket after one more is tracked. -/
theorem lookup_trackBoardJoin (g : RealtimeGateway) (socketId boardId other : JsString) :
    (g.trackBoardJoin socketId boardId).boardsBySocket.lookup other =
      if other = socketId then some (insert boardId ((g.boardsBySocket.lookup socketId).getD ∅))
      else g.boardsBySocket.lookup other :=
  Dict.lookup_insert_eq _ _ _ _

/-- A leave only takes away. -/
theorem lookup_trackBoardLeave (g : RealtimeGateway) {other : JsString} {boards : Finset JsString}
    (h : (g.trackBoardLeave socketId boardId).boardsBySocket.lookup other = some boards) :
    ∃ before, g.boardsBySocket.lookup other = some before ∧
      (before.Nonempty → boards.Nonempty) := by
  unfold RealtimeGateway.trackBoardLeave at h
  split at h
  · exact ⟨boards, h, id⟩
  · rename_i joined hjoined
    change (if (joined.erase boardId).card = 0 then g.boardsBySocket.erase socketId
      else g.boardsBySocket.insert socketId (joined.erase boardId)).lookup other = _ at h
    split at h
    · by_cases hother : other = socketId
      · rw [hother, AList.lookup_erase] at h
        cases h
      · rw [AList.lookup_erase_ne hother] at h
        exact ⟨boards, h, id⟩
    · rename_i hleft
      rw [Dict.lookup_insert_eq] at h
      split at h
      · rename_i hother
        obtain rfl := Option.some.inj h
        exact ⟨joined, hother ▸ hjoined, fun _ => Finset.card_pos.mp (Nat.pos_of_ne_zero hleft)⟩
      · exact ⟨boards, h, id⟩

@[simp] theorem connectedSockets_trackBoardLeave (g : RealtimeGateway) :
    (g.trackBoardLeave socketId boardId).connectedSockets = g.connectedSockets := by
  unfold RealtimeGateway.trackBoardLeave
  split <;> rfl

/-! ### Each step -/

theorem OnlyLive.connect (h : s.OnlyLive) (hnew : socketId ∉ s.sockets) :
    { s with
      gateway := s.gateway.handleConnection
      sockets := insert socketId s.sockets }.OnlyLive where
  counted := by
    rw [Finset.card_insert_of_notMem hnew, ← h.counted]
    rfl
  live other boards hlookup := by
    obtain ⟨hmem, hboards⟩ := h.live other boards hlookup
    exact ⟨Finset.mem_insert_of_mem hmem, hboards⟩

/-- A disconnect takes the socket's entry away. -/
theorem OnlyLive.disconnect (h : s.OnlyLive) (hmem : socketId ∈ s.sockets) :
    { s with
      gateway := s.gateway.handleDisconnect socketId
      sockets := s.sockets.erase socketId }.OnlyLive where
  counted := by
    rw [Finset.card_erase_of_mem hmem, ← h.counted]
    rfl
  live other boards hlookup := by
    change (s.gateway.boardsBySocket.erase socketId).lookup other = some boards at hlookup
    have hother : other ≠ socketId := by
      rintro rfl
      rw [AList.lookup_erase] at hlookup
      cases hlookup
    rw [AList.lookup_erase_ne hother] at hlookup
    obtain ⟨hlive, hboards⟩ := h.live other boards hlookup
    exact ⟨Finset.mem_erase.mpr ⟨hother, hlive⟩, hboards⟩

/-- The handlers in progress do not count. -/
theorem OnlyLive.withCalls (h : s.OnlyLive) (calls : List HandlerCall) :
    { s with calls := calls }.OnlyLive :=
  ⟨h.counted, h.live⟩

theorem OnlyLive.leaveBoard (h : s.OnlyLive) (socketId boardId : JsString) :
    { s with gateway := s.gateway.trackBoardLeave socketId boardId }.OnlyLive where
  counted := by
    rw [connectedSockets_trackBoardLeave]
    exact h.counted
  live other boards hlookup := by
    obtain ⟨before, hbefore, hboards⟩ := lookup_trackBoardLeave s.gateway hlookup
    obtain ⟨hlive, hnonempty⟩ := h.live other before hbefore
    exact ⟨hlive, hboards hnonempty⟩

/-- A socket may be entered just if it is connected. -/
theorem OnlyLive.joinBoard_iff (h : s.OnlyLive) (socketId boardId : JsString)
    (calls : List HandlerCall) :
    { s with
      gateway := s.gateway.trackBoardJoin socketId boardId
      calls := calls }.OnlyLive ↔ socketId ∈ s.sockets := by
  constructor
  · intro hlive
    have hentry := (lookup_trackBoardJoin s.gateway socketId boardId socketId).trans (if_pos rfl)
    exact (hlive.live socketId _ hentry).1
  · intro hmem
    refine ⟨h.counted, fun other boards hlookup => ?_⟩
    rw [lookup_trackBoardJoin] at hlookup
    split at hlookup
    · rename_i hother
      obtain rfl := Option.some.inj hlookup
      exact ⟨hother ▸ hmem, Finset.insert_nonempty _ _⟩
    · exact h.live other boards hlookup

/-- What a step can do: a socket comes or goes, handlers start or give up, or one goes on. -/
inductive Effect (s : GatewaySockets) : SocketEvent → GatewaySockets → Prop where
  | connects (socketId : JsString) (hnew : socketId ∉ s.sockets) :
      Effect s (.connect socketId)
        { s with
          gateway := s.gateway.handleConnection
          sockets := insert socketId s.sockets }
  | disconnects (socketId : JsString) (hmem : socketId ∈ s.sockets) :
      Effect s (.disconnect socketId)
        { s with
          gateway := s.gateway.handleDisconnect socketId
          sockets := s.sockets.erase socketId }
  | waits (event : SocketEvent) (calls : List HandlerCall) (hevent : s.RegistersConnected event) :
      Effect s event { s with calls := calls }
  | goesOn (call : Nat) (handler : HandlerCall) (hcall : s.calls[call]? = some handler) :
      Effect s (.settle call true)
        ({ s with calls := s.calls.eraseIdx call }.resume handler)

theorem effect_of_step {event : SocketEvent} (hs : s.step event = some s') :
    Effect s event s' := by
  cases event with
  | connect socketId =>
      rw [step] at hs
      split at hs
      · cases hs
      · rename_i hnew
        obtain rfl := Option.some.inj hs
        exact .connects socketId hnew
  | disconnect socketId =>
      rw [step] at hs
      split at hs
      · rename_i hmem
        obtain rfl := Option.some.inj hs
        exact .disconnects socketId hmem
      · cases hs
  | join socketId boardId orgId =>
      rw [step] at hs
      split at hs
      · obtain rfl := Option.some.inj hs
        exact .waits _ _ trivial
      · obtain rfl := Option.some.inj hs
        exact .waits _ s.calls trivial
  | leave socketId boardId =>
      rw [step] at hs
      split at hs
      · obtain rfl := Option.some.inj hs
        exact .waits _ _ trivial
      · obtain rfl := Option.some.inj hs
        exact .waits _ s.calls trivial
  | settle call fulfilled =>
      rw [step] at hs
      split at hs
      · cases hs
      · rename_i handler hcall
        obtain rfl := Option.some.inj hs
        cases fulfilled with
        | false => exact .waits _ _ (by simp [RegistersConnected])
        | true => exact .goesOn call handler hcall

/-- A step goes on counting live sockets only, just if it registers no other. -/
theorem OnlyLive.step_iff (h : s.OnlyLive) {event : SocketEvent}
    (hs : s.step event = some s') : s'.OnlyLive ↔ s.RegistersConnected event := by
  cases effect_of_step hs with
  | connects socketId hnew => exact iff_of_true (h.connect hnew) trivial
  | disconnects socketId hmem => exact iff_of_true (h.disconnect hmem) trivial
  | waits event calls hevent => exact iff_of_true (h.withCalls calls) hevent
  | goesOn call handler hcall =>
      have hrest := h.withCalls (s.calls.eraseIdx call)
      have hregisters : s.RegistersConnected (.settle call true) ↔
          ∀ socketId ∈ handler.registers, socketId ∈ s.sockets := by
        rw [RegistersConnected, hcall, Option.bind_some]
        exact ⟨fun hreg => hreg rfl, fun hreg _ => hreg⟩
      rw [hregisters]
      cases handler with
      | ownership socketId boardId =>
          exact iff_of_true (hrest.withCalls _) (by simp [HandlerCall.registers])
      | roomJoin socketId boardId =>
          refine (hrest.joinBoard_iff socketId boardId _).trans ?_
          simp [HandlerCall.registers]
      | headSeq socketId boardId =>
          exact iff_of_true hrest (by simp [HandlerCall.registers])
      | roomLeave socketId boardId =>
          refine iff_of_true (hrest.leaveBoard socketId boardId) ?_
          simp [HandlerCall.registers]

theorem onlyLive_start : start.OnlyLive :=
  ⟨rfl, by simp [start]⟩

/-! ### The gauges -/

/-- The gauges show what the gateway counts. -/
def GaugesExact (s : GatewaySockets) : Prop :=
  s.gateway.websocketPoolSize = s.gateway.connectedSockets ∧
    s.gateway.activeBoardUsers = s.gateway.size

theorem GaugesExact.resume (h : s.GaugesExact) (handler : HandlerCall) :
    (s.resume handler).GaugesExact := by
  cases handler with
  | ownership socketId boardId => exact h
  | roomJoin socketId boardId => exact ⟨h.1, rfl⟩
  | headSeq socketId boardId => exact h
  | roomLeave socketId boardId =>
      rw [GatewaySockets.resume, RealtimeGateway.trackBoardLeave]
      split
      · exact h
      · exact ⟨h.1, rfl⟩

theorem GaugesExact.step (h : s.GaugesExact) {event : SocketEvent}
    (hs : s.step event = some s') : s'.GaugesExact := by
  cases effect_of_step hs with
  | connects socketId hnew => exact ⟨rfl, h.2⟩
  | disconnects socketId hmem => exact ⟨rfl, rfl⟩
  | waits event calls hevent => exact h
  | goesOn call handler hcall =>
      have hrest : { s with calls := s.calls.eraseIdx call }.GaugesExact := h
      exact hrest.resume handler

/-- In every run the gauges show what the gateway counts. -/
theorem gauges_exact {trace : List (GatewaySockets × SocketEvent)}
    (run : Steps GatewaySockets.step .start trace s) : s.GaugesExact :=
  run.invariant ⟨rfl, rfl⟩ fun _ _ _ h hs => h.step hs

end GatewaySockets

/-- Only live sockets are counted in every state of a run just if each join that goes past
its awaits finds its socket still connected. -/
theorem live_sockets_iff {trace : List (GatewaySockets × SocketEvent)} {s : GatewaySockets}
    (run : Steps GatewaySockets.step .start trace s) :
    ((∀ e ∈ trace, e.1.OnlyLive) ∧ s.OnlyLive) ↔ ∀ e ∈ trace, e.1.RegistersConnected e.2 := by
  exact @Steps.everywhere_iff _ _ GatewaySockets.step .start trace s GatewaySockets.OnlyLive
    (fun _ _ => True) GatewaySockets.RegistersConnected run (fun _ _ => trivial)
    GatewaySockets.onlyLive_start fun _ _ _ _ h hs => h.step_iff hs

/-! ### A socket that is gone early -/

namespace EarlyDisconnect

def socketId : JsString := js "s1"
def boardId : JsString := js "b1"

def join : SocketEvent := .join socketId (some boardId) (some (js "o1"))

/-- The socket disconnects while its join awaits the room. -/
def events : List SocketEvent :=
  [.connect socketId, join, .settle 0 true, .disconnect socketId, .settle 0 true, .settle 0 true]

/-- It disconnects after its join. -/
def patient : List SocketEvent :=
  [.connect socketId, join, .settle 0 true, .settle 0 true, .settle 0 true, .disconnect socketId]

end EarlyDisconnect

/-- The entry stays: no socket is connected, no handler is in progress, and one user of a
board is counted. -/
theorem early_disconnect_leaks :
    ∃ s : GatewaySockets, EarlyDisconnect.events.foldlM GatewaySockets.step .start = some s ∧
      s.calls = [] ∧ s.sockets = ∅ ∧ s.gateway.activeBoardUsers = 1 ∧ ¬ s.OnlyLive := by
  refine ⟨_, rfl, rfl, rfl, rfl, fun h => ?_⟩
  have hentry := h.live EarlyDisconnect.socketId {EarlyDisconnect.boardId} (by decide)
  exact absurd hentry.1 (by decide)

/-- Every state of the other run counts live sockets only. -/
theorem patient_socket_live :
    ∃ s : GatewaySockets, EarlyDisconnect.patient.foldlM GatewaySockets.step .start = some s ∧
      s.OnlyLive := by
  obtain ⟨s, hs⟩ := Option.isSome_iff_exists.mp
    (show (EarlyDisconnect.patient.foldlM GatewaySockets.step .start).isSome = true from rfl)
  have hregisters : ∀ e ∈ traceOf GatewaySockets.step .start EarlyDisconnect.patient,
      e.1.RegistersConnected e.2 := by
    decide
  exact ⟨s, hs, ((live_sockets_iff (Steps.of_actions hs)).mpr hregisters).2⟩

end FlowLogix.Realtime
