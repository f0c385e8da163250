import Pdcm.Ipc.FrameDecoder
import Pdcm.Ipc.Handlers

/-!
# Connections of the local API server

`handleConnection` as a machine that one thread per connection drives, and the server in
which any number of such threads share the session manager and the core. A step of a thread
is what it does between two accesses to shared state: one pass of the receive loop, one
request, one call of the handshake handler on the session manager, or the final close of
the session. What the clock, the socket and the client do is an argument of the step.
-/

namespace Pdcm.Ipc

open Library List

/-- The size of the buffer that is passed to `recv`. -/
def receiveBufferBytes : ℕ := 4096

/-- What one `recv` call delivered. -/
structure Chunk where
  bytes : List UInt8
  length_pos : 0 < bytes.length
  length_le : bytes.length ≤ receiveBufferBytes

/-- How waiting for input ended: with a timeout or an interruption, with an error or the end
of the stream, or with bytes. -/
inductive Polled where
  | again
  | ended
  | received (chunk : Chunk)

/-- What a thread finds around it in one step. -/
structure Surroundings where
  now : ℤ := 0
  polled : Polled := .again
  written : Bool := true

/-- Where a connection's thread stands: before the frames of the last `recv` call that are
still to be served, inside the handshake handler, behind the loop, or at its end. -/
inductive Phase where
  | serving (pending : List Frame)
  | handshaking (frame : Frame) (program : SessionProgram HandshakeResult) (pending : List Frame)
  | leaving
  | done

/-- A frame that was passed to a handler, and what the handler returned. -/
structure Handled where
  frame : Frame
  response : Frame
  closeConnection : Bool
  deriving DecidableEq, Repr

/-- What happened on a connection so far. No step reads it. -/
structure ConnectionLog where
  chunks : List (List UInt8) := []
  decodeFailed : Bool := false
  handled : List Handled := []
  created : List SessionId := []
  deriving DecidableEq, Repr

structure Connection where
  peer : PeerIdentity
  handshakeDeadline : ℤ
  decoder : FrameDecoder
  sessionId : Option SessionId := none
  handshakeComplete : Bool := false
  closeConnection : Bool := false
  phase : Phase := .serving []
  log : ConnectionLog := {}

/-- The session a call of the handshake handler created. -/
def createdBy : (call : SessionCall) → call.Answer → List SessionId
  | .beginHandshake _, (created : SessionCreateResult) =>
    if created.status.ok then [created.id] else []
  | .activate _, _ => []
  | .close _, _ => []

namespace Connection

/-- The start of `handleConnection` for a client with valid credentials. -/
def start (limits : ResourceLimits) (peer : PeerIdentity) (now : ℤ) : Connection where
  peer := peer
  handshakeDeadline := now + 5000000000
  decoder := { maxFrameBytes := limits.maxFrameBytes }

variable (c : Connection)

def leave : Connection := { c with phase := .leaving }

def receive (chunk : Chunk) : Connection :=
  let appended := c.decoder.append chunk.bytes
  { c with
    decoder := appended.decoder
    phase := if appended.status.ok then .serving appended.frames else .leaving
    log := { c.log with
      chunks := c.log.chunks ++ [chunk.bytes]
      decodeFailed := !appended.status.ok } }

/-- One pass of the receive loop up to the frames it decoded. -/
def iterate (running : Bool) (c : Connection) (around : Surroundings) : Connection :=
  if running = false ∨ c.closeConnection = true then c.leave
  else if c.handshakeComplete = false ∧ c.handshakeDeadline ≤ around.now then c.leave
  else
    match around.polled with
    | .again => c
    | .ended => c.leave
    | .received chunk => c.receive chunk

/-- The end of the loop body over frames: the response is encoded and written, and if that
fails the remaining frames are dropped. -/
def respond (maxFrameBytes : ℕ) (c : Connection) (frame response : Frame)
    (closeConnection : Bool) (pending : List Frame) (written : Bool) : Connection :=
  let log := { c.log with handled := c.log.handled ++ [⟨frame, response, closeConnection⟩] }
  match encodeFrame response maxFrameBytes, written with
  | .ok _, true =>
    { c with closeConnection := closeConnection, phase := .serving pending, log := log }
  | _, _ => { c with closeConnection := true, phase := .serving [], log := log }

/-- The local variables of the loop after the handshake handler returned. -/
def withHandshake (result : HandshakeResult) : Connection :=
  { c with
    sessionId := result.sessionId
    handshakeComplete := result.status.ok && result.sessionId.isSome }

def finishHandshake (maxFrameBytes : ℕ) (c : Connection) (frame : Frame)
    (result : HandshakeResult) (pending : List Frame) (written : Bool) : Connection :=
  (c.withHandshake result).respond maxFrameBytes frame result.response result.closeConnection
    pending written

def closeSession (sessions : SessionManager) : Option SessionId → SessionManager
  | none => sessions
  | some id => (sessions.close id).1

def step (protobuf : Protobuf) (limits : ResourceLimits) (running : Bool) (core : ServiceCore)
    (c : Connection) (sessions : SessionManager) (around : Surroundings) :
    SessionManager × Connection :=
  match c.phase with
  | .serving [] => (sessions, c.iterate running around)
  | .serving (frame :: pending) =>
    if c.handshakeComplete then
      let result := RequestRouter.route protobuf core frame
      (sessions, c.respond limits.maxFrameBytes frame result.response result.closeConnection
        pending around.written)
    else
      let program := HandshakeHandler.handle protobuf frame core.snapshot limits c.peer
      (sessions, { c with phase := .handshaking frame program pending })
  | .handshaking frame (.done result) pending =>
    (sessions, c.finishHandshake limits.maxFrameBytes frame result pending around.written)
  | .handshaking frame (.call call next) pending =>
    let answered := SessionCall.exec call sessions
    (answered.1,
      { c with
        phase := .handshaking frame (next answered.2) pending
        log := { c.log with created := c.log.created ++ createdBy call answered.2 } })
  | .leaving => (closeSession sessions c.sessionId, { c with phase := .done })
  | .done => (sessions, c)

/-- Everything a step can do to its own connection. -/
inductive Moves (maxFrameBytes : ℕ) (c : Connection) : Connection → Prop
  | stay : Moves maxFrameBytes c c
  | leave (hphase : c.phase = .serving []) : Moves maxFrameBytes c c.leave
  | receive (hphase : c.phase = .serving []) (hopen : c.closeConnection = false) (chunk : Chunk) :
      Moves maxFrameBytes c (c.receive chunk)
  | request {frame : Frame} {pending : List Frame}
      (hphase : c.phase = .serving (frame :: pending)) (response : Frame) (close written : Bool) :
      Moves maxFrameBytes c (c.respond maxFrameBytes frame response close pending written)
  | enter {frame : Frame} {pending : List Frame} (hphase : c.phase = .serving (frame :: pending))
      (program : SessionProgram HandshakeResult) :
      Moves maxFrameBytes c { c with phase := .handshaking frame program pending }
  | negotiate {frame : Frame} {program : SessionProgram HandshakeResult} {pending : List Frame}
      (hphase : c.phase = .handshaking frame program pending)
      (next : SessionProgram HandshakeResult) (created : List SessionId) :
      Moves maxFrameBytes c
        { c with
          phase := .handshaking frame next pending
          log := { c.log with created := c.log.created ++ created } }
  | finish {frame : Frame} {program : SessionProgram HandshakeResult} {pending : List Frame}
      (hphase : c.phase = .handshaking frame program pending) (result : HandshakeResult)
      (written : Bool) :
      Moves maxFrameBytes c (c.finishHandshake maxFrameBytes frame result pending written)
  | close (hphase : c.phase = .leaving) : Moves maxFrameBytes c { c with phase := .done }

theorem step_moves (protobuf : Protobuf) (limits : ResourceLimits) (running : Bool)
    (core : ServiceCore) (c : Connection) (sessions : SessionManager) (around : Surroundings) :
    Moves limits.maxFrameBytes c (c.step protobuf limits running core sessions around).2 := by
  cases hph : c.phase with
  | serving pend =>
    cases pend with
    | nil =>
      simp only [step, hph]
      unfold iterate
      split_ifs with hst hla
      · exact .leave hph
      · exact .leave hph
      · have hop : c.closeConnection = false := by
          cases hcl : c.closeConnection with
          | false => rfl
          | true => exact absurd (.inr hcl) hst
        cases around.polled with
        | again => exact .stay
        | ended => exact .leave hph
        | received chunk => exact .receive hph hop chunk
    | cons frame pend =>
      simp only [step, hph]
      split_ifs with hco
      · exact .request hph _ _ _
      · exact .enter hph _
  | handshaking frame prog pend =>
    cases prog with
    | done res =>
      simp only [step, hph]
      exact .finish hph res around.written
    | call call next =>
      simp only [step, hph]
      exact .negotiate hph _ _
  | leaving =>
    simp only [step, hph]
    exact .close hph
  | done =>
    simp only [step, hph]
    exact .stay

end Connection

/-! ### The server -/

/-- `LocalApiServer` with the connections that were ever accepted. -/
structure LocalApiServer where
  limits : ResourceLimits
  running : Bool := true
  core : ServiceCore
  sessions : SessionManager
  connections : List Connection := []

/-- What can happen next: a client is accepted, the core's answers change, `stop` goes one
step further, or a connection's thread takes a step. -/
inductive ServerEvent where
  | accept (peer : PeerIdentity) (now : ℤ)
  | coreChanged (core : ServiceCore)
  | stopRunning
  | beginDraining
  | closeAll
  | thread (index : ℕ) (around : Surroundings)

namespace LocalApiServer

def start (limits : ResourceLimits) (core : ServiceCore) : LocalApiServer where
  limits := limits
  core := core
  sessions := { limits := limits }

variable (protobuf : Protobuf) (s : LocalApiServer)

def step (s : LocalApiServer) : ServerEvent → LocalApiServer
  | .accept peer now =>
    { s with connections := s.connections ++ [Connection.start s.limits peer now] }
  | .coreChanged core => { s with core := core }
  | .stopRunning => { s with running := false }
  | .beginDraining => { s with sessions := s.sessions.beginDraining.1 }
  | .closeAll => { s with sessions := s.sessions.closeAll }
  | .thread index around =>
    match s.connections[index]? with
    | none => s
    | some c =>
      let stepped := c.step protobuf s.limits s.running s.core s.sessions around
      { s with sessions := stepped.1, connections := s.connections.set index stepped.2 }

def run (events : List ServerEvent) : LocalApiServer :=
  runFrom (step protobuf) s events

variable {protobuf}

theorem step_connections (event : ServerEvent) :
    (s.step protobuf event).connections = s.connections ∨
      (∃ peer now, (s.step protobuf event).connections =
        s.connections ++ [Connection.start s.limits peer now]) ∨
      ∃ index c c', s.connections[index]? = some c ∧
        Connection.Moves s.limits.maxFrameBytes c c' ∧
        (s.step protobuf event).connections = s.connections.set index c' := by
  cases event with
  | accept peer now => exact .inr (.inl ⟨peer, now, rfl⟩)
  | coreChanged core => exact .inl rfl
  | stopRunning => exact .inl rfl
  | beginDraining => exact .inl rfl
  | closeAll => exact .inl rfl
  | thread index around =>
    cases hc : s.connections[index]? with
    | none =>
      left
      simp only [step, hc]
    | some c =>
      right
      right
      refine ⟨index, c, _, hc,
        Connection.step_moves protobuf s.limits s.running s.core c s.sessions around, ?_⟩
      simp only [step, hc]

theorem step_limits (event : ServerEvent) :
    (s.step protobuf event).limits = s.limits := by
  cases event with
  | thread index around =>
    simp only [step]
    split <;> rfl
  | _ => rfl

theorem run_limits (events : List ServerEvent) :
    (s.run protobuf events).limits = s.limits :=
  relation_run (R := fun s t : LocalApiServer => t.limits = s.limits) (fun _ => rfl)
    (fun _ _ _ hab hbc => hbc.trans hab) step_limits s events

/-- A connection stays where it is in the list and changes by moves. What every move keeps
between a connection and its later states holds along a run. -/
theorem run_moves {R : Connection → Connection → Prop} (hre : ∀ c, R c c)
    (htr : ∀ a b c, R a b → R b c → R a c) {s : LocalApiServer}
    (hmo : ∀ c c', Connection.Moves s.limits.maxFrameBytes c c' → R c c')
    (events : List ServerEvent) {index : ℕ} {c : Connection}
    (hc : s.connections[index]? = some c) :
    ∃ c', (s.run protobuf events).connections[index]? = some c' ∧ R c c' := by
  induction events generalizing s c with
  | nil => exact ⟨c, hc, hre c⟩
  | cons event rest ih =>
    have hst : ∃ c', (s.step protobuf event).connections[index]? = some c' ∧ R c c' := by
      rcases s.step_connections event with hsa | ⟨peer, now, hnew⟩ | ⟨i, a, b, ha, hab, hset⟩
      · exact ⟨c, by rw [hsa, hc], hre c⟩
      · refine ⟨c, ?_, hre c⟩
        rw [hnew, getElem?_append_left (List.getElem?_eq_some_iff.mp hc).1, hc]
      · by_cases hi : i = index
        · subst hi
          rw [ha] at hc
          cases hc
          refine ⟨b, ?_, hmo _ _ hab⟩
          rw [hset, getElem?_set_self (List.getElem?_eq_some_iff.mp ha).1]
        · exact ⟨c, by rw [hset, getElem?_set_ne hi, hc], hre c⟩
    obtain ⟨c₁, hc₁, hfi⟩ := hst
    obtain ⟨c₂, hc₂, hres⟩ :=
      ih (by rw [step_limits]; exact hmo) hc₁
    exact ⟨c₂, hc₂, htr _ _ _ hfi hres⟩

/-- What holds of a new connection and is kept by every move holds of every connection. -/
theorem run_connections {P : Connection → Prop} {limits : ResourceLimits} {core : ServiceCore}
    (hst : ∀ peer now, P (Connection.start limits peer now))
    (hmo : ∀ c c', P c → Connection.Moves limits.maxFrameBytes c c' → P c')
    (events : List ServerEvent) :
    ∀ c ∈ ((start limits core).run protobuf events).connections, P c := by
  induction events using reverseRecOn with
  | nil =>
    intro c hc
    cases hc
  | append_singleton events event ih =>
    have hli : ((start limits core).run protobuf events).limits = limits :=
      run_limits (start limits core) events
    rw [run, runFrom_append]
    change ∀ c ∈ (((start limits core).run protobuf events).step protobuf event).connections, P c
    intro c hc
    rcases ((start limits core).run protobuf events).step_connections event with
      hsame | ⟨peer, now, hnew⟩ | ⟨i, a, b, ha, hab, hset⟩
    · exact ih c (hsame ▸ hc)
    · rw [hnew, mem_append, mem_singleton, hli] at hc
      rcases hc with hold | rfl
      · exact ih c hold
      · exact hst peer now
    · rw [hset] at hc
      rw [hli] at hab
      rcases mem_or_eq_of_mem_set hc with hold | rfl
      · exact ih c hold
      · exact hmo a _ (ih a (mem_of_getElem? ha)) hab

end LocalApiServer
end Pdcm.Ipc
