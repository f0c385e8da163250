import Pdcm.Library.Program
import Pdcm.Semantic.Catalog

/-!
# Runtime limits and sessions

The limits a runtime is configured with and the session table behind the local API. Every
method of the session manager runs under its mutex, so it is one atomic call on the shared
table.
-/

namespace Pdcm

structure ResourceLimits where
  maxSessions : ℕ := 64
  maxOutstandingRequestsPerSession : ℕ := 32
  maxWatchesPerSession : ℕ := 64
  maxSubscriptionsPerSession : ℕ := 32
  maxFrameBytes : ℕ := 4 * 1024 * 1024
  deriving DecidableEq, Repr

/-- Deadlines are in milliseconds. -/
structure RuntimeConfig where
  target : TargetKind := .unknown
  limits : ResourceLimits := {}
  providerCallTimeout : ℤ := 1000
  shutdownGrace : ℤ := 5000
  deriving DecidableEq, Repr

namespace RuntimeConfig

def validate (c : RuntimeConfig) : Status :=
  if c.target = .unknown then ⟨.invalidArgument, "runtime target must be explicit"⟩
  else if c.limits.maxSessions = 0 ∨ c.limits.maxOutstandingRequestsPerSession = 0 ∨
      c.limits.maxWatchesPerSession = 0 ∨ c.limits.maxSubscriptionsPerSession = 0 ∨
      c.limits.maxFrameBytes < 20 then
    ⟨.invalidArgument, "runtime resource limits must be positive and bounded"⟩
  else if c.providerCallTimeout ≤ 0 ∨ c.shutdownGrace ≤ 0 then
    ⟨.invalidArgument, "runtime deadlines must be positive"⟩
  else .success

theorem maxFrameBytes_of_validate {c : RuntimeConfig} (h : c.validate.ok = true) :
    20 ≤ c.limits.maxFrameBytes := by
  unfold validate at h
  split_ifs at h with hta hli hde
  · cases h
  · cases h
  · cases h
  · omega

end RuntimeConfig

abbrev SessionId := ℕ

inductive SessionState where
  | handshaking
  | active
  | draining
  | closing
  deriving DecidableEq, Repr

structure PeerIdentity where
  userId : ℕ := 0
  groupId : ℕ := 0
  processId : ℕ := 0
  deriving DecidableEq, Repr

structure SessionCounters where
  outstandingRequests : ℕ := 0
  watches : ℕ := 0
  subscriptions : ℕ := 0
  deriving DecidableEq, Repr

structure SessionSnapshot where
  id : SessionId := 0
  state : SessionState := .handshaking
  peer : PeerIdentity := {}
  counters : SessionCounters := {}
  deriving DecidableEq, Repr

structure SessionCreateResult where
  status : Status
  id : SessionId := 0
  deriving DecidableEq, Repr

inductive CounterKind where
  | request
  | watch
  | subscription
  deriving DecidableEq, Repr

namespace CounterKind

variable (kind : CounterKind)

def limit (limits : ResourceLimits) : ℕ :=
  match kind with
  | .request => limits.maxOutstandingRequestsPerSession
  | .watch => limits.maxWatchesPerSession
  | .subscription => limits.maxSubscriptionsPerSession

def counter (counters : SessionCounters) : ℕ :=
  match kind with
  | .request => counters.outstandingRequests
  | .watch => counters.watches
  | .subscription => counters.subscriptions

def setCounter (counters : SessionCounters) (value : ℕ) : SessionCounters :=
  match kind with
  | .request => { counters with outstandingRequests := value }
  | .watch => { counters with watches := value }
  | .subscription => { counters with subscriptions := value }

end CounterKind

/-- The next identifier is 0 once all have been given out. -/
structure SessionManager where
  limits : ResourceLimits
  sessions : Library.OrderedMap SessionId SessionSnapshot := .empty
  nextSessionId : SessionId := 1
  draining : Bool := false
  deriving DecidableEq

namespace SessionManager

variable (m : SessionManager)

def beginHandshake (peer : PeerIdentity) :
    SessionManager × SessionCreateResult :=
  if m.draining then (m, { status := ⟨.unavailable, "session manager is draining"⟩ })
  else if m.limits.maxSessions ≤ m.sessions.size then
    (m, { status := ⟨.resourceExhausted, "session capacity exhausted"⟩ })
  else if m.nextSessionId = 0 then
    (m, { status := ⟨.internal, "session identifier exhausted"⟩ })
  else
    ({ m with
        nextSessionId := if m.nextSessionId = uint64Max then 0 else m.nextSessionId + 1
        sessions := m.sessions.emplace m.nextSessionId
          { id := m.nextSessionId, state := .handshaking, peer := peer } },
      { status := .success, id := m.nextSessionId })

def activate (id : SessionId) : SessionManager × Status :=
  match m.sessions.find? id with
  | none => (m, ⟨.notFound, "session does not exist"⟩)
  | some session =>
    if m.draining ∨ session.state ≠ .handshaking then
      (m, ⟨.unavailable, "session cannot transition to active"⟩)
    else
      ({ m with sessions := m.sessions.insert id { session with state := .active } }, .success)

/-- What draining does to one session. -/
def drainedState : SessionState → SessionState
  | .active => .draining
  | .handshaking => .closing
  | state => state

def beginDraining : SessionManager × Status :=
  ({ m with
      draining := true
      sessions := m.sessions.mapValues fun _ session =>
        { session with state := drainedState session.state } }, .success)

def close (id : SessionId) : SessionManager × Status :=
  match m.sessions.find? id with
  | none => (m, ⟨.notFound, "session does not exist"⟩)
  | some _ => ({ m with sessions := m.sessions.erase id }, .success)

def closeAll : SessionManager :=
  { m with draining := true, sessions := .empty }

def reserve (id : SessionId) (kind : CounterKind) : SessionManager × Status :=
  match m.sessions.find? id with
  | none => (m, ⟨.notFound, "session does not exist"⟩)
  | some session =>
    if session.state ≠ .active then
      (m, ⟨.unavailable, "session is not accepting new resources"⟩)
    else
      let value := kind.counter session.counters
      if kind.limit m.limits ≤ value then
        (m, ⟨.resourceExhausted, "session resource quota exhausted"⟩)
      else
        let counters := kind.setCounter session.counters (value + 1)
        ({ m with sessions := m.sessions.insert id { session with counters := counters } },
          .success)

def release (id : SessionId) (kind : CounterKind) : SessionManager × Status :=
  match m.sessions.find? id with
  | none => (m, ⟨.notFound, "session does not exist"⟩)
  | some session =>
    let value := kind.counter session.counters
    if value = 0 then
      (m, ⟨.invalidArgument, "session resource counter is already zero"⟩)
    else
      let counters := kind.setCounter session.counters (value - 1)
      ({ m with sessions := m.sessions.insert id { session with counters := counters } }, .success)

def snapshot (id : SessionId) : Option SessionSnapshot := m.sessions.find? id

def size (m : SessionManager) : ℕ := m.sessions.size

end SessionManager

/-- The calls a connection makes on the shared session manager. -/
inductive SessionCall where
  | beginHandshake (peer : PeerIdentity)
  | activate (id : SessionId)
  | close (id : SessionId)
  deriving DecidableEq, Repr

namespace SessionCall

def Answer : SessionCall → Type
  | beginHandshake _ => SessionCreateResult
  | activate _ => Status
  | close _ => Status

def exec : (c : SessionCall) → SessionManager → SessionManager × c.Answer
  | beginHandshake peer, m => m.beginHandshake peer
  | activate id, m => m.activate id
  | close id, m => m.close id

end SessionCall

def sessionInterface : Library.Interface SessionManager where
  Call := SessionCall
  Answer := SessionCall.Answer
  exec := SessionCall.exec

/-- Programs that make one session call after the other. -/
abbrev SessionProgram := Library.Program sessionInterface

def sessionCall (c : SessionCall) : SessionProgram c.Answer :=
  Library.Program.request (I := sessionInterface) c

end Pdcm
