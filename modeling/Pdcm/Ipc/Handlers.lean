import Pdcm.Core.SessionManager
import Pdcm.Ipc.Messages

/-!
# The handshake handler and the request router

The two handlers of a connection. The handshake handler checks a hello message and then
makes up to three calls on the session manager, between which other connections may make
theirs; the request router answers from what the core says at the moment of the request.
-/

namespace Pdcm.Ipc

def intMax : ℕ := 2 ^ 31 - 1

/-! ### Handshake -/

structure HandshakeResult where
  status : Status
  response : Frame
  sessionId : Option SessionId := none
  closeConnection : Bool := false
  deriving DecidableEq, Repr

namespace HandshakeHandler

variable (protobuf : Protobuf)

/-- A refused hello: the client gets a stable reason and the connection is closed. -/
def refuse (request : Frame) (status : Status) (stableReason : String) : HandshakeResult where
  status := status
  response := errorFrame protobuf request.requestId status.code stableReason
  closeConnection := true

/-- What is checked before the session manager is asked. -/
def checkHello (request : Frame) (peer : PeerIdentity) :
    Except HandshakeResult LocalV1.HelloRequest :=
  if request.messageType ≠ .helloRequest then
    .error (refuse protobuf request ⟨.invalidArgument, "first message must be hello"⟩
      "EXPECTED_HELLO")
  else if intMax < request.payload.length then
    .error (refuse protobuf request ⟨.invalidArgument, "hello payload is too large"⟩
      "HELLO_PAYLOAD_TOO_LARGE")
  else
    match protobuf.helloRequest.parse request.payload with
    | none =>
      .error (refuse protobuf request ⟨.invalidArgument, "malformed hello payload"⟩
        "MALFORMED_HELLO")
    | some hello =>
      if request.protocolMajor ≠ protocolMajor ∨ hello.protocolMajor ≠ protocolMajor.toNat ∨
          hello.protocolMajor ≠ request.protocolMajor.toNat then
        .error (refuse protobuf request
          ⟨.protocolIncompatible, "protocol major is incompatible"⟩ "INCOMPATIBLE_PROTOCOL_MAJOR")
      else if hello.clientLibraryVersion.isEmpty ∨ 64 < hello.clientLibraryVersion.utf8ByteSize ∨
          hello.nonce.length < 16 ∨ 64 < hello.nonce.length ∨
          32 < hello.requestedFeatures.length ∨
          (peer.processId ≠ 0 ∧ hello.processId ≠ peer.processId) then
        .error (refuse protobuf request ⟨.invalidArgument, "invalid hello fields"⟩
          "INVALID_HELLO_FIELDS")
      else if hello.requestedFeatures.any fun feature =>
          feature.isEmpty || decide (64 < feature.utf8ByteSize) then
        .error (refuse protobuf request ⟨.invalidArgument, "invalid requested feature"⟩
          "INVALID_HELLO_FEATURE")
      else .ok hello

def narrowLimit (value : ℕ) : ℕ := min value (2 ^ 32 - 1)

def helloResponse (request : Frame) (hello : LocalV1.HelloRequest) (core : CoreSnapshot)
    (limits : ResourceLimits) (id : SessionId) : LocalV1.HelloResponse where
  protocolMajor := protocolMajor.toNat
  protocolMinor := min (min protocolMinor.toNat hello.protocolMinor) request.protocolMinor.toNat
  sessionId := id
  daemonVersion := "0.1.0"
  coreState := .known (toProtocolCoreState core.state)
  providerState := .known (toProtocolProviderState core.providerState)
  providerFailurePhase := .known (toFailurePhase core.degradedReason)
  catalogGeneration := core.catalogGeneration
  detectedDeviceCount := core.detectedDeviceCount
  detailStatus := statusValue core.detailStatus
  limits := some
    { maxOutstandingRequests := narrowLimit limits.maxOutstandingRequestsPerSession
      maxWatches := narrowLimit limits.maxWatchesPerSession
      maxSubscriptions := narrowLimit limits.maxSubscriptionsPerSession
      maxFrameBytes := narrowLimit limits.maxFrameBytes }

def accept (request : Frame) (hello : LocalV1.HelloRequest) (core : CoreSnapshot)
    (limits : ResourceLimits) (id : SessionId) : HandshakeResult :=
  let response := helloResponse request hello core limits id
  { status := .success
    response :=
      { protocolMajor := protocolMajor
        protocolMinor := UInt16.ofNat response.protocolMinor
        messageType := .helloResponse
        requestId := request.requestId
        payload := protobuf.helloResponse.serialize response }
    sessionId := some id }

def handle (request : Frame) (core : CoreSnapshot) (limits : ResourceLimits)
    (peer : PeerIdentity) : SessionProgram HandshakeResult :=
  match checkHello protobuf request peer with
  | .error refused => return refused
  | .ok hello => do
    let created : SessionCreateResult ← sessionCall (.beginHandshake peer)
    if ¬created.status.ok then
      return refuse protobuf request created.status "SESSION_CAPACITY_UNAVAILABLE"
    else
      let activated : Status ← sessionCall (.activate created.id)
      if ¬activated.ok then
        let _ : Status ← sessionCall (.close created.id)
        return refuse protobuf request activated "SESSION_ACTIVATION_FAILED"
      else return accept protobuf request hello core limits created.id

end HandshakeHandler

/-! ### Requests -/

structure RequestRouteResult where
  response : Frame
  closeConnection : Bool := false
  deriving DecidableEq, Repr

namespace RequestRouter

variable (protobuf : Protobuf)

def responseFrame (request : Frame) (type : MessageType) (serialized : List UInt8) : Frame where
  protocolMajor := protocolMajor
  protocolMinor := min request.protocolMinor protocolMinor
  messageType := type
  requestId := request.requestId
  payload := serialized

def validRequestPayload (request : Frame) : Bool := decide (request.payload.length ≤ intMax)

/-- A request that breaks the protocol is answered with an error and ends the connection. -/
def reject (request : Frame) (status : StatusCode) (stableReason : String) :
    RequestRouteResult where
  response := errorFrame protobuf request.requestId status stableReason
  closeConnection := true

def entityInfo (entity : EntityRecord) : LocalV1.EntityInfo where
  entity := some (fillEntityRef entity.ref)
  state := .known (toProtocolEntityState entity.state)
  itemStatus := statusValue entity.itemStatus
  nativeIdStatus := .known (toProtocolStatus entity.nativeId.status)
  pciBdfStatus := .known (toProtocolStatus entity.pciBdf.status)
  pdrvVersionStatus := .known (toProtocolStatus entity.pdrvVersion.status)
  nativeId := entity.nativeId.value
  pciBdf := entity.pciBdf.value
  pdrvVersion := entity.pdrvVersion.value

def entityListResponse (result : EntityListResult) : LocalV1.EntityListResponse where
  status := statusValue result.status.code
  detectedDeviceCount := result.detectedDeviceCount
  catalogGeneration := result.catalogGeneration
  entities := result.entities.map entityInfo

def routeEntityList (core : ServiceCore) (request : Frame) : RequestRouteResult :=
  match protobuf.entityListRequest.parse request.payload with
  | none => reject protobuf request .invalidArgument "MALFORMED_ENTITY_LIST_REQUEST"
  | some message =>
    if ¬message.kind.isValid then
      reject protobuf request .invalidArgument "MALFORMED_ENTITY_LIST_REQUEST"
    else
      let result := core.entities (fromProtocolKind message.kind)
      { response := responseFrame request .entityListResponse
          (protobuf.entityListResponse.serialize (entityListResponse result)) }

def capabilityItem (item : CapabilityItem) : LocalV1.CapabilityItem where
  kind := .known (toProtocolCapabilityKind item.kind)
  id := item.id
  supported := item.supported
  reason := .known (toProtocolReason item.reason)
  semanticVersion := item.semanticVersion
  catalogGeneration := item.catalogGeneration

def capabilityQueryResponse (result : CapabilityQueryResult) : LocalV1.CapabilityQueryResponse :=
  match result.capabilities with
  | none => { status := statusValue result.status.code }
  | some set =>
    { status := statusValue result.status.code
      entity := some (fillEntityRef set.entity)
      catalogGeneration := set.catalogGeneration
      items := set.items.map capabilityItem }

/-- The entity of a request, when it names a device and a generation. -/
def requestedDevice (entity : Option LocalV1.EntityRef) : Option EntityRef :=
  match entity with
  | none => none
  | some e =>
    if e.kind ≠ .known .device ∨ e.generation = 0 then none
    else some { kind := fromProtocolKind e.kind, id := e.pdcmId, generation := e.generation }

def routeCapabilityQuery (core : ServiceCore) (request : Frame) : RequestRouteResult :=
  match protobuf.capabilityQueryRequest.parse request.payload with
  | none => reject protobuf request .invalidArgument "MALFORMED_CAPABILITY_QUERY_REQUEST"
  | some message =>
    match requestedDevice message.entity with
    | none => reject protobuf request .invalidArgument "MALFORMED_CAPABILITY_QUERY_REQUEST"
    | some entity =>
      let result := core.capabilities entity
      { response := responseFrame request .capabilityQueryResponse
          (protobuf.capabilityQueryResponse.serialize (capabilityQueryResponse result)) }

def healthQueryResponse (result : HealthQueryResult) : LocalV1.HealthQueryResponse :=
  match result.item with
  | none => { status := statusValue result.status.code }
  | some item =>
    { status := statusValue result.status.code
      entity := some (fillEntityRef item.entity)
      subsystemId := item.subsystemId
      state := .known (toProtocolHealthState item.state)
      itemStatus := .known (toProtocolStatus item.itemStatus)
      code := healthCodeValue item.code
      catalogGeneration := item.catalogGeneration
      evaluatedMonotonicTimeNs := item.evaluatedMonotonicTimeNs
      evidenceAgeNs := item.evidenceAgeNs
      evidenceId := (item.evidence.head?.map (·.evidenceId)).getD 0
      sequenceOrToken := (item.evidence.head?.map (·.sequenceOrToken)).getD 0
      source := (item.evidence.head?.map (·.source.provider)).getD ""
      limitations := item.limitations.map (·.detail) }

def routeHealthQuery (core : ServiceCore) (request : Frame) : RequestRouteResult :=
  match protobuf.healthQueryRequest.parse request.payload with
  | none => reject protobuf request .invalidArgument "MALFORMED_HEALTH_QUERY_REQUEST"
  | some message =>
    match requestedDevice message.entity with
    | none => reject protobuf request .invalidArgument "MALFORMED_HEALTH_QUERY_REQUEST"
    | some entity =>
      if message.subsystemId = 0 then
        reject protobuf request .invalidArgument "MALFORMED_HEALTH_QUERY_REQUEST"
      else
        let result := core.health
          { entity := entity
            subsystemId := message.subsystemId
            catalogGeneration := message.catalogGeneration
            maxAgeNs := message.maxAgeNs }
        { response := responseFrame request .healthQueryResponse
            (protobuf.healthQueryResponse.serialize (healthQueryResponse result)) }

def route (core : ServiceCore) (request : Frame) : RequestRouteResult :=
  if request.protocolMajor ≠ protocolMajor ∨ protocolMinor < request.protocolMinor then
    reject protobuf request .protocolIncompatible "INCOMPATIBLE_PROTOCOL"
  else if request.requestId = 0 ∨ request.flags ≠ 0 ∨ ¬validRequestPayload request then
    reject protobuf request .invalidArgument "INVALID_FRAME_FIELDS"
  else if request.messageType = .entityListRequest then routeEntityList protobuf core request
  else if request.messageType = .capabilityQueryRequest then
    routeCapabilityQuery protobuf core request
  else if request.messageType = .healthQueryRequest then routeHealthQuery protobuf core request
  else
    { response := errorFrame protobuf request.requestId .unsupported "UNSUPPORTED_MESSAGE_TYPE" }

end RequestRouter
end Pdcm.Ipc
