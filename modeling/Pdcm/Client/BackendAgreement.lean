import Pdcm.Client.StandaloneBackend
import Pdcm.Metrics.HealthQuery

/-!
# Both backends give the same answers

A response of the daemon that the standalone backend accepts is decoded into a result that
differs from the answer of the core in texts and fields only that the C interface does not
show. So the public structures are filled as the embedded backend would have filled them.
-/

namespace Pdcm.Client

open Ipc List StandaloneBackend MetricsManager PdcmServiceCore
open RequestRouter (capabilityQueryResponse entityInfo entityListResponse healthQueryResponse
  requestedDevice route routeCapabilityQuery routeEntityList routeHealthQuery)

variable {decoded : CapabilityQueryResult} (code : StatusCode)

/-! ### Back and forth between the enumerations -/

@[simp] theorem statusOfValue_statusValue : statusOfValue (statusValue code) = code := by
  cases code <;> rfl

@[simp] theorem validProtocolStatus_statusValue :
    validProtocolStatus (statusValue code) = true := by
  cases code <;> decide

@[simp] theorem protocolStatus_statusValue (msg : String) :
    protocolStatus (statusValue code) msg = ⟨code, msg⟩ := by
  simp [protocolStatus]

@[simp] theorem healthCodeOfValue_healthCodeValue (code : StableHealthCode) :
    healthCodeOfValue (healthCodeValue code) = code := by
  cases code <;> rfl

@[simp] theorem fromProtocolKind_toProtocolKind (kind : EntityKind) :
    fromProtocolKind (.known (toProtocolKind kind)) = kind := by
  cases kind <;> rfl

@[simp] theorem fromProtocolEntity_fillEntityRef (entity : EntityRef) :
    fromProtocolEntity (Ipc.fillEntityRef entity) = entity := by
  simp [fromProtocolEntity, Ipc.fillEntityRef]

@[simp] theorem fromProtocolEntityState_toProtocolEntityState (state : EntityState) :
    fromProtocolEntityState (.known (toProtocolEntityState state)) = state := by
  cases state <;> rfl

@[simp] theorem fromProtocolStatus_toProtocolStatus (status : ObservationStatus) :
    fromProtocolStatus (.known (toProtocolStatus status)) = status := by
  cases status <;> rfl

@[simp] theorem fromProtocolCapabilityKind_toProtocolCapabilityKind (kind : CapabilityKind) :
    fromProtocolCapabilityKind (.known (toProtocolCapabilityKind kind)) = kind := by
  cases kind <;> rfl

@[simp] theorem fromProtocolReason_toProtocolReason (reason : CapabilityReason) :
    fromProtocolReason (.known (toProtocolReason reason)) = reason := by
  cases reason <;> rfl

@[simp] theorem fromProtocolHealthState_toProtocolHealthState (state : HealthState) :
    fromProtocolHealthState (.known (toProtocolHealthState state)) = state := by
  cases state <;> rfl

/-! ### Back and forth between results and messages -/

theorem map_capabilityItem (items : List CapabilityItem) :
    (items.map RequestRouter.capabilityItem).map capabilityItem = items := by
  induction items with
  | nil => rfl
  | cons item rest ih =>
    rw [map_cons, map_cons, ih]
    simp [capabilityItem, RequestRouter.capabilityItem]

/-- The protocol has no field for the provider's version and the target, and no output shows
them. -/
theorem map_fillEntityInfo (entities : List EntityRecord) :
    ((entities.map entityInfo).map entityRecord).map fillEntityInfo =
      entities.map fillEntityInfo := by
  induction entities with
  | nil => rfl
  | cons entity rest ih =>
    rw [map_cons, map_cons, map_cons, ih]
    simp [entityRecord, entityInfo, fillEntityInfo]

/-- The first reference, if there is one, has an id. -/
def NamesEvidence (item : HealthResult) : Prop :=
  ∀ evidence ∈ item.evidence, evidence.evidenceId ≠ 0

theorem fillHealthResult_healthResult {res : HealthQueryResult} {item : HealthResult}
    (hit : res.item = some item) (hids : NamesEvidence item) :
    fillHealthResult (healthResult (healthQueryResponse res)) =
      fillHealthResult item := by
  obtain ⟨entity, subsystemId, state, itemStatus, gen, evaluated, age, evidence, limitations,
    code⟩ := item
  have hfi : healthResult (healthQueryResponse res) =
      { entity := entity, subsystemId := subsystemId, state := state, itemStatus := itemStatus
        catalogGeneration := gen, evaluatedMonotonicTimeNs := evaluated
        evidenceAgeNs := age, code := code
        evidence := healthEvidence (healthQueryResponse res)
        limitations := limitations.map fun lim => ⟨.evidenceMissing, lim.detail⟩ } := by
    simp [healthResult, healthQueryResponse, hit]
  rw [hfi]
  cases evidence with
  | nil =>
    have hno : healthEvidence (healthQueryResponse res) = [] := by
      simp [healthEvidence, healthQueryResponse, hit]
    rw [hno]
    cases limitations with
    | nil => rfl
    | cons lim others => rfl
  | cons first rest =>
    have hid : first.evidenceId ≠ 0 := hids first (mem_cons_self ..)
    have hfir : healthEvidence (healthQueryResponse res) =
        [{ evidenceId := first.evidenceId, sequenceOrToken := first.sequenceOrToken
           observedMonotonicTimeNs := evaluated - age
           source := { provider := first.source.provider } }] := by
      simp [healthEvidence, healthQueryResponse, hit, hid]
    rw [hfir]
    cases limitations with
    | nil => rfl
    | cons lim others => rfl

/-! ### Accepted responses -/

theorem outputEntities_of_decode {res decoded : EntityListResult}
    (h : decodeEntities (entityListResponse res) = .ok decoded)
    (entities : Option (List PublicEntityInfo)) (capacity : ℕ) :
    outputEntities decoded entities capacity = outputEntities res entities capacity := by
  simp only [decodeEntities, entityListResponse, validProtocolStatus_statusValue,
    not_true_eq_false, if_false, protocolStatus_statusValue] at h
  split_ifs at h with hfa hre hva
  · cases h
    simp [outputEntities, hfa]
  · cases h
    simp only [outputEntities, length_map, map_fillEntityInfo]

theorem decodeCapabilities_cases {resp : LocalV1.CapabilityQueryResponse}
    (h : decodeCapabilities resp = .ok decoded) :
    (resp.entity = none ∧
      decoded = { status := protocolStatus resp.status "capability query result" }) ∨
    ((protocolStatus resp.status "capability query result").ok = true ∧
      validPresentEntity resp.entity = true ∧
      decoded =
        { status := .success
          capabilities := some
            { entity := fromProtocolEntity (resp.entity.getD {})
              catalogGeneration := resp.catalogGeneration
              items := resp.items.map capabilityItem } }) := by
  unfold decodeCapabilities at h
  by_cases hst : validProtocolStatus resp.status = true
  · rw [if_neg (not_not.mpr hst)] at h
    by_cases hok : (protocolStatus resp.status "capability query result").ok = true
    · rw [if_neg (not_not.mpr hok)] at h
      split_ifs at h with hid hit
      · cases h
        exact .inr ⟨hok, not_not.mp fun hbad => hid (.inl hbad), rfl⟩
    · rw [if_pos hok] at h
      split_ifs at h with hre
      · cases h
        exact .inl ⟨not_not.mp fun hpr => hre (.inl hpr), rfl⟩
  · rw [if_pos hst] at h
    cases h

theorem decodeCapabilities_ok {res : CapabilityQueryResult}
    (h : decodeCapabilities (capabilityQueryResponse res) = .ok decoded) :
    decoded.status.code = res.status.code ∧ decoded.capabilities = res.capabilities := by
  obtain ⟨⟨code, msg⟩, caps⟩ := res
  cases caps with
  | none =>
    rcases decodeCapabilities_cases h with ⟨-, rfl⟩ | ⟨-, hpr, -⟩
    · refine ⟨?_, rfl⟩
      simp only [capabilityQueryResponse, protocolStatus_statusValue]
    · cases hpr
  | some set =>
    rcases decodeCapabilities_cases h with ⟨hab, -⟩ | ⟨hok, -, rfl⟩
    · cases hab
    · simp only [capabilityQueryResponse, protocolStatus_statusValue,
        Status.ok_iff] at hok
      refine ⟨hok.symm, ?_⟩
      simp only [capabilityQueryResponse, map_capabilityItem, Option.getD_some,
        fromProtocolEntity_fillEntityRef]

theorem outputHealth_of_decode {res decoded : HealthQueryResult}
    (h : decodeHealth (healthQueryResponse res) = .ok decoded)
    (hids : ∀ item, res.item = some item → NamesEvidence item) (out : PublicHealthResult) :
    outputHealth decoded out = outputHealth res out := by
  have hst : (healthQueryResponse res).status = statusValue res.status.code := by
    unfold healthQueryResponse
    cases res.item with
    | none => rfl
    | some item => rfl
  simp only [decodeHealth, hst, validProtocolStatus_statusValue, not_true_eq_false, if_false,
    protocolStatus_statusValue] at h
  split_ifs at h with hfa hre hva
  · cases h
    simp [outputHealth, hfa]
  · cases h
    cases hit : res.item with
    | none =>
      have hno : (healthQueryResponse res).entity = none := by
        simp [healthQueryResponse, hit]
      simp [validHealthResponse, validPresentEntity, hno] at hva
    | some item =>
      simp only [outputHealth, hit, fillHealthResult_healthResult hit (hids item hit)]

/-! ### The daemon's side -/

/-- The message survives the way through the bytes. -/
def RoundTrips {M : Type} (codec : Codec M) (message : M) : Prop :=
  codec.parse (codec.serialize message) = some message

/-- The transport that delivers every frame to the router and its response to the client. -/
def daemon (protobuf : Protobuf) (core : ServiceCore) : Transport := fun request =>
  .ok (route protobuf core request).response

section Daemon

variable {protobuf : Protobuf} {core : ServiceCore} {b : StandaloneBackend} {entity : EntityRef}

theorem route_response (req : Frame) :
    (route protobuf core req).response.messageType = .errorResponse ∨
      (req.messageType = .entityListRequest → route protobuf core req =
        routeEntityList protobuf core req) ∧
      (req.messageType = .capabilityQueryRequest → route protobuf core req =
        routeCapabilityQuery protobuf core req) ∧
      (req.messageType = .healthQueryRequest → route protobuf core req =
        routeHealthQuery protobuf core req) := by
  unfold route
  split_ifs with hpr hfi hen hca hhe
  · exact .inl rfl
  · exact .inl rfl
  · apply Or.inr
    refine ⟨fun _ => rfl, ?_, ?_⟩
    · intro hty
      rw [hen] at hty
      exact absurd hty (by decide)
    · intro hty
      rw [hen] at hty
      exact absurd hty (by decide)
  · apply Or.inr
    refine ⟨fun hty => absurd hty hen, fun _ => rfl, ?_⟩
    intro hty
    rw [hca] at hty
    exact absurd hty (by decide)
  · exact .inr ⟨fun hty => absurd hty hen, fun hty => absurd hty hca, fun _ => rfl⟩
  · exact .inl rfl

theorem requestedDevice_fillEntityRef (hki : entity.kind = .device) (hgen : entity.generation ≠ 0) :
    requestedDevice (some (Ipc.fillEntityRef entity)) = some entity := by
  obtain ⟨kind, id, gen⟩ := entity
  obtain rfl : kind = .device := hki
  have hva : ¬((Ipc.fillEntityRef ⟨.device, id, gen⟩).kind ≠ .known .device ∨
      (Ipc.fillEntityRef ⟨.device, id, gen⟩).generation = 0) := by
    rintro (hot | hze)
    · exact hot rfl
    · exact hgen hze
  rw [requestedDevice, if_neg hva]
  rfl

theorem reply_routed {M R : Type} {codec : Codec M} {failed : Status → R}
    {tooLarge malformed : String} {decode : M → Except R R} {type exp : MessageType}
    {pl : List UInt8} {r : R} (hexp : exp ≠ .errorResponse)
    (h : reply codec failed tooLarge malformed decode
      (b.exchangeLocked protobuf (daemon protobuf core) type pl exp).2 = .ok r) :
    (route protobuf core (b.requestFrame type pl)).response.messageType ≠
        .errorResponse ∧
      ∃ msg, codec.parse (route protobuf core
        (b.requestFrame type pl)).response.payload = some msg ∧
        decode msg = .ok r := by
  unfold reply at h
  split at h
  · cases h
  next frame hex =>
    unfold exchangeLocked at hex
    split_ifs at hex
    dsimp only [daemon] at hex
    split at hex
    · cases hex
    obtain ⟨rfl, hty, -⟩ := checkEnvelope_ok hex
    split_ifs at h
    split at h
    next => cases h
    next msg hpa => exact ⟨hty ▸ hexp, msg, hpa, h⟩

theorem entitiesReply_ok {kind : EntityKind} {decoded : EntityListResult}
    (hreq : RoundTrips protobuf.entityListRequest (entityListRequest kind))
    (hre : RoundTrips protobuf.entityListResponse
      (entityListResponse (core.entities kind)))
    (h : b.entitiesReply protobuf (daemon protobuf core) kind = .ok decoded) :
    decodeEntities (entityListResponse (core.entities kind)) = .ok decoded := by
  obtain ⟨hans, msg, hpa, hde⟩ := reply_routed (by decide) h
  obtain ⟨hro, -⟩ := (route_response _).resolve_left hans
  have hki : (entityListRequest kind).kind.isValid = true := rfl
  rw [hro rfl, routeEntityList, requestFrame, hreq] at hpa
  dsimp only at hpa
  rw [entityListRequest, fromProtocolKind_toProtocolKind] at hpa
  cases hre.symm.trans hpa
  exact hde

theorem capabilitiesReply_ok (hki : entity.kind = .device) (hgen : entity.generation ≠ 0)
    (hreq : RoundTrips protobuf.capabilityQueryRequest (capabilityQueryRequest entity))
    (hre : RoundTrips protobuf.capabilityQueryResponse
      (capabilityQueryResponse (core.capabilities entity)))
    (h : b.capabilitiesReply protobuf (daemon protobuf core) entity = .ok decoded) :
    decodeCapabilities (capabilityQueryResponse (core.capabilities entity)) =
      .ok decoded := by
  obtain ⟨hans, msg, hpa, hde⟩ := reply_routed (by decide) h
  obtain ⟨-, hro, -⟩ := (route_response _).resolve_left hans
  have hen : requestedDevice (capabilityQueryRequest entity).entity =
      some entity := requestedDevice_fillEntityRef hki hgen
  rw [hro rfl, routeCapabilityQuery, requestFrame, hreq] at hpa
  simp only [hen] at hpa
  cases hre.symm.trans hpa
  exact hde

theorem healthReply_ok {req : HealthRequest} {decoded : HealthQueryResult}
    (hki : req.entity.kind = .device) (hgen : req.entity.generation ≠ 0)
    (hsub : req.subsystemId ≠ 0)
    (hreq : RoundTrips protobuf.healthQueryRequest (healthQueryRequest req))
    (hre : RoundTrips protobuf.healthQueryResponse
      (healthQueryResponse (core.health req)))
    (h : b.healthReply protobuf (daemon protobuf core) req = .ok decoded) :
    decodeHealth (healthQueryResponse (core.health req)) = .ok decoded := by
  obtain ⟨hans, msg, hpa, hde⟩ := reply_routed (by decide) h
  obtain ⟨-, -, hro⟩ := (route_response _).resolve_left hans
  have hen : requestedDevice (healthQueryRequest req).entity =
      some req.entity := requestedDevice_fillEntityRef hki hgen
  have hsub' : (healthQueryRequest req).subsystemId ≠ 0 := hsub
  rw [hro rfl, routeHealthQuery, requestFrame, hreq] at hpa
  simp only [hen, if_neg hsub'] at hpa
  cases hre.symm.trans hpa
  exact hde

end Daemon

/-! ### Reachable cores -/

/-- The evidence of a health answer was stored, so it has an id. -/
theorem heartbeatAt_namesEvidence {L : Limits} {m : MetricsManager L}
    (hinv : m.data.EvidenceInvariant) (entity : EntityRef) (now : ℤ) (fr : ℕ) :
    NamesEvidence (m.heartbeatAt entity now fr) := by
  unfold heartbeatAt
  split_ifs
  · intro ev hev
    cases hev
  · cases hre : (m.data.latestHeartbeatEvidence entity m.runtime.catalogGeneration).evidence with
    | none =>
      intro ev hev
      cases hev
    | some e =>
      dsimp only
      split_ifs
      · intro ev hev
        cases hev
      · obtain ⟨-, hla⟩ := DataManager.latestHeartbeatEvidence_evidence.mp hre
        obtain ⟨hlas, -⟩ := hinv.latestEvidence?_eq_some.mp hla
        have hpos := (hinv.evidence e (mem_of_getLast? hlas)).positive
        intro ev hev
        rw [(Runtime.evaluate_fields m.runtime e now fr).2.2] at hev
        rw [mem_singleton.mp hev]
        exact Nat.one_le_iff_ne_zero.mp hpos

/-! ### Agreement -/

def openHandle (backend : ClientBackend) : Option Handle := some { backend := some backend }

/-- The kind that a call without a filter or with a valid one asks for. -/
def filterKind (filter : Option PublicEntityFilter) : EntityKind :=
  filter.elim .unknown fun filter => toInternalEntityKind filter.kind

/-- The request that the backend gets. -/
def internalHealthRequest (request : PublicHealthRequest) (entity : EntityRef) : HealthRequest where
  entity := entity
  subsystemId := request.subsystemId
  catalogGeneration := request.catalogGeneration
  maxAgeNs := request.maxAgeNs

/-- Whenever the standalone client accepts the response of the daemon, the three queries of
the C interface return the same as over an embedded backend with the same core. -/
structure BackendsAgree (protobuf : Protobuf) (core : ServiceCore) (b : StandaloneBackend) :
    Prop where
  entities : ∀ filter array inoutCount result,
    RoundTrips protobuf.entityListRequest (entityListRequest (filterKind filter)) →
    RoundTrips protobuf.entityListResponse
      (entityListResponse (core.entities (filterKind filter))) →
    b.entitiesReply protobuf (daemon protobuf core) (filterKind filter) = .ok result →
    entityList (openHandle (b.client protobuf (daemon protobuf core))) filter array inoutCount =
      entityList (openHandle (EmbeddedBackend.client { started := true, core := core })) filter
        array inoutCount
  capabilities : ∀ entity ref out result, toInternalEntityRef entity = .ok ref →
    RoundTrips protobuf.capabilityQueryRequest (capabilityQueryRequest ref) →
    RoundTrips protobuf.capabilityQueryResponse
      (capabilityQueryResponse (core.capabilities ref)) →
    b.capabilitiesReply protobuf (daemon protobuf core) ref = .ok result →
    capabilityQuery (openHandle (b.client protobuf (daemon protobuf core))) (some entity) out =
      capabilityQuery (openHandle (EmbeddedBackend.client { started := true, core := core }))
        (some entity) out
  health : ∀ request ref out result, toInternalEntityRef request.entity = .ok ref →
    request.subsystemId ≠ 0 →
    RoundTrips protobuf.healthQueryRequest
      (healthQueryRequest (internalHealthRequest request ref)) →
    RoundTrips protobuf.healthQueryResponse
      (healthQueryResponse (core.health (internalHealthRequest request ref))) →
    b.healthReply protobuf (daemon protobuf core) (internalHealthRequest request ref) = .ok result →
    healthQuery (openHandle (b.client protobuf (daemon protobuf core))) (some request) out =
      healthQuery (openHandle (EmbeddedBackend.client { started := true, core := core }))
        (some request) out

theorem acquire_openHandle (backend : ClientBackend) :
    acquire (openHandle backend) = .ok backend := by
  simp [acquire, openHandle]

theorem toInternalEntityRef_ok {entity : PublicEntityRef} {ref : EntityRef}
    (h : toInternalEntityRef entity = .ok ref) : ref.kind = .device ∧ ref.generation ≠ 0 := by
  unfold toInternalEntityRef at h
  split_ifs at h with hbad
  cases h
  exact ⟨rfl, fun hze => hbad (.inr (.inr (.inr hze)))⟩

theorem backendsAgree_of_namesEvidence {protobuf : Protobuf} {core : ServiceCore}
    {b : StandaloneBackend}
    (hids : ∀ req item, (core.health req).item = some item → NamesEvidence item) :
    BackendsAgree protobuf core b := by
  constructor
  · intro filter array inoutCount result hreq hresp hre
    have hde := entitiesReply_ok hreq hresp hre
    have hres : (b.client protobuf (daemon protobuf core)).entities (filterKind filter) =
        result := congrArg StandaloneBackend.result hre
    have hou : ∀ capacity,
        outputEntities ((b.client protobuf (daemon protobuf core)).entities (filterKind filter))
          array capacity = outputEntities (core.entities (filterKind filter)) array capacity := by
      intro capacity
      rw [hres]
      exact outputEntities_of_decode hde array capacity
    unfold filterKind at hou
    simp only [entityList, acquire_openHandle, hou]
    rfl
  · intro entity ref out result href hreq hresp hre
    obtain ⟨hki, hgen⟩ := toInternalEntityRef_ok href
    have hde := capabilitiesReply_ok hki hgen hreq hresp hre
    have hres : (b.client protobuf (daemon protobuf core)).capabilities ref = result :=
      congrArg StandaloneBackend.result hre
    have hou : ∀ set,
        outputCapabilities ((b.client protobuf (daemon protobuf core)).capabilities ref) set =
          outputCapabilities (core.capabilities ref) set := by
      intro set
      obtain ⟨hco, hset⟩ := decodeCapabilities_ok hde
      simp only [hres, outputCapabilities, Status.ok, hco, hset]
    simp only [capabilityQuery, acquire_openHandle, Option.elim_some, href, hou]
    rfl
  · intro req ref out result href hsub hreq hresp hre
    obtain ⟨hki, hgen⟩ := toInternalEntityRef_ok href
    have hde := healthReply_ok hki hgen hsub hreq hresp hre
    have hres : (b.client protobuf (daemon protobuf core)).health
        (internalHealthRequest req ref) = result := congrArg StandaloneBackend.result hre
    have hou : ∀ memory,
        outputHealth ((b.client protobuf (daemon protobuf core)).health
          (internalHealthRequest req ref)) memory =
          outputHealth (core.health (internalHealthRequest req ref)) memory := by
      intro memory
      rw [hres]
      exact outputHealth_of_decode hde (hids _) memory
    unfold internalHealthRequest at hou
    cases out with
    | none => rfl
    | some memory =>
      simp only [healthQuery, acquire_openHandle, href, hou]
      rfl

/-- The core state is any snapshot and any catalog view together with a metrics manager
whose data any run of calls stored; its runtime may be of an earlier moment. -/
theorem run_backendsAgree (L : Limits) (processors : List (Option MetricProcessor))
    (ops : List MetricsOp) (runtime : Runtime) (snapshot : CoreSnapshot) (view : CatalogView)
    (now : ℤ) (protobuf : Protobuf) (b : StandaloneBackend) :
    BackendsAgree protobuf
      (PdcmServiceCore.answers
        { snapshot := snapshot, catalogSnapshot := view
          metricsManager := { MetricsManager.run L processors ops with runtime := runtime } } now)
      b := by
  apply backendsAgree_of_namesEvidence
  intro request item hitem
  unfold PdcmServiceCore.answers health at hitem
  dsimp only at hitem
  split_ifs at hitem
  obtain ⟨-, -, -, rfl⟩ := queryHealth_item hitem
  unfold queryItem
  split_ifs
  · apply heartbeatAt_namesEvidence
    exact run_evidenceInvariant L processors ops
  · intro ev hev
    cases hev

namespace Loopback

open OneDevice

/-- A core that serves one device with a normal heartbeat, asked at 2. -/
def core : ServiceCore :=
  PdcmServiceCore.answers
    { snapshot := { state := .ready, catalogGeneration := 1 }
      catalogSnapshot := view 1
      metricsManager :=
        { run limits [] healthyRun with
          runtime := (run limits [] healthyRun).runtime } } 2

def backend : StandaloneBackend :=
  { started := true, connected := true, protocolMajor := 1, maxFrameBytes := 1024 }

def heartbeatRequest : PublicHealthRequest :=
  { header := ⟨sizeofHealthRequest, structVersion1⟩
    entity := Client.fillEntityRef device
    subsystemId := firmwareHeartbeatHealthId }

/-- Protobuf as far as the three requests below go. -/
def protobuf : Protobuf where
  helloRequest := .table []
  helloResponse := .table []
  errorResponse := .table []
  entityListRequest := .table ([.device, .unknown].map entityListRequest)
  entityListResponse :=
    .table [{}, entityListResponse (core.entities .unknown)]
  capabilityQueryRequest := .table [{}, capabilityQueryRequest device]
  capabilityQueryResponse :=
    .table [{}, capabilityQueryResponse (core.capabilities device)]
  healthQueryRequest :=
    .table [{}, healthQueryRequest (internalHealthRequest heartbeatRequest device)]
  healthQueryResponse :=
    .table [{}, healthQueryResponse
      (core.health (internalHealthRequest heartbeatRequest device))]

def standalone : Option Handle := openHandle (backend.client protobuf (daemon protobuf core))

def embedded : Option Handle :=
  openHandle (EmbeddedBackend.client { started := true, core := core })

def infos : List PublicEntityInfo := [{ header := ⟨sizeofEntityInfo, structVersion1⟩ }]

def capabilitySet : PublicCapabilitySet :=
  { header := ⟨sizeofCapabilitySet, structVersion1⟩
    items := some [{ header := ⟨sizeofCapabilityItem, structVersion1⟩ }], itemCapacity := 1 }

def healthMemory : PublicHealthResult := { header := ⟨sizeofHealthResult, structVersion1⟩ }

/-- All three responses are accepted; the heartbeat is reported with its evidence. -/
theorem run_backendsAgree_oneDevice :
    entityList standalone none (some infos) (some 1) =
        entityList embedded none (some infos) (some 1) ∧
      capabilityQuery standalone (some (Client.fillEntityRef device)) (some capabilitySet) =
        capabilityQuery embedded (some (Client.fillEntityRef device)) (some capabilitySet) ∧
      healthQuery standalone (some heartbeatRequest) (some healthMemory) =
        healthQuery embedded (some heartbeatRequest) (some healthMemory) ∧
      (healthQuery standalone (some heartbeatRequest) (some healthMemory)).result.map
        (fun result => (result.state, result.evidenceId, result.source.take 5)) =
        some (1, 1, [109, 111, 99, 107, 0]) := by
  have hagree := run_backendsAgree limits [] healthyRun
    (run limits [] healthyRun).runtime
    { state := .ready, catalogGeneration := 1 } (view 1) 2 protobuf backend
  have hreplies :
      backend.entitiesReply protobuf (daemon protobuf core) .unknown =
        .ok (StandaloneBackend.result
          (backend.entitiesReply protobuf (daemon protobuf core) .unknown)) ∧
      backend.capabilitiesReply protobuf (daemon protobuf core) device =
        .ok (StandaloneBackend.result
          (backend.capabilitiesReply protobuf (daemon protobuf core) device)) ∧
      backend.healthReply protobuf (daemon protobuf core)
          (internalHealthRequest heartbeatRequest device) =
        .ok (StandaloneBackend.result (backend.healthReply protobuf (daemon protobuf core)
          (internalHealthRequest heartbeatRequest device))) := by
    decide +kernel
  obtain ⟨hentities, hcapabilities, hhealth⟩ := hreplies
  refine ⟨?_, ?_, ?_, by decide +kernel⟩
  · refine hagree.entities none (some infos) (some 1) _ ?_ ?_ hentities <;>
      exact Codec.parse_table (by decide) (.tail _ (.head _))
  · refine hagree.capabilities _ device (some capabilitySet) _ rfl ?_ ?_ hcapabilities <;>
      exact Codec.parse_table (by decide) (.tail _ (.head _))
  · refine hagree.health heartbeatRequest device (some healthMemory) _ rfl (by decide) ?_ ?_
        hhealth <;>
      exact Codec.parse_table (by decide) (.tail _ (.head _))

end Loopback
end Pdcm.Client
