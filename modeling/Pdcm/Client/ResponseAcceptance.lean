import Pdcm.Client.BackendAgreement
import Pdcm.Semantic.CommittedViews

/-!
# Responses that the client accepts

The client checks every response of the daemon once more. A core that was started from any
provider descriptors and has stored any evidence answers with records, capability items and
health results that pass these checks, as long as the texts in them fit into the arrays of
the C interface. The catalog takes texts of any length from the provider, so a response with
a longer one is rejected although the query succeeded.
-/

namespace Pdcm

open Ipc Library List MetricsManager PdcmServiceCore OpenEnum
open RequestRouter (capabilityQueryResponse entityInfo entityListResponse healthQueryResponse
  requestedDevice responseFrame route routeCapabilityQuery routeEntityList routeHealthQuery)

namespace Client

open StandaloneBackend

variable {result : HealthQueryResult}

/-! ### Messages that pass the checks -/

/-- The texts of a device fit into the fields of the C interface. -/
structure DeviceFits (device : ProviderEntity) : Prop where
  nativeId : device.stableNativeId.utf8ByteSize < 64
  pciBdf : device.pciBdf.utf8ByteSize < 32
  pdrvVersion : device.pdrvVersion.utf8ByteSize < 64

theorem validEntityRef_fillEntityRef {ent : EntityRef} (hki : ent.kind = .device)
    (hgen : ent.generation ≠ 0) : validEntityRef (Ipc.fillEntityRef ent) = true := by
  simp [validEntityRef, Ipc.fillEntityRef, hki, hgen, toProtocolKind, isValid]

theorem validObservation_toProtocolStatus (st : ObservationStatus) :
    validObservation (.known (toProtocolStatus st)) = true := by
  cases st <;> rfl

theorem validEntityInfo_entityInfo {d : ProviderDescriptor} {dev : ProviderEntity}
    {ref : EntityRef} (hfi : DeviceFits dev) (hki : ref.kind = .device)
    (hgen : ref.generation ≠ 0) :
    validEntityInfo (entityInfo (SemanticCatalog.entityRecord d dev ref)) =
      true := by
  have href := validEntityRef_fillEntityRef hki hgen
  have hpd : (SemanticCatalog.entityRecord d dev ref).pdrvVersion.value.utf8ByteSize < 64 := by
    unfold SemanticCatalog.entityRecord
    dsimp only
    split_ifs
    · decide
    · exact hfi.pdrvVersion
  simp only [validEntityInfo, entityInfo,
    validObservation_toProtocolStatus, validProtocolStatus_statusValue, Bool.and_true,
    Bool.and_eq_true]
  exact ⟨⟨href, rfl⟩, decide_eq_true ⟨hfi.nativeId, hfi.pciBdf, hpd⟩⟩

theorem validCapabilityItem_capabilityItem {item : CapabilityItem}
    (hver : item.semanticVersion ≠ 0) (hgen : item.catalogGeneration ≠ 0) :
    validCapabilityItem (RequestRouter.capabilityItem item) = true := by
  have hki : decide (known (toProtocolCapabilityKind item.kind) ≠
      .known .unspecified) = true := by
    cases item.kind <;> rfl
  have hre : decide (known (toProtocolReason item.reason) ≠
      .known .unspecified) = true := by
    cases item.reason <;> rfl
  simp only [validCapabilityItem, Bool.and_eq_true]
  exact ⟨⟨⟨⟨rfl, hki⟩, rfl⟩, hre⟩, decide_eq_true ⟨hver, hgen⟩⟩

/-- The texts of a health result fit. -/
structure HealthFits (item : HealthResult) : Prop where
  source : ∀ evidence ∈ item.evidence, evidence.source.provider.utf8ByteSize < healthSourceCapacity
  limitations : ∀ limitation ∈ item.limitations,
    limitation.detail.utf8ByteSize < healthLimitationCapacity

/-- What the client checks beside the texts. -/
structure HealthNamed (item : HealthResult) : Prop where
  kind : item.entity.kind = .device
  generation : item.entity.generation ≠ 0
  subsystem : item.subsystemId ≠ 0
  catalog : item.catalogGeneration ≠ 0

theorem validHealthResponse_healthQueryResponse {item : HealthResult}
    (hit : result.item = some item) (hna : HealthNamed item) (hfi : HealthFits item) :
    validHealthResponse (healthQueryResponse result) = true := by
  have href := validEntityRef_fillEntityRef hna.kind hna.generation
  have hsta : decide (known (toProtocolHealthState item.state) ≠
      .known .unspecified) = true := by
    cases item.state <;> rfl
  have hst : validProtocolStatus
      (observationValue (.known (toProtocolStatus item.itemStatus))) = true := by
    cases item.itemStatus <;> rfl
  have hco : healthCodeValue item.code ≤ healthCodeValue .processorError := by
    cases item.code <;> decide
  have hso : ((item.evidence.head?.map (·.source.provider)).getD "").utf8ByteSize <
      healthSourceCapacity := by
    cases hev : item.evidence with
    | nil => decide
    | cons first rest => exact hfi.source first (hev ▸ mem_cons_self)
  have hli : ((item.limitations.map (·.detail)).all fun text =>
      decide (text.utf8ByteSize < healthLimitationCapacity)) = true := by
    rw [all_map, all_eq_true]
    intro lim hlim
    exact decide_eq_true (hfi.limitations lim hlim)
  simp only [validHealthResponse, healthQueryResponse, hit, validPresentEntity,
    Option.any_some, href, hna.subsystem, hna.catalog, hsta, hst, hco, hso,
    hli, isValid, decide_true, Bool.and_self, ne_eq, not_false_eq_true]

/-! ### Results that are accepted -/

theorem decodeEntities_accepts {result : EntityListResult}
    (hfa : result.status.code ≠ .success ∧ result.status.code ≠ .partialResult →
      result.entities = [])
    (hva : ∀ rec ∈ result.entities, validEntityInfo (entityInfo rec) = true) :
    ∃ dec, decodeEntities (entityListResponse result) = .ok dec ∧
      dec.status.code = result.status.code := by
  have hall : (result.entities.map entityInfo).all validEntityInfo = true := by
    rw [all_map, all_eq_true]
    exact hva
  simp only [decodeEntities, entityListResponse, validProtocolStatus_statusValue,
    not_true_eq_false, if_false, protocolStatus_statusValue]
  split_ifs with hst hre
  · simp [hfa hst] at hre
  · exact ⟨_, rfl, rfl⟩
  · exact ⟨_, rfl, rfl⟩

theorem decodeCapabilities_accepts {result : CapabilityQueryResult}
    (hfa : result.capabilities = none → result.status.ok = false)
    (hset : ∀ set, result.capabilities = some set → result.status.ok = true ∧
      set.entity.kind = .device ∧ set.entity.generation ≠ 0 ∧ set.catalogGeneration ≠ 0 ∧
      ∀ item ∈ set.items, item.semanticVersion ≠ 0 ∧
        item.catalogGeneration = set.catalogGeneration) :
    ∃ dec, decodeCapabilities (capabilityQueryResponse result) = .ok dec ∧
      dec.status.code = result.status.code := by
  obtain ⟨⟨code, msg⟩, caps⟩ := result
  cases caps with
  | none =>
    have hok : ¬(⟨code, "capability query result"⟩ : Status).ok = true := by
      simpa [Status.ok] using hfa rfl
    simp only [decodeCapabilities, capabilityQueryResponse,
      validProtocolStatus_statusValue, protocolStatus_statusValue,
      if_pos hok]
    exact ⟨_, rfl, rfl⟩
  | some set =>
    obtain ⟨hok, hki, hgen, hcat, hit⟩ := hset set rfl
    obtain rfl : code = .success := by simpa [Status.ok_iff] using hok
    have hpr : validPresentEntity (some (Ipc.fillEntityRef set.entity)) = true :=
      validEntityRef_fillEntityRef hki hgen
    have hall : ((set.items.map RequestRouter.capabilityItem).all fun input =>
        validCapabilityItem input &&
          decide (input.catalogGeneration = set.catalogGeneration)) = true := by
      rw [all_map, all_eq_true]
      intro item hite
      obtain ⟨hver, hsa⟩ := hit item hite
      have hva := validCapabilityItem_capabilityItem hver (hsa ▸ hcat)
      rw [Function.comp_apply, hva]
      exact decide_eq_true hsa
    have hst : ¬¬(⟨.success, "capability query result"⟩ : Status).ok = true := by
      simp [Status.ok]
    simp only [decodeCapabilities, capabilityQueryResponse,
      validProtocolStatus_statusValue, protocolStatus_statusValue, not_true_eq_false, if_false]
    rw [if_neg hst]
    refine ⟨_, (if_neg ?_).trans (if_pos hall), rfl⟩
    simp [hpr, hcat]

theorem decodeHealth_accepts (hfa : result.item = none →
      result.status.code ≠ .success ∧ result.status.code ≠ .partialResult)
    (hit : ∀ item, result.item = some item →
      (result.status.code = .success ∨ result.status.code = .partialResult) ∧
        HealthNamed item ∧ HealthFits item) :
    ∃ dec, decodeHealth (healthQueryResponse result) = .ok dec ∧
      dec.status.code = result.status.code := by
  cases hre : result.item with
  | none =>
    have hco := hfa hre
    simp only [decodeHealth, healthQueryResponse, hre,
      validProtocolStatus_statusValue, protocolStatus_statusValue,
      if_pos hco]
    exact ⟨_, rfl, rfl⟩
  | some item =>
    obtain ⟨hco, hna, hfi⟩ := hit item hre
    have hva := validHealthResponse_healthQueryResponse hre hna hfi
    have hst : (healthQueryResponse result).status =
        statusValue result.status.code := by
      simp [healthQueryResponse, hre]
    have hse : ¬(result.status.code ≠ .success ∧ result.status.code ≠ .partialResult) := by
      rintro ⟨hsu, hpa⟩
      exact hco.elim hsu hpa
    simp only [decodeHealth, hst, validProtocolStatus_statusValue, protocolStatus_statusValue,
          if_neg hse, hva]
    exact ⟨_, rfl, rfl⟩

/-! ### The answers of a core -/

end Client

theorem SemanticCatalog.CommittedView.item_versions {target : TargetCatalog}
    {d : ProviderDescriptor} {v : CatalogView} (h : CommittedView target d v)
    (valid : target.validate.ok = true) {set : CapabilitySet} (hset : set ∈ v.capabilitySets) :
    set.catalogGeneration ≠ 0 ∧ ∀ item ∈ set.items, item.semanticVersion ≠ 0 ∧
      item.catalogGeneration = set.catalogGeneration := by
  obtain ⟨hcat, hme, hhe, -⟩ := TargetCatalog.versions_of_validate valid
  rw [h.sets] at hset
  obtain ⟨rec, -, rfl⟩ := mem_map.mp hset
  refine ⟨h.generation_ne, fun item hit => ?_⟩
  rcases mem_cons.mp hit with rfl | hit
  · exact ⟨hcat, rfl⟩
  rcases mem_append.mp hit with hit | hit
  · obtain ⟨mid, hmet, rfl⟩ := mem_map.mp hit
    exact ⟨hme mid hmet, rfl⟩
  · rw [mem_singleton.mp hit, healthCapability]
    split
    · exact ⟨hhe, rfl⟩
    · exact ⟨hhe, rfl⟩

namespace Client

open StandaloneBackend

section Core

variable {L : Limits} {target : TargetCatalog} {c : PdcmServiceCore L} {m : MetricsManager L}
  {request : HealthRequest}

/-- Nothing was committed yet, or a descriptor whose devices have texts that fit. -/
def ViewFits (target : TargetCatalog) (view : CatalogView) : Prop :=
  view = {} ∨ ∃ d, SemanticCatalog.CommittedView target d view ∧
    ∀ device ∈ d.manageable, DeviceFits device

theorem entities_accepted (hvi : ViewFits target c.catalogSnapshot) (kind : EntityKind) :
    ∃ dec, decodeEntities (entityListResponse (c.entities kind)) = .ok dec ∧
      dec.status.code = (c.entities kind).status.code := by
  unfold entities
  split
  · exact decodeEntities_accepts (fun _ => rfl) fun _ hre => by cases hre
  split
  · exact decodeEntities_accepts (fun _ => rfl) fun _ hre => by cases hre
  next hgen =>
    have hval : ∀ rec ∈ c.catalogSnapshot.entities,
        validEntityInfo (entityInfo rec) = true := by
      intro rec hre
      rcases hvi with hem | ⟨d, hco, hfi⟩
      · exact absurd (congrArg CatalogView.generation hem) hgen
      · obtain ⟨dev, hde, ref, rfl, hki, href⟩ := hco.record rec hre
        exact validEntityInfo_entityInfo (hfi dev hde) hki href
    unfold CatalogView.list
    split_ifs
    · exact decodeEntities_accepts (fun _ => rfl) fun _ hre => by cases hre
    · exact decodeEntities_accepts (fun _ => rfl) fun _ hre => by cases hre
    · exact decodeEntities_accepts (fun hst => absurd rfl hst.2) hval
    · exact decodeEntities_accepts (fun hst => absurd rfl hst.1) hval

theorem capabilities_accepted (valid : target.validate.ok = true)
    (hvi : ViewFits target c.catalogSnapshot) {ent : EntityRef}
    (hki : ent.kind = .device) (hgen : ent.generation ≠ 0) :
    ∃ dec, decodeCapabilities
        (capabilityQueryResponse (c.capabilities ent)) = .ok dec ∧
      dec.status.code = (c.capabilities ent).status.code := by
  apply decodeCapabilities_accepts
  · unfold capabilities
    split
    · exact fun _ => rfl
    split
    · exact fun _ => rfl
    · cases hset : c.catalogSnapshot.capabilities ent with
      | error st => exact fun _ => CatalogView.capabilities_error hset
      | ok set => exact fun hno => by cases hno
  · intro set hset
    unfold capabilities at hset ⊢
    split_ifs at hset ⊢ with hse hno
    cases hfo : c.catalogSnapshot.capabilities ent with
    | error st =>
      rw [hfo] at hset
      cases hset
    | ok found =>
      rw [hfo] at hset
      cases hset
      obtain ⟨hmem, rfl⟩ := CatalogView.capabilities_ok hfo
      rcases hvi with hem | ⟨d, hco, -⟩
      · exact absurd (congrArg CatalogView.generation hem) hno
      · obtain ⟨hcat, hit⟩ := hco.item_versions valid hmem
        exact ⟨rfl, hki, hgen, hcat, hit⟩

/-! ### Health -/

theorem queryHealth_status (m : MetricsManager L) (request : HealthRequest) (now : ℤ) :
    ((m.queryHealth request now).item = none →
      (m.queryHealth request now).status.code ≠ .success ∧
        (m.queryHealth request now).status.code ≠ .partialResult) ∧
    ∀ item, (m.queryHealth request now).item = some item →
      (m.queryHealth request now).status.code = .success ∨
        (m.queryHealth request now).status.code = .partialResult := by
  unfold queryHealth
  cases activeEntity m.runtime with
  | none => exact ⟨fun _ => ⟨nofun, nofun⟩, fun _ hit => by cases hit⟩
  | some ent =>
    dsimp only
    split_ifs
    · exact ⟨fun _ => ⟨nofun, nofun⟩, fun _ hit => by cases hit⟩
    · exact ⟨fun _ => ⟨nofun, nofun⟩, fun _ hit => by cases hit⟩
    · exact ⟨fun _ => ⟨nofun, nofun⟩, fun _ hit => by cases hit⟩
    · exact ⟨fun _ => ⟨nofun, nofun⟩, fun _ hit => by cases hit⟩
    · refine ⟨nofun, fun _ _ => ?_⟩
      unfold queryStatus
      split_ifs
      · exact .inl rfl
      · exact .inr rfl

/-- The texts that an evaluation adds fit if the limitation of the catalog does. -/
theorem evaluate_limitations {runtime : Runtime}
    (h : runtime.heartbeat.limitation.utf8ByteSize < healthLimitationCapacity)
    (e : FirmwareHeartbeatEvidence) (now : ℤ) (fr : ℕ) :
    ∀ lim ∈ (runtime.evaluate e now fr).limitations,
      lim.detail.utf8ByteSize < healthLimitationCapacity := by
  have hfa : (runtime.failureOf e).2.detail.utf8ByteSize < healthLimitationCapacity := by
    unfold Runtime.failureOf
    split_ifs
    · exact h
    all_goals decide +kernel
  have hone : ∀ {text : HealthLimitation}, text.detail.utf8ByteSize < healthLimitationCapacity →
      ∀ lim ∈ [text], lim.detail.utf8ByteSize < healthLimitationCapacity := by
    intro text hte lim hlim
    rwa [mem_singleton.mp hlim]
  unfold Runtime.evaluate
  dsimp only
  split_ifs
  · exact hone (by decide +kernel)
  · split
    · exact fun _ hlim => by cases hlim
    · exact hone hfa
  · exact hone hfa

theorem unknown_fits (runtime : Runtime) (ent : EntityRef) (code : StableHealthCode)
    (itemStatus : ObservationStatus) (now : ℤ) (lim : HealthLimitation)
    (h : lim.detail.utf8ByteSize < healthLimitationCapacity) :
    HealthFits (runtime.unknown ent code itemStatus now lim) := by
  constructor
  · intro ev hev
    cases hev
  · intro other hot
    rwa [mem_singleton.mp hot]

/-- The texts that a health answer can contain. -/
structure HealthTextsFit (m : MetricsManager L) : Prop where
  sources : ∀ e ∈ m.data.heartbeatEvidence, e.source.provider.utf8ByteSize < healthSourceCapacity
  limitation : m.runtime.heartbeat.limitation.utf8ByteSize < healthLimitationCapacity

theorem heartbeatAt_fits (hinv : m.data.EvidenceInvariant) (h : HealthTextsFit m)
    (ent : EntityRef) (now : ℤ) (fr : ℕ) :
    (m.heartbeatAt ent now fr).entity = ent ∧
      (m.heartbeatAt ent now fr).subsystemId = firmwareHeartbeatHealthId ∧
      (m.heartbeatAt ent now fr).catalogGeneration = m.runtime.catalogGeneration ∧
      HealthFits (m.heartbeatAt ent now fr) := by
  unfold heartbeatAt
  split_ifs
  · exact ⟨rfl, rfl, rfl, unknown_fits _ _ _ _ _ _ h.limitation⟩
  · cases hre : (m.data.latestHeartbeatEvidence ent m.runtime.catalogGeneration).evidence with
    | none => exact ⟨rfl, rfl, rfl, unknown_fits _ _ _ _ _ _ (by decide +kernel)⟩
    | some e =>
      dsimp only
      split_ifs
      · exact ⟨rfl, rfl, rfl, unknown_fits _ _ _ _ _ _ (by decide +kernel)⟩
      · obtain ⟨-, hla⟩ := DataManager.latestHeartbeatEvidence_evidence.mp hre
        obtain ⟨hlas, hen⟩ := hinv.latestEvidence?_eq_some.mp hla
        obtain ⟨hown, hgen, hev⟩ :=
          Runtime.evaluate_fields m.runtime e now fr
        have hsub : (m.runtime.evaluate e now fr).subsystemId = firmwareHeartbeatHealthId := by
          unfold Runtime.evaluate
          dsimp only
          split_ifs
          · rfl
          · split <;> rfl
          · rfl
        refine ⟨hown.trans hen, hsub, hgen, ?_, evaluate_limitations h.limitation e now fr⟩
        intro reference href
        rw [hev, mem_singleton] at href
        rw [href]
        exact h.sources e (mem_of_getLast? hlas)

theorem queryItem_fits (hinv : m.data.EvidenceInvariant) (h : HealthTextsFit m)
    (hki : request.entity.kind = .device) (hgen : request.entity.generation ≠ 0)
    (hsub : request.subsystemId ≠ 0) (hac : m.runtime.catalogGeneration ≠ 0) (now : ℤ) :
    HealthNamed (m.queryItem request.entity request now) ∧
      HealthFits (m.queryItem request.entity request now) := by
  unfold queryItem
  split_ifs
  · obtain ⟨hen, hid, hcat, hfi⟩ := heartbeatAt_fits hinv h request.entity now
      (effectiveFreshness m.runtime.heartbeat.freshnessNs request.maxAgeNs)
    refine ⟨⟨?_, ?_, ?_, ?_⟩, hfi⟩
    · rw [hen]
      exact hki
    · rw [hen]
      exact hgen
    · rw [hid]
      decide
    · rw [hcat]
      exact hac
  · have hfi := unknown_fits m.runtime request.entity .heartbeatUnsupported .unsupported now
      ⟨.catalogGap, "health subsystem is not supported in P0"⟩ (by decide +kernel)
    exact ⟨⟨hki, hgen, hsub, hac⟩, hfi.source, hfi.limitations⟩

theorem health_accepted (hinv : c.metricsManager.data.EvidenceInvariant)
    (h : HealthTextsFit c.metricsManager) (hki : request.entity.kind = .device)
    (hgen : request.entity.generation ≠ 0) (hsub : request.subsystemId ≠ 0) (now : ℤ) :
    ∃ dec, decodeHealth (healthQueryResponse (c.health request now)) =
        .ok dec ∧
      dec.status.code = (c.health request now).status.code := by
  obtain ⟨hno, hso⟩ := queryHealth_status c.metricsManager request now
  apply decodeHealth_accepts
  · unfold health
    split
    · exact fun _ => ⟨nofun, nofun⟩
    split
    · exact fun _ => ⟨nofun, nofun⟩
    · exact hno
  · intro item hit
    unfold health at hit ⊢
    split_ifs at hit ⊢
    obtain ⟨hac, -, -, rfl⟩ := queryHealth_item hit
    have hcat : c.metricsManager.runtime.catalogGeneration ≠ 0 := by
      intro hze
      simp [activeEntity, hze] at hac
    exact ⟨hso _ hit, queryItem_fits hinv h hki hgen hsub hcat now⟩

end Core

/-! ### Replies that are accepted -/

/-- The backend is connected, speaks a protocol of the router and has an id left. -/
structure Connected (b : StandaloneBackend) : Prop where
  started : b.started = true
  opened : b.closed = false
  connected : b.connected = true
  id : b.nextRequestId ≠ 0
  major : b.protocolMajor = Ipc.protocolMajor
  minor : b.protocolMinor ≤ Ipc.protocolMinor

/-- The two messages survive the way through the bytes, and their payloads fit into frames. -/
structure Carries {M N : Type} (b : StandaloneBackend) (type : MessageType) (requests : Codec M)
    (responses : Codec N) (request : M) (response : N) : Prop where
  request_trips : RoundTrips requests request
  response_trips : RoundTrips responses response
  encoded : ∃ bytes, encodeFrame (b.requestFrame type (requests.serialize request))
    b.maxFrameBytes = .ok bytes
  request_le : (requests.serialize request).length ≤ intMax
  response_le : (responses.serialize response).length ≤ intMax

section Replies

variable {protobuf : Protobuf} {core : ServiceCore} {b : StandaloneBackend} {payload : List UInt8}
  {type expected : MessageType} {tooLarge malformed : String}

theorem route_requestFrame (hb : Connected b) (type : MessageType) (hpa : payload.length ≤ intMax) :
    route protobuf core (b.requestFrame type payload) =
      if type = .entityListRequest then
        routeEntityList protobuf core (b.requestFrame type payload)
      else if type = .capabilityQueryRequest then
        routeCapabilityQuery protobuf core (b.requestFrame type payload)
      else if type = .healthQueryRequest then
        routeHealthQuery protobuf core (b.requestFrame type payload)
      else
        { response :=
            errorFrame protobuf b.nextRequestId .unsupported "UNSUPPORTED_MESSAGE_TYPE" } := by
  have hpr : ¬((b.requestFrame type payload).protocolMajor ≠ Ipc.protocolMajor ∨
      Ipc.protocolMinor < (b.requestFrame type payload).protocolMinor) := by
    rintro (hma | hmi)
    · exact hma hb.major
    · exact UInt16.not_lt.mpr hb.minor hmi
  have hfi : ¬((b.requestFrame type payload).requestId = 0 ∨
      (b.requestFrame type payload).flags ≠ 0 ∨
      ¬RequestRouter.validRequestPayload (b.requestFrame type payload) = true) := by
    rintro (hid | hfl | hla)
    · exact hb.id hid
    · exact hfl rfl
    · exact hla (decide_eq_true hpa)
  rw [route, if_neg hpr, if_neg hfi]
  rfl

/-- A response of the expected type is decoded, if the messages get through. -/
theorem reply_routes {M N R : Type} {reqs : Codec M} {resps : Codec N} {request : M}
    {response : N} {failed : Status → R} {decode : N → Except R R} (hb : Connected b)
    (hexp : expected ≠ .errorResponse)
    (hca : Carries b type reqs resps request response)
    (hro : (route protobuf core
        (b.requestFrame type (reqs.serialize request))).response =
      responseFrame (b.requestFrame type (reqs.serialize request)) expected
        (resps.serialize response)) :
    reply resps failed tooLarge malformed decode
      (b.exchangeLocked protobuf (daemon protobuf core) type (reqs.serialize request)
        expected).2 = decode response := by
  have hparse : resps.parse (resps.serialize response) = some response := hca.response_trips
  have hanswer : (b.exchangeLocked protobuf (daemon protobuf core) type (reqs.serialize request)
      expected).2 = .ok (responseFrame
        (b.requestFrame type (reqs.serialize request)) expected (resps.serialize response)) := by
    obtain ⟨bytes, hby⟩ := hca.encoded
    have hmi : min b.protocolMinor Ipc.protocolMinor = b.protocolMinor := if_pos hb.minor
    have hst : ¬(¬b.started = true ∨ b.closed = true ∨ ¬b.connected = true) := by
      simp [hb.started, hb.opened, hb.connected]
    unfold exchangeLocked
    rw [if_neg hst, if_neg hb.id]
    dsimp only
    rw [hby]
    dsimp only [daemon]
    rw [hro]
    simp [checkEnvelope, responseFrame, requestFrame, hb.major, hmi, hexp]
  rw [hanswer]
  unfold reply responseFrame
  dsimp only
  rw [if_neg (not_lt.mpr hca.response_le), hparse]

/-- Whenever the messages get through, the client accepts the response and returns the status
code of the core. -/
structure ResponsesAccepted (protobuf : Protobuf) (core : ServiceCore) (b : StandaloneBackend) :
    Prop where
  entities : ∀ kind, Carries b .entityListRequest protobuf.entityListRequest
      protobuf.entityListResponse (entityListRequest kind)
      (entityListResponse (core.entities kind)) →
    ∃ decoded, b.entitiesReply protobuf (daemon protobuf core) kind = .ok decoded ∧
      decoded.status.code = (core.entities kind).status.code
  capabilities : ∀ entity : EntityRef, entity.kind = .device → entity.generation ≠ 0 →
    Carries b .capabilityQueryRequest protobuf.capabilityQueryRequest
      protobuf.capabilityQueryResponse (capabilityQueryRequest entity)
      (capabilityQueryResponse (core.capabilities entity)) →
    ∃ decoded, b.capabilitiesReply protobuf (daemon protobuf core) entity = .ok decoded ∧
      decoded.status.code = (core.capabilities entity).status.code
  health : ∀ request : HealthRequest, request.entity.kind = .device →
    request.entity.generation ≠ 0 → request.subsystemId ≠ 0 →
    Carries b .healthQueryRequest protobuf.healthQueryRequest protobuf.healthQueryResponse
      (healthQueryRequest request) (healthQueryResponse (core.health request)) →
    ∃ decoded, b.healthReply protobuf (daemon protobuf core) request = .ok decoded ∧
      decoded.status.code = (core.health request).status.code

theorem responsesAccepted_of_decodes (hb : Connected b)
    (hent : ∀ kind, ∃ dec,
      decodeEntities (entityListResponse (core.entities kind)) = .ok dec ∧
        dec.status.code = (core.entities kind).status.code)
    (hcap : ∀ entity : EntityRef, entity.kind = .device → entity.generation ≠ 0 →
      ∃ dec, decodeCapabilities
          (capabilityQueryResponse (core.capabilities entity)) = .ok dec ∧
        dec.status.code = (core.capabilities entity).status.code)
    (hhe : ∀ request : HealthRequest, request.entity.kind = .device →
      request.entity.generation ≠ 0 → request.subsystemId ≠ 0 →
      ∃ dec, decodeHealth (healthQueryResponse (core.health request)) =
          .ok dec ∧
        dec.status.code = (core.health request).status.code) :
    ResponsesAccepted protobuf core b := by
  constructor
  · intro kind hca
    obtain ⟨dec, hde, hco⟩ := hent kind
    refine ⟨dec, (reply_routes hb (by decide) hca ?_).trans hde, hco⟩
    have hki : (entityListRequest kind).kind.isValid = true := rfl
    rw [route_requestFrame hb _ hca.request_le, if_pos rfl, routeEntityList,
      requestFrame, hca.request_trips]
    simp only [hki, not_true_eq_false, if_false]
    rw [entityListRequest, fromProtocolKind_toProtocolKind]
  · intro entity hki hgen hca
    obtain ⟨dec, hde, hco⟩ := hcap entity hki hgen
    refine ⟨dec, (reply_routes hb (by decide) hca ?_).trans hde, hco⟩
    have hen : requestedDevice (capabilityQueryRequest entity).entity =
        some entity := requestedDevice_fillEntityRef hki hgen
    rw [route_requestFrame hb _ hca.request_le, if_neg (by decide), if_pos rfl,
      routeCapabilityQuery, requestFrame, hca.request_trips]
    simp only [hen]
  · intro request hki hgen hsub hca
    obtain ⟨dec, hde, hco⟩ := hhe request hki hgen hsub
    refine ⟨dec, (reply_routes hb (by decide) hca ?_).trans hde, hco⟩
    have hen : requestedDevice (healthQueryRequest request).entity =
        some request.entity := requestedDevice_fillEntityRef hki hgen
    have hsub' : (healthQueryRequest request).subsystemId ≠ 0 := hsub
    rw [route_requestFrame hb _ hca.request_le, routeHealthQuery, requestFrame, hca.request_trips]
    simp only [hen, if_neg hsub']
    rfl

end Replies

open SemanticCatalog (CatalogRun)

/-- The catalog view is the one after any commits, the stored data come from any run of calls,
the rest of the core may be anything. If the texts of the devices, the sources of the evidence
and the limitation of the heartbeat fit, the client accepts every response. -/
theorem run_responsesAccepted {L : Limits} {target : TargetCatalog}
    (valid : target.validate.ok = true) (descriptors : List ProviderDescriptor)
    (processors : List (Option MetricProcessor)) (ops : List MetricsOp) (runtime : Runtime)
    (snapshot : CoreSnapshot) (now : ℤ) (protobuf : Protobuf) {b : StandaloneBackend}
    (hb : Connected b)
    (hdevices : ∀ d ∈ descriptors, ∀ device ∈ d.manageable, DeviceFits device)
    (hsources : ∀ e, .data (.commitHeartbeatEvidence e) ∈ ops →
      e.source.provider.utf8ByteSize < healthSourceCapacity)
    (hlimitation : runtime.heartbeat.limitation.utf8ByteSize < healthLimitationCapacity) :
    ResponsesAccepted protobuf
      (PdcmServiceCore.answers (L := L)
        { snapshot := snapshot
          catalogSnapshot := (runFrom CatalogRun.commit (CatalogRun.fresh target valid)
            descriptors).catalog.snapshot
          metricsManager := { MetricsManager.run L processors ops with runtime := runtime } } now)
      b := by
  have hviews := SemanticCatalog.run_viewsCommitted valid descriptors
  have hview : ViewFits target (runFrom .commit (CatalogRun.fresh target valid)
      descriptors).catalog.snapshot := by
    rcases hviews.snapshot with hempty | ⟨p, hp, hsame⟩
    · exact .inl hempty
    · obtain ⟨d, hd, hcommitted⟩ := hviews.views p hp
      exact .inr ⟨d, hsame ▸ hcommitted, hdevices d hd⟩
  have hinv := run_evidenceInvariant L processors ops
  have htexts : HealthTextsFit { run L processors ops with runtime := runtime } := by
    refine ⟨fun e he => ?_, hlimitation⟩
    obtain ⟨evidence, id, hop, rfl⟩ := run_heartbeatEvidence L processors ops e he
    exact hsources evidence hop
  apply responsesAccepted_of_decodes hb
  · exact fun kind => entities_accepted hview kind
  · exact fun entity hkind hgeneration => capabilities_accepted valid hview hkind hgeneration
  · exact fun request hkind hgeneration hsubsystem =>
      health_accepted hinv htexts hkind hgeneration hsubsystem now

namespace Discovered

open SemanticCatalog.OneSlot

def device : EntityRef := ⟨.device, 0, 1⟩

/-- A core that has found one device with this native id; its heartbeat is not supported. -/
def core (nativeId : String) : ServiceCore :=
  PdcmServiceCore.answers (L := OneDevice.limits)
    { snapshot := { state := .ready, catalogGeneration := 1 }
      catalogSnapshot := (after [found "a" nativeId "i"]).catalog.snapshot
      metricsManager :=
        { run OneDevice.limits [] [] with
          runtime := { catalogGeneration := 1, entity := some device } } } 2

def heartbeatRequest : HealthRequest :=
  { entity := device, subsystemId := firmwareHeartbeatHealthId }

/-- Protobuf as far as the requests below go. -/
def protobuf (nativeId : String) : Protobuf where
  helloRequest := .table []
  helloResponse := .table []
  errorResponse := .table []
  entityListRequest := .table [{}, entityListRequest .device]
  entityListResponse :=
    .table [{}, entityListResponse ((core nativeId).entities .device)]
  capabilityQueryRequest := .table [{}, capabilityQueryRequest device]
  capabilityQueryResponse :=
    .table [{}, capabilityQueryResponse ((core nativeId).capabilities device)]
  healthQueryRequest := .table [{}, healthQueryRequest heartbeatRequest]
  healthQueryResponse :=
    .table [{}, healthQueryResponse ((core nativeId).health heartbeatRequest)]

open Loopback

/-- The second message of such a table gets through. -/
theorem table_carries {M N : Type} [DecidableEq M] [DecidableEq N] {first request : M}
    {other response : N} {type : MessageType}
    (hen : ∃ bytes, encodeFrame (backend.requestFrame type
      ((Codec.table [first, request]).serialize request)) backend.maxFrameBytes =
        .ok bytes) :
    Carries backend type (.table [first, request]) (.table [other, response]) request
      response :=
  ⟨Codec.parse_table (by simp) (by simp), Codec.parse_table (by simp) (by simp), hen,
    by simp [Codec.table, intMax], by simp [Codec.table, intMax]⟩

theorem backend_connected : Connected backend :=
  ⟨rfl, rfl, rfl, by decide, rfl, by decide⟩

theorem run_responsesAccepted_shortId :
    (∃ decoded, backend.entitiesReply (protobuf "c") (daemon (protobuf "c") (core "c"))
        .device = .ok decoded ∧ decoded.status.code = .partialResult) ∧
      (∃ decoded, backend.capabilitiesReply (protobuf "c")
        (daemon (protobuf "c") (core "c")) device = .ok decoded ∧
          decoded.status.code = .success) ∧
      ∃ decoded, backend.healthReply (protobuf "c") (daemon (protobuf "c") (core "c"))
        heartbeatRequest = .ok decoded ∧ decoded.status.code = .partialResult := by
  have hdevices : ∀ d ∈ [found "a" "c" "i"], ∀ device ∈ d.manageable, DeviceFits device := by
    intro d hd device hdevice
    rw [mem_singleton.mp hd] at hdevice
    rw [mem_singleton.mp hdevice]
    exact ⟨by decide +kernel, by decide +kernel, by decide +kernel⟩
  have haccepted := run_responsesAccepted (L := OneDevice.limits) targetCatalog_valid
    [found "a" "c" "i"] [] [] { catalogGeneration := 1, entity := some device }
    { state := .ready, catalogGeneration := 1 } 2 (protobuf "c") backend_connected hdevices
    (fun _ hop => by cases hop) (by decide +kernel)
  refine ⟨?_, ?_, ?_⟩
  · have hcode : ((core "c").entities .device).status.code = .partialResult := by decide +kernel
    obtain ⟨decoded, hreply, hsame⟩ := haccepted.entities .device (table_carries ⟨_, rfl⟩)
    exact ⟨decoded, hreply, hsame.trans hcode⟩
  · have hcode : ((core "c").capabilities device).status.code = .success := by decide +kernel
    obtain ⟨decoded, hreply, hsame⟩ :=
      haccepted.capabilities device rfl (by decide) (table_carries ⟨_, rfl⟩)
    exact ⟨decoded, hreply, hsame.trans hcode⟩
  · have hcode : ((core "c").health heartbeatRequest).status.code = .partialResult := by
      decide +kernel
    obtain ⟨decoded, hreply, hsame⟩ := haccepted.health heartbeatRequest rfl (by decide)
      (by decide) (table_carries ⟨_, rfl⟩)
    exact ⟨decoded, hreply, hsame.trans hcode⟩

/-- A native id of 64 bytes. -/
def longId : String := "0123456789abcdef0123456789abcdef0123456789abcdef0123456789abcdef"

/-- The embedded backend lists the device, the standalone backend rejects the response. -/
theorem longId_rejected :
    ((EmbeddedBackend.client { started := true, core := core longId }).entities
        .device).status.code = .partialResult ∧
      ((EmbeddedBackend.client { started := true, core := core longId }).entities
        .device).entities.map (fun record => record.nativeId.value) = [longId] ∧
      ((backend.client (protobuf longId)
        (daemon (protobuf longId) (core longId))).entities .device).status =
          ⟨.internal, "local daemon returned invalid entity"⟩ := by
  decide +kernel

end Discovered

end Client
end Pdcm
