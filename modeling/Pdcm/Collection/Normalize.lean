import Pdcm.Collection.Plan
import Pdcm.Metrics.DataPlane

/-!
# Normalizing provider results

`CollectionCoordinator::normalizeAndCommit`: the result of a provider read becomes
either one heartbeat evidence or a batch of observations. The read may have been
issued under a catalog that is no longer active, and the catalog may change between
any two of the calls made here.
-/

namespace Pdcm

open Library

def statusFor : ObservationStatus → StatusCode
  | .notAvailable => .unavailable
  | .unsupported => .unsupported
  | .error => .internal
  | .stale => .internal
  | .valid => .success

def callFailureStatus (status : StatusCode) : ObservationStatus :=
  if status = .unavailable ∨ status = .notInitialized then .notAvailable
  else if status = .unsupported then .unsupported
  else .error

def usableCallStatus (status : StatusCode) : Bool :=
  decide (status = .success ∨ status = .partialResult)

def validProviderItem (r : ProviderReadItemResult) : Bool :=
  if r.status = .stale ∨ ∃ time ∈ r.sourceSampleTimeNs, time < 0 then false
  else if r.item.kind = .heartbeatEvidence then
    if r.value.isSome then false
    else if r.status = .valid then
      decide (r.heartbeatClass.isSome ∧ r.heartbeatClass ≠ some .unknownNative ∧
        r.sequenceOrToken.isSome ∧ r.sourceSampleTimeNs.isSome)
    else decide (r.heartbeatClass.isNone ∧ r.sequenceOrToken.isNone)
  else if r.heartbeatClass.isSome ∨ r.sequenceOrToken.isSome then false
  else if r.status = .valid then r.value.isSome
  else r.value.isNone

def sizeofProviderReadItemResult : ℕ := 176

def resultItemBytes (r : ProviderReadItemResult) : ℕ :=
  sizeofProviderReadItemResult + r.nativeSource.utf8ByteSize +
    match r.value with
    | some (.string s) => s.utf8ByteSize
    | _ => 0

structure CollectionRunResult where
  status : Status := {}
  requestId : ℕ := 0
  planVersion : ℕ := 0
  requestedItems : ℕ := 0
  normalizedItems : ℕ := 0
  contractViolations : ℕ := 0
  commit : DataCommitResult := {}
  evidenceCommit : EvidenceCommitResult := {}
  deriving DecidableEq, Repr

/-- The maps `returned` and `duplicated`, with the violations counted while filling
them. -/
structure ReturnedItems where
  returned : List ProviderReadItemResult := []
  duplicated : List ProviderReadItem := []
  contractViolations : ℕ := 0

def ReturnedItems.find? (r : ReturnedItems) (item : ProviderReadItem) :
    Option ProviderReadItemResult :=
  r.returned.find? fun candidate => decide (candidate.item = item)

def ReturnedItems.receive (requested : List ProviderReadItem) (r : ReturnedItems)
    (result : ProviderReadItemResult) : ReturnedItems :=
  if result.item ∉ requested then { r with contractViolations := r.contractViolations + 1 }
  else if (r.find? result.item).isSome then
    { r with
      duplicated := result.item :: r.duplicated
      contractViolations := r.contractViolations + 1 }
  else { r with returned := r.returned ++ [result] }

def returnedItems (request : ProviderReadRequest) (result : ProviderReadResult) : ReturnedItems :=
  if usableCallStatus result.callStatus.code then
    result.items.foldl (ReturnedItems.receive request.items) {}
  else {}

/-- A finished provider read with the clock readings made while it is committed. -/
structure FinishedRead where
  plan : CollectionPlan
  job : CollectionJob
  request : ProviderReadRequest
  result : ProviderReadResult
  observedTime : ℤ
  wallTime : ℤ
  evaluationTime : ℤ

namespace FinishedRead

variable (read : FinishedRead)

def blank : CollectionRunResult where
  requestId := read.request.requestId
  planVersion := read.plan.version
  requestedItems := read.request.items.length

/-- The byte loop stops at the first item that does not fit. -/
def bytesExceed (limits : CollectionLimits) (resultBytes : ℕ) :
    List ProviderReadItemResult → Bool
  | [] => false
  | item :: rest =>
    if limits.maxResultBytes - resultBytes < resultItemBytes item then true
    else bytesExceed limits (resultBytes + resultItemBytes item) rest

/-- The item an entry of the request stands for, with the error it reports; without
one, how many violations to count. `omitted` is what an absent item becomes. -/
def resolve (items : ReturnedItems) (omitted : Except ℕ (ProviderReadItemResult × Status))
    (failed : String) (requested : ProviderReadItem) :
    Except ℕ (ProviderReadItemResult × Status) :=
  if ¬usableCallStatus read.result.callStatus.code then
    .ok ({ item := requested, status := callFailureStatus read.result.callStatus.code },
      read.result.callStatus)
  else if requested ∈ items.duplicated then .error 0
  else
    match items.find? requested with
    | none => omitted
    | some item =>
      if ¬validProviderItem item then .error 1
      else .ok (item, if item.status = .valid then .success else ⟨statusFor item.status, failed⟩)

def evidence (requested : ProviderReadItem) (item : ProviderReadItemResult) (error : Status) :
    FirmwareHeartbeatEvidence where
  entity := requested.entity
  providerDataId := requested.dataId
  nativeClass := item.heartbeatClass.getD .unknownNative
  status := item.status
  sequenceOrToken := item.sequenceOrToken.getD 0
  sourceSampleTimeNs := item.sourceSampleTimeNs
  observedMonotonicTimeNs := read.observedTime
  source := { provider := read.job.providerId, nativeSource := item.nativeSource }
  error := { status := error, nativeCode := item.nativeCode, retryable := item.retryable }
  catalogGeneration := read.request.catalogGeneration

def observation (requested : ProviderReadItem) (descriptor : MetricDescriptor)
    (item : ProviderReadItemResult) (error : Status) : Observation where
  entity := requested.entity
  metric := requested.dataId
  value := item.value
  status := item.status
  scheduledMonotonicTimeNs := read.request.scheduledTime
  sourceSampleTimeNs := item.sourceSampleTimeNs
  observedMonotonicTimeNs := read.observedTime
  metricSemanticVersion := descriptor.semanticVersion
  observedWallTimeNs := read.wallTime
  catalogGeneration := read.request.catalogGeneration
  source := { provider := read.job.providerId, nativeSource := item.nativeSource }
  error := { status := error, nativeCode := item.nativeCode, retryable := item.retryable }

/-- The status of a run whose commit succeeded. -/
def finalStatus (violations : ℕ) (violated : String) (committed : Status) : Status :=
  if ¬usableCallStatus read.result.callStatus.code then read.result.callStatus
  else if violations ≠ 0 then ⟨.partialResult, violated⟩
  else committed

open DataPlane

variable {L : Limits}

/-- The heartbeat branch. The evidence is evaluated at once when a metrics manager is
attached. -/
def normalizeHeartbeat (metricsAttached : Bool) (items : ReturnedItems) :
    Plane L CollectionRunResult :=
  let result : CollectionRunResult :=
    { read.blank with contractViolations := items.contractViolations }
  match read.request.items with
  | [requested] =>
    match read.resolve items (.error 0) "provider heartbeat read failed" requested with
    | .error 0 =>
      return { result with
        status := ⟨.internal, "provider returned no unique heartbeat evidence"⟩ }
    | .error violations =>
      return { result with
        contractViolations := result.contractViolations + violations
        status := ⟨.internal, "provider heartbeat evidence is malformed"⟩ }
    | .ok (item, error) => do
      let committed : EvidenceCommitResult ←
        call (.commitHeartbeatEvidence (read.evidence requested item error))
      let result := { result with normalizedItems := 1, evidenceCommit := committed }
      if ¬committed.status.ok then return { result with status := committed.status }
      else
        let evaluated ←
          if committed.committed ∧ metricsAttached then
            onHeartbeatEvidenceCommitted committed.evidenceId read.evaluationTime
          else pure .success
        if ¬evaluated.ok then return { result with status := evaluated }
        else
          return { result with
            status := read.finalStatus result.contractViolations
              "provider heartbeat result violated the read contract" .success }
  | _ =>
    return { result with status := ⟨.invalidArgument, "heartbeat collection requires one item"⟩ }

/-- One pass of the item loop. A VALID metric item always carries a value. -/
def normalizeItem (items : ReturnedItems) (requested : ProviderReadItem) :
    Plane L (Except ℕ Observation) :=
  match read.resolve items
      (.ok ({ item := requested, status := .error },
        ⟨.internal, "provider omitted requested item"⟩))
      "provider item read failed" requested with
  | .error violations => return .error violations
  | .ok (item, error) => do
    let descriptor : Option MetricDescriptor ← call (.metricDescriptor requested.dataId)
    match descriptor with
    | none => return .error 1
    | some descriptor =>
      if item.status = .valid ∧ ¬item.value.any (valueMatches descriptor) then return .error 1
      else return .ok (read.observation requested descriptor item error)

/-- The observations of a request in order, and the violations counted on the way. -/
def normalizeItems (items : ReturnedItems) :
    List ProviderReadItem → Plane L (List Observation × ℕ)
  | [] => return ([], 0)
  | requested :: rest => do
    let first ← read.normalizeItem items requested
    let others ← normalizeItems items rest
    match first with
    | .error violations => return (others.1, violations + others.2)
    | .ok observation => return (observation :: others.1, others.2)

def normalizeMetrics (items : ReturnedItems) : Plane L CollectionRunResult := do
  let normalized ← read.normalizeItems items read.request.items
  let result : CollectionRunResult :=
    { read.blank with
      normalizedItems := normalized.1.length
      contractViolations := items.contractViolations + normalized.2 }
  if normalized.1 = [] then
    return { result with status := ⟨.internal, "provider returned no committable items"⟩ }
  else
    let committed ← commit normalized.1
    let result := { result with commit := committed }
    if ¬usableCallStatus committed.status.code then
      return { result with status := committed.status }
    else
      return { result with
        status := read.finalStatus result.contractViolations
          "provider result violated the read contract" committed.status }

def normalizeAndCommit (limits : CollectionLimits) (metricsAttached : Bool) :
    Plane L CollectionRunResult :=
  if limits.maxResultItems < read.result.items.length then
    return { read.blank with
      status := ⟨.resourceExhausted, "provider result item limit exceeded"⟩ }
  else if bytesExceed limits 0 read.result.items then
    return { read.blank with
      status := ⟨.resourceExhausted, "provider result byte limit exceeded"⟩ }
  else do
    let generation : ℕ ← call .catalogGeneration
    if generation ≠ read.plan.catalogGeneration then
      return { read.blank with
        status := ⟨.staleGeneration, "collection result belongs to an old catalog"⟩ }
    else
      let items := returnedItems read.request read.result
      if read.job.kind = .heartbeatEvidence then read.normalizeHeartbeat metricsAttached items
      else read.normalizeMetrics items

end FinishedRead
end Pdcm
