import Pdcm.Library.Interference
import Pdcm.Data.CommitLog

/-!
# The query engine

`data/query_engine.cpp`. A query is a program of calls on the data manager, the clock and
the fresh reader; other threads may move the store between any two of them. What a query
runs in is a host: any state with a commit log and a clock in it, the moves of the other
threads, and the calls of a fresh reader. The waiting loop of `execute` runs on fuel.
-/

namespace Pdcm

open Library DataManager

inductive ReadPolicy where
  | cacheOnly
  | cacheOrFresh
  | freshRequired
  deriving DecidableEq, Repr

inductive QueryConsistency where
  | bestEffort
  | atLeastEpoch
  | sameBatch
  deriving DecidableEq, Repr

structure QueryLimits where
  maxItems : ℕ := 4096
  maxResultBytes : ℕ := 4 * 1024 * 1024
  deriving DecidableEq, Repr

def QueryLimits.validate (l : QueryLimits) : Status :=
  if l.maxItems = 0 ∨ l.maxResultBytes = 0 then
    ⟨.invalidArgument, "query engine limits must be non-zero"⟩
  else .success

structure QueryRequest where
  selection : List DataKey := []
  maxAgeNs : ℕ := 0
  readPolicy : ReadPolicy := .cacheOnly
  consistency : QueryConsistency := .bestEffort
  allowStale : Bool := false
  catalogGeneration : ℕ := 0
  requiredEpoch : ℕ := 0
  maxResultItems : ℕ := 4096
  maxResultBytes : ℕ := 4 * 1024 * 1024
  deadline : ℤ := int64Max
  deriving DecidableEq, Repr

structure QueryResult where
  status : Status := {}
  catalogGeneration : ℕ := 0
  observedCommitEpoch : ℕ := 0
  requiredItems : ℕ := 0
  requiredBytes : ℕ := 0
  truncated : Bool := false
  items : List Observation := []
  deriving DecidableEq, Repr

def isReadableStatus (status : Status) : Bool :=
  status.ok || decide (status.code = .partialResult)

theorem isReadableStatus_iff {st : Status} :
    isReadableStatus st = true ↔ st.code = .success ∨ st.code = .partialResult := by
  simp [isReadableStatus]

def allItemsAtEpoch (snapshot : DataReadResult) (requiredEpoch : ℕ) : Bool :=
  snapshot.items.all fun item => decide (requiredEpoch ≤ item.commitEpoch)

/-! ### Pure parts -/

namespace QueryRequest

variable (request : QueryRequest) {limits : QueryLimits} {snapshot : DataReadResult}

def validate (limits : QueryLimits) (hasClock : Bool) : Status :=
  if ¬limits.validate.ok then limits.validate
  else if hasClock = false ∨ request.selection = [] ∨ limits.maxItems < request.selection.length ∨
      request.maxResultItems = 0 ∨ limits.maxItems < request.maxResultItems ∨
      request.maxResultBytes = 0 ∨ limits.maxResultBytes < request.maxResultBytes then
    ⟨.invalidArgument, "query request or engine dependencies are invalid"⟩
  else if ¬request.selection.Nodup then
    ⟨.invalidArgument, "query selection contains duplicates"⟩
  else if request.consistency = .atLeastEpoch ∧ request.requiredEpoch = 0 then
    ⟨.invalidArgument, "at-least-epoch query requires an epoch"⟩
  else if request.consistency ≠ .atLeastEpoch ∧ request.requiredEpoch ≠ 0 then
    ⟨.invalidArgument, "required epoch is only valid for at-least-epoch queries"⟩
  else .success

theorem validate_unreadable {hasClock : Bool} (h : (request.validate limits hasClock).ok = false) :
    isReadableStatus (request.validate limits hasClock) = false := by
  unfold validate at h ⊢
  unfold QueryLimits.validate at h ⊢
  split_ifs at h ⊢
  all_goals first
    | rfl
    | cases h

theorem validate_ok {hasClock : Bool} (h : (request.validate limits hasClock).ok = true) :
    request.selection ≠ [] ∧ request.selection.length ≤ limits.maxItems ∧
      request.selection.Nodup ∧
      (request.consistency = .atLeastEpoch → request.requiredEpoch ≠ 0) := by
  unfold validate at h
  by_cases hli : limits.validate.ok = true
  · split_ifs at h with har hdi hep
    any_goals cases h
    push Not at har
    exact ⟨har.2.1, har.2.2.1, hdi, fun hco hze => hep ⟨hco, hze⟩⟩
  · rw [if_pos hli] at h
    exact absurd h hli

/-- The age up to which a cached sample is used, 0 for no bound. -/
def effectiveAge (descriptor : MetricDescriptor) : ℕ :=
  if request.maxAgeNs ≠ 0 ∧
      (descriptor.freshnessNs = 0 ∨ request.maxAgeNs < descriptor.freshnessNs) then
    request.maxAgeNs
  else descriptor.freshnessNs

def outdated (now : ℤ) (item : Observation) (descriptor : MetricDescriptor) : Bool :=
  decide (request.effectiveAge descriptor ≠ 0 ∧ (now < item.observedMonotonicTimeNs ∨
    request.effectiveAge descriptor < toUint64 (now - item.observedMonotonicTimeNs)))

def sizeofErrorMetadata : ℕ := 56

def itemBytes (item : Observation) : ℕ :=
  sizeofObservation + item.source.provider.utf8ByteSize + item.source.nativeSource.utf8ByteSize +
    item.error.status.message.utf8ByteSize + item.derivation.processorId.utf8ByteSize +
    item.derivation.inputSequences.length * 8 +
    (item.latestFailure.elim 0 fun failure =>
      sizeofErrorMetadata + failure.status.message.utf8ByteSize) +
    item.value.elim 0 valueBytes

/-- The bytes of all items; an overflow of `size_t` stops with what was added up. -/
def sumBytes (requiredBytes : ℕ) : List Observation → Except ℕ ℕ
  | [] => .ok requiredBytes
  | item :: rest =>
    if uint64Max - itemBytes item < requiredBytes then .error requiredBytes
    else sumBytes (requiredBytes + itemBytes item) rest

/-- The items that fit, and whether the loop stopped early. -/
def takeItems (returned : List Observation) (returnedBytes : ℕ) :
    List Observation → List Observation × Bool
  | [] => (returned, false)
  | item :: rest =>
    if returned.length = request.maxResultItems ∨
        request.maxResultBytes - returnedBytes < itemBytes item then
      (returned, true)
    else takeItems (returned ++ [item]) (returnedBytes + itemBytes item) rest

def sameEpoch : List Observation → Bool
  | [] => true
  | first :: rest => (first :: rest).all fun item => decide (item.commitEpoch = first.commitEpoch)

def finalize (snapshot : DataReadResult) (freshStatus : Status) : QueryResult :=
  let result : QueryResult :=
    { status := snapshot.status
      catalogGeneration := snapshot.catalogGeneration
      observedCommitEpoch := snapshot.observedCommitEpoch
      requiredItems := snapshot.items.length }
  if ¬isReadableStatus snapshot.status then result
  else if request.consistency = .sameBatch ∧ ¬sameEpoch snapshot.items then
    { result with status := ⟨.unavailable, "query items do not share one commit epoch"⟩ }
  else
    match sumBytes 0 snapshot.items with
    | .error requiredBytes =>
      { result with
        requiredBytes := requiredBytes
        status := ⟨.resourceExhausted, "query size overflow"⟩ }
    | .ok requiredBytes =>
      let taken := request.takeItems [] 0 snapshot.items
      let truncated := taken.2 || decide (taken.1.length ≠ snapshot.items.length)
      { result with
        requiredBytes := requiredBytes
        items := taken.1
        truncated := truncated
        status :=
          if truncated then ⟨.bufferTooSmall, "query result was deterministically truncated"⟩
          else if ¬freshStatus.ok ∧ freshStatus.code ≠ .partialResult then freshStatus
          else snapshot.status }

theorem takeItems_all {returned items : List Observation} {ret : ℕ}
    (h : (request.takeItems returned ret items).2 = false) :
    (request.takeItems returned ret items).1 = returned ++ items := by
  induction items generalizing returned ret with
  | nil => simp [takeItems]
  | cons item rest ih =>
    unfold takeItems at h ⊢
    split_ifs at h ⊢
    rw [ih h, List.append_assoc]
    rfl

/-- A readable result is the whole snapshot, unchanged. -/
structure WholeSnapshot (snapshot : DataReadResult) (freshStatus : Status) (r : QueryResult) :
    Prop where
  readable : isReadableStatus snapshot.status = true
  status : r.status = snapshot.status
  items : r.items = snapshot.items
  fresh : isReadableStatus freshStatus = true
  batch : request.consistency = .sameBatch → sameEpoch snapshot.items = true

theorem finalize_readable {fst : Status}
    (h : isReadableStatus (request.finalize snapshot fst).status = true) :
    request.WholeSnapshot snapshot fst (request.finalize snapshot fst) := by
  by_cases hre : isReadableStatus snapshot.status = true
  · by_cases hba : request.consistency = .sameBatch ∧ ¬sameEpoch snapshot.items
    · simp only [finalize, hre, hba] at h
      cases h
    · cases hsum : sumBytes 0 snapshot.items with
      | error need =>
        simp only [finalize, hre, hba, hsum, ↓reduceIte] at h
        cases h
      | ok need =>
        simp only [finalize, hsum] at h ⊢
        split_ifs at h ⊢ with htr hfr
        · cases h
        · simp [isReadableStatus, hfr.1, hfr.2] at h
        · have hta : (request.takeItems [] 0 snapshot.items).2 = false := by
            simp only [Bool.or_eq_true, not_or, Bool.not_eq_true] at htr
            exact htr.1
          refine ⟨h, rfl, request.takeItems_all hta, ?_, ?_⟩
          · simp only [isReadableStatus, Bool.or_eq_true, decide_eq_true_eq]
            tauto
          · intro hsa
            by_contra hnot
            exact hba ⟨hsa, hnot⟩
  · simp [finalize, hre] at h

theorem finalize_unreadable {fst : Status} (h : isReadableStatus snapshot.status = false) :
    let r := request.finalize snapshot fst
    r.items = [] ∧ r.truncated = false ∧ isReadableStatus r.status = false := by
  simp [finalize, h]

end QueryRequest

/-! ### Hosts -/

/-- The process a query runs in. `step` is what the other threads can do; neither they nor
the fresh reader do more to the store than run critical sections of the data manager, and
the clock does not go back. -/
structure QueryHost (L : Limits) where
  World : Type
  store : World → CommitLog L
  now : World → ℤ
  Input : Type
  step : World → Input → World
  reader : Interface World
  readerReady : reader.Call → World → Bool
  step_later : ∀ w i, (store w).Evolves (store (step w i)) ∧ now w ≤ now (step w i)
  reader_later : ∀ c w, (store w).Evolves (store (reader.exec c w).1) ∧
    now w ≤ now (reader.exec c w).1

/-- The calls of a query; `R` are those of the fresh reader. -/
inductive QueryCall (R : Type) where
  | monotonicNow
  | waitForEpoch (epoch : ℕ) (deadline : ℤ)
  | commitEpoch
  | readLatest (keys : List DataKey) (allowStale : Bool) (now : ℤ) (required : ℕ)
  | metricDescriptor (metric : MetricId)
  | reader (c : R)

namespace QueryHost

variable {L : Limits} (host : QueryHost L)

def data (w : host.World) : DataManager L := (host.store w).data

@[reducible] def Answer : QueryCall host.reader.Call → Type
  | .monotonicNow => ℤ
  | .waitForEpoch _ _ => Status
  | .commitEpoch => ℕ
  | .readLatest _ _ _ _ => DataReadResult
  | .metricDescriptor _ => Option MetricDescriptor
  | .reader c => host.reader.Answer c

/-- The status a finished wait returns. -/
def waited (w : host.World) (epoch : ℕ) : Status :=
  if epoch = 0 then ⟨.invalidArgument, "wait epoch must be non-zero"⟩
  else if epoch ≤ (host.data w).commitEpoch then .success
  else ⟨.timeout, "data epoch wait expired"⟩

def exec : (c : QueryCall host.reader.Call) → host.World → host.World × host.Answer c
  | .monotonicNow, w => (w, host.now w)
  | .waitForEpoch epoch _, w => (w, host.waited w epoch)
  | .commitEpoch, w => (w, (host.data w).commitEpoch)
  | .readLatest keys allowStale now required, w =>
    (w, (host.data w).readLatest keys allowStale now required)
  | .metricDescriptor metric, w => (w, (host.data w).metricDescriptor metric)
  | .reader c, w => host.reader.exec c w

def interface : Interface host.World where
  Call := QueryCall host.reader.Call
  Answer := host.Answer
  exec := host.exec

/-- A wait returns when the epoch has come or the deadline has passed. -/
def environment : Environment host.interface where
  Input := host.Input
  step := host.step
  ready
    | .waitForEpoch epoch deadline, w =>
      decide (epoch = 0 ∨ epoch ≤ (host.data w).commitEpoch ∨ deadline ≤ host.now w)
    | .reader c, w => host.readerReady c w
    | _, _ => true

def readerEnvironment : Environment host.reader where
  Input := host.Input
  step := host.step
  ready := host.readerReady

abbrev Query (α : Type) := Program host.interface α

variable {host}

def call (c : QueryCall host.reader.Call) : host.Query (host.Answer c) :=
  Program.request (I := host.interface) c

/-- The fresh reader makes its own calls only. -/
def ofReader {α : Type} : Program host.reader α → host.Query α
  | .done a => .done a
  | .call c next => .call (I := host.interface) (.reader c) fun answer => ofReader (next answer)

end QueryHost

/-- `QueryEngine`; without a fresh reader `fresh_reads_` is null. -/
structure QueryEngine {L : Limits} (host : QueryHost L) where
  limits : QueryLimits := {}
  hasClock : Bool := true
  freshReads : Option (List DataKey → ℕ → ℤ → Program host.reader Status) := none

/-! ### Queries -/

namespace QueryEngine

open QueryHost

variable {L : Limits} {host : QueryHost L} (engine : QueryEngine host) (request : QueryRequest)

def needsFreshRead (now : ℤ) (item : Observation) : host.Query Bool :=
  if item.status = .unsupported then return false
  else if request.readPolicy = .freshRequired then return true
  else if item.status ≠ .valid then return true
  else do
    let descriptor : Option MetricDescriptor ← call (.metricDescriptor item.metric)
    return descriptor.any (request.outdated now item)

/-- The loop of `keysNeedingFreshRead`. -/
def keysOutdated (now : ℤ) : List Observation → host.Query (List DataKey)
  | [] => return []
  | item :: rest => do
    let needed ← needsFreshRead request now item
    let others ← keysOutdated now rest
    return if needed then item.key :: others else others

def keysNeedingFreshRead (snapshot : DataReadResult) (now : ℤ) : host.Query (List DataKey) :=
  if request.readPolicy = .cacheOnly then return []
  else keysOutdated request now snapshot.items

/-- A clock reading and a read of the selection. -/
def readSelection : host.Query DataReadResult := do
  let now : ℤ ← call .monotonicNow
  call (.readLatest request.selection request.allowStale now request.catalogGeneration)

def freshStatus (keys : List DataKey) (catalogGeneration : ℕ) : host.Query Status :=
  match engine.freshReads with
  | none => return ⟨.unavailable, "fresh read coordinator unavailable"⟩
  | some freshRead => do
    let now : ℤ ← call .monotonicNow
    if request.deadline ≤ now then return ⟨.timeout, "fresh read deadline expired"⟩
    else ofReader (freshRead keys catalogGeneration request.deadline)

/-- The fresh read of outdated keys, and the second read of the selection. -/
def refresh (snapshot : DataReadResult) (keys : List DataKey) :
    host.Query (DataReadResult × Status) :=
  if keys = [] then return (snapshot, .success)
  else do
    let status ← engine.freshStatus request keys snapshot.catalogGeneration
    let snapshot ← readSelection request
    return (snapshot, status)

/-- The loop of an at-least-epoch query. The epoch to wait for is asked for after the
snapshot was looked at; it is one beyond the current one and wraps at 64 bits. -/
def awaitEpoch : ℕ → DataReadResult → host.Query (Option DataReadResult)
  | 0, _ => return none
  | fuel + 1, snapshot =>
    if allItemsAtEpoch snapshot request.requiredEpoch then return some snapshot
    else do
      let epoch : ℕ ← call .commitEpoch
      let status : Status ← call (.waitForEpoch ((epoch + 1) % 2 ^ 64) request.deadline)
      if ¬status.ok then return some { snapshot with status := status, items := [] }
      else
        let snapshot ← readSelection request
        if ¬isReadableStatus snapshot.status then return some snapshot
        else awaitEpoch fuel snapshot

def settle (fuel : ℕ) (snapshot : DataReadResult) : host.Query (Option DataReadResult) :=
  if request.consistency = .atLeastEpoch ∧ isReadableStatus snapshot.status then
    awaitEpoch request fuel snapshot
  else return some snapshot

/-- `execute` after the wait for the required epoch. -/
def answer (fuel : ℕ) : host.Query (Option QueryResult) := do
  let now : ℤ ← call .monotonicNow
  let snapshot : DataReadResult ←
    call (.readLatest request.selection request.allowStale now request.catalogGeneration)
  if ¬isReadableStatus snapshot.status then return some (request.finalize snapshot .success)
  else
    let keys ← keysNeedingFreshRead request snapshot now
    let refreshed ← engine.refresh request snapshot keys
    let settled ← settle request fuel refreshed.1
    return settled.map fun snapshot => request.finalize snapshot refreshed.2

/-- `none` when the fuel runs out. -/
def execute (fuel : ℕ) : host.Query (Option QueryResult) :=
  if ¬(request.validate engine.limits engine.hasClock).ok then
    return some { status := request.validate engine.limits engine.hasClock }
  else if request.consistency = .atLeastEpoch then do
    let status : Status ← call (.waitForEpoch request.requiredEpoch request.deadline)
    if ¬status.ok then return some { status := status }
    else engine.answer request fuel
  else engine.answer request fuel

end QueryEngine
end Pdcm
