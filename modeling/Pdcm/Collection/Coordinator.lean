import Pdcm.Collection.PlanCompiler
import Pdcm.Collection.SampleRecording

/-!
# The collection coordinator

`CollectionCoordinator` and its `Runtime`: the published plan, the scheduler's due times,
the bounded priority queue in front of the provider, the worker, and the samples that
`noteLogicalResults` hands to the watch manager. A critical section is one step; what a
thread still has to do after it released the runtime's lock is kept in the state, in
`worker` and `noting`.

A request id is given to one task only, so it stands for the address of the task. A task
has a completion exactly when it has a fresh signature.
-/

namespace Pdcm

open Library

structure FreshSignature where
  catalogGeneration : ℕ := 0
  keys : List DataKey := []
  deriving DecidableEq, Repr

def FreshSignature.tie (f : FreshSignature) : ℕ ×ₗ List DataKey :=
  toLex (f.catalogGeneration, f.keys)

theorem FreshSignature.tie_injective : Function.Injective tie := by
  rintro ⟨g, k⟩ ⟨g', k'⟩ h
  obtain ⟨rfl, rfl⟩ := h
  rfl

instance : LinearOrder FreshSignature := orderBy FreshSignature.tie FreshSignature.tie_injective

/-- `Runtime::Task`. -/
structure CollectionTask where
  plan : CollectionPlan
  job : CollectionJob
  request : ProviderReadRequest
  keys : List DataKey := []
  priority : WatchPriority := .normal
  freshSignature : Option FreshSignature := none
  deriving DecidableEq, Repr

/-- The due times `first, first + period, ..` of a job that `noteLogicalResults` is to
record, `sampleCount` of them. -/
structure LogicalResult where
  job : CollectionJob
  firstScheduledTime : ℤ
  sampleCount : ℕ := 0
  deriving DecidableEq, Repr

/-- The worker records the due time its request was scheduled for. -/
def CollectionTask.result (t : CollectionTask) : LogicalResult :=
  ⟨t.job, t.request.scheduledTime, 1⟩

/-- Where the worker is with the task it took from the queue. -/
inductive WorkerPhase where
  | reading
  | recorded
  | released
  deriving DecidableEq, Repr

structure Worker where
  task : CollectionTask
  phase : WorkerPhase := .reading
  deriving DecidableEq, Repr

inductive EnqueueResult where
  | accepted
  | busy
  | full
  | stopped
  deriving DecidableEq, Repr

/-- The count of missed periods can wrap around; the others are at most the number of jobs. -/
structure SchedulerRunSummary where
  status : Status := {}
  enqueuedJobs : ℕ := 0
  missedPeriods : ℕ := 0
  busyJobs : ℕ := 0
  queueRejections : ℕ := 0
  deriving DecidableEq, Repr

/-- The coordinator, its runtime and the managers it works on. -/
structure Coordinator (L : Limits) where
  limits : CollectionLimits := {}
  valid : limits.validate.ok = true
  watchManager : Option WatchManager := none
  data : DataManager L
  plan : CollectionPlan := {}
  nextRequestId : ℕ := 1
  queue : List CollectionTask := []
  busyKeys : Finset DataKey := ∅
  freshTasks : OrderedMap FreshSignature ℕ := .empty
  nextDue : OrderedMap ℕ ℤ := .empty
  freshWaiters : ℕ := 0
  scheduledPlanVersion : ℕ := 0
  routeGeneration : ℕ := 0
  routeProviderId : String := ""
  routeEntity : Option EntityRef := none
  routeMetrics : List ℕ := []
  shutdown : Bool := false
  worker : Option Worker := none
  /-- For each `runDue` call that released the lock, what it has not recorded yet. -/
  noting : List (List LogicalResult) := []
  /-- The statuses of finished fresh tasks, by request id. -/
  completions : OrderedMap ℕ Status := .empty

namespace Coordinator

variable {L : Limits} (c : Coordinator L)

/-! ### Plans -/

/-- The due times of a plan that was just installed. -/
def firstDueTimes (plan : CollectionPlan) : OrderedMap ℕ ℤ :=
  plan.jobs.foldl (fun m job => m.emplace job.id (plan.createdAt + job.period)) .empty

def installPlan (next : CollectionPlan) : Coordinator L :=
  { c with scheduledPlanVersion := next.version, nextDue := firstDueTimes next }

/-- `now` is the clock reading taken while the plan is compiled. -/
def applyWatchSnapshot (watches : WatchSnapshot) (now : ℤ) :
    Coordinator L × Status :=
  match compilePlan c.limits c.data watches now with
  | .error status => (c, status)
  | .ok plan =>
    if c.plan.version = uint64Max then (c, ⟨.internal, "collection plan version overflow"⟩)
    else
      let next := { plan with version := c.plan.version + 1 }
      ({ c with plan := next }.installPlan next, .success)

/-- `Runtime::activateCatalog`. -/
def activateCatalog (catalog : Option CatalogView) : Coordinator L × Status :=
  match catalog with
  | none => (c, ⟨.staleGeneration, "collection route catalog is stale"⟩)
  | some view =>
    if view.generation = 0 ∨ view.generation ≠ c.data.catalogGeneration then
      (c, ⟨.staleGeneration, "collection route catalog is stale"⟩)
    else
      let cleared : Coordinator L :=
        { c with
          routeGeneration := view.generation, routeProviderId := "", routeEntity := none
          routeMetrics := [] }
      match view.topologyUnsupported, view.entities with
      | false, [record] =>
        let unavailable : Status :=
          ⟨.unavailable, "collection routing capabilities are unavailable"⟩
        match view.capabilities record.ref with
        | .error _ => (cleared, unavailable)
        | .ok set =>
          if record.providerVersion = "" then (cleared, unavailable)
          else
            ({ cleared with
                routeProviderId := record.providerVersion
                routeEntity := some record.ref
                routeMetrics := (set.items.filter fun item =>
                  decide (item.kind = .metric) && item.supported).map CapabilityItem.id },
              .success)
      | _, _ => (cleared, ⟨.unsupported, "collection routing requires one active device"⟩)

/-! ### The queue -/

/-- Tasks that some thread or the queue still holds. -/
def tasks : List CollectionTask :=
  c.queue ++ c.worker.toList.map Worker.task

/-- `weak_ptr::lock` of a registered fresh task. -/
def liveTask? (requestId : ℕ) : Option CollectionTask :=
  c.tasks.find? fun t => decide (t.request.requestId = requestId)

def setCompletion (task : CollectionTask) (status : Status) : Coordinator L :=
  if task.freshSignature.isSome then
    { c with completions := c.completions.insert task.request.requestId status }
  else c

def releaseTaskLocked (task : CollectionTask) : Coordinator L :=
  let freshTasks :=
    match task.freshSignature with
    | none => c.freshTasks
    | some signature =>
      match c.freshTasks.find? signature with
      | none => c.freshTasks
      | some registered =>
        if registered = task.request.requestId ∨ c.liveTask? registered = none then
          c.freshTasks.erase signature
        else c.freshTasks
  { c with busyKeys := c.busyKeys \ task.keys.toFinset, freshTasks := freshTasks }

/-- Behind every queued task of the same or a higher priority. -/
def insertByPriority (queue : List CollectionTask) (task : CollectionTask) : List CollectionTask :=
  queue.takeWhile (fun queued => decide (task.priority ≤ queued.priority)) ++
    task :: queue.dropWhile fun queued => decide (task.priority ≤ queued.priority)

/-- The end of `enqueueLocked`, once there is room. -/
def enterQueue (task : CollectionTask) : Coordinator L :=
  { c with
    busyKeys := c.busyKeys ∪ task.keys.toFinset
    freshTasks :=
      task.freshSignature.elim c.freshTasks fun signature =>
        c.freshTasks.insert signature task.request.requestId
    queue := insertByPriority c.queue task }

def evict (task : CollectionTask) : Coordinator L :=
  ({ c with queue := c.queue.dropLast }.releaseTaskLocked task).setCompletion task
    ⟨.resourceExhausted, "provider queue evicted a lower-priority request"⟩

/-- `enqueueLocked`, with the task it evicted. -/
structure Enqueued (L : Limits) where
  coordinator : Coordinator L
  result : EnqueueResult
  evicted : Option CollectionTask := none

def enqueueLocked (task : CollectionTask) : Enqueued L :=
  if c.shutdown then { coordinator := c, result := .stopped }
  else if task.keys.any fun key => decide (key ∈ c.busyKeys) then
    { coordinator := c, result := .busy }
  else if c.queue.length = c.limits.maxProviderQueue then
    match c.queue.getLast? with
    | none => { coordinator := c, result := .full }
    | some last =>
      if task.priority ≤ last.priority then { coordinator := c, result := .full }
      else { coordinator := (c.evict last).enterQueue task, result := .accepted, evicted := last }
  else { coordinator := c.enterQueue task, result := .accepted }

/-- The id that was given out, 0 when the ids are used up. -/
def allocateRequestId : Coordinator L × ℕ :=
  if c.nextRequestId = 0 ∨ c.nextRequestId = uint64Max then (c, 0)
  else ({ c with nextRequestId := c.nextRequestId + 1 }, c.nextRequestId)

/-! ### Due jobs -/

/-- The smallest freshness of the job's items. -/
def deadlineWindow (job : CollectionJob) : ℤ :=
  job.items.foldl (fun window item => min window item.freshness)
    (job.items.head?.elim 0 CollectionPlanItem.freshness)

/-- The task of a due job; `scheduled` is the last of its due times that has passed. -/
def dueTask (current : CollectionPlan) (job : CollectionJob) (scheduled : ℤ) (requestId : ℕ) :
    CollectionTask where
  plan := current
  job := job
  priority := job.priority
  request :=
    { requestId := requestId
      planGeneration := current.version
      catalogGeneration := current.catalogGeneration
      scheduledTime := scheduled
      deadline := scheduled + deadlineWindow job
      items := job.items.map CollectionPlanItem.readItem }
  keys := job.items.map fun item => ⟨item.key.entity, item.key.dataId⟩

/-- What the loop of `runDue` has built so far. -/
structure DueRun (L : Limits) where
  coordinator : Coordinator L
  logicalResults : List LogicalResult := []
  summary : SchedulerRunSummary := {}
  evicted : List CollectionTask := []

def countEnqueue (summary : SchedulerRunSummary) : EnqueueResult → SchedulerRunSummary
  | .accepted => { summary with enqueuedJobs := summary.enqueuedJobs + 1 }
  | .busy => { summary with busyJobs := summary.busyJobs + 1 }
  | .full => { summary with queueRejections := summary.queueRejections + 1 }
  | .stopped => { summary with queueRejections := summary.queueRejections + 1 }

/-- What is left for `runDue` to record: every due time of a job that was not queued, and
those before the last one of a job that was. -/
def unqueuedResults (job : CollectionJob) (firstDue : ℤ) (steps : ℕ) :
    EnqueueResult → List LogicalResult
  | .accepted => if 1 < steps then [⟨job, firstDue, steps - 1⟩] else []
  | _ => [⟨job, firstDue, steps⟩]

/-- How many due times have passed since `firstDue`, which has. -/
def dueSteps (firstDue period now : ℤ) : ℕ := ((now - firstDue) / period).toNat + 1

/-- The next due time of a job becomes the first one after `now`. -/
def moveDue (job : CollectionJob) (firstDue now : ℤ) : Coordinator L :=
  { c with
    nextDue := c.nextDue.insert job.id
      (firstDue + job.period * dueSteps firstDue job.period now) }

/-- The loop body of `runDue` for one job. -/
def runJob (current : CollectionPlan) (now : ℤ) (d : DueRun L) (job : CollectionJob) : DueRun L :=
  match d.coordinator.nextDue.find? job.id with
  | none => d
  | some firstDue =>
    if now < firstDue then d
    else
      let steps := dueSteps firstDue job.period now
      let missed : SchedulerRunSummary :=
        { d.summary with missedPeriods := (d.summary.missedPeriods + (steps - 1)) % 2 ^ 64 }
      let allocated := (d.coordinator.moveDue job firstDue now).allocateRequestId
      if allocated.2 = 0 then
        { d with
          coordinator := allocated.1
          logicalResults := d.logicalResults ++ [⟨job, firstDue, steps⟩]
          summary := { missed with queueRejections := missed.queueRejections + 1 } }
      else
        let scheduled := firstDue + job.period * (steps - 1 : ℕ)
        let queued := allocated.1.enqueueLocked (dueTask current job scheduled allocated.2)
        { coordinator := queued.coordinator
          logicalResults := d.logicalResults ++ unqueuedResults job firstDue steps queued.result
          summary := countEnqueue missed queued.result
          evicted := d.evicted ++ queued.evicted.toList }

/-- A plan the scheduler has not seen yet is installed before its jobs are looked at. -/
def synchronizePlan (current : CollectionPlan) : Coordinator L :=
  if c.scheduledPlanVersion = current.version then c else c.installPlan current

def dueLoop (current : CollectionPlan) (now : ℤ) : DueRun L :=
  current.jobs.foldl (runJob current now) { coordinator := c.synchronizePlan current }

/-- The locked section of `runDue`, with the plan it loaded before. -/
def runDueLocked (current : CollectionPlan) (now : ℤ) : DueRun L :=
  if now < 0 then
    { coordinator := c
      summary := { status := ⟨.invalidArgument, "scheduler time is invalid"⟩ } }
  else if c.shutdown then
    { coordinator := c
      summary := { status := ⟨.notInitialized, "collection runtime is stopped"⟩ } }
  else
    let d := c.dueLoop current now
    { d with
      summary :=
        { d.summary with
          status :=
            if d.summary.busyJobs = 0 ∧ d.summary.queueRejections = 0 then .success
            else ⟨.partialResult, "one or more due jobs could not be queued"⟩ } }

/-! ### Recording -/

end Coordinator

/-- The watches a result of the job counts for, in increasing order. -/
def CollectionJob.watchIds (job : CollectionJob) : List WatchId :=
  (job.items.flatMap CollectionPlanItem.logicalWatches).dedup.insertionSort (· ≤ ·)

theorem CollectionJob.watchIds_nodup (job : CollectionJob) : job.watchIds.Nodup :=
  (List.perm_insertionSort (· ≤ ·) _).nodup_iff.mpr (List.nodup_dedup _)

theorem CollectionJob.mem_watchIds {job : CollectionJob} {w : WatchId} :
    w ∈ job.watchIds ↔ ∃ item ∈ job.items, w ∈ item.logicalWatches := by
  rw [watchIds, (List.perm_insertionSort (· ≤ ·) _).mem_iff, List.mem_dedup, List.mem_flatMap]

namespace Coordinator

variable {L : Limits} (c : Coordinator L)

/-- `noteLogicalResults` up to `recordSamples`, with the status it goes by. The new
snapshot, if there is one, is applied in a later step. -/
def noteLogicalResults (r : LogicalResult) : Coordinator L × Status :=
  match c.watchManager with
  | none => (c, .success)
  | some m =>
    if r.job.watchIds = [] then (c, .success)
    else
      let recorded :=
        m.recordSamples r.job.watchIds r.firstScheduledTime r.job.period r.sampleCount
      ({ c with watchManager := some recorded.1 }, recorded.2)

/-! ### Fresh reads -/

def freshItem (providerId : String) (key : DataKey) (descriptor : MetricDescriptor) :
    CollectionPlanItem where
  key := { providerId := providerId, entity := key.entity, kind := .metric, dataId := key.metric }
  freshness := toInt64 descriptor.freshnessNs
  priority := .normal

/-- The task of a fresh read; `scheduled` is the clock reading made for it. -/
def freshTask (keys : List DataKey) (catalogGeneration requestId : ℕ)
    (deadline scheduled : ℤ) : CollectionTask where
  plan :=
    if c.plan.catalogGeneration = catalogGeneration then c.plan
    else { c.plan with catalogGeneration := catalogGeneration }
  job :=
    { providerId := c.routeProviderId
      kind := .metric
      priority := .normal
      items := keys.filterMap fun key =>
        (c.data.metricDescriptor key.metric).map (freshItem c.routeProviderId key) }
  request :=
    { requestId := requestId
      planGeneration := c.plan.version
      catalogGeneration := catalogGeneration
      scheduledTime := scheduled
      deadline := deadline
      items := keys.map fun key => ⟨key.entity, .metric, key.metric⟩ }
  keys := keys
  priority := .normal
  freshSignature := some ⟨catalogGeneration, keys⟩

/-- What a `freshRead` call leaves: the task whose completion it waits for, or its error. -/
structure FreshRead (L : Limits) where
  coordinator : Coordinator L
  outcome : Except Status ℕ
  evicted : Option CollectionTask := none

/-- How `freshRead` goes on after its task was offered to the queue. -/
def FreshRead.ofEnqueued (requestId : ℕ) (queued : Enqueued L) : FreshRead L :=
  match queued.result with
  | .accepted =>
    ⟨{ queued.coordinator with freshWaiters := queued.coordinator.freshWaiters + 1 },
      .ok requestId, queued.evicted⟩
  | .busy =>
    ⟨queued.coordinator, .error ⟨.resourceExhausted, "fresh read key is already in flight"⟩,
      queued.evicted⟩
  | _ =>
    ⟨queued.coordinator, .error ⟨.resourceExhausted, "provider queue is full"⟩, queued.evicted⟩

/-- A new task for a fresh read that no task in flight answers. -/
def enqueueFresh (keys : List DataKey) (catalogGeneration : ℕ)
    (deadline scheduled : ℤ) : FreshRead L :=
  let allocated := c.allocateRequestId
  if allocated.2 = 0 then
    ⟨allocated.1, .error ⟨.resourceExhausted, "request ID space exhausted"⟩, none⟩
  else
    .ofEnqueued allocated.2 (allocated.1.enqueueLocked
      (allocated.1.freshTask keys catalogGeneration allocated.2 deadline scheduled))

/-- A caller joins the task in flight for its keys if that one is given enough time. -/
def joinFresh (keys : List DataKey) (catalogGeneration : ℕ)
    (deadline scheduled : ℤ) : FreshRead L :=
  let signature : FreshSignature := ⟨catalogGeneration, keys⟩
  match c.freshTasks.find? signature with
  | none => c.enqueueFresh keys catalogGeneration deadline scheduled
  | some requestId =>
    match c.liveTask? requestId with
    | some task =>
      if deadline ≤ task.request.deadline then
        ⟨{ c with freshWaiters := c.freshWaiters + 1 }, .ok requestId, none⟩
      else
        ⟨c, .error ⟨.resourceExhausted, "in-flight fresh read has an incompatible deadline"⟩, none⟩
    | none =>
      { c with freshTasks := c.freshTasks.erase signature }.enqueueFresh keys catalogGeneration
        deadline scheduled

/-- `freshRead` up to the wait for the completion; `now` and `scheduled` are its two clock
readings. -/
def freshReadLocked (requested : List DataKey) (catalogGeneration : ℕ)
    (deadline now scheduled : ℤ) : FreshRead L :=
  let fail (code : StatusCode) (message : String) : FreshRead L := ⟨c, .error ⟨code, message⟩, none⟩
  let keys := requested.insertionSort (· ≤ ·)
  if requested = [] ∨ catalogGeneration = 0 then
    fail .invalidArgument "fresh read arguments are invalid"
  else if c.limits.maxBatchItems < requested.length then
    fail .resourceExhausted "fresh read batch item limit exceeded"
  else if deadline ≤ now then fail .timeout "fresh read deadline expired"
  else if ¬keys.Nodup then fail .invalidArgument "fresh read contains duplicate keys"
  else if c.shutdown then fail .notInitialized "collection runtime is stopped"
  else if catalogGeneration ≠ c.routeGeneration ∨ c.routeEntity = none then
    fail .staleGeneration "fresh read route is stale"
  else if keys.any fun key =>
      decide (c.routeEntity ≠ some key.entity ∨ key.metric ∉ c.routeMetrics ∨
        c.data.metricDescriptor key.metric = none) then
    fail .unsupported "fresh read key is not supported"
  else if c.freshWaiters = c.limits.maxFreshWaiters then
    fail .resourceExhausted "fresh read waiter limit exceeded"
  else c.joinFresh keys catalogGeneration deadline scheduled

/-! ### The worker -/

def workerTake : Coordinator L :=
  match c.worker, c.queue with
  | none, task :: rest => { c with queue := rest, worker := some { task := task } }
  | _, _ => c

/-- The samples of the task, recorded after its results were committed. -/
def workerNote : Coordinator L :=
  match c.worker with
  | some ⟨task, .reading⟩ =>
    let noted := if task.job.id = 0 then c else (c.noteLogicalResults task.result).1
    { noted with worker := some ⟨task, .recorded⟩ }
  | _ => c

def workerRelease : Coordinator L :=
  match c.worker with
  | some ⟨task, .recorded⟩ => { c.releaseTaskLocked task with worker := some ⟨task, .released⟩ }
  | _ => c

/-- `status` is the outcome of the run of the task. -/
def workerComplete (status : Status) : Coordinator L :=
  match c.worker with
  | some ⟨task, .released⟩ => { c.setCompletion task status with worker := none }
  | _ => c

end Coordinator
end Pdcm
