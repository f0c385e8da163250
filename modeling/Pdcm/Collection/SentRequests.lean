import Pdcm.Collection.FreshTasks
import Pdcm.Collection.PlanRaces
import Pdcm.Collection.WatchAdmission

/-!
# Requests sent to the provider

A `ProviderReadRequest` is built for a due job of the plan, by `collectJob`, or for a fresh
read. Plans come from the watches that the watch manager admitted, fresh reads go by the
route of the active catalog view. On all three paths a metric is asked for only if a view of
the catalog supports it; whether it is a derived one is checked for watches, not for fresh
reads.
-/

namespace Pdcm

open Library List OrderedMap CollectionPlanItem ProcessorExecutorLimits

variable {plan : CollectionPlan} {p : MetricId → Prop}

/-! ### What is read -/

/-- If a metric is read, it is one of these. -/
def ProviderReadItem.ReadsOnly (p : MetricId → Prop) (item : ProviderReadItem) : Prop :=
  item.kind = .metric → p item.dataId

def ProviderReadRequest.ReadsOnly (p : MetricId → Prop) (request : ProviderReadRequest) : Prop :=
  ∀ item ∈ request.items, item.ReadsOnly p

def CollectionPlan.ReadsOnly (p : MetricId → Prop) (plan : CollectionPlan) : Prop :=
  ∀ job ∈ plan.jobs, ∀ item ∈ job.items, item.readItem.ReadsOnly p

def WatchSnapshot.ReadsOnly (p : MetricId → Prop) (watches : WatchSnapshot) : Prop :=
  ∀ watch ∈ watches.effectiveWatches, watch.planItem.readItem.ReadsOnly p

theorem CollectionPlan.ReadsOnly.request (h : plan.ReadsOnly p) {job : CollectionJob}
    (hjob : job ∈ plan.jobs) {req : ProviderReadRequest}
    (hite : req.items = job.items.map readItem) : req.ReadsOnly p := by
  intro item hit
  rw [hite] at hit
  obtain ⟨planned, hpl, rfl⟩ := mem_map.mp hit
  exact h job hjob planned hpl

/-- A view among these supports the metric. -/
def Offered (views : List CatalogView) (metric : MetricId) : Prop :=
  ∃ view ∈ views, view.Supports metric

/-! ### Watch snapshots -/

namespace WatchManager

variable {m : WatchManager}

/-- Effective watches are stored under their keys. -/
def Keyed (effective : OrderedMap EffectiveWatchKey EffectiveWatch) : Prop :=
  ∀ key e, effective.find? key = some e → e.key = key

theorem Keyed.mergeWatch {eff : OrderedMap EffectiveWatchKey EffectiveWatch}
    (h : Keyed eff) (pid : String) (id : WatchId) (r : WatchRequirement)
    (mid : MetricId) : Keyed (mergeWatch pid id r eff mid) := by
  intro key e hfi
  unfold WatchManager.mergeWatch at hfi
  rw [OrderedMap.find?_insert] at hfi
  split_ifs at hfi with hkey hfir
  · cases hfi
    exact hkey.symm
  · cases hfi
    cases hbe : eff.find? (watchKey pid r mid) with
    | none => exact hkey.symm
    | some b => exact (h _ b hbe).trans hkey.symm
  · exact h key e hfi

theorem effectiveWatches_keyed (m : WatchManager) (logical : OrderedMap WatchId LogicalWatch) :
    Keyed (m.effectiveWatches logical) := by
  have hba : Keyed (m.heartbeatBaseline.elim .empty fun b =>
      empty.emplace b.key b) := by
    intro key e hfi
    cases hb : m.heartbeatBaseline with
    | none =>
      rw [hb] at hfi
      cases hfi
    | some b =>
      rw [hb, Option.elim_some, OrderedMap.find?_emplace] at hfi
      split_ifs at hfi with hkey
      · cases hfi
        exact hkey.symm
      · cases hfi
  refine foldlRecOn _ _ hba fun eff hke entry _ => ?_
  refine foldlRecOn _ _ hke fun merged hme mid _ => ?_
  exact hme.mergeWatch _ _ _ mid

theorem buildSnapshot_readsOnly {p : MetricId → Prop}
    (hli : ∀ id watch, m.logical.find? id = some watch →
      ∀ mid ∈ watch.requirement.metrics, p mid)
    (hba : ∀ b ∈ m.heartbeatBaseline, b.key.kind = .heartbeatEvidence) (ver : ℕ) :
    (m.buildSnapshot m.logical ver).ReadsOnly p := by
  intro e he hki
  obtain ⟨⟨key, e⟩, hen, rfl⟩ := mem_map.mp he
  have hfi := mem_entries_iff.mp hen
  have hkey := m.effectiveWatches_keyed m.logical key e hfi
  change e.key.kind = .metric at hki
  change p e.key.dataId
  rw [hkey] at hki ⊢
  rcases mem_keys_effectiveWatches.mp (mem_keys.mpr ⟨e, hfi⟩) with
    ⟨entry, hlog, mid, hme, rfl⟩ | ⟨b, hb, rfl⟩
  · exact hli entry.1 entry.2 (mem_entries_iff.mp hlog) mid hme
  · rw [hba b hb] at hki
    cases hki

theorem apply_baseline_kind (h : ∀ b ∈ m.heartbeatBaseline, b.key.kind = .heartbeatEvidence)
    (op : WatchOperation) :
    ∀ b ∈ (m.apply op).heartbeatBaseline, b.key.kind = .heartbeatEvidence := by
  have hout := m.apply_outcome op
  generalize m.apply op = next at hout ⊢
  cases hout with
  | unchanged => exact h
  | activated view target hne =>
    obtain ⟨-, heq⟩ | ⟨-, hsa, -⟩ :=
      (m.switched view target).publish_eq (m.retained view target)
    · rw [heq]
      exact fun b hb => by cases hb
    · rw [hsa]
      exact fun b hb => by cases hb
  | rebased base hki => exact hki
  | created => exact h
  | removed => exact h
  | counted => exact h
  | exhausted => exact h

/-- The manager works on these views, and its snapshot reads what they support. -/
structure Offering (target : TargetCatalog) (views : List CatalogView) (m : WatchManager) :
    Prop where
  admitting : m.Admitting target views
  baseline : ∀ b ∈ m.heartbeatBaseline, b.key.kind = .heartbeatEvidence
  snapshot : m.snapshot.ReadsOnly (Offered views)

theorem Offering.apply {target : TargetCatalog} {views : List CatalogView}
    (h : m.Offering target views) {op : WatchOperation} (hop : OnCatalog target views op) :
    (m.apply op).Offering target views := by
  have had := h.admitting.apply hop
  have hba := apply_baseline_kind h.baseline op
  refine ⟨had, hba, ?_⟩
  rcases m.apply_snapshot op with hsa | ⟨-, hbu⟩
  · rw [hsa]
    exact h.snapshot
  · rw [hbu]
    refine buildSnapshot_readsOnly ?_ hba _
    intro id watch hfi mid hme
    obtain ⟨-, view, hvi, -, hsu⟩ := had.live id watch hfi mid hme
    exact ⟨view, hvi, hsu⟩

end WatchManager

namespace Coordinator

variable {L : Limits} {c c' : Coordinator L} {keys : List DataKey}
  {current : CollectionPlan}

/-! ### Tasks and the route -/

/-- Tasks that are new read these metrics only; the route is the same. -/
structure Adds (p : MetricId → Prop) (c c' : Coordinator L) : Prop where
  tasks : ∀ task ∈ c'.tasks, task ∈ c.tasks ∨ task.request.ReadsOnly p
  route_eq : c'.routeMetrics = c.routeMetrics

theorem Adds.of_subset (hta : c'.tasks ⊆ c.tasks)
    (hro : c'.routeMetrics = c.routeMetrics) : Adds p c c' :=
  ⟨fun _ htas => Or.inl (hta htas), hro⟩

theorem Adds.refl (c : Coordinator L) : Adds p c c := .of_subset (List.Subset.refl _) rfl

theorem Adds.trans {c'' : Coordinator L} (h : Adds p c c') (h' : Adds p c' c'') : Adds p c c'' := by
  refine ⟨fun task hta => ?_, h'.route_eq.trans h.route_eq⟩
  rcases h'.tasks task hta with hbe | hre
  · exact h.tasks task hbe
  · exact .inr hre

theorem evict_adds (c : Coordinator L) (last : CollectionTask) : Adds p c (c.evict last) := by
  have hsu : ({ c with queue := c.queue.dropLast } : Coordinator L).tasks ⊆ c.tasks :=
    append_subset.mpr ⟨List.Subset.trans (dropLast_subset _)
      (subset_append_left _ _), subset_append_right _ _⟩
  unfold evict
  rw [setCompletion_eq]
  exact .of_subset hsu rfl

theorem enqueueLocked_adds (c : Coordinator L) {task : CollectionTask}
    (h : task.request.ReadsOnly p) : Adds p c (c.enqueueLocked task).coordinator := by
  have hen : ∀ d : Coordinator L, Adds p d (d.enterQueue task) := by
    intro d
    refine ⟨fun other hot => ?_, rfl⟩
    rcases mem_cons.mp ((d.enterQueue_tasks task).mem_iff.mp hot) with rfl | hbe
    · exact .inr h
    · exact .inl hbe
  obtain ⟨_, -, heq⟩ | heq | ⟨last, -, -, heq⟩ := c.enqueueLocked_eq task
  · rw [heq]
    exact .refl c
  · rw [heq]
    exact hen c
  · rw [heq]
    exact (c.evict_adds last).trans (hen _)

theorem allocateRequestId_adds (c : Coordinator L) : Adds p c c.allocateRequestId.1 := by
  rcases c.allocateRequestId_cases with hal | hal
  · rw [hal]
    exact .refl c
  · rw [hal]
    exact .of_subset (.refl _) rfl

/-! ### Due jobs -/

theorem runJob_adds (hpl : current.ReadsOnly p) (now : ℤ) (d : DueRun L) {job : CollectionJob}
    (hjob : job ∈ current.jobs) : Adds p d.coordinator (runJob current now d job).coordinator := by
  unfold runJob
  cases d.coordinator.nextDue.find? job.id with
  | none => exact .refl _
  | some due =>
    dsimp only
    have hmo : Adds p d.coordinator (d.coordinator.moveDue job due now) :=
      .of_subset (.refl _) rfl
    have hal := hmo.trans (allocateRequestId_adds _)
    split_ifs
    · exact .refl _
    · exact hal
    · exact hal.trans (enqueueLocked_adds _ (hpl.request hjob rfl))

theorem runDueLocked_adds (c : Coordinator L) (hpl : current.ReadsOnly p) (now : ℤ) :
    Adds p c (c.runDueLocked current now).unlock := by
  have hsy : Adds p c (c.synchronizePlan current) := by
    unfold synchronizePlan
    split_ifs
    · exact .refl c
    · exact .of_subset (.refl _) rfl
  have hlo : Adds p c (c.dueLoop current now).coordinator := by
    refine foldlRecOn (motive := fun d : DueRun L => Adds p c d.coordinator) _ _ hsy ?_
    intro d hd job hjob
    exact hd.trans (runJob_adds hpl now d hjob)
  unfold runDueLocked
  split_ifs
  · exact .of_subset (.refl _) rfl
  · exact .of_subset (.refl _) rfl
  · exact hlo.trans (.of_subset (.refl _) rfl)

/-! ### Fresh reads -/

theorem ofEnqueued_adds {queued : Enqueued L} (h : Adds p c queued.coordinator) (rid : ℕ) :
    Adds p c (FreshRead.ofEnqueued rid queued).coordinator := by
  unfold FreshRead.ofEnqueued
  split
  · exact h.trans (.of_subset (.refl _) rfl)
  · exact h
  · exact h

theorem enqueueFresh_adds (c : Coordinator L) (h : ∀ key ∈ keys, p key.metric)
    (gen : ℕ) (dl sch : ℤ) :
    Adds p c (c.enqueueFresh keys gen dl sch).coordinator := by
  unfold enqueueFresh
  dsimp only
  split_ifs
  · exact c.allocateRequestId_adds
  · apply ofEnqueued_adds
    refine c.allocateRequestId_adds.trans (enqueueLocked_adds _ fun item hit _ => ?_)
    obtain ⟨key, hkey, rfl⟩ := mem_map.mp hit
    exact h key hkey

theorem joinFresh_adds (c : Coordinator L) (h : ∀ key ∈ keys, p key.metric) (gen : ℕ) (dl sch : ℤ) :
    Adds p c (c.joinFresh keys gen dl sch).coordinator := by
  unfold joinFresh
  dsimp only
  cases c.freshTasks.find? ⟨gen, keys⟩ with
  | none => exact c.enqueueFresh_adds h gen dl sch
  | some rid =>
    dsimp only
    cases c.liveTask? rid with
    | none =>
      have her : Adds p c { c with freshTasks := c.freshTasks.erase ⟨gen, keys⟩ } :=
        .of_subset (.refl _) rfl
      exact her.trans (enqueueFresh_adds _ h _ _ _)
    | some task =>
      dsimp only
      split_ifs
      · exact .of_subset (.refl _) rfl
      · exact .refl c

theorem freshReadLocked_adds (c : Coordinator L) (hrou : ∀ mid ∈ c.routeMetrics, p mid)
    (req : List DataKey) (gen : ℕ) (dl now sch : ℤ) :
    Adds p c (c.freshReadLocked req gen dl now sch).coordinator := by
  have hro : (c.freshReadLocked req gen dl now sch).coordinator = c ∨
      ∀ key ∈ req.insertionSort (· ≤ ·), key.metric ∈ c.routeMetrics := by
    unfold freshReadLocked
    dsimp only
    split_ifs with hem hba hex hdi hsto hst hun hfu
    all_goals first
      | exact .inl rfl
      | refine .inr fun key hkey => ?_
    simp only [any_eq_true, decide_eq_true_eq, not_exists, not_and, not_or, not_not] at hun
    exact (hun key hkey).2.1
  obtain hsame | hro := hro
  · rw [hsame]
    exact .refl c
  obtain ⟨st, -, heq⟩ | ⟨-, -, heq⟩ :=
    c.freshReadLocked_cases req gen dl now sch
  · rw [heq]
    exact .refl c
  · rw [heq]
    exact c.joinFresh_adds (fun key hkey => hrou _ (hro key hkey)) _ _ _

/-! ### The worker and the route -/

theorem workerTake_adds (c : Coordinator L) : Adds p c c.workerTake := by
  unfold workerTake
  split
  next task rest hwo hqu =>
    refine .of_subset (fun other hot => ?_) rfl
    simpa [tasks, hwo, hqu, or_comm] using hot
  next => exact .refl c

theorem workerNote_adds (c : Coordinator L) : Adds p c c.workerNote := by
  obtain heq | ⟨task, m, hwo, heq⟩ := c.workerNote_eq
  · rw [heq]
    exact .refl c
  · rw [heq]
    refine .of_subset ?_ rfl
    simp [tasks, hwo]

theorem workerRelease_adds (c : Coordinator L) : Adds p c c.workerRelease := by
  unfold workerRelease
  split
  next task hwo =>
    refine .of_subset ?_ rfl
    simp [tasks, releaseTaskLocked, hwo]
  next => exact .refl c

theorem workerComplete_adds (c : Coordinator L) (st : Status) : Adds p c (c.workerComplete st) := by
  unfold workerComplete
  split
  next task hwo =>
    rw [setCompletion_eq]
    refine .of_subset ?_ rfl
    simp [tasks]
  next => exact .refl c

theorem activateCatalog_routes (c : Coordinator L) (cat : Option CatalogView) :
    (c.activateCatalog cat).1.tasks = c.tasks ∧
      ∀ metric ∈ (c.activateCatalog cat).1.routeMetrics,
        metric ∈ c.routeMetrics ∨ ∃ view ∈ cat, view.Supports metric := by
  have hno : ∀ metric ∈ ([] : List ℕ), metric ∈ c.routeMetrics ∨
      ∃ view ∈ cat, view.Supports metric := fun _ hme => by cases hme
  unfold activateCatalog
  cases cat with
  | none => exact ⟨rfl, fun _ hme => .inl hme⟩
  | some view =>
    dsimp only
    split_ifs
    · exact ⟨rfl, fun _ hme => .inl hme⟩
    · split
      next rec _ _ =>
        cases hset : view.capabilities rec.ref with
        | error _ => exact ⟨rfl, hno⟩
        | ok set =>
          split_ifs
          · exact ⟨rfl, hno⟩
          · refine ⟨rfl, fun metric hme => .inr ⟨view, rfl, ?_⟩⟩
            obtain ⟨item, hit, rfl⟩ := mem_map.mp hme
            obtain ⟨hit, hbo⟩ := mem_filter.mp hit
            rw [Bool.and_eq_true, decide_eq_true_eq] at hbo
            exact ⟨set, (CatalogView.capabilities_ok hset).1, item, hit, hbo.1, rfl, hbo.2⟩
      next => exact ⟨rfl, hno⟩

/-! ### Steps of the coordinator -/

/-- The tasks and the route read these metrics only. -/
structure ReadsOnly (p : MetricId → Prop) (c : Coordinator L) : Prop where
  tasks : ∀ task ∈ c.tasks, task.request.ReadsOnly p
  route : ∀ metric ∈ c.routeMetrics, p metric

theorem Adds.readsOnly (h : Adds p c c') (hc : c.ReadsOnly p) : c'.ReadsOnly p := by
  refine ⟨fun task hta => ?_, h.route_eq ▸ hc.route⟩
  rcases h.tasks task hta with hbe | hre
  · exact hc.tasks task hbe
  · exact hre

end Coordinator

/-- The step activates no other view than these. -/
def CoordinatorStep.OnViews {L : Limits} (views : List CatalogView) : CoordinatorStep L → Prop
  | .activateCatalog catalog => ∀ view ∈ catalog, view ∈ views
  | _ => True

namespace Coordinator

variable {L : Limits} {c : Coordinator L} {views : List CatalogView} {a : CoordinatorStep L}

theorem ReadsOnly.step (h : c.ReadsOnly (Offered views)) (hint : a.internal = true)
    (hvi : a.OnViews views) : (c.step a).ReadsOnly (Offered views) := by
  cases a with
  | runDue => cases hint
  | applyWatchSnapshot => cases hint
  | dataChanged => cases hint
  | note call =>
    rw [Coordinator.step]
    split
    · rw [noteLogicalResults_eq]
      exact ⟨h.tasks, h.route⟩
    · exact h
  | freshRead keys gen dl now sch =>
    exact (c.freshReadLocked_adds h.route keys gen dl now sch).readsOnly h
  | freshReturn => exact ⟨h.tasks, h.route⟩
  | workerTake => exact c.workerTake_adds.readsOnly h
  | workerNote => exact c.workerNote_adds.readsOnly h
  | workerRelease => exact c.workerRelease_adds.readsOnly h
  | workerComplete st => exact (c.workerComplete_adds st).readsOnly h
  | activateCatalog cat =>
    obtain ⟨hta, hro⟩ := c.activateCatalog_routes cat
    refine ⟨fun task htas => h.tasks task (hta ▸ htas), fun mid hme => ?_⟩
    rcases hro mid hme with hbe | ⟨view, hvie, hsu⟩
    · exact h.route mid hbe
    · exact ⟨view, hvi view hvie, hsu⟩

/-- The only operation that the coordinator's own steps apply to the watch manager is the
recording of samples. -/
theorem step_watchManager (c : Coordinator L) (hint : a.internal = true) :
    (c.step a).watchManager = c.watchManager ∨
      ∃ m ids first per cnt, c.watchManager = some m ∧ (c.step a).watchManager =
        some (m.apply (.recordSamples ids first per cnt)) := by
  have hout := c.step_outcome a
  generalize c.step a = c' at hout ⊢
  cases hout with
  | ranDue => cases hint
  | installed => cases hint
  | recorded _ r _ hsa =>
    rw [hsa.watchManager_eq]
    cases hm : c.watchManager with
    | none => exact .inl (by rw [noteLogicalResults, hm, hm])
    | some m => exact .inr ⟨m, _, _, _, _, rfl, noteLogicalResults_recordSamples hm r⟩
  | dropped _ _ _ hsa => exact .inl hsa.watchManager_eq
  | quiet _ hsa => exact .inl hsa.watchManager_eq

/-- `collectJob` up to the call of the provider; `now` is its clock reading. -/
def collectJob (c : Coordinator L) (jobId : ℕ) (scheduledTime deadline now : ℤ) :
    Coordinator L × Except Status ProviderReadRequest :=
  match c.plan.jobs.find? fun job => decide (job.id = jobId) with
  | none => (c, .error ⟨.notFound, "collection job does not exist"⟩)
  | some job =>
    if scheduledTime < 0 ∨ deadline < scheduledTime ∨ deadline < now then
      (c, .error ⟨.timeout, "collection job deadline expired"⟩)
    else
      let allocated := c.allocateRequestId
      if allocated.2 = 0 then
        (allocated.1, .error ⟨.resourceExhausted, "request ID space exhausted"⟩)
      else
        (allocated.1, .ok
          { requestId := allocated.2
            planGeneration := c.plan.version
            catalogGeneration := c.plan.catalogGeneration
            scheduledTime := scheduledTime
            deadline := deadline
            items := job.items.map readItem })

/-- `collectJob` takes a request id at most, and its request is for a job of the plan. -/
theorem collectJob_cases (c : Coordinator L) (jobId : ℕ) (sch dl now : ℤ) :
    ((c.collectJob jobId sch dl now).1 = c ∨
      (c.collectJob jobId sch dl now).1 = c.issue) ∧
    ∀ req, (c.collectJob jobId sch dl now).2 = .ok req →
      ∃ job ∈ c.plan.jobs, req.items = job.items.map readItem := by
  unfold collectJob
  cases hfi : c.plan.jobs.find? fun job => decide (job.id = jobId) with
  | none => exact ⟨.inl rfl, fun _ hok => by cases hok⟩
  | some job =>
    have hal : c.allocateRequestId.1 = c ∨ c.allocateRequestId.1 = c.issue := by
      rcases c.allocateRequestId_cases with hall | hall
      · exact .inl (by rw [hall])
      · exact .inr (by rw [hall])
    dsimp only
    split_ifs
    · exact ⟨.inl rfl, fun _ hok => by cases hok⟩
    · exact ⟨hal, fun _ hok => by cases hok⟩
    · refine ⟨hal, fun req hok => ?_⟩
      cases hok
      exact ⟨job, mem_of_find?_eq_some hfi, rfl⟩

end Coordinator

/-! ### The system -/

/-- A process with the requests that it has handed to `ProviderManager::batchRead`. What
`collectJob` does with the answer, the commit and the recording, are steps of the system. -/
structure ReadSystem (L : Limits) where
  system : PlanSystem L
  sent : List ProviderReadRequest := []

inductive ReadStep (L : Limits) where
  | plan (a : PlanStep L)
  /-- The worker reads the task it has taken, at this time. -/
  | workerRead (now : ℤ)
  | collectJob (jobId : ℕ) (scheduledTime deadline now : ℤ)

namespace ReadSystem

variable {L : Limits}

/-- A task is read once, and not at all after its deadline. -/
def workerRead (s : ReadSystem L) (now : ℤ) : ReadSystem L :=
  match s.system.runtime.worker with
  | some ⟨task, .reading⟩ =>
    if task.request.deadline < now ∨ task.request ∈ s.sent then s
    else { s with sent := s.sent ++ [task.request] }
  | _ => s

def collectJob (s : ReadSystem L) (jobId : ℕ) (scheduledTime deadline now : ℤ) : ReadSystem L :=
  let collected := s.system.runtime.collectJob jobId scheduledTime deadline now
  { system := { s.system with runtime := collected.1 }
    sent := s.sent ++ collected.2.toOption.toList }

def step (s : ReadSystem L) : ReadStep L → ReadSystem L
  | .plan a => { s with system := s.system.step a }
  | .workerRead now => s.workerRead now
  | .collectJob jobId scheduledTime deadline now => s.collectJob jobId scheduledTime deadline now

def start (limits : CollectionLimits) (valid : limits.validate.ok = true)
    (watchManager : WatchManager) (processors : List (Option MetricProcessor))
    (executor : ProcessorExecutor) : ReadSystem L where
  system := .start limits valid (some watchManager) processors executor

end ReadSystem

/-- The step activates no other views than these of the target catalog. -/
def PlanStep.OnCatalog {L : Limits} (target : TargetCatalog) (views : List CatalogView) :
    PlanStep L → Prop
  | .watch op => WatchManager.OnCatalog target views op
  | .call (.activateCatalog catalog given) => given = target ∧ ∀ view ∈ catalog, view ∈ views
  | .coordinator a => a.OnViews views
  | _ => True

def ReadStep.OnCatalog {L : Limits} (target : TargetCatalog) (views : List CatalogView) :
    ReadStep L → Prop
  | .plan a => a.OnCatalog target views
  | _ => True

/-! ### What a system reads -/

/-- What a call in progress still holds. -/
def ApplyCall.ReadsOnly (p : MetricId → Prop) : ApplyCall → Prop
  | .holding watches _ => watches.ReadsOnly p
  | .compiled plan _ => plan.ReadsOnly p
  | .published plan => plan.ReadsOnly p
  | .returned _ _ => True

def DueCall.ReadsOnly (p : MetricId → Prop) : DueCall → Prop
  | .loaded current _ => current.ReadsOnly p
  | .unlocked => True

namespace PlanSystem

variable {L : Limits} {target : TargetCatalog} {views : List CatalogView} {s : PlanSystem L}

/-- The watches, the plans, the tasks and the route are for metrics of the views. -/
structure Offering (target : TargetCatalog) (views : List CatalogView) (s : PlanSystem L) :
    Prop where
  manager : ∀ m ∈ s.runtime.watchManager, m.Offering target views
  plan : s.runtime.plan.ReadsOnly (Offered views)
  runtime : s.runtime.ReadsOnly (Offered views)
  applies : ∀ call ∈ s.applies, call.ReadsOnly (Offered views)
  dues : ∀ call ∈ s.dues, call.ReadsOnly (Offered views)

variable (h : s.Offering target views)

include h

theorem Offering.setApply (call : ℕ) (next : ApplyCall)
    (hne : next.ReadsOnly (Offered views)) : (s.setApply call next).Offering target views := by
  refine ⟨h.manager, h.plan, h.runtime, fun other hot => ?_, h.dues⟩
  rcases mem_or_eq_of_mem_set hot with hbe | rfl
  · exact h.applies other hbe
  · exact hne

theorem Offering.watch {op : WatchOperation} (hop : WatchManager.OnCatalog target views op) :
    (s.step (.watch op)).Offering target views := by
  refine ⟨fun m hm => ?_, h.plan, ⟨h.runtime.tasks, h.runtime.route⟩, h.applies, h.dues⟩
  obtain ⟨b, hbe, rfl⟩ := Option.map_eq_some_iff.mp hm
  exact (h.manager b hbe).apply hop

theorem Offering.compile (call : ℕ) (now : ℤ) :
    (s.compile call now).Offering target views := by
  unfold PlanSystem.compile
  split
  next ws seen hca =>
    have hwa : ws.ReadsOnly (Offered views) :=
      h.applies _ (mem_of_getElem? hca)
    split
    next => exact h.setApply call _ trivial
    next plan hpl =>
      refine h.setApply call _ fun job hjob item hit => ?_
      have hmem : item ∈ plan.jobs.flatMap CollectionJob.items :=
        mem_flatMap.mpr ⟨job, hjob, hit⟩
      rw [(compilePlan_partitions s.runtime.valid hpl).items.mem_iff] at hmem
      obtain ⟨watch, hwat, rfl⟩ := mem_map.mp hmem
      exact hwa watch hwat
  next => exact h

theorem Offering.publish (call : ℕ) :
    (s.publish call).Offering target views := by
  unfold PlanSystem.publish
  split
  next plan seen hca _ =>
    have hpl : plan.ReadsOnly (Offered views) := h.applies _ (mem_of_getElem? hca)
    split_ifs
    · exact h.setApply call _ trivial
    · have hset := h.setApply call
        (.published { plan with version := s.runtime.plan.version + 1 }) hpl
      exact ⟨h.manager, hpl, ⟨h.runtime.tasks, h.runtime.route⟩, hset.applies, h.dues⟩
  next => exact h

theorem Offering.install (call : ℕ) :
    (s.install call).Offering target views := by
  unfold PlanSystem.install
  split
  next plan hca =>
    have hset := h.setApply call (.returned .success plan.version) trivial
    exact ⟨h.manager, h.plan, ⟨h.runtime.tasks, h.runtime.route⟩, hset.applies, h.dues⟩
  next => exact h

theorem Offering.runLocked (call : ℕ) :
    (s.runLocked call).Offering target views := by
  unfold PlanSystem.runLocked
  split
  next current now hca =>
    have hcur : current.ReadsOnly (Offered views) := h.dues _ (mem_of_getElem? hca)
    have hran := s.coordinator.runDueLocked_ran current now
    have had := s.coordinator.runDueLocked_adds hcur now
    refine ⟨fun m hm => h.manager m ?_, ?_, had.readsOnly ⟨h.runtime.tasks, h.runtime.route⟩,
      h.applies, fun other hot => ?_⟩
    · rw [Option.mem_def, ← hm]
      exact hran.watchManager_eq.symm
    · exact (congrArg (CollectionPlan.ReadsOnly _) hran.plan_eq).mpr h.plan
    · rcases mem_or_eq_of_mem_set hot with hbe | rfl
      · exact h.dues other hbe
      · trivial
  next => exact h

theorem Offering.internal {a : CoordinatorStep L}
    (hint : a.internal = true) (hvi : a.OnViews views) :
    ({ s with runtime := s.coordinator.step a } : PlanSystem L).Offering target views := by
  have hpl : (s.coordinator.step a).plan = s.runtime.plan :=
    (s.coordinator.step_internal hint).table.plan_eq
  have hru : s.coordinator.ReadsOnly (Offered views) := ⟨h.runtime.tasks, h.runtime.route⟩
  refine ⟨fun m hm => ?_, hpl ▸ h.plan, hru.step hint hvi, h.applies, h.dues⟩
  rcases s.coordinator.step_watchManager hint with
    hsame | ⟨b, ids, first, per, cnt, hbe, hrec⟩
  · exact h.manager m (hsame ▸ hm)
  · obtain rfl := Option.some.inj (hrec.symm.trans hm)
    exact (h.manager b hbe).apply trivial

theorem Offering.step {a : PlanStep L} (ha : a.OnCatalog target views) :
    (s.step a).Offering target views := by
  cases a with
  | watch op => exact h.watch ha
  | call c => exact ⟨h.manager, h.plan, h.runtime, h.applies, h.dues⟩
  | readSnapshot =>
    rw [PlanSystem.step]
    split
    next m hm =>
      refine ⟨h.manager, h.plan, h.runtime, fun call hca => ?_, h.dues⟩
      rcases mem_append.mp hca with hbe | hre
      · exact h.applies call hbe
      · rw [mem_singleton.mp hre]
        exact (h.manager m hm).snapshot
    next => exact h
  | compile call now => exact h.compile call now
  | publish call => exact h.publish call
  | install call => exact h.install call
  | loadPlan now =>
    refine ⟨h.manager, h.plan, h.runtime, h.applies, fun call hca => ?_⟩
    rcases mem_append.mp hca with hbe | hlo
    · exact h.dues call hbe
    · rw [mem_singleton.mp hlo]
      exact h.plan
  | runLocked call => exact h.runLocked call
  | coordinator a =>
    rw [PlanSystem.step]
    split_ifs with hint
    · exact h.internal hint ha
    · exact h

end PlanSystem

namespace ReadSystem

variable {L : Limits} {target : TargetCatalog} {views : List CatalogView} {s : ReadSystem L}

structure Offering (target : TargetCatalog) (views : List CatalogView) (s : ReadSystem L) :
    Prop where
  system : s.system.Offering target views
  sent : ∀ request ∈ s.sent, request.ReadsOnly (Offered views)

section

variable (h : s.Offering target views)

include h

theorem Offering.workerRead (now : ℤ) :
    (s.workerRead now).Offering target views := by
  unfold ReadSystem.workerRead
  split
  next task hwo =>
    split_ifs
    · exact h
    · refine ⟨h.system, fun req hreq => ?_⟩
      rcases mem_append.mp hreq with hbe | hre
      · exact h.sent req hbe
      · rw [mem_singleton.mp hre]
        apply h.system.runtime.tasks task
        simp [Coordinator.tasks, hwo]
  next => exact h

theorem Offering.collectJob (jobId : ℕ) (sch dl now : ℤ) :
    (s.collectJob jobId sch dl now).Offering target views := by
  obtain ⟨hru, hreq⟩ :=
    s.system.runtime.collectJob_cases jobId sch dl now
  unfold ReadSystem.collectJob
  generalize s.system.runtime.collectJob jobId sch dl now = collected at *
  obtain ⟨runtime, out⟩ := collected
  constructor
  · rcases hru with rfl | rfl
    · exact h.system
    · exact ⟨h.system.manager, h.system.plan, ⟨h.system.runtime.tasks, h.system.runtime.route⟩,
        h.system.applies, h.system.dues⟩
  · intro req hmem
    rcases mem_append.mp hmem with hbe | hco
    · exact h.sent req hbe
    · cases out with
      | error st => cases hco
      | ok collected =>
        obtain ⟨job, hjob, hit⟩ := hreq collected rfl
        rw [mem_singleton.mp hco]
        exact h.system.plan.request hjob hit

theorem Offering.step {a : ReadStep L} (ha : a.OnCatalog target views) :
    (s.step a).Offering target views := by
  cases a with
  | plan a => exact ⟨h.system.step ha, h.sent⟩
  | workerRead now => exact h.workerRead now
  | collectJob jobId sch dl now => exact h.collectJob jobId sch dl now

end

/-- Whatever the system does on the views of a catalog, it asks the provider only for metrics
that a view supports. -/
theorem run_offering (limits : CollectionLimits) (valid : limits.validate.ok = true)
    (watchLimits : WatchLimits) (hwa : watchLimits.validate.ok = true)
    (ps : List (Option MetricProcessor)) (ex : ProcessorExecutor)
    {steps : List (ReadStep L)} (h : ∀ a ∈ steps, a.OnCatalog target views) :
    (runFrom step (start limits valid (.initial watchLimits hwa) ps ex)
      steps).Offering target views := by
  refine invariant_along (fun s a hs ha => hs.step ha) ?_ (along_of_forall h _)
  have hinitial : (WatchManager.initial watchLimits hwa).Offering target views :=
    ⟨⟨.inl rfl, nofun⟩, nofun, nofun⟩
  refine ⟨⟨fun other hot => ?_, ?_, ⟨?_, ?_⟩, ?_, ?_⟩, ?_⟩
  · cases hot
    exact hinitial
  all_goals exact fun _ hmem => by cases hmem

end ReadSystem

/-! ### Derived metrics -/

/-- The catalog has no derived metric with this id. -/
def TargetCatalog.Raw (target : TargetCatalog) (metric : MetricId) : Prop :=
  ∀ descriptor ∈ target.metrics, descriptor.id = metric → descriptor.collectionMode ≠ .derived

instance (target : TargetCatalog) (metric : MetricId) : Decidable (target.Raw metric) :=
  inferInstanceAs (Decidable (∀ descriptor ∈ target.metrics, _))

namespace SemanticCatalog

/-- The provider reports no derived metric of the catalog as supported. -/
def ReportsRaw (target : TargetCatalog) (d : ProviderDescriptor) : Prop :=
  ∀ metric ∈ target.metrics, providerSupports d .metric metric.id = true →
    metric.collectionMode ≠ .derived

end SemanticCatalog

namespace ReadSystem

open SemanticCatalog

variable {L : Limits}

/-- If the provider reports raw metrics only, then no request that reaches it reads a derived
metric, whatever is watched, queried or read. -/
theorem sent_raw {target : TargetCatalog} (valid : target.validate.ok = true)
    (descriptors : List ProviderDescriptor) (hraw : ∀ d ∈ descriptors, ReportsRaw target d)
    (limits : CollectionLimits) (hlimits : limits.validate.ok = true)
    (watchLimits : WatchLimits) (hwatchLimits : watchLimits.validate.ok = true)
    (processors : List (Option MetricProcessor)) (executor : ProcessorExecutor)
    (steps : List (ReadStep L))
    (hsteps : ∀ a ∈ steps, a.OnCatalog target
      ((runFrom CatalogRun.commit (CatalogRun.fresh target valid) descriptors).published.map
        Published.view)) :
    ∀ request ∈ (runFrom step (start limits hlimits (.initial watchLimits hwatchLimits)
      processors executor) steps).sent, request.ReadsOnly target.Raw := by
  intro request hrequest item hitem hkind
  have hoffering :=
    run_offering limits hlimits watchLimits hwatchLimits processors executor hsteps
  obtain ⟨view, hview, hsupports⟩ := hoffering.sent request hrequest item hitem hkind
  obtain ⟨p, hp, rfl⟩ := mem_map.mp hview
  obtain ⟨d, hd, hcommitted⟩ := (run_viewsCommitted valid descriptors).views p hp
  obtain ⟨-, -, -, hreported⟩ := hcommitted.supports hsupports
  intro descriptor hdescriptor hid
  exact hraw d hd descriptor hdescriptor (hid ▸ hreported)

end ReadSystem

/-! ### A derived metric that the provider reports -/

namespace ReportedMean

open SemanticCatalog SharedDevice ReadSystem

/-- An inlet temperature that is polled and a mean that is derived. -/
def catalog : TargetCatalog :=
  { target with
    metrics := [descriptor 7 "inlet", { descriptor 8 "mean" with collectionMode := .derived }] }

theorem catalog_valid : catalog.validate.ok = true := by decide +kernel

/-- A provider that reports these metrics as supported. -/
def provider (metrics : List MetricId) : ProviderDescriptor :=
  { reporting with
    capabilities := metrics.map fun metric =>
      { kind := .metric, dataId := metric, supported := true } }

def committed (metrics : List MetricId) : CatalogRun :=
  runFrom CatalogRun.commit (CatalogRun.fresh catalog catalog_valid) [provider metrics]

def views (metrics : List MetricId) : List CatalogView :=
  (committed metrics).published.map Published.view

def fresh : ReadSystem storeLimits :=
  start {} CollectionLimits.validate_default (.initial {} WatchLimits.validate_default) []
    { valid := validate_default }

/-- The view becomes active everywhere. -/
def activations (view : CatalogView) : List (ReadStep storeLimits) :=
  [.plan (.call (.activateCatalog (some view) catalog)),
    .plan (.watch (.activateCatalog (some view) catalog)),
    .plan (.coordinator (.activateCatalog (some view)))]

/-- A fresh read of the metric, and the worker that performs it. -/
def reads (metric : MetricId) : List (ReadStep storeLimits) :=
  [.plan (.coordinator (.freshRead [⟨⟨.device, 0, 1⟩, metric⟩] 1 20 10 10)),
    .plan (.coordinator .workerTake), .workerRead 10]

/-- A watch of metric 7 that becomes a plan, and a call that collects its job. -/
def collects : List (ReadStep storeLimits) :=
  [.plan (.watch (.create (client 1) { requirement [7] 10 0 with entity := ⟨.device, 0, 1⟩ })),
    .plan .readSnapshot, .plan (.compile 0 0), .plan (.publish 0), .plan (.install 0),
    .collectJob 1 10 20 10]

theorem activations_onCatalog {metrics : List MetricId} {view : CatalogView}
    (h : view ∈ views metrics) :
    ∀ a ∈ activations view, a.OnCatalog catalog (views metrics) := by
  have hvi : ∀ v ∈ some view, v ∈ views metrics := fun v hv => by cases hv; exact h
  intro a ha
  simp only [activations, mem_cons, not_mem_nil, or_false] at ha
  rcases ha with rfl | rfl | rfl
  · exact ⟨rfl, hvi⟩
  · exact ⟨rfl, hvi⟩
  · exact hvi

theorem sent_raw_inlet :
    ∃ view ∈ views [7],
      (runFrom step fresh (activations view ++ collects ++ reads 7)).sent.map
        (fun request => request.items.map ProviderReadItem.dataId) = [[7], [7]] ∧
      ∀ request ∈ (runFrom step fresh (activations view ++ collects ++ reads 7)).sent,
        request.ReadsOnly catalog.Raw := by
  have hraw : ∀ d ∈ [provider [7]], ReportsRaw catalog d := by
    intro d hd metric hmetric
    rw [mem_singleton.mp hd]
    revert metric
    decide +kernel
  have hmem : (committed [7]).catalog.snapshot ∈ views [7] := by decide +kernel
  refine ⟨(committed [7]).catalog.snapshot, hmem, by decide +kernel, ?_⟩
  refine sent_raw catalog_valid [provider [7]] hraw {} CollectionLimits.validate_default {}
    WatchLimits.validate_default [] { valid := validate_default } _ ?_
  intro a ha
  rcases mem_append.mp ha with ha | ha
  · rcases mem_append.mp ha with ha | ha
    · exact activations_onCatalog hmem a ha
    · simp only [collects, mem_cons, not_mem_nil, or_false] at ha
      rcases ha with rfl | rfl | rfl | rfl | rfl | rfl <;> trivial
  · simp only [reads, mem_cons, not_mem_nil, or_false] at ha
    rcases ha with rfl | rfl | rfl <;> trivial

/-- The provider reports the mean as supported, so the route leads to it, and a fresh read
asks the provider for it. -/
theorem sent_derived :
    ∃ view ∈ views [7, 8], (∀ a ∈ activations view, a.OnCatalog catalog (views [7, 8])) ∧
      ∃ request ∈ (runFrom step fresh (activations view ++ reads 8)).sent,
        request.items = [⟨⟨.device, 0, 1⟩, .metric, 8⟩] ∧ ¬catalog.Raw 8 := by
  have hmem : (committed [7, 8]).catalog.snapshot ∈ views [7, 8] := by decide +kernel
  exact ⟨_, hmem, activations_onCatalog hmem, by decide +kernel⟩

end ReportedMean
end Pdcm
