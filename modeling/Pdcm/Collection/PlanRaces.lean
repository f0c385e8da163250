import Pdcm.Collection.PlanSystem

/-!
# Plans that come late

A plan compiled from an older snapshot can be stored after one from a newer snapshot, and a
`runDue` call can run a plan that was replaced after the call had loaded it. Neither can
happen when the snapshot or the plan was read after the last publication. Requests of an old
catalog generation are made until no plan of that generation is left anywhere.
-/

namespace Pdcm

open Library List

/-! ### What a `runDue` call enqueues -/

namespace Coordinator

variable {L : Limits} (c : Coordinator L) {t : CollectionTask} (cur : CollectionPlan)

theorem enqueueLocked_queue (task : CollectionTask)
    (h : t ∈ (c.enqueueLocked task).coordinator.queue ∨ t ∈ (c.enqueueLocked task).evicted) :
    t = task ∨ t ∈ c.queue := by
  have hen {c' : Coordinator L} (hqu : c'.queue ⊆ c.queue)
      (ht : t ∈ (c'.enterQueue task).queue) : t = task ∨ t ∈ c.queue := by
    rcases mem_cons.mp ((insertByPriority_perm c'.queue task).mem_iff.mp ht) with rfl | ht
    · exact .inl rfl
    · exact .inr (hqu ht)
  obtain ⟨_, -, heq⟩ | heq | ⟨last, hla, -, heq⟩ := c.enqueueLocked_eq task
  · rw [heq] at h
    simpa using Or.inr h
  · rw [heq] at h
    rcases h with h | h
    · exact hen (.refl _) h
    · cases h
  · rw [heq] at h
    have hev : (c.evict last).queue = c.queue.dropLast := by
      rw [evict, setCompletion_eq]
      rfl
    rcases h with h | h
    · exact hen (hev ▸ dropLast_subset c.queue) h
    · obtain rfl : last = t := by simpa using h
      exact .inr (mem_of_getLast? hla)

theorem runJob_queue (now : ℤ) (d : DueRun L) (job : CollectionJob)
    (h : t ∈ (runJob cur now d job).coordinator.queue ∨
      t ∈ (runJob cur now d job).evicted) :
    (t ∈ d.coordinator.queue ∨ t ∈ d.evicted) ∨
      ∃ sch requestId, t = dueTask cur job sch requestId := by
  unfold runJob at h
  cases hdue : d.coordinator.nextDue.find? job.id with
  | none => exact .inl (by simpa [hdue] using h)
  | some due =>
    have hal : ((d.coordinator.moveDue job due now).allocateRequestId).1.queue =
        d.coordinator.queue := by
      unfold allocateRequestId
      split_ifs <;> rfl
    simp only [hdue] at h
    split_ifs at h with hnow hid
    · exact .inl h
    · rw [hal] at h
      exact .inl h
    · rw [mem_append, Option.mem_toList, or_left_comm] at h
      rcases h with h | h
      · exact .inl (.inr h)
      · rcases enqueueLocked_queue _ _ h with rfl | hold
        · exact .inr ⟨_, _, rfl⟩
        · exact .inl (.inl (hal ▸ hold))

/-- A task made from the plan. -/
def IsDueTask (current : CollectionPlan) (t : CollectionTask) : Prop :=
  ∃ job ∈ current.jobs, ∃ scheduled requestId, t = dueTask current job scheduled requestId

theorem foldl_runJob_queue (now : ℤ) {jobs : List CollectionJob}
    (hjo : jobs ⊆ cur.jobs) (d : DueRun L) {t : CollectionTask}
    (h : t ∈ (jobs.foldl (runJob cur now) d).coordinator.queue ∨
      t ∈ (jobs.foldl (runJob cur now) d).evicted) :
    (t ∈ d.coordinator.queue ∨ t ∈ d.evicted) ∨ IsDueTask cur t := by
  induction jobs generalizing d with
  | nil => exact .inl h
  | cons job rest ih =>
    obtain ⟨hjob, hre⟩ := cons_subset.mp hjo
    rcases ih hre _ h with hbe | hdue
    · exact (runJob_queue cur now d job hbe).imp_right fun hdue => ⟨job, hjob, hdue⟩
    · exact .inr hdue

/-- What a locked section with a given plan does. -/
structure RanLocked (c : Coordinator L) (current : CollectionPlan) (d : DueRun L) : Prop where
  plan_eq : d.coordinator.plan = c.plan
  watchManager_eq : d.coordinator.watchManager = c.watchManager
  version : d.coordinator.scheduledPlanVersion = c.scheduledPlanVersion ∨
    d.coordinator.scheduledPlanVersion = current.version
  tasks : ∀ t, t ∈ d.coordinator.queue ∨ t ∈ d.evicted → t ∈ c.queue ∨ IsDueTask current t

theorem synchronizePlan_cases (current : CollectionPlan) :
    c.synchronizePlan current = c ∨ c.synchronizePlan current = c.installPlan current := by
  unfold synchronizePlan
  split_ifs
  · exact .inl rfl
  · exact .inr rfl

theorem runDueLocked_ran (now : ℤ) :
    RanLocked c cur (c.runDueLocked cur now) := by
  unfold runDueLocked
  split_ifs with hnow hsh
  · exact ⟨rfl, rfl, .inl rfl, fun t ht => .inl (by simpa using ht)⟩
  · exact ⟨rfl, rfl, .inl rfl, fun t ht => .inl (by simpa using ht)⟩
  · unfold dueLoop
    have hlo := foldl_runJob_samePlan cur now cur.jobs { coordinator := c.synchronizePlan cur }
    have hta := fun t => @foldl_runJob_queue L cur now _ (.refl cur.jobs)
      { coordinator := c.synchronizePlan cur } t
    obtain hsync | hsync := c.synchronizePlan_cases cur
    all_goals
      rw [hsync] at hlo hta ⊢
      refine ⟨hlo.plan_eq, hlo.watchManager_eq, ?_, fun t ht => ?_⟩
    · exact .inl hlo.version_eq
    · simpa using hta t ht
    · exact .inr hlo.version_eq
    · simpa [installPlan] using hta t ht

end Coordinator

/-! ### Snapshots -/

/-- The snapshot version a call is about to publish, and the plan version it was read at. -/
def ApplyCall.carried : ApplyCall → Option (ℕ × ℕ)
  | .holding watches seen => some (watches.version, seen)
  | .compiled plan seen => some (plan.watchSnapshotVersion, seen)
  | .published _ | .returned _ _ => none

/-- The plan version a call has published. -/
def ApplyCall.stored : ApplyCall → ℕ
  | .holding _ _ | .compiled _ _ => 0
  | .published plan => plan.version
  | .returned _ version => version

namespace PlanSystem

variable {L : Limits} {s : PlanSystem L}

/-- A snapshot version that was read while the plan of version `seen` was published. -/
structure Read (s : PlanSystem L) (version seen : ℕ) : Prop where
  seen_le : seen ≤ s.runtime.plan.version
  current : seen = s.runtime.plan.version → s.runtime.plan.watchSnapshotVersion ≤ version
  issued : ∀ m ∈ s.runtime.watchManager, version ≤ m.snapshot.version

/-- No plan and no call is ahead of the watch manager. -/
structure SnapshotOrder (s : PlanSystem L) : Prop where
  plan_le : ∀ m ∈ s.runtime.watchManager, s.runtime.plan.watchSnapshotVersion ≤ m.snapshot.version
  read : ∀ call ∈ s.applies, ∀ carried ∈ call.carried, s.Read carried.1 carried.2

theorem forall_mem_set {α : Type*} {P : α → Prop} {l : List α} {i : ℕ} {a : α}
    (hl : ∀ b ∈ l, P b) (ha : P a) : ∀ b ∈ l.set i a, P b := by
  intro b hb
  rcases mem_or_eq_of_mem_set hb with hb | rfl
  · exact hl b hb
  · exact ha

theorem compilePlan_source {limits : CollectionLimits} {data : DataManager L}
    {ws : WatchSnapshot} {now : ℤ} {plan : CollectionPlan}
    (h : compilePlan limits data ws now = .ok plan) :
    plan.watchSnapshotVersion = ws.version ∧
      plan.catalogGeneration = data.catalogGeneration := by
  obtain ⟨hgen, groups, -, -, rfl⟩ := compilePlan_ok h
  exact ⟨rfl, hgen⟩

theorem managerStep_version {b after : Option WatchManager}
    (h : Coordinator.ManagerStep b after) {ver : ℕ}
    (hbe : ∀ m ∈ b, ver ≤ m.snapshot.version) :
    ∀ m ∈ after, ver ≤ m.snapshot.version := by
  obtain rfl | ⟨m, op, rfl, rfl⟩ := h
  · exact hbe
  · intro m' hm'
    obtain rfl : m.apply op = m' := Option.some.inj hm'
    obtain hsa | hnext := m.apply_version op
    · rw [hsa]
      exact hbe m rfl
    · rw [hnext]
      exact (hbe m rfl).trans (Nat.le_succ _)

/-- The order does not depend on anything but the plan, the watch manager and the calls. -/
theorem SnapshotOrder.congr {s' : PlanSystem L} (h : s.SnapshotOrder)
    (hpl : s'.runtime.plan = s.runtime.plan)
    (hmgr : Coordinator.ManagerStep s.runtime.watchManager s'.runtime.watchManager)
    (hca : ∀ call ∈ s'.applies, ∀ carried ∈ call.carried,
      s.Read carried.1 carried.2) : s'.SnapshotOrder where
  plan_le := by
    rw [hpl]
    exact managerStep_version hmgr h.plan_le
  read call hcal carried hcarry := by
    obtain ⟨hse, hcur, his⟩ := hca call hcal carried hcarry
    refine ⟨?_, ?_, managerStep_version hmgr his⟩
    · rwa [hpl]
    · rwa [hpl]

theorem SnapshotOrder.step (h : s.SnapshotOrder) (a : PlanStep L) : (s.step a).SnapshotOrder := by
  have hef := s.step_effect a
  generalize s.step a = next at hef ⊢
  cases hef with
  | unchanged => exact h
  | managed runtime hint => exact h.congr hint.table.plan_eq hint.manager h.read
  | called c => exact h.congr rfl (.inl rfl) h.read
  | read m hm =>
    refine h.congr rfl (.inl rfl) ?_
    intro call hcal carried hca
    rcases mem_append.mp hcal with hold | hnew
    · exact h.read call hold carried hca
    · obtain rfl := mem_singleton.mp hnew
      obtain rfl : (m.snapshot.version, s.runtime.plan.version) = carried :=
        Option.some.inj hca
      refine ⟨le_rfl, fun _ => h.plan_le m hm, fun m' hm' => ?_⟩
      rw [Option.some.inj (hm.symm.trans hm')]
  | refused call st =>
    refine h.congr rfl (.inl rfl) (forall_mem_set h.read ?_)
    exact fun carried hca => by cases hca
  | @compiled call now ws seen plan hcal hpl =>
    refine h.congr rfl (.inl rfl) (forall_mem_set h.read ?_)
    intro carried hca
    obtain rfl : (plan.watchSnapshotVersion, seen) = carried := Option.some.inj hca
    rw [(compilePlan_source hpl).1]
    exact h.read _ (mem_of_getElem? hcal) (ws.version, seen) rfl
  | @published call plan seen hcal =>
    have hre := h.read _ (mem_of_getElem? hcal) (plan.watchSnapshotVersion, seen) rfl
    refine ⟨hre.issued, forall_mem_set ?_ fun carried hca => by cases hca⟩
    intro other hot carried hca
    have hold := h.read other hot carried hca
    refine ⟨hold.seen_le.trans (Nat.le_succ _), fun hse => ?_, hold.issued⟩
    -- whatever was read before has seen an older plan
    exact absurd hold.seen_le (by rw [hse]; exact Nat.not_succ_le_self _)
  | installed call hcal =>
    refine h.congr rfl (.inl rfl) (forall_mem_set h.read ?_)
    exact fun carried hca => by cases hca
  | loaded now => exact h.congr rfl (.inl rfl) h.read
  | @ran call cur now hcal =>
    have hran := s.coordinator.runDueLocked_ran cur now
    exact h.congr hran.plan_eq (.inl hran.watchManager_eq) h.read

/-- A call stores its plan only if no other plan was stored since its snapshot was read. -/
def Unsuperseded (s : PlanSystem L) : PlanStep L → Prop
  | .publish call => ∀ plan seen, s.applies[call]? = some (.compiled plan seen) →
      seen = s.runtime.plan.version
  | _ => True

theorem SnapshotOrder.forward (h : s.SnapshotOrder) {a : PlanStep L} (hun : s.Unsuperseded a) :
    s.runtime.plan.watchSnapshotVersion ≤ (s.step a).runtime.plan.watchSnapshotVersion := by
  have hef := s.step_effect a
  generalize s.step a = next at hef ⊢
  cases hef with
  | managed runtime hint => exact (congrArg _ hint.table.plan_eq).ge
  | @published call plan seen hca =>
    have hre := h.read _ (mem_of_getElem? hca) (plan.watchSnapshotVersion, seen) rfl
    exact hre.current (hun plan seen hca)
  | @ran call cur now hca =>
    exact (congrArg _ (s.coordinator.runDueLocked_ran cur now).plan_eq).ge
  | _ => exact le_rfl

/-- The published plan never goes back to an older watch snapshot, if every call publishes
before any other plan was published since it read its snapshot. -/
theorem run_snapshotVersion {limits : CollectionLimits} {valid : limits.validate.ok = true}
    {watchManager : Option WatchManager} {processors : List (Option MetricProcessor)}
    {executor : ProcessorExecutor} {steps : List (PlanStep L)}
    (h : Along step Unsuperseded (start limits valid watchManager processors executor) steps) :
    Along step (fun s a => s.runtime.plan.watchSnapshotVersion ≤
        (s.step a).runtime.plan.watchSnapshotVersion)
      (start limits valid watchManager processors executor) steps :=
  law_along (I := SnapshotOrder) (fun _ a hs _ => hs.step a)
    (fun _ _ hs hcond => hs.forward hcond) ⟨fun _ _ => Nat.zero_le _, nofun⟩ h

instance (s : PlanSystem L) : ∀ a : PlanStep L, Decidable (s.Unsuperseded a)
  | .publish call =>
    match hcall : s.applies[call]? with
    | some (.compiled plan seen) =>
      decidable_of_iff (seen = s.runtime.plan.version) (by simp [Unsuperseded, hcall])
    | some (.holding _ _) | some (.published _) | some (.returned _ _) | none =>
      isTrue (by simp [Unsuperseded, hcall])
  | .watch _ | .call _ | .readSnapshot | .compile _ _ | .install _ | .loadPlan _ | .runLocked _
  | .coordinator _ => isTrue trivial

end PlanSystem

namespace SharedDevice

open PlanSystem

/-- One client watches metric 7. -/
def starting : PlanSystem storeLimits :=
  start {} CollectionLimits.validate_default (some (clients 1)) []
    { valid := ProcessorExecutorLimits.validate_default }

def activation (generation : ℕ) : PlanStep storeLimits :=
  .call (.activateCatalog (some (view generation)) target)

/-- The catalog is active. -/
def serving : PlanSystem storeLimits := starting.step (activation 1)

def joinsLate : PlanStep storeLimits := .watch (.create (client 2) (requirement [8] 20 0))

/-- A call that compiles, publishes and installs at the given time. -/
def applyAt (call : ℕ) (now : ℤ) : List (PlanStep storeLimits) :=
  [.compile call now, .publish call, .install call]

/-- Each snapshot is applied before the next one is read. -/
theorem applied_in_order :
    Along step (fun s a => s.runtime.plan.watchSnapshotVersion ≤
        (s.step a).runtime.plan.watchSnapshotVersion)
      serving (.readSnapshot :: applyAt 0 0 ++ joinsLate :: .readSnapshot :: applyAt 1 5) ∧
    (runFrom step serving (.readSnapshot :: applyAt 0 0)).runtime.plan.watchSnapshotVersion = 2 ∧
    (runFrom step serving (.readSnapshot :: applyAt 0 0 ++ joinsLate :: .readSnapshot ::
      applyAt 1 5)).runtime.plan.watchSnapshotVersion = 3 := by
  have hcond : Along step Unsuperseded starting (activation 1 ::
      (.readSnapshot :: applyAt 0 0 ++ joinsLate :: .readSnapshot :: applyAt 1 5)) := by
    decide +kernel
  exact ⟨(run_snapshotVersion hcond).2, by decide +kernel⟩

/-- Two callers read their snapshots one after the other; the one with the newer snapshot
publishes first. -/
theorem applied_out_of_order :
    ∃ before, runFrom step serving (.readSnapshot :: joinsLate :: .readSnapshot :: applyAt 1 0) =
        before ∧
      before.runtime.plan.catalogGeneration = 1 ∧ before.runtime.plan.watchSnapshotVersion = 3 ∧
      (runFrom step before (applyAt 0 5)).runtime.plan.catalogGeneration = 1 ∧
      (runFrom step before (applyAt 0 5)).runtime.plan.watchSnapshotVersion = 2 :=
  ⟨_, rfl, by decide +kernel⟩

end SharedDevice

namespace PlanSystem

variable {L : Limits} {s : PlanSystem L}

/-! ### Replaced plans -/

theorem step_planVersion (s : PlanSystem L) (a : PlanStep L) :
    s.runtime.plan.version ≤ (s.step a).runtime.plan.version := by
  have hef := s.step_effect a
  generalize s.step a = next at hef ⊢
  cases hef with
  | managed runtime hint => exact (congrArg _ hint.table.plan_eq).ge
  | published => exact Nat.le_succ _
  | @ran call cur now hca =>
    exact (congrArg _ (s.coordinator.runDueLocked_ran cur now).plan_eq).ge
  | _ => exact le_rfl

/-- No call has published more than there is. -/
def StoredLe (s : PlanSystem L) : Prop := ∀ call ∈ s.applies, call.stored ≤ s.runtime.plan.version

theorem StoredLe.step (h : s.StoredLe) (a : PlanStep L) : (s.step a).StoredLe := by
  have hver := s.step_planVersion a
  have hef := s.step_effect a
  generalize s.step a = next at hef hver ⊢
  have hold : ∀ call ∈ s.applies, call.stored ≤ next.runtime.plan.version :=
    fun call hca => (h call hca).trans hver
  cases hef with
  | read m hm =>
    intro call hca
    rcases mem_append.mp hca with hca | hca
    · exact hold call hca
    · obtain rfl := mem_singleton.mp hca
      exact Nat.zero_le _
  | refused call st => exact forall_mem_set hold (Nat.zero_le _)
  | compiled call now hca hpl => exact forall_mem_set hold (Nat.zero_le _)
  | published call hca => exact forall_mem_set hold le_rfl
  | @installed call plan hca =>
    exact forall_mem_set hold (hold (.published plan) (mem_of_getElem? hca))
  | _ => exact hold

/-- The `runDue` calls from number `first` on have loaded a plan of this version or a newer
one. -/
structure LoadedFrom (first version : ℕ) (s : PlanSystem L) : Prop where
  plan : version ≤ s.runtime.plan.version
  started : first ≤ s.dues.length
  loaded : ∀ call current now, first ≤ call → s.dues[call]? = some (.loaded current now) →
    version ≤ current.version

theorem LoadedFrom.step {first ver : ℕ} (h : LoadedFrom first ver s) (a : PlanStep L) :
    LoadedFrom first ver (s.step a) := by
  have hver := h.plan.trans (s.step_planVersion a)
  have hef := s.step_effect a
  generalize s.step a = next at hef hver ⊢
  cases hef with
  | loaded now =>
    refine ⟨hver, h.started.trans (by simp), ?_⟩
    intro call cur time hfi hca
    rw [getElem?_append] at hca
    split_ifs at hca with hold
    · exact h.loaded call cur time hfi hca
    · have hnew := mem_singleton.mp (mem_of_getElem? hca)
      rw [(DueCall.loaded.inj hnew).1]
      exact h.plan
  | @ran number cur now hca =>
    refine ⟨hver, h.started.trans (by simp), ?_⟩
    intro call cur' time hfi hca'
    rw [getElem?_set] at hca'
    split_ifs at hca' with hsa hin
    · cases hca'
    · exact h.loaded call cur' time hfi hca'
  | _ => exact ⟨hver, h.started, h.loaded⟩

/-- After a call that published a plan has returned, a `runDue` call that loads its plan then
enqueues no task of an older plan and does not go back to one. -/
theorem run_notReplaced {limits : CollectionLimits} {valid : limits.validate.ok = true}
    {watchManager : Option WatchManager} {processors : List (Option MetricProcessor)}
    {executor : ProcessorExecutor} {before later : List (PlanStep L)} {s s' : PlanSystem L}
    (hs : runFrom step (start limits valid watchManager processors executor) before = s)
    (hs' : runFrom step s later = s') {status : Status} {version : ℕ}
    (hreturned : .returned status version ∈ s.applies) {call : ℕ} {current : CollectionPlan}
    {now : ℤ} (hcall : s'.dues[call]? = some (.loaded current now))
    (hloaded : s.dues.length ≤ call) {d : Coordinator.DueRun L}
    (hd : s'.coordinator.runDueLocked current now = d) :
    (∀ t, t ∈ d.coordinator.queue ∨ t ∈ d.evicted →
      t ∈ s'.runtime.queue ∨ version ≤ t.request.planGeneration) ∧
    (d.coordinator.scheduledPlanVersion = s'.runtime.scheduledPlanVersion ∨
      version ≤ d.coordinator.scheduledPlanVersion) := by
  have hstored : s.StoredLe := by
    rw [← hs]
    apply invariant_run (fun _ a h => h.step a)
    exact fun call hcall => by cases hcall
  have hfrom : LoadedFrom s.dues.length version s :=
    ⟨hstored _ hreturned, le_rfl, fun call current now hfirst hcall => by
      rw [getElem?_eq_none hfirst] at hcall
      cases hcall⟩
  have hcurrent : version ≤ current.version := by
    have hrun := invariant_run (fun _ a h => h.step a) hfrom later
    rw [hs'] at hrun
    exact hrun.loaded call current now hloaded hcall
  have hran := s'.coordinator.runDueLocked_ran current now
  rw [hd] at hran
  constructor
  · intro t ht
    refine (hran.tasks t ht).imp_right ?_
    rintro ⟨job, -, scheduled, requestId, rfl⟩
    exact hcurrent
  · refine hran.version.imp_right fun heq => ?_
    rw [heq]
    exact hcurrent

end PlanSystem

namespace SharedDevice

open PlanSystem

/-- The first plan is published, and then one with the second client's watch. -/
def firstPlan : List (PlanStep storeLimits) := .readSnapshot :: applyAt 0 0

def secondPlan : List (PlanStep storeLimits) := joinsLate :: .readSnapshot :: applyAt 1 5

/-- A call that loads its plan after the second plan was published. -/
theorem loaded_after_publication :
    ∃ s s' current, runFrom step serving (firstPlan ++ secondPlan) = s ∧
      runFrom step s [.loadPlan 30] = s' ∧ .returned .success 2 ∈ s.applies ∧
      s'.dues[0]? = some (.loaded current 30) ∧
      (s'.coordinator.runDueLocked current 30).summary.enqueuedJobs = 2 ∧
      ∀ t, t ∈ (s'.coordinator.runDueLocked current 30).coordinator.queue ∨
          t ∈ (s'.coordinator.runDueLocked current 30).evicted →
        t ∈ s'.runtime.queue ∨ 2 ≤ t.request.planGeneration := by
  have hs : runFrom step starting (activation 1 :: (firstPlan ++ secondPlan)) =
      runFrom step serving (firstPlan ++ secondPlan) := rfl
  have hreturned : .returned .success 2 ∈
      (runFrom step serving (firstPlan ++ secondPlan)).applies := by
    decide +kernel
  have hdues : (runFrom step serving (firstPlan ++ secondPlan)).dues = [] := by decide +kernel
  have henqueued : (((runFrom step serving (firstPlan ++ secondPlan)).step
      (.loadPlan 30)).coordinator.runDueLocked
        (runFrom step serving (firstPlan ++ secondPlan)).runtime.plan 30).summary.enqueuedJobs =
      2 := by
    decide +kernel
  generalize runFrom step serving (firstPlan ++ secondPlan) = s at *
  have hcall : (s.step (.loadPlan 30)).dues[0]? = some (.loaded s.runtime.plan 30) := by
    simp [step, hdues]
  exact ⟨s, _, _, rfl, rfl, hreturned, hcall, henqueued,
    (run_notReplaced hs rfl hreturned hcall (by simp [hdues]) rfl).1⟩

/-- The call has loaded the first plan when the second one is published and its call returns:
it makes the first plan the scheduled one again and enqueues its task. -/
theorem loaded_before_publication :
    ∃ s, runFrom step serving (firstPlan ++ .loadPlan 30 :: secondPlan) = s ∧
      .returned .success 2 ∈ s.applies ∧ s.runtime.scheduledPlanVersion = 2 ∧
      (s.step (.runLocked 0)).runtime.scheduledPlanVersion = 1 ∧
      (s.step (.runLocked 0)).runtime.queue.map (fun t => t.request.planGeneration) = [1] := by
  exact ⟨_, rfl, by decide +kernel⟩

end SharedDevice

/-! ### Old generations -/

/-- A route that is taken over belongs to the active catalog of the data manager. -/
theorem Coordinator.activateCatalog_generation {L : Limits} {c : Coordinator L}
    {view : CatalogView} (h : (c.activateCatalog (some view)).2.code = .success ∨
      (c.activateCatalog (some view)).2.code = .unsupported) :
    view.generation = c.data.catalogGeneration := by
  by_contra hstale
  have hre : (c.activateCatalog (some view)).2.code = .staleGeneration := by
    simp only [activateCatalog, if_pos (Or.inr hstale)]
  rw [hre] at h
  rcases h with h | h <;> cases h

namespace PlanSystem

variable {L : Limits}

/-- No plan of an older catalog generation is published, compiled or loaded. -/
structure PlansSince (generation : ℕ) (s : PlanSystem L) : Prop where
  plan : generation ≤ s.runtime.plan.catalogGeneration
  compiled : ∀ plan seen, .compiled plan seen ∈ s.applies → generation ≤ plan.catalogGeneration
  loaded : ∀ current now, .loaded current now ∈ s.dues → generation ≤ current.catalogGeneration

theorem step_generation (s : PlanSystem L) (a : PlanStep L) :
    s.plane.data.catalogGeneration ≤ (s.step a).plane.data.catalogGeneration := by
  have hef := s.step_effect a
  generalize s.step a = next at hef ⊢
  cases hef with
  | called c => exact (DataPlane.exec_data c s.plane).forward.1
  | _ => exact le_rfl

theorem PlansSince.step {gen : ℕ} {s : PlanSystem L} (h : PlansSince gen s)
    (hda : gen ≤ s.plane.data.catalogGeneration) (a : PlanStep L) :
    PlansSince gen (s.step a) := by
  have hef := s.step_effect a
  generalize s.step a = next at hef ⊢
  have hke {i : ℕ} {replaced : ApplyCall}
      (hre : ∀ plan seen, replaced = .compiled plan seen →
        gen ≤ plan.catalogGeneration) :
      ∀ plan seen, .compiled plan seen ∈ s.applies.set i replaced →
        gen ≤ plan.catalogGeneration := by
    intro plan seen hmem
    rcases mem_or_eq_of_mem_set hmem with hold | rfl
    · exact h.compiled plan seen hold
    · exact hre plan seen rfl
  cases hef with
  | unchanged => exact h
  | managed runtime hint =>
    refine ⟨?_, h.compiled, h.loaded⟩
    rw [hint.table.plan_eq]
    exact h.plan
  | called c => exact ⟨h.plan, h.compiled, h.loaded⟩
  | read m hm =>
    refine ⟨h.plan, fun plan seen hmem => ?_, h.loaded⟩
    rcases mem_append.mp hmem with hold | hnew
    · exact h.compiled plan seen hold
    · cases mem_singleton.mp hnew
  | refused call st => exact ⟨h.plan, hke (fun _ _ => nofun), h.loaded⟩
  | @compiled call now ws seen plan hca hpl =>
    refine ⟨h.plan, hke ?_, h.loaded⟩
    rintro _ _ ⟨⟩
    rw [(compilePlan_source hpl).2]
    exact hda
  | @published call plan seen hca =>
    exact ⟨h.compiled plan seen (mem_of_getElem? hca), hke (fun _ _ => nofun), h.loaded⟩
  | installed call hca => exact ⟨h.plan, hke (fun _ _ => nofun), h.loaded⟩
  | loaded now =>
    refine ⟨h.plan, h.compiled, fun cur time hmem => ?_⟩
    rcases mem_append.mp hmem with hold | hnew
    · exact h.loaded cur time hold
    · rw [(DueCall.loaded.inj (mem_singleton.mp hnew)).1]
      exact h.plan
  | @ran call cur now hca =>
    refine ⟨?_, h.compiled, fun other time hmem => ?_⟩
    · have hpl := (s.coordinator.runDueLocked_ran cur now).plan_eq
      exact hpl ▸ h.plan
    · rcases mem_or_eq_of_mem_set hmem with hold | hnew
      · exact h.loaded other time hold
      · cases hnew

/-- Once the coordinator has taken over a catalog, in whatever state `s₀`, and no plan of an
older generation is left, no `runDue` call enqueues a request of an older generation. -/
theorem run_generation {between later : List (PlanStep L)} {view : CatalogView}
    {s₀ s s' : PlanSystem L}
    (hactivated : (s₀.coordinator.activateCatalog (some view)).2.code = .success ∨
      (s₀.coordinator.activateCatalog (some view)).2.code = .unsupported)
    (hs : runFrom step s₀ (.coordinator (.activateCatalog (some view)) :: between) = s)
    (hplans : PlansSince view.generation s) (hs' : runFrom step s later = s')
    {call : ℕ} {current : CollectionPlan} {now : ℤ}
    (hcall : s'.dues[call]? = some (.loaded current now)) {d : Coordinator.DueRun L}
    (hd : s'.coordinator.runDueLocked current now = d) :
    ∀ t, t ∈ d.coordinator.queue ∨ t ∈ d.evicted →
      t ∈ s'.runtime.queue ∨ view.generation ≤ t.request.catalogGeneration := by
  have hdata : view.generation ≤ s.plane.data.catalogGeneration := by
    have hview : view.generation = s₀.plane.data.catalogGeneration :=
      Coordinator.activateCatalog_generation hactivated
    have hforward := relation_run
      (R := fun a b : PlanSystem L =>
      a.plane.data.catalogGeneration ≤ b.plane.data.catalogGeneration)
      (fun _ => le_rfl) (fun _ _ _ => le_trans) step_generation s₀
      (.coordinator (.activateCatalog (some view)) :: between)
    rw [hs, ← hview] at hforward
    exact hforward
  have hrun : PlansSince view.generation s' := by
    have hboth := invariant_run
      (I := fun s : PlanSystem L => PlansSince view.generation s ∧
        view.generation ≤ s.plane.data.catalogGeneration)
      (fun s (a : PlanStep L) h => ⟨h.1.step h.2 a, h.2.trans (s.step_generation a)⟩)
      ⟨hplans, hdata⟩ later
    rw [hs'] at hboth
    exact hboth.1
  have hcurrent := hrun.loaded current now (mem_of_getElem? hcall)
  have hran := s'.coordinator.runDueLocked_ran current now
  rw [hd] at hran
  intro t ht
  refine (hran.tasks t ht).imp_right ?_
  rintro ⟨job, -, scheduled, requestId, rfl⟩
  exact hcurrent

end PlanSystem

namespace SharedDevice

open PlanSystem

/-- The catalog of generation 2 becomes active while the first plan is published. -/
def switching : PlanSystem storeLimits := runFrom step serving (firstPlan ++ [activation 2])

def routing : PlanStep storeLimits := .coordinator (.activateCatalog (some (view 2)))

/-- The clients watch again and their watches are applied. -/
def rejoining : List (PlanStep storeLimits) :=
  [.watch (.activateCatalog (some (view 2)) target),
    .watch (.create (client 2) { requirement [8] 20 0 with catalogGeneration := 2 }),
    .readSnapshot] ++ applyAt 1 5

/-- A plan of the new generation has replaced the first one. -/
theorem scheduled_after_replacement :
    ∃ s s' current, (switching.coordinator.activateCatalog (some (view 2))).2.code = .success ∧
      runFrom step switching (routing :: rejoining) = s ∧ PlansSince (view 2).generation s ∧
      runFrom step s [.loadPlan 30] = s' ∧ s'.dues[0]? = some (.loaded current 30) ∧
      (s'.coordinator.runDueLocked current 30).summary.enqueuedJobs = 1 ∧
      ∀ t, t ∈ (s'.coordinator.runDueLocked current 30).coordinator.queue ∨
          t ∈ (s'.coordinator.runDueLocked current 30).evicted →
        t ∈ s'.runtime.queue ∨ 2 ≤ t.request.catalogGeneration := by
  have hactivated : (switching.coordinator.activateCatalog (some (view 2))).2.code = .success := by
    decide +kernel
  have happlies : (runFrom step switching (routing :: rejoining)).applies =
      [.returned .success 1, .returned .success 2] := by
    decide +kernel
  have hdues : (runFrom step switching (routing :: rejoining)).dues = [] := by decide +kernel
  have hplan : (runFrom step switching (routing :: rejoining)).runtime.plan.catalogGeneration =
      2 := by
    decide +kernel
  have henqueued : (((runFrom step switching (routing :: rejoining)).step
      (.loadPlan 30)).coordinator.runDueLocked
        (runFrom step switching (routing :: rejoining)).runtime.plan 30).summary.enqueuedJobs =
      1 := by
    decide +kernel
  generalize hstate : runFrom step switching (routing :: rejoining) = s at *
  have hplans : PlansSince (view 2).generation s :=
    ⟨hplan.ge, by simp [happlies], by simp [hdues]⟩
  have hcall : (s.step (.loadPlan 30)).dues[0]? = some (.loaded s.runtime.plan 30) := by
    simp [step, hdues]
  exact ⟨s, _, _, hactivated, rfl, hplans, rfl, hcall, henqueued,
    run_generation (.inl hactivated) hstate hplans rfl hcall rfl⟩

/-- No snapshot of the new generation has been applied when the next `runDue` comes: it still
enqueues a request of generation 1. -/
theorem scheduled_before_replacement :
    ∃ s, runFrom step switching [routing] = s ∧
      (switching.coordinator.activateCatalog (some (view 2))).2.code = .success ∧
      s.runtime.routeGeneration = 2 ∧ s.runtime.queue = [] ∧
      (runFrom step s [.loadPlan 30, .runLocked 0]).runtime.queue.map
        (fun t => t.request.catalogGeneration) = [1] :=
  ⟨_, rfl, by decide +kernel⟩

end SharedDevice
end Pdcm
