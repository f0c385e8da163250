import Pdcm.Collection.PlanPartition
import Pdcm.Collection.SampleAccount

/-!
# Sample accounting of an installed plan

While a plan stays installed, each due time of a job is to be counted once for the watches
of the job: by the worker that ran it, or by the `runDue` call that missed it or found no
room for it. The samples are recorded by two threads and told apart only by the time last
counted. The account of a watch holds as long as the results of the job are recorded in the
order of their due times and none of its tasks is evicted; without that a due time can be
lost.
-/

namespace Pdcm

open Library CollectionPlan

variable {L : Limits} {plan : CollectionPlan} {steps : List (CoordinatorStep L)}

/-! ### Runs -/

/-- The times of the model are unbounded, those of `runDue` callers are not. -/
def CoordinatorStep.InRange {L : Limits} : CoordinatorStep L → Prop
  | .runDue now => now ≤ int64Max
  | _ => True

instance {L : Limits} : ∀ a : CoordinatorStep L, Decidable a.InRange
  | .runDue now => inferInstanceAs (Decidable (now ≤ int64Max))
  | .note _ | .freshRead .. | .freshReturn | .workerTake | .workerNote | .workerRelease
  | .workerComplete _ | .applyWatchSnapshot .. | .activateCatalog _ | .dataChanged _ =>
    inferInstanceAs (Decidable True)

/-- A step that leaves the plan installed, evicts no task that counts for the watch, and
records a result for the watch only if no earlier due time is owed and the versions of
watch snapshots are not used up. -/
def InDueOrder {L : Limits} (w : WatchId) (c : Coordinator L) (a : CoordinatorStep L) : Prop :=
  a.InRange ∧ (c.step a).plan = c.plan ∧
  (∀ t ∈ c.evictedBy a, w ∉ t.job.watchIds) ∧
  ∀ r ∈ c.recordedBy a, w ∈ r.job.watchIds →
    (∀ r' ∈ c.owed, w ∈ r'.job.watchIds → r.firstScheduledTime ≤ r'.firstScheduledTime) ∧
      ∀ m ∈ c.watchManager, m.snapshot.version ≠ uint64Max

instance {L : Limits} (w : WatchId) (c : Coordinator L) (a : CoordinatorStep L) :
    Decidable (InDueOrder w c a) :=
  inferInstanceAs (Decidable (_ ∧ _ ∧ _ ∧ _))

/-- The number of due times seen after a step; a negative time is refused. -/
def dueAfter {L : Limits} (plan : CollectionPlan) (job : CollectionJob) (n : ℕ) :
    CoordinatorStep L → ℕ
  | .runDue now => if now < 0 then n else max n (plan.dueIndex job now)
  | _ => n

/-- The number of due times of the job up to the largest time `runDue` was called with. -/
def dueCount {L : Limits} (plan : CollectionPlan) (job : CollectionJob)
    (steps : List (CoordinatorStep L)) : ℕ :=
  steps.foldl (dueAfter plan job) 0

theorem dueAfter_of_ne {job : CollectionJob} {n : ℕ} {a : CoordinatorStep L}
    (h : ∀ now, a ≠ .runDue now) : dueAfter plan job n a = n := by
  cases a with
  | runDue now => exact absurd rfl (h now)
  | _ => rfl

namespace SampleAccount

open Coordinator

variable {job : CollectionJob} {w : WatchId} {start n : ℕ}
  {c : Coordinator L} {c' : Coordinator L} {r : LogicalResult}
  (hli : ListedOnly plan job w) (h : SampleAccount plan job w start c c.owed n)

include hli h

theorem record (hpe : c.owed.Perm (r :: c'.owed)) (hsa : SameSchedule (c.noteLogicalResults r).1 c')
    (hor : w ∈ r.job.watchIds →
      (∀ r' ∈ c.owed, w ∈ r'.job.watchIds → r.firstScheduledTime ≤ r'.firstScheduledTime) ∧
        ∀ m ∈ c.watchManager, m.snapshot.version ≠ uint64Max) :
    SampleAccount plan job w start c' c'.owed n := by
  by_cases hw : w ∈ r.job.watchIds
  · obtain ⟨hfi, hver⟩ := hor hw
    exact (h.record_self hli hpe hw hfi hver).congr hsa (.refl _)
  · exact (h.record_other hpe hw).congr hsa (.refl _)

theorem drop (hid : r.job.id = 0) (hpe : c.owed.Perm (r :: c'.owed)) (hsa : SameSchedule c c') :
    SampleAccount plan job w start c' c'.owed n := by
  have hw : w ∉ r.job.watchIds := by
    intro hw
    have hjob := (h.owed_job r (mem_owedFor.mpr ⟨hpe.mem_iff.mpr List.mem_cons_self, hw⟩)).1
    have hpos := hli.wellFormed.ids_pos job hli.job_mem
    rw [← hjob] at hpos
    exact hpos.ne' hid
  refine h.congr hsa ?_
  rw [← owedFor_cons_of_notMem hw]
  exact (owedFor_congr w hpe).symm

theorem step {a : CoordinatorStep L} (hor : InDueOrder w c a) :
    SampleAccount plan job w start (c.step a) (c.step a).owed (dueAfter plan job n a) := by
  obtain ⟨hra, hpl, hev, hre⟩ := hor
  have hout := c.step_outcome a
  generalize hc' : c.step a = c' at hout hpl ⊢
  cases hout with
  | ranDue now =>
    rw [dueAfter]
    split_ifs with hnow
    · obtain ⟨summary, href⟩ := runDueLocked_refused c.plan (.inl hnow)
      rw [href]
      exact h.congr ⟨rfl, rfl, rfl, rfl, rfl⟩ (by simp)
    · exact h.runDue hli (not_lt.mp hnow) hra hev
  | installed next hco =>
    -- a new plan has another version
    have hver := congrArg version hpl
    simp [installPlan] at hver
  | recorded hst r hrec hsa hpe =>
    rw [dueAfter_of_ne hst]
    exact h.record hli hpe hsa (hre r hrec)
  | dropped hst r hid hsa hpe =>
    rw [dueAfter_of_ne hst]
    exact h.drop hli hid hpe hsa
  | quiet hst hsa fresh hfr hpe =>
    rw [dueAfter_of_ne hst]
    exact h.congr hsa (owedFor_perm_of_fresh hfr hpe hev)

theorem run {steps : List (CoordinatorStep L)}
    (hor : Along Coordinator.step (InDueOrder w) c steps) :
    let c' := runFrom Coordinator.step c steps
    SampleAccount plan job w start c' c'.owed (steps.foldl (dueAfter plan job) n) := by
  induction steps generalizing c n with
  | nil => exact h
  | cons a rest ih => exact ih (h.step hli hor.1) hor.2

end SampleAccount

/-! ### Installed plans -/

namespace Coordinator

variable {before : Coordinator L} {now : ℤ} {watches : WatchSnapshot}

def sampleCount (c : Coordinator L) (w : WatchId) : ℕ :=
  c.watchManager.elim 0 fun m => m.sampleCount w

/-- A coordinator that has just compiled a snapshot. -/
structure Installed (before c : Coordinator L) (now : ℤ) : Prop where
  wellFormed : c.plan.WellFormed
  createdAt : c.plan.createdAt = now
  version_eq : c.scheduledPlanVersion = c.plan.version
  nextDue_eq : c.nextDue = firstDueTimes c.plan
  watchManager_eq : c.watchManager = before.watchManager

theorem applyWatchSnapshot_installed (h : (before.applyWatchSnapshot watches now).2.ok = true) :
    Installed before (before.applyWatchSnapshot watches now).1 now := by
  obtain ⟨-, hfa⟩ | ⟨plan, hco, heq⟩ := before.applyWatchSnapshot_cases watches now
  · simp [hfa] at h
  · obtain ⟨hwf, hcr⟩ := compilePlan_wellFormed hco
    rw [heq]
    exact ⟨⟨hwf.ids_nodup, hwf.ids_pos, hwf.period_pos⟩, hcr, rfl, rfl, rfl⟩

theorem Installed.firstDue {c : Coordinator L} (h : Installed before c now) {job : CollectionJob}
    (hjob : job ∈ c.plan.jobs) : c.nextDue.find? job.id = some (c.plan.dueTime job 1) := by
  have hfi := OrderedMap.find?_foldl_emplace (fun job => c.plan.createdAt + job.period)
    h.wellFormed.ids_nodup hjob (OrderedMap.find?_empty _)
  simpa [h.nextDue_eq, firstDueTimes, dueTime] using hfi

/-- The watch is live, has no limit and is listed on that job only; nothing that counts
for it is left from before the plan was created, and the watch manager is within its
limits. -/
structure Watched (c : Coordinator L) (job : CollectionJob) (w : WatchId) (m : WatchManager) :
    Prop where
  manager : c.watchManager = some m
  live : ∃ watch ∈ m.logical.find? w, watch.requirement.sampleLimit = 0
  count_le : m.sampleCount w ≤ uint64Max
  last : ∀ t ∈ m.lastSampleTimes.find? w, t ≤ c.plan.createdAt
  within : m.WithinLimits
  created_nonneg : 0 ≤ c.plan.createdAt
  job_mem : job ∈ c.plan.jobs
  listed : w ∈ job.watchIds
  only : ∀ other ∈ c.plan.jobs, w ∈ other.watchIds → other = job
  settled : ∀ r ∈ c.owed, w ∉ r.job.watchIds
  running : c.shutdown = false

theorem Watched.account {job : CollectionJob} {w : WatchId} {m : WatchManager}
    (hin : (before.applyWatchSnapshot watches now).2.ok = true)
    (h : Watched (before.applyWatchSnapshot watches now).1 job w m) :
    let c := (before.applyWatchSnapshot watches now).1
    ListedOnly c.plan job w ∧
      SampleAccount c.plan job w (m.sampleCount w) c c.owed 0 := by
  have hpl := applyWatchSnapshot_installed hin
  generalize (before.applyWatchSnapshot watches now).1 = c at h hpl ⊢
  have hno : owedFor w c.owed = [] := owedFor_eq_nil h.settled
  refine ⟨⟨hpl.wellFormed, h.created_nonneg, h.job_mem, h.listed, h.only⟩, rfl, hpl.version_eq,
    h.running, hpl.firstDue h.job_mem, by simp, by simp [hno], m, 0, 0, h.manager,
    ⟨h.live, ?_, ?_, h.within⟩, ?_⟩
  · intro t ht
    simpa [dueTime] using h.last t ht
  · simp [h.count_le]
  · simpa [hno] using .empty

/-- Every due time is counted exactly once, in every run from the installation of the plan
whose steps keep to the order of the due times, whenever nothing that counts for the watch
is queued, in flight or waiting to be recorded. -/
theorem run_sampleCount {before : Coordinator L} {watches : WatchSnapshot} {now : ℤ}
    {job : CollectionJob} {w : WatchId} {m : WatchManager} {steps : List (CoordinatorStep L)}
    (hinstalled : (before.applyWatchSnapshot watches now).2.ok = true)
    (hwatched : Watched (before.applyWatchSnapshot watches now).1 job w m)
    (horder : Along step (InDueOrder w) (before.applyWatchSnapshot watches now).1 steps)
    (hsettled : ∀ r ∈ (runFrom step (before.applyWatchSnapshot watches now).1 steps).owed,
      w ∉ r.job.watchIds) :
    (runFrom step (before.applyWatchSnapshot watches now).1 steps).sampleCount w =
      min uint64Max (m.sampleCount w +
        dueCount (before.applyWatchSnapshot watches now).1.plan job steps) := by
  obtain ⟨hlisted, haccount⟩ := hwatched.account hinstalled
  obtain ⟨m', mark, settled, hm, hcounted, hledger⟩ := (haccount.run hlisted horder).counted
  rw [owedFor_eq_nil hsettled] at hledger
  rw [sampleCount, hm, Option.elim_some, hcounted.count_eq, hledger.settled_eq, dueCount]

end Coordinator

/-! ### One device with one watch -/

namespace OneWatch

open Coordinator SharedDevice

def watchManager : WatchManager :=
  runFrom WatchManager.apply (.initial {} WatchLimits.validate_default)
    [.activateCatalog (some (view 1)) target, .create (client 1) (requirement [7] 10 0)]

/-- The plan of the watch is created at time 0. -/
def applied : Coordinator storeLimits × Status :=
  (coordinator watchManager).applyWatchSnapshot watchManager.snapshot 0

def job : CollectionJob :=
  { id := 1, providerId := "provider", period := 10, priority := .normal
    items := [{ key := { providerId := "provider", entity := device, dataId := 7 }, period := 10
                freshness := 10, priority := .normal, logicalWatches := [1] }] }

/-- The worker is done before the next due time; the third `runDue` call comes late. -/
def prompt : List (CoordinatorStep storeLimits) :=
  [.runDue 10, .workerTake, .workerNote, .workerRelease, .workerComplete .success,
    .runDue 35, .note 1, .workerTake, .workerNote, .workerRelease, .workerComplete .success]

/-- The worker is still reading at the next due time. -/
def slow : List (CoordinatorStep storeLimits) :=
  [.runDue 10, .workerTake, .runDue 20, .note 1, .workerNote, .workerRelease,
    .workerComplete .success]

theorem applied_success : applied.2.ok = true := by decide +kernel

theorem watched : Watched applied.1 job 1 watchManager where
  manager := rfl
  live := by decide +kernel
  count_le := by decide +kernel
  last := by decide +kernel
  within := ⟨by decide +kernel, by decide +kernel⟩
  created_nonneg := by decide +kernel
  job_mem := by decide +kernel
  listed := by decide +kernel
  only := by decide +kernel
  settled := by decide +kernel
  running := by decide +kernel

theorem prompt_sampleCount :
    dueCount applied.1.plan job prompt = 3 ∧ (runFrom step applied.1 prompt).sampleCount 1 = 3 := by
  have hdue : dueCount applied.1.plan job prompt = 3 := by decide +kernel
  have hcount : watchManager.sampleCount 1 = 0 := by decide +kernel
  refine ⟨hdue, ?_⟩
  rw [applied, run_sampleCount applied_success watched (by decide +kernel) (by decide +kernel)]
  change min uint64Max (_ + dueCount applied.1.plan job prompt) = 3
  rw [hcount, hdue]
  rfl

/-- Due time 20 is recorded while the read for due time 10 is in flight, which is then not
counted any more: two due times, one sample. -/
theorem slow_sampleLost :
    applied.2.ok = true ∧ Watched applied.1 job 1 watchManager ∧
      (runFrom step applied.1 slow).plan = applied.1.plan ∧
      (runFrom step applied.1 slow).queue = [] ∧ (runFrom step applied.1 slow).worker = none ∧
      (runFrom step applied.1 slow).owed = [] ∧
      dueCount applied.1.plan job slow = 2 ∧ watchManager.sampleCount 1 = 0 ∧
      (runFrom step applied.1 slow).sampleCount 1 = 1 :=
  ⟨applied_success, watched, by decide +kernel, by decide +kernel, by decide +kernel,
    by decide +kernel, by decide +kernel, by decide +kernel, by decide +kernel⟩

end OneWatch
end Pdcm
