import Pdcm.Collection.DueGaps
import Pdcm.Collection.FreshCallers

/-!
# What makes a read busy

The busy keys of the coordinator are made of entities and data ids. They leave out the data
kind, so a read is refused as busy exactly if a task that is queued or in flight has an
item of the same entity and data id. That is the same read unless a heartbeat is published
under the id of a metric; catalogs may do so.
-/

namespace Pdcm

open Library List Coordinator

/-- The keys of the task are those of its read items. -/
def CollectionTask.Projected (t : CollectionTask) : Prop :=
  t.keys = t.request.items.map fun item => ⟨item.entity, item.dataId⟩

namespace QueueOffer

variable {L : Limits} {o : QueueOffer L}

/-- What the coordinator guarantees when it offers a task. -/
structure Regular (o : QueueOffer L) : Prop where
  running : o.coordinator.shutdown = false
  keys : o.coordinator.KeysHeld
  offered : o.task.Projected
  held : ∀ task ∈ o.coordinator.held, task.Projected

/-- A task that is queued or in flight has a read item of the offered one. -/
def SameRead (o : QueueOffer L) : Prop :=
  ∃ task ∈ o.coordinator.held, ∃ item ∈ task.request.items, item ∈ o.task.request.items

instance (o : QueueOffer L) : Decidable o.SameRead :=
  inferInstanceAs (Decidable (∃ _ ∈ _, _))

/-- Items of the offered task and of a held one that have the same entity and data id are
of the same kind, unless there is a read item in common anyway. -/
def Separated (o : QueueOffer L) : Prop :=
  (∃ task ∈ o.coordinator.held, ∃ a ∈ task.request.items, ∃ b ∈ o.task.request.items,
    a.entity = b.entity ∧ a.dataId = b.dataId ∧ a.kind ≠ b.kind) → o.SameRead

instance (o : QueueOffer L) : Decidable o.Separated :=
  inferInstanceAs (Decidable (_ → _))

theorem Regular.busy_iff (h : o.Regular) :
    o.result.result = .busy ↔ ∃ task ∈ o.coordinator.held, ∃ a ∈ task.request.items,
      ∃ b ∈ o.task.request.items, a.entity = b.entity ∧ a.dataId = b.dataId := by
  have hbusy : o.result.result = .busy ↔ ∃ key ∈ o.task.keys, key ∈ o.coordinator.busyKeys := by
    unfold result enqueueLocked
    rw [if_neg (by simp [h.running])]
    split_ifs with hbu hfu
    · simpa using hbu
    · cases o.coordinator.queue.getLast? with
      | none => simpa using hbu
      | some last =>
        dsimp only
        split_ifs
        · simpa using hbu
        · simpa using hbu
    · simpa using hbu
  rw [hbusy, h.offered]
  simp only [h.keys.owned.taken_iff, mem_map]
  constructor
  · rintro ⟨_, ⟨b, hb, rfl⟩, _, ⟨task, hta, rfl⟩, hkey⟩
    rw [mem_toFinset, h.held task hta, mem_map] at hkey
    obtain ⟨a, ha, hab⟩ := hkey
    rw [DataKey.mk.injEq] at hab
    exact ⟨task, hta, a, ha, b, hb, hab⟩
  · rintro ⟨task, hta, a, ha, b, hb, hen, hid⟩
    refine ⟨_, ⟨b, hb, rfl⟩, _, ⟨task, hta, rfl⟩, ?_⟩
    rw [mem_toFinset, h.held task hta, mem_map]
    exact ⟨a, ha, by rw [hen, hid]⟩

end QueueOffer

namespace Coordinator

variable {L : Limits} {c : Coordinator L} {d : DueRun L} {o : QueueOffer L}
  {cancelled entered : List CollectionTask} {finished : List (CollectionTask × Status)}
  {current : CollectionPlan} {now : ℤ}

theorem QueueInvariant.held_projected (h : c.QueueInvariant cancelled entered finished)
    (hpr : ∀ task ∈ entered, task.Projected) : ∀ task ∈ c.held, task.Projected :=
  fun task hta => hpr task (h.tasks.mem_entered (c.held_sublist_tasks.subset hta))

theorem jobOffer_regular (h : d.coordinator.QueueInvariant cancelled entered finished)
    (hpr : ∀ task ∈ entered, task.Projected) (hru : d.coordinator.shutdown = false)
    {job : CollectionJob} (ho : jobOffer current now d job = some o) : o.Regular := by
  obtain ⟨due, id, -, -, rfl⟩ := jobOffer_eq_some current ho
  have hsa : SameQueue d.coordinator
        (d.coordinator.moveDue job due now).allocateRequestId.1 ∧
      (d.coordinator.moveDue job due now).allocateRequestId.1.shutdown = false := by
    unfold allocateRequestId
    split_ifs
    · exact ⟨⟨rfl, rfl, rfl, rfl, rfl, rfl, le_rfl⟩, hru⟩
    · exact ⟨⟨rfl, rfl, rfl, rfl, rfl, rfl, Nat.le_succ _⟩, hru⟩
  have hinv := h.of_same hsa.1
  refine ⟨hsa.2, hinv.keys, ?_, hinv.held_projected hpr⟩
  simp [CollectionTask.Projected, dueTask, CollectionPlanItem.readItem]

theorem accepted_projected (h : o.task.Projected) : ∀ task ∈ o.accepted, task.Projected := by
  intro task hta
  unfold QueueOffer.accepted at hta
  split_ifs at hta
  · rwa [mem_singleton.mp hta]
  · cases hta

/-- Along the loop of `runDue` the tasks accepted so far join the held ones. -/
theorem dueOffers_regular (h : d.coordinator.QueueInvariant cancelled entered finished)
    (hpr : ∀ task ∈ entered, task.Projected) (hru : d.coordinator.shutdown = false)
    (jobs : List CollectionJob) : ∀ o ∈ dueOffers current now jobs d, o.Regular := by
  induction jobs generalizing d entered finished with
  | nil => simp [dueOffers]
  | cons job rest ih =>
    intro o ho
    rcases mem_append.mp ho with ho | ho
    · exact jobOffer_regular h hpr hru (Option.mem_toList.mp ho)
    · refine ih (h.runJob current now job) ?_
        ((runJob_samePlan current now d job).shutdown_eq.trans hru) o ho
      intro task hta
      rcases mem_append.mp hta with hta | hta
      · exact hpr task hta
      · obtain ⟨offer, hof, hta⟩ := mem_flatMap.mp hta
        have hreg := jobOffer_regular h hpr hru (Option.mem_toList.mp hof)
        exact accepted_projected hreg.offered task hta

theorem freshOffers_regular (h : c.QueueInvariant cancelled entered finished)
    (hpr : ∀ task ∈ entered, task.Projected) {req : List DataKey} {gen : ℕ}
    {dl sch : ℤ} :
    ∀ o ∈ c.freshOffers req gen dl now sch, o.Regular := by
  intro o ho
  have hru : c.shutdown = false := by
    by_contra hst
    rw [Bool.not_eq_false] at hst
    -- a stopped coordinator refuses the read and gives out no request id
    have hre : (c.freshReadLocked req gen dl now sch).coordinator = c := by
      unfold freshReadLocked
      dsimp only
      split_ifs <;> rfl
    simp [freshOffers, hre] at ho
  unfold freshOffers at ho
  dsimp only at ho
  split_ifs at ho with hnext
  · cases ho
  · obtain rfl := mem_singleton.mp ho
    have hinv : c.issue.QueueInvariant cancelled entered finished :=
      h.of_same ⟨rfl, rfl, rfl, rfl, rfl, rfl, Nat.le_succ _⟩
    refine ⟨hru, hinv.keys, ?_, hinv.held_projected hpr⟩
    rw [CollectionTask.Projected, freshTask, map_map]
    exact (map_id _).symm

end Coordinator

namespace FreshRuntime

variable {L : Limits} {t : FreshRuntime L}

theorem entered_projected (h : ∀ o ∈ t.offers, o.Regular) : ∀ task ∈ t.entered, task.Projected := by
  intro task hta
  obtain ⟨o, ho, hac⟩ := mem_flatMap.mp hta
  exact accepted_projected (h o ho).offered task hac

theorem step_regular (s : RuntimeStep L) (hinv : t.Invariant) (h : ∀ o ∈ t.offers, o.Regular) :
    ∀ o ∈ (t.step s).offers, o.Regular := by
  have hpr := entered_projected h
  cases s with
  | runDue current now =>
    refine forall_mem_append.mpr ⟨h, ?_⟩
    unfold runDueOffers
    split_ifs with hnow hst
    · simp
    · simp
    · have hsy : Coordinator.SameQueue t.coordinator (t.coordinator.synchronizePlan current) ∧
          (t.coordinator.synchronizePlan current).shutdown = false := by
        unfold synchronizePlan
        split_ifs <;> exact ⟨⟨rfl, rfl, rfl, rfl, rfl, rfl, le_rfl⟩, Bool.eq_false_iff.mpr hst⟩
      exact dueOffers_regular (hinv.of_same hsy.1) hpr hsy.2 current.jobs
  | freshRead keys gen dl now sch =>
    exact forall_mem_append.mpr ⟨h, freshOffers_regular hinv hpr⟩
  | leave i =>
    rw [step]
    split <;> exact h
  | finishCancelled =>
    rw [step]
    split <;> exact h
  | _ => exact h

/-- Whenever a due job or a fresh read is offered, busy means the same read exactly if its ids
do not mix the two kinds of data with those of the tasks that are queued or in flight. -/
theorem busy_iff_sameRead (limits : CollectionLimits) (valid : limits.validate.ok = true)
    (watchManager : Option WatchManager) (data : DataManager L) (steps : List (RuntimeStep L))
    (o : QueueOffer L) (ho : o ∈ (run limits valid watchManager data steps).offers) :
    (o.result.result = .busy ↔ o.SameRead) ↔ o.Separated := by
  have hrun : (run limits valid watchManager data steps).Invariant ∧
      ∀ o ∈ (run limits valid watchManager data steps).offers, o.Regular := by
    refine invariant_run (I := fun t : FreshRuntime L => t.Invariant ∧ ∀ o ∈ t.offers, o.Regular)
      (fun t s h => ⟨t.step_invariant s h.1, step_regular s h.1 h.2⟩)
      ⟨start_invariant limits valid watchManager data, ?_⟩ steps
    simp [start]
  rw [(hrun.2 o ho).busy_iff]
  constructor
  · rintro hiff ⟨task, htask, a, ha, b, hb, hentity, hid, -⟩
    exact hiff.mp ⟨task, htask, a, ha, b, hb, hentity, hid⟩
  · intro hseparated
    constructor
    · rintro ⟨task, htask, ⟨ent, kind, id⟩, ha, ⟨_, kind', _⟩, hb, rfl, rfl⟩
      by_cases hkind : kind = kind'
      · subst hkind
        exact ⟨task, htask, _, ha, hb⟩
      · exact hseparated ⟨task, htask, _, ha, _, hb, rfl, rfl, hkind⟩
    · rintro ⟨task, htask, item, ha, hb⟩
      exact ⟨task, htask, item, ha, item, hb, rfl, rfl⟩

end FreshRuntime

namespace SharedDevice

open FreshRuntime

/-- The heartbeat job that evicted the fresh read is due again while it is still queued. -/
def evictingTwice : List (RuntimeStep storeLimits) := evicting ++ [.runDue heartbeatPlan 70]

theorem busy_iff_sameRead_evicting :
    (run narrow narrow_valid none routed evictingTwice).offers.map (fun o => decide o.SameRead) =
        [false, false, true] ∧
      ∀ o ∈ (run narrow narrow_valid none routed evictingTwice).offers,
        (o.result.result = .busy ↔ o.SameRead) := by
  have hseparated : ∀ o ∈ (run narrow narrow_valid none routed evictingTwice).offers,
      o.Separated := by
    decide +kernel
  refine ⟨by decide +kernel, fun o ho => ?_⟩
  exact (busy_iff_sameRead narrow narrow_valid none routed evictingTwice o ho).mpr (hseparated o ho)

/-- A catalog that publishes the heartbeat under the id of a metric. -/
def shadowing : TargetCatalog :=
  { target with health := [{ providerDataId := some 7, freshnessNs := 10 }] }

/-- A client watches the metric, and the baseline asks for the heartbeat. -/
def shadowed : WatchManager :=
  runFrom WatchManager.apply (WatchManager.initial {} WatchLimits.validate_default)
    [.activateCatalog (some (view 1)) shadowing, .create (client 1) (requirement [7] 10 0),
      .setFirmwareHeartbeatBaseline 10 10]

def shadowedData : DataManager storeLimits :=
  ((DataManager.initial storeLimits).activateCatalog (some (view 1)) shadowing).1

/-- The plan of the snapshot, and its jobs at their first due time. -/
def shadowedRun : List (RuntimeStep storeLimits) :=
  match compilePlan {} shadowedData shadowed.snapshot 0 with
  | .error _ => []
  | .ok plan => [.publishPlan plan, .installPlan plan, .runDue plan 10]

/-- The metric job enters the queue and the heartbeat job is refused as busy, although no
held task reads a heartbeat. -/
theorem heartbeat_busy :
    (run {} CollectionLimits.validate_default none shadowedData shadowedRun).offers.map
        (fun o => (o.task.job.kind, o.result.result)) =
      [(.metric, .accepted), (.heartbeatEvidence, .busy)] ∧
    ∀ o ∈ (run {} CollectionLimits.validate_default none shadowedData shadowedRun).offers,
      ∀ task ∈ o.coordinator.held, ∀ item ∈ task.request.items, item.kind = .metric := by
  decide +kernel

end SharedDevice
end Pdcm
