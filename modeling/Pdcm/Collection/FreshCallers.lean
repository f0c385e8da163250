import Pdcm.Collection.PlanPartition
import Pdcm.Collection.QueueRuns

/-!
# The callers of a fresh read

What the callers of `freshRead` wait for and are told, in every state of the runtime. From
this and the invariant of the queue follow the two results about all interleavings: the
queue keeps its limits, its order and its keys, and a fresh read is completed once, with one
status for everybody who waits for it.
-/

namespace Pdcm

open Library FreshCaller Coordinator

namespace FreshRuntime

variable {L : Limits} {t : FreshRuntime L} {t' : FreshRuntime L} {task : CollectionTask}
  {caller : FreshCaller}

/-! ### The callers -/

theorem mem_modify {α : Type*} {l : List α} {i : ℕ} {f : α → α} {b : α} (h : b ∈ l.modify i f) :
    b ∈ l ∨ ∃ a ∈ l, b = f a := by
  induction l generalizing i with
  | nil => simp at h
  | cons head rest ih =>
    cases i with
    | zero =>
      rcases List.mem_cons.mp h with rfl | h
      · exact .inr ⟨head, List.mem_cons_self .., rfl⟩
      · exact .inl (List.mem_cons_of_mem _ h)
    | succ i =>
      rcases List.mem_cons.mp h with rfl | h
      · exact .inl (List.mem_cons_self ..)
      · rcases ih h with h | ⟨a, ha, rfl⟩
        · exact .inl (List.mem_cons_of_mem _ h)
        · exact .inr ⟨a, List.mem_cons_of_mem _ ha, rfl⟩

theorem countP_modify {α : Type*} {p : α → Bool} {f : α → α} {l : List α} {i : ℕ} {a : α}
    (h : l[i]? = some a) :
    (l.modify i f).countP p + (if p a then 1 else 0) = l.countP p + (if p (f a) then 1 else 0) := by
  induction l generalizing i with
  | nil => simp at h
  | cons head rest ih =>
    cases i with
    | zero =>
      obtain rfl : head = a := by simpa using h
      simp only [List.modify_zero_cons, List.countP_cons]
      omega
    | succ i =>
      have hre := ih (by simpa using h)
      simp only [List.modify_succ_cons, List.countP_cons]
      omega

/-- The callers that `fresh_waiters` counts, and what they wait for or were told. -/
structure CallersInvariant (t : FreshRuntime L) : Prop where
  counted : t.coordinator.freshWaiters = t.callers.countP FreshCaller.counted
  waiters_le : t.coordinator.freshWaiters ≤ t.coordinator.limits.maxFreshWaiters
  joined : ∀ caller ∈ t.callers, ∃ task ∈ t.entered,
    task.id = caller.requestId ∧ task.freshSignature = some caller.signature
  answered : ∀ caller ∈ t.callers, ∀ status, caller.answer? = some status →
    ∃ task, (task, status) ∈ t.finished ∧ task.id = caller.requestId

/-- A step of somebody else: the records grow, the callers stay. -/
theorem CallersInvariant.grow (h : t.CallersInvariant)
    (hsa : Coordinator.SameWaiters t.coordinator t'.coordinator)
    (hca : t'.callers = t.callers) (hen : ∀ task ∈ t.entered, task ∈ t'.entered)
    (hfin : ∀ run ∈ t.finished, run ∈ t'.finished) : t'.CallersInvariant := by
  constructor
  · rw [hsa.freshWaiters_eq, hca]
    exact h.counted
  · rw [hsa.freshWaiters_eq, hsa.limits_eq]
    exact h.waiters_le
  · intro caller hcal
    obtain ⟨task, hta, hown⟩ := h.joined caller (hca ▸ hcal)
    exact ⟨task, hen task hta, hown⟩
  · intro caller hcal st hst
    obtain ⟨task, hta, hid⟩ := h.answered caller (hca ▸ hcal) st hst
    exact ⟨task, hfin _ hta, hid⟩

theorem CallersInvariant.join (h : t.CallersInvariant) (hsta : caller.stage = .waiting)
    (hro : t.coordinator.freshWaiters ≠ t.coordinator.limits.maxFreshWaiters)
    (hli : t'.coordinator.limits = t.coordinator.limits)
    (hwa : t'.coordinator.freshWaiters = t.coordinator.freshWaiters + 1)
    (hca : t'.callers = t.callers ++ [caller])
    (hen : ∀ task ∈ t.entered, task ∈ t'.entered)
    (hfin : ∀ run ∈ t.finished, run ∈ t'.finished) (hta : task ∈ t'.entered)
    (hid : task.id = caller.requestId) (hsig : task.freshSignature = some caller.signature) :
    t'.CallersInvariant := by
  constructor
  · have hnew : [caller].countP FreshCaller.counted = 1 := by
      simp [FreshCaller.counted, hsta]
    rw [hwa, hca, List.countP_append, hnew, h.counted]
  · rw [hwa, hli]
    exact Nat.succ_le_of_lt (lt_of_le_of_ne h.waiters_le hro)
  · intro other hot
    rw [hca] at hot
    rcases List.mem_append.mp hot with hot | hot
    · obtain ⟨old, hea, hown⟩ := h.joined other hot
      exact ⟨old, hen old hea, hown⟩
    · rw [List.mem_singleton.mp hot]
      exact ⟨task, hta, hid, hsig⟩
  · intro other hot st hst
    rw [hca] at hot
    rcases List.mem_append.mp hot with hot | hot
    · obtain ⟨old, hea, hown⟩ := h.answered other hot st hst
      exact ⟨old, hfin _ hea, hown⟩
    · rw [List.mem_singleton.mp hot, answer?, hsta] at hst
      cases hst

theorem await_same (caller : FreshCaller) (compl : Option Status) (now : ℤ) :
    (caller.await compl now).requestId = caller.requestId ∧
      (caller.await compl now).signature = caller.signature ∧
      (caller.await compl now).counted = caller.counted := by
  unfold await
  split
  next hst => exact ⟨rfl, rfl, by simp [FreshCaller.counted, hst]⟩
  next hst =>
    split_ifs
    · exact ⟨rfl, rfl, by simp [FreshCaller.counted, hst]⟩
    · exact ⟨rfl, rfl, rfl⟩
  next => exact ⟨rfl, rfl, rfl⟩

theorem await_answer? {compl : Option Status} {now : ℤ} {status : Status}
    (h : (caller.await compl now).answer? = some status) :
    compl = some status ∨ caller.answer? = some status := by
  unfold await at h
  split at h
  · exact .inl h
  · split_ifs at h
    · cases h
    · exact .inr h
  · exact .inr h

theorem leave_same (caller : FreshCaller) :
    caller.leave.requestId = caller.requestId ∧ caller.leave.signature = caller.signature ∧
      caller.leave.answer? = caller.answer? := by
  unfold leave
  split
  next st timedOut hst =>
    refine ⟨rfl, rfl, ?_⟩
    cases timedOut <;> simp [answer?, hst]
  next => exact ⟨rfl, rfl, rfl⟩

section

variable (h : t.CallersInvariant)

include h

theorem await_callersInvariant (hinv : t.Invariant) (i : ℕ) (now : ℤ) :
    (t.step (.await i now)).CallersInvariant := by
  constructor
  · rw [step]
    refine h.counted.trans ?_
    cases hi : t.callers[i]? with
    | none => rw [List.modify_eq_self (List.getElem?_eq_none_iff.mp hi)]
    | some caller =>
      have hco := countP_modify (p := FreshCaller.counted)
        (f := fun caller => caller.await (t.coordinator.completions.find? caller.requestId) now) hi
      rw [(await_same caller _ now).2.2] at hco
      exact (Nat.add_right_cancel hco).symm
  · exact h.waiters_le
  · intro caller hca
    rcases mem_modify hca with hca | ⟨b, hbe, rfl⟩
    · exact h.joined caller hca
    · obtain ⟨hid, hsig, -⟩ :=
        await_same b (t.coordinator.completions.find? b.requestId) now
      rw [hid, hsig]
      exact h.joined b hbe
  · intro caller hca st hst
    rcases mem_modify hca with hca | ⟨b, hbe, rfl⟩
    · exact h.answered caller hca st hst
    · rw [(await_same b _ now).1]
      rcases await_answer? hst with hfi | han
      · obtain ⟨task, hta, hid, -⟩ := (hinv.tasks.completions _ _).mp hfi
        exact ⟨task, hta, hid⟩
      · exact h.answered b hbe st han

theorem leave_callersInvariant (i : ℕ) :
    (t.step (.leave i)).CallersInvariant := by
  rw [step]
  split
  next rid sig dl st timedOut hi =>
    have hco := countP_modify (p := FreshCaller.counted) (f := .leave) hi
    have hin : (⟨rid, sig, dl, .leaving st timedOut⟩ : FreshCaller).counted = true := rfl
    have hout : (⟨rid, sig, dl, .leaving st timedOut⟩ : FreshCaller).leave.counted = false := rfl
    rw [hin, hout, if_pos rfl, if_neg Bool.false_ne_true] at hco
    constructor
    · have hcou := h.counted
      dsimp only
      omega
    · exact (Nat.sub_le _ _).trans h.waiters_le
    · intro caller hca
      rcases mem_modify hca with hca | ⟨b, hbe, rfl⟩
      · exact h.joined caller hca
      · rw [(leave_same b).1, (leave_same b).2.1]
        exact h.joined b hbe
    · intro caller hca answer han
      rcases mem_modify hca with hca | ⟨b, hbe, rfl⟩
      · exact h.answered caller hca answer han
      · rw [(leave_same b).2.2] at han
        rw [(leave_same b).1]
        exact h.answered b hbe answer han
  next => exact h

/-- A read that offered a task of its own: the caller waits for it if it was accepted. -/
theorem offered_callersInvariant {sig : FreshSignature}
    {dl : ℤ} (hro : t.coordinator.freshWaiters ≠ t.coordinator.limits.maxFreshWaiters)
    (hid : task.id = t.coordinator.nextRequestId)
    (hsig : task.freshSignature = some sig)
    (hof : t'.offers = t.offers ++ [⟨t.coordinator.issue, task⟩])
    (hfin : ∀ run ∈ t.finished, run ∈ t'.finished)
    (hco : t'.coordinator = (Coordinator.FreshRead.ofEnqueued t.coordinator.nextRequestId
      (t.coordinator.issue.enqueueLocked task)).coordinator)
    (hca : t'.callers = t.callers ++ joining sig dl
      (Coordinator.FreshRead.ofEnqueued t.coordinator.nextRequestId
        (t.coordinator.issue.enqueueLocked task)).outcome) : t'.CallersInvariant := by
  have hen : t'.entered = t.entered ++ (⟨t.coordinator.issue, task⟩ : QueueOffer L).accepted := by
    rw [entered, hof, List.flatMap_append, List.flatMap_singleton]
    rfl
  have hgr : ∀ other ∈ t.entered, other ∈ t'.entered := fun other hot => by
    rw [hen]
    exact List.mem_append_left _ hot
  have hwa := enqueueLocked_sameWaiters t.coordinator.issue task
  unfold QueueOffer.accepted QueueOffer.result at hen
  generalize t.coordinator.issue.enqueueLocked task = queued at hco hca hwa hen
  obtain ⟨c, res, evicted⟩ := queued
  have hre : t'.coordinator = c → t'.callers = t.callers → t'.CallersInvariant := by
    intro hsa hke
    refine h.grow ⟨?_, ?_⟩ hke hgr hfin
    · rw [hsa]
      exact hwa.limits_eq
    · rw [hsa]
      exact hwa.freshWaiters_eq
  cases res with
  | accepted =>
    have hmem : task ∈ t'.entered := by
      rw [hen]
      exact List.mem_append_right _ (List.mem_singleton.mpr rfl)
    have hli : t'.coordinator.limits = t.coordinator.limits := by
      rw [hco]
      exact hwa.limits_eq
    have hcou : t'.coordinator.freshWaiters = t.coordinator.freshWaiters + 1 := by
      rw [hco]
      exact congrArg (· + 1) hwa.freshWaiters_eq
    have hjo : t'.callers = t.callers ++ [⟨t.coordinator.nextRequestId, sig, dl, .waiting⟩] := hca
    exact h.join rfl hro hli hcou hjo hgr hfin hmem hid hsig
  | busy => exact hre hco (hca.trans (List.append_nil _))
  | full => exact hre hco (hca.trans (List.append_nil _))
  | stopped => exact hre hco (hca.trans (List.append_nil _))

theorem freshRead_callersInvariant (hinv : t.Invariant)
    (keys : List DataKey) (gen : ℕ) (dl now sch : ℤ) :
    (t.step (.freshRead keys gen dl now sch)).CallersInvariant := by
  have hadm := freshReadLocked_admission hinv.keys keys gen dl now sch
  rw [step]
  generalize t.coordinator.freshOffers keys gen dl now sch = offers at hadm ⊢
  generalize t.coordinator.freshReadLocked keys gen dl now sch = read at hadm ⊢
  have hfin : ∀ run ∈ t.finished, run ∈ (t.record offers).finished := fun run hrun =>
    List.mem_append_left _ hrun
  cases hadm with
  | failed st =>
    refine h.grow ⟨rfl, rfl⟩ (List.append_nil _) ?_ hfin
    intro task hta
    exact (entered_record t []).symm ▸ List.mem_append_left _ hta
  | @joined task hro hfi hta =>
    obtain ⟨owner, how, hid, hsig⟩ := hinv.keys.registered _ _ hfi
    have hmem : owner ∈ t.entered :=
      hinv.tasks.mem_entered (t.coordinator.held_sublist_tasks.subset how)
    have hgr : ∀ other ∈ t.entered, other ∈ (t.record []).entered := fun other hot =>
      (entered_record t []).symm ▸ List.mem_append_left _ hot
    exact h.join rfl hro rfl rfl rfl hgr hfin (hgr owner hmem) hid hsig
  | offered hro hid hsig hke hne =>
    exact offered_callersInvariant h hro hid hsig rfl hfin rfl rfl

end

theorem step_callersInvariant (t : FreshRuntime L) (s : RuntimeStep L) (h : t.CallersInvariant)
    (hinv : t.Invariant) : (t.step s).CallersInvariant := by
  have hre : ∀ task ∈ t.entered, task ∈ t.entered := fun _ hta => hta
  cases s with
  | runDue cur now =>
    refine h.grow (t.coordinator.runDue_sameWaiters cur now) rfl ?_ ?_
    · intro task hta
      exact (entered_record t _).symm ▸ List.mem_append_left _ hta
    · intro run hrun
      exact List.mem_append_left _ hrun
  | note call => exact h.grow (t.coordinator.note_same call).2 rfl hre fun _ hrun => hrun
  | freshRead keys gen dl now sch =>
    exact freshRead_callersInvariant h hinv keys gen dl now sch
  | await i now => exact await_callersInvariant h hinv i now
  | leave i => exact leave_callersInvariant h i
  | workerTake => exact h.grow t.coordinator.workerTake_sameWaiters rfl hre fun _ hrun => hrun
  | workerNote => exact h.grow t.coordinator.workerNote_sameWaiters rfl hre fun _ hrun => hrun
  | workerRelease =>
    exact h.grow t.coordinator.workerRelease_sameWaiters rfl hre fun _ hrun => hrun
  | workerComplete st =>
    refine h.grow (t.coordinator.workerComplete_sameWaiters st) rfl hre ?_
    intro run hrun
    exact List.mem_append_left _ hrun
  | shutdown =>
    have hsa := cancelQueue_sameWaiters t.coordinator.queue
      { t.coordinator with shutdown := true }
    exact h.grow ⟨hsa.limits_eq, hsa.freshWaiters_eq⟩ rfl hre fun _ hrun => hrun
  | finishCancelled =>
    rw [step]
    cases t.cancelled with
    | nil => exact h
    | cons task rest =>
      refine h.grow (t.coordinator.setCompletion_sameWaiters task _) rfl hre ?_
      intro run hrun
      exact List.mem_append_left _ hrun
  | publishPlan next => exact h.grow ⟨rfl, rfl⟩ rfl hre fun _ hrun => hrun
  | installPlan next => exact h.grow ⟨rfl, rfl⟩ rfl hre fun _ hrun => hrun
  | activateCatalog cat =>
    exact h.grow (t.coordinator.activateCatalog_same cat).2 rfl hre fun _ hrun => hrun
  | dataChanged data => exact h.grow ⟨rfl, rfl⟩ rfl hre fun _ hrun => hrun

variable (limits : CollectionLimits) (valid : limits.validate.ok = true)
  (watchManager : Option WatchManager) (data : DataManager L) (steps : List (RuntimeStep L))

theorem run_invariants :
    (run limits valid watchManager data steps).Invariant ∧
      (run limits valid watchManager data steps).CallersInvariant := by
  refine invariant_run (I := fun t : FreshRuntime L => t.Invariant ∧ t.CallersInvariant) ?_ ?_ steps
  · rintro t s ⟨hinv, hcal⟩
    exact ⟨step_invariant t s hinv, step_callersInvariant t s hcal hinv⟩
  · refine ⟨start_invariant limits valid watchManager data, rfl, Nat.zero_le _, ?_, ?_⟩
    · intro caller hca
      cases hca
    · intro caller hca
      cases hca

/-! ### The queue in every state -/

/-- What holds of the queue and of the records around it. -/
structure ProviderQueueSound (t : FreshRuntime L) : Prop where
  length_le : t.coordinator.queue.length ≤ t.coordinator.limits.maxProviderQueue
  ordered : t.coordinator.queue.Pairwise fun a b => b.priority ≤ a.priority
  distinct : t.entered.Nodup
  /-- Within a priority the tasks stand as they came. -/
  arrival : ∀ p, (t.coordinator.queue.filter fun task => decide (task.priority = p)).Sublist
    (t.entered.filter fun task => decide (task.priority = p))
  disjoint : t.coordinator.held.Pairwise fun a b => Disjoint a.keys.toFinset b.keys.toFinset
  busy : ∀ key, key ∈ t.coordinator.busyKeys ↔ ∃ task ∈ t.coordinator.held, key ∈ task.keys
  inFlight : t.coordinator.inFlight.length ≤ 1
  registered : ∀ signature id, t.coordinator.freshTasks.find? signature = some id →
    ∃ task ∈ t.coordinator.held, task.id = id ∧ task.freshSignature = some signature ∧
      ∀ other ∈ t.live, other.id = id → other = task
  evicted : ∀ offer ∈ t.offers, ∀ last ∈ offer.evicted,
    offer.coordinator.queue.getLast? = some last ∧ last.priority < offer.task.priority ∧
      last.priority ≠ .heartbeat
  waiters_le : t.coordinator.freshWaiters ≤ t.coordinator.limits.maxFreshWaiters

theorem inFlight_length (c : Coordinator L) : c.inFlight.length ≤ 1 := by
  unfold inFlight
  split
  · exact le_rfl
  · exact le_rfl
  · exact Nat.zero_le _

theorem le_heartbeat (p : WatchPriority) : p ≤ .heartbeat := by
  cases p <;> decide

theorem providerQueueSound_of_invariants (h : t.Invariant) (hca : t.CallersInvariant) :
    t.ProviderQueueSound := by
  constructor
  · exact h.order.length_le
  · exact h.order.ordered
  · exact .of_map _ h.tasks.distinct
  · exact h.order.arrival
  · exact List.pairwise_map.mp h.keys.owned.disjoint
  · intro key
    rw [h.keys.owned.taken_iff]
    simp
  · exact inFlight_length _
  · intro sig id hid
    obtain ⟨task, hta, rfl, hsig⟩ := h.keys.registered sig id hid
    refine ⟨task, hta, rfl, hsig, ?_⟩
    intro other hot hsa
    have hmem := t.coordinator.held_sublist_tasks.subset hta
    have hent := h.tasks.ledger.mem_iff.mp (List.mem_append_left _ hot)
    exact h.tasks.eq_of_id hent (h.tasks.mem_entered hmem) hsa
  · intro offer _ last hla
    obtain ⟨hba, hlo⟩ := evicted_of_enqueueLocked offer.coordinator
      (Option.mem_toList.mp hla)
    refine ⟨hba, hlo, ?_⟩
    rintro hbe
    rw [hbe] at hlo
    exact absurd hlo (not_lt.mpr (le_heartbeat _))
  · exact hca.waiters_le

theorem run_providerQueueSound :
    (run limits valid watchManager data steps).ProviderQueueSound := by
  obtain ⟨hinv, hcallers⟩ := run_invariants limits valid watchManager data steps
  exact providerQueueSound_of_invariants hinv hcallers

end FreshRuntime

namespace SharedDevice

open FreshRuntime

/-- A queue of one task. -/
def narrow : CollectionLimits := { maxProviderQueue := 1 }

theorem narrow_valid : narrow.validate.ok = true := by decide

def routed : DataManager storeLimits :=
  ((DataManager.initial storeLimits).activateCatalog (some (view 1)) target).1

def inlet : DataKey := ⟨device, 7⟩

/-- A plan with one job, of the priority of heartbeats, for metric 8. -/
def heartbeatPlan : CollectionPlan :=
  { version := 1, catalogGeneration := 1
    jobs :=
      [{ id := 1, providerId := "provider", period := 10, priority := .heartbeat
         items :=
          [{ key := { providerId := "provider", entity := device, dataId := 8 }, period := 10
             priority := .heartbeat }] }] }

/-- Two callers share a fresh read, which the heartbeat job evicts; one of them is at its
deadline before that, the other one gets the status. -/
def evicting : List (RuntimeStep storeLimits) :=
  [.activateCatalog (some (view 1)), .publishPlan heartbeatPlan, .installPlan heartbeatPlan,
    .freshRead [inlet] 1 100 0 0, .freshRead [inlet] 1 50 0 0, .await 1 50,
      .runDue heartbeatPlan 60,
    .await 0 60, .leave 0]

theorem evicting_providerQueueSound :
    (run narrow narrow_valid none routed evicting).ProviderQueueSound ∧
      (run narrow narrow_valid none routed evicting).offers.map (fun o => o.evicted.length) =
        [0, 1] := by
  refine ⟨run_providerQueueSound narrow narrow_valid none routed evicting, ?_⟩
  decide +kernel

end SharedDevice

/-! ### Fresh reads in every state -/

/-- The steps that one caller makes while it waits. -/
def RuntimeStep.OfCaller {L : Limits} (i : ℕ) : RuntimeStep L → Prop
  | .await j _ => j = i
  | .leave j => j = i
  | _ => False

namespace FreshRuntime

variable {L : Limits} {t : FreshRuntime L} {i : ℕ} {t' : FreshRuntime L} {task : CollectionTask}

/-- The two states differ at most in how far one caller is. -/
structure SameApart (i : ℕ) (t t' : FreshRuntime L) : Prop where
  coordinator_eq : t'.coordinator = t.coordinator
  cancelled_eq : t'.cancelled = t.cancelled
  offers_eq : t'.offers = t.offers
  finished_eq : t'.finished = t.finished
  length_eq : t'.callers.length = t.callers.length
  callers_eq : ∀ j, j ≠ i → t'.callers[j]? = t.callers[j]?

theorem SameApart.of_modify (t : FreshRuntime L) (i : ℕ) (f : FreshCaller → FreshCaller) :
    SameApart i t { t with callers := t.callers.modify i f } := by
  refine ⟨rfl, rfl, rfl, rfl, List.length_modify .., ?_⟩
  intro j hj
  exact List.getElem?_modify_ne f t.callers (.symm hj)

theorem getElem?_modify_congr {l l' : List FreshCaller} (hle : l'.length = l.length)
    (h : ∀ j, j ≠ i → l'[j]? = l[j]?) (k : ℕ) (f : FreshCaller → FreshCaller) :
    (l'.modify k f).length = (l.modify k f).length ∧
      ∀ j, j ≠ i → (l'.modify k f)[j]? = (l.modify k f)[j]? := by
  constructor
  · rw [List.length_modify, List.length_modify, hle]
  · intro j hj
    rw [List.getElem?_modify, List.getElem?_modify, h j hj]

/-- A step of anybody else keeps the two states the same apart from the caller. -/
theorem SameApart.step (h : SameApart i t t') (s : RuntimeStep L) (hs : ¬s.OfCaller i) :
    SameApart i (t.step s) (t'.step s) := by
  obtain ⟨c, canc, callers, offers, fin⟩ := t
  obtain ⟨c', canc', callers', offers', fin'⟩ := t'
  obtain ⟨rfl, rfl, rfl, rfl, hle, hca⟩ := h
  cases s with
  | freshRead keys gen dl now sch =>
    refine ⟨rfl, rfl, rfl, rfl, ?_, ?_⟩
    · simp only [FreshRuntime.step, List.length_append, hle]
    · intro j hj
      simp only [FreshRuntime.step, List.getElem?_append, hle, hca j hj]
  | await k now =>
    obtain ⟨hle', hca'⟩ := getElem?_modify_congr hle hca k fun caller =>
      caller.await (c'.completions.find? caller.requestId) now
    exact ⟨rfl, rfl, rfl, rfl, hle', hca'⟩
  | leave k =>
    obtain ⟨hle', hca'⟩ := getElem?_modify_congr hle hca k .leave
    have hk : callers'[k]? = callers[k]? := hca k hs
    simp only [FreshRuntime.step, hk]
    split
    · exact ⟨rfl, rfl, rfl, rfl, hle', hca'⟩
    · exact ⟨rfl, rfl, rfl, rfl, hle, hca⟩
  | finishCancelled =>
    cases canc' with
    | nil => exact ⟨rfl, rfl, rfl, rfl, hle, hca⟩
    | cons task rest => exact ⟨rfl, rfl, rfl, rfl, hle, hca⟩
  -- nothing else looks at the callers
  | runDue | note | workerTake | workerNote | workerRelease | workerComplete | shutdown
  | publishPlan | installPlan | activateCatalog | dataChanged =>
    exact ⟨rfl, rfl, rfl, rfl, hle, hca⟩

theorem SameApart.run (h : SameApart i t t') {later : List (RuntimeStep L)}
    (hla : ∀ s ∈ later, ¬s.OfCaller i) :
    SameApart i (runFrom FreshRuntime.step t later) (runFrom FreshRuntime.step t' later) := by
  induction later generalizing t t' with
  | nil => exact h
  | cons s rest ih =>
    exact ih (h.step s (hla s (List.mem_cons_self ..)))
      fun s' hs' => hla s' (List.mem_cons_of_mem _ hs')

/-- What holds of the fresh reads and their callers. -/
structure FreshReadsComplete (t : FreshRuntime L) : Prop where
  /-- A fresh task that nobody holds any more was completed exactly once. -/
  completed_once : ∀ task ∈ t.entered, task.freshSignature.isSome = true → task ∉ t.live →
    (t.finished.map Prod.fst).count task = 1
  completion : ∀ task status, (task, status) ∈ t.finished → task.freshSignature.isSome = true →
    t.coordinator.completions.find? task.id = some status
  /-- A caller that was not at its deadline has the status of its task. -/
  answered : ∀ caller ∈ t.callers, ∀ status, caller.answer? = some status →
    ∃ task ∈ t.entered, task.id = caller.requestId ∧
      task.freshSignature = some caller.signature ∧ (task, status) ∈ t.finished
  /-- A caller that looks finds the status of its task, and before its deadline it goes on
  waiting for it. -/
  awaits : ∀ i caller now, t.callers[i]? = some caller → caller.stage = .waiting →
    ∃ task ∈ t.entered, task.id = caller.requestId ∧
      task.freshSignature = some caller.signature ∧
      (∀ status, (task, status) ∈ t.finished →
        (t.step (.await i now)).callers[i]? = some { caller with stage := .leaving status false }) ∧
      (now < caller.deadline → (∀ status, (task, status) ∉ t.finished) →
        (t.step (.await i now)).callers[i]? = some caller)
  single : ∀ a ∈ t.coordinator.held, ∀ b ∈ t.coordinator.held, ∀ signature signature',
    a.freshSignature = some signature → b.freshSignature = some signature' →
    signature.keys.toFinset = signature'.keys.toFinset → a = b
  /-- Whether a caller times out makes no difference to what all others do after that. -/
  timeout : ∀ i now later, (∀ s ∈ later, ¬s.OfCaller i) →
    SameApart i (runFrom FreshRuntime.step t later)
      (runFrom FreshRuntime.step (t.step (.await i now)) later)
  /-- A caller that returns only lowers the number of waiters. -/
  leaves : ∀ i, SameApart i t
    { t.step (.leave i) with
      coordinator :=
        { (t.step (.leave i)).coordinator with freshWaiters := t.coordinator.freshWaiters } }

theorem count_finished (h : t.Invariant) (hta : task ∈ t.entered) (hli : task ∉ t.live) :
    (t.finished.map Prod.fst).count task = 1 := by
  have hco := h.tasks.ledger.count_eq task
  rw [List.count_append, List.count_eq_zero_of_not_mem (l := t.coordinator.tasks ++ t.cancelled)
    hli, Nat.zero_add] at hco
  rw [hco]
  exact List.count_eq_one_of_mem (.of_map _ h.tasks.distinct) hta

theorem mem_finished_entered (h : t.Invariant) {st : Status}
    (hrun : (task, st) ∈ t.finished) : task ∈ t.entered := by
  apply h.tasks.ledger.mem_iff.mp
  exact List.mem_append_right _ (List.mem_map.mpr ⟨_, hrun, rfl⟩)

/-- Two held fresh tasks with the same keys are the same. -/
theorem held_single (h : t.Invariant) {a b : CollectionTask} (ha : a ∈ t.coordinator.held)
    (hb : b ∈ t.coordinator.held) {sig sig' : FreshSignature}
    (hsig : a.freshSignature = some sig)
    (hsig' : b.freshSignature = some sig')
    (hke : sig.keys.toFinset = sig'.keys.toFinset) : a = b := by
  by_contra hne
  have hen := h.tasks.mem_entered (t.coordinator.held_sublist_tasks.subset ha)
  have hen' := h.tasks.mem_entered (t.coordinator.held_sublist_tasks.subset hb)
  obtain ⟨hown, hno⟩ := h.tasks.signed a hen sig hsig
  obtain ⟨hown', -⟩ := h.tasks.signed b hen' sig' hsig'
  have hdi := (List.pairwise_map.mp h.keys.owned.disjoint).forall ha hb hne
  rw [hown, hown', ← hke, disjoint_self] at hdi
  exact hno (List.toFinset_eq_empty_iff _ |>.mp hdi)

theorem await_getElem? {caller : FreshCaller} (h : t.callers[i]? = some caller) (now : ℤ) :
    (t.step (.await i now)).callers[i]? =
      some (caller.await (t.coordinator.completions.find? caller.requestId) now) := by
  simp only [step, List.getElem?_modify_eq, h, Option.map_eq_map, Option.map_some]

theorem freshReadsComplete_of_invariants (h : t.Invariant) (hca : t.CallersInvariant) :
    t.FreshReadsComplete := by
  have hco : ∀ task status, (task, status) ∈ t.finished →
      task.freshSignature.isSome = true →
      t.coordinator.completions.find? task.id = some status := fun task status hrun hfr =>
    (h.tasks.completions task.id status).mpr ⟨task, hrun, rfl, hfr⟩
  constructor
  · intro task hta _ hli
    exact count_finished h hta hli
  · exact hco
  · intro caller hcal status hsta
    obtain ⟨task, hta, hid, hsig⟩ := hca.joined caller hcal
    obtain ⟨other, hot, hid'⟩ := hca.answered caller hcal status hsta
    obtain rfl := h.tasks.eq_of_id (mem_finished_entered h hot) hta (hid'.trans hid.symm)
    exact ⟨other, hta, hid, hsig, hot⟩
  · intro i caller now hi hst
    obtain ⟨task, hta, hid, hsig⟩ := hca.joined caller (List.mem_of_getElem? hi)
    refine ⟨task, hta, hid, hsig, ?_, ?_⟩
    · intro status hrun
      have hfi := hco task status hrun (by rw [hsig]; rfl)
      rw [hid] at hfi
      rw [await_getElem? hi, hfi, await]
      exact hst
    · intro hnow hop
      have hno : t.coordinator.completions.find? caller.requestId = none := by
        refine Option.eq_none_iff_forall_ne_some.mpr fun status hfi => ?_
        obtain ⟨other, hot, hid', -⟩ := (h.tasks.completions _ _).mp hfi
        obtain rfl := h.tasks.eq_of_id (mem_finished_entered h hot) hta (hid'.trans hid.symm)
        exact hop status hot
      rw [await_getElem? hi, hno, await, if_neg (not_le.mpr hnow)]
      exact hst
  · intro a ha b hb sig sig' hsig hsig' hke
    exact held_single h ha hb hsig hsig' hke
  · intro i now later hla
    exact (SameApart.of_modify t i _).run hla
  · intro i
    rw [step]
    split
    · exact .of_modify t i _
    · exact ⟨rfl, rfl, rfl, rfl, rfl, fun _ _ => rfl⟩

theorem run_freshReadsComplete (limits : CollectionLimits) (valid : limits.validate.ok = true)
    (watchManager : Option WatchManager) (data : DataManager L) (steps : List (RuntimeStep L)) :
    (run limits valid watchManager data steps).FreshReadsComplete := by
  obtain ⟨hinv, hcallers⟩ := run_invariants limits valid watchManager data steps
  exact freshReadsComplete_of_invariants hinv hcallers

end FreshRuntime

namespace SharedDevice

open FreshRuntime

/-- The evicted task is completed once; the first caller is told so, the second one had
reached its deadline. -/
theorem evicting_freshReadsComplete :
    (run narrow narrow_valid none routed evicting).FreshReadsComplete ∧
      (run narrow narrow_valid none routed evicting).callers.map stage =
        [.returned evictedStatus false,
          .leaving ⟨.timeout, "fresh read waiter timed out"⟩ true] := by
  refine ⟨run_freshReadsComplete narrow narrow_valid none routed evicting, ?_⟩
  decide +kernel

end SharedDevice

end Pdcm
