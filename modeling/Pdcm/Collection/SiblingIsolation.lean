import Pdcm.Collection.GenerationIsolation
import Pdcm.Collection.NormalizeRuns
import Pdcm.Data.ReadSpecification

/-!
# Siblings in one provider result

The normalizer judges each item on its own, `DataManager::commit` the batch as a whole.
Whatever the normalizer lets through passes the checks of the commit, with one exception:
only the commit knows the limit on the size of a value.
-/

namespace Pdcm

open Library DataPlane DataManager

namespace DataPlane

variable {L : Limits}

theorem shared_readInvariant (ps : List (Option MetricProcessor))
    (ex : ProcessorExecutor) (actions : List PlaneAction) :
    (dataAfter L ps ex actions).ReadInvariant := by
  refine Pool.invariant_act (I := interface L) (P := fun p => p.data.ReadInvariant) ?_ ?_ _
  · exact fun c p hp => (exec_data c p).readInvariant hp
  · exact run_readInvariant L []

end DataPlane

namespace FinishedRead

variable {L : Limits} {read : FinishedRead} {answer : ProviderReadItemResult} {p : DataPlane L}
  {item : ProviderReadItem} {descriptor : MetricDescriptor} {error : Status}

/-! ### The batch of a read that runs alone -/

/-- The observations the read is normalized to under the catalog of `s`. -/
def batch (read : FinishedRead) (s : DataManager L) : List Observation :=
  (read.normalizeAllWith (returnedItems read.request read.result)
    (fun item => s.metricDescriptor item.dataId) read.request.items).1

theorem run_normalizeItems (items : ReturnedItems) (reqs : List ProviderReadItem)
    (p : DataPlane L) :
    (read.normalizeItems items reqs).run p =
      (p, read.normalizeAllWith items (fun item => p.data.metricDescriptor item.dataId) reqs) := by
  induction reqs with
  | nil => rfl
  | cons req rest ih =>
    have hit : (read.normalizeItem items req).run p =
        (p, read.normalizeWith items (p.data.metricDescriptor req.dataId) req) := by
      unfold normalizeItem normalizeWith
      generalize read.resolve _ _ _ req = resolved
      cases resolved with
      | error viol => rfl
      | ok resolved =>
        refine (run_call_bind _ _ _).trans ?_
        simp only [exec]
        cases p.data.metricDescriptor req.dataId with
        | none => rfl
        | some descriptor =>
          dsimp only
          split_ifs <;> rfl
    unfold normalizeItems
    rw [Program.run_bind, hit, Program.run_bind, ih, normalizeAllWith]
    cases read.normalizeWith items (p.data.metricDescriptor req.dataId) req with
    | error viol => rfl
    | ok observation => rfl

theorem run_normalizeMetrics_data (hba : read.batch p.data ≠ []) :
    ((read.normalizeMetrics (returnedItems read.request read.result)).run p).1.data =
      (p.data.commit (read.batch p.data)).1 := by
  unfold batch at hba ⊢
  unfold normalizeMetrics
  rw [Program.run_bind, run_normalizeItems]
  rw [run_neg hba, Program.run_bind, run_commit]
  split_ifs <;> rfl

/-! ### The two sets of rules -/

/-- What a metric item that passes `validProviderItem` satisfies. -/
structure WellFormed (answer : ProviderReadItemResult) : Prop where
  notStale : answer.status ≠ .stale
  time : ∀ time ∈ answer.sourceSampleTimeNs, 0 ≤ time
  value : answer.value.isSome = true ↔ answer.status = .valid

theorem wellFormed_of_valid (hki : answer.item.kind = .metric)
    (h : validProviderItem answer = true) : WellFormed answer := by
  unfold validProviderItem at h
  split_ifs at h with hbad hbe _ _ hev hst
  · simp [hki] at hbe
  · simp [hki] at hbe
  · push Not at hbad
    exact ⟨hbad.1, hbad.2, by simp [h, hst]⟩
  · push Not at hbad
    refine ⟨hbad.1, hbad.2, ?_⟩
    simp [h, hst]

theorem statusMetadataInvalid_observation (han : WellFormed answer)
    (her : error.ok = true ↔ answer.status = .valid) :
    statusMetadataInvalid (read.observation item descriptor answer error) = none := by
  have hval := han.value
  by_cases hva : answer.status = .valid
  · obtain ⟨value, hso⟩ := Option.isSome_iff_exists.mp (hval.mpr hva)
    simp [statusMetadataInvalid, observation, hva, hso, her.mpr hva]
  · have hfa : error.ok = false := Bool.eq_false_iff.mpr fun h => hva (her.mp h)
    have hsta := han.notStale
    cases hst : answer.status <;>
      simp_all [statusMetadataInvalid, observation]

theorem checkObservation_observation {s : DataManager L} (hso : s.CatalogSound)
    (hac : s.catalog.generation ≠ 0)
    (hgen : read.request.catalogGeneration = s.catalog.generation)
    (hti : 0 ≤ read.request.scheduledTime ∧ 0 ≤ read.observedTime)
    (hen : item.entity ∈ s.catalog.entities)
    (hkn : s.metricDescriptor item.dataId = some descriptor) (han : WellFormed answer)
    (her : error.ok = true ↔ answer.status = .valid)
    (hma : ∀ value ∈ answer.value, valueMatches descriptor value = true)
    (hfi : ∀ value ∈ answer.value, valueBytes value ≤ L.maxValueBytes) :
    s.checkObservation (read.observation item descriptor answer error) = none := by
  obtain ⟨hki, hage⟩ := hso.entity _ hen
  obtain ⟨hid, hver⟩ := hso.metric _ _ hkn
  have hva : (validateObservation (read.observation item descriptor answer error)).ok = true := by
    apply validateObservation_ok _ _ (statusMetadataInvalid_observation han her) rfl
    · rintro (h | h | h | h)
      · exact hki h
      · exact hage h
      · exact hid h
      · exact hver h
    · rintro (h | h | h | ⟨time, hmem, h⟩)
      · exact absurd hti.1 (not_le.mpr h)
      · exact absurd hti.2 (not_le.mpr h)
      · exact hac (hgen ▸ h)
      · exact absurd (han.time time hmem) (not_le.mpr h)
  exact checkObservation_eq_none rfl hgen han.notStale hen hkn hva rfl hma hfi

/-! ### The read of one job -/

/-- A metric read of the active catalog with a usable result within the limits, at a clock
reading that nothing stored is ahead of. -/
structure Current (read : FinishedRead) (limits : CollectionLimits) (s : DataManager L) :
    Prop where
  kind : read.job.kind = .metric
  active : s.catalogGeneration ≠ 0
  plan : read.plan.catalogGeneration = s.catalogGeneration
  request : read.request.catalogGeneration = s.catalogGeneration
  -- no watch is accepted for a catalog of several devices
  topology : s.catalog.topologyUnsupported = false
  metric : ∀ item ∈ read.request.items, item.kind = .metric
  entity : ∀ item ∈ read.request.items, item.entity ∈ s.catalog.entities
  distinct : read.request.items.Nodup
  usable : usableCallStatus read.result.callStatus.code = true
  items : read.result.items.length ≤ limits.maxResultItems
  bytes : bytesExceed limits 0 read.result.items = false
  times : 0 ≤ read.request.scheduledTime ∧ 0 ≤ read.observedTime
  clock : ∀ item ∈ read.request.items, ∀ e latest, s.stored? item.dataKey = some e →
    e.latest = some latest → latest.observedMonotonicTimeNs ≤ read.observedTime

variable {limits : CollectionLimits} {s : DataManager L}

theorem statusFor_success_iff (st : ObservationStatus) : statusFor st = .success ↔ st = .valid := by
  cases st <;> simp [statusFor]

/-- No requested item has a single well formed answer of the type of its metric that is too
large. -/
def AnswersFit (read : FinishedRead) (s : DataManager L) : Prop :=
  ∀ item ∈ read.request.items, ∀ answer ∈ read.result.items, read.answersTo item = [answer] →
    validProviderItem answer = true → ∀ descriptor ∈ s.metricDescriptor item.dataId,
      ∀ value ∈ answer.value, valueMatches descriptor value = true →
        valueBytes value ≤ L.maxValueBytes

instance (read : FinishedRead) (s : DataManager L) : Decidable (read.AnswersFit s) :=
  inferInstanceAs (Decidable (∀ item ∈ _, _))

/-- Such an answer is in the batch. -/
theorem Current.mem_batch (h : read.Current limits s) (hit : item ∈ read.request.items)
    (hans : read.answersTo item = [answer]) (hval : validProviderItem answer = true)
    {value : MetricValue} (hva : answer.value = some value)
    (hkn : s.metricDescriptor item.dataId = some descriptor)
    (hma : valueMatches descriptor value = true) :
    read.observation item descriptor answer .success ∈ read.batch s := by
  obtain ⟨-, hsame⟩ := mem_answers.mp (show answer ∈ read.answersTo item by simp [hans])
  have hst : answer.status = .valid :=
    (wellFormed_of_valid (hsame ▸ h.metric item hit) hval).value.mp (by simp [hva])
  have hkept : read.leftOut (some descriptor) item = false := by
    simp [leftOut, hans, hval, hva, hma]
  obtain ⟨_, hsome, -, -, hok⟩ := normalizeWith_answered h.usable hit hans hkept
  obtain rfl := Option.some.inj hsome
  rw [if_pos hst] at hok
  exact mem_normalizeAllWith.mpr ⟨item, hit, by rw [hkn]; exact hok⟩

/-- Whatever the normalizer lets through is accepted unless its value is too large. -/
theorem Current.check (h : read.Current limits s) (hso : s.CatalogSound)
    (hfi : read.AnswersFit s) : ∀ o ∈ read.batch s, s.checkObservation o = none := by
  intro o ho
  obtain ⟨item, hit, hok⟩ := mem_normalizeAllWith.mp ho
  obtain ⟨descriptor, hkn, ⟨-, rfl⟩ | ⟨answer, hans, hval, hmat, rfl⟩⟩ :=
    normalizeWith_ok_cases h.usable hit hok
  · apply checkObservation_observation hso h.active h.request h.times (h.entity item hit) hkn
    · exact ⟨by simp, by simp, by simp⟩
    · simp [Status.ok]
    · simp
    · simp
  · obtain ⟨hmem, rfl⟩ := mem_answers.mp (show answer ∈ read.answersTo item by simp [hans])
    have han := wellFormed_of_valid (h.metric _ hit) hval
    have hty : ∀ value ∈ answer.value, valueMatches descriptor value = true := by
      intro value hva
      have hma := hmat (han.value.mp (Option.isSome_of_mem hva))
      rw [Option.mem_def.mp hva] at hma
      exact hma
    apply checkObservation_observation hso h.active h.request h.times (h.entity _ hit) hkn
      han _ hty
    · exact fun value hva =>
        hfi _ hit answer hmem hans hval descriptor hkn value hva (hty value hva)
    · by_cases hst : answer.status = .valid
      · simp [hst]
      · simp [hst, statusFor_success_iff]

theorem Current.acceptable (h : read.Current limits s) (hso : s.CatalogSound)
    (hne : read.batch s ≠ []) (hro : s.HasRoom (read.batch s))
    (hep : s.commitEpoch ≠ uint64Max) (hfi : read.AnswersFit s) :
    s.Acceptable (read.batch s) where
  nonempty := hne
  active := h.active
  topology := h.topology
  epoch := hep
  keys_nodup := normalizeAllWith_keys_nodup h.distinct h.metric
  check := h.check hso hfi
  time o ho e latest he hlatest := by
    obtain ⟨item, hit, hok⟩ := mem_normalizeAllWith.mp ho
    obtain ⟨_, _, _, rfl⟩ := normalizeWith_ok hok
    exact h.clock item hit e latest he hlatest
  room := hro

theorem Current.run_data (h : read.Current limits p.data) (att : Bool)
    (hne : read.batch p.data ≠ []) :
    ((read.normalizeAndCommit limits att).run p).1.data =
      (p.data.commit (read.batch p.data)).1 := by
  have hki : read.job.kind ≠ .heartbeatEvidence := by simp [h.kind]
  have hpl : ¬(exec .catalogGeneration p).2 ≠ read.plan.catalogGeneration :=
    not_not.mpr h.plan.symm
  rw [normalizeAndCommit, if_neg h.items.not_gt, h.bytes, if_neg (by simp), run_call_bind,
    run_neg hpl, run_neg hki]
  exact run_normalizeMetrics_data hne

/-- In every reachable store with room, an item that is answered once, well formed and of the
type of its metric becomes the latest of its key, whatever the other items are, exactly if
none of those that are answered so is too large and there is an epoch left. -/
theorem sibling_isolated {processors : List (Option MetricProcessor)}
    {executor : ProcessorExecutor} {actions : List DataPlane.PlaneAction} {p : DataPlane L}
    (hreachable : (runFrom Pool.act (initial L processors executor)
      (actions.map DataPlane.PlaneAction.inPool)).shared = p)
    (hcurrent : read.Current limits p.data) (hroom : p.data.HasRoom (read.batch p.data))
    {item : ProviderReadItem} (hitem : item ∈ read.request.items)
    {answer : ProviderReadItemResult} (hanswers : read.answersTo item = [answer])
    (hvalid : validProviderItem answer = true) {value : MetricValue}
    (hvalue : answer.value = some value) {descriptor : MetricDescriptor}
    (hknown : p.data.metricDescriptor item.dataId = some descriptor)
    (hmatches : valueMatches descriptor value = true) (metricsAttached : Bool) :
    (∃ e, ((read.normalizeAndCommit limits metricsAttached).run p).1.data.stored? item.dataKey =
        some e ∧
      e.latest = some ((read.observation item descriptor answer .success).stamped
        (p.data.commitEpoch + 1))) ↔
      p.data.commitEpoch ≠ uint64Max ∧ read.AnswersFit p.data := by
  have hread : p.data.ReadInvariant := by
    rw [← hreachable]
    exact shared_readInvariant processors executor actions
  have hmem := hcurrent.mem_batch hitem hanswers hvalid hvalue hknown hmatches
  have hne := List.ne_nil_of_mem hmem
  obtain ⟨hrefused, hdone⟩ := p.data.commit_all_or_nothing (read.batch p.data)
  rw [hcurrent.run_data metricsAttached hne]
  constructor
  · rintro ⟨e, he, hlatest⟩
    -- a refused batch leaves the store as it is, where no sample has the next epoch
    have haccepted : p.data.Acceptable (read.batch p.data) := by
      rw [acceptable_iff]
      intro hfailed
      rw [hrefused hfailed] at he
      have hepoch := ((hread.store _ _ _ he).2.consistent.latest _ hlatest).2.1
      exact absurd hepoch (Nat.not_succ_le_self _)
    refine ⟨haccepted.epoch, ?_⟩
    intro sibling hsibling other _ honce hgood known hdescribed v hv htyped
    have hin := hcurrent.mem_batch hsibling honce hgood hv hdescribed htyped
    exact (accepted_of_check (haccepted.check _ hin)).fits v hv
  · rintro ⟨hepoch, hfits⟩
    have haccepted := hcurrent.acceptable hread.catalog hne hroom hepoch hfits
    exact (hdone (acceptable_iff.mp haccepted)).2.1 _ hmem

end FinishedRead

namespace TwoMetrics

open FinishedRead DataPlane

/-- Values of at most 8 bytes. -/
def smallLimits : Limits := { maxValueBytes := 8, valid := rfl }

/-- Metric 8 is a text. -/
def labelled : TargetCatalog :=
  { target with
    metrics := [descriptor 7 "inlet", { descriptor 8 "label" with valueType := .string }] }

def activating : List PlaneAction :=
  [.start (.activateCatalog (some view) labelled), .step 0, .step 0]

def labelledPlane : DataPlane smallLimits :=
  (runFrom Pool.act
    (initial smallLimits [] { valid := ProcessorExecutorLimits.validate_default })
    (activating.map PlaneAction.inPool)).shared

def inletAnswer : ProviderReadItemResult :=
  { item := item 7, status := .valid, value := some (.uint64 3) }

/-- Both metrics are answered, the second with this text. -/
def labelledRead (label : String) : FinishedRead :=
  { surplusRead with
    request := { catalogGeneration := 1, items := [item 7, item 8] }
    result :=
      { items := [inletAnswer,
              { item := item 8, status := .valid, value := some (.string label) }] } }

theorem labelledRead_current {label : String}
    (hby : bytesExceed {} 0 (labelledRead label).result.items = false) :
    (labelledRead label).Current {} labelledPlane.data := by
  have hgen : labelledPlane.data.catalogGeneration = 1 := by decide +kernel
  have hen : ∀ req ∈ [item 7, item 8], req.entity ∈ labelledPlane.data.catalog.entities := by
    decide +kernel
  have hem : ∀ req ∈ [item 7, item 8], (labelledPlane.data.stored? req.dataKey).isNone = true := by
    decide +kernel
  have hme : ∀ req ∈ [item 7, item 8], req.kind = .metric := by decide
  have hdi : [item 7, item 8].Nodup := by decide
  constructor
  · rfl
  · simp [hgen]
  · exact hgen.symm
  · exact hgen.symm
  · decide +kernel
  · exact hme
  · exact hen
  · exact hdi
  · rfl
  · exact (by decide : 2 ≤ 4096)
  · exact hby
  · exact ⟨le_rfl, (by decide : (0 : ℤ) ≤ 6)⟩
  · intro req hmem e l he
    have hno := hem req hmem
    rw [he] at hno
    cases hno

/-- What is known of metric 7 and its answer, whatever the text. -/
theorem inletAnswer_good (label : String) :
    item 7 ∈ (labelledRead label).request.items ∧
      (labelledRead label).answersTo (item 7) = [inletAnswer] ∧
      validProviderItem inletAnswer = true ∧
      labelledPlane.data.metricDescriptor (item 7).dataId = some (descriptor 7 "inlet") ∧
      valueMatches (descriptor 7 "inlet") (.uint64 3) = true ∧
      valueBytes (.uint64 3) ≤ smallLimits.maxValueBytes :=
  ⟨List.mem_cons_self .., rfl, by decide, by decide +kernel, by decide, by decide⟩

/-- A text of 6 bytes. -/
theorem short_label_committed :
    ∃ e, (((labelledRead "outlet").normalizeAndCommit {} false).run labelledPlane).1.data.stored?
        (item 7).dataKey = some e ∧
      e.latest.any (fun o => decide (o.status = .valid ∧ o.value = some (.uint64 3))) = true := by
  obtain ⟨hitem, hanswers, hvalid, hknown, hmatches, -⟩ := inletAnswer_good "outlet"
  have hbytes : bytesExceed {} 0 (labelledRead "outlet").result.items = false := by decide +kernel
  obtain ⟨e, he, hlatest⟩ := (sibling_isolated rfl (labelledRead_current hbytes)
    (by decide +kernel) hitem hanswers hvalid rfl hknown hmatches false).mpr (by decide +kernel)
  exact ⟨e, he, by rw [hlatest]; rfl⟩

/-- A text of 9 bytes passes the normalizer; the commit refuses the whole batch, and
metric 7 has no latest observation. -/
theorem long_label_refused :
    ∃ p, (runFrom Pool.act (initial smallLimits [] { valid := rfl })
        (activating.map PlaneAction.inPool)).shared = p ∧
      (labelledRead "oversized").Current {} p.data ∧
      p.data.HasRoom ((labelledRead "oversized").batch p.data) ∧
      item 7 ∈ (labelledRead "oversized").request.items ∧
      (labelledRead "oversized").answersTo (item 7) = [inletAnswer] ∧
      validProviderItem inletAnswer = true ∧
      p.data.metricDescriptor (item 7).dataId = some (descriptor 7 "inlet") ∧
      valueMatches (descriptor 7 "inlet") (.uint64 3) = true ∧
      valueBytes (.uint64 3) ≤ smallLimits.maxValueBytes ∧
      (((labelledRead "oversized").normalizeAndCommit {} false).run p).2.status =
        ⟨.invalidArgument, "observation does not match metric contract"⟩ ∧
      ((((labelledRead "oversized").normalizeAndCommit {} false).run p).1.data.stored?
        (item 7).dataKey).isNone = true := by
  obtain ⟨hitem, hanswers, hvalid, hknown, hmatches, hsmall⟩ := inletAnswer_good "oversized"
  exact ⟨labelledPlane, rfl, labelledRead_current (by decide +kernel), by decide +kernel, hitem,
    hanswers, hvalid, hknown, hmatches, hsmall, by decide +kernel, by decide +kernel⟩

end TwoMetrics
end Pdcm
