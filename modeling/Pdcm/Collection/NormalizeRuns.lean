import Pdcm.Collection.NormalizeSpec
import Pdcm.Data.QueryRuns

/-!
# Runs of the normalization

What a run of `normalizeAndCommit` that ends with data has called, whatever the other
threads did between its calls: the catalog generation first, then the descriptors of the
requested metrics, then one commit. An item that the provider answers at most once, well
formed and with a value of the right type is in the committed batch.
-/

namespace Pdcm

open Library List Program DataPlane ProviderReadItemResult

/-- A provider result that normalization commits as it is: no requested item comes twice,
every requested item is well formed and every value has the type of its metric. Requested
items may be missing. -/
structure FinishedRead.Regular (read : FinishedRead)
    (descriptor : MetricId → Option MetricDescriptor) : Prop where
  once : ((read.result.items.map item).filter
    fun item => decide (item ∈ read.request.items)).Nodup
  wellFormed : ∀ item ∈ read.result.items, item.item ∈ read.request.items →
    validProviderItem item = true
  typed : ∀ item ∈ read.result.items, item.item ∈ read.request.items → item.status = .valid →
    ∀ d ∈ descriptor item.item.dataId, item.value.any (valueMatches d) = true

instance (read : FinishedRead) (descriptor : MetricId → Option MetricDescriptor) :
    Decidable (read.Regular descriptor) :=
  decidable_of_iff
    (((read.result.items.map item).filter
        fun item => decide (item ∈ read.request.items)).Nodup ∧
      (∀ item ∈ read.result.items, item.item ∈ read.request.items →
        validProviderItem item = true) ∧
      ∀ item ∈ read.result.items, item.item ∈ read.request.items → item.status = .valid →
        ∀ d ∈ descriptor item.item.dataId, item.value.any (valueMatches d) = true)
    ⟨fun h => ⟨h.1, h.2.1, h.2.2⟩, fun h => ⟨h.once, h.wellFormed, h.typed⟩⟩

namespace FinishedRead

variable {read : FinishedRead} {descriptor : MetricId → Option MetricDescriptor}
  {normalized : List Observation × ℕ} {result : CollectionRunResult} {limits : CollectionLimits}
  {metricsAttached : Bool}

theorem Regular.normalizeWith (h : read.Regular descriptor) {item : ProviderReadItem}
    (hmem : item ∈ read.request.items) (hkn : descriptor item.dataId ≠ none) :
    ¬read.Dropped item ∧ ∃ o, read.normalizeWith (returnedItems read.request read.result)
      (descriptor item.dataId) item = .ok o := by
  obtain ⟨d, hd⟩ := Option.ne_none_iff_exists'.mp hkn
  rw [hd]
  by_cases hus : usableCallStatus read.result.callStatus.code = true
  · match hans : read.answersTo item with
    | [] =>
      exact ⟨by simp [Dropped, hans], _, normalizeWith_unanswered hus hmem hans⟩
    | [answer] =>
      have hin : answer ∈ read.answersTo item := by simp [hans]
      obtain ⟨han, rfl⟩ := mem_answers.mp hin
      have hva := h.wellFormed answer han hmem
      have hke : read.leftOut (some d) answer.item = false := by
        have hty := fun hst => h.typed answer han hmem hst d hd
        simpa [leftOut, hans, hva] using hty
      obtain ⟨_, -, -, -, hok⟩ := normalizeWith_answered hus hmem hans hke
      exact ⟨by simp [Dropped, hans, hva], _, hok⟩
    | first :: second :: rest =>
      have hco := nodup_iff_count_le_one.mp h.once item
      rw [count_filter (by simpa using hmem), count, countP_map] at hco
      have hle : (read.answersTo item).length ≤ 1 := by
        rw [answersTo, answers, ← countP_eq_length_filter]
        exact hco
      simp [hans] at hle
  · exact ⟨fun hdr => hus hdr.1, _, normalizeWith_failed _ (by simpa using hus)⟩

/-! ### The calls of a run -/

variable {L : Limits}

/-- Every descriptor that was looked up in the trace is that of `descriptor`. -/
def LooksUp (descriptor : MetricId → Option MetricDescriptor)
    (τ : List (Event (interface L))) : Prop :=
  ∀ metric p, (⟨.metricDescriptor metric, p⟩ : Event (interface L)) ∈ τ →
    p.data.metricDescriptor metric = descriptor metric

variable {τ : List (Event (interface L))}

/-- Every observation is the outcome of an item, and every item that is not dropped has its
outcome in the batch. -/
theorem normalizeItems_outcomes {reqs : List ProviderReadItem}
    (hsub : reqs ⊆ read.request.items)
    (hrun : (read.normalizeItems (returnedItems read.request read.result) reqs).Reaches τ
      (.done normalized)) :
    (∀ o ∈ normalized.1, ∃ known item,
      read.normalizeWith (returnedItems read.request read.result) known item = .ok o) ∧
    ∀ item ∈ reqs, read.Dropped item ∨
      ∃ p : DataPlane L, ⟨.metricDescriptor item.dataId, p⟩ ∈ τ ∧
        ∀ o, read.normalizeWith (returnedItems read.request read.result)
          (p.data.metricDescriptor item.dataId) item = .ok o → o ∈ normalized.1 := by
  induction reqs generalizing τ normalized with
  | nil =>
    obtain ⟨-, rfl⟩ := reaches_pure hrun
    simp
  | cons req rest ih =>
    obtain ⟨first, τ₁, _, hfi, hot, rfl⟩ := reaches_bind hrun
    obtain ⟨others, τ₂, τ₃, hre, hla, rfl⟩ := reaches_bind hot
    obtain ⟨hmem, hsub⟩ := cons_subset.mp hsub
    obtain ⟨known, rfl, hlo⟩ := normalizeItem_reaches hmem hfi
    obtain ⟨hfr, hin⟩ := ih hsub hre
    have hba : ∀ o, o ∈ normalized.1 ↔
        read.normalizeWith (returnedItems read.request read.result) known req = .ok o ∨
          o ∈ others.1 := by
      intro o
      cases hout : read.normalizeWith (returnedItems read.request read.result) known req with
      | error viol =>
        rw [hout] at hla
        obtain ⟨-, rfl⟩ := reaches_pure hla
        simp
      | ok observation =>
        rw [hout] at hla
        obtain ⟨-, rfl⟩ := reaches_pure hla
        simp [eq_comm]
    constructor
    · intro o ho
      rcases (hba o).mp ho with hok | ho
      · exact ⟨known, req, hok⟩
      · exact hfr o ho
    · intro item hit
      rcases mem_cons.mp hit with rfl | hit
      · rcases hlo with ⟨hdr, -⟩ | ⟨p, rfl, rfl⟩
        · exact .inl hdr
        · exact .inr ⟨p, mem_append_left _ (mem_singleton_self _), fun o hok =>
            (hba o).mpr (.inl hok)⟩
      · refine (hin item hit).imp_right ?_
        rintro ⟨p, hp, hok⟩
        exact ⟨p, mem_append_right _ (mem_append_left _ hp), fun o ho =>
          (hba o).mpr (.inr (hok o ho))⟩

theorem Regular.normalizeItems (h : read.Regular descriptor)
    (hrun : (read.normalizeItems (returnedItems read.request read.result)
      read.request.items).Reaches τ (.done normalized)) (hlo : LooksUp descriptor τ)
    {req : ProviderReadItem} (hmem : req ∈ read.request.items)
    (hkn : descriptor req.dataId ≠ none) :
    ∃ o ∈ normalized.1, o.key = req.dataKey := by
  obtain ⟨hke, o, hok⟩ := h.normalizeWith hmem hkn
  obtain ⟨p, hp, hin⟩ :=
    ((normalizeItems_outcomes (.refl _) hrun).2 req hmem).resolve_left hke
  rw [hlo _ p hp] at hin
  exact ⟨o, hin o hok, normalizeWith_key hok⟩

/-- What a run does with its batch: an empty one is dropped, any other handed to `commit`,
and the events of the commit are published. -/
inductive HandsOver : List Observation → List (Event (interface L)) → Prop
  | nothing : HandsOver [] []
  | batch {observations : List Observation} (hbatch : observations ≠ []) (committed : DataPlane L)
      {published : List (Event (interface L))}
      (hpublished : ∀ e ∈ published, ∃ draft, e.call = .publishEvent draft) :
      HandsOver observations (⟨.commit observations, committed⟩ :: published)

theorem usableCallStatus_eq_isReadableStatus (status : Status) :
    usableCallStatus status.code = isReadableStatus status := by
  rw [Bool.eq_iff_iff, isReadableStatus_iff]
  simp [usableCallStatus]

theorem publishAll_reaches {drafts : List EventDraft}
    (hrun : (publishAll drafts).Reaches τ (.done ())) :
    ∀ e ∈ τ, ∃ draft, e.call = .publishEvent draft := by
  induction drafts generalizing τ with
  | nil =>
    obtain ⟨rfl, -⟩ := reaches_pure hrun
    simp
  | cons draft rest ih =>
    obtain ⟨p, after, hre, rfl⟩ := reaches_call hrun
    intro e he
    rcases mem_cons.mp he with rfl | he
    · exact ⟨draft, rfl⟩
    · exact ih hre e he

theorem normalizeMetrics_reaches {items : ReturnedItems}
    (hrun : (read.normalizeMetrics items).Reaches τ (.done result)) :
    ∃ lookups rest obs viol, τ = lookups ++ rest ∧
      (read.normalizeItems items read.request.items).Reaches lookups (.done (obs, viol)) ∧
      HandsOver obs rest ∧
      result.contractViolations = items.contractViolations + viol ∧
      (isReadableStatus result.status = true → ∃ comm pub,
        rest = ⟨.commit obs, comm⟩ :: pub ∧
        ¬DataManager.Failure (comm.data.commitLocked obs).2.1.status) := by
  obtain ⟨⟨obs, viol⟩, lookups, rest, hit, hre, rfl⟩ :=
    reaches_bind hrun
  refine ⟨lookups, rest, obs, viol, rfl, hit, ?_⟩
  split_ifs at hre with hem
  · obtain ⟨rfl, rfl⟩ := reaches_pure hre
    subst hem
    exact ⟨.nothing, rfl, nofun⟩
  · obtain ⟨answer, b, after, hcom, hla, rfl⟩ := reaches_bind hre
    obtain ⟨comm, pub, hpub, rfl⟩ := reaches_call hcom
    obtain ⟨_, drafts, _, hdr, han, rfl⟩ := reaches_bind hpub
    obtain ⟨rfl, hdo⟩ := reaches_pure han
    have hha : HandsOver obs (⟨.commit obs, comm⟩ :: drafts) :=
      .batch hem comm (publishAll_reaches hdr)
    rw [append_nil]
    split_ifs at hla with hco
    · obtain ⟨rfl, rfl⟩ := reaches_pure hla
      rw [append_nil]
      refine ⟨hha, rfl, fun _ => ⟨comm, drafts, rfl, ?_⟩⟩
      rintro ⟨hsu, hpa⟩
      rw [usableCallStatus_eq_isReadableStatus, isReadableStatus_iff, hdo] at hco
      exact hco.elim hsu hpa
    · obtain ⟨rfl, rfl⟩ := reaches_pure hla
      rw [append_nil]
      rw [usableCallStatus_eq_isReadableStatus] at hco
      exact ⟨hha, rfl, fun hrea => absurd hrea hco⟩

/-- What the run of a metric job has seen and committed if it ends with data. -/
structure CommittedRun (read : FinishedRead) (checked committed : DataPlane L)
    (lookups : List (Event (interface L))) (observations : List Observation) :
    Prop where
  plan : checked.data.catalog.generation = read.plan.catalogGeneration
  normalized : ∃ violations,
    (read.normalizeItems (returnedItems read.request read.result) read.request.items).Reaches
      lookups (.done (observations, violations))
  accepted : ¬DataManager.Failure (committed.data.commitLocked observations).2.1.status

/-- The two ends of a run whose result passes the size limits: it is found to be of an old
catalog, or it is normalized. -/
theorem normalizeAndCommit_reaches
    (hrun : (read.normalizeAndCommit limits metricsAttached).Reaches τ (.done result))
    (hki : read.job.kind = .metric) (hit : read.result.items.length ≤ limits.maxResultItems)
    (hby : bytesExceed limits 0 read.result.items = false) :
    ∃ checked after, τ = ⟨.catalogGeneration, checked⟩ :: after ∧
      (checked.data.catalogGeneration ≠ read.plan.catalogGeneration ∧ after = [] ∧
          result.status.code = .staleGeneration ∨
        checked.data.catalogGeneration = read.plan.catalogGeneration ∧
          (read.normalizeMetrics (returnedItems read.request read.result)).Reaches after
            (.done result)) := by
  have hme : read.job.kind ≠ .heartbeatEvidence := by simp [hki]
  rw [normalizeAndCommit, if_neg hit.not_gt, hby] at hrun
  obtain ⟨checked, after, hre, rfl⟩ := reaches_call hrun
  refine ⟨checked, after, rfl, ?_⟩
  split_ifs at hre with hpl
  · obtain ⟨rfl, rfl⟩ := reaches_pure hre
    exact .inl ⟨hpl, rfl, rfl⟩
  · exact .inr ⟨not_not.mp hpl, hre⟩

theorem normalizeAndCommit_run
    (hrun : (read.normalizeAndCommit limits metricsAttached).Reaches τ (.done result))
    (hre : isReadableStatus result.status = true) (hki : read.job.kind = .metric) :
    ∃ checked lookups comm pub observations, τ = ⟨.catalogGeneration, checked⟩ ::
        (lookups ++ ⟨.commit observations, comm⟩ :: pub) ∧
      read.CommittedRun checked comm lookups observations := by
  have hsi : read.result.items.length ≤ limits.maxResultItems ∧
      bytesExceed limits 0 read.result.items = false := by
    unfold normalizeAndCommit at hrun
    constructor
    · by_contra hit
      rw [if_pos (not_le.mp hit)] at hrun
      obtain ⟨-, rfl⟩ := reaches_pure hrun
      cases hre
    · by_contra hbytes
      rw [Bool.not_eq_false] at hbytes
      split_ifs at hrun
      · obtain ⟨-, rfl⟩ := reaches_pure hrun
        cases hre
      · obtain ⟨-, rfl⟩ := reaches_pure hrun
        cases hre
  obtain ⟨checked, after, rfl, ⟨-, -, hst⟩ | ⟨hpl, hres⟩⟩ :=
    normalizeAndCommit_reaches hrun hki hsi.1 hsi.2
  · rw [isReadableStatus_iff, hst] at hre
    rcases hre with h | h <;> cases h
  · obtain ⟨lookups, _, observations, viol, rfl, hit, -, -, hda⟩ :=
      normalizeMetrics_reaches hres
    obtain ⟨comm, pub, rfl, hacc⟩ := hda hre
    exact ⟨checked, lookups, comm, pub, observations, rfl, hpl, ⟨viol, hit⟩, hacc⟩

/-! ### The specification of a run -/

/-- A metric read within the size limits is found to be of an old catalog, or its batch and
its violations are what the answers to each item and the lookups say. -/
theorem normalizeAndCommit_normalized {limits : CollectionLimits} {metricsAttached : Bool}
    {τ : List (Event (interface L))} {result : CollectionRunResult}
    (hrun : (read.normalizeAndCommit limits metricsAttached).Reaches τ (.done result))
    (hkind : read.job.kind = .metric)
    (hmetric : ∀ item ∈ read.request.items, item.kind = .metric)
    (hdistinct : read.request.items.Nodup)
    (hitems : read.result.items.length ≤ limits.maxResultItems)
    (hbytes : bytesExceed limits 0 read.result.items = false) :
    ∃ checked after, τ = ⟨.catalogGeneration, checked⟩ :: after ∧
      (checked.data.catalogGeneration ≠ read.plan.catalogGeneration ∧ after = [] ∧
          result.status.code = .staleGeneration ∨
        checked.data.catalogGeneration = read.plan.catalogGeneration ∧
          ∃ known batch lookups rest, after = lookups ++ rest ∧
            read.LookedUp known read.request.items lookups ∧ HandsOver batch rest ∧
            read.Normalized known batch result.contractViolations) := by
  obtain ⟨checked, after, rfl, hstale | ⟨hplan, hrest⟩⟩ :=
    normalizeAndCommit_reaches hrun hkind hitems hbytes
  · exact ⟨checked, after, rfl, .inl hstale⟩
  · obtain ⟨lookups, rest, batch, violations, rfl, hloop, hhanded, hcount, -⟩ :=
      normalizeMetrics_reaches hrest
    obtain ⟨known, hlookups, hnormalized⟩ :=
      normalizeItems_reaches hdistinct (.refl _) hloop
    rw [hcount]
    exact ⟨checked, _, rfl, .inr ⟨hplan, known, batch, lookups, rest, rfl, hlookups, hhanded,
      normalizeAllWith_normalized hmetric hdistinct hnormalized⟩⟩

end FinishedRead

namespace TwoMetrics

open FinishedRead

/-- The catalog is active and nothing stored. -/
def plane : DataPlane limits where
  metrics :=
    { data := ((DataManager.initial limits).activateCatalog (some view) target).1
      processors := [] }
  executor := { valid := rfl }

def item (id : ℕ) : ProviderReadItem := ⟨device, .metric, id⟩

/-- Metric 7 is answered, metric 8 is not, metric 9 is unknown and metric 10 not requested. -/
def surplusRead : FinishedRead where
  plan := { catalogGeneration := 1 }
  job := {}
  request := { catalogGeneration := 1, items := [item 7, item 8, item 9] }
  result :=
    { items := [{ item := item 7, status := .valid, value := some (.uint64 3) },
        { item := item 10 }] }
  observedTime := 6
  wallTime := 6
  evaluationTime := 6

theorem surplusRead_normalized :
    ∃ τ result known batch lookups rest,
      (surplusRead.normalizeAndCommit {} false).Reaches τ (.done result) ∧
      τ = ⟨.catalogGeneration, plane⟩ :: (lookups ++ rest) ∧
      surplusRead.LookedUp known surplusRead.request.items lookups ∧ HandsOver batch rest ∧
      result.contractViolations = 2 ∧ surplusRead.Normalized known batch 2 := by
  have hrun := (surplusRead.normalizeAndCommit {} false).reaches_trace plane
  have hviolations :
      ((surplusRead.normalizeAndCommit {} false).run plane).2.contractViolations = 2 := by
    decide +kernel
  have hplan : plane.data.catalogGeneration = surplusRead.plan.catalogGeneration := by
    decide +kernel
  obtain ⟨checked, after, hτ, hend⟩ := normalizeAndCommit_normalized hrun rfl (by decide)
    (by decide) (by decide) (by decide)
  obtain ⟨rfl, rfl⟩ : plane = checked ∧ _ = after := by
    have hcons := List.cons.inj hτ
    exact ⟨congrArg Event.state hcons.1, hcons.2⟩
  rcases hend with ⟨hstale, -⟩ | ⟨-, known, batch, lookups, rest, hafter, hlookups, hhanded, hspec⟩
  · exact absurd hplan hstale
  · exact ⟨_, _, known, batch, lookups, rest, hrun, hτ.trans (by rw [hafter]), hlookups, hhanded,
      hviolations, hspec⟩

end TwoMetrics
end Pdcm
