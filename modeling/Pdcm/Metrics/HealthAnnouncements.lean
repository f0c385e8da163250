import Pdcm.Metrics.HealthHistory

/-!
# Announcing the loss of a health state

Within a catalog generation every change of the stored health state is published as an
event. A catalog activation clears the stored health, also that of a device which is in
both catalogs, and the UNKNOWN result stored next has nothing left to differ from.
-/

namespace Pdcm

open Library List EventStore DataManager

/-- What happened to stored health: a call stored a result and published events, or a
catalog with these entities was activated. -/
inductive HealthRecord where
  | stored (result : HealthResult) (events : List PdcmEvent)
  | activated (entities : List EntityRef)
  deriving DecidableEq

/-- The health state a health event announces. -/
def EventPayload.announcedState? : EventPayload → Option HealthState
  | .healthChange change => some change.state
  | _ => none

namespace DataManager

variable {L : Limits} {s t : DataManager L} {r : HealthResult}

/-- The health results in the store after a call that were not there before. A call that
stores a result equal to the stored one is not told apart from one that stores nothing. -/
def newHealth (s t : DataManager L) : List HealthResult :=
  (t.health.entries.filter fun b => decide (s.health.find? b.1 ≠ some b.2)).map Prod.snd

/-- The stored events with a sequence number that a call has taken. -/
def newEvents (s t : DataManager L) : List PdcmEvent :=
  t.eventStore.events.filter fun e => decide (s.eventStore.nextSequence ≤ e.sequence)

def healthRecords (s t : DataManager L) : List HealthRecord :=
  (s.newHealth t).map (fun r => .stored r (s.newEvents t)) ++
    if s.catalog.generation < t.catalog.generation then [.activated t.catalog.entities] else []

/-- The size of the event that announces a health result. -/
def healthEventBytes (r : HealthResult) : ℕ :=
  sizeofPdcmEvent + payloadBytes (.healthChange { evidence := r.evidence })

theorem mem_newHealth :
    r ∈ s.newHealth t ↔
      ∃ ent, t.health.find? ent = some r ∧ s.health.find? ent ≠ some r := by
  simp only [newHealth, mem_map, mem_filter, decide_eq_true_eq]
  constructor
  · rintro ⟨⟨ent, r⟩, ⟨hmem, hnew⟩, rfl⟩
    exact ⟨ent, OrderedMap.mem_entries_iff.mp hmem, hnew⟩
  · rintro ⟨ent, hfi, hnew⟩
    exact ⟨(ent, r), ⟨OrderedMap.mem_entries_iff.mpr hfi, hnew⟩, rfl⟩

theorem newHealth_eq_nil (h : ∀ ent r, t.health.find? ent = some r → s.health.find? ent = some r) :
    s.newHealth t = [] := by
  refine eq_nil_iff_forall_not_mem.mpr fun r hr => ?_
  obtain ⟨ent, hfi, hnew⟩ := mem_newHealth.mp hr
  exact hnew (h ent r hfi)

/-! ### What a call does to the stored health -/

/-- Everything a call can do to the stored health. -/
inductive HealthEffect (s : DataManager L) : DataManager L → Prop
  | kept {t : DataManager L} (catalog : t.catalog = s.catalog) (health : t.health = s.health) :
      HealthEffect s t
  | cleared {t : DataManager L} (newer : s.catalog.generation < t.catalog.generation)
      (health : t.health = .empty) : HealthEffect s t
  | stored {r : HealthResult} (accepted : s.checkHealth r = none) :
      HealthEffect s (s.commitHealth r).1

theorem commitHealth_of_accepted (h : s.checkHealth r = none) :
    (s.commitHealth r).1 = (s.withHealth r).publishAll
      (if s.healthChanges r then [s.healthChangeDraft r] else []) := by
  simp only [commitHealth, commitHealthLocked, h]

theorem commitHealth_find? (h : s.checkHealth r = none) (entity : EntityRef) :
    (s.commitHealth r).1.health.find? entity =
      if entity = r.entity then some r else s.health.find? entity := by
  rw [commitHealth_of_accepted h]
  simp [withHealth, OrderedMap.find?_insert]

theorem commitHealth_healthEffect (s : DataManager L) (r : HealthResult) :
    s.HealthEffect (s.commitHealth r).1 := by
  cases hch : s.checkHealth r with
  | none => exact .stored hch
  | some st =>
    have hsa : (s.commitHealth r).1 = s := by
      simp only [commitHealth, commitHealthLocked, hch]
      rfl
    rw [hsa]
    exact .kept rfl rfl

theorem apply_healthEffect (s : DataManager L) (op : DataOp) : s.HealthEffect (s.apply op) := by
  by_cases hop : ∀ r, op ≠ .commitHealth r
  · rcases s.apply_health hop with ⟨hcat, hhe⟩ | ⟨hlt, hhe⟩
    · exact .kept hcat hhe
    · exact .cleared hlt hhe
  · push Not at hop
    obtain ⟨r, rfl⟩ := hop
    exact s.commitHealth_healthEffect r

/-- A call stores at most one result, and every other stored result was there before. -/
theorem HealthEffect.newHealth (h : s.HealthEffect t) (hr : r ∈ s.newHealth t) :
    s.checkHealth r = none ∧ t = (s.commitHealth r).1 := by
  obtain ⟨ent, hfi, hnew⟩ := mem_newHealth.mp hr
  cases h with
  | kept hcat hhe => exact absurd (hhe ▸ hfi) hnew
  | cleared hlt hhe => simp [hhe] at hfi
  | @stored comm hacc =>
    rw [commitHealth_find? hacc] at hfi
    split_ifs at hfi with hen
    · cases hfi
      exact ⟨hacc, rfl⟩
    · exact absurd hfi hnew

/-! ### The event of a stored result -/

/-- The event store has the configured limits, and its byte counter is right. -/
def EventsAccounted (s : DataManager L) : Prop :=
  s.eventStore.limits = ⟨L.maxEvents, L.maxEventBytes⟩ ∧ s.eventStore.Accounted

theorem DataStep.eventsAccounted (hst : DataStep s t) (h : s.EventsAccounted) :
    t.EventsAccounted := by
  obtain ⟨op, hout⟩ := hst.outcome
  cases hout with
  | unchanged => exact h
  | activated => exact h
  | committed => exact h
  | evidence => exact h
  | health => exact h
  | published draft =>
    refine ⟨?_, publish_accounted h.2 draft⟩
    rcases s.eventStore.publish_cases draft with ⟨-, -, hli, -⟩ | ⟨e, -, -, -, -, hli, -⟩
    · exact hli.trans h.1
    · exact hli.trans h.1

theorem healthChangeDraft_formed (h : (validateHealthResult r).ok = true) :
    draftMalformed (s.healthChangeDraft r) = false := by
  have hid : ¬(r.entity.kind ≠ .device ∨ r.entity.generation = 0 ∨
      r.subsystemId ≠ firmwareHeartbeatHealthId ∨ r.catalogGeneration = 0 ∨
      r.evaluatedMonotonicTimeNs < 0 ∨ r.evidenceAgeNs < 0) := by
    intro hbad
    rw [validateHealthResult, if_pos hbad] at h
    exact absurd h (by decide)
  push Not at hid
  simp [draftMalformed, healthChangeDraft, hid.2.2.1, hid.2.2.2.1, hid.2.2.2.2.1]

/-- A stored result that differs from the one before is announced, if its event fits. -/
theorem mem_newEvents_of_healthChanges (h : s.EventsAccounted) (hacc : s.checkHealth r = none)
    (hch : s.healthChanges r = true) (hseq : s.eventStore.nextSequence ≠ uint64Max)
    (hfi : healthEventBytes r ≤ L.maxEventBytes) :
    ∃ e ∈ s.newEvents (s.commitHealth r).1, e.toEventDraft = s.healthChangeDraft r := by
  have hro : 0 < s.eventStore.limits.maxEvents := by
    have hli := L.not_invalid
    rw [h.1]
    dsimp only
    omega
  have hfo : draftMalformed (s.healthChangeDraft r) = false :=
    healthChangeDraft_formed (healthAccepted_of_check hacc).valid
  let event : PdcmEvent := { s.healthChangeDraft r with
    bootEpoch := s.eventStore.bootEpoch, sequence := s.eventStore.nextSequence }
  have hsi : eventBytes event ≤ s.eventStore.limits.maxBytes := by
    rw [h.1]
    exact hfi
  refine ⟨event, ?_, rfl⟩
  rw [commitHealth_of_accepted hacc, if_pos hch]
  refine mem_filter.mpr ⟨?_, by simp [event]⟩
  change event ∈ (s.eventStore.publish _).1.events
  unfold EventStore.publish
  rw [if_neg (by simp [hfo]), if_neg hseq, if_neg (not_lt.mpr hsi), h.2,
    ← EventStore.totalBytes_append]
  exact EventStore.mem_trim_append hro hsi s.eventStore.events

end DataManager

/-! ### The journal of a run -/

/-- A metrics manager with what happened to stored health so far, newest first. -/
structure HealthJournal (L : Limits) where
  manager : MetricsManager L
  records : List HealthRecord

namespace HealthJournal

variable {L : Limits} {s t : DataManager L}

def step (t : HealthJournal L) (op : MetricsOp) : HealthJournal L where
  manager := t.manager.apply op
  records := t.manager.data.healthRecords (t.manager.apply op).data ++ t.records

def initial (L : Limits) (processors : List (Option MetricProcessor)) : HealthJournal L :=
  ⟨MetricsManager.initial L processors, []⟩

/-- The last stored health of an entity, while every catalog activated since has it. -/
def lastStored (entity : EntityRef) : List HealthRecord → Option HealthResult
  | [] => none
  | .stored r _ :: earlier => if r.entity = entity then some r else lastStored entity earlier
  | .activated entities :: earlier => if entity ∈ entities then lastStored entity earlier else none

/-- When a call stores UNKNOWN for an entity whose last stored health was determinate, an
event of the call announces UNKNOWN for the entity. -/
def AnnouncesLoss (t : HealthJournal L) (op : MetricsOp) : Prop :=
  ∀ new ∈ t.manager.data.newHealth (t.manager.apply op).data,
    ∀ old ∈ lastStored new.entity t.records, old.state ≠ .unknown → new.state = .unknown →
      ∃ e ∈ t.manager.data.newEvents (t.manager.apply op).data,
        e.type = .firmwareHeartbeatHealthChanged ∧ e.entity = some new.entity ∧
          e.payload.announcedState? = some .unknown

/-- The event of every result that the call stores fits the event store. -/
def EventsFit (t : HealthJournal L) (op : MetricsOp) : Prop :=
  ∀ new ∈ t.manager.data.newHealth (t.manager.apply op).data,
    t.manager.data.eventStore.nextSequence ≠ uint64Max ∧
      healthEventBytes new ≤ L.maxEventBytes

/-- No catalog was activated between a determinate result and the UNKNOWN stored next. -/
def SameCatalog (t : HealthJournal L) (op : MetricsOp) : Prop :=
  ∀ new ∈ t.manager.data.newHealth (t.manager.apply op).data,
    ∀ old ∈ lastStored new.entity t.records, old.state ≠ .unknown → new.state = .unknown →
      old.catalogGeneration = new.catalogGeneration

instance (t : HealthJournal L) (op : MetricsOp) : Decidable (t.AnnouncesLoss op) :=
  inferInstanceAs (Decidable (∀ new ∈ _, ∀ old ∈ _, _))

instance (t : HealthJournal L) (op : MetricsOp) : Decidable (t.EventsFit op) :=
  inferInstanceAs (Decidable (∀ new ∈ _, _))

instance (t : HealthJournal L) (op : MetricsOp) : Decidable (t.SameCatalog op) :=
  inferInstanceAs (Decidable (∀ new ∈ _, ∀ old ∈ _, _))

/-- What ties the journal to the store. -/
structure JournalInvariant (t : HealthJournal L) : Prop where
  store : t.manager.data.EvidenceInvariant
  events : t.manager.data.EventsAccounted
  past : ∀ entity old, lastStored entity t.records = some old →
    old.catalogGeneration ≤ t.manager.data.catalog.generation
  current : ∀ entity old, lastStored entity t.records = some old →
    old.catalogGeneration = t.manager.data.catalog.generation →
      t.manager.data.health.find? entity = some old

theorem apply_healthEffect (m : MetricsManager L) (op : MetricsOp) :
    m.data.HealthEffect (m.apply op).data := by
  by_cases hdi : ∀ d, op ≠ .data d
  · have hst := m.apply_data hdi
    generalize (m.apply op).data = t at hst
    cases hst with
    | unchanged => exact .kept rfl rfl
    | committed => exact m.data.commitHealth_healthEffect _
  · push Not at hdi
    obtain ⟨d, rfl⟩ := hdi
    exact m.data.apply_healthEffect d

theorem announcesLoss_of_sameCatalog (t : HealthJournal L) (op : MetricsOp)
    (h : t.JournalInvariant) (hop : t.EventsFit op ∧ t.SameCatalog op) : t.AnnouncesLoss op := by
  intro new hnew old hla hold hun
  have hgen := hop.2 new hnew old hla hold hun
  obtain ⟨hseq, hfi⟩ := hop.1 new hnew
  obtain ⟨hacc, haf⟩ := (apply_healthEffect t.manager op).newHealth hnew
  have hst := h.current new.entity old hla
    (hgen.trans (healthAccepted_of_check hacc).generation)
  have hch : t.manager.data.healthChanges new = true := by
    have hdi : ¬old.state = new.state := fun heq => hold (heq.trans hun)
    simp [healthChanges, hst, sameHealthState, hdi]
  obtain ⟨e, hmem, hdr⟩ := mem_newEvents_of_healthChanges h.events hacc hch hseq hfi
  rw [haf]
  refine ⟨e, hmem, ?_⟩
  rw [hdr]
  exact ⟨rfl, rfl, congrArg some hun⟩

/-- Records of one result, however many, make it the last stored one of its entity. -/
theorem lastStored_append_stored {r : HealthResult} {rs : List HealthResult}
    (hsa : ∀ x ∈ rs, x = r) (events : List PdcmEvent) (ent : EntityRef)
    (records : List HealthRecord) :
    lastStored ent (rs.map (fun x => .stored x events) ++ records) =
      if r ∈ rs ∧ r.entity = ent then some r else lastStored ent records := by
  induction rs with
  | nil => simp
  | cons x rest ih =>
    obtain rfl : x = r := hsa x (by simp)
    have hre := ih fun y hy => hsa y (by simp [hy])
    simp only [map_cons, cons_append, lastStored, hre]
    by_cases hen : x.entity = ent <;> simp [hen]

theorem healthRecords_of_catalog_eq (h : t.catalog = s.catalog) :
    s.healthRecords t = (s.newHealth t).map fun r => .stored r (s.newEvents t) := by
  simp [healthRecords, h]

/-- The last stored health after a call: this call stored it, or it was the last one before
and the call switched to a newer catalog or kept what was stored for the entity. -/
theorem lastStored_cases (h : s.HealthEffect t) {ent : EntityRef} {old : HealthResult}
    {records : List HealthRecord}
    (hold : lastStored ent (s.healthRecords t ++ records) = some old) :
    (old.catalogGeneration = t.catalog.generation ∧ t.health.find? ent = some old) ∨
      (lastStored ent records = some old ∧
        (s.catalog.generation < t.catalog.generation ∨
          t.catalog = s.catalog ∧
            (s.health.find? ent = some old → t.health.find? ent = some old))) := by
  cases h with
  | kept hcat hhe =>
    have hno : s.newHealth t = [] := newHealth_eq_nil fun _ _ hr => hhe ▸ hr
    rw [healthRecords_of_catalog_eq hcat, hno] at hold
    exact .inr ⟨hold, .inr ⟨hcat, fun hfi => hhe ▸ hfi⟩⟩
  | cleared hlt hhe =>
    have hno : s.newHealth t = [] :=
      newHealth_eq_nil fun _ _ hr => by simp [hhe] at hr
    simp only [healthRecords, hno, map_nil, nil_append, if_pos hlt,
      singleton_append, lastStored] at hold
    split_ifs at hold
    exact .inr ⟨hold, .inl hlt⟩
  | @stored r hacc =>
    have hcat : (s.commitHealth r).1.catalog = s.catalog := by
      simp [commitHealth_of_accepted hacc, withHealth]
    have hfi := commitHealth_find? hacc
    have hsa : ∀ x ∈ s.newHealth (s.commitHealth r).1, x = r := by
      intro x hx
      obtain ⟨other, hot, hdi⟩ := mem_newHealth.mp hx
      rw [hfi] at hot
      split_ifs at hot
      · exact (Option.some.inj hot).symm
      · exact absurd hot hdi
    rw [healthRecords_of_catalog_eq hcat, lastStored_append_stored hsa] at hold
    split_ifs at hold with hrec
    · obtain rfl := Option.some.inj hold
      have hgen := (healthAccepted_of_check hacc).generation
      exact .inl ⟨by rw [hcat, hgen], by rw [hfi, if_pos hrec.2.symm]⟩
    · refine .inr ⟨hold, .inr ⟨hcat, fun hbe => ?_⟩⟩
      rw [hfi]
      split_ifs with hen
      · -- the result was stored already, or it would have been recorded
        by_contra hdi
        refine hrec ⟨mem_newHealth.mpr ⟨ent, ?_, ?_⟩, hen.symm⟩
        · rw [hfi, if_pos hen]
        · rw [hbe]
          exact fun heq => hdi heq.symm
      · exact hbe

theorem step_journalInvariant (t : HealthJournal L) (op : MetricsOp) (h : t.JournalInvariant) :
    (t.step op).JournalInvariant := by
  have hef := apply_healthEffect t.manager op
  refine
    { store := t.manager.apply_evidenceInvariant op h.store
      events := t.manager.invariant_data (fun _ _ hst h => hst.eventsAccounted h) op h.events
      past := ?_
      current := ?_ }
  · intro ent old hold
    rcases lastStored_cases hef hold with ⟨hgen, -⟩ | ⟨hbe, hlt | ⟨hcat, -⟩⟩
    · exact hgen.le
    · exact (h.past ent old hbe).trans hlt.le
    · exact (h.past ent old hbe).trans_eq (congrArg CatalogState.generation hcat.symm)
  · intro ent old hold hgen
    rcases lastStored_cases hef hold with ⟨-, hfi⟩ | ⟨hbe, hlt | ⟨hcat, hke⟩⟩
    · exact hfi
    · exact absurd hgen ((h.past ent old hbe).trans_lt hlt).ne
    · refine hke (h.current ent old hbe (hgen.trans ?_))
      exact congrArg CatalogState.generation hcat

theorem initial_journalInvariant (L : Limits) (ps : List (Option MetricProcessor)) :
    (initial L ps).JournalInvariant := by
  refine ⟨initial_evidenceInvariant L, ⟨rfl, rfl⟩, ?_, ?_⟩
  · intro ent old hold
    cases hold
  · intro ent old hold
    cases hold

/-- In every run whose health events fit, a loss within one catalog is announced. -/
theorem run_announcesLoss (L : Limits) (processors : List (Option MetricProcessor))
    (ops : List MetricsOp) (hfit : Along step EventsFit (initial L processors) ops)
    (hcatalog : Along step SameCatalog (initial L processors) ops) :
    Along step AnnouncesLoss (initial L processors) ops :=
  law_along (fun t op h _ => step_journalInvariant t op h) announcesLoss_of_sameCatalog
    (initial_journalInvariant L processors) (hfit.and hcatalog)

section Concrete

open OneDevice MetricsManager

/-- The device of a healthy catalog is also in the next catalog. -/
def switchedRun : List MetricsOp :=
  healthyRun ++
    [.data (.activateCatalog (some (view 2)) target), .activateCatalog (some (view 2)) target 1]

/-- The provider of a healthy device is lost. -/
def lossRun : List MetricsOp := healthyRun ++ [.onProviderStateChanged .unavailable 1]

theorem run_announcesLoss_lossRun :
    (runFrom step (initial limits []) lossRun).records.length = 4 ∧
      Along step AnnouncesLoss (initial limits []) lossRun :=
  ⟨by decide +kernel, run_announcesLoss limits [] lossRun (by decide +kernel) (by decide +kernel)⟩

/-- HEALTHY of generation 1 is replaced by UNKNOWN of generation 2 without an event. -/
theorem switchedRun_silent :
    Along step EventsFit (initial limits []) switchedRun ∧
      ¬Along step AnnouncesLoss (initial limits []) switchedRun := by
  decide +kernel

end Concrete

end HealthJournal

/-! ### The events of health changes -/

/-- A data manager with the events that its `commitHealth` calls published. -/
structure HealthEventLog (L : Limits) where
  data : DataManager L
  published : List PdcmEvent := []

namespace HealthEventLog

variable {L : Limits} {t : HealthEventLog L} {op : DataOp} {r : HealthResult} {entity : EntityRef}
  (s : DataManager L)

/-- What `publish` returns to a call of `commitHealth`. -/
def events (s : DataManager L) : DataOp → List PdcmEvent
  | .commitHealth r =>
    (s.commitHealthLocked r).2.2.filterMap fun draft => (s.eventStore.publish draft).2.event
  | _ => []

def step (t : HealthEventLog L) (op : DataOp) : HealthEventLog L :=
  ⟨t.data.apply op, t.published ++ events t.data op⟩

/-- The published events about an entity. -/
def about (t : HealthEventLog L) (entity : EntityRef) : List PdcmEvent :=
  t.published.filter fun e => decide (e.entity = some entity)

/-- The call activates no other catalog. -/
def InGeneration (t : HealthEventLog L) (op : DataOp) : Prop :=
  (t.data.apply op).catalog.generation = t.data.catalog.generation

/-- The event of a health result fits the event store. -/
def Fits (t : HealthEventLog L) : DataOp → Prop
  | .commitHealth r => t.data.eventStore.nextSequence ≠ uint64Max ∧
      healthEventBytes r ≤ t.data.eventStore.limits.maxBytes
  | _ => True

/-- The result says something new. -/
def Changes (r : HealthResult) : Option HealthResult → Prop
  | none => isDeterminateHealth r.state = true
  | some old => old.state ≠ r.state ∨ old.code ≠ r.code ∨ old.limitations ≠ r.limitations

/-- The event is about the change from the stored health to the result. -/
def Announces (old : Option HealthResult) (r : HealthResult) (e : PdcmEvent) : Prop :=
  e.type = .firmwareHeartbeatHealthChanged ∧ e.entity = some r.entity ∧
    ∃ change, e.payload = .healthChange change ∧
      change.previousState = (old.map HealthResult.state).getD .unknown ∧
      change.previousCode = (old.map HealthResult.code).getD .heartbeatMissing ∧
      change.state = r.state ∧ change.code = r.code

/-- A call publishes an event exactly when it stores something new. -/
def Law (t : HealthEventLog L) : DataOp → Prop
  | .commitHealth r =>
    (events t.data (.commitHealth r) ≠ [] ↔
      (t.data.commitHealth r).2.status.ok = true ∧ Changes r (t.data.health.find? r.entity)) ∧
    ∀ e ∈ events t.data (.commitHealth r), Announces (t.data.health.find? r.entity) r e
  | _ => True

/-- The second event goes on from where the first one left the health. -/
def Follows (first second : PdcmEvent) : Prop :=
  ∃ a b, first.payload = .healthChange a ∧ second.payload = .healthChange b ∧
    b.previousState = a.state ∧ b.previousCode = a.code

theorem changes_iff (r : HealthResult) :
    Changes r (s.health.find? r.entity) ↔ s.healthChanges r = true := by
  unfold healthChanges
  cases s.health.find? r.entity with
  | none => exact .rfl
  | some old =>
    simp only [Changes, sameHealthState, Bool.not_eq_true', decide_eq_false_iff_not, not_and_or]

/-- The event of a stored change. -/
def announcement (s : DataManager L) (r : HealthResult) : PdcmEvent :=
  { s.healthChangeDraft r with
    bootEpoch := s.eventStore.bootEpoch, sequence := s.eventStore.nextSequence }

@[simp]
theorem announcement_entity (r : HealthResult) :
    (announcement s r).entity = some r.entity :=
  rfl

theorem events_commitHealth (hfi : t.Fits (.commitHealth r)) :
    events t.data (.commitHealth r) =
      if t.data.checkHealth r = none ∧ t.data.healthChanges r = true then
        [announcement t.data r]
      else [] := by
  unfold events commitHealthLocked
  cases hc : t.data.checkHealth r with
  | some st => simp [hc]
  | none =>
    have hfo := healthChangeDraft_formed (s := t.data)
      (healthAccepted_of_check hc).valid
    have hro : ¬t.data.eventStore.limits.maxBytes < eventBytes (announcement t.data r) :=
      not_lt.mpr hfi.2
    unfold announcement at hro ⊢
    cases hch : t.data.healthChanges r with
    | true => simp [hc, hch, publish, hfo, hfi.1, hro]
    | false => simp [hc, hch]

theorem commitHealth_ok_iff (r : HealthResult) :
    (s.commitHealth r).2.status.ok = true ↔ s.checkHealth r = none := by
  unfold commitHealth commitHealthLocked
  cases hc : s.checkHealth r with
  | some st => simp [checkHealth_failed hc]
  | none => exact iff_of_true rfl rfl

theorem law_of_fits (t : HealthEventLog L) (op : DataOp) (hfi : t.Fits op) : t.Law op := by
  cases op with
  | commitHealth r =>
    rw [Law, changes_iff, commitHealth_ok_iff, events_commitHealth hfi]
    split_ifs with h
    · refine ⟨by simpa using h, fun e he => ?_⟩
      rw [mem_singleton.mp he]
      exact ⟨rfl, rfl, _, rfl, rfl, rfl, rfl, rfl⟩
    · simpa using h
  | _ => trivial

/-- What a call means for an entity: the state and the code stay, or an event says how they
change. -/
inductive Turn (t t' : HealthEventLog L) (entity : EntityRef) : Prop
  | kept (about : t'.about entity = t.about entity)
      (health : ∀ old ∈ t.data.health.find? entity, ∃ new ∈ t'.data.health.find? entity,
        new.state = old.state ∧ new.code = old.code)
  | announced {e : PdcmEvent} {r : HealthResult} (about : t'.about entity = t.about entity ++ [e])
      (payload : e.payload = (t.data.healthChangeDraft r).payload) (own : r.entity = entity)
      (health : t'.data.health.find? entity = some r)

theorem Turn.of_same {t' : HealthEventLog L} (hab : t'.about entity = t.about entity)
    (hhe : t'.data.health.find? entity = t.data.health.find? entity) : Turn t t' entity :=
  .kept hab fun old hold => ⟨old, hhe ▸ hold, rfl, rfl⟩

theorem commit_turn (hfi : t.Fits (.commitHealth r)) (entity : EntityRef) :
    Turn t (t.step (.commitHealth r)) entity := by
  have hev := events_commitHealth hfi
  by_cases hacc : t.data.checkHealth r = none
  · have hfind := commitHealth_find? hacc entity
    by_cases hen : entity = r.entity
    · subst hen
      rw [if_pos rfl] at hfind
      split_ifs at hev with hch
      · exact .announced (by simp [about, step, hev]; rfl) rfl rfl hfind
      · refine .kept (by simp [about, step, hev]) fun old hold => ⟨r, hfind, ?_⟩
        simp [hacc, healthChanges, Option.mem_def.mp hold, sameHealthState] at hch
        exact ⟨hch.1.symm, hch.2.1.symm⟩
    · refine .of_same ?_ (hfind.trans (if_neg hen))
      split_ifs at hev with hch <;> simp [about, step, hev, Ne.symm hen]
  · have hs : (t.data.commitHealth r).1 = t.data :=
      ((t.data.commitHealth_cases r).resolve_right fun h => hacc
        ((commitHealth_ok_iff t.data r).mp (by rw [h.2.1]; rfl))).2
    refine .of_same (by simp [about, step, hev, hacc]) ?_
    exact congrArg (fun s : DataManager L => s.health.find? entity) hs

theorem step_turn (hop : t.InGeneration op ∧ t.Fits op) (entity : EntityRef) :
    Turn t (t.step op) entity := by
  by_cases hr : ∀ r, op ≠ .commitHealth r
  · have hev : events t.data op = [] := by
      cases op with
      | commitHealth r => exact absurd rfl (hr r)
      | _ => rfl
    rcases t.data.apply_health hr with ⟨-, hhe⟩ | ⟨hlt, -⟩
    · exact .of_same (by simp [about, step, hev]) (by rw [step, hhe])
    · exact absurd hop.1 hlt.ne'
  · push Not at hr
    obtain ⟨r, rfl⟩ := hr
    exact commit_turn hop.2 entity

/-- The events about an entity follow one another, and the last one agrees with the store. -/
structure Chained (t : HealthEventLog L) (entity : EntityRef) : Prop where
  chain : (t.about entity).IsChain Follows
  last : ∀ e ∈ (t.about entity).getLast?, ∃ change, e.payload = .healthChange change ∧
    ∃ stored ∈ t.data.health.find? entity, stored.state = change.state ∧ stored.code = change.code

theorem Chained.step (h : t.Chained entity) (hop : t.InGeneration op ∧ t.Fits op) :
    (t.step op).Chained entity := by
  cases step_turn hop entity with
  | kept hab hke =>
    refine ⟨hab ▸ h.chain, fun e he => ?_⟩
    obtain ⟨change, hpa, old, hold, hst, hco⟩ := h.last e (hab ▸ he)
    obtain ⟨new, hnew, hst', hco'⟩ := hke old hold
    exact ⟨change, hpa, new, hnew, hst'.trans hst, hco'.trans hco⟩
  | @announced e r hab hpa hown hst =>
    constructor
    · rw [hab, isChain_append]
      refine ⟨h.chain, isChain_singleton e, fun first hfir second hse => ?_⟩
      obtain rfl : e = second := by simpa using hse
      obtain ⟨change, hpay, old, hold, hst', hco⟩ := h.last first hfir
      rw [← hown, Option.mem_def] at hold
      exact ⟨change, _, hpay, hpa, by simp [hold, hst'], by simp [hold, hco]⟩
    · rw [hab]
      intro last hla
      obtain rfl : e = last := by simpa using hla
      exact ⟨_, hpa, r, hst, rfl, rfl⟩

/-- Within a catalog generation, a call of `commitHealth` publishes a health event exactly when it
stores a determinate state for an entity without stored health, or another state, code or list of
limitations than the stored one. The event starts from what was stored, so the events about an
entity follow one another. -/
theorem run_health_events (s : DataManager L) {ops : List DataOp}
    (hgeneration : Along step InGeneration ⟨s, []⟩ ops) (hfit : Along step Fits ⟨s, []⟩ ops) :
    Along step Law ⟨s, []⟩ ops ∧
      ∀ entity, ((runFrom step ⟨s, []⟩ ops).about entity).IsChain Follows := by
  constructor
  · exact law_along (I := fun _ => True) (fun _ _ _ _ => trivial)
      (fun t op _ h => law_of_fits t op h) trivial hfit
  · intro entity
    have hstart : Chained ⟨s, []⟩ entity := ⟨isChain_nil, fun _ h => by cases h⟩
    exact (invariant_along (I := fun t => Chained t entity) (fun _ _ h hop => h.step hop) hstart
      (hgeneration.and hfit)).chain

section Concrete

open OneDevice MetricsManager

/-- The health of a lost provider is stored twice. -/
def lostTwice : List DataOp :=
  let lost := (run limits [] healthyRun).providerLoss device 1
  [.commitHealth lost, .commitHealth lost]

instance (t : HealthEventLog L) : ∀ op, Decidable (t.Fits op)
  | .commitHealth _ => inferInstanceAs (Decidable (_ ∧ _))
  | .activateCatalog _ _ | .commit _ | .commitHeartbeatEvidence _ | .publishEvent _ =>
    inferInstanceAs (Decidable True)

instance (t : HealthEventLog L) (op : DataOp) : Decidable (t.InGeneration op) :=
  inferInstanceAs (Decidable (_ = _))

/-- Only the first one is announced. -/
theorem run_health_events_lostTwice :
    let start : HealthEventLog limits := ⟨(run limits [] healthyRun).data, []⟩
    ((runFrom step start lostTwice).about device).length = 1 ∧ Along step Law start lostTwice :=
  ⟨by decide +kernel, (run_health_events _ (by decide +kernel) (by decide +kernel)).1⟩

end Concrete

end HealthEventLog

end Pdcm
