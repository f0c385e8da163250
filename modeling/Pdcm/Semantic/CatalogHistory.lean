import Pdcm.Library.Runs
import Pdcm.Semantic.SemanticCatalog

/-!
# The history of a catalog

Runs of `SemanticCatalog::commit` next to the list of views they published. The identity
history is determined by that list: it holds, for every key ever seen, the id, generation and
incarnation of its latest appearance and whether the latest view contains it. From this
follow the law by which entity ids and generations are given out, and that an entity
reference names one identity key and one incarnation forever.
-/

namespace Pdcm

open Library List

namespace SemanticCatalog

variable {incarnation : String} {c next : SemanticCatalog}

/-! ### Published views -/

/-- A committed view and the manageable devices it was built from. -/
structure Published where
  view : CatalogView
  manageable : List ProviderEntity
  deriving DecidableEq, Repr

/-- A device in a published view: the key it goes by, its incarnation and its reference. -/
structure Sighting where
  key : String
  incarnation : String
  ref : EntityRef
  deriving DecidableEq, Repr

variable (target : TargetKind)

def Published.sighting? (p : Published) : Option Sighting :=
  match p.manageable, p.view.entities with
  | [device], [record] => some ⟨identityKey target device, device.incarnation, record.ref⟩
  | _, _ => none

/-- The latest appearance of a key in a list of views, newest first. -/
def lastSighting (key : String) : List Published → Option Sighting
  | [] => none
  | p :: earlier =>
    match p.sighting? target with
    | some s => if s.key = key then some s else lastSighting key earlier
    | none => lastSighting key earlier

/-- Whether the newest view contains a key. -/
def presentIn (key : String) : List Published → Bool
  | [] => false
  | p :: _ =>
    match p.sighting? target with
    | some s => decide (s.key = key)
    | none => false

/-- The generation a device has to get after the given views. -/
def nextGeneration (earlier : List Published) (key incarnation : String) : ℕ :=
  match lastSighting target key earlier with
  | none => 1
  | some s =>
    if presentIn target key earlier = false ∨ s.incarnation ≠ incarnation then
      s.ref.generation + 1
    else s.ref.generation

/-- A catalog and the views it has published, newest first. -/
structure CatalogRun where
  catalog : SemanticCatalog
  published : List Published := []

namespace CatalogRun

def fresh (targetCatalog : TargetCatalog) (valid : targetCatalog.validate.ok = true) :
    CatalogRun where
  catalog := { targetCatalog, valid }

def commit (run : CatalogRun) (d : ProviderDescriptor) : CatalogRun where
  catalog := (run.catalog.commit d).1
  published :=
    if (run.catalog.commit d).2.committed then
      ⟨(run.catalog.commit d).1.snapshot, d.manageable⟩ :: run.published
    else run.published

end CatalogRun

variable {target} {p : Published}

open CatalogRun

section Recorded

variable {targetCatalog : TargetCatalog} {run : CatalogRun} {key : String}

theorem sighting?_of_empty (h : p.view.entities = []) : p.sighting? target = none := by
  unfold Published.sighting?
  rw [h]
  rcases p.manageable with _ | ⟨dev, _ | ⟨second, rest⟩⟩
  · rfl
  · rfl
  · rfl

theorem sighting?_of_single {dev : ProviderEntity} {rec : EntityRecord}
    (hde : p.manageable = [dev]) (hre : p.view.entities = [rec]) :
    p.sighting? target = some ⟨identityKey target dev, dev.incarnation, rec.ref⟩ := by
  simp only [Published.sighting?, hde, hre]

theorem lastSighting_cons {s : Sighting} (h : p.sighting? target = some s) (key : String)
    (earlier : List Published) :
    lastSighting target key (p :: earlier) =
      if s.key = key then some s else lastSighting target key earlier := by
  simp only [lastSighting, h]

theorem lastSighting_cons_of_none (h : p.sighting? target = none) (key : String)
    (earlier : List Published) :
    lastSighting target key (p :: earlier) = lastSighting target key earlier := by
  simp only [lastSighting, h]

/-- What the identity history has to hold for a key after the given views. -/
def historyEntry (target : TargetKind) (published : List Published) (key : String)
    (s : Sighting) : IdentityHistory where
  id := s.ref.id
  generation := s.ref.generation
  incarnation := s.incarnation
  present := presentIn target key published

/-- The catalog agrees with the views it has published. -/
structure Recorded (targetCatalog : TargetCatalog) (run : CatalogRun) : Prop where
  catalog_eq : run.catalog.targetCatalog = targetCatalog
  history_eq : ∀ key, run.catalog.identityHistory.find? key =
    (lastSighting targetCatalog.target key run.published).map
      (historyEntry targetCatalog.target run.published key)
  id_lt : ∀ {key history}, run.catalog.identityHistory.find? key = some history →
    history.id < run.catalog.nextEntityId
  id_injective : ∀ {key key' history history'},
    run.catalog.identityHistory.find? key = some history →
    run.catalog.identityHistory.find? key' = some history' → history.id = history'.id →
    key = key'

theorem find?_absentHistory (c : SemanticCatalog) (key : String) :
    c.absentHistory.find? key =
      (c.identityHistory.find? key).map fun hist => { hist with present := false } :=
  OrderedMap.find?_mapValues _ _ _

/-- A binding of the history of absent devices has the id of the binding it came from. -/
theorem id_of_find?_absentHistory {hist : IdentityHistory}
    (h : c.absentHistory.find? key = some hist) :
    ∃ b, c.identityHistory.find? key = some b ∧ b.id = hist.id := by
  rw [find?_absentHistory] at h
  obtain ⟨b, hbe, rfl⟩ := Option.map_eq_some_iff.mp h
  exact ⟨b, hbe, rfl⟩

theorem Recorded.other (h : Recorded targetCatalog run) (hcat : next.targetCatalog = targetCatalog)
    (hhi : next.identityHistory = run.catalog.absentHistory)
    (hid : next.nextEntityId = run.catalog.nextEntityId)
    (hp : p.sighting? targetCatalog.target = none) :
    Recorded targetCatalog ⟨next, p :: run.published⟩ := by
  refine ⟨hcat, ?_, ?_, ?_⟩
  · intro key
    have hpr : presentIn targetCatalog.target key (p :: run.published) = false := by
      simp only [presentIn, hp]
    rw [hhi, find?_absentHistory, h.history_eq, lastSighting_cons_of_none hp]
    cases lastSighting targetCatalog.target key run.published with
    | none => rfl
    | some s =>
      simp only [Option.map_some, historyEntry, hpr]
  · intro key hist hfi
    rw [hhi] at hfi
    obtain ⟨b, hbe, hsa⟩ := id_of_find?_absentHistory hfi
    rw [hid, ← hsa]
    exact h.id_lt hbe
  · intro key key' hist hist' hfi hfi' hsa
    rw [hhi] at hfi hfi'
    obtain ⟨b, hbe, hb⟩ := id_of_find?_absentHistory hfi
    obtain ⟨b', hbe', hb'⟩ := id_of_find?_absentHistory hfi'
    exact h.id_injective hbe hbe' (by rw [hb, hb', hsa])

/-- The id of a tracked device is new, or it is the one its key already has. -/
theorem trackIdentity_id {tracked : Tracked}
    (h : c.trackIdentity key incarnation = .ok tracked) :
    (c.identityHistory.find? key = none ∧ tracked.entry.id = c.nextEntityId ∧
        tracked.nextEntityId = c.nextEntityId + 1) ∨
      ∃ hist, c.identityHistory.find? key = some hist ∧
        tracked.entry.id = hist.id ∧ tracked.nextEntityId = c.nextEntityId := by
  obtain ⟨-, -, -, hen⟩ := trackIdentity_ok h
  cases hfi : c.identityHistory.find? key with
  | none =>
    simp only [hfi] at hen
    exact .inl ⟨rfl, hen.1, hen.2.2⟩
  | some hist =>
    simp only [hfi] at hen
    exact .inr ⟨hist, rfl, hen.1, hen.2.1⟩

section

variable (h : Recorded targetCatalog run) {tracked : Tracked}
  (htr : run.catalog.trackIdentity key incarnation = .ok tracked)

include h htr

/-- Another key than that of a tracked device keeps its id, which is not the device's. -/
theorem Recorded.other_id {j : String} {hist : IdentityHistory} (hj : j ≠ key)
    (hfi : tracked.identityHistory.find? j = some hist) :
    ∃ b, run.catalog.identityHistory.find? j = some b ∧ b.id = hist.id ∧
      hist.id ≠ tracked.entry.id := by
  obtain ⟨-, -, hhi, -⟩ := trackIdentity_ok htr
  rw [hhi, if_neg hj] at hfi
  obtain ⟨b, hbe, hsa⟩ := id_of_find?_absentHistory hfi
  refine ⟨b, hbe, hsa, ?_⟩
  rw [← hsa]
  rcases trackIdentity_id htr with ⟨-, hnew, -⟩ | ⟨old, hold, hol, -⟩
  · rw [hnew]
    exact Nat.ne_of_lt (h.id_lt hbe)
  · intro heq
    exact hj (h.id_injective hbe hold (heq.trans hol))

theorem Recorded.device (hcat : next.targetCatalog = targetCatalog)
    (hhis : next.identityHistory = tracked.identityHistory)
    (hid : next.nextEntityId = tracked.nextEntityId) (hp : p.sighting? targetCatalog.target =
      some ⟨key, incarnation, ⟨.device, tracked.entry.id, tracked.entry.generation⟩⟩) :
    Recorded targetCatalog ⟨next, p :: run.published⟩ := by
  obtain ⟨hinc, hpr, hfi, -⟩ := trackIdentity_ok htr
  have hids := trackIdentity_id htr
  refine ⟨hcat, ?_, ?_, ?_⟩
  · intro j
    have hin : presentIn targetCatalog.target j (p :: run.published) = decide (key = j) := by
      simp only [presentIn, hp]
    rw [hhis, hfi, lastSighting_cons hp]
    by_cases hj : j = key
    · subst hj
      rw [if_pos rfl, if_pos rfl, Option.map_some, historyEntry, hin, decide_eq_true rfl,
        ← hinc, ← hpr]
    · rw [if_neg hj, if_neg (Ne.symm hj), find?_absentHistory, h.history_eq]
      cases lastSighting targetCatalog.target j run.published with
      | none => rfl
      | some s =>
        simp only [Option.map_some, historyEntry, hin, decide_eq_false (Ne.symm hj)]
  · intro j hist hhi
    rw [hhis] at hhi
    rw [hid]
    by_cases hj : j = key
    · rw [hfi, if_pos hj] at hhi
      cases hhi
      rcases hids with ⟨-, hnew, hnex⟩ | ⟨old, hold, hsa, hnex⟩
      · rw [hnew, hnex]
        exact Nat.lt_succ_self _
      · rw [hsa, hnex]
        exact h.id_lt hold
    · obtain ⟨b, hbe, hb, -⟩ := h.other_id htr hj hhi
      have hlt := h.id_lt hbe
      rw [hb] at hlt
      rcases hids with ⟨-, -, hnex⟩ | ⟨-, -, -, hnex⟩
      · rw [hnex]
        exact hlt.trans (Nat.lt_succ_self _)
      · rw [hnex]
        exact hlt
  · intro j j' hist hist' hhi hhi' hsa
    rw [hhis] at hhi hhi'
    by_cases hj : j = key
    · by_cases hj' : j' = key
      · rw [hj, hj']
      · rw [hfi, if_pos hj] at hhi
        cases hhi
        obtain ⟨-, -, -, hne⟩ := h.other_id htr hj' hhi'
        exact absurd hsa.symm hne
    · obtain ⟨b, hbe, hb, hne⟩ := h.other_id htr hj hhi
      by_cases hj' : j' = key
      · rw [hfi, if_pos hj'] at hhi'
        cases hhi'
        exact absurd hsa hne
      · obtain ⟨b', hbe', hb', -⟩ := h.other_id htr hj' hhi'
        exact h.id_injective hbe hbe' (by rw [hb, hb', hsa])

end

theorem Recorded.commit (h : Recorded targetCatalog run) (d : ProviderDescriptor) :
    Recorded targetCatalog (run.commit d) := by
  have hco := commit_commits run.catalog d
  unfold CatalogRun.commit
  generalize run.catalog.commit d = out at hco ⊢
  cases hco with
  | refused st => exact h
  | @device device tracked rec hde hkey htr hre =>
    refine h.device htr h.catalog_eq rfl rfl ?_
    rw [h.catalog_eq, sighting?_of_single hde rfl, hre]
    rfl
  | other hno code => exact h.other h.catalog_eq rfl rfl (sighting?_of_empty rfl)

/-! ### The law of the published views -/

/-- A view next to the ones before it. -/
structure LawfulView (target : TargetKind) (p : Published) (earlier : List Published) : Prop where
  single : p.view.entities.length ≤ 1
  detected : p.view.entities ≠ [] → ∃ device, p.manageable = [device] ∧
    identityKey target device ≠ ""
  generation_eq : ∀ {s}, p.sighting? target = some s →
    s.ref.generation = nextGeneration target earlier s.key s.incarnation

/-- Every device ever published is continued by the latest appearance of its key. -/
def Traced (target : TargetKind) (published : List Published) : Prop :=
  ∀ q ∈ published, ∀ t, q.sighting? target = some t →
    ∃ last, lastSighting target t.key published = some last ∧ last.ref.id = t.ref.id ∧
      t.ref.generation ≤ last.ref.generation ∧
      (t.ref.generation = last.ref.generation → t.incarnation = last.incarnation)

theorem le_nextGeneration {pub : List Published} {key : String} {last : Sighting}
    (h : lastSighting target key pub = some last) (incarnation : String) :
    last.ref.generation ≤ nextGeneration target pub key incarnation ∧
      (last.ref.generation = nextGeneration target pub key incarnation →
        last.incarnation = incarnation) := by
  simp only [nextGeneration, h]
  split_ifs with hbu
  · exact ⟨Nat.le_succ _, fun heq => absurd heq (Nat.ne_of_lt (Nat.lt_succ_self _))⟩
  · exact ⟨le_rfl, fun _ => by_contra fun hne => hbu (.inr hne)⟩

theorem Recorded.tracked (h : Recorded targetCatalog run) {tracked : Tracked}
    (htr : run.catalog.trackIdentity key incarnation = .ok tracked) :
    tracked.entry.generation =
        nextGeneration targetCatalog.target run.published key incarnation ∧
      match lastSighting targetCatalog.target key run.published with
      | none => tracked.entry.id = run.catalog.nextEntityId
      | some last => tracked.entry.id = last.ref.id := by
  obtain ⟨-, -, -, hen⟩ := trackIdentity_ok htr
  rw [h.history_eq] at hen
  cases hla : lastSighting targetCatalog.target key run.published with
  | none =>
    simp only [hla] at hen
    simp only [nextGeneration, hla]
    exact ⟨hen.2.1, hen.1⟩
  | some last =>
    simp only [hla] at hen
    simp only [nextGeneration, hla]
    exact ⟨hen.2.2, hen.1⟩

theorem Traced.other {pub : List Published} (h : Traced target pub)
    (hp : p.sighting? target = none) : Traced target (p :: pub) := by
  intro q hq t ht
  rw [lastSighting_cons_of_none hp]
  rcases mem_cons.mp hq with rfl | hold
  · rw [hp] at ht
    cases ht
  · exact h q hold t ht

theorem lawfulView_of_empty {earlier : List Published} (h : p.view.entities = []) :
    LawfulView target p earlier := by
  refine ⟨?_, fun hne => absurd h hne, ?_⟩
  · rw [h]
    exact Nat.zero_le 1
  · intro s hs
    rw [sighting?_of_empty h] at hs
    cases hs

section Device

variable {tracked : Tracked} {s : Sighting} {q : Published}

theorem Traced.device (h : Traced targetCatalog.target run.published)
    (hrec : Recorded targetCatalog run)
    (htr : run.catalog.trackIdentity key incarnation = .ok tracked)
    (hs : s = ⟨key, incarnation, ⟨.device, tracked.entry.id, tracked.entry.generation⟩⟩)
    (hp : p.sighting? targetCatalog.target = some s) :
    Traced targetCatalog.target (p :: run.published) := by
  obtain ⟨hgen, hid⟩ := hrec.tracked htr
  intro q hq t ht
  rw [lastSighting_cons hp]
  rcases mem_cons.mp hq with rfl | hold
  · rw [hp] at ht
    cases ht
    exact ⟨s, if_pos rfl, rfl, le_rfl, fun _ => rfl⟩
  · obtain ⟨last, hla, hsa, hle, hin⟩ := h q hold t ht
    by_cases hkey : s.key = t.key
    · have htk : t.key = key := by rw [← hkey, hs]
      rw [htk] at hla
      obtain ⟨hne, hco⟩ := le_nextGeneration hla incarnation
      simp only [hla] at hid
      refine ⟨s, if_pos hkey, ?_, ?_, ?_⟩
      · rw [hs, ← hsa]
        exact hid
      · rw [hs]
        exact hle.trans (hgen ▸ hne)
      · rw [hs]
        intro heq
        rw [show t.ref.generation = tracked.entry.generation from heq, hgen] at hle hin
        have hbo := le_antisymm hne hle
        rw [hin hbo.symm, hco hbo]
    · exact ⟨last, by rw [if_neg hkey, hla], hsa, hle, hin⟩

variable (h : Recorded targetCatalog run)
  (htr : Traced targetCatalog.target run.published)
  (htra : run.catalog.trackIdentity key incarnation = .ok tracked) {t : Sighting}
  (hq : q ∈ run.published) (ht : q.sighting? targetCatalog.target = some t)
include h htr htra hq ht

/-- A tracked device has the id of an earlier one exactly if it has its key. -/
theorem Recorded.id_iff : key = t.key ↔ tracked.entry.id = t.ref.id := by
  obtain ⟨last, hla, hsa, -, -⟩ := htr q hq t ht
  obtain ⟨-, hid⟩ := h.tracked htra
  have hfin := h.history_eq t.key
  rw [hla] at hfin
  constructor
  · intro hkey
    rw [hkey] at hid
    simp only [hla] at hid
    exact hid.trans hsa
  · intro heq
    cases hown : lastSighting targetCatalog.target key run.published with
    | none =>
      simp only [hown] at hid
      have hlt : last.ref.id < run.catalog.nextEntityId := h.id_lt hfin
      rw [hsa, ← heq, hid] at hlt
      exact absurd hlt (lt_irrefl _)
    | some own =>
      simp only [hown] at hid
      have hfi := h.history_eq key
      rw [hown] at hfi
      exact h.id_injective hfi hfin (hid.symm.trans (heq.trans hsa.symm))

theorem Recorded.instance_eq (hid : tracked.entry.id = t.ref.id)
    (hgen : tracked.entry.generation = t.ref.generation) :
    incarnation = t.incarnation := by
  have hkey := (h.id_iff htr htra hq ht).mpr hid
  obtain ⟨last, hla, -, hle, hin⟩ := htr q hq t ht
  obtain ⟨hne, -⟩ := h.tracked htra
  rw [← hkey] at hla
  obtain ⟨hmo, hco⟩ := le_nextGeneration hla incarnation
  have hbo : last.ref.generation = t.ref.generation := by
    refine le_antisymm ?_ hle
    rw [← hgen, hne]
    exact hmo
  rw [hin hbo.symm]
  exact (hco (by rw [hbo, ← hgen, hne])).symm

end Device

/-- One reference never stands for two incarnations. -/
def OneInstanceEach (target : TargetKind) (published : List Published) : Prop :=
  ∀ p ∈ published, ∀ q ∈ published, ∀ s t, p.sighting? target = some s →
    q.sighting? target = some t → s.ref = t.ref → s.incarnation = t.incarnation

theorem OneInstanceEach.cons {pub : List Published} (h : OneInstanceEach target pub)
    (hp : ∀ q ∈ pub, ∀ s t, p.sighting? target = some s → q.sighting? target = some t →
      s.ref = t.ref → s.incarnation = t.incarnation) : OneInstanceEach target (p :: pub) := by
  intro a ha b hb s t hs ht href
  rcases mem_cons.mp ha with rfl | hold
  · rcases mem_cons.mp hb with rfl | hold'
    · rw [hs] at ht
      cases ht
      rfl
    · exact hp b hold' s t hs ht href
  · rcases mem_cons.mp hb with rfl | hold'
    · exact (hp a hold t s ht hs href.symm).symm
    · exact h a hold b hold' s t hs ht href

/-- A catalog that agrees with its views, which obey the law. -/
structure CatalogInvariant (targetCatalog : TargetCatalog) (run : CatalogRun) : Prop where
  recorded : Recorded targetCatalog run
  traced : Traced targetCatalog.target run.published
  lawful : ∀ p earlier, p :: earlier <:+ run.published →
    LawfulView targetCatalog.target p earlier
  instances : OneInstanceEach targetCatalog.target run.published

theorem lawful_cons {pub : List Published}
    (h : ∀ q earlier, q :: earlier <:+ pub → LawfulView target q earlier)
    (hp : LawfulView target p pub) :
    ∀ q earlier, q :: earlier <:+ p :: pub → LawfulView target q earlier := by
  intro q earlier hsu
  rcases suffix_cons_iff.mp hsu with heq | hold
  · cases heq
    exact hp
  · exact h q earlier hold

theorem CatalogInvariant.commit (h : CatalogInvariant targetCatalog run) (d : ProviderDescriptor) :
    CatalogInvariant targetCatalog (run.commit d) := by
  have hrec := h.recorded.commit d
  have hco := commit_commits run.catalog d
  unfold CatalogRun.commit at hrec ⊢
  generalize run.catalog.commit d = out at hco hrec ⊢
  cases hco with
  | refused st => exact h
  | @device device tracked rec hde hkey htr hre =>
    have hp : Published.sighting? targetCatalog.target
        ⟨(run.catalog.publish d [rec] rec.itemStatus tracked.identityHistory
          tracked.nextEntityId).1.snapshot, d.manageable⟩ =
        some ⟨identityKey targetCatalog.target device, device.incarnation,
          ⟨.device, tracked.entry.id, tracked.entry.generation⟩⟩ := by
      rw [sighting?_of_single hde rfl, hre]
      rfl
    rw [h.recorded.catalog_eq] at htr hkey
    refine ⟨hrec, h.traced.device h.recorded htr rfl hp, ?_, ?_⟩
    · refine lawful_cons h.lawful ⟨le_rfl, fun _ => ⟨device, hde, hkey⟩, ?_⟩
      intro s hs
      rw [hp] at hs
      cases hs
      exact (h.recorded.tracked htr).1
    · refine h.instances.cons ?_
      intro q hq s t hs ht href
      rw [hp] at hs
      cases hs
      exact h.recorded.instance_eq h.traced htr hq ht (congrArg EntityRef.id href)
        (congrArg EntityRef.generation href)
  | other hno code =>
    refine ⟨hrec, h.traced.other (sighting?_of_empty rfl),
      lawful_cons h.lawful (lawfulView_of_empty rfl), h.instances.cons ?_⟩
    intro q hq s t hs
    rw [sighting?_of_empty rfl] at hs
    cases hs

theorem run_catalogInvariant {targetCatalog : TargetCatalog}
    (valid : targetCatalog.validate.ok = true) (descs : List ProviderDescriptor) :
    CatalogInvariant targetCatalog
      (runFrom CatalogRun.commit (fresh targetCatalog valid) descs) := by
  refine invariant_run (fun run d h => h.commit d) ?_ descs
  refine ⟨⟨rfl, fun _ => rfl, nofun, nofun⟩, ?_, ?_, ?_⟩
  · intro q hq
    cases hq
  · intro p old hsu
    cases suffix_nil.mp hsu
  · intro p hp
    cases hp

theorem commit_generation (c : SemanticCatalog) (d : ProviderDescriptor) :
    ((c.commit d).2.committed = true →
        (c.commit d).1.snapshot.generation = c.snapshot.generation + 1) ∧
      ((c.commit d).2.committed = false → (c.commit d).1 = c) := by
  have hco := commit_commits c d
  generalize c.commit d = out at hco ⊢
  cases hco with
  | refused st => exact ⟨fun h => absurd h Bool.false_ne_true, fun _ => rfl⟩
  | device hde hkey htr hre =>
    exact ⟨fun _ => rfl, fun h => absurd h.symm Bool.false_ne_true⟩
  | other hno code => exact ⟨fun _ => rfl, fun h => absurd h.symm Bool.false_ne_true⟩

theorem CatalogInvariant.id_iff (h : CatalogInvariant targetCatalog run) {q : Published}
    {s t : Sighting}
    (hp : p ∈ run.published) (hs : p.sighting? targetCatalog.target = some s)
    (hq : q ∈ run.published) (ht : q.sighting? targetCatalog.target = some t) :
    s.key = t.key ↔ s.ref.id = t.ref.id := by
  obtain ⟨last, hla, hsa, -⟩ := h.traced p hp s hs
  obtain ⟨last', hla', hsa', -⟩ := h.traced q hq t ht
  have hfi := h.recorded.history_eq s.key
  have hfi' := h.recorded.history_eq t.key
  rw [hla] at hfi
  rw [hla'] at hfi'
  constructor
  · intro hkey
    rw [hkey, hla'] at hla
    cases hla
    exact hsa.symm.trans hsa'
  · intro hid
    exact h.recorded.id_injective hfi hfi' (hsa.trans (hid.trans hsa'.symm))

/-- The catalog history law. Along every sequence of commits the generation grows by one with
each committed call and by none otherwise; a view holds at most one entity, and only if
exactly one manageable device was detected; keys and entity ids determine each other; and a
device gets the generation that the views before its own prescribe. -/
theorem commit_history {targetCatalog : TargetCatalog}
    (valid : targetCatalog.validate.ok = true) (descriptors : List ProviderDescriptor) :
    let run := runFrom CatalogRun.commit (fresh targetCatalog valid) descriptors
    (∀ d, ((run.catalog.commit d).2.committed = true →
          (run.catalog.commit d).1.snapshot.generation = run.catalog.snapshot.generation + 1) ∧
        ((run.catalog.commit d).2.committed = false →
          (run.catalog.commit d).1.snapshot.generation = run.catalog.snapshot.generation)) ∧
      (∀ p ∈ run.published, p.view.entities.length ≤ 1 ∧
        (p.view.entities ≠ [] → p.manageable.length = 1)) ∧
      (∀ p ∈ run.published, ∀ q ∈ run.published, ∀ s t,
        p.sighting? targetCatalog.target = some s → q.sighting? targetCatalog.target = some t →
        (s.key = t.key ↔ s.ref.id = t.ref.id)) ∧
      ∀ p earlier, p :: earlier <:+ run.published →
        ∀ s, p.sighting? targetCatalog.target = some s →
          s.ref.generation = nextGeneration targetCatalog.target earlier s.key s.incarnation := by
  intro run
  have hinvariant : CatalogInvariant targetCatalog run := run_catalogInvariant valid descriptors
  refine ⟨?_, ?_, ?_, ?_⟩
  · intro d
    obtain ⟨hcommitted, hrefused⟩ := commit_generation run.catalog d
    exact ⟨hcommitted, fun h => by rw [hrefused h]⟩
  · intro p hp
    obtain ⟨later, earlier, hsplit⟩ := append_of_mem hp
    have hlawful := hinvariant.lawful p earlier (hsplit ▸ suffix_append later (p :: earlier))
    refine ⟨hlawful.single, fun hne => ?_⟩
    obtain ⟨device, hdevice, -⟩ := hlawful.detected hne
    rw [hdevice]
    rfl
  · intro p hp q hq s t hs ht
    exact hinvariant.id_iff hp hs hq ht
  · intro p earlier hsuffix s hs
    exact (hinvariant.lawful p earlier hsuffix).generation_eq hs

end Recorded

namespace OneSlot

def targetCatalog : TargetCatalog := { target := .fpga, health := [{ freshnessNs := 10 }] }

theorem targetCatalog_valid : targetCatalog.validate.ok = true := by decide

/-- The discovery of one manageable device. -/
def found (pciBdf stableNativeId incarnation : String) : ProviderDescriptor where
  providerVersion := "1"
  target := .fpga
  state := .ready
  entities := [{ stableNativeId, pciBdf, incarnation, state := .ready, manageable := true }]
  detectedDeviceCount := 1

/-- A discovery that finds nothing. -/
def nothing : ProviderDescriptor := { providerVersion := "1", target := .fpga, state := .ready }

def after (descriptors : List ProviderDescriptor) : CatalogRun :=
  runFrom CatalogRun.commit (fresh targetCatalog targetCatalog_valid) descriptors

end OneSlot

open OneSlot in
/-- A device that is lost and comes back keeps its id and gets the next generation. -/
theorem commit_history_reappears :
    ∃ p earlier s,
      (after [found "a" "c" "i", nothing, found "a" "c" "i"]).published = p :: earlier ∧
      p.sighting? .fpga = some s ∧ s.ref = ⟨.device, 0, 2⟩ ∧
      s.ref.generation = nextGeneration .fpga earlier s.key s.incarnation := by
  have hnewest : ((after [found "a" "c" "i", nothing, found "a" "c" "i"]).published.head?.bind
      (·.sighting? .fpga)).map (·.ref) = some ⟨.device, 0, 2⟩ := by
    decide +kernel
  obtain ⟨s, hs, href⟩ := Option.map_eq_some_iff.mp hnewest
  obtain ⟨p, hp, hsighting⟩ := Option.bind_eq_some_iff.mp hs
  obtain ⟨earlier, hpublished⟩ := head?_eq_some_iff.mp hp
  have hhistory :=
    commit_history targetCatalog_valid [found "a" "c" "i", nothing, found "a" "c" "i"]
  exact ⟨p, earlier, s, hpublished, hsighting, href,
    hhistory.2.2.2 p earlier (hpublished ▸ suffix_rfl) s hsighting⟩

/-! ### References and devices -/

theorem append_separator_inj {α : Type*} {separator : α} {l₁ l₂ r₁ r₂ : List α}
    (h₁ : separator ∉ l₁) (h₂ : separator ∉ l₂)
    (h : l₁ ++ separator :: r₁ = l₂ ++ separator :: r₂) : l₁ = l₂ ∧ r₁ = r₂ := by
  induction l₁ generalizing l₂ with
  | nil =>
    cases l₂ with
    | nil => exact ⟨rfl, (List.cons.inj h).2⟩
    | cons b l₂ =>
      obtain ⟨rfl, -⟩ := List.cons.inj h
      exact absurd mem_cons_self h₂
  | cons a l₁ ih =>
    cases l₂ with
    | nil =>
      obtain ⟨rfl, -⟩ := List.cons.inj h
      exact absurd mem_cons_self h₁
    | cons b l₂ =>
      obtain ⟨rfl, hre⟩ := List.cons.inj h
      obtain ⟨rfl, rfl⟩ := ih (fun hmem => h₁ (mem_cons_of_mem a hmem))
        (fun hmem => h₂ (mem_cons_of_mem a hmem)) hre
      exact ⟨rfl, rfl⟩

/-- The separator of identity keys occurs in no PCI address, or in no native id. -/
def Separated (devices : ProviderEntity → Prop) : Prop :=
  (∀ device, devices device → '|' ∉ device.pciBdf.toList) ∨
    ∀ device, devices device → '|' ∉ device.stableNativeId.toList

theorem identityKey_inj {devices : ProviderEntity → Prop} (h : Separated devices)
    {a b : ProviderEntity} (ha : devices a) (hb : devices b)
    (hne : identityKey target a ≠ "") (hkey : identityKey target a = identityKey target b) :
    a.pciBdf = b.pciBdf ∧ a.stableNativeId = b.stableNativeId := by
  have hpa {e : ProviderEntity} (he : identityKey target e ≠ "") :
      (identityKey target e).toList =
        (toString target.value ++ "|").toList ++
          (e.pciBdf.toList ++ '|' :: e.stableNativeId.toList) := by
    unfold identityKey at he ⊢
    split_ifs at he ⊢ with hem
    · exact absurd rfl he
    · simp
  have hli := congrArg String.toList hkey
  rw [hpa hne, hpa (hkey ▸ hne), append_right_inj] at hli
  have hsp : a.pciBdf.toList = b.pciBdf.toList ∧
      a.stableNativeId.toList = b.stableNativeId.toList := by
    rcases h with hbdf | hid
    · exact append_separator_inj (hbdf a ha) (hbdf b hb) hli
    · -- read from the back, the native id comes first
      have hre := congrArg reverse hli
      simp only [reverse_append, reverse_cons, append_assoc] at hre
      obtain ⟨hids, hbd⟩ := append_separator_inj (by simpa using hid a ha)
        (by simpa using hid b hb) hre
      exact ⟨reverse_injective hbd, reverse_injective hids⟩
  exact ⟨String.toList_inj.mp hsp.1, String.toList_inj.mp hsp.2⟩

theorem run_manageable {targetCatalog : TargetCatalog}
    (valid : targetCatalog.validate.ok = true) (descs : List ProviderDescriptor) :
    ∀ p ∈ (runFrom CatalogRun.commit (fresh targetCatalog valid) descs).published,
      ∃ d ∈ descs, p.manageable = d.manageable := by
  induction descs using reverseRecOn with
  | nil =>
    intro p hp
    cases hp
  | append_singleton descs d ih =>
    rw [runFrom_append, runFrom_cons]
    intro p hp
    unfold CatalogRun.commit at hp
    have hold : p ∈ (runFrom .commit
        (fresh targetCatalog valid) descs).published →
        ∃ d' ∈ descs ++ [d], p.manageable = d'.manageable := by
      intro hmem
      obtain ⟨d', hd', hsa⟩ := ih p hmem
      exact ⟨d', mem_append_left _ hd', hsa⟩
    split_ifs at hp with hco
    · rcases mem_cons.mp hp with rfl | hmem
      · exact ⟨d, mem_append_right _ (mem_singleton_self d), rfl⟩
      · exact hold hmem
    · exact hold hp

/-- If the separator occurs in no PCI address or in no native id of the descriptors, views
that contain one entity reference were built from devices with one PCI address, one native
id and one incarnation. -/
theorem entityRef_names_one_instance {targetCatalog : TargetCatalog}
    (valid : targetCatalog.validate.ok = true) (descriptors : List ProviderDescriptor)
    (hseparated : Separated fun device => ∃ d ∈ descriptors, device ∈ d.entities)
    {p q : Published} {record record' : EntityRecord}
    (hp : p ∈ (runFrom CatalogRun.commit
      (fresh targetCatalog valid) descriptors).published)
    (hq : q ∈ (runFrom CatalogRun.commit
      (fresh targetCatalog valid) descriptors).published)
    (hrecord : record ∈ p.view.entities) (hrecord' : record' ∈ q.view.entities)
    (href : record.ref = record'.ref) :
    ∃ device device', p.manageable = [device] ∧ q.manageable = [device'] ∧
      device.pciBdf = device'.pciBdf ∧ device.stableNativeId = device'.stableNativeId ∧
      device.incarnation = device'.incarnation := by
  have hinvariant := run_catalogInvariant valid descriptors
  -- the only device of a view that holds an entity, and its sighting
  have hview {p : Published} {record : EntityRecord} (hp : p ∈ (runFrom .commit
      (fresh targetCatalog valid) descriptors).published)
      (hrecord : record ∈ p.view.entities) :
      ∃ device, p.manageable = [device] ∧ identityKey targetCatalog.target device ≠ "" ∧
        (∃ d ∈ descriptors, device ∈ d.entities) ∧
        p.sighting? targetCatalog.target =
          some ⟨identityKey targetCatalog.target device, device.incarnation, record.ref⟩ := by
    obtain ⟨later, earlier, hsplit⟩ := append_of_mem hp
    have hlawful := hinvariant.lawful p earlier (hsplit ▸ suffix_append later (p :: earlier))
    obtain ⟨device, hdevice, hkey⟩ := hlawful.detected (ne_nil_of_mem hrecord)
    obtain ⟨d, hd, hsame⟩ := run_manageable valid descriptors p hp
    have hsingle : p.view.entities = [record] := by
      obtain ⟨only, honly⟩ := length_eq_one_iff.mp
        (le_antisymm hlawful.single (length_pos_of_mem hrecord))
      rw [honly, mem_singleton] at hrecord
      rw [honly, hrecord]
    refine ⟨device, hdevice, hkey, ⟨d, hd, ?_⟩, sighting?_of_single hdevice hsingle⟩
    have hmem : device ∈ d.manageable := by
      rw [← hsame, hdevice]
      exact mem_singleton_self device
    exact (mem_filter.mp hmem).1
  obtain ⟨device, hdevice, hkey, hd, hs⟩ := hview hp hrecord
  obtain ⟨device', hdevice', -, hd', hs'⟩ := hview hq hrecord'
  have hsame := (hinvariant.id_iff hp hs hq hs').mpr (congrArg EntityRef.id href)
  obtain ⟨hbdf, hnative⟩ := identityKey_inj hseparated hd hd' hkey hsame
  exact ⟨device, device', hdevice, hdevice', hbdf, hnative,
    hinvariant.instances p hp q hq _ _ hs hs' href⟩

open OneSlot in
/-- A device at `a|b` with native id `c` and one at `a` with native id `b|c` have one identity
key, so both are published as entity 0 of generation 1. -/
theorem entityRef_names_two_devices :
    (after [found "a|b" "c" "i", found "a" "b|c" "i"]).published.map (fun p =>
        (p.view.entities.map (·.ref), p.manageable.map (·.pciBdf))) =
      [([⟨.device, 0, 1⟩], ["a"]), ([⟨.device, 0, 1⟩], ["a|b"])] := by
  decide +kernel

open OneSlot in
/-- Two views of one device that stayed in place. -/
theorem entityRef_names_one_instance_twice :
    ∃ p q device device', (after [found "a" "c" "i", found "a" "c" "i"]).published = [p, q] ∧
      p.view.entities.map (·.ref) = [⟨.device, 0, 1⟩] ∧
      q.view.entities.map (·.ref) = [⟨.device, 0, 1⟩] ∧
      p.manageable = [device] ∧ q.manageable = [device'] ∧
      device.pciBdf = device'.pciBdf ∧ device.stableNativeId = device'.stableNativeId ∧
      device.incarnation = device'.incarnation := by
  have hlength : (after [found "a" "c" "i", found "a" "c" "i"]).published.length = 2 := by
    decide +kernel
  have hrefs : ∀ p ∈ (after [found "a" "c" "i", found "a" "c" "i"]).published,
      p.view.entities.map (·.ref) = [⟨.device, 0, 1⟩] := by
    decide +kernel
  have hseparated : Separated fun device =>
      ∃ d ∈ [found "a" "c" "i", found "a" "c" "i"], device ∈ d.entities := by
    left
    rintro device ⟨d, hd, hmem⟩
    simp only [mem_cons, not_mem_nil, or_false, or_self] at hd
    subst hd
    rw [mem_singleton.mp hmem]
    decide
  obtain ⟨p, q, hpublished⟩ := length_eq_two.mp hlength
  have hp : p ∈ (after [found "a" "c" "i", found "a" "c" "i"]).published := by
    simp [hpublished]
  have hq : q ∈ (after [found "a" "c" "i", found "a" "c" "i"]).published := by
    simp [hpublished]
  obtain ⟨record, hrecord, href⟩ := map_eq_singleton_iff.mp (hrefs p hp)
  obtain ⟨record', hrecord', href'⟩ := map_eq_singleton_iff.mp (hrefs q hq)
  obtain ⟨device, device', hdevice⟩ :=
    entityRef_names_one_instance targetCatalog_valid _ hseparated hp hq
      (hrecord ▸ mem_singleton_self record) (hrecord' ▸ mem_singleton_self record')
      (href.trans href'.symm)
  exact ⟨p, q, device, device', hpublished, hrefs p hp, hrefs q hq, hdevice⟩

end SemanticCatalog
end Pdcm
