import Pdcm.Data.QueryRuns

/-!
# Age and origin of the items of a query

A successful answer has valid items only, each the latest sample of its key in the state
it was read in. Compared with the first read of the query such an item is newer, or its
key was handed to the fresh reader, or its age was accepted.
-/

namespace Pdcm

open Library DataManager QueryHost Program Option

/-! ### Valid items -/

namespace DataManager

variable {L : Limits} {s : DataManager L} {allowStale : Bool} {now : ℤ} {key : DataKey}
  {item o : Observation}

theorem latest?_of_readItem (h : s.readItem allowStale now key = .ok item)
    (hva : item.status = .valid) : s.latest? key = some item := by
  cases (readItem_iff.mp h).2 with
  | unsupported => cases hva
  | unsampled => cases hva
  | latest _ he ho =>
    rw [latest?, he]
    exact ho
  | stale => cases hva

theorem readItem_latest (hst : s.StoreInvariant) (ho : s.latest? key = some o)
    (hva : o.status = .valid) (h : s.readItem allowStale now key = .ok item) : item = o := by
  obtain ⟨e, he, hl⟩ := bind_eq_some_iff.mp ho
  cases (readItem_iff.mp h).2 with
  | unsupported hme =>
    have hkn := (hst _ key e he).2.metric
    simp [hme] at hkn
  | unsampled _ hno =>
    rw [latest?, hno] at ho
    cases ho
  | latest _ he' ho' =>
    rw [he, some.injEq] at he'
    subst he'
    rw [hl, some.injEq] at ho'
    exact ho'.symm
  | stale _ he' ho' _ hfa =>
    rw [he, some.injEq] at he'
    subst he'
    rw [hl, some.injEq] at ho'
    exact absurd (ho' ▸ hva) hfa

end DataManager

/-- The age of the item is at most the freshness of its metric and a maximal age that the
request sets. -/
def QueryRequest.Accepts (request : QueryRequest) (descriptor : MetricDescriptor) (age : ℤ) :
    Prop :=
  age ≤ descriptor.freshnessNs ∧ (request.maxAgeNs ≠ 0 → age ≤ request.maxAgeNs)

instance (request : QueryRequest) (descriptor : MetricDescriptor) (age : ℤ) :
    Decidable (request.Accepts descriptor age) :=
  inferInstanceAs (Decidable (_ ∧ (_ → _)))

theorem QueryRequest.accepts_of_not_outdated {request : QueryRequest} {now : ℤ}
    {item : Observation} {desc : MetricDescriptor} (hfr : desc.freshnessNs ≠ 0)
    (h : request.outdated now item desc = false) :
    request.Accepts desc (now - item.observedMonotonicTimeNs) := by
  have hyo := of_decide_eq_false h
  unfold effectiveAge at hyo
  push Not at hyo
  split_ifs at hyo with hmax
  · obtain ⟨hti, hage⟩ := hyo hmax.1
    have hca := toUint64_of_nonneg (sub_nonneg.mpr hti)
    constructor
    · omega
    · omega
  · obtain ⟨hti, hage⟩ := hyo hfr
    have hca := toUint64_of_nonneg (sub_nonneg.mpr hti)
    push Not at hmax
    constructor
    · omega
    · intro hset
      omega

/-! ### Phases of an answered query -/

namespace QueryEngine

variable {L : Limits} {host : QueryHost L} {engine : QueryEngine host} {request : QueryRequest}
  {w t : host.World} {τ : List (Event host.interface)} {r : QueryResult} {fuel : ℕ} {now : ℤ}
  {item : Observation} {keys : List DataKey} {clock first u : host.World} {last : host.World}

def isClock (e : Event host.interface) : Bool :=
  match e.call with
  | .monotonicNow => true
  | _ => false

def isLookup (e : Event host.interface) : Bool :=
  match e.call with
  | .metricDescriptor _ => true
  | _ => false

/-- An item is read again, is not supported, or is young enough for its descriptor. -/
inductive Examined (request : QueryRequest) (now : ℤ) (τ : List (Event host.interface))
    (keys : List DataKey) (item : Observation) : Prop
  | fresh (hkey : item.key ∈ keys)
  | unsupported (hstatus : item.status = .unsupported)
  | cached {u : host.World} (hpolicy : request.readPolicy ≠ .freshRequired)
      (hlookup : (⟨.metricDescriptor item.metric, u⟩ : Event host.interface) ∈ τ)
      (hage : ((host.data u).metricDescriptor item.metric).any (request.outdated now item) = false)

theorem needsFreshRead_runs {needed : Bool}
    (h : (needsFreshRead request now item).Runs host.environment w τ needed t) :
    Examined request now τ (if needed then [item.key] else []) item := by
  unfold needsFreshRead at h
  split_ifs at h with hun hpo hst
  · exact .unsupported hun
  · obtain ⟨-, rfl, -⟩ := runs_pure h
    exact .fresh (by simp)
  · obtain ⟨-, rfl, -⟩ := runs_pure h
    exact .fresh (by simp)
  · obtain ⟨u, after, -, hre, rfl⟩ := runs_call h
    obtain ⟨-, rfl, -⟩ := runs_pure hre
    cases hage : ((host.data u).metricDescriptor item.metric).any (request.outdated now item) with
    | true =>
      apply Examined.fresh
      simp [QueryHost.exec, hage]
    | false => exact .cached hpo (List.mem_cons_self ..) hage

theorem Examined.mono {τ' : List (Event host.interface)} {keys' : List DataKey}
    (h : Examined request now τ keys item) (hτ : τ ⊆ τ') (hke : keys ⊆ keys') :
    Examined request now τ' keys' item := by
  cases h with
  | fresh hkey => exact .fresh (hke hkey)
  | unsupported hst => exact .unsupported hst
  | cached hpo hlo hage => exact .cached hpo (hτ hlo) hage

theorem keysOutdated_runs {items : List Observation}
    (h : (keysOutdated request now items).Runs host.environment w τ keys t) :
    ∀ item ∈ items, Examined request now τ keys item := by
  induction items generalizing w τ keys t with
  | nil => simp
  | cons first rest ih =>
    obtain ⟨needed, u, τ₁, _, hne, hre, rfl⟩ := runs_bind h
    obtain ⟨others, v, τ₂, _, hot, hpu, rfl⟩ := runs_bind hre
    obtain ⟨rfl, rfl, rfl⟩ := runs_pure hpu
    intro item hit
    rcases List.mem_cons.mp hit with rfl | hit
    · apply (needsFreshRead_runs hne).mono (List.subset_append_left _ _)
      cases needed <;> simp
    · apply (ih hot item hit).mono
      · simp
      · cases needed <;> simp

/-- A query that returned items: its first clock reading and first read, the keys it asked
the fresh reader for, and the read its items are from. -/
inductive Answered (engine : QueryEngine host) (request : QueryRequest) (w : host.World)
    (τ : List (Event host.interface)) (r : QueryResult) (t : host.World) : Prop
  | intro {clock first u last : host.World} {keys : List DataKey}
      {τ₁ : List (Event host.interface)} {now : ℤ} {fresh : Status}
      (hclock : τ.find? isClock = some ⟨.monotonicNow, clock⟩)
      (hfirst : τ.find? isRead = some (reading request (host.now clock) first))
      (hstart : host.Later w first) (hlast : host.Later first last) (hend : host.Later last t)
      (hreadable : isReadableStatus (selected request first (host.now clock)).status = true)
      (hkeys : (keysNeedingFreshRead request (selected request first (host.now clock))
        (host.now clock)).Runs host.environment first τ₁ keys u)
      (hlookups : τ₁ ⊆ τ)
      (hfresh : keys ≠ [] → ∃ τ₂ v,
        (engine.freshStatus request keys
          (selected request first (host.now clock)).catalogGeneration).Runs host.environment u τ₂
            fresh v ∧
        host.Later v last ∧ τ₂ ⊆ τ)
      (hwhole : request.WholeSnapshot (selected request last now) fresh r)

/-- The read behind the snapshot that leaves the last phase, and the fresh read before it. -/
theorem settled_read {v : host.World} {τ₂ τ₃ : List (Event host.interface)}
    {fresh : DataReadResult × Status} {snap : DataReadResult}
    (hbet : host.Later first u)
    (href : (engine.refresh request (selected request first (host.now clock)) keys).Runs
      host.environment u τ₂ fresh v)
    (hse : (settle request fuel fresh.1).Runs host.environment v τ₃ (some snap) t)
    (hrea : isReadableStatus snap.status = true) :
    ∃ last now, snap = selected request last now ∧ host.Later first last ∧ host.Later last t ∧
      (keys ≠ [] → ∃ b x,
        (engine.freshStatus request keys
          (selected request first (host.now clock)).catalogGeneration).Runs host.environment u b
            fresh.2 x ∧
        host.Later x last ∧ b ⊆ τ₂) := by
  obtain ⟨-, hfro⟩ := settle_readable hse hrea
  obtain ⟨hend, hmet⟩ := runs_later hse
  rcases refresh_runs href with
    ⟨hno, -, rfl, rfl⟩ | ⟨-, x, b, after, hfr, hread, rfl⟩
  · rcases hfro with ⟨rfl, -⟩ | ⟨now, last, hmem, -, rfl⟩
    · exact ⟨first, host.now clock, rfl, .refl first, hbet.trans hend, fun h => absurd hno h⟩
    · obtain ⟨hbe, haf⟩ := hmet _ hmem.mem
      exact ⟨last, now, rfl, hbet.trans hbe, haf, fun h => absurd hno h⟩
  · obtain ⟨clock', hx, hv, -, hsn⟩ := readSelection_runs hread
    have hre := hbet.trans ((runs_later href).1)
    have hsub : b ⊆ b ++ after := List.subset_append_left _ _
    rcases hfro with ⟨rfl, -⟩ | ⟨now, last, hmem, -, rfl⟩
    · exact ⟨v, _, hsn, hre, hend, fun _ => ⟨b, x, hfr, hx.trans hv, hsub⟩⟩
    · obtain ⟨hbe, haf⟩ := hmet _ hmem.mem
      exact ⟨last, now, rfl, hre.trans hbe, haf,
        fun _ => ⟨b, x, hfr, (hx.trans hv).trans hbe, hsub⟩⟩

theorem execute_answered (h : (engine.execute request fuel).Runs host.environment w τ (some r) t)
    (hrea : isReadableStatus r.status = true) : Answered engine request w τ r t := by
  rcases execute_run h with ⟨-, st, hr, hun, -⟩ | ⟨start, waits, rest, hsta, rfl, hwa, han⟩
  · obtain rfl := some.inj hr
    exact absurd hrea (by simp [hun])
  · cases han with
    | unreadable _ _ hst hres =>
      obtain rfl := some.inj hres
      exact absurd (request.finalize_readable hrea).readable (by simp [hst])
    | phases hcl hfi hst hke hre hse hres =>
      obtain ⟨snapshot, rfl, rfl⟩ := map_eq_some_iff.mp hres
      have hwh := request.finalize_readable hrea
      obtain ⟨last, now, rfl, hlas, hend, hfr⟩ :=
        settled_read (runs_later hke).1 hre hse hwh.readable
      apply Answered.intro _ _ (hsta.trans (hcl.trans hfi)) hlas hend hst hke _ _ hwh
      -- before the first clock reading there is at most a wait for the epoch
      · rcases hwa with rfl | rfl <;> rfl
      · rcases hwa with rfl | rfl <;> rfl
      · intro e he
        simp [he]
      · intro hne
        obtain ⟨b, x, hrun, hla, hsub⟩ := hfr hne
        exact ⟨b, x, hrun, hla, fun e he => by simp [hsub he]⟩

theorem selected_generation (h : isReadableStatus (selected request u now).status = true) :
    (selected request u now).catalogGeneration = (host.data u).catalog.generation := by
  obtain ⟨items, hit, -⟩ := (readLatest_readable (isReadableStatus_iff.mp h)).readLatest
  rw [selected, hit]

/-- Where a valid item of the answer comes from: a commit after the first read, a key that
the fresh reader was asked for, or a cached sample that is young enough. -/
inductive Returned (request : QueryRequest) (now : ℤ) (first last : host.World)
    (keys : List DataKey) (item : Observation) : Prop
  | newer (hepoch : (host.data first).commitEpoch < item.commitEpoch)
  | reread (hkey : item.key ∈ keys)
      (hgeneration : (host.data last).catalog.generation = (host.data first).catalog.generation)
      (hknown : (host.data first).metricDescriptor item.metric ≠ none)
  | cached {descriptor : MetricDescriptor} (hpolicy : request.readPolicy = .cacheOrFresh)
      (hdescriptor : (host.data first).metricDescriptor item.metric = some descriptor)
      (haccepts : request.Accepts descriptor (now - item.observedMonotonicTimeNs))

section Returned

variable (hpo : request.readPolicy ≠ .cacheOnly)
  (hac : (host.store first).Accounted)
  (hre : isReadableStatus (selected request first (host.now clock)).status = true)
  (hke : (keysNeedingFreshRead request (selected request first (host.now clock))
    (host.now clock)).Runs host.environment first τ keys u) (hcat : ∀ e ∈ τ, isLookup e = true →
    (host.data e.state).catalog.generation = (host.data first).catalog.generation)
include hpo hac hre hke hcat

theorem returned_of_kept
    (hgen : (host.data last).catalog.generation = (host.data first).catalog.generation)
    (hkey : item.key ∈ request.selection) (hva : item.status = .valid)
    (hla : (host.data first).latest? item.key = some item) :
    Returned request (host.now clock) first last keys item := by
  obtain ⟨e, he, -⟩ := bind_eq_some_iff.mp hla
  obtain ⟨descriptor, hde⟩ :=
    isSome_iff_exists.mp (hac.store _ item.key e he).2.metric
  obtain ⟨items, hit, -, -, hev⟩ :=
    (readLatest_readable (isReadableStatus_iff.mp hre)).readLatest
  obtain ⟨found, hfo, hrea⟩ := hev item.key hkey
  obtain rfl := readItem_latest hac.store hla hva hrea
  simp only [keysNeedingFreshRead, hpo, selected, hit] at hke
  cases keysOutdated_runs hke found hfo with
  | unsupported hun =>
    rw [hva] at hun
    cases hun
  | fresh hne =>
    apply Returned.reread hne hgen
    exact ne_none_iff_exists'.mpr ⟨descriptor, hde⟩
  | @cached lookup hca hlo hage =>
    have hsi := ((runs_later hke).2 _ hlo).1
    have hkn : (host.data lookup).metricDescriptor found.metric = some descriptor := by
      rw [hsi.data.metricDescriptor (hcat _ hlo rfl)]
      exact hde
    rw [hkn] at hage
    have hfr := hac.freshness _ descriptor hde
    refine .cached ?_ hde (QueryRequest.accepts_of_not_outdated hfr hage)
    cases hpol : request.readPolicy with
    | cacheOnly => exact absurd hpol hpo
    | freshRequired => exact absurd hpol hca
    | cacheOrFresh => rfl

theorem returned_item (hlas : host.Later first last)
    (hsu : (selected request last now).status.ok = true)
    (hit : item ∈ (selected request last now).items) :
    (host.data last).latest? item.key = some item ∧
      Returned request (host.now clock) first last keys item := by
  obtain ⟨items, hrl, -, hfr, -⟩ :=
    (readLatest_readable (.inl ((Status.ok_iff _).mp hsu))).readLatest
  rw [selected, hrl] at hsu hit
  obtain ⟨key, hkey, hrea⟩ := hfr item hit
  have hva : item.status = .valid := by
    split_ifs at hsu with hany
    · cases hsu
    · by_contra hbad
      exact hany (List.any_eq_true.mpr ⟨item, hit, decide_eq_true hbad⟩)
  have hla := latest?_of_readItem hrea hva
  obtain ⟨e, he, hl⟩ := bind_eq_some_iff.mp hla
  have hst := (hlas.1.accounted hac).store _ key e he
  obtain rfl : item.key = key := (hst.2.consistent.own item (.inl hl)).1
  refine ⟨hla, ?_⟩
  cases hlas.data.latest item.key with
  | lost _ hno =>
    rw [hla] at hno
    cases hno
  | newer hne hlt =>
    rw [hla, some.injEq] at hne
    exact .newer (hne ▸ hlt)
  | same hgen hsa =>
    exact returned_of_kept hpo hac hre hke hcat hgen hkey hva (hsa.symm.trans hla)

end Returned

end QueryEngine
end Pdcm
