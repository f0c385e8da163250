import Pdcm.Core.SessionManager

/-!
# Session quotas

The session manager together with a log of the calls on it that succeeded. Along every run
the table and the counters stay within the limits, an identifier is given out at most once,
a counter is what its session reserved and did not release, and once draining has begun no
session can be added or used.
-/

namespace Pdcm

inductive SessionOp where
  | beginHandshake (peer : PeerIdentity)
  | activate (id : SessionId)
  | beginDraining
  | close (id : SessionId)
  | closeAll
  | reserve (id : SessionId) (kind : CounterKind)
  | release (id : SessionId) (kind : CounterKind)
  deriving DecidableEq, Repr

/-- What a call that succeeded is logged as. -/
inductive SessionEvent where
  | created (id : SessionId)
  | reserved (id : SessionId) (kind : CounterKind)
  | released (id : SessionId) (kind : CounterKind)
  | drained
  deriving DecidableEq, Repr

namespace SessionEvent

def session : SessionEvent → Option SessionId
  | created id | reserved id _ | released id _ => some id
  | drained => none

/-- After the first event the second one can happen: identifiers are given out once, and
nothing is added after draining has begun. -/
def Allows : SessionEvent → SessionEvent → Prop
  | created id, created other => id ≠ other
  | drained, created _ | drained, reserved _ _ => False
  | _, _ => True

end SessionEvent

/-- A session manager and its successful calls, oldest first. -/
structure SessionLog where
  manager : SessionManager
  events : List SessionEvent := []

namespace SessionLog

open Library List OrderedMap SessionEvent SessionManager

/-- The call is logged if it succeeded. -/
def answered (log : SessionLog) (out : SessionManager × Status) (e : SessionEvent) : SessionLog :=
  ⟨out.1, if out.2.ok then log.events ++ [e] else log.events⟩

def step (log : SessionLog) : SessionOp → SessionLog
  | .beginHandshake peer =>
    let out := log.manager.beginHandshake peer
    log.answered (out.1, out.2.status) (created out.2.id)
  | .activate id => { log with manager := (log.manager.activate id).1 }
  | .beginDraining => ⟨log.manager.beginDraining.1, log.events ++ [drained]⟩
  | .close id => { log with manager := (log.manager.close id).1 }
  | .closeAll => ⟨log.manager.closeAll, log.events ++ [drained]⟩
  | .reserve id kind => log.answered (log.manager.reserve id kind) (reserved id kind)
  | .release id kind => log.answered (log.manager.release id kind) (released id kind)

/-- A live session was created. Its counters are what it has reserved and not released, and
while the manager drains it takes nothing more. -/
structure Metered (log : SessionLog) (id : SessionId) (s : SessionSnapshot) : Prop where
  created : created id ∈ log.events
  counted (kind : CounterKind) : kind.counter s.counters + log.events.count (released id kind) =
    log.events.count (reserved id kind)
  counter_le (kind : CounterKind) : kind.counter s.counters ≤ kind.limit log.manager.limits
  ended : log.manager.draining = true → s.state ≠ .active ∧ s.state ≠ .handshaking

def Given (m : SessionManager) (id : SessionId) : Prop :=
  id ≠ 0 ∧ (m.nextSessionId = 0 ∨ id < m.nextSessionId)

structure Quotas (limits : ResourceLimits) (log : SessionLog) : Prop where
  limits_eq : log.manager.limits = limits
  size_le : log.manager.size ≤ limits.maxSessions
  given : ∀ e ∈ log.events, ∀ id ∈ e.session, Given log.manager id
  allowed : log.events.Pairwise Allows
  draining : drained ∈ log.events → log.manager.draining = true
  metered (id : SessionId) (s : SessionSnapshot) :
    log.manager.sessions.find? id = some s → log.Metered id s

variable {limits : ResourceLimits} {log : SessionLog} {next : SessionManager} {e : SessionEvent}

theorem counter_setCounter (kind other : CounterKind) (counters : SessionCounters) (value : ℕ) :
    other.counter (kind.setCounter counters value) =
      if other = kind then value else other.counter counters := by
  cases kind <;> cases other <;> rfl

/-- An event about another session changes nothing for this one. -/
theorem Metered.event {id : SessionId} {s : SessionSnapshot} (h : log.Metered id s)
    (hot : id ∉ e.session) (hli : next.limits = log.manager.limits)
    (hdr : next.draining = log.manager.draining) :
    Metered ⟨next, log.events ++ [e]⟩ id s := by
  refine ⟨mem_append_left _ h.created, fun kind => ?_, hli ▸ h.counter_le, hdr ▸ h.ended⟩
  have hno : ∀ other : SessionEvent, other.session = some id → [e].count other = 0 := by
    intro other hid
    refine count_eq_zero.mpr fun hmem => hot ?_
    rwa [← mem_singleton.mp hmem]
  rw [count_append, count_append, hno _ rfl, hno _ rfl]
  exact h.counted kind

section

variable (h : log.Quotas limits)

include h

theorem Quotas.extend (hli : next.limits = limits) (hsi : next.size ≤ limits.maxSessions)
    (hgi : ∀ id, Given log.manager id ∨ id ∈ e.session → Given next id)
    (hal : ∀ a ∈ log.events, a.Allows e)
    (hdr : log.manager.draining = true ∨ e = drained → next.draining = true)
    (hme : ∀ id s, next.sessions.find? id = some s → Metered ⟨next, log.events ++ [e]⟩ id s) :
    Quotas limits ⟨next, log.events ++ [e]⟩ := by
  refine ⟨hli, hsi, fun a ha id hid => hgi id ?_, ?_, fun hmem => hdr ?_, hme⟩
  · rcases mem_append.mp ha with ha | ha
    · exact .inl (h.given a ha id hid)
    · exact .inr (mem_singleton.mp ha ▸ hid)
  · refine pairwise_append.mpr ⟨h.allowed, pairwise_singleton .., fun a ha b hb => ?_⟩
    exact mem_singleton.mp hb ▸ hal a ha
  · rw [mem_append, mem_singleton] at hmem
    exact hmem.imp h.draining Eq.symm

/-- A session takes or gives back one unit. -/
theorem Quotas.meter {id : SessionId} {s : SessionSnapshot}
    (hfi : log.manager.sessions.find? id = some s) {kind : CounterKind} {value : ℕ}
    (he : e = reserved id kind ∧ s.state = .active ∧ value = kind.counter s.counters + 1 ∧
        value ≤ kind.limit log.manager.limits ∨
      e = released id kind ∧ value + 1 = kind.counter s.counters) :
    Quotas limits
      ⟨{ log.manager with
          sessions := log.manager.sessions.insert id
            { s with counters := kind.setCounter s.counters value } }, log.events ++ [e]⟩ := by
  have hs := h.metered id s hfi
  have hof : e.session = some id := by
    rcases he with ⟨rfl, -⟩ | ⟨rfl, -⟩ <;> rfl
  refine h.extend h.limits_eq ?_ ?_ ?_ ?_ ?_
  · exact (size_insert_le_of_find? hfi).trans h.size_le
  · rintro j (hj | hj)
    · exact hj
    · rw [hof] at hj
      cases hj
      exact h.given _ hs.created id rfl
  · intro a ha
    rcases he with ⟨rfl, hac, -⟩ | ⟨rfl, -⟩
    · cases a with
      | drained => exact absurd hac (hs.ended (h.draining ha)).1
      | _ => trivial
    · cases a <;> trivial
  · rintro (hdr | rfl)
    · exact hdr
    · cases hof
  · intro j t hj
    dsimp only at hj
    rw [find?_insert] at hj
    split_ifs at hj with hji
    · cases hj
      subst hji
      refine ⟨mem_append_left _ hs.created, fun k => ?_, fun k => ?_, hs.ended⟩
      · have hco := hs.counted k
        rcases he with ⟨rfl, -, rfl, -⟩ | ⟨rfl, hva⟩
        all_goals
          simp only [counter_setCounter]
          split_ifs with hk
          · subst hk
            simp
            omega
          · simpa [Ne.symm hk] using hco
      · have hle := hs.counter_le k
        simp only [counter_setCounter]
        split_ifs with hk
        · subst hk
          rcases he with ⟨-, -, -, hle⟩ | ⟨-, hva⟩ <;> omega
        · exact hle
    · refine (h.metered j t hj).event (fun hmem => hji ?_) rfl rfl
      rw [hof] at hmem
      exact (Option.some.inj hmem).symm

theorem Quotas.beginHandshake (peer : PeerIdentity) :
    (log.step (.beginHandshake peer)).Quotas limits := by
  unfold SessionLog.step SessionManager.beginHandshake
  dsimp only
  by_cases hdr : log.manager.draining = true
  · rwa [if_pos hdr]
  by_cases hro : log.manager.limits.maxSessions ≤ log.manager.sessions.size
  · rwa [if_neg hdr, if_pos hro]
  by_cases hid : log.manager.nextSessionId = 0
  · rwa [if_neg hdr, if_neg hro, if_pos hid]
  rw [if_neg hdr, if_neg hro, if_neg hid]
  have hnew : ∀ e, log.manager.nextSessionId ∈ e.session → e ∉ log.events := by
    intro e hme hmem
    obtain ⟨-, hze | hlt⟩ := h.given e hmem _ hme
    · exact hid hze
    · exact hlt.false
  have hfresh : log.manager.sessions.find? log.manager.nextSessionId = none :=
    Option.eq_none_iff_forall_ne_some.mpr fun s hfi => hnew _ rfl (h.metered _ s hfi).created
  refine h.extend h.limits_eq ?_ ?_ ?_ ?_ ?_
  · dsimp only [SessionManager.size, emplace]
    rw [hfresh]
    exact (size_insert_le _ _ _).trans (h.limits_eq ▸ not_le.mp hro)
  · intro id hgi
    have hle : id ≠ 0 ∧ id ≤ log.manager.nextSessionId := by
      rcases hgi with ⟨hne, hze | hlt⟩ | hmem
      · exact absurd hze hid
      · exact ⟨hne, hlt.le⟩
      · cases hmem
        exact ⟨hid, le_rfl⟩
    refine ⟨hle.1, ?_⟩
    dsimp only
    split_ifs
    · exact .inl rfl
    · exact .inr (Nat.lt_succ_of_le hle.2)
  · intro a ha
    cases a with
    | created other => exact fun heq => hnew (created other) (congrArg some heq) ha
    | drained => exact hdr (h.draining ha)
    | _ => trivial
  · rintro (hdra | hdra)
    · exact hdra
    · cases hdra
  · intro id s hfi
    dsimp only at hfi
    rw [find?_emplace, hfresh] at hfi
    split_ifs at hfi with heq
    · cases hfi
      subst heq
      refine ⟨by simp, fun kind => ?_, fun kind => ?_, fun hdra => absurd hdra hdr⟩
      · simp [count_eq_zero.mpr (hnew (released _ kind) rfl),
          count_eq_zero.mpr (hnew (reserved _ kind) rfl)]
        cases kind <;> rfl
      · cases kind <;> exact Nat.zero_le _
    · refine (h.metered id s hfi).event (fun hmem => heq ?_) rfl rfl
      exact (Option.some.inj hmem).symm

theorem Quotas.step (op : SessionOp) : (log.step op).Quotas limits := by
  cases op with
  | beginHandshake peer => exact h.beginHandshake peer
  | activate id =>
    unfold SessionLog.step activate
    dsimp only
    cases hfi : log.manager.sessions.find? id with
    | none => exact h
    | some s =>
      dsimp only
      split_ifs with hno
      · exact h
      refine { h with
        size_le := (size_insert_le_of_find? hfi).trans h.size_le, metered := fun j t hj => ?_ }
      dsimp only at hj
      rw [find?_insert] at hj
      split_ifs at hj with hji
      · cases hj
        subst hji
        exact { h.metered j s hfi with ended := fun hdr => absurd (.inl hdr) hno }
      · exact { h.metered j t hj with }
  | beginDraining =>
    refine h.extend h.limits_eq ?_ ?_ ?_ (fun _ => rfl) fun id t ht => ?_
    · exact (length_map ..).trans_le h.size_le
    · exact fun _ hgi => hgi.resolve_right nofun
    · exact fun a _ => by cases a <;> trivial
    change (log.manager.sessions.mapValues _).find? id = some t at ht
    rw [find?_mapValues] at ht
    obtain ⟨s, hfi, rfl⟩ := Option.map_eq_some_iff.mp ht
    have hs := h.metered id s hfi
    refine ⟨mem_append_left _ hs.created, fun kind => ?_, hs.counter_le, fun _ => ?_⟩
    · simpa using hs.counted kind
    · cases hst : s.state <;> simp [drainedState]
  | close id =>
    unfold SessionLog.step close
    dsimp only
    cases log.manager.sessions.find? id with
    | none => exact h
    | some s =>
      refine { h with size_le := ?_, metered := fun j t hj => ?_ }
      · exact (length_filter_le ..).trans h.size_le
      dsimp only at hj
      rw [find?_erase] at hj
      split_ifs at hj
      exact { h.metered j t hj with }
  | closeAll =>
    exact h.extend h.limits_eq (Nat.zero_le _) (fun _ hgi => hgi.resolve_right nofun)
      (fun a _ => by cases a <;> trivial) (fun _ => rfl) nofun
  | reserve id kind =>
    unfold SessionLog.step reserve
    dsimp only
    cases hfi : log.manager.sessions.find? id with
    | none => exact h
    | some s =>
      dsimp only
      split_ifs with hac hfu
      · exact h
      · exact h
      · exact h.meter hfi (.inl ⟨rfl, not_not.mp hac, rfl, not_le.mp hfu⟩)
  | release id kind =>
    unfold SessionLog.step release
    dsimp only
    cases hfi : log.manager.sessions.find? id with
    | none => exact h
    | some s =>
      dsimp only
      split_ifs with hze
      · exact h
      · exact h.meter hfi (.inr ⟨rfl, Nat.sub_add_cancel (Nat.pos_of_ne_zero hze)⟩)

end

/-- Whatever is called, in whatever order, and also when the identifiers run out. -/
theorem run_quotas (limits : ResourceLimits) (ops : List SessionOp) :
    (runFrom SessionLog.step ⟨{ limits := limits }, []⟩ ops).Quotas limits := by
  refine invariant_run (fun _ op h => h.step op) ?_ ops
  exact ⟨rfl, Nat.zero_le _, nofun, .nil, nofun, nofun⟩

end SessionLog
end Pdcm
