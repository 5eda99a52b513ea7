import AndroidAppliance.Supervisor.Moves
import AndroidAppliance.Transition.Table

/-!
# The invariant of the boot and stop tasks and of the boot futures

`TasksOk` ties the state to the tasks: a boot task that is neither done nor cancelled is
the current one and the state is STARTING, a stop task that is not done is the current one
and the state is STOPPING, and the boot future is pending in STARTING, resolved with
success in RUNNING and never left pending in STOPPED.
-/

namespace AndroidAppliance

namespace Supervisor

/-- The boot and stop tasks, the boot futures and the state agree. -/
structure TasksOk (c : Control) : Prop where
  /-- A future was resolved at most once, and has a result when it was. -/
  setOnce : ∀ (f : Nat) (t : Future), c.futures[f]? = some t →
    t.sets = if t.result.isSome then 1 else 0
  /-- A pending future is the current one, and Android is starting or stopping. -/
  pending : ∀ (f : Nat) (t : Future), c.futures[f]? = some t → t.result = none →
    c.bootDone = some f ∧ (c.state = .starting ∨ c.state = .stopping)
  starting : c.state = .starting →
    ∃ f t, c.bootDone = some f ∧ c.futures[f]? = some t ∧ t.result = none
  running : c.state = .running →
    ∃ f t, c.bootDone = some f ∧ c.futures[f]? = some t ∧ t.result = some .success
  stopping : c.state = .stopping →
    ∃ k t, c.stopTask = some k ∧ c.stops[k]? = some t ∧ t.pc ≠ .ended
  /-- A stop task that is not done is the current one, and holds what it captured. -/
  stopLive : ∀ (k : Nat) (t : Stop), c.stops[k]? = some t → t.pc ≠ .ended →
    c.state = .stopping ∧ c.stopTask = some k ∧ t.boot = c.bootTask ∧ t.done = c.bootDone
  /-- A boot task that is neither done nor cancelled is the current one. -/
  bootLive : ∀ (b : Nat) (t : Boot), c.boots[b]? = some t → t.cancelled = false →
    t.pc ≠ .ended → c.state = .starting ∧ c.bootTask = some b ∧ t.gen = c.begun
  /-- There is a boot task, except before the first start. -/
  begun : c.state ≠ .stopped → ∃ b, c.bootTask = some b
  /-- The boot task exists. -/
  bootTask : ∀ b : Nat, c.bootTask = some b → ∃ t, c.boots[b]? = some t
  /-- The boot future exists. -/
  bootDone : ∀ f : Nat, c.bootDone = some f → ∃ t, c.futures[f]? = some t

/-! ### Cancelled tasks -/

@[simp] theorem Boot.cancel_pc (t : Boot) : t.cancel.pc = t.pc := by
  unfold Boot.cancel; split <;> rfl

@[simp] theorem Boot.cancel_gen (t : Boot) : t.cancel.gen = t.gen := by
  unfold Boot.cancel; split <;> rfl

@[simp] theorem Boot.cancel_previous (t : Boot) : t.cancel.previous = t.previous := by
  unfold Boot.cancel; split <;> rfl

@[simp] theorem Boot.cancel_crash (t : Boot) : t.cancel.crash = t.crash := by
  unfold Boot.cancel; split <;> rfl

/-- A task on which `cancel()` was called is cancelled, unless it was done. -/
theorem Boot.cancel_over (t : Boot) : t.cancel.cancelled = true ∨ t.pc = .ended := by
  unfold Boot.cancel Boot.done
  split
  · exact .inr (by simp_all)
  · exact .inl rfl

/-- `cancel()` does not take a cancellation back. -/
theorem Boot.cancelled_of_cancel {t : Boot} (h : t.cancel.cancelled = false) :
    t.cancelled = false := by
  unfold Boot.cancel at h
  split at h
  · exact h
  · cases h

namespace Control

variable {c : Control} {b : Nat} {t : Boot} {current : Option Nat}

/-- `cancelBoot` cancels the boot task, unless that is the current task. -/
theorem cases_cancelBoot (h : (c.cancelBoot current).boots[b]? = some t) :
    c.boots[b]? = some t ∧ (c.bootTask = some b → current = some b) ∨
    ∃ t', c.boots[b]? = some t' ∧ t = t'.cancel ∧ c.bootTask = some b := by
  simp only [cancelBoot] at h
  split at h
  · rename_i b' hb'
    split at h
    · rename_i hcur
      exact .inl ⟨h, fun heq => by rw [hcur, ← hb', heq]⟩
    · obtain ⟨t', ht', ⟨rfl, rfl⟩ | ⟨hne, rfl⟩⟩ := Table.cases_modify h
      · exact .inr ⟨t', ht', rfl, hb'⟩
      · exact .inl ⟨ht', fun heq => absurd (Option.some.inj (hb'.symm.trans heq)) hne⟩
  · rename_i hnone
    exact .inl ⟨h, fun heq => by rw [hnone] at heq; cases heq⟩

/-- A task of the table stays in it when the boot task is cancelled. -/
theorem cancelBoot_exists (h : c.boots[b]? = some t) :
    ∃ t', (c.cancelBoot current).boots[b]? = some t' := by
  simp only [cancelBoot]
  split
  · split
    · exact ⟨t, h⟩
    · exact Table.modify_exists h
  · exact ⟨t, h⟩

end Control

namespace TasksOk

variable {c : Control}

/-! ### Reading the invariant -/

/-- There is no pending future in STOPPED and in RUNNING. -/
theorem settled (h : TasksOk c) (hs : c.state = .stopped ∨ c.state = .running) {f : Nat}
    {t : Future} (hf : c.futures[f]? = some t) : t.result ≠ none := by
  intro hn
  rcases (h.pending f t hf hn).2 with h' | h' <;> rcases hs with hs | hs <;>
    rw [hs] at h' <;> cases h'

/-- No stop task is left when the state is not STOPPING. -/
theorem stop_ended (h : TasksOk c) (hs : c.state ≠ .stopping) {k : Nat} {t : Stop}
    (hk : c.stops[k]? = some t) : t.pc = .ended := by
  by_contra hpc
  exact hs (h.stopLive k t hk hpc).1

/-- Every boot task is done or cancelled when the state is not STARTING. -/
theorem boot_over (h : TasksOk c) (hs : c.state ≠ .starting) {b : Nat} {t : Boot}
    (hb : c.boots[b]? = some t) : t.cancelled = true ∨ t.pc = .ended := by
  by_contra hcon
  rw [not_or, Bool.not_eq_true] at hcon
  exact hs (h.bootLive b t hb hcon.1 hcon.2).1

/-- The boot future is resolved exactly in STOPPED and RUNNING. -/
theorem resolved_iff (h : TasksOk c) {f : Nat} (hf : c.bootDone = some f) :
    c.resolved f = true ↔ ∃ t, c.futures[f]? = some t ∧ t.result ≠ none := by
  obtain ⟨t, ht⟩ := h.bootDone f hf
  simp [Control.resolved, ht, Option.isSome_iff_ne_none]

/-! ### What keeps it -/

theorem initial {l : Lifecycle} (h : l.Initial) : TasksOk l.ctl := by
  obtain ⟨crashes, apiLevel, activity, monotonic, wall, rfl⟩ := h
  constructor <;> simp [Lifecycle.new]

/-- The marks of a retry and of the shutdown play no part. -/
theorem marks (h : TasksOk c) (retried closing : Bool) :
    TasksOk { c with retried, closing } :=
  ⟨h.setOnce, h.pending, h.starting, h.running, h.stopping, h.stopLive, h.bootLive,
    h.begun, h.bootTask, h.bootDone⟩

/-- A step of a boot task that is not done, or its end. -/
theorem setBoot (h : TasksOk c) {b : Nat} {pc : BootPc}
    (hpc : pc ≠ .ended → ∀ t : Boot, c.boots[b]? = some t → t.pc ≠ .ended) :
    TasksOk (c.setBoot b pc) where
  setOnce := h.setOnce
  pending := h.pending
  starting := h.starting
  running := h.running
  stopping := h.stopping
  stopLive := h.stopLive
  bootLive b' t' hb' hc' hpc' := by
    obtain ⟨t, ht, ⟨rfl, rfl⟩ | ⟨-, rfl⟩⟩ := Table.cases_modify hb'
    · exact h.bootLive b t ht hc' (hpc hpc' t ht)
    · exact h.bootLive b' t' ht hc' hpc'
  begun := h.begun
  bootTask b' hb' := by
    obtain ⟨t, ht⟩ := h.bootTask b' hb'
    exact Table.modify_exists ht
  bootDone := h.bootDone

/-- A step of a stop task that is not done. -/
theorem setStop (h : TasksOk c) {k : Nat} {t : Stop} {pc : StopPc}
    (hk : c.stops[k]? = some t) (ht : t.pc ≠ .ended) (hpc : pc ≠ .ended) :
    TasksOk (c.setStop k pc) where
  setOnce := h.setOnce
  pending := h.pending
  starting := h.starting
  running := h.running
  stopping hs := by
    obtain ⟨-, hcur, -⟩ := h.stopLive k t hk ht
    exact ⟨k, _, hcur, Table.modify_self hk, hpc⟩
  stopLive k' t' hk' hpc' := by
    obtain ⟨u, hu, ⟨rfl, rfl⟩ | ⟨-, rfl⟩⟩ := Table.cases_modify hk'
    · cases hk.symm.trans hu
      exact h.stopLive k t hk ht
    · exact h.stopLive k' t' hu hpc'
  bootLive := h.bootLive
  begun := h.begun
  bootTask := h.bootTask
  bootDone := h.bootDone

/-- `_begin_boot`. -/
theorem beginBoot (h : TasksOk c) (hs : c.state = .stopped) : TasksOk c.beginBoot where
  setOnce f t hf := by
    rcases Table.cases_append hf with hf | ⟨-, rfl⟩
    · exact h.setOnce f t hf
    · rfl
  pending f t hf hn := by
    rcases Table.cases_append hf with hf | ⟨rfl, -⟩
    · exact absurd hn (h.settled (.inl hs) hf)
    · exact ⟨rfl, .inl rfl⟩
  starting _ := ⟨c.futures.length, .new, rfl, Table.append_new, rfl⟩
  running hr := by cases hr
  stopping hr := by cases hr
  stopLive k t hk hpc := absurd (h.stop_ended (by simp [hs]) hk) hpc
  bootLive b t hb hc hpc := by
    rcases Table.cases_append hb with hb | ⟨rfl, rfl⟩
    · rcases h.boot_over (by simp [hs]) hb with h' | h'
      · rw [hc] at h'; cases h'
      · exact absurd h' hpc
    · exact ⟨rfl, rfl, rfl⟩
  begun _ := ⟨_, rfl⟩
  bootTask b hb := by
    cases hb
    exact ⟨_, Table.append_new⟩
  bootDone f hf := by
    cases hf
    exact ⟨_, Table.append_new⟩

/-- `_begin_stop` by a task that is not a boot, or by a boot that ends there. -/
theorem beginStop (h : TasksOk c) (hup : c.state.up = true) {current : Option Nat}
    (hcur : ∀ (b : Nat) (t : Boot), current = some b → c.boots[b]? = some t → t.pc = .ended)
    (error : LifecycleError) : TasksOk (c.beginStop current error) where
  setOnce := h.setOnce
  pending f t hf hn := ⟨(h.pending f t hf hn).1, .inr rfl⟩
  starting hs := by cases hs
  running hs := by cases hs
  stopping _ := ⟨c.stops.length, _, rfl, Table.append_new, by simp⟩
  stopLive k t hk hpc := by
    rcases Table.cases_append hk with hk | ⟨rfl, rfl⟩
    · have hne : c.state ≠ .stopping := by rintro hs; rw [hs] at hup; cases hup
      exact absurd (h.stop_ended hne hk) hpc
    · exact ⟨rfl, rfl, rfl, rfl⟩
  bootLive b t hb hc hpc := by
    exfalso
    rcases Control.cases_cancelBoot hb with ⟨hb, himp⟩ | ⟨t', hb', rfl, -⟩
    · obtain ⟨-, htask, -⟩ := h.bootLive b t hb hc hpc
      exact hpc (hcur b t (himp htask) hb)
    · rcases t'.cancel_over with h' | h'
      · rw [hc] at h'; cases h'
      · exact hpc (by simpa using h')
  begun _ := h.begun (by rintro hs; rw [hs] at hup; cases hup)
  bootTask b hb := by
    obtain ⟨t, ht⟩ := h.bootTask b hb
    exact Control.cancelBoot_exists (c := { c with state := .stopping }) ht
  bootDone := h.bootDone

/-- A boot task that is neither done nor cancelled begins a stop and ends. -/
theorem beginStop_self (h : TasksOk c) {b : Nat} {t : Boot} (hb : c.boots[b]? = some t)
    (hc : t.cancelled = false) (hpc : t.pc ≠ .ended) (error : LifecycleError) :
    TasksOk ((c.beginStop (some b) error).setBoot b .ended) := by
  obtain ⟨hs, htask, -⟩ := h.bootLive b t hb hc hpc
  have hcomm : (c.beginStop (some b) error).setBoot b .ended =
      (c.setBoot b .ended).beginStop (some b) error := by
    simp [Control.beginStop, Control.setBoot, Control.cancelBoot, htask]
  rw [hcomm]
  refine (h.setBoot fun hne => absurd rfl hne).beginStop (by simp [Control.setBoot, hs, State.up])
    ?_ error
  rintro b' t' heq hb'
  cases heq
  obtain ⟨u, -, ⟨-, rfl⟩ | ⟨hne, -⟩⟩ := Table.cases_modify hb'
  · rfl
  · exact absurd rfl hne

/-- The boot future after `_retry` is pending, and an older one that is pending is it. -/
private theorem renew_pending (h : TasksOk c) (hup : c.state.up = true) :
    (∃ f t, c.renewBootFuture.bootDone = some f ∧ c.renewBootFuture.futures[f]? = some t ∧
      t.result = none) ∧
    ∀ (f : Nat) (t : Future), c.renewBootFuture.futures[f]? = some t → t.result = none →
      c.renewBootFuture.bootDone = some f := by
  by_cases hall : c.bootDone.all c.resolved = true
  · simp only [Control.renewBootFuture, hall, if_true]
    refine ⟨⟨_, _, rfl, Table.append_new, rfl⟩, fun f t hf hn => ?_⟩
    rcases Table.cases_append hf with hf | ⟨rfl, -⟩
    · obtain ⟨hdone, -⟩ := h.pending f t hf hn
      rw [hdone, Option.all_some, h.resolved_iff hdone] at hall
      obtain ⟨t', ht', hn'⟩ := hall
      cases ht'.symm.trans hf
      exact absurd hn hn'
    · rfl
  · simp only [Control.renewBootFuture, hall]
    refine ⟨?_, fun f t hf hn => (h.pending f t hf hn).1⟩
    cases hs : c.state with
    | starting => exact h.starting hs
    | running =>
      obtain ⟨f, t, hdone, hf, hres⟩ := h.running hs
      rw [hdone, Option.all_some, h.resolved_iff hdone] at hall
      exact absurd ⟨t, hf, by simp [hres]⟩ hall
    | stopped => simp [hs, State.up] at hup
    | stopping => simp [hs, State.up] at hup

/-- A future of `_retry` is an old one or a new one. -/
theorem cases_renew {f : Nat} {t : Future} (hf : c.renewBootFuture.futures[f]? = some t) :
    c.futures[f]? = some t ∨ t = .new := by
  simp only [Control.renewBootFuture] at hf
  split at hf
  · rcases Table.cases_append hf with hf | ⟨-, rfl⟩
    · exact .inl hf
    · exact .inr rfl
  · exact .inl hf

/-- The old futures stay at a `_retry`. -/
theorem renew_keeps {f : Nat} {t : Future} (hf : c.futures[f]? = some t) :
    c.renewBootFuture.futures[f]? = some t := by
  simp only [Control.renewBootFuture]
  split
  · exact Table.append_old hf
  · exact hf

/-- `_retry`. -/
theorem retry (h : TasksOk c) (hup : c.state.up = true) (crash : CrashInfo) :
    TasksOk (c.retry crash) where
  setOnce f t hf := by
    rcases cases_renew (c := { c with state := .starting }.cancelBoot none) hf with hf | rfl
    · exact h.setOnce f t hf
    · rfl
  pending f t hf hn := ⟨(renew_pending h hup).2 f t hf hn, .inl rfl⟩
  starting _ := (renew_pending h hup).1
  running hs := by cases hs
  stopping hs := by cases hs
  stopLive k t hk hpc := by
    have hne : c.state ≠ .stopping := by rintro hs; rw [hs] at hup; cases hup
    exact absurd (h.stop_ended hne hk) hpc
  bootLive b t hb hc hpc := by
    rcases Table.cases_append hb with hb | ⟨rfl, rfl⟩
    · exfalso
      rcases Control.cases_cancelBoot hb with ⟨hb, himp⟩ | ⟨t', hb', rfl, -⟩
      · obtain ⟨-, htask, -⟩ := h.bootLive b t hb hc hpc
        cases himp htask
      · rcases t'.cancel_over with h' | h'
        · rw [hc] at h'; cases h'
        · exact hpc (by simpa using h')
    · exact ⟨rfl, rfl, rfl⟩
  begun _ := ⟨_, rfl⟩
  bootTask b hb := by
    cases hb
    exact ⟨_, Table.append_new⟩
  bootDone f hf := by
    obtain ⟨⟨f', t, hdone, ht, -⟩, -⟩ := renew_pending h hup
    have heq : f' = f := Option.some.inj (hdone.symm.trans hf)
    exact ⟨t, heq ▸ ht⟩

/-- A result that is set for the first time. -/
theorem set_once {o : Outcome} {t : Future} (hn : t.result = none) :
    (t.set o).result = some o ∧ (t.set o).sets = t.sets + 1 := by
  simp [Future.set, hn]

/-- The end of a boot: RUNNING. -/
theorem complete (h : TasksOk c) {b f : Nat} {t : Boot} (hb : c.boots[b]? = some t)
    (hc : t.cancelled = false) (hpc : t.pc ≠ .ended) (hdone : c.bootDone = some f) :
    TasksOk ({ c.setBoot b .ended with state := .running }.resolve f .success) := by
  obtain ⟨hs, htask, -⟩ := h.bootLive b t hb hc hpc
  obtain ⟨f', u, hdone', hu, hn⟩ := h.starting hs
  cases hdone.symm.trans hdone'
  have hset := h.setOnce f u hu
  simp only [hn, Option.isSome_none, Bool.false_eq_true, if_false] at hset
  constructor
  case setOnce =>
    intro f' t' hf'
    obtain ⟨v, hv, ⟨rfl, rfl⟩ | ⟨-, rfl⟩⟩ := Table.cases_modify hf'
    · cases hu.symm.trans hv
      simp [Future.set, hn, hset]
    · exact h.setOnce f' t' hv
  case pending =>
    intro f' t' hf' hn'
    obtain ⟨v, hv, ⟨rfl, rfl⟩ | ⟨hne, rfl⟩⟩ := Table.cases_modify hf'
    · cases hu.symm.trans hv
      simp [Future.set, hn] at hn'
    · have := (h.pending f' t' hv hn').1
      exact absurd (Option.some.inj (hdone.symm.trans this)) hne
  case starting => intro hs'; cases hs'
  case running => exact fun _ => ⟨f, _, hdone, Table.modify_self hu, by simp [Future.set, hn]⟩
  case stopping => intro hs'; cases hs'
  case stopLive =>
    intro k t' hk hpc'
    exact absurd (h.stop_ended (by simp [hs]) hk) hpc'
  case bootLive =>
    intro b' t' hb' hc' hpc'
    exfalso
    obtain ⟨v, hv, ⟨rfl, rfl⟩ | ⟨hne, rfl⟩⟩ := Table.cases_modify hb'
    · exact hpc' rfl
    · obtain ⟨-, htask', -⟩ := h.bootLive b' t' hv hc' hpc'
      exact hne (Option.some.inj (htask.symm.trans htask'))
  case begun => exact fun _ => ⟨b, htask⟩
  case bootTask =>
    have hset : TasksOk (c.setBoot b .ended) := h.setBoot fun hne => absurd rfl hne
    exact hset.bootTask
  case bootDone =>
    intro f' hf'
    cases hdone.symm.trans hf'
    exact ⟨_, Table.modify_self hu⟩

/-- The end of a stop task: STOPPED, and the boot future it captured is resolved. -/
theorem finishStop (h : TasksOk c) {k : Nat} {t : Stop} (hk : c.stops[k]? = some t)
    (ht : t.pc ≠ .ended) : TasksOk (c.finishStop k t) := by
  obtain ⟨hs, hcur, hboot, hdone⟩ := h.stopLive k t hk ht
  have hfut : ∀ (f : Nat) (u : Future), (c.finishStop k t).futures[f]? = some u →
      u.result ≠ none ∧ u.sets = if u.result.isSome then 1 else 0 := by
    intro f u hf
    simp only [Control.finishStop] at hf
    split at hf
    · rename_i f' hf'
      rw [hdone] at hf'
      split at hf
      · rename_i hres
        refine ⟨fun hn => ?_, h.setOnce f u hf⟩
        have heq := hf'.symm.trans (h.pending f u hf hn).1
        obtain ⟨v, hv, hv'⟩ := (h.resolved_iff hf').mp hres
        cases Option.some.inj heq
        cases hv.symm.trans hf
        exact hv' hn
      · rename_i hres
        obtain ⟨v, hv, ⟨rfl, rfl⟩ | ⟨hne, rfl⟩⟩ := Table.cases_modify hf
        · have hn : v.result = none := by
            by_contra hn
            exact hres ((h.resolved_iff hf').mpr ⟨v, hv, hn⟩)
          have hset := h.setOnce f' v hv
          simp only [hn, Option.isSome_none, Bool.false_eq_true, if_false] at hset
          simp [Future.set, hn, hset]
        · refine ⟨fun hn => hne ?_, h.setOnce f u hv⟩
          exact Option.some.inj (hf'.symm.trans (h.pending f u hv hn).1)
    · rename_i hf'
      refine ⟨fun hn => ?_, h.setOnce f u hf⟩
      have := (h.pending f u hf hn).1
      rw [← hdone, hf'] at this
      cases this
  constructor
  case setOnce => exact fun f u hf => (hfut f u hf).2
  case pending => exact fun f u hf hn => absurd hn (hfut f u hf).1
  case starting => intro hs'; cases hs'
  case running => intro hs'; cases hs'
  case stopping => intro hs'; cases hs'
  case stopLive =>
    intro k' t' hk' hpc'
    exfalso
    obtain ⟨u, hu, ⟨rfl, rfl⟩ | ⟨hne, rfl⟩⟩ := Table.cases_modify hk'
    · exact hpc' rfl
    · exact hne (Option.some.inj (hcur.symm.trans (h.stopLive k' t' hu hpc').2.1))
  case bootLive =>
    intro b t' hb hc hpc
    have := (h.bootLive b t' hb hc hpc).1
    rw [hs] at this
    cases this
  case begun => exact fun hne => absurd rfl hne
  case bootTask => exact h.bootTask
  case bootDone =>
    intro f hf
    obtain ⟨u, hu⟩ := h.bootDone f hf
    simp only [Control.finishStop]
    split
    · split
      · exact ⟨u, hu⟩
      · exact Table.modify_exists hu
    · exact ⟨u, hu⟩

end TasksOk

/-! ### Every step keeps it -/

/-- A stretch of a boot task does not begin at the task's end. -/
theorem BootTeardown.not_ended {c : Control} {d : Devices} {t : Boot} {w : Wake} {p : Prepared}
    {r : Devices × TeardownNext} (h : BootTeardown c d t w p r) : t.pc ≠ .ended := by
  cases h <;> simp [*]

/-- The same of a stretch that ends in another wait. -/
theorem BootWaits.not_ended {c : Control} {d dev : Devices} {t : Boot} {w : Wake}
    {pc : BootPc} (h : BootWaits c d t w pc dev) : t.pc ≠ .ended := by
  cases h
  case tearing h => exact h.not_ended
  case torn h => exact h.not_ended
  all_goals simp [*]

/-- The same of a stretch that ends in an exception. -/
theorem BootRaises.not_ended {c : Control} {d dev : Devices} {t : Boot} {w : Wake}
    {x : BootError} (h : BootRaises c d t w x dev) : t.pc ≠ .ended := by
  cases h
  case torn h => exact h.not_ended
  case teardown h => exact h.not_ended
  case launch h => rintro hpc; simp [hpc, BootPc.launching] at h
  all_goals simp [*]

/-- The same of a stretch of a stop task. -/
theorem StopTeardown.not_ended {c : Control} {d : Devices} {t : Stop} {w : StopWake}
    {r : Devices × TeardownNext} (h : StopTeardown c d t w r) : t.pc ≠ .ended := by
  cases h
  case first h _ => rcases h with h | h <;> simp [h]
  case resume h _ => simp [h]

/-- What the end of a boot does to the tasks and the future. -/
theorem complete_ctl {l : Lifecycle} {b f : Nat} (h : l.ctl.bootDone = some f) :
    (l.complete b).ctl =
      { l.ctl.setBoot b .ended with state := .running }.resolve f .success := by
  simp [Lifecycle.complete, Control.setBoot, h]

theorem Move.tasksOk {cfg : Config} {l l' : Lifecycle} {ev : Event} (h : TasksOk l.ctl)
    (hm : Move cfg l ev l') : TasksOk l'.ctl := by
  have hnone : ∀ (b : Nat) (t : Boot), none = some b → l.ctl.boots[b]? = some t →
      t.pc = .ended := by rintro _ _ ⟨⟩
  cases hm with
  | begin hs _ => exact h.beginBoot hs
  | halt hup => exact h.beginStop hup hnone _
  | shutdownUp hup => exact (h.marks l.ctl.retried true).beginStop hup hnone _
  | shutdownDown _ => exact h.marks l.ctl.retried true
  | every => exact h
  | touch => exact h
  | clock _ => exact h
  | bootWaits hb hc hw =>
    exact h.setBoot fun _ t ht => by cases hb.symm.trans ht; exact hw.not_ended
  | bootFails hb hc hr => exact h.beginStop_self hb hc hr.not_ended _
  | bootDrops => exact h.setBoot fun hne => absurd rfl hne
  | bootDone hb hc hpc =>
    have hend : ∀ {t : Boot}, t.pc = .settingUp 0 → t.pc ≠ .ended := by rintro t ht; simp [ht]
    obtain ⟨hs, -⟩ := h.bootLive _ _ hb hc (hend hpc)
    obtain ⟨f, -, hdone, -⟩ := h.starting hs
    rw [complete_ctl hdone]
    exact h.complete hb hc (hend hpc) hdone
  | unwound => exact h.setBoot fun hne => absurd rfl hne
  | stopAwaits hk hpc => exact h.setStop hk (by simp [hpc]) (by simp)
  | stopWaits hk ht => exact h.setStop hk ht.not_ended (by simp)
  | stopDone hk ht _ => exact h.finishStop hk ht.not_ended
  | emu => exact h
  | watchFailed => exact h
  | watchDropped => exact h
  | @watchStops _ _ _ retried _ _ _ _ _ hup _ =>
    exact (h.marks retried l.ctl.closing).beginStop hup hnone _
  | watchRetries _ _ _ hup _ _ _ _ _ _ _ => exact (h.marks true l.ctl.closing).retry hup _

/-- **The invariant of the tasks** in every reachable state. -/
theorem tasksOk {cfg : Config} {l : Lifecycle} (h : (lifecycle cfg).Reachable l) :
    TasksOk l.ctl :=
  Machine.ReachBy.invariant (I := fun l => TasksOk l.ctl) (fun _ => TasksOk.initial)
    (fun _ _ _ hI _ hstep => Move.tasksOk hI (step_move hstep)) h

end Supervisor

end AndroidAppliance
