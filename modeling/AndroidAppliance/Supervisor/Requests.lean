import AndroidAppliance.Supervisor.Tasks

/-!
# The calls into the Supervisor

`start`, `stop`, `restart`, `wait`, `lease` and `shutdown`, in any number and in any order,
on top of the lifecycle. A call is an entry of a table with the place where it waits; a
step of the machine `supervisor` is one stretch of one call, one tick of a repeating task,
or one step of the lifecycle's own tasks (`SupEvent.loop`).

Every step makes at most one step of the lifecycle, after at most one `touch_activity`
(`step_core`), so what holds of every reachable lifecycle holds here
(`Supervisor.reachable_core`).
-/

namespace AndroidAppliance

namespace Supervisor

/-! ### Calls -/

/-- A call, with the arguments that its caller gave. -/
inductive Request
  | start (wait : Bool) (timeout : Option ℚ)
  | stop (wait : Bool)
  | restart (wait : Bool) (timeout : Option ℚ)
  | wait (timeout : Option ℚ)
  | lease (wake : Bool)
  | shutdown
  /-- `_start(False, None)` in a task of `_spawn`. -/
  | background
  deriving DecidableEq, Repr

/-- The `timeout` of the `_join_boot` in the call. -/
def Request.timeout : Request → Option ℚ
  | .start _ timeout | .restart _ timeout | .wait timeout => timeout
  | .stop _ | .lease _ | .shutdown | .background => none

/-- How a call ended. -/
inductive Result
  | returned
  | raised (e : LifecycleError)
  /-- The caller was cancelled. -/
  | cancelled
  /-- The body of a lease raised. -/
  | bodyRaised
  /-- An `assert` failed. -/
  | asserted
  deriving DecidableEq, Repr

/-- Where a call waits. -/
inductive CallPc
  /-- A task of `_spawn` before its first step. -/
  | created
  /-- `asyncio.shield(self._stop_task)`. -/
  | stopping (k : Nat)
  /-- `_join_boot`. -/
  | joining (f : Nat)
  /-- The body of a lease. -/
  | leased
  /-- `adb.kill_server()`. -/
  | killServer
  | ended (r : Result)
  deriving DecidableEq, Repr

/-- A call, and where it waits. -/
structure Call where
  request : Request
  pc : CallPc
  deriving DecidableEq, Repr

/-- The Supervisor with its callers. -/
structure Sup where
  core : Lifecycle
  calls : List Call
  /-- `_leases`. -/
  leases : Int
  deriving DecidableEq, Repr

/-- `_join_boot` up to its wait. -/
def Lifecycle.joinBoot (l : Lifecycle) : CallPc :=
  match l.ctl.bootDone with
  | some f => .joining f
  | none => .ended .asserted

/-- `stop` up to its wait, without the wait itself. -/
def Lifecycle.stop (l : Lifecycle) : Lifecycle :=
  if l.ctl.state.up then l.halt else l

/-- `idle_seconds`. -/
def Lifecycle.idleSeconds (l : Lifecycle) : Nat :=
  match l.info.activity with
  | none => 0
  | some activity => (l.info.wall - activity).floor.toNat

namespace Sup

/-! ### Stretches of the calls -/

/-- `_spawn(self._start(False, None))`. -/
def spawn (s : Sup) : Sup :=
  { s with calls := s.calls ++ [{ request := .background, pc := .created }] }

/-- The stop task of STOPPING, for a call that waits for it. -/
def awaitStop (s : Sup) (done : CallPc) : CallPc :=
  if s.core.ctl.state = .stopping then
    match s.core.ctl.stopTask with
    | some k => .stopping k
    | none => done
  else done

/-- A turn of the loop in `_start`. -/
def start (s : Sup) (wait : Bool) : Sup × CallPc :=
  if s.core.ctl.closing then (s, .ended (.raised .shuttingDown))
  else match s.core.ctl.state with
    | .running => (s, .ended .returned)
    | .stopping =>
      if wait then (s, s.awaitStop (.ended .asserted)) else (s.spawn, .ended .returned)
    | .stopped =>
      let s := { s with core := s.core.beginBoot }
      (s, if wait then s.core.joinBoot else .ended .returned)
    | .starting => (s, if wait then s.core.joinBoot else .ended .returned)

/-- The `finally` block of `lease`. -/
def release (s : Sup) : Sup :=
  { s with leases := s.leases - 1 }

/-- `lease` from the end of its start on: the client, or the exception. -/
def lease (r : Sup × CallPc) : Sup × CallPc :=
  match r.2 with
  | .ended .returned =>
    match r.1.core.dev.grpc with
    | some _ => (r.1, .leased)
    | none => (r.1.release, .ended (.raised (.noClient r.1.core.ctl.state)))
  | .ended res => (r.1.release, .ended res)
  | pc => (r.1, pc)

/-- What a call does after a stretch of its `_start`. -/
def andThen : Request → Sup × CallPc → Sup × CallPc
  | .lease _, r => lease r
  | _, r => r

/-- The first stretch of a call. -/
def enter (s : Sup) : Request → Sup × CallPc
  | .start wait _ => ({ s with core := s.core.touch }).start wait
  | .stop wait =>
    let s := { s with core := s.core.stop }
    (s, if wait then s.awaitStop (.ended .returned) else .ended .returned)
  | .restart wait _ =>
    let s := { s with core := s.core.touch.stop }
    if wait then s.start true else (s.spawn, .ended .returned)
  | .wait _ =>
    match s.core.ctl.state with
    | .running => (s, .ended .returned)
    | .starting => (s, s.core.joinBoot)
    | state => (s, .ended (.raised (.conflict state)))
  | .lease wake =>
    let s := { s with leases := s.leases + 1 }
    if wake then lease (s.start true)
    else if s.core.ctl.state = .running then lease (s, .ended .returned)
    else lease (s, .ended (.raised (.conflict s.core.ctl.state)))
  | .shutdown =>
    let s := { s with core := s.core.shutdown }
    (s, s.awaitStop .killServer)
  | .background => s.start false

/-- What a call does when a stop that it awaited is over. -/
def afterStop (s : Sup) : Request → Sup × CallPc
  | .stop _ => (s, .ended .returned)
  | .shutdown => (s, .killServer)
  | request => andThen request (s.start true)

/-- The stretch of a call after its wait; `none` while that waits. -/
def wake (s : Sup) (t : Call) : Option (Sup × CallPc) :=
  match t.pc with
  | .created => some (s.start false)
  | .stopping k =>
    if (s.core.ctl.stops[k]?).any (·.pc = .ended) then some (s.afterStop t.request) else none
  | .joining f =>
    match (s.core.ctl.futures[f]?).bind (·.result) with
    | some .success => some (andThen t.request (s, .ended .returned))
    | some (.error e) => some (andThen t.request (s, .ended (.raised e)))
    | none => none
  | .killServer => some (s, .ended .returned)
  | .leased | .ended _ => none

/-- The wait of `_join_boot` is over and the boot is not. -/
def expire (s : Sup) (t : Call) : Option (Sup × CallPc) :=
  match t.pc, t.request.timeout with
  | .joining f, some timeout =>
    if s.core.ctl.resolved f then none
    else some (andThen t.request (s, .ended (.raised (.notBooted timeout))))
  | _, _ => none

/-- The body of a lease is over. -/
def leave (s : Sup) (t : Call) (ok : Bool) : Option (Sup × CallPc) :=
  match t.pc, t.request with
  | .leased, .lease wake =>
    let s := if ok && wake then { s with core := s.core.touch } else s
    some (s.release, .ended (if ok then .returned else .bodyRaised))
  | _, _ => none

/-- CancelledError leaves a call. -/
def cancel (s : Sup) (t : Call) : Option (Sup × CallPc) :=
  match t.pc, t.request with
  | .ended _, _ => none
  | _, .lease _ => some (s.release, .ended .cancelled)
  | _, _ => some (s, .ended .cancelled)

/-- A new call at its first wait. -/
def addCall (request : Request) (r : Sup × CallPc) : Sup :=
  { r.1 with calls := r.1.calls ++ [{ request, pc := r.2 }] }

/-- A call moves on to another wait. -/
def setCall (c : Nat) (r : Sup × CallPc) : Sup :=
  { r.1 with calls := r.1.calls.modify c ({ · with pc := r.2 }) }

/-- `_idle_check`. -/
def idleCheck (cfg : Config) (s : Sup) : Sup :=
  if cfg.idleStopSeconds = 0 ∨ s.leases ≠ 0 ∨ s.core.ctl.state ≠ .running then s
  else if cfg.idleStopSeconds ≤ s.core.idleSeconds then { s with core := s.core.halt }
  else s

end Sup

/-! ### The machine -/

/-- The events of the lifecycle that only calls cause. -/
def Event.byCall : Event → Bool
  | .begin | .halt | .shutdown => true
  | _ => false

/-- The labels of the supervisor machine. -/
inductive SupEvent
  /-- A new call and its first stretch. -/
  | call (request : Request)
  /-- The wait of a call is over. -/
  | resume (c : Nat)
  /-- The timeout of a call is over. -/
  | expire (c : Nat)
  /-- The body of a lease ends. -/
  | leave (c : Nat) (ok : Bool)
  /-- A caller is cancelled. -/
  | cancel (c : Nat)
  /-- A repeating task runs its job. -/
  | tick (r : Nat)
  /-- A step of the lifecycle's own tasks, of the processes or of the clock. -/
  | loop (ev : Event)
  deriving DecidableEq, Repr

namespace Sup

/-- One step of the Supervisor. -/
def step (cfg : Config) (s : Sup) : SupEvent → Option Sup
  | .call request =>
    if request = .background then none else some (addCall request (s.enter request))
  | .resume c => (s.calls[c]?).bind fun t => (s.wake t).map (setCall c)
  | .expire c => (s.calls[c]?).bind fun t => (s.expire t).map (setCall c)
  | .leave c ok => (s.calls[c]?).bind fun t => (s.leave t ok).map (setCall c)
  | .cancel c => (s.calls[c]?).bind fun t => (s.cancel t).map (setCall c)
  | .tick r =>
    (s.core.job.repeats[r]?).bind fun t =>
      if t.cancelled then none
      else match s.core.job.jobs[t.job]? with
        | some .idleCheck => some (s.idleCheck cfg)
        | some .other => some s
        | none => none
  | .loop ev =>
    if ev.byCall then none else (s.core.step cfg ev).map fun core => { s with core }

/-- A Supervisor that nobody has called yet. -/
def Initial (s : Sup) : Prop := s.core.Initial ∧ s.calls = [] ∧ s.leases = 0

end Sup

/-- The machine of the Supervisor and its callers. -/
def supervisor (cfg : Config) : Machine Sup SupEvent where
  Init := Sup.Initial
  step := Sup.step cfg

/-! ### Every step is at most one step of the lifecycle -/

/-- What a call does to the lifecycle: perhaps `touch_activity`, then perhaps one event. -/
inductive CallStep (cfg : Config) (l : Lifecycle) : Lifecycle → Prop
  | idle : CallStep cfg l l
  | touch : CallStep cfg l l.touch
  | event {e : Event} {l' : Lifecycle} : e.byCall = true → l.step cfg e = some l' →
      CallStep cfg l l'
  | touchEvent {e : Event} {l' : Lifecycle} : e.byCall = true →
      l.touch.step cfg e = some l' → CallStep cfg l l'

namespace CallStep

variable {cfg : Config} {l l' : Lifecycle}

/-- A stretch that leaves the lifecycle alone. -/
theorem of_eq (h : l' = l) : CallStep cfg l l' := h ▸ .idle

/-- A stretch that touches the activity first. -/
theorem after_touch (h : l' = l.touch ∨ ∃ ev, ev.byCall = true ∧ l.touch.step cfg ev = some l') :
    CallStep cfg l l' := by
  rcases h with rfl | ⟨ev, hev, h⟩
  · exact .touch
  · exact .touchEvent hev h

/-- A stretch that does not. -/
theorem of_event (h : l' = l ∨ ∃ ev, ev.byCall = true ∧ l.step cfg ev = some l') :
    CallStep cfg l l' := by
  rcases h with rfl | ⟨ev, hev, h⟩
  · exact .idle
  · exact .event hev h

end CallStep

namespace Sup

variable {cfg : Config} {s s' : Sup}

/-- A turn of `_start` begins a boot, or leaves the lifecycle alone. -/
theorem start_core (wait : Bool) : (s.start wait).1.core = s.core ∨
    ∃ ev, ev.byCall = true ∧ s.core.step cfg ev = some (s.start wait).1.core := by
  unfold start
  by_cases hc : s.core.ctl.closing = true
  · exact .inl (by simp [hc])
  cases hs : s.core.ctl.state with
  | running => exact .inl (by simp [hc])
  | stopping => cases wait <;> exact .inl (by simp [hc, spawn])
  | starting => exact .inl (by simp [hc])
  | stopped => exact .inr ⟨.begin, rfl, by simp [hc, hs, Lifecycle.step]⟩

/-- `stop` begins a stop, or leaves the lifecycle alone. -/
theorem stop_core (l : Lifecycle) : l.stop = l ∨
    ∃ ev, ev.byCall = true ∧ l.step cfg ev = some l.stop := by
  unfold Lifecycle.stop
  by_cases hup : l.ctl.state.up = true
  · exact .inr ⟨.halt, rfl, by simp [hup, Lifecycle.step]⟩
  · exact .inl (by simp [hup])

/-- In STOPPING, `_start` begins nothing. -/
theorem start_stopping (hs : s.core.ctl.state = .stopping) (wait : Bool) :
    (s.start wait).1.core = s.core := by
  unfold start
  by_cases hc : s.core.ctl.closing = true
  · simp [hc]
  · cases wait <;> simp [hc, hs, spawn]

@[simp] theorem lease_core (r : Sup × CallPc) : (lease r).1.core = r.1.core := by
  unfold lease
  split
  · split <;> rfl
  · rfl
  · rfl

@[simp] theorem andThen_core (q : Request) (r : Sup × CallPc) :
    (andThen q r).1.core = r.1.core := by
  cases q <;> simp [andThen]

/-- The first stretch of a call. -/
theorem enter_core (q : Request) : CallStep cfg s.core (s.enter q).1.core := by
  cases q with
  | start wait timeout =>
    exact .after_touch (start_core (s := { s with core := s.core.touch }) wait)
  | stop wait => exact .of_event (stop_core _)
  | restart wait timeout =>
    by_cases hup : s.core.ctl.state.up = true
    · have hstop : s.core.touch.stop = s.core.touch.halt := if_pos hup
      have hstep : s.core.touch.step cfg .halt = some s.core.touch.halt := if_pos hup
      have hcore : (s.enter (.restart wait timeout)).1.core = s.core.touch.halt := by
        simp only [enter, hstop]
        cases wait with
        | false => rfl
        | true => exact start_stopping (s := { s with core := s.core.touch.halt }) rfl true
      exact .touchEvent (e := .halt) rfl (hcore ▸ hstep)
    · have hstop : s.core.touch.stop = s.core.touch := if_neg hup
      simp only [enter, hstop]
      cases wait with
      | false => exact .touch
      | true => exact .after_touch (start_core (s := { s with core := s.core.touch }) true)
  | wait timeout =>
    have h : (s.enter (.wait timeout)).1.core = s.core := by
      simp only [enter]
      split <;> rfl
    exact .of_eq h
  | lease wake =>
    simp only [enter]
    cases wake with
    | true =>
      simp only [if_true, lease_core]
      exact .of_event (start_core (s := { s with leases := s.leases + 1 }) true)
    | false =>
      simp only [Bool.false_eq_true, if_false]
      split <;> exact .of_eq (lease_core _)
  | shutdown => exact .event (e := .shutdown) rfl rfl
  | background => exact .of_event (start_core false)

/-- A later stretch of a call. -/
theorem wake_core {t : Call} {r : Sup × CallPc} (h : s.wake t = some r) :
    CallStep cfg s.core r.1.core := by
  unfold wake at h
  split at h
  · cases h
    exact .of_event (start_core false)
  · split at h
    · cases h
      cases t.request with
      | stop | shutdown => exact .idle
      | start | restart | wait | lease | background =>
        simp only [afterStop, andThen_core]
        exact .of_event (start_core true)
    · cases h
  · split at h
    · cases h
      rw [andThen_core]
      exact .idle
    · cases h
      rw [andThen_core]
      exact .idle
    · cases h
  · cases h
    exact .idle
  · cases h
  · cases h

theorem expire_core {t : Call} {r : Sup × CallPc} (h : s.expire t = some r) :
    r.1.core = s.core := by
  unfold expire at h
  split at h
  · split at h
    · cases h
    · cases h
      rw [andThen_core]
  · cases h

theorem leave_core {t : Call} {ok : Bool} {r : Sup × CallPc} (h : s.leave t ok = some r) :
    r.1.core = s.core ∨ r.1.core = s.core.touch := by
  unfold leave at h
  split at h
  · rename_i wake _ _
    cases h
    by_cases hw : (ok && wake) = true
    · exact .inr (by simp [hw, release])
    · exact .inl (by simp [hw, release])
  · cases h

theorem cancel_core {t : Call} {r : Sup × CallPc} (h : s.cancel t = some r) :
    r.1.core = s.core := by
  unfold cancel at h
  split at h <;> cases h <;> rfl

theorem idleCheck_core : CallStep cfg s.core (s.idleCheck cfg).core := by
  unfold idleCheck
  split
  · exact .idle
  · rename_i hrun
    simp only [not_or, not_not] at hrun
    split
    · exact .event (e := .halt) rfl (if_pos (by simp [hrun.2.2, State.up]))
    · exact .idle

/-- **Every step of the Supervisor is at most one step of the lifecycle**, after at most
one `touch_activity`. -/
theorem step_core {ev : SupEvent} (h : s.step cfg ev = some s') :
    (∃ e, ev = .loop e ∧ e.byCall = false ∧ s.core.step cfg e = some s'.core) ∨
    (∀ e, ev ≠ .loop e) ∧ CallStep cfg s.core s'.core := by
  cases ev with
  | call q =>
    simp only [step] at h
    split at h
    · cases h
    · cases h
      exact .inr ⟨by simp, enter_core q⟩
  | resume c =>
    obtain ⟨t, -, h⟩ := Option.bind_eq_some_iff.mp h
    obtain ⟨r, hr, rfl⟩ := Option.map_eq_some_iff.mp h
    exact .inr ⟨by simp, wake_core hr⟩
  | expire c =>
    obtain ⟨t, -, h⟩ := Option.bind_eq_some_iff.mp h
    obtain ⟨r, hr, rfl⟩ := Option.map_eq_some_iff.mp h
    have hcore : (setCall c r).core = s.core := expire_core hr
    exact .inr ⟨by simp, .of_eq hcore⟩
  | leave c ok =>
    obtain ⟨t, -, h⟩ := Option.bind_eq_some_iff.mp h
    obtain ⟨r, hr, rfl⟩ := Option.map_eq_some_iff.mp h
    refine .inr ⟨by simp, ?_⟩
    rcases leave_core hr with hcore | hcore
    · exact .of_eq hcore
    · have hset : (setCall c r).core = s.core.touch := hcore
      exact hset ▸ .touch
  | cancel c =>
    obtain ⟨t, -, h⟩ := Option.bind_eq_some_iff.mp h
    obtain ⟨r, hr, rfl⟩ := Option.map_eq_some_iff.mp h
    have hcore : (setCall c r).core = s.core := cancel_core hr
    exact .inr ⟨by simp, .of_eq hcore⟩
  | tick r =>
    obtain ⟨t, -, h⟩ := Option.bind_eq_some_iff.mp h
    split at h
    · cases h
    · split at h
      · cases h
        exact .inr ⟨by simp, idleCheck_core⟩
      · cases h
        exact .inr ⟨by simp, .idle⟩
      · cases h
  | loop e =>
    simp only [step] at h
    split at h
    · cases h
    · rename_i hcall
      obtain ⟨core, hcore, rfl⟩ := Option.map_eq_some_iff.mp h
      exact .inl ⟨e, rfl, by simpa using hcall, hcore⟩

/-! ### A step is about one call -/

/-- A turn of `_start` only adds calls. -/
theorem start_calls (s : Sup) (wait : Bool) : ∃ more, (s.start wait).1.calls = s.calls ++ more := by
  unfold start
  split
  · exact ⟨[], (List.append_nil _).symm⟩
  · split
    · exact ⟨[], (List.append_nil _).symm⟩
    · split
      · exact ⟨[], (List.append_nil _).symm⟩
      · exact ⟨_, rfl⟩
    · exact ⟨[], (List.append_nil _).symm⟩
    · exact ⟨[], (List.append_nil _).symm⟩

@[simp] theorem lease_calls (r : Sup × CallPc) : (lease r).1.calls = r.1.calls := by
  unfold lease
  split
  · split <;> rfl
  · rfl
  · rfl

@[simp] theorem andThen_calls (q : Request) (r : Sup × CallPc) :
    (andThen q r).1.calls = r.1.calls := by
  cases q <;> simp [andThen]

theorem enter_calls (s : Sup) (q : Request) : ∃ more, (s.enter q).1.calls = s.calls ++ more := by
  have hnone : ∀ r : Sup, r.calls = s.calls → ∃ more, r.calls = s.calls ++ more := fun r hr =>
    ⟨[], by rw [hr, List.append_nil]⟩
  cases q with
  | start wait timeout => exact start_calls { s with core := s.core.touch } wait
  | stop wait => exact hnone _ rfl
  | restart wait timeout =>
    simp only [enter]
    cases wait with
    | true => exact start_calls { s with core := s.core.touch.stop } true
    | false => exact ⟨_, rfl⟩
  | wait timeout =>
    simp only [enter]
    split <;> exact hnone _ rfl
  | lease wake =>
    simp only [enter]
    cases wake with
    | true =>
      simp only [if_true, lease_calls]
      exact start_calls { s with leases := s.leases + 1 } true
    | false =>
      simp only [Bool.false_eq_true, if_false]
      split <;> exact hnone _ (lease_calls _)
  | shutdown => exact hnone _ rfl
  | background => exact start_calls s false

theorem wake_calls {t : Call} {r : Sup × CallPc} (h : s.wake t = some r) :
    ∃ more, r.1.calls = s.calls ++ more := by
  unfold wake at h
  split at h
  · cases h
    exact start_calls s false
  · split at h
    · cases h
      cases t.request with
      | stop | shutdown => exact ⟨[], (List.append_nil _).symm⟩
      | start | restart | wait | lease | background =>
        simp only [afterStop, andThen_calls]
        exact start_calls s true
    · cases h
  · split at h
    · cases h
      exact ⟨[], by simp⟩
    · cases h
      exact ⟨[], by simp⟩
    · cases h
  · cases h
    exact ⟨[], (List.append_nil _).symm⟩
  · cases h
  · cases h

theorem expire_calls {t : Call} {r : Sup × CallPc} (h : s.expire t = some r) :
    r.1.calls = s.calls := by
  unfold expire at h
  split at h
  · split at h
    · cases h
    · cases h
      rw [andThen_calls]
  · cases h

theorem leave_calls {t : Call} {ok : Bool} {r : Sup × CallPc} (h : s.leave t ok = some r) :
    r.1.calls = s.calls := by
  unfold leave at h
  split at h
  · cases h
    simp only [release]
    split <;> rfl
  · cases h

theorem cancel_calls {t : Call} {r : Sup × CallPc} (h : s.cancel t = some r) :
    r.1.calls = s.calls := by
  unfold cancel at h
  split at h <;> cases h <;> rfl

/-- What a step of the call `c'` makes of the call `c`, when calls may have been added. -/
theorem getElem?_setCall {c : Nat} {t : Call} {r : Sup × CallPc} (c' : Nat)
    (hc : s.calls[c]? = some t) (hr : ∃ more, r.1.calls = s.calls ++ more) :
    (setCall c' r).calls[c]? = some t ∨
      c' = c ∧ (setCall c' r).calls[c]? = some { t with pc := r.2 } := by
  obtain ⟨more, hmore⟩ := hr
  have hold : r.1.calls[c]? = some t := by
    rw [hmore, List.getElem?_append_left (List.getElem?_eq_some_iff.mp hc).1, hc]
  rw [setCall, List.getElem?_modify, hold]
  by_cases hcc : c' = c
  · exact .inr ⟨hcc, by simp [hcc]⟩
  · exact .inl (by simp [hcc])

/-- A call stays where it waits, unless the step is about it. -/
theorem step_calls {ev : SupEvent} {c : Nat} {t : Call} (h : s.step cfg ev = some s')
    (hc : s.calls[c]? = some t) : s'.calls[c]? = some t ∨
    ∃ r : Sup × CallPc, s'.core = r.1.core ∧ s'.calls[c]? = some { t with pc := r.2 } ∧
      (ev = .resume c ∧ s.wake t = some r ∨ ev = .expire c ∧ s.expire t = some r ∨
        (∃ ok, ev = .leave c ok ∧ s.leave t ok = some r) ∨
        ev = .cancel c ∧ s.cancel t = some r) := by
  have hsame {r : Sup × CallPc} (hr : r.1.calls = s.calls) : ∃ more, r.1.calls = s.calls ++ more :=
    ⟨[], by rw [hr, List.append_nil]⟩
  cases ev with
  | call q =>
    simp only [step] at h
    split at h
    · cases h
    · cases h
      obtain ⟨more, hmore⟩ := enter_calls s q
      have hadd : (addCall q (s.enter q)).calls =
          s.calls ++ (more ++ [{ request := q, pc := (s.enter q).2 }]) := by
        simp [addCall, hmore]
      rw [hadd, List.getElem?_append_left (List.getElem?_eq_some_iff.mp hc).1]
      exact .inl hc
  | resume c' =>
    obtain ⟨t', ht', h⟩ := Option.bind_eq_some_iff.mp h
    obtain ⟨r, hr, rfl⟩ := Option.map_eq_some_iff.mp h
    obtain hkept | ⟨rfl, hself⟩ := getElem?_setCall c' hc (wake_calls hr)
    · exact .inl hkept
    · cases ht'.symm.trans hc
      exact .inr ⟨r, rfl, hself, .inl ⟨rfl, hr⟩⟩
  | expire c' =>
    obtain ⟨t', ht', h⟩ := Option.bind_eq_some_iff.mp h
    obtain ⟨r, hr, rfl⟩ := Option.map_eq_some_iff.mp h
    obtain hkept | ⟨rfl, hself⟩ := getElem?_setCall c' hc (hsame (expire_calls hr))
    · exact .inl hkept
    · cases ht'.symm.trans hc
      exact .inr ⟨r, rfl, hself, .inr (.inl ⟨rfl, hr⟩)⟩
  | leave c' ok =>
    obtain ⟨t', ht', h⟩ := Option.bind_eq_some_iff.mp h
    obtain ⟨r, hr, rfl⟩ := Option.map_eq_some_iff.mp h
    obtain hkept | ⟨rfl, hself⟩ := getElem?_setCall c' hc (hsame (leave_calls hr))
    · exact .inl hkept
    · cases ht'.symm.trans hc
      exact .inr ⟨r, rfl, hself, .inr (.inr (.inl ⟨ok, rfl, hr⟩))⟩
  | cancel c' =>
    obtain ⟨t', ht', h⟩ := Option.bind_eq_some_iff.mp h
    obtain ⟨r, hr, rfl⟩ := Option.map_eq_some_iff.mp h
    obtain hkept | ⟨rfl, hself⟩ := getElem?_setCall c' hc (hsame (cancel_calls hr))
    · exact .inl hkept
    · cases ht'.symm.trans hc
      exact .inr ⟨r, rfl, hself, .inr (.inr (.inr ⟨rfl, hr⟩))⟩
  | tick r =>
    obtain ⟨t', -, h⟩ := Option.bind_eq_some_iff.mp h
    split at h
    · cases h
    · split at h
      · cases h
        unfold idleCheck
        split
        · exact .inl hc
        · split <;> exact .inl hc
      · cases h; exact .inl hc
      · cases h
  | loop e =>
    simp only [step] at h
    split at h
    · cases h
    · obtain ⟨core, -, rfl⟩ := Option.map_eq_some_iff.mp h
      exact .inl hc

end Sup

/-! ### The lifecycle under its callers -/

/-- A condition on the steps of the lifecycle that holds of everything a call does. -/
def CallSafe (ok : Lifecycle → Event → Prop) : Prop :=
  ∀ l ev, ev.byCall = true ∨ ev = .touch → ok l ev

/-- The same condition on the steps of the Supervisor. -/
def Sup.Ok (ok : Lifecycle → Event → Prop) (s : Sup) : SupEvent → Prop
  | .loop ev => ok s.core ev
  | _ => True

instance Sup.decidableOk (ok : Lifecycle → Event → Prop) [∀ l ev, Decidable (ok l ev)] (s : Sup) :
    ∀ ev, Decidable (Sup.Ok ok s ev)
  | .loop ev => inferInstanceAs (Decidable (ok s.core ev))
  | .call _ | .resume _ | .expire _ | .leave _ _ | .cancel _ | .tick _ => .isTrue trivial

/-- What a call does is a path of the lifecycle. -/
theorem CallStep.path {cfg : Config} {ok : Lifecycle → Event → Prop} (hok : CallSafe ok)
    {l l' : Lifecycle} (h : CallStep cfg l l') : (lifecycle cfg).PathBy ok l l' := by
  have htouch : (lifecycle cfg).PathBy ok l l.touch :=
    .single (hok l .touch (.inr rfl)) rfl
  cases h with
  | idle => exact .refl ..
  | touch => exact htouch
  | event hev h => exact .single (hok l _ (.inl hev)) h
  | touchEvent hev h => exact htouch.tail (hok _ _ (.inl hev)) h

/-- The lifecycle simulates the Supervisor. -/
theorem supervisor_simulation (cfg : Config) {ok : Lifecycle → Event → Prop}
    (hok : CallSafe ok) :
    Machine.Simulation (supervisor cfg) (lifecycle cfg) (Sup.Ok ok) ok Sup.core where
  init _ h := h.1
  step s ev s' hs h := by
    rcases Sup.step_core h with ⟨e, rfl, -, h⟩ | ⟨-, h⟩
    · exact .single hs h
    · exact h.path hok

/-- The lifecycle of a Supervisor that was reached is one that was reached. -/
theorem reachBy_core {cfg : Config} {ok : Lifecycle → Event → Prop} (hok : CallSafe ok)
    {s : Sup} (h : (supervisor cfg).ReachBy (Sup.Ok ok) s) : (lifecycle cfg).ReachBy ok s.core :=
  (supervisor_simulation cfg hok).reachBy h

theorem reachable_core {cfg : Config} {s : Sup} (h : (supervisor cfg).Reachable s) :
    (lifecycle cfg).Reachable s.core :=
  reachBy_core (fun _ _ _ => trivial) (h.mono fun _ ev _ => by cases ev <;> trivial)

end Supervisor

end AndroidAppliance
