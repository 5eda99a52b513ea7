import AndroidAppliance.Turn.Basic
import AndroidAppliance.Transition.Table

/-!
# What the calls, tasks and processes of turnserver agree on

`rotate` restarts turnserver only while there is a supervising task, and there is none while
another `rotate` or `start` is on its way. `TurnOk` keeps `rotate` from those moments in
which its new secret would miss the server that is on its way, and `start` and `stop` from
crossing a restart. `Ok` is what then holds, and a call that moves on keeps it.
-/

namespace AndroidAppliance

namespace Turn

/-! ### The condition -/

/-- A call that waits for a task works on no process yet. -/
def CallPc.gathers : CallPc → Bool
  | .gathering _ => true
  | .terminating _ | .killing _ | .draining _ | .spawning _ | .ended => false

/-- The call executes turnserver. -/
def CallPc.executes : CallPc → Bool
  | .spawning (.executing _) => true
  | .gathering _ | .terminating _ | .killing _ | .draining _ | .spawning .addresses
  | .ended => false

/-- The task executes turnserver. -/
def TaskPc.executes : TaskPc → Bool
  | .spawning (.executing _) => true
  | .created _ | .waiting _ | .draining _ | .sleeping | .spawning .addresses | .unwinding _
  | .ended => false

/-- A call or the supervising task has executed turnserver and waits for that. -/
def Executing (d : Turn) : Prop :=
  (∃ k ∈ d.calls, k.pc.executes = true) ∨
    ∃ t ∈ d.task, ∃ u ∈ d.tasks[t]?, u.pc.executes = true

/-- `rotate` or `start` is in flight. -/
def Restarting (d : Turn) : Prop := ∃ k ∈ d.calls, k.request ≠ .stop ∧ k.pc ≠ .ended

/-- No call is in flight. -/
def Idle (d : Turn) : Prop := ∀ k ∈ d.calls, k.pc = .ended

/-- The calls that do not cross a restart. -/
def TurnOk (d : Turn) : Event → Prop
  | .start => d.task = none ∧ d.Idle
  | .stop => d.running = true → ∀ k ∈ d.calls, k.request ≠ .stop → k.pc.gathers = false
  | .rotate _ written => written = true ∧ d.task ≠ none ∨
      ¬ d.Executing ∧ (d.running = true → d.Restarting)
  | .resume _ _ | .task _ _ | .dies _ | .reap _ => True

instance (d : Turn) : Decidable d.Executing := inferInstanceAs (Decidable (_ ∨ _))

instance (d : Turn) : Decidable d.Restarting := inferInstanceAs (Decidable (∃ k ∈ d.calls, _))

instance (d : Turn) : Decidable d.Idle := inferInstanceAs (Decidable (∀ k ∈ d.calls, _))

instance (d : Turn) : ∀ e, Decidable (TurnOk d e)
  | .start => inferInstanceAs (Decidable (_ ∧ _))
  | .stop => inferInstanceAs (Decidable (_ → _))
  | .rotate _ _ => inferInstanceAs (Decidable (_ ∨ _))
  | .resume _ _ | .task _ _ | .dies _ | .reap _ => .isTrue trivial

/-! ### The invariant -/

/-- The process that a task works on. -/
def TaskPc.on : TaskPc → Option Nat
  | .created proc => proc
  | .waiting p | .spawning (.executing p) | .unwinding p => some p
  | .draining _ | .sleeping | .spawning .addresses | .ended => none

/-- The process that a task alone knows. -/
def TaskPc.owns : TaskPc → Option Nat
  | .spawning (.executing p) | .unwinding p => some p
  | .created _ | .waiting _ | .draining _ | .sleeping | .spawning .addresses | .ended => none

/-- The process that a call works on. -/
def CallPc.on : CallPc → Option Nat
  | .terminating p | .killing p | .spawning (.executing p) => some p
  | .gathering _ | .draining _ | .spawning .addresses | .ended => none

/-- The calls, the tasks and the processes agree. -/
structure Ok (d : Turn) : Prop where
  reaped : ∀ (p : Nat) x, d.procs[p]? = some x → x.reaped = true → x.alive = false
  /-- Only the last process can be open. -/
  last : ∀ p : Nat, d.isOpen p = true → p + 1 = d.procs.length
  /-- An open process is the one that `Turn`, a call or a task holds. -/
  holder : ∀ p : Nat, d.isOpen p = true → d.proc = some p ∨
    (∃ (c : Nat) (k : Call), d.calls[c]? = some k ∧ k.pc.on = some p) ∨
    ∃ (t : Nat) (u : Task), d.tasks[t]? = some u ∧ u.pc.owns = some p
  /-- While a call or a task works on a process, or on none, no other one is open. -/
  call : ∀ (c : Nat) (k : Call), d.calls[c]? = some k → k.pc ≠ .ended → k.pc.gathers = false →
    ∀ p, d.isOpen p = true → k.pc.on = some p
  worker : ∀ (t : Nat) (u : Task), d.tasks[t]? = some u → u.pc ≠ .ended →
    ∀ p, d.isOpen p = true → u.pc.on = some p
  /-- A restart is alone. -/
  alone : ∀ (c : Nat) (k : Call), d.calls[c]? = some k → k.request ≠ .stop → k.pc ≠ .ended →
    d.task = none ∧ ∀ (c' : Nat) (k' : Call), d.calls[c']? = some k' → c' ≠ c → k'.pc = .ended
  /-- Nothing is in flight beside a supervising task. -/
  idle : ∀ t : Nat, d.task = some t → d.Idle
  /-- A task that is not done is the supervising one, or was cancelled by a call that waits
  for it. -/
  tasks : ∀ (t : Nat) (u : Task), d.tasks[t]? = some u → u.pc ≠ .ended → d.task = some t ∨
    u.cancelled = true ∧ ∃ (c : Nat) (k : Call), d.calls[c]? = some k ∧ k.pc = .gathering t
  proc : d.proc ≠ none → d.task ≠ none ∨
    ∃ (c : Nat) (k : Call), d.calls[c]? = some k ∧ k.pc.gathers = true
  /-- The secrets. -/
  running : ¬ d.Restarting → ∀ (p : Nat) x, d.proc = some p → d.isOpen p = true →
    d.procs[p]? = some x → x.secret = d.secret
  respawn : ∀ (t : Nat) (u : Task) (p : Nat) x, d.task = some t → d.tasks[t]? = some u →
    u.pc = .spawning (.executing p) → d.procs[p]? = some x → x.secret = d.secret
  restart : ∀ (c : Nat) (k : Call) (p : Nat) x, d.calls[c]? = some k →
    k.pc = .spawning (.executing p) → d.procs[p]? = some x → x.secret = d.secret
  /-- `stop` starts nothing. -/
  spawns : ∀ (c : Nat) (k : Call) s, d.calls[c]? = some k → k.pc = .spawning s →
    k.request ≠ .stop

variable {d d' : Turn} {c t : Nat} {k : Call} {u : Task}

/-! ### Tables -/

theorem restarting_iff : d.Restarting ↔
    ∃ (c : Nat) (k : Call), d.calls[c]? = some k ∧ k.request ≠ .stop ∧ k.pc ≠ .ended := by
  constructor
  · rintro ⟨k, hk, hreq⟩
    obtain ⟨c, hc⟩ := List.mem_iff_getElem?.mp hk
    exact ⟨c, k, hc, hreq⟩
  · rintro ⟨c, k, hc, hreq⟩
    exact ⟨k, List.mem_of_getElem? hc, hreq⟩

/-- A call after one of them has moved. -/
theorem cases_setCall {pc : CallPc} {c' : Nat} {k' : Call}
    (h : (d.setCall c pc).calls[c']? = some k') (hc : d.calls[c]? = some k) :
    c' = c ∧ k' = { k with pc } ∨ c' ≠ c ∧ d.calls[c']? = some k' := by
  obtain ⟨y, hy, ⟨rfl, rfl⟩ | ⟨hne, rfl⟩⟩ := Table.cases_modify h
  · cases hc.symm.trans hy
    exact .inl ⟨rfl, rfl⟩
  · exact .inr ⟨Ne.symm hne, hy⟩

/-- A task after one of them has moved. -/
theorem cases_setTask {pc : TaskPc} {t' : Nat} {u' : Task}
    (h : (d.setTask t pc).tasks[t']? = some u') (ht : d.tasks[t]? = some u) :
    t' = t ∧ u' = { u with pc } ∨ t' ≠ t ∧ d.tasks[t']? = some u' := by
  obtain ⟨y, hy, ⟨rfl, rfl⟩ | ⟨hne, rfl⟩⟩ := Table.cases_modify h
  · cases ht.symm.trans hy
    exact .inl ⟨rfl, rfl⟩
  · exact .inr ⟨Ne.symm hne, hy⟩

theorem setCall_self {pc : CallPc} (hc : d.calls[c]? = some k) :
    (d.setCall c pc).calls[c]? = some { k with pc } :=
  Table.modify_self hc

theorem setCall_ne {pc : CallPc} {c' : Nat} {k' : Call} (hne : c' ≠ c)
    (h : d.calls[c']? = some k') : (d.setCall c pc).calls[c']? = some k' :=
  Table.modify_ne (Ne.symm hne) h

theorem setTask_self {pc : TaskPc} (ht : d.tasks[t]? = some u) :
    (d.setTask t pc).tasks[t]? = some { u with pc } :=
  Table.modify_self ht

theorem setTask_ne {pc : TaskPc} {t' : Nat} {u' : Task} (hne : t' ≠ t)
    (h : d.tasks[t']? = some u') : (d.setTask t pc).tasks[t']? = some u' :=
  Table.modify_ne (Ne.symm hne) h

namespace Ok

theorem initial (h : d.Initial) : d.Ok := by
  unfold Initial at h
  rw [h]
  constructor <;> simp [isOpen, Idle]

/-- A call that was not begun yet. -/
theorem addCall (h : d.Ok) (r : Request) : (d.addCall r).Ok := by
  have hcase : ∀ {c : Nat} {k : Call}, (d.addCall r).calls[c]? = some k → k.pc ≠ .ended →
      d.calls[c]? = some k := by
    intro c k hk hpc
    rcases Table.cases_append hk with hk | ⟨-, rfl⟩
    · exact hk
    · exact absurd rfl hpc
  have hold : ∀ {c : Nat} {k : Call}, d.calls[c]? = some k →
      (d.addCall r).calls[c]? = some k := fun hk => Table.append_old hk
  exact { h with
    holder := fun p hp => by
      rcases h.holder p hp with hproc | ⟨c, k, hk, hon⟩ | htask
      · exact .inl hproc
      · exact .inr (.inl ⟨c, k, hold hk, hon⟩)
      · exact .inr (.inr htask)
    call := fun c k hk hpc => h.call c k (hcase hk hpc) hpc
    alone := fun c k hk hreq hpc => by
      obtain ⟨htask, hothers⟩ := h.alone c k (hcase hk hpc) hreq hpc
      refine ⟨htask, fun c' k' hk' hne => ?_⟩
      by_contra hpc'
      exact hpc' (hothers c' k' (hcase hk' hpc') hne)
    idle := fun t ht k hk => by
      rcases List.mem_append.mp hk with hk | hk
      · exact h.idle t ht k hk
      · rw [List.mem_singleton.mp hk]
    tasks := fun t u hu hpc => by
      rcases h.tasks t u hu hpc with htask | ⟨hc, c, k, hk, hgather⟩
      · exact .inl htask
      · exact .inr ⟨hc, c, k, hold hk, hgather⟩
    proc := fun hproc => by
      rcases h.proc hproc with htask | ⟨c, k, hk, hgather⟩
      · exact .inl htask
      · exact .inr ⟨c, k, hold hk, hgather⟩
    running := fun hno => by
      refine h.running fun hre => hno ?_
      obtain ⟨k, hk, hreq⟩ := hre
      exact ⟨k, List.mem_append_left _ hk, hreq⟩
    restart := fun c k p x hk hpc =>
      h.restart c k p x (hcase hk (by rw [hpc]; exact CallPc.noConfusion)) hpc
    spawns := fun c k s hk hpc =>
      h.spawns c k s (hcase hk (by rw [hpc]; exact CallPc.noConfusion)) hpc }

/-- Nothing is open when nothing is in flight and nobody supervises. -/
theorem closed (h : d.Ok) (htask : d.task = none) (hidle : d.Idle) (p : Nat) :
    d.isOpen p = false := by
  by_contra hp
  rw [Bool.not_eq_false] at hp
  rcases h.holder p hp with hproc | ⟨c, k, hk, hon⟩ | ⟨t, u, hu, hon⟩
  · rcases h.proc (by rw [hproc]; exact Option.some_ne_none p) with hno | ⟨c, k, hk, hgather⟩
    · exact hno htask
    · rw [hidle k (List.mem_of_getElem? hk)] at hgather
      cases hgather
  · rw [hidle k (List.mem_of_getElem? hk)] at hon
    cases hon
  · have hpc : u.pc ≠ .ended := by
      intro hpc
      rw [hpc] at hon
      cases hon
    rcases h.tasks t u hu hpc with hno | ⟨-, c, k, hk, hgather⟩
    · rw [htask] at hno
      cases hno
    · rw [hidle k (List.mem_of_getElem? hk)] at hgather
      cases hgather

/-! ### A call that moves on -/

section Move

variable {pc : CallPc} {q : Option Nat} {c' : Nat} {k' : Call}

theorem cases_moved (hc : d.calls[c]? = some k)
    (hk' : ({ d with proc := q }.setCall c pc).calls[c']? = some k') :
    c' = c ∧ k' = { k with pc } ∨ c' ≠ c ∧ d.calls[c']? = some k' :=
  cases_setCall (d := { d with proc := q }) hk' hc

theorem moved_self (hc : d.calls[c]? = some k) :
    ({ d with proc := q }.setCall c pc).calls[c]? = some { k with pc } :=
  setCall_self (d := { d with proc := q }) hc

theorem moved_ne (hne : c' ≠ c) (hk' : d.calls[c']? = some k') :
    ({ d with proc := q }.setCall c pc).calls[c']? = some k' :=
  setCall_ne (d := { d with proc := q }) hne hk'

/-- Who holds an open process when the call has given up its own, or kept it. -/
theorem move_holder (h : d.Ok) (hc : d.calls[c]? = some k)
    (hheld : ∀ p, d.isOpen p = true → k.pc.on = some p ∨ d.proc = some p →
      pc.on = some p ∨ q = some p) {p : Nat} (hp : d.isOpen p = true) : q = some p ∨
    (∃ (c' : Nat) (k' : Call), ({ d with proc := q }.setCall c pc).calls[c']? = some k' ∧
      k'.pc.on = some p) ∨
    ∃ (t : Nat) (u : Task), d.tasks[t]? = some u ∧ u.pc.owns = some p := by
  have hmoved : k.pc.on = some p ∨ d.proc = some p → q = some p ∨
      ∃ (c' : Nat) (k' : Call), ({ d with proc := q }.setCall c pc).calls[c']? = some k' ∧
        k'.pc.on = some p := by
    intro hk
    rcases hheld p hp hk with hpc | hqp
    · exact .inr ⟨c, _, moved_self hc, hpc⟩
    · exact .inl hqp
  rcases h.holder p hp with hd | ⟨c', k', hk', hon⟩ | htask
  · exact (hmoved (.inr hd)).imp id .inl
  · by_cases hne : c' = c
    · subst hne
      cases hk'.symm.trans hc
      exact (hmoved (.inl hon)).imp id .inl
    · exact .inr (.inl ⟨c', k', moved_ne hne hk', hon⟩)
  · exact .inr (.inr htask)

/-- A restart is alone still. -/
theorem move_alone (h : d.Ok) (hc : d.calls[c]? = some k)
    (halone : pc ≠ .ended → d.task = none ∧ ∀ (c' : Nat) (k' : Call), d.calls[c']? = some k' →
      c' ≠ c → k.request ≠ .stop ∨ k'.request ≠ .stop → k'.pc = .ended)
    (hk' : ({ d with proc := q }.setCall c pc).calls[c']? = some k') (hreq : k'.request ≠ .stop)
    (hpc' : k'.pc ≠ .ended) : d.task = none ∧ ∀ (c'' : Nat) (k'' : Call),
      ({ d with proc := q }.setCall c pc).calls[c'']? = some k'' → c'' ≠ c' →
        k''.pc = .ended := by
  rcases cases_moved hc hk' with ⟨rfl, rfl⟩ | ⟨hne, hold⟩
  · obtain ⟨htask, hothers⟩ := halone hpc'
    refine ⟨htask, fun c'' k'' hk'' hne' => ?_⟩
    rcases cases_moved hc hk'' with ⟨heq, -⟩ | ⟨-, hold⟩
    · exact absurd heq hne'
    · exact hothers c'' k'' hold hne' (.inl hreq)
  · obtain ⟨htask, hothers⟩ := h.alone c' k' hold hreq hpc'
    refine ⟨htask, fun c'' k'' hk'' hne' => ?_⟩
    rcases cases_moved hc hk'' with ⟨rfl, rfl⟩ | ⟨-, hold'⟩
    · by_contra hpc
      exact hpc' ((halone hpc).2 c' k' hold hne (.inr hreq))
    · exact hothers c'' k'' hold' hne'

/-- A call that waited for a task waits for it still, or the task is done. -/
theorem move_gathering (hc : d.calls[c]? = some k)
    (hgather : ∀ t, k.pc = .gathering t → pc = .gathering t ∨
      ∃ u, d.tasks[t]? = some u ∧ u.pc = .ended) (hu : d.tasks[t]? = some u)
    (hpc : u.pc ≠ .ended) (hk' : d.calls[c']? = some k') (hgathers : k'.pc = .gathering t) :
    ∃ (c'' : Nat) (k'' : Call), ({ d with proc := q }.setCall c pc).calls[c'']? = some k'' ∧
      k''.pc = .gathering t := by
  by_cases hne : c' = c
  · subst hne
    cases hk'.symm.trans hc
    rcases hgather t hgathers with rfl | ⟨v, hv, hended⟩
    · exact ⟨c', _, moved_self hc, rfl⟩
    · cases hv.symm.trans hu
      exact absurd hended hpc
  · exact ⟨c', k', moved_ne hne hk', hgathers⟩

/-- A process that is left was left to a call that waits. -/
theorem move_proc (h : d.Ok) (hc : d.calls[c]? = some k) (hq : q = d.proc ∨ q = none)
    (hproc : k.pc.gathers = true → pc.gathers = true ∨ q = none) (hne : q ≠ none) :
    d.task ≠ none ∨ ∃ (c' : Nat) (k' : Call),
      ({ d with proc := q }.setCall c pc).calls[c']? = some k' ∧ k'.pc.gathers = true := by
  have hqd : q = d.proc := hq.resolve_right hne
  rcases h.proc (by rw [← hqd]; exact hne) with htask | ⟨c', k', hk', hgathers⟩
  · exact .inl htask
  · by_cases hc' : c' = c
    · subst hc'
      cases hk'.symm.trans hc
      rcases hproc hgathers with hpc | hnone
      · exact .inr ⟨c', _, moved_self hc, hpc⟩
      · exact absurd hnone hne
    · exact .inr ⟨c', k', moved_ne hc' hk', hgathers⟩

/-- No restart was in flight when none is after the step, unless it has left nothing open. -/
theorem move_restarting (hc : d.calls[c]? = some k)
    (hrun : k.request ≠ .stop → pc = .ended →
      k.pc = .ended ∨ ∀ p, q = some p → d.isOpen p = false)
    {p : Nat} (hqp : q = some p) (hopen : d.isOpen p = true) (hre : d.Restarting) :
    ({ d with proc := q }.setCall c pc).Restarting := by
  obtain ⟨c', k', hk', hreq, hpc'⟩ := restarting_iff.mp hre
  rw [restarting_iff]
  by_cases hne : c' = c
  · subst hne
    cases hk'.symm.trans hc
    refine ⟨c', _, moved_self hc, hreq, fun hend => ?_⟩
    rcases hrun hreq hend with hended | hclosed
    · exact hpc' hended
    · exact Bool.false_ne_true ((hclosed p hqp).symm.trans hopen)
  · exact ⟨c', k', moved_ne hne hk', hreq, hpc'⟩

/-- A call moves on, and perhaps takes the process. -/
theorem move (h : d.Ok) (hc : d.calls[c]? = some k) (pc : CallPc) (q : Option Nat)
    (hq : q = d.proc ∨ q = none)
    (hon : pc ≠ .ended → pc.gathers = false → ∀ p, d.isOpen p = true → pc.on = some p)
    (hheld : ∀ p, d.isOpen p = true → k.pc.on = some p ∨ d.proc = some p →
      pc.on = some p ∨ q = some p)
    (halone : pc ≠ .ended → d.task = none ∧ ∀ (c' : Nat) (k' : Call), d.calls[c']? = some k' →
      c' ≠ c → k.request ≠ .stop ∨ k'.request ≠ .stop → k'.pc = .ended)
    (hgather : ∀ t, k.pc = .gathering t → pc = .gathering t ∨
      ∃ u, d.tasks[t]? = some u ∧ u.pc = .ended)
    (hproc : k.pc.gathers = true → pc.gathers = true ∨ q = none)
    (hrun : k.request ≠ .stop → pc = .ended →
      k.pc = .ended ∨ ∀ p, q = some p → d.isOpen p = false)
    (hexec : ∀ p x, pc = .spawning (.executing p) → d.procs[p]? = some x → x.secret = d.secret)
    (hspawn : ∀ s, pc = .spawning s → k.request ≠ .stop) :
    ({ d with proc := q }.setCall c pc).Ok :=
  { h with
    holder := fun _ hp => h.move_holder hc hheld hp
    call := fun c' k' hk' hpc' hg' p hp => by
      rcases cases_moved hc hk' with ⟨rfl, rfl⟩ | ⟨-, hold⟩
      · exact hon hpc' hg' p hp
      · exact h.call c' k' hold hpc' hg' p hp
    alone := fun _ _ hk' hreq hpc' => h.move_alone hc halone hk' hreq hpc'
    idle := fun t ht k' hk' => by
      obtain ⟨c', hk'⟩ := List.mem_iff_getElem?.mp hk'
      rcases cases_moved hc hk' with ⟨rfl, rfl⟩ | ⟨-, hold⟩
      · by_contra hpc
        have htask : d.task = some t := ht
        rw [(halone hpc).1] at htask
        cases htask
      · exact h.idle t ht k' (List.mem_of_getElem? hold)
    tasks := fun t u hu hpc' => by
      rcases h.tasks t u hu hpc' with htask | ⟨hcan, c', k', hk', hgathers⟩
      · exact .inl htask
      · exact .inr ⟨hcan, move_gathering hc hgather hu hpc' hk' hgathers⟩
    proc := fun hne => h.move_proc hc hq hproc hne
    running := fun hno p x hp hopen => by
      have hqp : q = some p := hp
      have hd : d.proc = some p :=
        (hq.resolve_right (by rw [hqp]; exact Option.some_ne_none p)).symm.trans hqp
      exact h.running (fun hre => hno (move_restarting hc hrun hqp hopen hre)) p x hd hopen
    restart := fun c' k' p x hk' hpc' => by
      rcases cases_moved hc hk' with ⟨rfl, rfl⟩ | ⟨-, hold⟩
      · exact hexec p x hpc'
      · exact h.restart c' k' p x hold hpc'
    spawns := fun c' k' s hk' hpc' => by
      rcases cases_moved hc hk' with ⟨rfl, rfl⟩ | ⟨-, hold⟩
      · exact hspawn s hpc'
      · exact h.spawns c' k' s hold hpc' }

end Move

end Ok

end Turn

end AndroidAppliance
