import AndroidAppliance.Supervisor.Leases
import AndroidAppliance.Supervisor.Stopped
import Mathlib.Data.List.Pairwise

/-!
# The continuations of a start that does not wait

A start or restart with `wait=False` that finds Android in STOPPING leaves the rest of
`_start` to a task of `_spawn`. That task runs the same turn of the loop, so while the stop
goes on it leaves the rest to another task, and so on with every turn of the event loop
(`respawns`). The machine `following` records which call each of these tasks continues, and
which of them got their turn in STOPPING. In every run a call has one continuation, and one
more for each of these turns, of which at most one is unfinished; so it has at most one
exactly when every continuation gets its turn in time (`continuations_bounded`).
-/

namespace AndroidAppliance

namespace Supervisor

/-! ### The record -/

/-- A task of `_spawn`. -/
structure Continuation where
  /-- Its place in the table of the calls. -/
  task : Nat
  /-- The call whose start it continues. -/
  root : Nat
  /-- `_stop_task` when it was created. -/
  stop : Option Nat
  deriving DecidableEq, Repr

namespace Continuation

/-- The stop that was in progress at the creation is not over. -/
def early (k : Continuation) (s : Sup) : Bool :=
  k.stop.any fun i => (s.core.ctl.stops[i]?).any (·.pc ≠ .ended)

/-- The task is over. -/
def done (k : Continuation) (s : Sup) : Bool := (s.calls[k.task]?).any (·.pc.finished)

end Continuation

/-- The task `c` is one of `_spawn` before its first step. -/
def Sup.created (s : Sup) (c : Nat) : Bool := (s.calls[c]?).any (·.pc = .created)

/-- A Supervisor with the record of its continuations. -/
structure Following where
  sup : Sup
  /-- The calls with `wait=False` that arrived in STOPPING. -/
  arrived : List Nat
  /-- The restarts with `wait=False` that arrived in another state; the ones that found
  Android up have begun its stop themselves. -/
  restarted : List Nat
  made : List Continuation
  /-- The calls whose continuation got a turn in STOPPING, once for each such turn, without
  the turns in which it was refused because the daemon shuts down. -/
  turns : List Nat
  /-- The continuations that took a step before their stop was over. -/
  early : List Nat
  deriving DecidableEq, Repr

namespace Following

/-- The call that a call goes back to. -/
def root (f : Following) (c : Nat) : Nat :=
  ((f.made.find? (·.task = c)).map (·.root)).getD c

/-- The record after a step. A step creates at most one task, as the next entry of the
table; a new call follows behind it. -/
def record (f : Following) (ev : SupEvent) (s : Sup) : Following :=
  let new := s.calls.length - 1
  let stopping : Bool := f.sup.core.ctl.state = .stopping
  let detached := match ev with
    | .call q => f.sup.detaches q
    | _ => false
  { sup := s
    arrived := if detached && stopping then f.arrived ++ [new] else f.arrived
    restarted := if detached && !stopping then f.restarted ++ [new] else f.restarted
    made := if (s.calls[f.sup.calls.length]?).any (·.request = .background) then
        f.made ++
          [{ task := f.sup.calls.length,
             root := match ev with
               | .resume c => f.root c
               | _ => new
             stop := s.core.ctl.stopTask }]
      else f.made
    turns := match ev with
      | .resume c =>
        if f.sup.created c && stopping && !f.sup.core.ctl.closing then f.turns ++ [f.root c]
        else f.turns
      | _ => f.turns
    early := match ev with
      | .resume c =>
        if f.made.any (fun k => k.task = c && k.early f.sup) then f.early ++ [c] else f.early
      | _ => f.early }

/-- One step of the Supervisor, with the record. -/
def step (cfg : Config) (f : Following) (ev : SupEvent) : Option Following :=
  (f.sup.step cfg ev).map (f.record ev)

/-- Nobody has called yet. -/
def Initial (f : Following) : Prop :=
  f.sup.Initial ∧ f.arrived = [] ∧ f.restarted = [] ∧ f.made = [] ∧ f.turns = [] ∧
    f.early = []

/-- A task of `_spawn` does not get its turn in STOPPING; while the daemon shuts down, not
before the stop that it was created in is over. -/
def InTime (f : Following) : SupEvent → Prop
  | .resume c =>
    f.sup.created c = true → f.sup.core.ctl.state = .stopping →
      f.sup.core.ctl.closing = true ∧
        f.made.any (fun k => k.task = c && k.early f.sup) = false
  | .call _ | .expire _ | .leave _ _ | .cancel _ | .tick _ | .loop _ => True

instance (f : Following) : ∀ ev, Decidable (f.InTime ev)
  | .resume _ => inferInstanceAs (Decidable (_ → _ → _))
  | .call _ | .expire _ | .leave _ _ | .cancel _ | .tick _ | .loop _ => .isTrue trivial

/-- The calls that left their start to a task. -/
def detached (f : Following) : List Nat := f.arrived ++ f.restarted

/-- **What becomes of the continuations**, in one state. -/
structure Accounted (f : Following) : Prop where
  /-- A call has one, and one more for each turn that they got in STOPPING. -/
  each : ∀ c ∈ f.detached, f.made.countP (·.root = c) = 1 + f.turns.count c
  /-- At most one of them is unfinished. -/
  single : f.made.Pairwise fun k k' =>
    k.root = k'.root → k.done f.sup = true ∨ k'.done f.sup = true
  /-- Only a call that does not wait has any. -/
  roots : ∀ k ∈ f.made, k.root ∈ f.detached
  /-- All the tasks of `_spawn`. -/
  total : f.sup.calls.countP (·.request = .background) = f.detached.length + f.turns.length

/-- **Bounded continuations**, in one state. -/
structure Bounded (f : Following) : Prop where
  /-- A call has at most one. -/
  each : ∀ c, f.made.countP (·.root = c) ≤ 1
  /-- It is a call that does not wait. -/
  roots : ∀ k ∈ f.made, k.root ∈ f.arrived ++ f.restarted
  /-- There are at most as many tasks of `_spawn` as such calls. -/
  total : f.sup.calls.countP (·.request = .background) ≤ f.arrived.length + f.restarted.length
  /-- None of them took its step before its stop was over. -/
  early : f.early = []

end Following

/-- The machine of the Supervisor with the record. -/
def following (cfg : Config) : Machine Following SupEvent where
  Init := Following.Initial
  step := Following.step cfg

/-- The Supervisor simulates it. -/
theorem following_simulation (cfg : Config) : Machine.Simulation (following cfg)
    (supervisor cfg) (fun _ _ => True) (fun _ _ => True) Following.sup where
  init _ h := h.1
  step f ev f' _ h := by
    obtain ⟨s, hs, rfl⟩ := Option.map_eq_some_iff.mp h
    exact .single trivial hs

/-! ### What a step adds to the table -/

namespace Sup

/-- What the calls were made for. -/
def requests (s : Sup) : List Request := s.calls.map (·.request)

variable {cfg : Config} {s s' : Sup} {t : Call} {r : Sup × CallPc}

/-- A call that goes on is still the same request. -/
theorem requests_modify (l : List Call) (c : Nat) (pc : CallPc) :
    (l.modify c fun t => { t with pc := pc }).map (·.request) = l.map (·.request) := by
  apply List.ext_getElem?
  intro i
  simp only [List.getElem?_map, List.getElem?_modify]
  cases l[i]? with
  | none => rfl
  | some t => by_cases hi : c = i <;> simp [hi]

theorem requests_setCall (c : Nat) (r : Sup × CallPc) :
    (setCall c r).requests = r.1.requests := requests_modify _ c r.2

theorem leavesOff_false : s.leavesOff false =
    (decide (s.core.ctl.state = .stopping) && !s.core.ctl.closing) := by
  simp [leavesOff, Bool.beq_eq_decide_eq]

/-- **What a step does to the table**: a new call comes behind, after a task of `_spawn` when it
leaves its start to one; such a task comes behind also when another one gets its turn in
STOPPING. -/
theorem step_table {ev : SupEvent} (hstep : s.step cfg ev = some s') :
    (∃ q pc, ev = .call q ∧ q ≠ .background ∧ s'.calls =
      (s.calls ++ if s.detaches q then [continuation] else []) ++ [{ request := q, pc := pc }]) ∨
    (∃ c pc, ev = .resume c ∧ c < s.calls.length ∧ s'.calls =
      (s.calls ++ if s.created c && s.leavesOff false then [continuation] else []).modify c
        fun t => { t with pc := pc }) ∨
    (∀ q, ev ≠ .call q) ∧ (∀ c, ev ≠ .resume c) ∧ s'.requests = s.requests := by
  have hkeep : ∀ (c : Nat) (r : Sup × CallPc), r.1.calls = s.calls →
      (setCall c r).requests = s.requests := by
    intro c r hr
    rw [requests_setCall, requests, hr, requests]
  cases ev with
  | call q =>
    simp only [step] at hstep
    split at hstep
    · cases hstep
    · rename_i hq
      cases hstep
      refine .inl ⟨q, (s.enter q).2, rfl, hq, ?_⟩
      rw [addCall, enter_spawns]
  | resume c =>
    obtain ⟨t, hc, hstep⟩ := Option.bind_eq_some_iff.mp hstep
    obtain ⟨r, hr, rfl⟩ := Option.map_eq_some_iff.mp hstep
    have hcreated : s.created c = (t.pc == .created) := by
      rw [created, hc]
      exact (Bool.beq_eq_decide_eq _ _).symm
    refine .inr (.inl ⟨c, r.2, rfl, (List.getElem?_eq_some_iff.mp hc).1, ?_⟩)
    rw [hcreated, ← wake_spawns hr]
    rfl
  | expire c =>
    obtain ⟨t, hc, hstep⟩ := Option.bind_eq_some_iff.mp hstep
    obtain ⟨r, hr, rfl⟩ := Option.map_eq_some_iff.mp hstep
    exact .inr (.inr ⟨by simp, by simp, hkeep c r (expire_calls hr)⟩)
  | leave c ok =>
    obtain ⟨t, hc, hstep⟩ := Option.bind_eq_some_iff.mp hstep
    obtain ⟨r, hr, rfl⟩ := Option.map_eq_some_iff.mp hstep
    exact .inr (.inr ⟨by simp, by simp, hkeep c r (leave_calls hr)⟩)
  | cancel c =>
    obtain ⟨t, hc, hstep⟩ := Option.bind_eq_some_iff.mp hstep
    obtain ⟨r, hr, rfl⟩ := Option.map_eq_some_iff.mp hstep
    exact .inr (.inr ⟨by simp, by simp, hkeep c r (cancel_calls hr)⟩)
  | tick r =>
    obtain ⟨t, -, hstep⟩ := Option.bind_eq_some_iff.mp hstep
    refine .inr (.inr ⟨by simp, by simp, ?_⟩)
    split at hstep
    · cases hstep
    · split at hstep
      · cases hstep
        obtain ⟨core, hcore⟩ := idleCheck_eq cfg s
        rw [hcore]
        rfl
      · cases hstep
        rfl
      · cases hstep
  | loop e =>
    simp only [step] at hstep
    refine .inr (.inr ⟨by simp, by simp, ?_⟩)
    split at hstep
    · cases hstep
    · obtain ⟨core, -, rfl⟩ := Option.map_eq_some_iff.mp hstep
      rfl

/-- **What a step adds to the requests.** -/
theorem step_requests {ev : SupEvent} (hstep : s.step cfg ev = some s') :
    (∃ q, ev = .call q ∧ q ≠ .background ∧
      s'.requests = s.requests ++ ((if s.detaches q then [.background] else []) ++ [q])) ∨
    (∃ c, ev = .resume c ∧ (s.created c && s.leavesOff false) = true ∧
      s'.requests = s.requests ++ [.background]) ∨
    (∀ q, ev ≠ .call q) ∧ (∀ c, ev = .resume c → (s.created c && s.leavesOff false) = false) ∧
      s'.requests = s.requests := by
  rcases step_table hstep with ⟨q, pc, rfl, hq, hcalls⟩ | ⟨c, pc, rfl, -, hcalls⟩ |
    ⟨hcall, hresume, hsame⟩
  · refine .inl ⟨q, rfl, hq, ?_⟩
    rw [requests, hcalls, List.map_append, List.map_append, List.append_assoc]
    cases s.detaches q <;> rfl
  · cases hoff : s.created c && s.leavesOff false with
    | true =>
      refine .inr (.inl ⟨c, rfl, hoff, ?_⟩)
      rw [requests, hcalls, requests_modify, hoff, List.map_append]
      rfl
    | false =>
      refine .inr (.inr ⟨by simp, fun c' hc' => ?_, ?_⟩)
      · cases hc'
        exact hoff
      · rw [requests, hcalls, requests_modify, hoff, List.map_append]
        exact List.append_nil _
  · exact .inr (.inr ⟨hcall, fun c hc => absurd hc (hresume c), hsame⟩)

/-! ### The tasks that are over -/

/-- A call that is over stays over. -/
theorem finished_step {ev : SupEvent} {c : Nat} (hstep : s.step cfg ev = some s')
    (hc : s.calls[c]? = some t) (hover : t.pc.finished = true) : s'.calls[c]? = some t := by
  rcases step_calls hstep hc with hsame | ⟨r, -, -, hev⟩
  · exact hsame
  · cases hpc : t.pc with
    | ended res =>
      rcases hev with ⟨-, hr⟩ | ⟨-, hr⟩ | ⟨ok, -, hr⟩ | ⟨-, hr⟩
      · cases (wake_finished hover).symm.trans hr
      · simp only [expire, hpc] at hr
        cases hr
      · simp only [leave, hpc] at hr
        cases hr
      · simp only [cancel, hpc] at hr
        cases hr
    | created | stopping | joining | leased | killServer =>
      rw [hpc] at hover
      cases hover

/-- A turn of `_start` that does not wait ends the task. -/
theorem start_false_finished (s : Sup) : (s.start false).2.finished = true := by
  unfold start
  split
  · rfl
  · split <;> rfl

/-- A task of `_spawn` is before its first step or over. -/
def Brief (s : Sup) : Prop :=
  ∀ (c : Nat) (t : Call), s.calls[c]? = some t → t.request = .background →
    t.pc = .created ∨ t.pc.finished = true

theorem Brief.initial (h : s.Initial) : s.Brief := by
  obtain ⟨-, hcalls, -⟩ := h
  intro c t hc
  rw [hcalls] at hc
  cases hc

/-- The tasks that a step adds are before their first step. -/
theorem step_new {ev : SupEvent} {c : Nat} (hstep : s.step cfg ev = some s')
    (hlen : s.calls.length ≤ c) (hc : s'.calls[c]? = some t) (hbg : t.request = .background) :
    t.pc = .created := by
  have hnew : ∀ {b : Bool}, (s.calls ++ if b then [continuation] else [])[c]? = some t →
      t.pc = .created := by
    intro b hb
    rw [List.getElem?_append_right hlen] at hb
    cases b with
    | true =>
      rw [if_pos rfl] at hb
      rw [List.mem_singleton.mp (List.mem_of_getElem? hb)]
      rfl
    | false => cases hb
  rcases step_table hstep with ⟨q, pc, -, hq, hcalls⟩ | ⟨c', pc, -, hc', hcalls⟩ | ⟨-, -, hsame⟩
  · rw [hcalls] at hc
    rcases Table.cases_append hc with hc | ⟨-, rfl⟩
    · exact hnew hc
    · exact absurd hbg hq
  · rw [hcalls] at hc
    obtain ⟨y, hy, ⟨rfl, -⟩ | ⟨-, rfl⟩⟩ := Table.cases_modify hc
    · omega
    · exact hnew hy
  · have hold := congrArg List.length hsame
    rw [requests, requests, List.length_map, List.length_map] at hold
    have hbound := (List.getElem?_eq_some_iff.mp hc).1
    omega

/-- A task of `_spawn` is over after any step of its own. -/
theorem step_over {ev : SupEvent} {c : Nat} (hstep : s.step cfg ev = some s')
    (hc : s.calls[c]? = some t) (hpc : t.pc = .created) :
    s'.calls[c]? = some t ∧ ev ≠ .resume c ∨
      ∃ t', s'.calls[c]? = some t' ∧ t'.pc.finished = true := by
  rcases step_calls hstep hc with hsame | ⟨r, -, hself, hev⟩
  · refine .inl ⟨hsame, ?_⟩
    rintro rfl
    obtain ⟨t', ht', hstep⟩ := Option.bind_eq_some_iff.mp hstep
    cases hc.symm.trans ht'
    obtain ⟨r, hr, rfl⟩ := Option.map_eq_some_iff.mp hstep
    have hself : (setCall c r).calls[c]? = some { t with pc := r.2 } := by
      have hold : r.1.calls[c]? = some t := by
        rw [wake_spawns hr, List.getElem?_append_left (List.getElem?_eq_some_iff.mp hc).1, hc]
      exact Table.modify_self hold
    have hsub : t.pc = r.2 := congrArg Call.pc (Option.some_injective _ (hsame.symm.trans hself))
    simp only [wake, hpc] at hr
    cases hr
    have hfin := start_false_finished s
    rw [← hsub, hpc] at hfin
    cases hfin
  · refine .inr ⟨_, hself, ?_⟩
    rcases hev with ⟨-, hr⟩ | ⟨-, hr⟩ | ⟨ok, -, hr⟩ | ⟨-, hr⟩
    · simp only [wake, hpc] at hr
      cases hr
      exact start_false_finished s
    · simp only [expire, hpc] at hr
      cases hr
    · simp only [leave, hpc] at hr
      cases hr
    · unfold cancel at hr
      split at hr <;> cases hr <;> rfl

/-- **Every step leaves the tasks of `_spawn` brief.** -/
theorem Brief.step (h : s.Brief) {ev : SupEvent} (hstep : s.step cfg ev = some s') :
    s'.Brief := by
  intro c t' hc' hbg
  by_cases hlen : s.calls.length ≤ c
  · exact .inl (step_new hstep hlen hc' hbg)
  · obtain ⟨t, hc⟩ : ∃ t, s.calls[c]? = some t :=
      ⟨_, List.getElem?_eq_getElem (by omega)⟩
    have hsame : t.request = .background := by
      rcases step_calls hstep hc with h | ⟨r, -, h, -⟩ <;> cases h.symm.trans hc' <;> exact hbg
    rcases h c t hc hsame with hpc | hpc
    · rcases step_over hstep hc hpc with ⟨h, -⟩ | ⟨u, h, hu⟩
      · cases h.symm.trans hc'
        exact .inl hpc
      · cases h.symm.trans hc'
        exact .inr hu
    · cases (finished_step hstep hc hpc).symm.trans hc'
      exact .inr hpc

end Sup

/-! ### The invariant -/

namespace Following

variable {cfg : Config} {f f' : Following}

/-- The record agrees with the table. -/
structure Kept (f : Following) : Prop where
  accounted : f.Accounted
  /-- Every recorded task is one of `_spawn`. -/
  task : ∀ k ∈ f.made, f.sup.requests[k.task]? = some .background
  /-- Every task of `_spawn` is recorded. -/
  known : ∀ i, f.sup.requests[i]? = some .background → ∃ k ∈ f.made, k.task = i
  old : ∀ c ∈ f.detached, c < f.sup.calls.length
  turns : ∀ c ∈ f.turns, c ∈ f.detached
  brief : f.sup.Brief

theorem countP_requests (s : Sup) : s.calls.countP (·.request = .background) =
    s.requests.countP (· = .background) := by
  unfold Sup.requests
  rw [List.countP_map]
  rfl

theorem length_requests (s : Sup) : s.requests.length = s.calls.length := List.length_map _

/-- Requests behind the old ones are entries behind the old ones. -/
theorem length_of_requests {s s' : Sup} {more : List Request}
    (hmore : s'.requests = s.requests ++ more) :
    s'.calls.length = s.calls.length + more.length := by
  rw [← length_requests, hmore, List.length_append, length_requests]

/-- The first of them. -/
theorem requests_next {s s' : Sup} {q : Request} {more : List Request}
    (hmore : s'.requests = s.requests ++ q :: more) :
    s'.requests[s.calls.length]? = some q := by
  rw [hmore, ← length_requests, List.getElem?_append_right le_rfl, Nat.sub_self]
  rfl

theorem countP_background {more : List Request} (hno : .background ∉ more) :
    more.countP (· = .background) = 0 := by
  rw [List.countP_eq_zero]
  rintro q hq hbg
  exact hno (of_decide_eq_true hbg ▸ hq)

theorem Kept.initial (h : f.Initial) : f.Kept := by
  obtain ⟨hsup, harrived, hrestarted, hmade, hturns, -⟩ := h
  have hdetached : f.detached = [] := by rw [detached, harrived, hrestarted]; rfl
  have hcalls : f.sup.calls = [] := hsup.2.1
  have hnone : ∀ {p : Continuation → Prop}, ∀ k ∈ f.made, p k := by
    intro p k hk
    rw [hmade] at hk
    cases hk
  refine ⟨⟨fun c hc => ?_, ?_, hnone, ?_⟩, hnone, fun i hi => ?_, fun c hc => ?_,
    fun c hc => ?_, .initial hsup⟩
  · rw [hdetached] at hc
    cases hc
  · rw [hmade]
    exact .nil
  · rw [hcalls, hdetached, hturns]
    rfl
  · rw [Sup.requests, hcalls] at hi
    cases hi
  · rw [hdetached] at hc
    cases hc
  · rw [hturns] at hc
    cases hc

/-- A task that is over stays over. -/
theorem over_step {s : Sup} {ev : SupEvent} {k : Continuation}
    (hstep : f.sup.step cfg ev = some s) (hk : k.done f.sup = true) : k.done s = true := by
  obtain ⟨t, hc, hover⟩ := (Option.any_eq_true _ _).mp hk
  rw [Continuation.done, Sup.finished_step hstep hc hover]
  exact hover

/-- A step that creates no task. -/
theorem Kept.plain (h : f.Kept) {ev : SupEvent} {more : List Request}
    (hstep : f.sup.step cfg ev = some f'.sup)
    (hmore : f'.sup.requests = f.sup.requests ++ more) (hno : .background ∉ more)
    (hmade : f'.made = f.made) (hdetached : f'.detached = f.detached)
    (hturns : f'.turns = f.turns) : f'.Kept := by
  have hlen := length_of_requests hmore
  refine ⟨⟨?_, ?_, ?_, ?_⟩, fun k hk => ?_, fun i hi => ?_, fun c hc => ?_, ?_,
    h.brief.step hstep⟩
  · rw [hmade, hdetached, hturns]
    exact h.accounted.each
  · rw [hmade]
    exact h.accounted.single.imp fun hkk hroot =>
      (hkk hroot).imp (over_step hstep) (over_step hstep)
  · rw [hmade, hdetached]
    exact h.accounted.roots
  · rw [hdetached, hturns, ← h.accounted.total, countP_requests, countP_requests, hmore,
      List.countP_append, countP_background hno, add_zero]
  · have htask := h.task k (hmade ▸ hk)
    rw [hmore, List.getElem?_append_left (List.getElem?_eq_some_iff.mp htask).1, htask]
  · rw [hmore, List.getElem?_append] at hi
    rw [hmade]
    split at hi
    · exact h.known i hi
    · exact absurd (List.mem_of_getElem? hi) hno
  · have hold := h.old c (hdetached ▸ hc)
    omega
  · rw [hturns, hdetached]
    exact h.turns

/-- A step that creates the task of a call. -/
theorem Kept.grow (h : f.Kept) {ev : SupEvent} {more : List Request} {k : Continuation}
    (hstep : f.sup.step cfg ev = some f'.sup)
    (hmore : f'.sup.requests = f.sup.requests ++ .background :: more)
    (hno : .background ∉ more) (hmade : f'.made = f.made ++ [k])
    (htask : k.task = f.sup.calls.length)
    (hdetached : ∀ c, c ∈ f'.detached ↔ c ∈ f.detached ∨ c = k.root)
    (hroot : k.root < f'.sup.calls.length)
    (heach : ∀ c ∈ f'.detached, f'.made.countP (·.root = c) = 1 + f'.turns.count c)
    (hsingle : ∀ k' ∈ f.made, k'.root = k.root → k'.done f'.sup = true)
    (htotal : f'.detached.length + f'.turns.length =
      f.detached.length + f.turns.length + 1)
    (hturns : ∀ c ∈ f'.turns, c ∈ f.turns ∨ c = k.root) : f'.Kept := by
  have hlen := length_of_requests hmore
  have hat : f'.sup.requests[k.task]? = some .background := htask ▸ requests_next hmore
  refine ⟨⟨heach, ?_, fun k' hk' => ?_, ?_⟩, fun k' hk' => ?_, fun i hi => ?_, fun c hc => ?_,
    fun c hc => ?_, h.brief.step hstep⟩
  · rw [hmade, List.pairwise_append]
    refine ⟨h.accounted.single.imp fun hkk hroot =>
        (hkk hroot).imp (over_step hstep) (over_step hstep),
      List.pairwise_singleton _ _, fun k' hk' k'' hk'' heq => ?_⟩
    rw [List.mem_singleton.mp hk''] at heq
    exact .inl (hsingle k' hk' heq)
  · rw [hmade] at hk'
    rw [hdetached]
    rcases List.mem_append.mp hk' with hk' | hk'
    · exact .inl (h.accounted.roots k' hk')
    · exact .inr (congrArg Continuation.root (List.mem_singleton.mp hk'))
  · rw [htotal, ← h.accounted.total, countP_requests, countP_requests, hmore,
      List.countP_append, List.countP_cons, countP_background hno]
    rfl
  · rw [hmade] at hk'
    rcases List.mem_append.mp hk' with hk' | hk'
    · have hold := h.task k' hk'
      rw [hmore, List.getElem?_append_left (List.getElem?_eq_some_iff.mp hold).1, hold]
    · rw [List.mem_singleton.mp hk']
      exact hat
  · rw [hmade]
    rw [hmore, List.getElem?_append] at hi
    split at hi
    · obtain ⟨k', hk', hi⟩ := h.known i hi
      exact ⟨k', List.mem_append_left _ hk', hi⟩
    · rename_i hi'
      rw [length_requests] at hi hi'
      refine ⟨k, List.mem_append_right _ (List.mem_singleton_self k), ?_⟩
      cases hd : i - f.sup.calls.length with
      | zero => omega
      | succ n =>
        rw [hd, List.getElem?_cons_succ] at hi
        exact absurd (List.mem_of_getElem? hi) hno
  · rcases (hdetached c).mp hc with hc | rfl
    · have hold := h.old c hc
      omega
    · exact hroot
  · rw [hdetached]
    exact (hturns c hc).imp (h.turns c) id

theorem any_background {s : Sup} {n : Nat} :
    (s.calls[n]?).any (·.request = .background) = true ↔
      s.requests[n]? = some .background := by
  simp only [Sup.requests, List.getElem?_map, Option.any_eq_true, decide_eq_true_eq,
    Option.map_eq_some_iff]

/-- A new call that leaves its start to a task. -/
theorem Kept.detach (h : f.Kept) {q : Request} {s : Sup}
    (hstep : f.sup.step cfg (.call q) = some s) (hd : f.sup.detaches q = true)
    (hq : q ≠ .background) (hmore : s.requests = f.sup.requests ++ [.background, q]) :
    (f.record (.call q) s).Kept := by
  have hlen := length_of_requests hmore
  rw [List.length_cons, List.length_singleton] at hlen
  have hat : s.requests[f.sup.calls.length]? = some .background := requests_next hmore
  have hmade : (f.record (.call q) s).made =
      f.made ++ [⟨f.sup.calls.length, s.calls.length - 1, s.core.ctl.stopTask⟩] := by
    simp only [record, any_background.mpr hat, if_true]
  -- the call is noted in one of the two lists
  have hnoted : (∀ c, c ∈ (f.record (.call q) s).detached ↔
        c ∈ f.detached ∨ c = s.calls.length - 1) ∧
      (f.record (.call q) s).detached.length = f.detached.length + 1 := by
    by_cases hs : f.sup.core.ctl.state = .stopping
    · simp only [detached, record, hd, hs, decide_true, Bool.and_self, if_true, Bool.not_true,
        Bool.and_false, Bool.false_eq_true, if_false, List.mem_append, List.length_append,
        List.length_singleton, List.mem_singleton]
      exact ⟨fun c => by tauto, by omega⟩
    · simp only [detached, record, hd, hs, decide_false, Bool.and_false, Bool.false_eq_true,
        if_false, Bool.not_false, Bool.and_self, if_true, List.mem_append, List.length_append,
        List.length_singleton, List.mem_singleton]
      exact ⟨fun c => by tauto, by omega⟩
  obtain ⟨hmem, hcount⟩ := hnoted
  have hturns : (f.record (.call q) s).turns = f.turns := rfl
  -- nothing older goes back to the new call
  have hnew : s.calls.length - 1 ∉ f.detached := by
    intro hc
    have hold := h.old _ hc
    omega
  have hroots : ∀ k ∈ f.made, k.root ≠ s.calls.length - 1 := fun k hk hroot =>
    hnew (hroot ▸ h.accounted.roots k hk)
  refine h.grow hstep hmore (by simpa using hq.symm) hmade rfl hmem ?_
    (fun c hc => ?_) (fun k hk hroot => absurd hroot (hroots k hk)) ?_ fun c hc => .inl hc
  · have hsup : (f.record (.call q) s).sup = s := rfl
    rw [hsup]
    exact Nat.sub_lt (by omega) Nat.one_pos
  · rw [hmade, hturns, List.countP_append, List.countP_singleton]
    rcases (hmem c).mp hc with hc | rfl
    · have hne : s.calls.length - 1 ≠ c := fun heq => hnew (heq ▸ hc)
      rw [h.accounted.each c hc]
      simp [hne]
    · have hzero : f.made.countP (·.root = s.calls.length - 1) = 0 := by
        rw [List.countP_eq_zero]
        simpa using hroots
      have hnone : f.turns.count (s.calls.length - 1) = 0 :=
        List.count_eq_zero.mpr fun hc => hnew (h.turns _ hc)
      rw [hzero, hnone]
      simp
  · rw [hcount, hturns]
    omega

/-- A continuation that gets its turn in STOPPING. -/
theorem Kept.respawn (h : f.Kept) {c : Nat} {s : Sup}
    (hstep : f.sup.step cfg (.resume c) = some s)
    (hoff : (f.sup.created c && f.sup.leavesOff false) = true)
    (hmore : s.requests = f.sup.requests ++ [.background]) (hs : f.sup.Counted) :
    (f.record (.resume c) s).Kept := by
  have hlen := length_of_requests hmore
  rw [List.length_singleton] at hlen
  have hat : s.requests[f.sup.calls.length]? = some .background := requests_next hmore
  have hmade : (f.record (.resume c) s).made =
      f.made ++ [⟨f.sup.calls.length, f.root c, s.core.ctl.stopTask⟩] := by
    simp only [record, any_background.mpr hat, if_true]
  have hturns : (f.record (.resume c) s).turns = f.turns ++ [f.root c] := by
    rw [Sup.leavesOff_false, ← Bool.and_assoc] at hoff
    exact if_pos hoff
  have hdetached : (f.record (.resume c) s).detached = f.detached := rfl
  -- the task that took the step continues a call, as its only unfinished task
  obtain ⟨hcreated, -⟩ := (Bool.and_eq_true _ _).mp hoff
  obtain ⟨t, hc, hpc⟩ := (Option.any_eq_true _ _).mp hcreated
  have hpc : t.pc = .created := of_decide_eq_true hpc
  have hbg : f.sup.requests[c]? = some .background := by
    rw [Sup.requests, List.getElem?_map, hc]
    exact congrArg some ((hs.proper t (List.mem_of_getElem? hc)).1 hpc)
  obtain ⟨k, hk, htask, hroot⟩ : ∃ k ∈ f.made, k.task = c ∧ f.root c = k.root := by
    obtain ⟨k', hk', htask'⟩ := h.known c hbg
    obtain ⟨k, hfind⟩ : ∃ k, f.made.find? (·.task = c) = some k :=
      Option.isSome_iff_exists.mp
        (List.find?_isSome.mpr ⟨k', hk', decide_eq_true htask'⟩)
    refine ⟨k, List.mem_of_find?_eq_some hfind, ?_, ?_⟩
    · simpa using List.find?_some hfind
    · rw [root, hfind]
      rfl
  have hover : k.done s = true := by
    rcases Sup.step_over hstep hc hpc with ⟨-, hne⟩ | ⟨t', ht', hfin⟩
    · exact absurd rfl hne
    · rw [Continuation.done, htask, ht']
      exact hfin
  have hopen : k.done f.sup = false := by
    rw [Continuation.done, htask, hc]
    simp [hpc, CallPc.finished]
  have hmem : f.root c ∈ f.detached := hroot ▸ h.accounted.roots k hk
  refine h.grow hstep hmore List.not_mem_nil hmade rfl (fun c' => ?_) ?_
    (fun c' hc' => ?_) (fun k' hk' hsame => ?_) ?_ fun c' hc' => ?_
  · rw [hdetached]
    exact ⟨.inl, fun hc' => hc'.elim id (· ▸ hmem)⟩
  · have hold := h.old _ hmem
    have hsup : (f.record (.resume c) s).sup = s := rfl
    rw [hsup]
    exact lt_trans hold (by omega)
  · rw [hmade, hturns, List.countP_append, List.countP_singleton, List.count_append,
      List.count_singleton, h.accounted.each c' hc', add_assoc]
    simp [beq_iff_eq]
  · by_cases heq : k' = k
    · exact heq ▸ hover
    · have hsym : Std.Symm fun k k' : Continuation =>
          k.root = k'.root → k.done f.sup = true ∨ k'.done f.sup = true :=
        ⟨fun _ _ hkk hroot => (hkk hroot.symm).symm⟩
      rcases h.accounted.single.forall hk' hk heq (hsame.trans hroot) with hk' | hk'
      · exact over_step hstep hk'
      · exact absurd (hopen.symm.trans hk') Bool.false_ne_true
  · rw [hdetached, hturns, List.length_append, List.length_singleton]
    omega
  · rw [hturns] at hc'
    simpa using hc'

/-- **Every step keeps the account.** -/
theorem Kept.step (h : f.Kept) (hs : f.sup.Counted) {ev : SupEvent}
    (hstep : f.step cfg ev = some f') : f'.Kept := by
  obtain ⟨s, hsup, rfl⟩ := Option.map_eq_some_iff.mp hstep
  -- without a new task of `_spawn` nothing is recorded of it
  have hmade : ∀ {more : List Request}, s.requests = f.sup.requests ++ more →
      .background ∉ more → (f.record ev s).made = f.made := by
    intro more hmore hno
    refine if_neg ?_
    rw [any_background, hmore, ← length_requests, List.getElem?_append_right le_rfl, Nat.sub_self]
    exact fun hbg => hno (List.mem_of_getElem? hbg)
  rcases Sup.step_requests hsup with ⟨q, rfl, hq, hmore⟩ | ⟨c, rfl, hoff, hmore⟩ |
    ⟨hcall, hresume, hmore⟩
  · cases hd : f.sup.detaches q with
    | true =>
      rw [hd] at hmore
      exact h.detach hsup hd hq hmore
    | false =>
      rw [hd] at hmore
      have hno : .background ∉ [q] := by simpa using hq.symm
      refine h.plain hsup hmore hno (hmade hmore hno) ?_ rfl
      simp [detached, record, hd]
  · exact h.respawn hsup hoff hmore hs
  · have hnothing : s.requests = f.sup.requests ++ [] := by rw [hmore, List.append_nil]
    refine h.plain hsup hnothing List.not_mem_nil (hmade hnothing List.not_mem_nil) ?_ ?_
    · cases ev with
      | call q => exact absurd rfl (hcall q)
      | resume | expire | leave | cancel | tick | loop => rfl
    · cases ev with
      | resume c =>
        have hoff := hresume c rfl
        rw [Sup.leavesOff_false, ← Bool.and_assoc] at hoff
        exact if_neg (by rw [hoff]; exact Bool.false_ne_true)
      | call | expire | leave | cancel | tick | loop => rfl

/-! ### The turns in time -/

/-- **A step is in time exactly when it adds nothing to the record of the turns.** -/
theorem inTime_iff (h : f.Kept) (ht : TasksOk f.sup.core.ctl) {ev : SupEvent}
    (hstep : f.step cfg ev = some f') :
    f.InTime ev ↔ f'.turns = f.turns ∧ f'.early = f.early := by
  obtain ⟨s, hsup, rfl⟩ := Option.map_eq_some_iff.mp hstep
  have hmore : ∀ {l : List Nat} {c : Nat} {b : Bool},
      (if b = true then l ++ [c] else l) = l ↔ b = false := by
    intro l c b
    cases b <;> simp
  cases ev with
  | resume c =>
    obtain ⟨t, hc, hwake⟩ := Option.bind_eq_some_iff.mp hsup
    obtain ⟨r, hr, -⟩ := Option.map_eq_some_iff.mp hwake
    -- a continuation takes a step only before its first one, and early only in STOPPING
    have hearly : f.made.any (fun k => k.task = c && k.early f.sup) = true →
        f.sup.created c = true ∧ f.sup.core.ctl.state = .stopping := by
      intro hany
      obtain ⟨k, hk, hearly⟩ := List.any_eq_true.mp hany
      simp only [Bool.and_eq_true, decide_eq_true_eq] at hearly
      obtain ⟨rfl, hearly⟩ := hearly
      have hbg := any_background.mpr (h.task k hk)
      rw [hc] at hbg
      refine ⟨?_, ?_⟩
      · rcases h.brief _ t hc (of_decide_eq_true hbg) with hpc | hpc
        · rw [Sup.created, hc]
          exact decide_eq_true hpc
        · cases (Sup.wake_finished hpc).symm.trans hr
      · by_contra hstate
        obtain ⟨i, -, hi⟩ := (Option.any_eq_true _ _).mp hearly
        obtain ⟨t, hti, hpc⟩ := (Option.any_eq_true _ _).mp hi
        rw [ht.stop_ended hstate hti] at hpc
        simp at hpc
    simp only [InTime, record, hmore, Bool.and_eq_false_iff, decide_eq_false_iff_not,
      Bool.not_eq_false']
    constructor
    · intro hok
      refine ⟨?_, ?_⟩
      · by_cases hcreated : f.sup.created c = true
        · by_cases hstate : f.sup.core.ctl.state = .stopping
          · exact .inr (hok hcreated hstate).1
          · exact .inl (.inr hstate)
        · exact .inl (.inl (Bool.eq_false_iff.mpr hcreated))
      · by_contra hany
        have hany := eq_true_of_ne_false hany
        obtain ⟨hcreated, hstate⟩ := hearly hany
        exact absurd ((hok hcreated hstate).2.symm.trans hany) Bool.false_ne_true
    · rintro ⟨hturn, hany⟩ hcreated hstate
      refine ⟨?_, hany⟩
      rcases hturn with (hno | hno) | hclosing
      · exact absurd (hno.symm.trans hcreated) Bool.false_ne_true
      · exact absurd hstate hno
      · exact hclosing
  | call | expire | leave | cancel | tick | loop =>
    simp only [InTime, record, and_self]

/-- The record of the turns only grows. -/
theorem turns_step {ev : SupEvent} (hstep : f.step cfg ev = some f') :
    (f'.turns = [] → f.turns = []) ∧ (f'.early = [] → f.early = []) := by
  obtain ⟨s, -, rfl⟩ := Option.map_eq_some_iff.mp hstep
  have hmore : ∀ {l : List Nat} {c : Nat} {b : Bool},
      (if b = true then l ++ [c] else l) = [] → l = [] := by
    intro l c b
    cases b <;> simp
  cases ev with
  | resume c => exact ⟨hmore, hmore⟩
  | call | expire | leave | cancel | tick | loop => exact ⟨id, id⟩

/-- The bounds hold exactly when no continuation got a turn in STOPPING. -/
theorem Accounted.bounded_iff (h : f.Accounted) :
    f.Bounded ↔ f.turns = [] ∧ f.early = [] := by
  constructor
  · intro hb
    refine ⟨?_, hb.early⟩
    have htotal := h.total
    have hle := hb.total
    rw [detached, List.length_append] at htotal
    exact List.eq_nil_of_length_eq_zero (by omega)
  · rintro ⟨hturns, hearly⟩
    refine ⟨fun c => ?_, h.roots, ?_, hearly⟩
    · by_cases hc : c ∈ f.detached
      · rw [h.each c hc, hturns]
        rfl
      · have hzero : f.made.countP (·.root = c) = 0 := by
          rw [List.countP_eq_zero]
          rintro k hk hroot
          exact hc (of_decide_eq_true hroot ▸ h.roots k hk)
        exact hzero ▸ Nat.zero_le 1
    · have htotal := h.total
      rw [hturns, detached, List.length_append] at htotal
      exact le_of_eq htotal

end Following

/-! ### Every run -/

theorem following_kept {cfg : Config} {f : Following} (h : (following cfg).Reachable f) :
    f.Kept ∧ TasksOk f.sup.core.ctl := by
  have hsup : ∀ g, (following cfg).Reachable g →
      g.sup.Counted ∧ TasksOk g.sup.core.ctl := by
    intro g hg
    have hreach : (supervisor cfg).Reachable g.sup := (following_simulation cfg).reachBy hg
    exact ⟨hreach.invariant (fun _ => Sup.Counted.initial) fun _ _ _ hs _ => hs.step,
      tasksOk (reachable_core hreach)⟩
  exact ⟨Machine.ReachBy.invariant_of hsup (fun _ => Following.Kept.initial)
    (fun _ _ _ hg hk _ hstep => hk.step hg.1 hstep) h, (hsup f h).2⟩

/-- Nothing in the record: every turn was in time. -/
theorem inTime_of_turns {cfg : Config} {f : Following} (h : (following cfg).Reachable f)
    (hturns : f.turns = []) (hearly : f.early = []) :
    (following cfg).ReachBy Following.InTime f := by
  induction h with
  | init hinit => exact .init hinit
  | step hg _ hstep ih =>
    obtain ⟨hkept, htasks⟩ := following_kept hg
    have hold := Following.turns_step hstep
    refine .step (ih (hold.1 hturns) (hold.2 hearly)) ?_ hstep
    refine (Following.inTime_iff hkept htasks hstep).mpr ⟨?_, ?_⟩
    · rw [hturns, hold.1 hturns]
    · rw [hearly, hold.2 hearly]

theorem turns_of_inTime {cfg : Config} {f : Following}
    (h : (following cfg).ReachBy Following.InTime f) : f.turns = [] ∧ f.early = [] := by
  refine Machine.ReachBy.invariant_of (fun _ hg => following_kept hg.reachable)
    (I := fun f => f.turns = [] ∧ f.early = []) (fun _ hinit => hinit.2.2.2.2) ?_ h
  intro f ev f' hg hf hok hstep
  obtain ⟨hturns, hearly⟩ := (Following.inTime_iff hg.1 hg.2 hstep).mp hok
  exact ⟨hturns.trans hf.1, hearly.trans hf.2⟩

/-- **Bounded continuations**: in every run a call has one continuation and one more for each
turn that its continuations got in STOPPING, and at most one is unfinished. The bounds hold
exactly in the runs in which every task of `_spawn` gets its turn in time. -/
theorem continuations_bounded {cfg : Config} {f : Following}
    (h : (following cfg).Reachable f) :
    f.Accounted ∧ (f.Bounded ↔ (following cfg).ReachBy Following.InTime f) := by
  have hacc := (following_kept h).1.accounted
  refine ⟨hacc, hacc.bounded_iff.trans ⟨fun hf => inTime_of_turns h hf.1 hf.2, turns_of_inTime⟩⟩

/-- Nobody has called yet, at the start of the daemon. -/
def Following.fresh : Following :=
  { sup := Sup.fresh, arrived := [], restarted := [], made := [], turns := [], early := [] }

theorem Following.fresh_initial : Following.fresh.Initial :=
  ⟨Sup.fresh_initial, rfl, rfl, rfl, rfl, rfl⟩

/-- A start that does not wait comes before the last step of a stop, and its continuation
gets its turn behind that step. -/
def continuedRun : List SupEvent :=
  stopRun.dropLast ++
    [.call (.start false none), .loop (.stop 0 (.torn .closed)), .resume 2]

theorem continuations_bounded_sample : ∃ f : Following,
    (following ⟨0, 180, 30⟩).run Following.fresh continuedRun = some f ∧
      f.sup.core.ctl.state = .starting ∧ f.arrived = [3] ∧ f.made.length = 1 ∧ f.Bounded := by
  have hok : (following ⟨0, 180, 30⟩).RunOk Following.InTime Following.fresh continuedRun := by
    decide
  obtain ⟨f, hrun, hs, harrived, hmade⟩ : ∃ f : Following,
      (following ⟨0, 180, 30⟩).run Following.fresh continuedRun = some f ∧
        f.sup.core.ctl.state = .starting ∧ f.arrived = [3] ∧ f.made.length = 1 :=
    ⟨_, rfl, rfl, rfl, rfl⟩
  have hreach : (following ⟨0, 180, 30⟩).ReachBy Following.InTime f :=
    .of_run (.init Following.fresh_initial) hok hrun
  exact ⟨f, hrun, hs, harrived, hmade,
    (continuations_bounded hreach.reachable).2.mpr hreach⟩

/-- A start that does not wait comes early in a stop, and its continuation gets a turn. -/
def respawnRun : List SupEvent :=
  bootRun ++ [.call (.stop false), .call (.start false none), .resume 2]

/-- The continuation is continued by another one, and so on while the stop lasts. -/
theorem respawns : ¬ ∀ (cfg : Config) (f : Following), (following cfg).Reachable f →
    f.Bounded := by
  intro hall
  obtain ⟨f, hrun, hmade⟩ : ∃ f : Following,
      (following ⟨0, 180, 30⟩).run Following.fresh respawnRun = some f ∧
        f.made.countP (·.root = 3) = 2 :=
    ⟨_, rfl, rfl⟩
  have hreach : (following ⟨0, 180, 30⟩).Reachable f :=
    Machine.Reachable.of_run (.init Following.fresh_initial) hrun
  have heach := (hall _ f hreach).each 3
  rw [hmade] at heach
  exact absurd heach (by decide)

end Supervisor

end AndroidAppliance
