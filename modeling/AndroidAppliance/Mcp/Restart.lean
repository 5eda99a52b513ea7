import AndroidAppliance.Mcp.WaitBoot

/-!
# A restart and the tool that waits for it

While a restart goes on, a `wait` that is not refused has joined a boot that succeeds, or runs
into its own timeout (`Joined.step`). So the tool raises an error exactly where a `wait` is
refused and the stop is over before the status is read.
-/

namespace AndroidAppliance

namespace Mcp

open Supervisor

variable {cfg : Config} {s s' : Sup} {c : Nat} {ev : SupEvent}

/-! ### The wait -/

/-- A call waits for a boot that goes on, or that Android runs from. -/
def Joined (s : Sup) (c : Nat) : Prop :=
  ∃ t f u timeout, s.calls[c]? = some t ∧ t.request = .wait (some timeout) ∧
    t.pc = .joining f ∧ s.core.ctl.futures[f]? = some u ∧
    (u.result = none ∧ s.core.ctl.state = .starting ∨
      u.result = some .success ∧ s.core.ctl.state = .running)

/-- The end of a call that has joined a boot: Android runs, or its timeout is over. -/
def Left (s : Sup) (c : Nat) : Prop :=
  ∃ t, s.calls[c]? = some t ∧ (t.pc = .ended .returned ∧ s.core.ctl.state = .running ∨
    ∃ timeout, t.pc = .ended (.raised (.notBooted timeout)))

/-- The boot of a call goes on with the restart. -/
theorem boot_onward (hs : (supervisor cfg).Reachable s) (hstep : s.step cfg ev = some s')
    (honward : Onward s.core.ctl.state s'.core.ctl.state) {f : Nat} {u : Future}
    (hf : s.core.ctl.futures[f]? = some u)
    (hu : u.result = none ∧ s.core.ctl.state = .starting ∨
      u.result = some .success ∧ s.core.ctl.state = .running) :
    ∃ u', s'.core.ctl.futures[f]? = some u' ∧
      (u'.result = none ∧ s'.core.ctl.state = .starting ∨
        u'.result = some .success ∧ s'.core.ctl.state = .running) := by
  rcases hu with ⟨hnone, hstart⟩ | ⟨hsuccess, hrun⟩
  · have ht := tasksOk (reachable_core hs)
    have hpending : (s'.core.ctl.state = .starting →
          ∃ t', s'.core.ctl.futures[f]? = some t' ∧ t'.result = none) ∧
        (s'.core.ctl.state = .running →
          ∃ t', s'.core.ctl.futures[f]? = some t' ∧ t'.result = some .success) := by
      rcases Sup.step_core hstep with ⟨e, -, -, hcore⟩ | ⟨-, hcall⟩
      · exact (step_move hcore).pending_future ht hstart hf hnone
      · exact hcall.pending_future ht hstart hf hnone
    rw [hstart] at honward
    -- a restart that goes on from STARTING stays there or runs
    rcases honward with hsame | ⟨hno, -⟩ | ⟨hno, -⟩ | ⟨-, hrun⟩
    · obtain ⟨u', hu', hnone'⟩ := hpending.1 hsame.symm
      exact ⟨u', hu', .inl ⟨hnone', hsame.symm⟩⟩
    · cases hno
    · cases hno
    · obtain ⟨u', hu', hsuccess⟩ := hpending.2 hrun
      exact ⟨u', hu', .inr ⟨hsuccess, hrun⟩⟩
  · have hkeeps := (Sup.follows hs hstep).keeps f u hf (by simp [hsuccess])
    rw [hrun] at honward
    rcases honward with hsame | ⟨hno, -⟩ | ⟨hno, -⟩ | ⟨hno, -⟩
    · exact ⟨u, hkeeps, .inr ⟨hsuccess, hsame.symm⟩⟩
    · cases hno
    · cases hno
    · cases hno

/-- **One step of the Supervisor** keeps the call waiting for its boot, or ends it well. -/
theorem Joined.step (hj : Joined s c) (hs : (supervisor cfg).Reachable s)
    (hstep : s.step cfg ev = some s') (honward : Onward s.core.ctl.state s'.core.ctl.state)
    (hcancel : ev ≠ .cancel c) : Joined s' c ∨ Left s' c := by
  obtain ⟨t, f, u, timeout, hc, hrequest, hpc, hf, hu⟩ := hj
  rcases Sup.step_calls hstep hc with hc' | ⟨r, hcore, hc', hend⟩
  · obtain ⟨u', hf', hu'⟩ := boot_onward hs hstep honward hf hu
    exact .inl ⟨t, f, u', timeout, hc', hrequest, hpc, hf', hu'⟩
  · refine .inr ⟨_, hc', ?_⟩
    -- a call ends by its boot, by its timeout, by its body or by a cancellation
    rcases hend with ⟨-, hwake⟩ | ⟨-, hexpire⟩ | ⟨ok, -, hleave⟩ | ⟨hev, -⟩
    · -- the boot is done
      simp only [Sup.wake, hpc, hf, Option.bind_some] at hwake
      rcases hu with ⟨hnone, -⟩ | ⟨hsuccess, hrun⟩
      · rw [hnone] at hwake
        cases hwake
      · rw [hsuccess, hrequest] at hwake
        cases hwake
        exact .inl ⟨rfl, by rw [hcore]; exact hrun⟩
    · simp only [Sup.expire, hpc, hrequest, Supervisor.Request.timeout] at hexpire
      split at hexpire
      · cases hexpire
      · cases hexpire
        exact .inr ⟨timeout, rfl⟩
    · simp only [Sup.leave, hpc] at hleave
      cases hleave
    · exact absurd hev hcancel

/-! ### The tool -/

namespace World

variable {w w' : World} {e : Event}

/-- What holds of a tool that has not raised an error. -/
structure Ok (cfg : Config) (w : World) : Prop where
  reachable : (supervisor cfg).Reachable w.sup
  closing : w.sup.core.ctl.closing = false
  waiting : ∀ c, w.pc = .waiting c → Joined w.sup c
  late : w.pc = .late → w.timeout ≤ w.elapsed
  raised : ∀ e, w.pc ≠ .raised e

theorem attend_of_joined (hpc : w.pc = .waiting c) (hj : Joined w.sup c) : w.attend = w := by
  obtain ⟨t, f, u, timeout, hc, -, htpc, -⟩ := hj
  simp only [attend, hpc, hc, Option.map_some, htpc]

theorem attend_of_ended {r : Result} (hpc : w.pc = .waiting c)
    (hc : (w.sup.calls[c]?).map Call.pc = some (.ended r)) :
    w.attend = { w with pc := w.hear r } := by
  simp only [attend, hpc, hc]

/-- A wait that has joined a boot ends with a running Android, or with its timeout. -/
theorem attend_of_left (hpc : w.pc = .waiting c) (hleft : Left w.sup c) :
    (w.attend = { w with pc := .returned .running false } ∧ w.state = .running) ∨
      ∃ timeout, w.attend = { w with pc := .asking (.notBooted timeout) } := by
  obtain ⟨t, hc, ⟨htpc, hrun⟩ | ⟨timeout, htpc⟩⟩ := hleft
  · refine .inl ⟨?_, hrun⟩
    simp only [attend, hpc, hc, Option.map_some, htpc, hear]
    rw [show w.state = .running from hrun]
  · refine .inr ⟨timeout, ?_⟩
    simp [attend, hpc, hc, htpc, hear, LifecycleError.code]

theorem attend_of_ne (hpc : ∀ c, w.pc ≠ .waiting c) : w.attend = w := by
  unfold attend
  split
  · rename_i c hc
    exact absurd hc (hpc c)
  · rfl

/-- A step that leaves the tool where it is. -/
theorem Answer.of_pc (h : ∀ e, w.pc ≠ .raised e) (hpc : w'.pc = w.pc) : Answer w w' :=
  ⟨fun e => hpc ▸ h e, fun _ _ _ hne => absurd hpc.symm hne⟩

/-- The tool goes on by itself: it neither waits nor has it an answer. -/
def Going (w : World) : Prop :=
  match w.pc with
  | .called | .looping | .sending _ | .asking _ | .sleeping => True
  | .waiting _ | .late | .returned .. | .raised _ => False

theorem Ok.of_going (hreach : (supervisor cfg).Reachable w.sup)
    (hclosing : w.sup.core.ctl.closing = false) (hgoing : w.Going) : w.Ok cfg := by
  unfold Going at hgoing
  refine ⟨hreach, hclosing, fun c hc => ?_, fun hlate => ?_, fun e he => ?_⟩
  · rw [hc] at hgoing
    exact hgoing.elim
  · rw [hlate] at hgoing
    exact hgoing.elim
  · rw [he] at hgoing
    exact hgoing.elim

theorem Ok.of_returned (hreach : (supervisor cfg).Reachable w.sup)
    (hclosing : w.sup.core.ctl.closing = false) {state : State} {note : Bool}
    (hpc : w.pc = .returned state note) : w.Ok cfg := by
  refine ⟨hreach, hclosing, fun c hc => ?_, fun hlate => ?_, fun e he => ?_⟩
  · cases hpc.symm.trans hc
  · cases hpc.symm.trans hlate
  · cases hpc.symm.trans he

/-- A step after which the tool goes on. -/
theorem Answer.of_going (hgoing : w'.Going) : Answer w w' := by
  unfold Going at hgoing
  refine ⟨fun e he => ?_, fun state note hret _ => ?_⟩
  · rw [he] at hgoing
    exact hgoing.elim
  · rw [hret] at hgoing
    exact hgoing.elim

/-- A step that returns the status, of a running Android or behind the timeout. -/
theorem Answer.of_returned {state : State} {note : Bool} (hpc : w'.pc = .returned state note)
    (hstate : state = w'.state ∧ (state = .running ∨ w'.timeout ≤ w'.elapsed ∨
      w'.tool = .start false ∨ w'.tool = .restart false)) : Answer w w' := by
  refine ⟨fun e he => ?_, fun state' note' hret _ => ?_⟩
  · cases hpc.symm.trans he
  · cases hpc.symm.trans hret
    exact hstate

theorem Ok.daemon (h : w.Ok cfg) (hcalm : Calm cfg w (.daemon ev))
    (hstep : w.step cfg (.daemon ev) = some w') : w'.Ok cfg ∧ Answer w w' := by
  simp only [step] at hstep
  split at hstep
  · cases hstep
  rename_i hcancels
  obtain ⟨sup, hsup, rfl⟩ := Option.map_eq_some_iff.mp hstep
  simp only [Calm, hsup] at hcalm
  obtain ⟨honward, hclosing⟩ := hcalm
  have hreach : (supervisor cfg).Reachable sup := h.reachable.step hsup
  by_cases hwaiting : ∃ c, w.pc = .waiting c
  · obtain ⟨c, hpc⟩ := hwaiting
    have hcancel : ev ≠ .cancel c := by
      rintro rfl
      exact hcancels (by simp [cancels, hpc])
    have hpc' : ({ w with sup } : World).pc = .waiting c := hpc
    rcases (h.waiting c hpc).step h.reachable hsup honward hcancel with hj | hleft
    · rw [attend_of_joined hpc' hj]
      refine ⟨⟨hreach, hclosing, fun c' hc' => ?_, fun hlate => ?_, h.raised⟩, .of_pc h.raised rfl⟩
      · cases hpc.symm.trans hc'
        exact hj
      · cases hpc.symm.trans hlate
    · rcases attend_of_left hpc' hleft with ⟨heq, hrun⟩ | ⟨timeout, heq⟩
      · rw [heq]
        exact ⟨.of_returned hreach hclosing rfl, .of_returned rfl ⟨hrun.symm, .inl rfl⟩⟩
      · rw [heq]
        exact ⟨.of_going hreach hclosing trivial, .of_going trivial⟩
  · have hne : ∀ c, ({ w with sup } : World).pc ≠ .waiting c := fun c hc => hwaiting ⟨c, hc⟩
    rw [attend_of_ne hne]
    exact ⟨⟨hreach, hclosing, fun c hc => absurd hc (hne c), h.late, h.raised⟩,
      .of_pc h.raised rfl⟩

/-- The first request returns, and no shutdown begins with it. -/
theorem begin_spec (hclosing : w.sup.core.ctl.closing = false) :
    (w.sup.enter w.tool.request).2 = .ended .returned ∧
      (w.sup.enter w.tool.request).1.core.ctl.closing = false := by
  have hstart : ∀ s : Sup, s.core.ctl.closing = false →
      (s.start false).2 = .ended .returned ∧ (s.start false).1.core.ctl.closing = false := by
    intro s hs
    unfold Sup.start
    rw [if_neg (by simp [hs])]
    cases s.core.ctl.state with
    | running => exact ⟨rfl, hs⟩
    | stopping => exact ⟨rfl, hs⟩
    | stopped => exact ⟨rfl, hs⟩
    | starting => exact ⟨rfl, hs⟩
  cases htool : w.tool with
  | start wait => exact hstart { w.sup with core := w.sup.core.touch } hclosing
  | restart wait =>
    refine ⟨rfl, ?_⟩
    change (w.sup.core.touch.stop).ctl.closing = false
    unfold Lifecycle.stop
    split
    · exact hclosing
    · exact hclosing

theorem Ok.request (h : w.Ok cfg) (hstep : w.step cfg .request = some w') :
    w'.Ok cfg ∧ Answer w w' := by
  simp only [step] at hstep
  split at hstep
  swap
  · cases hstep
  cases hstep
  obtain ⟨hreturned, hclosing⟩ := begin_spec h.closing
  have hreach : (supervisor cfg).Reachable
      (.addCall w.tool.request (w.sup.enter w.tool.request)) := by
    have hcall : (supervisor cfg).step w.sup (.call w.tool.request) =
        some (.addCall w.tool.request (w.sup.enter w.tool.request)) := by
      cases w.tool <;> rfl
    exact h.reachable.step hcall
  unfold begin
  simp only [hreturned]
  split
  · rename_i hcontent
    refine ⟨.of_returned hreach hclosing rfl, .of_returned rfl ⟨rfl, ?_⟩⟩
    -- what is returned at once: of a running Android, or to a tool that does not wait
    cases htool : w.tool with
    | start wait =>
      simp only [Tool.content, htool, Bool.or_eq_true, Bool.not_eq_true', beq_iff_eq] at hcontent
      rcases hcontent with rfl | hrun
      · exact .inr (.inr (.inl rfl))
      · exact .inl hrun
    | restart wait =>
      simp only [Tool.content, htool, Bool.not_eq_true'] at hcontent
      subst hcontent
      exact .inr (.inr (.inr rfl))
  · exact ⟨.of_going hreach hclosing trivial, .of_going trivial⟩

theorem Ok.poll (h : w.Ok cfg) (hstep : w.step cfg .poll = some w') : w'.Ok cfg ∧ Answer w w' := by
  simp only [step] at hstep
  split at hstep
  · cases hstep
  · split at hstep
    · rename_i hremaining
      cases hstep
      refine ⟨⟨h.reachable, h.closing, fun c hc => ?_, fun _ => sub_nonpos.mp hremaining,
        fun e he => ?_⟩, fun e he => ?_, fun state note hret _ => ?_⟩
      · cases hc
      · cases he
      · cases he
      · cases hret
    · cases hstep
      exact ⟨.of_going h.reachable h.closing trivial, .of_going trivial⟩

/-- A wait that is refused at once. -/
theorem refused_ok (h : w.Ok cfg) {timeout : ℚ} {state : State}
    (hreach : (supervisor cfg).Reachable
      (.addCall (.wait (some timeout)) (w.sup.enter (.wait (some timeout)))))
    (henter : w.sup.enter (.wait (some timeout)) =
      (w.sup, .ended (.raised (.conflict state)))) :
    let w' : World := { w with
      sup := .addCall (.wait (some timeout)) (w.sup.enter (.wait (some timeout)))
      pc := w.hear (.raised (.conflict state)) }
    w'.Ok cfg ∧ Answer w w' := by
  have hhear : w.hear (.raised (.conflict state)) = .asking (.conflict state) := by
    simp [hear, LifecycleError.code]
  simp only [hhear]
  refine ⟨.of_going hreach ?_ trivial, .of_going trivial⟩
  rw [henter]
  exact h.closing

theorem Ok.send (h : w.Ok cfg) (hstep : w.step cfg .send = some w') : w'.Ok cfg ∧ Answer w w' := by
  simp only [step] at hstep
  split at hstep
  swap
  · cases hstep
  rename_i timeout hpc
  cases hstep
  have hcall : (supervisor cfg).step w.sup (.call (.wait (some timeout))) =
      some (.addCall (.wait (some timeout)) (w.sup.enter (.wait (some timeout)))) := rfl
  have hreach := h.reachable.step hcall
  -- what the tool does with a call that has ended at once
  have hended : ∀ r : Result, w.sup.enter (.wait (some timeout)) = (w.sup, .ended r) →
      attend { w with
        sup := .addCall (.wait (some timeout)) (w.sup.enter (.wait (some timeout)))
        pc := .waiting (w.sup.enter (.wait (some timeout))).1.calls.length } =
      { w with
        sup := .addCall (.wait (some timeout)) (w.sup.enter (.wait (some timeout)))
        pc := w.hear r } := by
    intro r henter
    have hc : ((Sup.addCall (.wait (some timeout)) (w.sup.enter (.wait (some timeout)))).calls[
        (w.sup.enter (.wait (some timeout))).1.calls.length]?).map Call.pc = some (.ended r) := by
      rw [henter, Sup.addCall, Table.append_new]
      rfl
    rw [attend_of_ended rfl hc]
    simp only [henter]
    cases r <;> rfl
  cases hstate : w.sup.core.ctl.state with
  | running =>
    have henter : w.sup.enter (.wait (some timeout)) = (w.sup, .ended .returned) := by
      simp only [Sup.enter, hstate]
    rw [hended _ henter]
    refine ⟨.of_returned hreach ?_ rfl, .of_returned rfl ⟨?_, .inl hstate⟩⟩
    · rw [henter]
      exact h.closing
    · rw [henter]
      rfl
  | starting =>
    obtain ⟨f, u, hdone, hf, hnone⟩ := (tasksOk (reachable_core h.reachable)).starting hstate
    have henter : w.sup.enter (.wait (some timeout)) = (w.sup, .joining f) := by
      simp only [Sup.enter, hstate, Lifecycle.joinBoot, hdone]
    have hj : Joined (.addCall (.wait (some timeout)) (w.sup.enter (.wait (some timeout))))
        (w.sup.enter (.wait (some timeout))).1.calls.length := by
      rw [henter]
      exact ⟨_, f, u, timeout, Table.append_new, rfl, rfl, hf, .inl ⟨hnone, hstate⟩⟩
    rw [attend_of_joined rfl hj]
    refine ⟨⟨hreach, ?_, fun c hc => ?_, fun hlate => ?_, fun e he => ?_⟩,
      fun e he => ?_, fun state note hret _ => ?_⟩
    · rw [henter]
      exact h.closing
    · cases hc
      exact hj
    · cases hlate
    · cases he
    · cases he
    · cases hret
  | stopped =>
    have henter : w.sup.enter (.wait (some timeout)) =
        (w.sup, .ended (.raised (.conflict .stopped))) := by
      simp only [Sup.enter, hstate]
    rw [hended _ henter]
    exact refused_ok h hreach henter
  | stopping =>
    have henter : w.sup.enter (.wait (some timeout)) =
        (w.sup, .ended (.raised (.conflict .stopping))) := by
      simp only [Sup.enter, hstate]
    rw [hended _ henter]
    exact refused_ok h hreach henter

theorem Ok.wakeUp (h : w.Ok cfg) (hstep : w.step cfg .wakeUp = some w') :
    w'.Ok cfg ∧ Answer w w' := by
  simp only [step] at hstep
  split at hstep
  · cases hstep
    exact ⟨.of_going h.reachable h.closing trivial, .of_going trivial⟩
  · cases hstep

theorem Ok.pass (h : w.Ok cfg) {clock : ℚ} (hstep : w.step cfg (.pass clock) = some w') :
    w'.Ok cfg ∧ Answer w w' := by
  simp only [step] at hstep
  split at hstep
  · rename_i hle
    cases hstep
    refine ⟨⟨h.reachable, h.closing, h.waiting, fun hlate => ?_, h.raised⟩, .of_pc h.raised rfl⟩
    exact (h.late hlate).trans (sub_le_sub_right hle _)
  · cases hstep

/-- **The status** is the one step that can raise an error: behind a wait that was refused, once
the stop is over. -/
theorem Ok.status (h : w.Ok cfg) (hstep : w.step cfg .status = some w') :
    (Answer w w' ↔ InTime w .status) ∧ (InTime w .status → w'.Ok cfg) := by
  simp only [step] at hstep
  split at hstep
  · rename_i e hpc
    cases hstep
    -- a conflict is told by the state; a timeout looks at the clock again
    by_cases hcode : e.code = "conflict"
    · by_cases hstop : w.state = .stopping
      · have hexplain : w.explain e = .sleeping := by simp [explain, hcode, hstop]
        rw [hexplain]
        exact ⟨iff_of_true (.of_going trivial) fun _ _ _ _ => hstop,
          fun _ => .of_going h.reachable h.closing trivial⟩
      · -- the stop is over: an error, whatever the state is now
        have hraised : ∃ x, w.explain e = .raised x := by
          unfold explain
          rw [if_pos hcode, if_neg hstop]
          split
          · exact ⟨_, rfl⟩
          · exact ⟨_, rfl⟩
        obtain ⟨x, hx⟩ := hraised
        have hlate : ¬InTime w .status := fun hin => hstop (hin rfl e hpc hcode)
        exact ⟨iff_of_false (fun hanswer => hanswer.raised x hx) hlate,
          fun hin => absurd hin hlate⟩
    · have hexplain : w.explain e = .looping := by simp [explain, hcode]
      rw [hexplain]
      refine ⟨iff_of_true (.of_going trivial) ?_, fun _ => .of_going h.reachable h.closing trivial⟩
      intro _ e' hpc' hcode'
      cases hpc.symm.trans hpc'
      exact absurd hcode' hcode
  · rename_i hpc
    cases hstep
    refine ⟨iff_of_true (.of_returned rfl ⟨rfl, .inr (.inl (h.late hpc))⟩) ?_,
      fun _ => .of_returned h.reachable h.closing rfl⟩
    intro _ e' hpc' _
    cases hpc.symm.trans hpc'
  · cases hstep

/-- **One step** answers exactly if it is in time. -/
theorem Ok.step (h : w.Ok cfg) {ev : Event} (hcalm : Calm cfg w ev)
    (hstep : w.step cfg ev = some w') :
    (Answer w w' ↔ InTime w ev) ∧ (InTime w ev → w'.Ok cfg) := by
  have hother : ev ≠ .status → w'.Ok cfg ∧ Answer w w' →
      (Answer w w' ↔ InTime w ev) ∧ (InTime w ev → w'.Ok cfg) := fun hne hok =>
    ⟨iff_of_true hok.2 fun heq => absurd heq hne, fun _ => hok.1⟩
  cases ev with
  | pass clock => exact hother (by simp) (h.pass hstep)
  | daemon ev => exact hother (by simp) (h.daemon hcalm hstep)
  | request => exact hother (by simp) (h.request hstep)
  | poll => exact hother (by simp) (h.poll hstep)
  | send => exact hother (by simp) (h.send hstep)
  | status => exact h.status hstep
  | wakeUp => exact hother (by simp) (h.wakeUp hstep)

end World

/-- **A tool survives a restart** exactly if each status that it asks for because a wait was
refused comes while Android is still stopping. -/
theorem restart_survives {w w' : World} {es : List Event} (hinit : (waitBoot cfg).Init w)
    (hrun : (waitBoot cfg).run w es = some w') (hcalm : (waitBoot cfg).RunOk (Calm cfg) w es) :
    (waitBoot cfg).RunOk (Answers cfg) w es ↔ (waitBoot cfg).RunOk InTime w es := by
  obtain ⟨hreach, hclosing, hpc⟩ := hinit
  have hok : w.Ok cfg := by
    refine ⟨hreach, hclosing, fun c hc => ?_, fun hlate => ?_, fun e he => ?_⟩
    · cases hpc.symm.trans hc
    · cases hpc.symm.trans hlate
    · cases hpc.symm.trans he
  -- step by step the two conditions say the same as long as the tool is `Ok`
  have hboth : (waitBoot cfg).RunOk (fun w ev => Calm cfg w ev ∧ Answers cfg w ev) w es ↔
      (waitBoot cfg).RunOk (fun w ev => Calm cfg w ev ∧ InTime w ev) w es := by
    refine Machine.RunOk.iff_of_invariant (I := World.Ok cfg) ?_ ?_ hok hrun
    · rintro w ev w' h ⟨hcalm, hin⟩ hstep
      exact (h.step hcalm hstep).2 hin
    · intro w ev w' h hstep
      refine and_congr_right fun hcalm => Iff.trans ?_ (h.step hcalm hstep).1
      constructor
      · exact fun hanswers => hanswers w' hstep
      · intro hanswer w'' hstep''
        cases hstep.symm.trans hstep''
        exact hanswer
  rw [Machine.RunOk.and, Machine.RunOk.and] at hboth
  constructor
  · exact fun hanswers => (hboth.mp ⟨hcalm, hanswers⟩).2
  · exact fun hin => (hboth.mpr ⟨hcalm, hin⟩).2

instance (w : World) (ev : Event) : Decidable (InTime w ev) :=
  match hpc : w.pc with
  | .asking e => decidable_of_iff (ev = .status → e.code = "conflict" → w.state = .stopping)
      (by simp [InTime, hpc])
  | .called | .looping | .sending _ | .waiting _ | .sleeping | .late | .returned .. | .raised _ =>
    .isTrue (by simp [InTime, hpc])

/-- A restart of an Android that is starting. -/
def restartOf (sup : Sup) : World :=
  { sup, tool := .restart true, timeout := 300, clock := 0, started := 0, pc := .called }

theorem starting_reachable : ∃ s, Sup.fresh.step ⟨0, 180, 30⟩ (.call (.start false none)) = some s ∧
    (supervisor ⟨0, 180, 30⟩).Reachable s := by
  have hstep : (supervisor ⟨0, 180, 30⟩).step Sup.fresh (.call (.start false none)) =
      some (Sup.addCall (.start false none) (Sup.fresh.enter (.start false none))) := rfl
  exact ⟨_, hstep, .step (.init Sup.fresh_initial) hstep⟩

/-- The wait is refused, and the sleep behind it ends before the stop does. -/
theorem restart_survives_stopping : ∃ w w' : World,
    (waitBoot ⟨0, 180, 30⟩).run w [.request, .poll, .send, .status, .wakeUp] = some w' ∧
      (waitBoot ⟨0, 180, 30⟩).RunOk (Answers ⟨0, 180, 30⟩) w
        [.request, .poll, .send, .status, .wakeUp] := by
  obtain ⟨s, hs, hreach⟩ := starting_reachable
  cases hs
  obtain ⟨w', hrun⟩ := Option.isSome_iff_exists.mp (by decide +kernel :
    ((waitBoot ⟨0, 180, 30⟩).run (restartOf (Sup.addCall (.start false none)
      (Sup.fresh.enter (.start false none)))) [.request, .poll, .send, .status, .wakeUp]).isSome)
  refine ⟨_, w', hrun, (restart_survives ⟨hreach, rfl, rfl⟩ hrun ?_).mpr ?_⟩
  · decide +kernel
  · decide +kernel

/-- The stop is over, and the boot has begun, before the status is read; then Android runs. -/
def lostRun : List Event :=
  [.request, .poll, .send, .daemon (.loop (.unwound 0)), .daemon (.loop (.stop 0 .go)),
    .daemon (.resume 1), .status,
    .daemon (.loop (.boot 1 (.go { apiLevel := some 36, error := none }))),
    .daemon (.loop (.boot 1 .served)), .daemon (.loop (.boot 1 (.gpu "lavapipe" false))),
    .daemon (.loop (.boot 1 (.spawned true))), .daemon (.loop (.boot 1 .answered)),
    .daemon (.loop (.boot 1 .device)), .daemon (.loop (.boot 1 .completed)),
    .daemon (.loop (.boot 1 .command)), .daemon (.loop (.boot 1 .command)),
    .daemon (.loop (.boot 1 .command))]

/-- A restart that ends with a running Android, and an error of the tool. -/
theorem restart_lost : ∃ w w' : World, (waitBoot ⟨0, 180, 30⟩).Init w ∧
    (waitBoot ⟨0, 180, 30⟩).run w lostRun = some w' ∧
      (waitBoot ⟨0, 180, 30⟩).RunOk (Calm ⟨0, 180, 30⟩) w lostRun ∧ w'.state = .running ∧
      w'.pc = .raised (.refused (.conflict .stopping)) := by
  obtain ⟨s, hs, hreach⟩ := starting_reachable
  cases hs
  have hrun : ((waitBoot ⟨0, 180, 30⟩).run (restartOf (Sup.addCall (.start false none)
      (Sup.fresh.enter (.start false none)))) lostRun).map (fun w' => (w'.state, w'.pc)) =
      some (.running, .raised (.refused (.conflict .stopping))) := by decide +kernel
  obtain ⟨w', hrun, hend⟩ := Option.map_eq_some_iff.mp hrun
  obtain ⟨hstate, hpc⟩ := Prod.mk.inj hend
  exact ⟨_, w', ⟨hreach, rfl, rfl⟩, hrun, by decide +kernel, hstate, hpc⟩

end Mcp

end AndroidAppliance
