import AndroidAppliance.Supervisor.Launches
import AndroidAppliance.Supervisor.Ownership

/-!
# STOPPED

What STOPPED promises, in runs in which no step of a teardown raises and a SIGKILL ends the
process: nothing runs, the fields are `None`, and the next launch finds the AVD free. On the
way there `Emulator.stop` has sent every stage of the escalation to a process that is still
alive (`Devices.Sent`).

A teardown that raises breaks this: `_stop` logs the exception and sets STOPPED all the
same, beside a qemu that may be alive.
-/

namespace AndroidAppliance

namespace Supervisor

/-! ### The escalation -/

/-- What `Emulator.stop` has sent, at a wait, to a process that is still alive. -/
def TeardownPc.sent : TeardownPc → List Signal
  | .emuKill _ | .killWait _ => [.emuKill]
  | .termWait _ => [.emuKill, .sigterm]
  | .lastWait _ => [.emuKill, .sigterm, .sigkill]
  | .sync _ | .grpcClose | .xvncStop => []

namespace Devices

/-- A process that is alive at a wait in `Emulator.stop` was sent every stage up to there. -/
def Sent (d : Devices) : TeardownNext → Prop
  | .wait pc => ∀ e m, pc.stops = some e → d.emus[e]? = some m → m.returncode = none →
      pc.sent.Sublist m.signals
  | .done | .raised => True

variable {d : Devices} {e : Nat}

theorem sent_nil {pc : TeardownPc} (h : pc.sent = []) : d.Sent (.wait pc) := by
  intro e m _ _ _
  rw [h]
  exact List.nil_sublist _

/-- A stage is sent to a process that got the stages before. -/
theorem sent_signal {pc : TeardownPc} {s : Signal} (before : List Signal)
    (hstop : pc.stops = some e) (hsent : pc.sent = before ++ [s])
    (h : ∀ m, d.emus[e]? = some m → m.returncode = none → before.Sublist m.signals) :
    (d.signal e s).Sent (.wait pc) := by
  intro i m' hi hm' hcode
  cases hstop.symm.trans hi
  obtain ⟨m, hm, ⟨-, rfl⟩ | ⟨hne, -⟩⟩ := Table.cases_modify hm'
  · by_cases halive : m.alive = true
    · simp only [halive, if_true] at hcode ⊢
      rw [hsent]
      exact (h m hm hcode).append (List.Sublist.refl _)
    · simp only [halive, Bool.false_eq_true, if_false] at hcode
      rw [Emu.alive, hcode] at halive
      exact absurd rfl halive
  · exact absurd rfl hne

/-- A process that is gone needs no further stage. -/
theorem sent_dead {pc : TeardownPc} (hstop : pc.stops = some e) (h : d.alive e = false) :
    d.Sent (.wait pc) := by
  intro i m hi hm hcode
  cases hstop.symm.trans hi
  rw [alive_eq_true.mpr ⟨m, hm, hcode⟩] at h
  cases h

theorem sent_teardownLast (d : Devices) : d.teardownLast.1.Sent d.teardownLast.2 := by
  unfold teardownLast
  split <;> trivial

theorem sent_teardownXvnc (d : Devices) : d.teardownXvnc.1.Sent d.teardownXvnc.2 := by
  unfold teardownXvnc
  split
  · exact sent_nil rfl
  · exact sent_teardownLast d

theorem sent_teardownGrpc (d : Devices) : d.teardownGrpc.1.Sent d.teardownGrpc.2 := by
  obtain ⟨d', -, heq | ⟨-, heq⟩⟩ := d.teardownGrpc_cases
  · rw [heq]
    exact sent_nil rfl
  · rw [heq]
    exact sent_teardownXvnc d'

/-- SIGTERM follows `emu kill`. -/
theorem sent_stopTerm (h : ∀ m, d.emus[e]? = some m → m.returncode = none →
    [Signal.emuKill].Sublist m.signals) : (d.stopTerm e).1.Sent (d.stopTerm e).2 := by
  unfold stopTerm
  split
  · exact sent_signal [.emuKill] rfl rfl h
  · exact sent_dead rfl (by simpa using ‹¬ d.alive e = true›)

/-- `emu kill` is the first stage. -/
theorem sent_stopKill (d : Devices) (e : Nat) :
    (d.stopKill e).1.Sent (d.stopKill e).2 := by
  unfold stopKill
  split
  · exact sent_signal [] rfl rfl fun _ _ _ => List.nil_sublist _
  · rename_i hdead
    refine sent_stopTerm fun m hm hcode => absurd ?_ hdead
    exact alive_eq_true.mpr ⟨m, hm, hcode⟩

theorem sent_teardown (d : Devices) : d.teardown.1.Sent d.teardown.2 := by
  obtain ⟨-, heq⟩ | ⟨e, d', -, -, heq | heq⟩ := d.teardown_cases
  · rw [heq]
    exact sent_teardownGrpc d
  · rw [heq]
    exact sent_nil rfl
  · rw [heq]
    exact sent_stopKill d' e

theorem sent_teardownResume {pc : TeardownPc} {o : TeardownOutcome}
    {r : Devices × TeardownNext} (hr : d.teardownResume pc o = some r) (h : d.Sent (.wait pc)) :
    r.1.Sent r.2 := by
  cases resumes hr with
  | raise => trivial
  | synced => exact sent_stopKill d _
  | accepted => exact fun i m hi => h i m hi
  | refused | term => exact sent_stopTerm fun m => h _ m rfl
  | kill => exact sent_signal [.emuKill, .sigterm] rfl rfl fun m => h _ m rfl
  | gone | outlived => exact sent_teardownGrpc d
  | grpc | noGrpc => exact sent_teardownXvnc _
  | xvnc | noXvnc => exact sent_teardownLast _

end Devices

/-- The escalation of the stop task of the stage. -/
def SentOk (d : Devices) (st : Stage) : Prop :=
  ∀ t pc, st = .stopping t → t.pc = .teardown pc → d.Sent (.wait pc)

theorem StopTeardown.sent {c : Control} {d : Devices} {t : Stop} {w : StopWake}
    {r : Devices × TeardownNext} (h : StopTeardown c d t w r) (hd : SentOk d (.stopping t)) :
    r.1.Sent r.2 := by
  cases h with
  | first => exact Devices.sent_teardown d
  | resume hpc hr => exact Devices.sent_teardownResume hr (hd t _ rfl hpc)

/-- A step of an emulator's own tasks takes no signal back. -/
theorem EmuStep.sent {d : Devices} {e : Nat} {m m' : Emu} {ev : Event} {next : TeardownNext}
    (hs : EmuStep e m ev m') (hm : d.emus[e]? = some m) (h : d.Sent next) :
    ({ d with emus := d.emus.set e m' } : Devices).Sent next := by
  cases next with
  | done | raised => trivial
  | wait pc =>
    intro i u hi hu hcode
    rcases Table.cases_set hu with ⟨rfl, rfl⟩ | ⟨-, hu⟩
    · have hold : m.returncode = none → pc.sent.Sublist m.signals := h e m hi hm
      cases hs with
      | exit => cases hcode
      | hang => exact (hold hcode).trans (List.sublist_append_left ..)
      | seen | logEnded | logKept | logFailed => exact hold hcode
    · exact h i u hi hu hcode

theorem SentOk.mark {d : Devices} {st : Stage} (h : SentOk d st) (e : Nat) (w : Watch) :
    SentOk (d.updateEmu e ({ · with watch := w })) st := by
  intro t pc hst hpc i u hi hu hcode
  obtain ⟨m, hm, ⟨-, rfl⟩ | ⟨-, rfl⟩⟩ := Table.cases_modify hu
  · exact h t pc hst hpc i m hi hm hcode
  · exact h t pc hst hpc i u hi hm hcode

theorem Act.sentOk {cfg : Config} {l l' : Lifecycle} {ev : Event} (h : SentOk l.dev l.stage)
    (ha : Act cfg l ev l') : SentOk l'.dev l'.stage := by
  cases ha with
  | quiet hst hdev => rw [hst, hdev]; exact h
  | halts _ hst' hpc _ | bootFails _ _ _ hst' hpc =>
    rw [hst']
    rintro t pc ⟨⟩ hpc'
    rw [hpc] at hpc'
    cases hpc'
  | stopAwaits _ _ hst' _ =>
    rw [hst']
    rintro t pc ⟨⟩ ⟨⟩
  | stopWaits _ hst hs hst' =>
    rw [hst']
    rintro t pc ⟨⟩ ⟨⟩
    exact hs.sent (hst ▸ h)
  | emu hst hm hs hdev =>
    rw [hst, hdev]
    exact fun t pc ht hpc => hs.sent hm (h t pc ht hpc)
  | watchFailed hst _ _ _ hdev => rw [hst, hdev]; exact h.mark _ _
  | watchDropped hst _ _ _ hdev => rw [hst, hdev]; exact h.mark _ _
  | begin _ hst' _ | bootWaits _ _ _ hst' | bootDrops _ _ _ hst' _ | bootDone _ _ hst' _
  | stopDone _ _ _ _ hst' | retries _ _ _ _ hst' _ _ =>
    rw [hst']
    rintro t pc ⟨⟩

theorem sentOk {cfg : Config} {l : Lifecycle} (h : (lifecycle cfg).Reachable l) :
    SentOk l.dev l.stage :=
  Machine.ReachBy.invariant_of (I := fun l => SentOk l.dev l.stage)
    (fun _ hr => tasksOk hr) (by rintro _ ⟨_, _, _, _, _, rfl⟩ t pc ⟨⟩)
    (fun _ _ _ hJ hI _ hstep => ((step_move hstep).act hJ).sentOk hI) h

/-! ### Runs in which STOPPED keeps its promise -/

/-- Whether the event ends the wait after SIGKILL while the process is alive. -/
def Lifecycle.survives (l : Lifecycle) (ev : Event) : Bool :=
  match l.teardownPc ev, ev.teardownOutcome with
  | some (.lastWait e), some .waited => l.dev.alive e
  | _, _ => false

/-- No process survives the wait after SIGKILL. -/
def KillsOk (l : Lifecycle) (ev : Event) : Prop := l.survives ev = false

instance (l : Lifecycle) (ev : Event) : Decidable (KillsOk l ev) :=
  inferInstanceAs (Decidable (_ = _))

/-- The condition on a run: no step of a teardown raises, and SIGKILL ends a process. -/
def StopsOk (l : Lifecycle) (ev : Event) : Prop := TeardownsOk l ev ∧ KillsOk l ev

instance (l : Lifecycle) (ev : Event) : Decidable (StopsOk l ev) :=
  inferInstanceAs (Decidable (_ ∧ _))

/-- `Emulator.stop` stays inside, or raises, or the process was seen to exit, or the last
wait is over. -/
theorem Devices.teardownResume_left {d : Devices} {pc : TeardownPc} {o : TeardownOutcome}
    {r : Devices × TeardownNext} {e : Nat} (h : d.teardownResume pc o = some r)
    (he : pc.stops = some e) : r.2.stops = some e ∨ pc.raises o = true ∨ d.exited e = true ∨
      pc = .lastWait e ∧ o = .waited := by
  have hterm : ∀ e, (d.stopTerm e).2.stops = some e := by
    intro e
    unfold Devices.stopTerm
    split <;> rfl
  have hkill : ∀ e, (d.stopKill e).2.stops = some e := by
    intro e
    unfold Devices.stopKill
    split
    · rfl
    · exact hterm e
  cases Devices.resumes h with
  | raise hraise => exact .inr (.inl hraise)
  | synced =>
    cases he
    exact .inl (hkill _)
  | accepted | kill =>
    cases he
    exact .inl rfl
  | refused | term =>
    cases he
    exact .inl (hterm _)
  | gone hstop hexit =>
    cases hstop.symm.trans he
    exact .inr (.inr (.inl hexit))
  | outlived =>
    cases he
    exact .inr (.inr (.inr ⟨rfl, rfl⟩))
  | grpc | noGrpc | xvnc | noXvnc => cases he

/-- Under the condition every teardown ends the emulator it is given. -/
theorem StopsOk.ends {cfg : Config} {l : Lifecycle} {ev : Event}
    (h : (lifecycle cfg).Reachable l) (hok : StopsOk l ev) : TeardownsEnd l ev := by
  unfold TeardownsEnd Lifecycle.abandons
  split
  · rename_i pc o hpc ho
    split
    · rename_i e r he hr
      have hkept := Devices.teardownResume_kept hr
      rcases Devices.teardownResume_left hr he with hleft | hraise | hexit | ⟨rfl, rfl⟩
      · simp [hleft]
      · rw [hok.1.not_raises hpc ho] at hraise
        cases hraise
      · obtain ⟨m, hm, hexited⟩ := Devices.exited_eq_true.mp hexit
        have hcode := exited_fact.reachable h m (List.mem_of_getElem? hm) hexited
        have hdead : l.dev.alive e = false := by
          simp [Devices.alive, hm, Emu.alive, Option.isNone_eq_false_iff,
            Option.isSome_iff_ne_none, hcode]
        simp [hkept.alive, hdead]
      · have hdead : l.dev.alive e = false := by
          simpa [KillsOk, Lifecycle.survives, hpc, ho] using hok.2
        simp [hkept.alive, hdead]
    · rfl
  · rfl

/-- Nothing runs, and the fields are `None`. -/
structure Lifecycle.Closed (l : Lifecycle) : Prop where
  fields : l.dev.emu = none ∧ l.dev.grpc = none ∧ l.dev.xvnc = none
  dead : l.dev.Dead
  clients : true ∉ l.dev.clients
  xservers : true ∉ l.dev.xservers

theorem Lifecycle.closed {cfg : Config} {l : Lifecycle}
    (h : (lifecycle cfg).ReachBy StopsOk l) (hs : l.ctl.state = .stopped) : l.Closed := by
  have hdown := Lifecycle.down (h.mono fun _ _ hok => hok.1) hs
  have hheld := (resourcesOk (h.mono fun _ _ hok => hok.1)).held
  have hends := h.mono_of fun _ _ hr hok => StopsOk.ends hr.reachable hok
  have halive := (aliveOk hends).stage
  rw [Lifecycle.stage, Control.stage_stopped hs] at halive
  obtain ⟨-, hgrpc, hxvnc⟩ := hdown.closed
  refine ⟨hdown.closed, halive, fun hmem => ?_, fun hmem => ?_⟩
  · obtain ⟨g, hg⟩ := List.mem_iff_getElem?.mp hmem
    rw [hheld.clients g hg] at hgrpc
    cases hgrpc
  · obtain ⟨x, hx⟩ := List.mem_iff_getElem?.mp hmem
    rw [hheld.xservers x hx] at hxvnc
    cases hxvnc

theorem stopsOk_callSafe : CallSafe StopsOk := by
  rintro l ev hev
  cases ev <;> first | exact ⟨rfl, rfl⟩ | simp [Event.byCall] at hev

/-- **STOPPED means that nothing runs**, in a run in which no step of a teardown raises and
SIGKILL ends a process: STOPPED is left with everything closed; a process that is alive at
a wait of `Emulator.stop` was sent every stage up to there, and `Emulator.stop` is left only
when the process is gone; and a launch finds no emulator alive. -/
theorem stopped_closed {cfg : Config} {s : Sup}
    (h : (supervisor cfg).ReachBy (Sup.Ok StopsOk) s) :
    (s.core.ctl.state = .stopped → s.core.Closed) ∧
    SentOk s.core.dev s.core.stage ∧
    (∀ ev, StopsOk s.core ev → TeardownsEnd s.core ev) ∧
    ∀ ev s', s.step cfg ev = some s' → s'.core.dev.gens = s.core.dev.gens ∨ s.core.dev.Dead := by
  have hcore := reachBy_core stopsOk_callSafe h
  have hends := hcore.mono_of fun _ _ hr hok => StopsOk.ends hr.reachable hok
  refine ⟨Lifecycle.closed hcore, sentOk hcore.reachable,
    fun _ hok => StopsOk.ends hcore.reachable hok, fun ev s' hstep => ?_⟩
  rcases Sup.step_core hstep with ⟨e, -, -, he⟩ | ⟨-, hcall⟩
  · rcases (step_act hcore.reachable he).later.2 with ⟨b, t, _, -, hb, hst, hpc, -⟩ | hg
    · exact .inr (launch_of_spawning hends hb hst hpc).dead
    · exact .inl hg
  · exact .inl hcall.gens

/-- A stop while Android is running, through the whole escalation. -/
def stopRun : List SupEvent :=
  bootRun ++
    [.call (.stop true), .loop (.stop 0 .go), .loop (.stop 0 (.torn (.adb .timeout))),
      .loop (.stop 0 (.torn (.adb .timeout))), .loop (.stop 0 (.torn .waited)),
      .loop (.exit 0 (-9)), .loop (.stop 0 (.torn .waited)), .loop (.stop 0 (.torn .closed))]

theorem stopped_closed_killed : ∃ s : Sup,
    (supervisor ⟨0, 180, 30⟩).run Sup.fresh stopRun = some s ∧
      (s.core.dev.emus[0]?).map (·.signals) = some [.emuKill, .sigterm, .sigkill] ∧
      s.core.ctl.state = .stopped ∧ s.core.Closed := by
  have hok : (supervisor ⟨0, 180, 30⟩).RunOk (Sup.Ok StopsOk) Sup.fresh stopRun := by decide
  obtain ⟨s, hrun, hsig, hs⟩ : ∃ s : Sup,
      (supervisor ⟨0, 180, 30⟩).run Sup.fresh stopRun = some s ∧
        (s.core.dev.emus[0]?).map (·.signals) = some [.emuKill, .sigterm, .sigkill] ∧
        s.core.ctl.state = .stopped :=
    ⟨_, rfl, rfl, rfl⟩
  have hreach : (supervisor ⟨0, 180, 30⟩).ReachBy (Sup.Ok StopsOk) s :=
    Machine.ReachBy.of_run (.init Sup.fresh_initial) hok hrun
  exact ⟨s, hrun, hsig, hs, (stopped_closed hreach).1 hs⟩

/-- A stop while Android is running, on a host that can spawn no process: `adb shell sync`
raises `OSError` out of `Emulator.stop`. -/
def spawnlessRun : List SupEvent :=
  bootRun ++
    [.call (.stop true), .loop (.stop 0 .go), .loop (.stop 0 (.torn (.adb .spawnError)))]

/-- STOPPED beside a live qemu, to which nothing was sent and which SIGKILL would end. -/
theorem stopped_alive : ¬ ∀ (cfg : Config) (s : Sup),
    (supervisor cfg).ReachBy (Sup.Ok KillsOk) s → s.core.ctl.state = .stopped →
      s.core.dev.Dead := by
  intro hall
  have hok : (supervisor ⟨0, 180, 30⟩).RunOk (Sup.Ok KillsOk) Sup.fresh spawnlessRun := by
    decide
  obtain ⟨s, hrun, hs, halive⟩ : ∃ s : Sup,
      (supervisor ⟨0, 180, 30⟩).run Sup.fresh spawnlessRun = some s ∧
        s.core.ctl.state = .stopped ∧ s.core.dev.alive 0 = true :=
    ⟨_, rfl, rfl, rfl⟩
  have hdead := hall _ s (.of_run (.init Sup.fresh_initial) hok hrun) hs 0
  rw [halive] at hdead
  cases hdead

end Supervisor

end AndroidAppliance
