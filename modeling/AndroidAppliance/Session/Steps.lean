import AndroidAppliance.Session.Desk

/-!
# The steps of a session

Every step of a session is of one of three kinds (`Act`): it has no part in a lease, it is
the lease of a paste that begins, or it is about the lease that the session waits for. So
the Supervisor simulates a session with all its other callers (`desk_simulation`).
-/

namespace AndroidAppliance

namespace Session

open Supervisor

/-- Every step but those of the others is taken on behalf of the session. -/
def Event.bySession : Event → Bool
  | .others _ => false
  | _ => true

namespace Desk

/-! ### Kinds of steps -/

/-- A change of the session only, not of where its keys lane waits. -/
structure Sits (d d' : Desk) : Prop where
  sup : d'.sup = d.sup
  pc : d'.pc = d.pc
  sent : d'.sent = d.sent

/-- A step that is no part of a lease. -/
structure Keeps (d d' : Desk) : Prop where
  /-- Nothing of the Supervisor changes but the time of the last use. -/
  sup : d'.sup = d.sup ∨ d'.sup = d.touch.sup
  own : d'.own = d.own
  /-- A key event goes to an emulator that runs, or that ran when the session was closed. -/
  sent : d'.sent = d.sent ∨ d.runningGrpc = true ∨ ∃ rest, d.pc = .releasing rest

/-- The keys lane waits while a modifier lets go for a paste. -/
def lifts (d : Desk) : Bool :=
  match d.pc with
  | .lifting _ _ _ => true
  | .idle | .sending | .texting _ _ | .restoring _ | .releasing _ => false

/-- The three kinds of steps of a session. -/
inductive Act (cfg : Supervisor.Config) (d : Desk) (ev : Event) : Desk → Prop
  | keeps {d' : Desk} : d.Keeps d' → Act cfg d ev d'
  /-- A paste comes to its lease, right after its check or after the modifiers. -/
  | text {d₁ : Desk} (ups : List KeyEvent) : d₁.sup = d.sup → d₁.sent = d.sent →
      d.own = none → (d.runningGrpc = true ∨
        d.runningGrpc = false ∧ d.lifts = true ∧ ev = .sentKey true) →
      Act cfg d ev (d₁.text ups)
  | call {d₁ d' : Desk} {f : Nat → SupEvent} : d.Sits d₁ →
      (f = .resume ∨ (∃ ok, f = fun c => .leave c ok) ∨ f = .cancel) →
      d₁.callStep cfg f = some d' → Act cfg d ev d'

variable {d d' d₁ : Desk}

/-- The restored keys are all that follows a lease. -/
theorem restore_spec (ups : List KeyEvent) :
    (d.restore ups).sup = d.sup ∧ (d.restore ups).own = none ∧
      ((d.restore ups).sent = d.sent ∨ d.runningGrpc = true) := by
  induction ups with
  | nil => exact ⟨rfl, rfl, .inl rfl⟩
  | cons up rest ih =>
    unfold restore
    split
    · rename_i hrun
      exact ⟨rfl, rfl, .inr hrun⟩
    · exact ih

/-! ### Which kind a step is of -/

namespace Sits

theorem refl (d : Desk) : d.Sits d := ⟨rfl, rfl, rfl⟩

theorem trans {m : Desk} (h : d.Sits m) (h' : m.Sits d') : d.Sits d' :=
  ⟨h'.sup.trans h.sup, h'.pc.trans h.pc, h'.sent.trans h.sent⟩

/-- The call that the lane waits for is the same. -/
theorem own (h : d.Sits d₁) : d₁.own = d.own := by simp only [Desk.own, h.pc]

/-- Whether it lifts keys is, too. -/
theorem lifts (h : d.Sits d₁) : d₁.lifts = d.lifts := by simp only [Desk.lifts, h.pc]

/-- So is what `running_grpc` says. -/
theorem runningGrpc (h : d.Sits d₁) : d₁.runningGrpc = d.runningGrpc := by
  simp only [Desk.runningGrpc, h.sup]

/-- A step beside the supervisor. -/
theorem keeps (h : d.Sits d') : d.Keeps d' := ⟨.inl h.sup, h.own, .inl h.sent⟩

/-- The supervisor is touched. -/
theorem keeps_touch (h : d.touch.Sits d') : d.Keeps d' := ⟨.inr h.sup, h.own, .inl h.sent⟩

/-- A step in front of an act. -/
theorem andThen {cfg : Supervisor.Config} {ev : Event} {m : Desk} (h : d.Sits m)
    (ha : m.Act cfg ev d') : d.Act cfg ev d' := by
  cases ha with
  | keeps hk =>
    refine .keeps ⟨?_, ?_, ?_⟩
    · have htouch : m.touch.sup = d.touch.sup := by simp only [touch, h.sup]
      rw [← h.sup, ← htouch]
      exact hk.sup
    · rw [← h.own]; exact hk.own
    · rw [← h.sent, ← h.runningGrpc, ← h.pc]; exact hk.sent
  | text ups hsup hsent hown hgo =>
    refine .text ups (hsup.trans h.sup) (hsent.trans h.sent) (h.own ▸ hown) ?_
    rw [← h.runningGrpc, ← h.lifts]
    exact hgo
  | call hs hf hc => exact .call (h.trans hs) hf hc

/-- A job for the lane. -/
theorem putJob (j : Job) : d.Sits (d.putJob j) := by
  unfold Desk.putJob
  split <;> exact ⟨rfl, rfl, rfl⟩

/-- A job for the control lane. -/
theorem putControl (j : ControlJob) : d.Sits (d.putControl j) := by
  unfold Desk.putControl
  split <;> exact ⟨rfl, rfl, rfl⟩

/-- The press of BACK. -/
theorem pressBack (back : Bool) : d.Sits (d.pressBack back) := by
  unfold Desk.pressBack
  split
  · exact putJob _
  · exact refl d

/-- Touches are sent. -/
theorem sendInput (sends back : Bool) : d.Sits (d.sendInput sends back) := by
  unfold Desk.sendInput
  split
  · exact ⟨rfl, rfl, rfl⟩
  · exact pressBack back

/-- The next drag begins, or the wheel rests. -/
theorem scrollOn (drag : Bool) : d.Sits (d.scrollOn drag) := by
  unfold Desk.scrollOn
  repeat' split
  all_goals exact ⟨rfl, rfl, rfl⟩

/-- A change of the status. -/
theorem statusChanged : d.Sits d.statusChanged := by
  unfold Desk.statusChanged
  dsimp only
  repeat' split
  all_goals exact ⟨rfl, rfl, rfl⟩

end Sits

namespace Keeps

theorem refl (d : Desk) : d.Keeps d := ⟨.inl rfl, rfl, .inl rfl⟩

/-- A handler that rejects its message while Android does not run. -/
theorem ready {f : Desk → Desk} (h : ∀ d : Desk, d.Sits (f d)) : d.Keeps (d.ready f) := by
  unfold Desk.ready
  split
  · exact (h d.touch).keeps_touch
  · exact refl d

/-- A message of the client. -/
theorem dispatch (m : Message) : d.Keeps (d.dispatch m) := by
  cases m with
  | ping | refused => exact refl d
  | touch sends => exact ready (f := fun d => d.sendInput sends false) fun d => .sendInput ..
  | mouse right sends =>
    exact ready fun d => .trans (m := { d with right }) ⟨rfl, rfl, rfl⟩ (.sendInput ..)
  | wheel => exact ready (f := notch) fun d => ⟨rfl, rfl, rfl⟩
  | key key action => exact ready fun d => .putJob _
  | button b action => exact ready fun d => .putJob _
  | text text =>
    by_cases ht : text = ""
    · simp only [Desk.dispatch, ht, if_true]
      exact refl d
    · simp only [Desk.dispatch, ht, if_false]
      exact ready fun d => .putJob _
  | stream start => exact (Sits.putControl _).keeps
  | jsep => exact (Sits.putControl _).keeps

/-- A job of the control lane. -/
theorem runControl (created : Bool) (j : ControlJob) : d.Keeps (d.runControl created j) := by
  have hdrop : d.Sits d.dropStream := ⟨rfl, rfl, rfl⟩
  cases j with
  | start =>
    unfold Desk.runControl
    dsimp only
    split
    · exact Sits.keeps_touch ⟨rfl, rfl, rfl⟩
    · exact hdrop.keeps
  | relay => exact refl d
  | stop | androidStopped => exact hdrop.keeps

/-- The keys lane goes on to a wait that is no lease. -/
theorem waits (hown : d.own = none) (hown' : d'.own = none) (hsup : d'.sup = d.sup)
    (hsent : d'.sent = d.sent ∨ d.runningGrpc = true ∨ ∃ rest, d.pc = .releasing rest) :
    d.Keeps d' :=
  ⟨.inl hsup, hown'.trans hown.symm, hsent⟩

/-- Keys are pressed again. -/
theorem restore (hown : d.own = none) (ups : List KeyEvent) : d.Keeps (d.restore ups) := by
  obtain ⟨hsup, hnone, hsent⟩ := restore_spec (d := d) ups
  exact waits hown hnone hsup (hsent.imp_right .inl)

/-- A key is sent. -/
theorem send (hown : d.own = none) (e : KeyEvent) : d.Keeps (d.send e) := by
  unfold Desk.send
  split
  · rename_i hrun
    exact waits hown rfl rfl (.inr (.inl hrun))
  · exact waits hown rfl rfl (.inl rfl)

/-- `release`, which needs a running emulator or has begun. -/
theorem release (hown : d.own = none)
    (hgo : d.runningGrpc = true ∨ ∃ rest, d.pc = .releasing rest) (held : List KeyEvent) :
    d.Keeps (d.release held) := by
  cases held with
  | nil => exact waits hown rfl rfl (.inl rfl)
  | cons e rest => exact waits hown rfl rfl (.inr hgo)

end Keeps

namespace Act

variable {cfg : Supervisor.Config} {ev : Event}

/-- Keys are lifted for a paste. -/
theorem lift (hown : d.own = none)
    (hgo : d.runningGrpc = true ∨
      d.runningGrpc = false ∧ d.lifts = true ∧ ev = .sentKey true)
    (text : String) (ups rest : List KeyEvent) : d.Act cfg ev (d.lift text ups rest) := by
  induction rest with
  | nil => exact .text ups rfl rfl hown hgo
  | cons up rest ih =>
    unfold Desk.lift
    split
    · rename_i hrun
      exact .keeps (.waits hown rfl rfl (.inr (.inl hrun)))
    · exact ih

/-- A paste. -/
theorem paste (hown : d.own = none) (text : String) : d.Act cfg ev (d.paste text) := by
  unfold Desk.paste
  split
  · rename_i hrun
    exact lift hown (.inl hrun) ..
  · exact .keeps (.waits hown rfl rfl (.inl rfl))

/-- A key. -/
theorem press (hown : d.own = none) (printable : Char → Bool) (p : Pressed)
    (action : KeyAction) : d.Act cfg ev (d.press printable p action) := by
  have hpop : d.Sits (if action = .up then { d with held := d.held.pop p } else d) := by
    split
    · exact ⟨rfl, rfl, rfl⟩
    · exact .refl d
  unfold Desk.press
  dsimp only
  refine hpop.andThen ?_
  have hown' := hpop.own.trans hown
  generalize (if action = .up then { d with held := d.held.pop p } else d) = d₁ at hown' ⊢
  split
  · exact paste hown' _
  · exact .keeps (.waits hown' rfl rfl (.inl rfl))
  · split
    · split
      · exact .keeps (.waits hown' rfl rfl (.inl rfl))
      · rename_i e _ _ _
        have hput : d₁.Sits { d₁ with held := d₁.held.put p (e.withType .up) } := ⟨rfl, rfl, rfl⟩
        exact hput.andThen (.keeps (.send (hput.own.trans hown') e))
    · exact .keeps (.send hown' _)

/-- A job of the lane. -/
theorem runJob (hown : d.own = none) (printable : Char → Bool) (j : Job) :
    d.Act cfg ev (d.runJob printable j) := by
  cases j with
  | press p action => exact press hown ..
  | paste text => exact paste hown text
  | send e => exact .keeps (.send hown e)

/-- The send of the lane returns. -/
theorem sentKey {ok : Bool} (h : d.sentKey ok = some d') : d.Act cfg (.sentKey ok) d' := by
  cases hpc : d.pc with
  | idle | texting => simp [Desk.sentKey, hpc] at h
  | sending =>
    simp only [Desk.sentKey, hpc, Option.some.injEq] at h
    subst h
    exact .keeps (.waits (by simp [Desk.own, hpc]) rfl rfl (.inl rfl))
  | lifting text ups rest =>
    have hown : d.own = none := by simp [Desk.own, hpc]
    simp only [Desk.sentKey, hpc, Option.some.injEq] at h
    subst h
    cases ok with
    | false => exact .keeps (.restore hown ups)
    | true =>
      refine lift hown ?_ text ups rest
      cases hrun : d.runningGrpc with
      | true => exact .inl rfl
      | false => exact .inr ⟨rfl, by simp [lifts, hpc], rfl⟩
  | restoring rest =>
    have hown : d.own = none := by simp [Desk.own, hpc]
    simp only [Desk.sentKey, hpc, Option.some.injEq] at h
    subst h
    cases ok with
    | false => exact .keeps (.waits hown rfl rfl (.inl rfl))
    | true => exact .keeps (.restore hown rest)
  | releasing rest =>
    have hown : d.own = none := by simp [Desk.own, hpc]
    simp only [Desk.sentKey, hpc, Option.some.injEq] at h
    subst h
    cases ok with
    | false => exact .keeps (.waits hown rfl rfl (.inl rfl))
    | true => exact .keeps (.release hown (.inr ⟨rest, hpc⟩) rest)

/-- The lane is cancelled. -/
theorem cancelLane : d.Act cfg ev (d.cancelLane cfg) := by
  cases hpc : d.pc with
  | idle | sending | restoring =>
    simp only [Desk.cancelLane, hpc]
    exact .keeps (.waits (by simp [Desk.own, hpc]) rfl rfl (.inl rfl))
  | releasing =>
    simp only [Desk.cancelLane, hpc]
    exact .keeps (.refl d)
  | lifting text ups rest =>
    simp only [Desk.cancelLane, hpc]
    exact .keeps (.restore (by simp [Desk.own, hpc]) ups)
  | texting c ups =>
    simp only [Desk.cancelLane, hpc]
    split
    · exact .keeps (.refl d)
    · cases hcall : d.callStep cfg .cancel with
      | none => exact .keeps (.refl d)
      | some d' => exact .call (.refl d) (.inr (.inr rfl)) hcall

/-- Every step of a session is of one of the three kinds. -/
theorem of_step {printable : Char → Bool} (hses : ev.bySession = true)
    (h : d.step cfg printable ev = some d') : d.Act cfg ev d' := by
  cases ev with
  | others ev => cases hses
  | message m =>
    simp only [Desk.step] at h
    split at h
    · cases h
      exact .keeps (.dispatch m)
    · cases h
  | sentInput ok =>
    obtain ⟨back, -, rfl⟩ := Option.map_eq_some_iff.mp h
    have hback : d.Sits ({ d with input := none }.pressBack (ok && back)) :=
      .trans (m := { d with input := none }) ⟨rfl, rfl, rfl⟩ (.pressBack _)
    exact .keeps hback.keeps
  | «end» =>
    cases h
    exact .keeps (Sits.keeps ⟨rfl, rfl, rfl⟩)
  | scroll ok drag =>
    simp only [Desk.step] at h
    split at h
    · cases h
    · cases h
      exact .keeps (Sits.scrollOn drag).keeps
    · cases h
      split
      · exact .keeps (Sits.scrollOn drag).keeps
      · exact .keeps (Sits.keeps ⟨rfl, rfl, rfl⟩)
  | job =>
    simp only [Desk.step] at h
    split at h
    · rename_i j jobs hpc hjobs
      cases h
      refine Sits.andThen (m := { d with jobs }) ⟨rfl, rfl, rfl⟩ (runJob ?_ printable j)
      simp [Desk.own, hpc]
    · cases h
  | sentKey ok => exact sentKey h
  | leased => exact .call (.refl d) (.inl rfl) h
  | pasted ok =>
    simp only [Desk.step] at h
    split at h
    · cases h
    · exact .call (.refl d) (.inr (.inl ⟨ok, rfl⟩)) h
  | control created =>
    simp only [Desk.step] at h
    split at h
    · rename_i j control _ _
      cases h
      exact Sits.andThen (m := { d with control }) ⟨rfl, rfl, rfl⟩ (.keeps (.runControl created j))
    · cases h
  | opened ok =>
    simp only [Desk.step] at h
    split at h
    · cases h
      exact .keeps (Sits.keeps ⟨rfl, rfl, rfl⟩)
    · cases h
  | statusChanged =>
    simp only [Desk.step] at h
    split at h
    · cases h
    · cases h
      exact .keeps Sits.statusChanged.keeps
  | close =>
    simp only [Desk.step] at h
    split at h
    · cases h
    · cases h
      exact Sits.andThen (m := d.shut) ⟨rfl, rfl, rfl⟩ cancelLane
  | letGo =>
    simp only [Desk.step] at h
    split at h
    · rename_i hidle
      cases h
      have hown : ({ d with held := [] } : Desk).own = none := by simp [Desk.own, hidle.2]
      unfold Desk.letGo
      dsimp only
      refine Sits.andThen (m := { d with held := [] }) ⟨rfl, rfl, rfl⟩ (.keeps ?_)
      split
      · rename_i hrun
        exact .release hown (.inl hrun) _
      · exact .refl _
    · cases h

end Act

/-! ### The Supervisor beside a session -/

/-- Pressing keys again does not touch the supervisor. -/
theorem restore_sup (ups : List KeyEvent) : (d.restore ups).sup = d.sup := (restore_spec ups).1

/-- Nor does what follows a call. -/
theorem afterCall_sup (c : Nat) (ups : List KeyEvent) : (d.afterCall c ups).sup = d.sup := by
  unfold afterCall
  split
  · exact restore_sup ups
  · rfl

/-- A step for the lease of the session is a step of the Supervisor. -/
theorem callStep_step {cfg : Supervisor.Config} {f : Nat → SupEvent}
    (h : d.callStep cfg f = some d') :
    ∃ c ups sup, d.pc = .texting c ups ∧ d.sup.step cfg (f c) = some sup ∧
      d' = { d with sup }.afterCall c ups := by
  cases hpc : d.pc with
  | idle | sending | lifting | restoring | releasing => simp [callStep, hpc] at h
  | texting c ups =>
    simp only [callStep, hpc] at h
    obtain ⟨sup, hstep, rfl⟩ := Option.map_eq_some_iff.mp h
    exact ⟨c, ups, sup, rfl, hstep, rfl⟩

/-- What a session does is a path of the Supervisor. -/
theorem Act.path {cfg : Supervisor.Config} {ev : Event} (ha : d.Act cfg ev d') :
    (supervisor cfg).PathBy (fun _ _ => True) d.sup d'.sup := by
  cases ha with
  | keeps hk =>
    rcases hk.sup with h | h <;> rw [h]
    · exact .refl ..
    · exact .single (e := .loop .touch) trivial rfl
  | text ups hsup =>
    refine .single (e := .call (.lease true)) trivial ?_
    simp only [Desk.text, afterCall_sup, hsup]
    rfl
  | call hs _ hcall =>
    obtain ⟨c, ups, sup, -, hstep, rfl⟩ := callStep_step hcall
    rw [hs.sup] at hstep
    rw [afterCall_sup]
    exact .single trivial hstep

end Desk

/-- **The Supervisor simulates a session with all its other callers.** -/
theorem desk_simulation (cfg : Supervisor.Config) (printable : Char → Bool) :
    Machine.Simulation (desk cfg printable) (supervisor cfg) (fun _ _ => True)
      (fun _ _ => True) Desk.sup where
  init _ h := h.1
  step d ev d' _ h := by
    cases hses : ev.bySession with
    | true => exact (Desk.Act.of_step hses h).path
    | false =>
      cases ev with
      | others ev =>
        have hstep : d.step cfg printable (.others ev) = some d' := h
        simp only [Desk.step] at hstep
        split at hstep
        · cases hstep
        · obtain ⟨sup, hsup, rfl⟩ := Option.map_eq_some_iff.mp hstep
          exact .single trivial hsup
      | message | sentInput | «end» | scroll | job | sentKey | leased | pasted | control
      | opened | statusChanged | close | letGo => cases hses

end Session

end AndroidAppliance
