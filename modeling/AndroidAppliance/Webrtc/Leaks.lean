import AndroidAppliance.Webrtc.Limits

/-!
# Streams that nobody forgets

A stream whose viewer left stays in the `Bridge` until one of its tasks forgets it: the `open`
that hands it to a release, the release, or an `aclose`. `Stream.Kept` says that one of them is
left, and `Stream.Lets` names the two steps at which the last of them ends without that: the
`open` of a stream that was closed meanwhile fails, and a late release finds its request
cancelled. In every run without these two steps no stream is leaked (`none_leaked`).
-/

namespace AndroidAppliance

open Webrtc

namespace Stream

/-- An `aclose` is not over yet. -/
def closing (s : Stream) : Bool := s.acloses.any (!·.finished)

/-- A task of the stream is not over yet. -/
def unfinished (s : Stream) : Bool :=
  decide (s.opening = .waiting) || s.pump.unfinished || s.release.unfinished || s.closing

/-- Nobody has to forget the stream any more. -/
def settled (s : Stream) : Bool := !s.counted || s.closing

/-- The steps at which the last task of a stream forgets it, where it has to. -/
def Lets (s : Stream) : Event → Prop
  | .opened => s.request = .failed → s.live = true ∨ s.settled = true
  | .release _ =>
    s.release = .request → s.releaseCancelled = false → s.request = .cancelled →
      s.settled = true
  | .beginOpen | .request _ | .cancelOpen | .close | .aclose | .aclosed _ | .pump _ | .sent _ =>
    True

instance (s : Stream) : ∀ e, Decidable (s.Lets e)
  | .opened => inferInstanceAs (Decidable (_ → _))
  | .release _ => inferInstanceAs (Decidable (_ → _ → _ → _))
  | .beginOpen | .request _ | .cancelOpen | .close | .aclose | .aclosed _ | .pump _ | .sent _ =>
    .isTrue trivial

/-- Whoever has to forget a stream is still there. -/
structure Kept (s : Stream) : Prop where
  /-- A stream whose viewer left has an `aclose`, a release, or its `open`. -/
  left : s.counted = true → s.live = false → s.closing = true ∨
    s.release.unfinished = true ∧ s.releaseCancelled = false ∨ s.opening = .waiting
  /-- The request of a viewer that stays is awaited by `open`. -/
  asked : s.live = true → s.request = .pending → s.opening = .waiting
  /-- Only an `aclose` cancels a release. -/
  cancelled : s.releaseCancelled = true → s.settled = true

variable {s s' : Stream}

theorem Kept.new : Stream.new.Kept :=
  ⟨fun _ h => (nomatch h), fun _ h => (nomatch h), fun h => (nomatch h)⟩

theorem settled_of_forgotten (h : s.counted = false) : s.settled = true := by
  unfold settled
  rw [h]
  rfl

theorem settled_of_closing (h : s.closing = true) : s.settled = true := by
  unfold settled
  rw [h, Bool.or_true]

/-- The stream was forgotten, and nobody waits for a new request. -/
theorem Kept.of_forgotten (h : s.Kept) (hcounted : s'.counted = false)
    (hlive : s'.live = true → s.live = true) (hrequest : s'.request = s.request)
    (hopening : s'.opening = s.opening) : s'.Kept := by
  refine ⟨fun hc => ?_, fun hl hr => ?_, fun _ => settled_of_forgotten hcounted⟩
  · rw [hcounted] at hc
    cases hc
  · rw [hopening]
    exact h.asked (hlive hl) (hrequest ▸ hr)

/-- The viewer left, and somebody takes over. -/
theorem Kept.of_taken (hlive : s'.live = false) (h : s'.counted = true → s'.closing = true ∨
    s'.release.unfinished = true ∧ s'.releaseCancelled = false ∨ s'.opening = .waiting)
    (hcancelled : s'.releaseCancelled = true → s'.settled = true) : s'.Kept := by
  refine ⟨fun hc _ => h hc, fun hl => ?_, hcancelled⟩
  rw [hlive] at hl
  cases hl

/-- Nothing that matters here has changed. -/
theorem Kept.congr (h : s.Kept) (hcounted : s'.counted = s.counted) (hlive : s'.live = s.live)
    (hclosing : s'.acloses = s.acloses) (hrelease : s'.release = s.release)
    (hcancelled : s'.releaseCancelled = s.releaseCancelled)
    (hrequest : s'.request = .pending → s.request = .pending)
    (hopening : s'.opening = s.opening) : s'.Kept := by
  refine ⟨fun hc hl => ?_, fun hl hr => ?_, fun hrel => ?_⟩
  · have hold := h.left (hcounted ▸ hc) (hlive ▸ hl)
    unfold closing at hold ⊢
    rw [hclosing, hrelease, hcancelled, hopening]
    exact hold
  · rw [hopening]
    exact h.asked (hlive ▸ hl) (hrequest hr)
  · have hold := h.cancelled (hcancelled ▸ hrel)
    unfold settled closing at hold ⊢
    rw [hcounted, hclosing]
    exact hold

/-! ### Each step -/

theorem Kept.leave (s : Stream) : s.leave.Kept :=
  .of_taken rfl (fun _ => .inr (.inl ⟨rfl, rfl⟩)) nofun

theorem Kept.opened (h : s.Kept) (hok : s.Lets .opened) (hs : s.opened = some s') :
    s'.Kept := by
  unfold Stream.opened at hs
  split at hs
  · cases hs
  · split at hs
    · cases hs
      split
      · rename_i hrequest hlive
        refine ⟨fun _ hl => ?_, fun _ hr => ?_, h.cancelled⟩
        · have hdead : s.live = false := hl
          have halive : s.live = true := hlive
          rw [hdead] at halive
          cases halive
        · cases hrequest.symm.trans hr
      · rename_i hlive
        exact .of_taken (Bool.not_eq_true _ |>.mp hlive) (fun _ => .inr (.inl ⟨rfl, rfl⟩)) nofun
    · rename_i hfailed
      cases hs
      refine ⟨fun hc hl => ?_, fun _ hr => ?_, h.cancelled⟩
      · have hcounted : s.counted = true := hc
        have hdead : s.live = false := hl
        rcases hok hfailed with hlive | hsettled
        · rw [hdead] at hlive
          cases hlive
        · unfold settled at hsettled
          rw [hcounted, Bool.not_true, Bool.false_or] at hsettled
          exact .inl hsettled
      · cases hfailed.symm.trans hr
    · cases hs
      exact .leave s
    · cases hs
    · cases hs

theorem Kept.shut (h : s.Kept) (hlive : s.live = true) : s.shut.Kept := by
  have hdead := s.shut_live
  unfold Stream.shut at hdead ⊢
  dsimp only at hdead ⊢
  split
  · exact .of_taken rfl (fun _ => .inr (.inl ⟨rfl, rfl⟩)) nofun
  · split
    · rename_i hrequest
      exact .of_taken rfl (fun _ => .inr (.inr (h.asked hlive hrequest))) h.cancelled
    · exact .of_taken rfl nofun fun _ => rfl

theorem Kept.close (h : s.Kept) : s.close.Kept := by
  have htell : (s.tell .closed).Kept := h.congr rfl rfl rfl rfl rfl id rfl
  unfold Stream.close
  dsimp only
  split
  · rename_i hlive
    exact htell.shut hlive
  · exact htell

theorem Kept.aclose (s : Stream) : s.aclose.Kept := by
  have hlive : s.aclose.live = false := s.close_live
  have hclosing : s.aclose.closing = true := by
    unfold Stream.aclose closing
    simp
  exact .of_taken hlive (fun _ => .inl hclosing) fun _ => settled_of_closing hclosing

theorem Kept.aclosed (h : s.Kept) {j : Nat} (hs : s.aclosed j = some s') : s'.Kept := by
  obtain ⟨a, -, hs⟩ := Option.bind_eq_some_iff.mp hs
  split at hs
  · cases hs
  · cases hs
    exact h.of_forgotten rfl id rfl rfl

theorem Kept.endPump (h : s.Kept) (reason : String) : (s.endPump reason).Kept := by
  unfold Stream.endPump
  dsimp only
  split
  · exact h.of_forgotten rfl nofun rfl rfl
  · exact h.of_forgotten rfl id rfl rfl

theorem Kept.forward (h : s.Kept) (data : Jsep) : (s.forward data).Kept := by
  unfold Stream.forward
  split
  · exact h.congr rfl rfl rfl rfl rfl id rfl
  · exact h

theorem Kept.handle (h : s.Kept) (m : Message) : (s.handle m).Kept := by
  cases m with
  | unreadable => exact h
  | other => exact h
  | bye text => exact h.endPump _
  | offer sdp =>
    have hoffered : ({ s with offered := true } : Stream).Kept :=
      h.congr rfl rfl rfl rfl rfl id rfl
    exact hoffered.forward _
  | candidate candidate mid index =>
    unfold Stream.handle
    dsimp only
    split
    · exact h
    · exact h.forward _

theorem Kept.pumpStep (h : s.Kept) {w : PumpWake} (hs : s.pumpStep w = some s') : s'.Kept := by
  have hmove : ∀ pc : PumpPc, ({ s with pump := pc } : Stream).Kept := fun pc =>
    h.congr rfl rfl rfl rfl rfl id rfl
  unfold Stream.pumpStep at hs
  split at hs
  · split at hs
    · cases hs
      exact hmove _
    · split at hs
      · cases hs
        exact hmove _
      · cases hs
        exact hmove _
      · cases hs
      · cases hs
  · split at hs
    · cases hs
      exact h.of_forgotten rfl id rfl rfl
    · split at hs
      · cases hs
        exact h.handle _
      · cases hs
        exact h.endPump _
      · cases hs
      · cases hs
  · cases hs
  · cases hs

theorem Kept.letWent (h : s.Kept) : s.letWent.Kept :=
  h.of_forgotten rfl id rfl rfl

/-- The release goes on. -/
theorem Kept.release (h : s.Kept) (hcancelled : s.releaseCancelled = false) {pc : ReleasePc}
    (hpc : pc.unfinished = true) : ({ s with release := pc } : Stream).Kept :=
  ⟨fun _ _ => .inr (.inl ⟨hpc, hcancelled⟩), h.asked, h.cancelled⟩

theorem Kept.letGo (h : s.Kept) (hcancelled : s.releaseCancelled = false) : s.letGo.Kept := by
  refine h.release hcancelled ?_
  split <;> rfl

/-- A release that was cancelled ends; an `aclose` did that, or the stream is forgotten. -/
theorem Kept.endRelease (h : s.Kept) (hsettled : s.settled = true) :
    ({ s with release := .ended } : Stream).Kept := by
  refine ⟨fun hc _ => .inl ?_, h.asked, fun _ => hsettled⟩
  unfold settled at hsettled
  have hcounted : s.counted = true := hc
  rw [hcounted, Bool.not_true, Bool.false_or] at hsettled
  exact hsettled

theorem Kept.releaseStep (h : s.Kept) {w : ReleaseWake} (hok : s.Lets (.release w))
    (hs : s.releaseStep w = some s') : s'.Kept := by
  unfold Stream.releaseStep at hs
  split at hs
  · rename_i hcancelled
    split at hs
    · cases hs
      exact h.letWent
    · split at hs
      · cases hs
        exact h.endRelease (h.cancelled hcancelled)
      · cases hs
  · rename_i hcancelled
    rw [Bool.not_eq_true] at hcancelled
    split at hs
    · cases hs
      exact h.letGo hcancelled
    · cases hs
      exact h.release hcancelled rfl
    · rename_i hpc
      split at hs
      · cases hs
        have hpump : ({ s with pump := .created, pumpCancelled := false } : Stream).Kept :=
          h.congr rfl rfl rfl rfl rfl id rfl
        exact hpump.letGo hcancelled
      · cases hs
        exact h.of_forgotten rfl id rfl rfl
      · rename_i hrequest
        cases hs
        exact h.endRelease (hok hpc hcancelled hrequest)
      · cases hs
      · cases hs
    · split at hs
      · cases hs
        exact h.release hcancelled rfl
      · cases hs
    all_goals first
      | cases hs; exact h.letWent
      | cases hs; exact h.release hcancelled rfl
      | skip
    · split at hs
      · cases hs
      · cases hs
        exact h.letWent
    · split at hs
      · cases hs
      · cases hs
        exact h.letWent
    · cases hs

/-- **A step that lets the last task forget its stream keeps one of them.** -/
theorem Kept.step (h : s.Kept) {e : Stream.Event} (hok : s.Lets e) (hs : s.step e = some s') :
    s'.Kept := by
  cases e with
  | beginOpen =>
    simp only [Stream.step] at hs
    split at hs
    · cases hs
      exact ⟨fun _ _ => .inr (.inr rfl), fun _ _ => rfl, h.cancelled⟩
    · cases hs
  | request r =>
    simp only [Stream.step] at hs
    split at hs
    · rename_i hgo
      cases hs
      exact h.congr rfl rfl rfl rfl rfl (fun hr => absurd hr hgo.2.2.1) rfl
    · cases hs
  | opened => exact h.opened hok hs
  | cancelOpen =>
    simp only [Stream.step] at hs
    split at hs
    · cases hs
      exact .leave s
    · cases hs
  | close =>
    cases hs
    exact h.close
  | aclose =>
    cases hs
    exact .aclose s
  | aclosed j => exact h.aclosed hs
  | pump w => exact h.pumpStep hs
  | release w => exact h.releaseStep hok hs
  | sent sdp =>
    cases hs
    exact h.congr rfl rfl rfl rfl rfl id rfl

/-- Whoever has to forget the stream is a task that is not over. -/
theorem Kept.unfinished (h : s.Kept) (hcounted : s.counted = true) (hlive : s.live = false) :
    s.unfinished = true := by
  unfold Stream.unfinished
  rcases h.left hcounted hlive with hclosing | ⟨hrelease, -⟩ | hopening
  · rw [hclosing, Bool.or_true]
  · rw [hrelease, Bool.or_true, Bool.true_or]
  · rw [hopening]
    rfl

end Stream

/-! ### Every run -/

namespace Bridge

/-- `Stream.Lets`, of the stream in question. -/
def Lets (b : Bridge) : Event → Prop
  | .create => True
  | .stream i e => ∀ s ∈ b.streams[i]?, s.Lets e

instance (b : Bridge) : ∀ e, Decidable (b.Lets e)
  | .create => .isTrue trivial
  | .stream i _ => inferInstanceAs (Decidable (∀ s ∈ b.streams[i]?, _))

/-- **No stream is leaked**, in one state. -/
structure NoneLeaked (b : Bridge) : Prop where
  /-- A stream that is counted without being live has a task that is not over. -/
  held : ∀ s ∈ b.streams, s.counted = true → s.live = false → s.unfinished = true
  /-- The last of these tasks removes it. -/
  freed : ∀ s ∈ b.streams, ∀ (e : Stream.Event) (s' : Stream), s.Lets e → s.step e = some s' →
    s'.live = false → s'.unfinished = false → s'.counted = false
  /-- When every task is over, the Bridge holds only live streams. -/
  idle : (∀ s ∈ b.streams, s.unfinished = false) →
    ∀ s ∈ b.streams, s.counted = true → s.live = true

/-- Every stream is kept. -/
def Kept (b : Bridge) : Prop := ∀ s ∈ b.streams, s.Kept

variable {b b' : Bridge}

theorem Kept.step (h : b.Kept) {e : Bridge.Event} (hok : b.Lets e) (hstep : b.step e = some b') :
    b'.Kept := by
  cases e with
  | create =>
    simp only [Bridge.step, Bridge.create] at hstep
    split at hstep
    · cases hstep
    · split at hstep
      · cases hstep
      · cases hstep
        intro s hs
        rcases List.mem_append.mp hs with hs | hs
        · exact h s hs
        · rw [List.mem_singleton.mp hs]
          exact Stream.Kept.new
  | stream i e =>
    obtain ⟨s, hi, hstep⟩ := Option.bind_eq_some_iff.mp hstep
    obtain ⟨s', hs, rfl⟩ := Option.map_eq_some_iff.mp hstep
    intro u hu
    obtain ⟨j, hj⟩ := List.mem_iff_getElem?.mp hu
    rcases Table.cases_set hj with ⟨-, rfl⟩ | ⟨-, hold⟩
    · exact (h s (List.mem_of_getElem? hi)).step (hok s hi) hs
    · exact h u (List.mem_of_getElem? hold)

theorem Kept.noneLeaked (h : b.Kept) : b.NoneLeaked := by
  refine ⟨fun s hs => (h s hs).unfinished, fun s hs e s' hok hstep hlive hover => ?_,
    fun hover s hs hcounted => ?_⟩
  · by_contra hcounted
    have hunfinished := ((h s hs).step hok hstep).unfinished
      (Bool.not_eq_false _ |>.mp hcounted) hlive
    rw [hover] at hunfinished
    cases hunfinished
  · by_contra hlive
    have hunfinished := (h s hs).unfinished hcounted (Bool.not_eq_true _ |>.mp hlive)
    rw [hover s hs] at hunfinished
    cases hunfinished

end Bridge

/-- **No stream is leaked in the Bridge**, in every run in which the last task of a stream
forgets it. -/
theorem Webrtc.none_leaked {b : Bridge} (h : bridgeMachine.ReachBy Bridge.Lets b) :
    b.NoneLeaked := by
  have hb : b.Kept := by
    refine h.invariant (fun b hb s hs => ?_) fun _ _ _ hb hok hstep => hb.step hok hstep
    have hnone : b.streams = [] := hb
    rw [hnone] at hs
    cases hs
  exact hb.noneLeaked

/-- A stream that is closed during its request, which the emulator answers. -/
def Webrtc.releasedRun : List Bridge.Event :=
  [.create, .stream 0 .beginOpen, .stream 0 .close, .stream 0 (.request .answered),
    .stream 0 .opened, .stream 0 (.pump .start), .stream 0 (.release .go),
    .stream 0 (.pump (.message (.offer "v=0"))), .stream 0 (.release .go),
    .stream 0 (.release .go), .stream 0 (.release .go), .stream 0 (.release .go),
    .stream 0 (.pump (.message (.bye "disconnected"))), .stream 0 (.release .go)]

theorem Webrtc.none_leaked_released : ∃ b : Bridge,
    bridgeMachine.run { streams := [] } releasedRun = some b ∧ b.total = 0 ∧ b.NoneLeaked := by
  have hinit : bridgeMachine.Init { streams := [] } := rfl
  have hok : bridgeMachine.RunOk Bridge.Lets { streams := [] } releasedRun := by decide
  obtain ⟨b, hrun, htotal⟩ : ∃ b : Bridge,
      bridgeMachine.run { streams := [] } releasedRun = some b ∧ b.total = 0 :=
    ⟨_, rfl, rfl⟩
  exact ⟨b, hrun, htotal, none_leaked (.of_run (.init hinit) hok hrun)⟩

/-- A stream that is closed during its request, which then fails. -/
def Webrtc.leakedRun : List Bridge.Event :=
  [.create, .stream 0 .beginOpen, .stream 0 .close, .stream 0 (.request .failed),
    .stream 0 .opened]

/-- Every task is over, and the Bridge holds a stream that is not live. -/
theorem Webrtc.leaked : ¬ ∀ b : Bridge, bridgeMachine.Reachable b → b.NoneLeaked := by
  intro hall
  have hinit : bridgeMachine.Init { streams := [] } := rfl
  obtain ⟨b, s, hrun, hs, hcounted, hlive, hover⟩ : ∃ (b : Bridge) (s : Stream),
      bridgeMachine.run { streams := [] } leakedRun = some b ∧ b.streams = [s] ∧
        s.counted = true ∧ s.live = false ∧ s.unfinished = false :=
    ⟨_, _, rfl, rfl, rfl, rfl, rfl⟩
  have hheld := (hall b (Machine.Reachable.of_run (.init hinit) hrun)).held s
    (hs ▸ List.mem_singleton_self s) hcounted hlive
  rw [hover] at hheld
  cases hheld

end AndroidAppliance
