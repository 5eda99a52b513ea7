import AndroidAppliance.Webrtc.Basic
import AndroidAppliance.Transition.Table

/-!
# The limits of the bridge

A step of a stream never makes it live or counted again, and it tells the viewer something
only while the stream is live (`Stream.step_follows`). So both counts grow only when a
stream is created, where `create` looks at them, and a viewer hears nothing after the end
(`bridge_limits`).
-/

namespace AndroidAppliance

open Webrtc

/-- `on_end`. -/
def Webrtc.Told.isEnd : Told → Bool
  | .ended _ => true
  | .message _ | .closed => false

/-- `on_end`, `close` or `aclose`. -/
def Webrtc.Told.final : Told → Bool
  | .ended _ | .closed => true
  | .message _ => false

namespace Stream

/-- What the viewer of a stream may hear: one end at most, and nothing after the end or after
it has left. -/
structure Orderly (s : Stream) : Prop where
  once : s.told.countP Told.isEnd ≤ 1
  last : s.told.Pairwise fun x y => x.final = true → y = .closed

variable {s s' : Stream}

/-! ### What one step does -/

/-- What a step tells the viewer. -/
inductive Tells (s s' : Stream) : Prop
  | nothing : s'.told = s.told → Tells s s'
  | message (data : Jsep) : s.live = true → s'.told = s.told ++ [.message data] → Tells s s'
  | ended (reason : String) : s.live = true → s'.live = false →
      s'.told = s.told ++ [.ended reason] → Tells s s'
  | closed : s'.live = false → s'.told = s.told ++ [.closed] → Tells s s'

/-- A step counts nothing again, makes nothing live again, and tells the viewer little. -/
structure Follows (s s' : Stream) : Prop where
  counted : s'.counted = true → s.counted = true
  live : s'.live = true → s.live = true
  told : s.Tells s'

/-- A step that tells the viewer nothing. -/
theorem Follows.quiet (hcounted : s'.counted = true → s.counted = true)
    (hlive : s'.live = true → s.live = true) (htold : s'.told = s.told) : s.Follows s' :=
  ⟨hcounted, hlive, .nothing htold⟩

/-- The bridge forgets the stream. -/
theorem forget_follows (s : Stream) : s.Follows s.forget :=
  .quiet nofun id rfl

/-- The release is left to others. -/
theorem leave_follows (s : Stream) : s.Follows s.leave :=
  .quiet id nofun rfl

/-- The release is over. -/
theorem letWent_follows (s : Stream) : s.Follows s.letWent :=
  .quiet nofun id rfl

/-- `open` returns. -/
theorem opened_follows (h : s.opened = some s') : s.Follows s' := by
  unfold opened at h
  split at h
  · cases h
  · split at h
    · cases h
      split
      · exact .quiet id id rfl
      · exact .quiet id id rfl
    · cases h
      exact .quiet id id rfl
    · cases h
      exact s.leave_follows
    · cases h
    · cases h

/-- A stream that is shut is not live. -/
theorem shut_live (s : Stream) : s.shut.live = false := by
  unfold shut
  dsimp only
  split
  · rfl
  · split <;> rfl

/-- Its viewer is told nothing. -/
theorem shut_told (s : Stream) : s.shut.told = s.told := by
  unfold shut
  dsimp only
  split
  · rfl
  · split <;> rfl

/-- It counts only if it did. -/
theorem shut_counted (s : Stream) (h : s.shut.counted = true) : s.counted = true := by
  unfold shut at h
  dsimp only at h
  split at h
  · exact h
  · split at h
    · exact h
    · cases h

/-- A stream that is closed is not live. -/
theorem close_live (s : Stream) : s.close.live = false := by
  unfold close
  dsimp only
  split
  · exact shut_live _
  · rename_i hlive
    exact Bool.not_eq_true _ |>.mp hlive

/-- Its viewer is told so. -/
theorem close_told (s : Stream) : s.close.told = s.told ++ [.closed] := by
  unfold close
  dsimp only
  split
  · exact shut_told _
  · rfl

/-- It counts only if it did. -/
theorem close_counted (s : Stream) (h : s.close.counted = true) : s.counted = true := by
  unfold close at h
  dsimp only at h
  split at h
  · exact shut_counted (s.tell .closed) h
  · exact h

/-- `close`. -/
theorem close_follows (s : Stream) : s.Follows s.close := by
  refine ⟨s.close_counted, fun h => ?_, .closed s.close_live s.close_told⟩
  rw [s.close_live] at h
  cases h

/-- `aclose`. -/
theorem aclose_follows (s : Stream) : s.Follows s.aclose := by
  refine ⟨s.close_counted, fun h => ?_, .closed s.close_live s.close_told⟩
  have hlive : s.aclose.live = s.close.live := rfl
  rw [hlive, s.close_live] at h
  cases h

/-- A wait of `aclose` is over. -/
theorem aclosed_follows {j : Nat} (h : s.aclosed j = some s') : s.Follows s' := by
  obtain ⟨a, -, h⟩ := Option.bind_eq_some_iff.mp h
  split at h
  · cases h
  · cases h
    exact .quiet nofun id rfl

/-- Signaling data for the viewer. -/
theorem forward_follows (s : Stream) (data : Jsep) : s.Follows (s.forward data) := by
  unfold forward
  split
  · rename_i hlive
    exact ⟨id, id, .message data hlive rfl⟩
  · exact .quiet id id rfl

/-- The pump ends. -/
theorem endPump_follows (s : Stream) (reason : String) : s.Follows (s.endPump reason) := by
  unfold endPump
  dsimp only
  split
  · rename_i hlive
    exact ⟨nofun, nofun, .ended reason hlive rfl rfl⟩
  · exact .quiet nofun id rfl

/-- A message of the emulator. -/
theorem handle_follows (s : Stream) (m : Message) : s.Follows (s.handle m) := by
  cases m with
  | unreadable => exact .quiet id id rfl
  | other => exact .quiet id id rfl
  | bye text => exact s.endPump_follows _
  | offer sdp =>
    have h := forward_follows { s with offered := true } (.offer sdp)
    refine ⟨h.counted, h.live, ?_⟩
    cases h.told with
    | nothing ht => exact .nothing ht
    | message data hlive ht => exact .message data hlive ht
    | ended reason hlive hdead ht => exact .ended reason hlive hdead ht
    | closed hdead ht => exact .closed hdead ht
  | candidate candidate mid index =>
    unfold handle
    dsimp only
    split
    · exact .quiet id id rfl
    · exact s.forward_follows _

/-- A step of the pump. -/
theorem pumpStep_follows {w : PumpWake} (h : s.pumpStep w = some s') : s.Follows s' := by
  unfold pumpStep at h
  split at h
  · split at h
    · cases h
      exact .quiet id id rfl
    · split at h
      · cases h
        exact .quiet id id rfl
      · cases h
        exact .quiet id id rfl
      · cases h
      · cases h
  · split at h
    · cases h
      exact .quiet nofun id rfl
    · split at h
      · cases h
        exact s.handle_follows _
      · cases h
        exact s.endPump_follows _
      · cases h
      · cases h
  · cases h
  · cases h

/-- A step of the release. -/
theorem releaseStep_follows {w : ReleaseWake} (h : s.releaseStep w = some s') :
    s.Follows s' := by
  unfold releaseStep at h
  split at h
  · split at h
    · cases h
      exact s.letWent_follows
    · split at h
      · cases h
        exact .quiet id id rfl
      · cases h
  · -- every other branch moves the release, forgets the stream, or makes its pump
    repeat' split at h
    all_goals first
      | cases h; exact s.letWent_follows
      | cases h; exact .quiet id id rfl
      | cases h; exact .quiet (fun hc => absurd hc Bool.false_ne_true) id rfl
      | cases h

/-- **What a step of a stream does** to the counts and to its viewer. -/
theorem step_follows {e : Stream.Event} (h : s.step e = some s') : s.Follows s' := by
  cases e with
  | beginOpen =>
    simp only [step] at h
    split at h
    · cases h
      exact .quiet id id rfl
    · cases h
  | request r =>
    simp only [step] at h
    split at h
    · cases h
      exact .quiet id id rfl
    · cases h
  | opened => exact opened_follows h
  | cancelOpen =>
    simp only [step] at h
    split at h
    · cases h
      exact s.leave_follows
    · cases h
  | close =>
    cases h
    exact s.close_follows
  | aclose =>
    cases h
    exact s.aclose_follows
  | aclosed j => exact aclosed_follows h
  | pump w => exact pumpStep_follows h
  | release w => exact releaseStep_follows h
  | sent sdp =>
    cases h
    exact .quiet id id rfl

/-! ### The viewer -/

/-- What was said so far is in order, and a live stream has not said its end. -/
structure Heard (s : Stream) : Prop where
  orderly : s.Orderly
  live : s.live = true → ∀ x ∈ s.told, x.final = false

/-- A new stream has told nothing. -/
theorem Heard.new : Stream.new.Heard :=
  ⟨⟨Nat.zero_le 1, List.Pairwise.nil⟩, fun _ _ h => (nomatch h)⟩

/-- Something more is said to a viewer that has not heard the end. -/
theorem Orderly.append (h : s.Orderly) {x : Told} (hx : ∀ y ∈ s.told, y.final = false)
    (htold : s'.told = s.told ++ [x]) : s'.Orderly := by
  have hnone : s.told.countP Told.isEnd = 0 := by
    rw [List.countP_eq_zero]
    intro y hy hend
    have hfinal := hx y hy
    cases y with
    | ended reason => cases hfinal
    | message | closed => cases hend
  refine ⟨?_, ?_⟩
  · rw [htold, List.countP_append, hnone, Nat.zero_add]
    exact List.countP_le_length
  · rw [htold, List.pairwise_append]
    refine ⟨h.last, List.pairwise_singleton _ _, fun y hy z _ hfinal => ?_⟩
    rw [hx y hy] at hfinal
    cases hfinal

/-- What was told stays in order. -/
theorem Heard.step (h : s.Heard) (hs : s.Follows s') : s'.Heard := by
  obtain ⟨-, hlive, htold⟩ := hs
  cases htold with
  | nothing ht =>
    refine ⟨⟨?_, ?_⟩, fun hl => ?_⟩
    · rw [ht]
      exact h.orderly.once
    · rw [ht]
      exact h.orderly.last
    · rw [ht]
      exact h.live (hlive hl)
  | message data hl ht =>
    refine ⟨h.orderly.append (h.live hl) ht, fun _ x hx => ?_⟩
    rw [ht] at hx
    rcases List.mem_append.mp hx with hx | hx
    · exact h.live hl x hx
    · rw [List.mem_singleton.mp hx]
      rfl
  | ended reason hl hdead ht =>
    refine ⟨h.orderly.append (h.live hl) ht, fun hl' => ?_⟩
    rw [hdead] at hl'
    cases hl'
  | closed hdead ht =>
    refine ⟨⟨?_, ?_⟩, fun hl' => ?_⟩
    · rw [ht, List.countP_append]
      exact h.orderly.once
    · rw [ht, List.pairwise_append]
      exact ⟨h.orderly.last, List.pairwise_singleton _ _,
        fun y _ z hz _ => List.mem_singleton.mp hz⟩
    · rw [hdead] at hl'
      cases hl'

end Stream

/-! ### The counts -/

namespace Bridge

variable {b b' : Bridge}

/-- The limits, and the order of what each viewer hears. -/
structure WithinLimits (b : Bridge) : Prop where
  live : b.live ≤ maxStreams
  total : b.total ≤ maxStreams + maxReleasing - 1
  heard : ∀ s ∈ b.streams, s.Heard

/-- A count over the streams does not grow with a step of one that does not join it. -/
theorem countP_set_le {p : Stream → Bool} {l : List Stream} {i : Nat} {s s' : Stream}
    (hs : l[i]? = some s) (hp : p s' = true → p s = true) :
    (l.set i s').countP p ≤ l.countP p := by
  have hmod : l.set i s' = l.modify i fun _ => s' := by
    rw [List.modify_eq_set_getElem?, hs]
    rfl
  have hcount := Table.countP_modify (p := p) (f := fun _ => s') hs
  rw [hmod]
  cases hps : p s with
  | true =>
    cases hps' : p s' <;> simp only [hps, hps', Bool.toNat_true, Bool.toNat_false] at hcount <;>
      omega
  | false =>
    have hps' : p s' = false := by
      by_contra hne
      rw [hp (Bool.not_eq_false _ |>.mp hne)] at hps
      cases hps
    simp only [hps, hps', Bool.toNat_false] at hcount
    omega

/-- A new stream is created within the limits. -/
theorem WithinLimits.create (h : b.WithinLimits) (hc : b.create = .ok b') :
    b'.WithinLimits := by
  unfold Bridge.create at hc
  split at hc
  · cases hc
  · split at hc
    · cases hc
    · rename_i hlive hreleasing
      cases hc
      have hnewlive : [Stream.new].countP (fun s => s.counted && s.live) = 1 := rfl
      have hnewtotal : [Stream.new].countP (·.counted) = 1 := rfl
      refine ⟨?_, ?_, fun s hs => ?_⟩
      · unfold Bridge.live at hlive ⊢
        rw [List.countP_append, hnewlive]
        omega
      · unfold Bridge.total at hreleasing ⊢
        rw [List.countP_append, hnewtotal]
        unfold maxStreams maxReleasing at *
        omega
      · rcases List.mem_append.mp hs with hs | hs
        · exact h.heard s hs
        · rw [List.mem_singleton.mp hs]
          exact Stream.Heard.new

/-- A stream that follows another does not count for more. -/
theorem WithinLimits.stream (h : b.WithinLimits) {i : Nat} {s s' : Stream}
    (hi : b.streams[i]? = some s) (hs : s.Follows s') :
    ({ streams := b.streams.set i s' } : Bridge).WithinLimits := by
  refine ⟨Nat.le_trans (countP_set_le hi fun hp => ?_) h.live,
    Nat.le_trans (countP_set_le hi hs.counted) h.total, fun u hu => ?_⟩
  · rw [Bool.and_eq_true] at hp ⊢
    exact ⟨hs.counted hp.1, hs.live hp.2⟩
  · obtain ⟨j, hj⟩ := List.mem_iff_getElem?.mp hu
    rcases Table.cases_set hj with ⟨-, rfl⟩ | ⟨-, hold⟩
    · exact (h.heard s (List.mem_of_getElem? hi)).step hs
    · exact h.heard u (List.mem_of_getElem? hold)

/-- Every step. -/
theorem WithinLimits.step (h : b.WithinLimits) {e : Bridge.Event} (hstep : b.step e = some b') :
    b'.WithinLimits := by
  cases e with
  | create =>
    simp only [Bridge.step] at hstep
    cases hc : b.create with
    | ok b'' =>
      rw [hc] at hstep
      cases hstep
      exact h.create hc
    | error x =>
      rw [hc] at hstep
      cases hstep
  | stream i e =>
    obtain ⟨s, hi, hstep⟩ := Option.bind_eq_some_iff.mp hstep
    obtain ⟨s', hs, rfl⟩ := Option.map_eq_some_iff.mp hstep
    exact h.stream hi (Stream.step_follows hs)

end Bridge

/-- **Stream limits of the Bridge**: in every reachable state, and for each of its streams. -/
theorem Webrtc.bridge_limits {b : Bridge} (h : bridgeMachine.Reachable b) :
    b.live ≤ maxStreams ∧ b.total ≤ maxStreams + maxReleasing - 1 ∧
      ∀ s ∈ b.streams, s.Orderly := by
  have hb : b.WithinLimits := by
    refine h.invariant (fun b hb => ?_) fun _ _ _ hb _ hstep => hb.step hstep
    have hnone : b.streams = [] := hb
    refine ⟨?_, ?_, fun s hs => ?_⟩
    · unfold Bridge.live
      rw [hnone]
      exact Nat.zero_le _
    · unfold Bridge.total
      rw [hnone]
      exact Nat.zero_le _
    · rw [hnone] at hs
      cases hs
  exact ⟨hb.live, hb.total, fun s hs => (hb.heard s hs).orderly⟩

/-- The viewer of the first of four streams leaves, and another one comes. -/
def Webrtc.fullRun : List Bridge.Event :=
  [.create, .create, .create, .create, .stream 0 .beginOpen, .stream 0 (.request .answered),
    .stream 0 .opened, .stream 0 (.pump .start), .stream 0 (.pump (.message (.offer "v=0"))),
    .stream 0 .close, .create, .stream 0 (.pump (.message (.offer "v=0")))]

theorem Webrtc.bridge_limits_full : ∃ b : Bridge, bridgeMachine.run { streams := [] } fullRun =
      some b ∧ b.live = 4 ∧ b.total = 5 ∧ b.total ≤ maxStreams + maxReleasing - 1 ∧
        ∀ s ∈ b.streams, s.Orderly := by
  have hinit : bridgeMachine.Init { streams := [] } := rfl
  obtain ⟨b, hrun, hlive, htotal⟩ : ∃ b : Bridge,
      bridgeMachine.run { streams := [] } fullRun = some b ∧ b.live = 4 ∧ b.total = 5 :=
    ⟨_, rfl, rfl, rfl⟩
  have h := bridge_limits (Machine.Reachable.of_run (.init hinit) hrun)
  exact ⟨b, hrun, hlive, htotal, h.2.1, h.2.2⟩

end AndroidAppliance
