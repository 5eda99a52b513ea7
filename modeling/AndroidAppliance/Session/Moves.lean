import AndroidAppliance.Session.Fits

/-!
# The steps of a session

Every step of a viewer keeps `Fits`: those of the bridge, of the control lane, of the reader
and of the close. `step_moves` lists them.
-/

namespace AndroidAppliance

open Webrtc

open Session

namespace Viewer

variable {v v' : Viewer} {k : Own} {s s' : Stream}

/-! ### The bridge -/

/-- While `open` waits, the steps of others tell its viewer nothing. -/
theorem Asking.step {e : Stream.Event} (h : s.Asking) (he : outside e = true)
    (hs : s.step e = some s') : s'.Asking ∧ ∀ data, s'.told ≠ s.told ++ [.message data] ∧
      ∀ reason, s'.told ≠ s.told ++ [.ended reason] := by
  have hsame : ∀ x : Told, s.told ≠ s.told ++ [x] := by
    intro x hx
    have hlen := congrArg List.length hx
    simp at hlen
  cases e with
  | beginOpen | opened | cancelOpen | close | sent sdp => cases he
  | request r =>
    simp only [Stream.step] at hs
    split at hs
    · cases hs
      exact ⟨⟨h.opening, h.pump, h.release⟩, fun _ => ⟨hsame _, fun _ => hsame _⟩⟩
    · cases hs
  | aclose =>
    cases hs
    have htold : s.aclose.told = s.told ++ [.closed] := s.close_told
    have hshut : s.close.opening = .waiting ∧ s.close.pump = .absent ∧
        s.close.release = .absent := by
      unfold Stream.close Stream.shut Stream.tell
      simp only [h.pump, PumpPc.unfinished, Bool.false_eq_true, if_false]
      split
      · split
        · exact ⟨h.opening, rfl, h.release⟩
        · exact ⟨h.opening, rfl, h.release⟩
      · exact ⟨h.opening, rfl, h.release⟩
    refine ⟨⟨hshut.1, hshut.2.1, hshut.2.2⟩, fun _ => ⟨?_, fun _ => ?_⟩⟩
    · rw [htold]
      simp
    · rw [htold]
      simp
  | aclosed j =>
    obtain ⟨a, -, hs⟩ := Option.bind_eq_some_iff.mp hs
    split at hs
    · cases hs
    · cases hs
      exact ⟨⟨h.opening, h.pump, h.release⟩, fun _ => ⟨hsame _, fun _ => hsame _⟩⟩
  | pump w =>
    simp only [Stream.step, Stream.pumpStep, h.pump] at hs
    cases hs
  | release w =>
    simp only [Stream.step, Stream.releaseStep, h.release, ReleasePc.lettingGo,
      ReleasePc.unfinished, Bool.false_eq_true, if_false] at hs
    split at hs <;> cases hs

/-- A stream of the session takes a step of its own, and the session hears what it tells. -/
theorem Fits.heard (h : v.Fits) (hk : k ∈ v.owns) (hs : v.bridge.streams[k.stream]? = some s)
    {e : Stream.Event} (he : outside e = true) (hstep : s.step e = some s') :
    ((s'.told.drop s.told.length).foldl (fun v x => v.hear k x)
      ({ v with bridge := { streams := v.bridge.streams.set k.stream s' } } : Viewer)).Fits := by
  have hfollows := Stream.step_follows hstep
  have hself : (v.bridge.streams.set k.stream s')[k.stream]? = some s' := Table.set_self hs
  have hupd := h.update hs hfollows fun k' servers hpc heq hask =>
    (Asking.step hask he hstep).1
  cases hfollows.told with
  | nothing htold =>
    rw [htold, List.drop_length]
    exact hupd
  | closed hdead htold =>
    rw [htold, List.drop_left]
    exact hupd
  | message data hl htold =>
    have hc := h.live k hk s hs hl
    have hpc : ∀ k' servers, v.pc ≠ .opening k' servers := by
      intro k' servers hpc
      obtain ⟨hc', hask⟩ := h.opening k' servers hpc
      cases hc.symm.trans hc'
      exact ((Asking.step (hask s hs) he hstep).2 data).1 htold
    rw [htold, List.drop_left]
    refine hupd.queue (fun k' hk' => ?_) nofun (fun k' data' heq => ?_)
      (fun _ k' servers hpc' => absurd hpc' (hpc k' servers)) (fun hw k' hc' _ u hu hl' => ?_)
      (fun hw => (h.ordered hw).append (fun _ _ heq => (nomatch heq)) (fun k' data' heq => ?_))
      (h.reports hc rfl)
    · cases hk'
      exact hk
    · cases heq
      exact ⟨s', hself, htold ▸ List.mem_append_right _ (List.mem_singleton_self _)⟩
    · have hstreams := h.streams hw k hc (fun servers => hpc k servers) s hs hl
      cases hc.symm.trans hc'
      exact hstreams.append (.inr ⟨data, rfl⟩)
    · cases heq
      exact h.streams hw k hc (fun servers => hpc k servers) s hs hl
  | ended reason hl hdead htold =>
    have hc := h.live k hk s hs hl
    have hpc : ∀ k' servers, v.pc ≠ .opening k' servers := by
      intro k' servers hpc
      obtain ⟨hc', hask⟩ := h.opening k' servers hpc
      cases hc.symm.trans hc'
      exact ((Asking.step (hask s hs) he hstep).2 (.offer "")).2 reason htold
    rw [htold, List.drop_left]
    have hdone := hupd.uncurrent hc hpc fun u hu => by
      cases hself.symm.trans hu
      exact hdead
    refine hdone.unstreamed rfl hpc (fun k' hk' => ?_) (fun _ _ => Entry.noConfusion)
      (fun _ _ => Entry.noConfusion) (h.reports hc rfl)
    cases hk'
    exact hk

/-- A step of the bridge. -/
theorem Fits.bridgeStep (h : v.Fits) {e : Bridge.Event} (hv : v.bridgeStep e = some v') :
    v'.Fits := by
  unfold Viewer.bridgeStep at hv
  obtain ⟨b, hb, hv⟩ := Option.bind_eq_some_iff.mp hv
  cases e with
  | create =>
    cases hv
    simp only [Bridge.step] at hb
    cases hc : v.bridge.create with
    | ok b' =>
      rw [hc] at hb
      cases hb
      rw [create_eq hc]
      exact h.created
    | error x =>
      rw [hc] at hb
      cases hb
  | stream i e =>
    obtain ⟨s, hi, hb⟩ := Option.bind_eq_some_iff.mp hb
    obtain ⟨s', hs, rfl⟩ := Option.map_eq_some_iff.mp hb
    have hself : (v.bridge.streams.set i s')[i]? = some s' := Table.set_self hi
    dsimp only at hv
    split at hv
    · rename_i hnone
      cases hv
      refine h.update hi (Stream.step_follows hs) fun k servers hpc heq => ?_
      have hk := List.find?_eq_none.mp hnone k (h.current k (h.opening k servers hpc).1)
      exact absurd heq (by simpa using hk)
    · rename_i k hk
      have hmem := List.mem_of_find?_eq_some hk
      have heq : k.stream = i := by simpa using List.find?_some hk
      subst heq
      split at hv
      · rename_i he
        cases hv
        rw [hi, hself]
        exact h.heard hmem hi he hs
      · cases hv

/-! ### The lane and the reader -/

/-- A stream of the bridge is changed while the lane does not wait for a request. -/
theorem Fits.modified (h : v.Fits) (hpc : ∀ k servers, v.pc ≠ .opening k servers) {i : Nat}
    {f : Stream → Stream} (hf : ∀ s : Stream, s.Follows (f s)) :
    ({ v with bridge := { streams := v.bridge.streams.modify i f } } : Viewer).Fits := by
  cases hi : v.bridge.streams[i]? with
  | none =>
    have hsame : v.bridge.streams.modify i f = v.bridge.streams := by
      rw [List.modify_eq_set_getElem?, hi]
      rfl
    rw [hsame]
    exact h
  | some s =>
    rw [modify_eq_set hi]
    exact h.update hi (hf s) fun k servers hk => absurd hk (hpc k servers)

/-- A message for the emulator. -/
theorem Fits.relay (h : v.Fits) (hpc : ∀ k servers, v.pc ≠ .opening k servers)
    (hstage : v.stage ≠ .laneClosed) (data : Signal) (peer : Nat) : (v.relay data peer).Fits := by
  unfold Viewer.relay
  split
  · exact h
  · exact h
  · dsimp only
    split
    · exact h.move hpc rfl rfl rfl rfl rfl (fun _ _ => StreamPc.noConfusion)
        fun hs => absurd hs hstage
    · exact h.congr rfl rfl rfl id rfl rfl id

/-- A job of the lane. -/
theorem Fits.runJob (h : v.Fits) (hpc : ∀ k servers, v.pc ≠ .opening k servers)
    (hstage : v.stage ≠ .laneClosed) (env : Env) (job : StreamJob) : (v.runJob env job).Fits := by
  cases job with
  | start n => exact h.startStream hpc hstage env n
  | stop => exact h.stopStream hpc
  | relay data peer => exact h.relay hpc hstage data peer
  | androidStopped => exact h.androidStopped hpc

/-- The lane is open while it has something to do. -/
theorem Fits.laneOpen (h : v.Fits) (hpc : v.pc ≠ .finished) : v.stage ≠ .laneClosed :=
  fun hs => hpc (h.closed hs)

/-- A step of the lane. -/
theorem Fits.lane (h : v.Fits) {env : Env} {sent : Bool} (hv : v.lane env sent = some v') :
    v'.Fits := by
  unfold Viewer.lane at hv
  split at hv
  · rename_i hpc
    have hidle : ∀ k servers, v.pc ≠ .opening k servers := fun k servers hk => by
      rw [hpc] at hk
      cases hk
    have hstage := h.laneOpen fun hover => by
      rw [hpc] at hover
      cases hover
    split at hv
    · cases hv
    · rename_i job jobs hjobs
      cases hv
      have htaken : ({ v with jobs } : Viewer).Fits := h.congr rfl rfl rfl id rfl rfl id
      exact htaken.runJob hidle hstage env job
  · rename_i hpc
    exact h.opened hpc hv
  · rename_i k sdp hpc
    have hrelaying : ∀ k servers, v.pc ≠ .opening k servers := fun k servers hk => by
      rw [hpc] at hk
      cases hk
    have hstage := h.laneOpen fun hover => by
      rw [hpc] at hover
      cases hover
    cases hv
    have hmod := h.modified hrelaying (i := k.stream)
      (f := fun s => if sent then { s with answered := s.answered || sdp } else s) fun s => by
        split
        · exact .quiet id id rfl
        · exact .quiet id id rfl
    exact hmod.move hrelaying rfl rfl rfl rfl rfl (fun _ _ => StreamPc.noConfusion)
      fun hs => absurd hs hstage
  · cases hv

/-- A job is put. -/
theorem Fits.put (h : v.Fits) (tell : Bool) (start : Option Nat) (job : StreamJob) :
    (v.put tell start job).Fits := by
  unfold Viewer.put
  split
  · exact h.congr rfl rfl rfl id rfl rfl id
  · exact (h.error tell start _ _).congr rfl rfl rfl id rfl rfl id

/-- A message of the client. -/
theorem Fits.receive (h : v.Fits) (tell : Bool) (m : ClientMessage) : (v.receive tell m).Fits := by
  cases m with
  | start =>
    have hcounted : ({ v with starts := v.starts + 1 } : Viewer).Fits :=
      h.congr rfl rfl rfl id rfl rfl id
    exact hcounted.put _ _ _
  | stop =>
    have hcounted : ({ v with stops := v.stops + 1 } : Viewer).Fits :=
      h.congr rfl rfl rfl id rfl rfl id
    exact hcounted.put _ _ _
  | jsep data peer => exact h.put _ _ _
  | refused code message => exact h.error _ _ _ _
  | accepted => exact h

/-- A change of the status. -/
theorem Fits.statusChanged (h : v.Fits) (running : Bool) : (v.statusChanged running).Fits := by
  have hs := h.aside (x := .other) rfl
  unfold Viewer.statusChanged
  dsimp only
  split
  · exact hs.congr rfl rfl rfl id rfl rfl id
  · exact hs

/-! ### The close -/

/-- The lane is closed. -/
theorem Fits.closeLane (h : v.Fits) : v.closeLane.Fits := by
  unfold Viewer.closeLane
  dsimp only
  split
  · rename_i k servers hpc
    obtain ⟨hc, hask⟩ := h.opening k servers hpc
    have hlt := h.bound k (h.current k hc)
    obtain ⟨s, hs⟩ : ∃ s, v.bridge.streams[k.stream]? = some s :=
      ⟨_, List.getElem?_eq_getElem hlt⟩
    have hset : (v.bridge.streams.modify k.stream fun s =>
        if s.opening = .waiting then s.leave else s) = v.bridge.streams.set k.stream s.leave := by
      rw [modify_eq_set hs, if_pos (hask s hs).opening]
    rw [hset]
    exact h.leaveOpening hpc hs s.leave_follows rfl rfl rfl (fun _ _ => StreamPc.noConfusion)
      (fun _ => rfl) (fun _ hx => .inl hx) (fun hw => ⟨h.ordered hw, nofun⟩) h.reported
  all_goals
    rename_i hpc
    have hother : ∀ k servers, v.pc ≠ .opening k servers := fun k servers hk => by
      rw [hpc] at hk
      cases hk
    exact h.move hother rfl rfl rfl rfl rfl (fun _ _ => StreamPc.noConfusion) fun _ => rfl

/-- The session is dropped. -/
theorem Fits.drop (h : v.Fits) (hstage : v.stage = .laneClosed) :
    ({ v.leaveStream with stage := .dropped } : Viewer).Fits := by
  have hover := h.closed hstage
  refine (h.leaveStream fun k servers hk => ?_).congr rfl rfl rfl nofun rfl rfl id
  rw [hover] at hk
  cases hk

/-- What one step of a viewer does. -/
inductive Moves (v : Viewer) : Event → Viewer → Prop
  | receive {m : ClientMessage} {tell : Bool} (h : v.reading = true) :
      Moves v (.receive m tell) (v.receive tell m)
  | flood {tell : Bool} (h : v.reading = true) : Moves v (.flood tell)
      { v.error tell none "bad_request" "too many messages" with reading := false }
  | lane {env : Env} {sent : Bool} {v' : Viewer} (h : v.lane env sent = some v') :
      Moves v (.lane env sent) v'
  | error {code message : String} :
      Moves v (.error code message) (v.send (.error none code message))
  | other : Moves v .other (v.send .other)
  | statusChanged {running : Bool} (h : v.stage = .running) :
      Moves v (.statusChanged running) (v.statusChanged running)
  | write (h : v.stage = .running ∧ 0 < v.outbox) :
      Moves v .write { v with outbox := v.outbox - 1 }
  | bridge {e : Bridge.Event} {v' : Viewer} (h : v.bridgeStep e = some v') :
      Moves v (.bridge e) v'
  | close (h : v.stage = .running) : Moves v .close { v with reading := false, stage := .closing }
  | closeLane (h : v.stage = .closing) : Moves v .closeLane v.closeLane
  | drop (h : v.stage = .laneClosed) : Moves v .drop { v.leaveStream with stage := .dropped }

/-- Every step is one of the moves. -/
theorem step_moves {e : Event} (hv : v.step e = some v') : v.Moves e v' := by
  cases e with
  | lane env sent => exact .lane hv
  | bridge e => exact .bridge hv
  | error code message =>
    cases hv
    exact .error
  | other =>
    cases hv
    exact .other
  | receive | flood | statusChanged | write | close | closeLane | drop =>
    rw [Viewer.step] at hv
    split at hv
    · cases hv
      constructor
      assumption
    · cases hv

/-- Every step. -/
theorem Fits.step (h : v.Fits) {e : Event} (hv : v.step e = some v') : v'.Fits := by
  cases step_moves hv with
  | receive => exact h.receive _ _
  | flood => exact (h.error _ none _ _).congr rfl rfl rfl id rfl rfl id
  | lane hlane => exact h.lane hlane
  | error | other => exact h.aside rfl
  | statusChanged => exact h.statusChanged _
  | write => exact h.congr rfl rfl rfl id rfl rfl id
  | bridge hbridge => exact h.bridgeStep hbridge
  | close => exact h.congr rfl rfl rfl nofun rfl rfl id
  | closeLane => exact h.closeLane
  | drop hstage => exact h.drop hstage

end Viewer

end AndroidAppliance
