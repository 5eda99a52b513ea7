import AndroidAppliance.Session.Moves

/-!
# The grammar of a session

A session answers each stop request at most once, and what it says about its streams has the
order of `Session.Messages`. A full outbox refuses a message and keeps the ones behind it, so
the order holds up to the first message that is refused.
-/

namespace AndroidAppliance

open Webrtc

open Session

namespace Viewer

variable {v v' : Viewer} {k : Own}

/-! ### The answers to stop requests -/

/-- No stop request came, waits or was answered in between. -/
structure Quiet (v v' : Viewer) : Prop where
  stopped : v'.log.count .stopped = v.log.count .stopped
  jobs : v'.jobs = v.jobs
  stops : v'.stops = v.stops

/-- Two steps that answer no stop. -/
theorem Quiet.trans {v'' : Viewer} (h : v.Quiet v') (h' : v'.Quiet v'') : v.Quiet v'' :=
  ⟨h'.stopped.trans h.stopped, h'.jobs.trans h.jobs, h'.stops.trans h.stops⟩

/-- Another message is no answer to a stop. -/
theorem count_stopped_append {log : List Entry} {x : Entry} (hx : x ≠ .stopped) :
    (log ++ [x]).count .stopped = log.count .stopped := by
  rw [List.count_append, List.count_singleton, if_neg (by simpa using hx), Nat.add_zero]

/-- Another message. -/
theorem send_quiet (v : Viewer) {x : Entry} (hx : x ≠ .stopped) : v.Quiet (v.send x) := by
  unfold send
  split
  · exact ⟨count_stopped_append hx, rfl, rfl⟩
  · exact ⟨rfl, rfl, rfl⟩

/-- An error. -/
theorem error_quiet (v : Viewer) (tell : Bool) (start : Option Nat) (code message : String) :
    v.Quiet (v.error tell start code message) := by
  unfold Viewer.error
  split
  · exact v.send_quiet nofun
  · exact ⟨rfl, rfl, rfl⟩

/-- Dropping the stream. -/
theorem dropStream_quiet (v : Viewer) : v.Quiet v.dropStream := by
  unfold Viewer.dropStream
  split
  · exact ⟨rfl, rfl, rfl⟩
  · exact ⟨rfl, rfl, rfl⟩

/-- Leaving the stream. -/
theorem leaveStream_quiet (v : Viewer) : v.Quiet v.leaveStream := by
  have hdrop := v.dropStream_quiet
  unfold Viewer.leaveStream
  split
  · exact ⟨count_stopped_append nofun, hdrop.jobs, hdrop.stops⟩
  · exact ⟨rfl, rfl, rfl⟩

/-- Android stops. -/
theorem androidStopped_quiet (v : Viewer) : v.Quiet v.androidStopped := by
  unfold Viewer.androidStopped
  split
  · exact v.dropStream_quiet.trans (send_quiet _ nofun)
  · exact ⟨rfl, rfl, rfl⟩

/-- A stream begins. -/
theorem beginStream_quiet (v : Viewer) (b : Bridge) (servers : List Turn.IceServer) (n : Nat) :
    v.Quiet (v.beginStream b servers n) := by
  unfold Viewer.beginStream Viewer.send
  dsimp only
  split
  · exact ⟨count_stopped_append nofun, rfl, rfl⟩
  · exact ⟨rfl, rfl, rfl⟩

/-- A start. -/
theorem startStream_quiet (v : Viewer) (env : Env) (n : Nat) : v.Quiet (v.startStream env n) := by
  refine v.leaveStream_quiet.trans ?_
  unfold Viewer.startStream
  dsimp only
  split
  · exact error_quiet _ _ _ _ _
  · split
    · exact error_quiet _ _ _ _ _
    · split
      · exact error_quiet _ _ _ _ _
      · split
        · exact error_quiet _ _ _ _ _
        · exact beginStream_quiet _ _ _ _

/-- `open` returns. -/
theorem opened_quiet {env : Env} {servers : List Turn.IceServer}
    (hv : v.opened env k servers = some v') : v.Quiet v' := by
  unfold Viewer.opened at hv
  obtain ⟨s, -, hv⟩ := Option.bind_eq_some_iff.mp hv
  obtain ⟨s', -, rfl⟩ := Option.map_eq_some_iff.mp hv
  have hmoved : v.Quiet { v with bridge := { streams := v.bridge.streams.set k.stream s' },
                                 pc := .idle } := ⟨rfl, rfl, rfl⟩
  dsimp only
  split
  · exact hmoved.trans (send_quiet _ nofun)
  · exact hmoved.trans ((dropStream_quiet _).trans (send_quiet _ nofun))
  · exact ⟨rfl, rfl, rfl⟩
  · exact ⟨rfl, rfl, rfl⟩
  · exact ⟨rfl, rfl, rfl⟩

/-- A message for the emulator. -/
theorem relay_quiet (v : Viewer) (data : Signal) (peer : Nat) : v.Quiet (v.relay data peer) := by
  unfold Viewer.relay
  split
  · exact ⟨rfl, rfl, rfl⟩
  · exact ⟨rfl, rfl, rfl⟩
  · dsimp only
    split
    · exact ⟨rfl, rfl, rfl⟩
    · exact ⟨rfl, rfl, rfl⟩

/-- What the stream tells its viewer. -/
theorem hear_quiet (v : Viewer) (k : Own) (told : List Told) :
    v.Quiet (told.foldl (fun v x => v.hear k x) v) := by
  induction told generalizing v with
  | nil => exact ⟨rfl, rfl, rfl⟩
  | cons x told ih =>
    have hone : v.Quiet (v.hear k x) := by
      cases x with
      | message data => exact v.send_quiet nofun
      | ended reason =>
        have hnone : v.Quiet { v with current := none } := ⟨rfl, rfl, rfl⟩
        exact hnone.trans (send_quiet _ nofun)
      | closed => exact ⟨rfl, rfl, rfl⟩
    exact hone.trans (ih _)

/-- A step of the bridge. -/
theorem bridgeStep_quiet {e : Bridge.Event} (hv : v.bridgeStep e = some v') : v.Quiet v' := by
  unfold Viewer.bridgeStep at hv
  obtain ⟨b, -, hv⟩ := Option.bind_eq_some_iff.mp hv
  have hbridge : v.Quiet { v with bridge := b } := ⟨rfl, rfl, rfl⟩
  cases e with
  | create =>
    cases hv
    exact hbridge
  | stream i e =>
    dsimp only at hv
    split at hv
    · cases hv
      exact hbridge
    · split at hv
      · cases hv
        exact hbridge.trans (hear_quiet _ _ _)
      · cases hv

/-- A stop request is answered once at most: it waits in the lane until then. -/
def Acked (v : Viewer) : Prop := v.log.count .stopped + v.jobs.count .stop ≤ v.stops

/-- A step that answers no stop. -/
theorem Acked.quiet (h : v.Acked) (hv : v.Quiet v') : v'.Acked := by
  unfold Acked at h ⊢
  rw [hv.stopped, hv.jobs, hv.stops]
  exact h

/-- The lane takes a job and runs it. -/
theorem Acked.runJob (h : v.Acked) {job : StreamJob} {jobs : List StreamJob}
    (hjobs : v.jobs = job :: jobs) (env : Env) : ({ v with jobs }.runJob env job).Acked := by
  unfold Acked at h
  rw [hjobs, List.count_cons] at h
  have htaken : ({ v with jobs } : Viewer).Acked := by
    unfold Acked
    dsimp only
    omega
  cases job with
  | start n => exact htaken.quiet (startStream_quiet _ env n)
  | relay data peer => exact htaken.quiet (relay_quiet _ data peer)
  | androidStopped => exact htaken.quiet (androidStopped_quiet _)
  | stop =>
    have hleave := leaveStream_quiet { v with jobs }
    have hlog := hleave.stopped
    have hrest := hleave.jobs
    have hstops := hleave.stops
    simp only [beq_self_eq_true, if_true] at h
    unfold Viewer.runJob stopStream send
    dsimp only at hlog hrest hstops ⊢
    split
    · unfold Acked
      dsimp only
      rw [List.count_append, hlog, hrest, hstops]
      simp only [List.count_singleton_self]
      omega
    · unfold Acked
      dsimp only
      rw [hlog, hrest, hstops]
      omega

/-- A job that is no stop. -/
theorem Acked.put (h : v.Acked) (tell : Bool) (start : Option Nat) {job : StreamJob}
    (hjob : job ≠ .stop) : (v.put tell start job).Acked := by
  unfold Viewer.put
  split
  · unfold Acked at h ⊢
    dsimp only
    rw [List.count_append, List.count_singleton, if_neg (by simpa using hjob)]
    exact h
  · exact (h.quiet (v.error_quiet tell start _ _)).quiet ⟨rfl, rfl, rfl⟩

/-- A message of the client: a stop is counted as it is put. -/
theorem Acked.receive (h : v.Acked) (tell : Bool) (m : ClientMessage) :
    (v.receive tell m).Acked := by
  cases m with
  | start =>
    have hcounted : ({ v with starts := v.starts + 1 } : Viewer).Acked := h
    exact hcounted.put _ _ nofun
  | stop =>
    unfold Acked at h
    show (({ v with stops := v.stops + 1 } : Viewer).put tell none .stop).Acked
    unfold Viewer.put
    split
    · unfold Acked
      dsimp only
      rw [List.count_append, List.count_singleton_self]
      omega
    · have hcounted : ({ v with stops := v.stops + 1 } : Viewer).Acked := by
        unfold Acked
        dsimp only
        omega
      exact (hcounted.quiet (error_quiet _ tell none _ _)).quiet ⟨rfl, rfl, rfl⟩
  | jsep data peer => exact h.put _ _ nofun
  | refused code message => exact h.quiet (v.error_quiet _ _ _ _)
  | accepted => exact h

/-- A step of the lane. -/
theorem Acked.lane (h : v.Acked) {env : Env} {sent : Bool} (hv : v.lane env sent = some v') :
    v'.Acked := by
  unfold Viewer.lane at hv
  split at hv
  · split at hv
    · cases hv
    · rename_i job jobs hjobs
      cases hv
      exact h.runJob hjobs env
  · exact h.quiet (opened_quiet hv)
  · cases hv
    exact h
  · cases hv

/-- A change of the status. -/
theorem Acked.statusChanged (h : v.Acked) (running : Bool) : (v.statusChanged running).Acked := by
  have hsent := h.quiet (v.send_quiet (x := .other) nofun)
  unfold Viewer.statusChanged
  dsimp only
  split
  · unfold Acked at hsent ⊢
    dsimp only
    rw [List.count_append, List.count_singleton, if_neg (by decide)]
    exact hsent
  · exact hsent

/-- The lane is closed. -/
theorem Acked.closeLane (h : v.Acked) : v.closeLane.Acked := by
  have hempty : ({ v with pc := .finished, jobs := [], stage := .laneClosed } : Viewer).Acked :=
    Nat.le_trans (Nat.add_le_add_left (Nat.zero_le _) _) h
  unfold Viewer.closeLane
  dsimp only
  split
  · exact hempty
  · exact hempty
  · exact hempty
  · exact hempty

/-- Every step. -/
theorem Acked.step (h : v.Acked) {e : Event} (hv : v.step e = some v') : v'.Acked := by
  cases step_moves hv with
  | receive => exact h.receive _ _
  | flood => exact (h.quiet (v.error_quiet _ none _ _)).quiet ⟨rfl, rfl, rfl⟩
  | lane hlane => exact h.lane hlane
  | error | other => exact h.quiet (v.send_quiet nofun)
  | statusChanged => exact h.statusChanged _
  | write | close => exact h
  | bridge hbridge => exact h.quiet (bridgeStep_quiet hbridge)
  | closeLane => exact h.closeLane
  | drop => exact (h.quiet v.leaveStream_quiet).quiet ⟨rfl, rfl, rfl⟩

/-! ### The grammar -/

/-- What a viewer is told about the streams of its session, and which of them is live. -/
structure Grammatical (v : Viewer) : Prop where
  ordered : v.whole = true → Ordered v.log
  reported : Reported v.log
  source : ∀ k data, Entry.jsep k data ∈ v.log → k ∈ v.owns ∧ ∃ s,
    v.bridge.streams[k.stream]? = some s ∧ .message data ∈ s.told
  live : ∀ k ∈ v.owns, ∀ s, v.bridge.streams[k.stream]? = some s → s.live = true →
    v.current = some k
  stopped : v.log.count .stopped ≤ v.stops

end Viewer

/-- **Stream message grammar of a session**, in every reachable state. -/
theorem Session.stream_grammar {v : Viewer} (h : viewerMachine.Reachable v) :
    v.Grammatical := by
  have hfits : v.Fits :=
    h.invariant (fun _ hinit => .initial hinit) fun _ _ _ hv _ hstep => hv.step hstep
  have hacked : v.Acked := by
    refine h.invariant (fun v hinit => ?_) fun _ _ _ hv _ hstep => hv.step hstep
    have hv : v.Initial := hinit
    rw [hv.2]
    exact Nat.le_refl 0
  refine ⟨hfits.ordered, hfits.reported, fun k data hmem => ⟨?_, hfits.source k data hmem⟩,
    hfits.live, Nat.le_trans (Nat.le_add_right _ _) hacked⟩
  exact hfits.named _ hmem k rfl

namespace Session

/-- A session that was just registered, of a bridge without streams. -/
def fresh : Viewer :=
  { bridge := { streams := [] }, current := none, jobs := [], pc := .idle, reading := true,
    stage := .running, outbox := 2, whole := true, starts := 0, stops := 0, owns := [],
    log := [.other, .other], relayed := [] }

theorem fresh_initial : viewerMachine.Init fresh := ⟨.init rfl, rfl⟩

/-- Android runs, and turnserver too. -/
def up : Env := { running := true, servers := .ok [], turn := true, details := "", tell := true }

/-- Two starts, the offer of the first stream, and a stop. -/
def replacedRun : List Viewer.Event :=
  [.receive .start true, .lane up true, .bridge (.stream 0 (.request .answered)), .lane up true,
    .bridge (.stream 0 (.pump .start)), .bridge (.stream 0 (.pump (.message (.offer "v=0")))),
    .receive .start true, .lane up true, .bridge (.stream 0 (.pump (.message (.offer "v=1")))),
    .receive .stop true, .bridge (.stream 1 (.request .answered)), .lane up true, .lane up true]

/-- A stream that is replaced, and a stop. -/
theorem stream_grammar_replaced : ∃ v, viewerMachine.run fresh replacedRun = some v ∧
    v.log = [.other, .other, .starting ⟨0, 0⟩, .configured ⟨0, 0⟩ [],
      .jsep ⟨0, 0⟩ (.offer "v=0"), .left ⟨0, 0⟩, .starting ⟨1, 1⟩, .configured ⟨1, 1⟩ [],
      .left ⟨1, 1⟩, .stopped] ∧ v.Grammatical := by
  obtain ⟨v, hrun, hlog⟩ : ∃ v, viewerMachine.run fresh replacedRun = some v ∧
      v.log = [.other, .other, .starting ⟨0, 0⟩, .configured ⟨0, 0⟩ [],
        .jsep ⟨0, 0⟩ (.offer "v=0"), .left ⟨0, 0⟩, .starting ⟨1, 1⟩, .configured ⟨1, 1⟩ [],
        .left ⟨1, 1⟩, .stopped] := ⟨_, rfl, rfl⟩
  exact ⟨v, hrun, hlog, stream_grammar (.of_run (.init fresh_initial) hrun)⟩

/-- Other messages fill the outbox. -/
theorem run_others (n : Nat) (v : Viewer) (h : v.outbox + n ≤ outboxSize) :
    viewerMachine.run v (List.replicate n .other) =
      some { v with outbox := v.outbox + n, log := v.log ++ List.replicate n .other } := by
  induction n generalizing v with
  | zero => simp [Machine.run]
  | succ n ih =>
    have hsend : v.send .other =
        { v with outbox := v.outbox + 1, log := v.log ++ [.other] } := by
      unfold Viewer.send
      rw [if_pos (by omega)]
    have hstep : viewerMachine.step v .other = some (v.send .other) := rfl
    rw [List.replicate_succ, Machine.run, hstep, hsend]
    have hrest := ih { v with outbox := v.outbox + 1, log := v.log ++ [.other] }
      (by dsimp only; omega)
    rw [Option.bind_some, hrest, List.append_assoc, List.replicate_succ]
    simp only [List.singleton_append, Nat.add_assoc, Nat.add_comm 1 n]

/-- The start of a stream while the outbox is full, and the answer of the emulator. -/
def refusedRun : List Viewer.Event :=
  [.receive .start true, .lane up true, .bridge (.stream 0 (.request .answered)), .write,
    .lane up true]

/-- A `configured` without its `starting`: the full outbox refused it. -/
theorem refused_starting : ¬ ∀ v, viewerMachine.Reachable v → ∀ before k servers after,
    v.log = before ++ .configured k servers :: after → Announced before k := by
  intro h
  have hfill := run_others 510 fresh (by decide)
  obtain ⟨full, hfull⟩ : ∃ full, full = fresh.log ++ List.replicate 510 Entry.other := ⟨_, rfl⟩
  rw [← hfull] at hfill
  obtain ⟨v, hrun, hlog⟩ : ∃ v, viewerMachine.run
      { fresh with outbox := fresh.outbox + 510, log := full } refusedRun = some v ∧
        v.log = full ++ [.configured ⟨0, 0⟩ []] := ⟨_, rfl, rfl⟩
  have hreach := (Machine.Reachable.of_run (.init fresh_initial) hfill).of_run hrun
  obtain ⟨before, after, heq, -⟩ := h v hreach full ⟨0, 0⟩ [] [] hlog
  have hmem : Entry.starting ⟨0, 0⟩ ∈ full := by rw [heq]; simp
  rw [hfull] at hmem
  rcases List.mem_append.mp hmem with hmem | hmem
  · simp [fresh] at hmem
  · cases List.eq_of_mem_replicate hmem

end Session

end AndroidAppliance
