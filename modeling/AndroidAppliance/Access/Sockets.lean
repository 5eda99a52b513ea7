import AndroidAppliance.Access.Revocation
import AndroidAppliance.Transition.Table

/-!
# The sessions of a rotated token

The WebSocket sessions of `Hub.sessions`, as far as a rotation goes. The middleware checks
the credentials of a handshake; the session then waits in `ws.accept()` and adds itself to
the hub only after that. `rotate_token` ends the sessions that the hub knows.

A rotation that falls between the check and the registration misses the session
(`session_missed`). Where no session is registered with credentials that a rotation has
replaced in the meantime (`Timely`), every session from before a rotation is ended
(`sessions_ended`).
-/

namespace AndroidAppliance

namespace Access

/-! ### The model -/

/-- How far a session is. -/
inductive Stage
  /-- In `ws.accept()`. -/
  | accepting
  /-- In the hub, with its reader and its writer. -/
  | running
  /-- In `_close`, or in the `ws.close()` of a full hub. -/
  | closing
  | closed
  deriving DecidableEq, Repr

/-- A WebSocket session, from the handshake on. -/
structure Socket where
  principal : Option Principal
  /-- The rotations before its check. -/
  epoch : Nat
  stage : Stage
  /-- Its reader is cancelled. -/
  ended : Bool
  /-- The messages that its reader has handled. -/
  received : Nat
  deriving DecidableEq, Repr

/-- A `rotate_token` in the wait for turnserver. -/
structure Rotation where
  epoch : Nat
  finished : Bool
  deriving DecidableEq, Repr

/-- `MAX_SESSIONS`. -/
def maxSessions : Nat := 16

/-- The path of the WebSocket. -/
def sessionPath : Str := "/api/v1/session".toList

/-- The credentials and the sessions. -/
structure Hub where
  world : World
  sockets : List Socket
  rotations : List Rotation
  /-- The rotations up to the last one that has returned. -/
  returned : Nat

namespace Socket

variable (s : Socket)

/-- It was let in by the token or by a cookie. -/
def byCredential : Prop := s.principal = some .token ∨ s.principal = some .session

/-- The client has its WebSocket. -/
def isOpen : Prop := s.stage = .running ∨ s.stage = .closing

/-- `end`. -/
def «end» : Socket := if s.stage = .running then { s with ended := true } else s

instance : Decidable s.byCredential := inferInstanceAs (Decidable (_ ∨ _))

instance : Decidable s.isOpen := inferInstanceAs (Decidable (_ ∨ _))

end Socket

namespace Hub

/-- The labels. -/
inductive Event
  /-- An operation of `Auth` other than a rotation, or the middleware on another request. -/
  | auth (e : Access.Event)
  /-- The middleware on a handshake. -/
  | connect (r : Request)
  /-- `ws.accept()` is over; `ok` says that it did not raise. -/
  | accepted (i : Nat) (ok : Bool)
  /-- The reader handles a message. -/
  | message (i : Nat)
  /-- The reader or the writer is over, and `_close` begins. -/
  | finished (i : Nat)
  | closed (i : Nat)
  /-- `rotate_token` up to its wait. -/
  | rotate (p : Option Principal) (fails : SecretFile → Bool) (token key : Str)
  /-- `rotate_token` returns. -/
  | rotated (j : Nat)

variable (env : Env) (cfg : Config) (h : Hub)

/-- The hub has MAX_SESSIONS sessions. -/
def full : Bool := maxSessions ≤ h.sockets.countP (·.stage = .running)

/-- A handshake: the session begins when the middleware lets it through. -/
def connect (r : Request) : Hub :=
  let c := h.world.call env cfg r
  let h := { h with world := { h.world with auth := c.1 } }
  match c.2 with
  | .app principal =>
    { h with sockets := h.sockets ++ [{ principal, epoch := h.world.hist.epoch,
                                        stage := .accepting, ended := false, received := 0 }] }
  | .rateLimited | .unauthorized | .toLogin | .forbidden | .raised => h

/-- `run` after `ws.accept()`. -/
def accepted (i : Nat) (ok : Bool) : Option Hub :=
  (h.sockets[i]?).bind fun s =>
    if s.stage ≠ .accepting then none
    else
      let stage := if !ok then .closed else if h.full then .closing else .running
      some { h with sockets := h.sockets.set i { s with stage } }

/-- `rotate_token` up to its wait; it ends the sessions when `Auth.rotate` does not raise. -/
def rotate (p : Option Principal) (fails : SecretFile → Bool) (token key : Str) : Hub :=
  if p ≠ some .viaUnix then h
  else
    let r := h.world.rotate fails token key
    if r.2 then
      { h with world := r.1, sockets := h.sockets.map Socket.end,
               rotations := h.rotations ++ [{ epoch := r.1.hist.epoch, finished := false }] }
    else { h with world := r.1 }

/-- One step. -/
def step : Event → Option Hub
  | .auth (.rotate _ _ _) => none
  | .auth e => (h.world.step env cfg e).map fun world => { h with world }
  | .connect r =>
    if r.kind = .websocket ∧ r.path = sessionPath then some (h.connect env cfg r) else none
  | .accepted i ok => h.accepted i ok
  | .message i =>
    (h.sockets[i]?).bind fun s =>
      if s.stage = .running ∧ s.ended = false then
        some { h with sockets := h.sockets.set i { s with received := s.received + 1 } }
      else none
  | .finished i =>
    (h.sockets[i]?).bind fun s =>
      if s.stage = .running then
        some { h with sockets := h.sockets.set i { s with stage := .closing } }
      else none
  | .closed i =>
    (h.sockets[i]?).bind fun s =>
      if s.stage = .closing then
        some { h with sockets := h.sockets.set i { s with stage := .closed } }
      else none
  | .rotate p fails token key => some (h.rotate p fails token key)
  | .rotated j =>
    (h.rotations[j]?).bind fun r =>
      if r.finished then none
      else some { h with rotations := h.rotations.set j { r with finished := true },
                         returned := max h.returned r.epoch }

/-- The daemon has just started. -/
def Initial : Prop :=
  h.world.Initial ∧ h.sockets = [] ∧ h.rotations = [] ∧ h.returned = 0

end Hub

/-- The machine of the sessions and the credentials. -/
def hubMachine (env : Env) (cfg : Config) : Machine Hub Hub.Event where
  Init := Hub.Initial
  step := Hub.step env cfg

namespace Hub

/-! ### Statements -/

/-- The cancelled tasks have run. -/
def Settled (h : Hub) : Prop :=
  ∀ s ∈ h.sockets, (s.stage = .running → s.ended = false) ∧ s.stage ≠ .closing

/-- The sessions that were let in before a rotation that has returned are ended. -/
structure Ended (env : Env) (cfg : Config) (h : Hub) : Prop where
  settled : h.Settled → ∀ s ∈ h.sockets, s.byCredential → s.epoch < h.returned → ¬ s.isOpen
  /-- Their messages are not handled any more. -/
  unheard : ∀ i s, h.sockets[i]? = some s → s.byCredential → s.epoch < h.returned →
    h.step env cfg (.message i) = none

/-- A session is registered only if no rotation has replaced the secrets since its check. -/
def Timely (h : Hub) (e : Event) : Prop :=
  ∀ i, e = .accepted i true → h.full = false → ∀ s, h.sockets[i]? = some s →
    s.byCredential → s.epoch = h.world.hist.epoch

/-! ### The invariant -/

/-- The counts of the rotations, and what became of the sessions from before them. -/
structure Ok (h : Hub) : Prop where
  returned : h.returned ≤ h.world.hist.epoch
  rotations : ∀ r ∈ h.rotations, r.epoch ≤ h.world.hist.epoch
  running : ∀ s ∈ h.sockets, s.stage = .running → s.byCredential →
    s.epoch < h.world.hist.epoch → s.ended = true

variable {env : Env} {cfg : Config} {h h' : Hub}

theorem Ok.initial (hinit : h.Initial) : h.Ok := by
  obtain ⟨-, hsockets, hrotations, hreturned⟩ := hinit
  constructor
  · omega
  · simp [hrotations]
  · simp [hsockets]

/-- An operation other than a rotation counts none. -/
theorem step_epoch {w w' : World} {e : Access.Event} (he : ∀ f t k, e ≠ .rotate f t k)
    (hstep : w.step env cfg e = some w') : w'.hist.epoch = w.hist.epoch := by
  cases e with
  | rotate f t k => exact absurd rfl (he f t k)
  | loginLink code => cases hstep; rfl
  | useLoginCode code => cases hstep; rfl
  | newSession nonce => cases hstep; rfl
  | request r => cases hstep; rfl
  | clock mono wall =>
    simp only [World.step] at hstep
    split at hstep
    · cases hstep; rfl
    · cases hstep

/-- One session changes; it is not a running one from before a rotation. -/
theorem Ok.set (hok : h.Ok) {i : Nat} {s' : Socket}
    (hs : s'.stage = .running → s'.byCredential → s'.epoch < h.world.hist.epoch →
      s'.ended = true) :
    ({ h with sockets := h.sockets.set i s' } : Hub).Ok := by
  refine { hok with running := fun s hmem => ?_ }
  rcases List.mem_or_eq_of_mem_set hmem with hmem | rfl
  · exact hok.running s hmem
  · exact hs

theorem Ok.connect (hok : h.Ok) (r : Request) : (h.connect env cfg r).Ok := by
  have hworld : ∀ auth, ({ h with world := { h.world with auth } } : Hub).Ok := fun auth =>
    ⟨hok.returned, hok.rotations, hok.running⟩
  unfold Hub.connect
  dsimp only
  split
  · refine { hworld _ with running := fun s hmem hrunning => ?_ }
    rcases List.mem_append.mp hmem with hmem | hmem
    · exact hok.running s hmem hrunning
    · rw [List.mem_singleton.mp hmem] at hrunning
      cases hrunning
  all_goals exact hworld _

theorem end_epoch (s : Socket) : s.end.epoch = s.epoch ∧ s.end.principal = s.principal ∧
    s.end.stage = s.stage := by
  unfold Socket.end
  split
  · exact ⟨rfl, rfl, rfl⟩
  · exact ⟨rfl, rfl, rfl⟩

/-- A rotation ends every session of the hub. -/
theorem Ok.rotate (hok : h.Ok) (p : Option Principal) (fails : SecretFile → Bool)
    (token key : Str) : (h.rotate p fails token key).Ok := by
  unfold Hub.rotate
  split
  · exact hok
  · dsimp only
    split
    · rename_i hret
      have hepoch : (h.world.rotate fails token key).1.hist.epoch =
          h.world.hist.epoch + 1 := by
        unfold World.rotate at hret ⊢
        dsimp only at hret ⊢
        rw [if_pos hret]
      have hreturned := hok.returned
      refine ⟨?_, fun r hr => ?_, fun s hs hrunning _ _ => ?_⟩
      · dsimp only
        omega
      · dsimp only at hr ⊢
        rcases List.mem_append.mp hr with hr | hr
        · have hle := hok.rotations r hr
          omega
        · rw [List.mem_singleton.mp hr]
      · obtain ⟨s₀, -, rfl⟩ := List.mem_map.mp hs
        rw [(end_epoch s₀).2.2] at hrunning
        unfold Socket.end
        rw [if_pos hrunning]
    · rename_i hret
      have hepoch : (h.world.rotate fails token key).1.hist.epoch = h.world.hist.epoch := by
        unfold World.rotate at hret ⊢
        dsimp only at hret ⊢
        rw [if_neg hret]
      refine ⟨?_, fun r hr => ?_, fun s hs => ?_⟩
      · dsimp only
        rw [hepoch]
        exact hok.returned
      · dsimp only
        rw [hepoch]
        exact hok.rotations r hr
      · dsimp only
        rw [hepoch]
        exact hok.running s hs

theorem Ok.step {e : Event} (hok : h.Ok) (htimely : h.Timely e)
    (hstep : h.step env cfg e = some h') : h'.Ok := by
  cases e with
  | auth e =>
    have hother : (∀ f t k, e ≠ .rotate f t k) ∧
        (h.world.step env cfg e).map (fun world => { h with world }) = some h' := by
      cases e with
      | rotate f t k => cases hstep
      | loginLink | useLoginCode | newSession | request | clock => exact ⟨nofun, hstep⟩
    obtain ⟨w, hw, rfl⟩ := Option.map_eq_some_iff.mp hother.2
    have hepoch := step_epoch hother.1 hw
    refine ⟨?_, fun r hr => ?_, fun s hs => ?_⟩
    · dsimp only
      rw [hepoch]
      exact hok.returned
    · dsimp only
      rw [hepoch]
      exact hok.rotations r hr
    · dsimp only
      rw [hepoch]
      exact hok.running s hs
  | connect r =>
    simp only [Hub.step] at hstep
    split at hstep
    · cases hstep
      exact hok.connect r
    · cases hstep
  | accepted i ok =>
    obtain ⟨s, hs, hstep⟩ := Option.bind_eq_some_iff.mp hstep
    split at hstep
    · cases hstep
    · cases hstep
      -- a session that is registered was checked after the last rotation
      refine hok.set fun hrunning hcred hepoch => ?_
      dsimp only at hrunning hepoch
      split at hrunning
      · cases hrunning
      · rename_i hokay
        split at hrunning
        · cases hrunning
        · rename_i hroom
          have htrue : ok = true := by simpa using hokay
          have hsame := htimely i (htrue ▸ rfl) (Bool.not_eq_true _ |>.mp hroom) s hs hcred
          omega
  | message i =>
    obtain ⟨s, hs, hstep⟩ := Option.bind_eq_some_iff.mp hstep
    split at hstep
    · cases hstep
      exact hok.set fun hrunning hcred hepoch =>
        hok.running s (List.mem_of_getElem? hs) hrunning hcred hepoch
    · cases hstep
  | finished i =>
    obtain ⟨s, hs, hstep⟩ := Option.bind_eq_some_iff.mp hstep
    split at hstep
    · cases hstep
      exact hok.set nofun
    · cases hstep
  | closed i =>
    obtain ⟨s, hs, hstep⟩ := Option.bind_eq_some_iff.mp hstep
    split at hstep
    · cases hstep
      exact hok.set nofun
    · cases hstep
  | rotate p fails token key =>
    cases hstep
    exact hok.rotate p fails token key
  | rotated j =>
    obtain ⟨r, hr, hstep⟩ := Option.bind_eq_some_iff.mp hstep
    split at hstep
    · cases hstep
    · cases hstep
      have hle := hok.rotations r (List.mem_of_getElem? hr)
      refine { hok with returned := Nat.max_le.mpr ⟨hok.returned, hle⟩,
                        rotations := fun r' hr' => ?_ }
      rcases List.mem_or_eq_of_mem_set hr' with hr' | rfl
      · exact hok.rotations r' hr'
      · exact hle

theorem Ok.ended (hok : h.Ok) : h.Ended env cfg := by
  have hreturned := hok.returned
  refine ⟨fun hsettled s hs hcred hepoch hopen => ?_, fun i s hs hcred hepoch => ?_⟩
  · obtain ⟨hrunning, hclosing⟩ := hsettled s hs
    rcases hopen with hstage | hstage
    · have hended := hok.running s hs hstage hcred (by omega)
      rw [hrunning hstage] at hended
      cases hended
    · exact hclosing hstage
  · simp only [Hub.step, hs, Option.bind_some]
    rw [if_neg]
    rintro ⟨hstage, hended⟩
    have htrue := hok.running s (List.mem_of_getElem? hs) hstage hcred (by omega)
    rw [hended] at htrue
    cases htrue

/-- **Rotation ends every session**, in every run that registers no session with credentials
that were replaced since its check. -/
theorem sessions_ended (hreach : (hubMachine env cfg).ReachBy Timely h) : h.Ended env cfg := by
  have hok : h.Ok :=
    hreach.invariant (fun _ hinit => .initial hinit) fun _ _ _ hh htimely hstep =>
      hh.step htimely hstep
  exact hok.ended

/-- A handshake with the first token. -/
def handshake : Request :=
  { kind := .websocket
    viaUnix := false
    path := sessionPath
    headers := [("authorization".toList, "Bearer tok0".toList)]
    scheme := some "ws".toList
    client := none }

/-- A daemon that has just started. -/
def fresh : Hub := { world := World.new, sockets := [], rotations := [], returned := 0 }

theorem fresh_initial : fresh.Initial :=
  ⟨⟨by decide, rfl, rfl, rfl, rfl, rfl⟩, rfl, rfl, rfl⟩

/-- A session that is registered before the rotation. -/
def endedRun : List Event :=
  [.connect handshake, .accepted 0 true, .message 0,
    .rotate (some .viaUnix) (fun _ => false) "tok1".toList "key1".toList, .rotated 0, .finished 0,
    .closed 0]

theorem sessions_ended_registered : ∃ h,
    (hubMachine World.sampleEnv World.sampleConfig).run fresh endedRun = some h ∧
    h.returned = 1 ∧ h.Ended World.sampleEnv World.sampleConfig ∧
    h.sockets = [{ principal := some .token, epoch := 0, stage := .closed, ended := true,
                   received := 1 }] := by
  obtain ⟨h, hrun, hreturned, hsockets⟩ : ∃ h,
      (hubMachine World.sampleEnv World.sampleConfig).run fresh endedRun = some h ∧
      h.returned = 1 ∧ h.sockets = [{ principal := some .token, epoch := 0, stage := .closed,
                                      ended := true, received := 1 }] := ⟨_, rfl, rfl, rfl⟩
  have hok : (hubMachine World.sampleEnv World.sampleConfig).RunOk Timely fresh endedRun := by
    refine ⟨nofun, fun _ h₁ => ⟨?_, fun _ _ => ⟨nofun, fun _ _ => ⟨nofun, fun _ _ => ⟨nofun,
      fun _ _ => ⟨nofun, fun _ _ => ⟨nofun, fun _ _ => trivial⟩⟩⟩⟩⟩⟩⟩
    cases h₁
    intro i hi _ s hs _
    cases hi
    cases hs
    rfl
  exact ⟨h, hrun, hreturned, sessions_ended (.of_run (.init fresh_initial) hok hrun), hsockets⟩

/-- A session whose handshake is accepted after the rotation. -/
def missedRun : List Event :=
  [.connect handshake, .rotate (some .viaUnix) (fun _ => false) "tok1".toList "key1".toList,
    .rotated 0, .accepted 0 true]

/-- The session has the old token, and its messages are handled. -/
theorem session_missed : ¬ ∀ (env : Env) (cfg : Config) (h : Hub),
    (hubMachine env cfg).Reachable h → h.Ended env cfg := by
  intro hall
  obtain ⟨h, hrun, hreturned, hsockets⟩ : ∃ h,
      (hubMachine World.sampleEnv World.sampleConfig).run fresh missedRun = some h ∧
      h.returned = 1 ∧ h.sockets = [{ principal := some .token, epoch := 0, stage := .running,
                                      ended := false, received := 0 }] := ⟨_, rfl, rfl, rfl⟩
  have hended := hall _ _ h (.of_run (.init fresh_initial) hrun)
  have hsettled : h.Settled := by
    intro s hs
    rw [hsockets] at hs
    rw [List.mem_singleton.mp hs]
    exact ⟨fun _ => rfl, nofun⟩
  refine hended.settled hsettled _ (hsockets ▸ List.mem_singleton_self _) (.inl rfl) ?_ (.inl rfl)
  rw [hreturned]
  exact Nat.zero_lt_one

end Hub

end Access

end AndroidAppliance
