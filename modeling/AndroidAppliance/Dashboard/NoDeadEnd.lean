import AndroidAppliance.Dashboard.Events

/-!
# The link has no dead end

`Link.Wired` is what holds of the socket and the tab, `Link.Streamed` of the stream, its
timers and its peer connection. The helpers either leave the stream alone or set it up from
scratch: `endStream` and `fail` give a `Streamed` link nearly whatever they find. After
`reconcile` a stream is there exactly when one is wanted, so every state has a way out
(`no_dead_end`).
-/

namespace AndroidAppliance

open Dashboard

namespace Link

variable {S J : Type} {l l' : Link S J} {isOpen : Bool} {random : ℚ}

/-! ### Statements -/

/-- The socket and the tab have the timers that they need. -/
structure Wired (l : Link S J) : Prop where
  opened : l.socket = .open → l.armed .ping = true ∧ l.armed .silence = true
  closed : l.socket = .closed → l.armed .socketRetry = true
  paused : l.paused = true → l.visible = false
  hidden : l.armed .hidden = true → l.visible = false

/-- The stream has the timers that it needs, and a peer connection where it needs one. -/
structure Streamed (l : Link S J) (isOpen : Bool) : Prop where
  negotiate : l.stream.beginning = true → l.armed .negotiate = true
  retrying : l.stream = .retrying ↔ l.armed .streamRetry = true
  quiet : l.stream = .retrying → l.armed .negotiate = false ∧
    l.armed .iceDisconnected = false ∧ l.armed .stable = false
  idle : l.stream = .idle → ∀ n ∈ streamTimers, l.armed n = false
  peer : isOpen = l.stream.peered

/-- The peer connection behind the effects so far. -/
def peerAfter (l : Link S J) (isOpen : Bool) : Bool := l.acts.foldl replay isOpen

/-- Timers do not matter for the peer connection. -/
theorem foldl_effects (l : Link S J) (isOpen : Bool) :
    l.effects.foldl replay isOpen = l.peerAfter isOpen := by
  refine l.foldl_acts (fun b x hx => ?_) isOpen
  cases x with
  | timer | cancel => rfl
  | socketOpen | socketClose | send | ping | peerOpen | peerSignal | peerClose | checkAuth =>
    cases hx

/-! ### The helpers -/

/-- A step that leaves the socket, its timers and the tab. -/
theorem Wired.keeps (h : Wired l) (hsocket : l'.socket = l.socket)
    (hvisible : l'.visible = l.visible) (hpaused : l'.paused = l.paused)
    (harmed : ∀ n ∈ [Timer.ping, .silence, .socketRetry], l.armed n = true → l'.armed n = true)
    (hhidden : l'.armed .hidden = true → l.armed .hidden = true) : Wired l' := by
  constructor
  · intro hs
    obtain ⟨hping, hsilence⟩ := h.opened (hsocket ▸ hs)
    exact ⟨harmed _ (by simp) hping, harmed _ (by simp) hsilence⟩
  · intro hs
    exact harmed _ (by simp) (h.closed (hsocket ▸ hs))
  · rw [hpaused, hvisible]
    exact h.paused
  · intro harm
    rw [hvisible]
    exact h.hidden (hhidden harm)

/-- A step that leaves the stream and its timers. -/
theorem Streamed.keeps (h : Streamed l isOpen) (hstream : l'.stream = l.stream)
    (harmed : ∀ n ∈ streamTimers, l'.armed n = l.armed n) : Streamed l' isOpen := by
  have hnegotiate : l'.armed .negotiate = l.armed .negotiate := harmed _ (by simp [streamTimers])
  have hice : l'.armed .iceDisconnected = l.armed .iceDisconnected :=
    harmed _ (by simp [streamTimers])
  have hstable : l'.armed .stable = l.armed .stable := harmed _ (by simp [streamTimers])
  have hretry : l'.armed .streamRetry = l.armed .streamRetry := harmed _ (by simp [streamTimers])
  constructor
  · rw [hstream, hnegotiate]
    exact h.negotiate
  · rw [hstream, hretry]
    exact h.retrying
  · rw [hstream, hnegotiate, hice, hstable]
    exact h.quiet
  · intro hidle n hn
    rw [harmed n hn]
    exact h.idle (hstream ▸ hidle) n hn
  · rw [hstream]
    exact h.peer

/-- An idle stream has nothing. -/
theorem Streamed.of_idle (hstream : l.stream = .idle)
    (harmed : ∀ n ∈ streamTimers, l.armed n = false) (hopen : isOpen = false) :
    Streamed l isOpen := by
  constructor
  · rw [hstream]
    exact nofun
  · rw [hstream, harmed .streamRetry (by simp [streamTimers])]
    simp
  · rw [hstream]
    exact nofun
  · exact fun _ => harmed
  · rw [hstream]
    exact hopen

/-- There is no peer connection behind the drop of a stream. -/
theorem peerAfter_dropped (l : Link S J) (h : l.stream = .idle → l.peerAfter isOpen = false) :
    (l.acts ++ l.dropped).foldl replay isOpen = false := by
  unfold dropped
  split
  · rename_i hidle
    rw [List.append_nil]
    exact h hidle
  · rw [List.foldl_append]
    rfl

/-- The end of a stream leaves the socket. -/
theorem EndsStream.wired (h : EndsStream l l') (hw : Wired l) : Wired l' := by
  refine hw.keeps h.socket h.visible h.paused (fun n hn hl => ?_) fun hl => ?_
  · rw [h.armed, hl, Bool.and_true, decide_eq_true_eq]
    simp only [List.mem_cons, List.not_mem_nil, or_false] at hn
    rcases hn with rfl | rfl | rfl <;> decide
  · rw [h.armed, Bool.and_eq_true] at hl
    exact hl.2

/-- The end of a stream clears its timers. -/
theorem EndsStream.streamed (h : EndsStream l l')
    (hpeer : l.stream = .idle → l.peerAfter isOpen = false) :
    Streamed l' (l'.peerAfter isOpen) := by
  refine .of_idle h.stream (fun n hn => ?_) ?_
  · rw [h.armed, decide_eq_false (not_not.mpr hn), Bool.false_and]
  · unfold peerAfter
    rw [h.acts]
    exact l.peerAfter_dropped hpeer

/-- A failure leaves the socket. -/
theorem Fails.wired (h : Fails l l') (hw : Wired l) : Wired l' := by
  refine hw.keeps h.socket h.visible h.paused (fun n hn hl => ?_) fun hl => ?_
  · rw [h.armed, hl, Bool.and_true]
    simp only [List.mem_cons, List.not_mem_nil, or_false] at hn
    rcases hn with rfl | rfl | rfl <;> decide
  · rw [h.armed] at hl
    simpa using hl

/-- A failure sets the timer of the retry. -/
theorem Fails.streamed (h : Fails l l') : Streamed l' (l'.peerAfter isOpen) := by
  constructor
  · rw [h.stream]
    exact nofun
  · rw [h.stream, h.armed]
    simp
  · intro _
    simp [h.armed]
  · rw [h.stream]
    exact nofun
  · unfold peerAfter
    rw [h.stream, h.acts, List.foldl_append]
    rfl

/-- A lost socket sets the timer of the next one. -/
theorem Loses.wired {opened : Bool} (h : Loses opened l l')
    (hpaused : l.paused = true → l.visible = false)
    (hhidden : l.armed .hidden = true → l.visible = false) : Wired l' := by
  constructor
  · rw [h.socket]
    exact nofun
  · intro _
    simp [h.armed]
  · rw [h.paused, h.visible]
    exact hpaused
  · intro hl
    rw [h.visible]
    rw [h.armed] at hl
    exact hhidden (by simpa [streamTimers] using hl)

/-- A lost socket ends the stream. -/
theorem Loses.streamed {opened : Bool} (h : Loses opened l l')
    (hpeer : l.stream = .idle → l.peerAfter isOpen = false) :
    Streamed l' (l'.peerAfter isOpen) := by
  refine .of_idle h.stream (fun n hn => ?_) ?_
  · rw [h.armed, decide_eq_false (not_not.mpr hn)]
    simp only [streamTimers, List.mem_cons, List.not_mem_nil, or_false] at hn
    rcases hn with rfl | rfl | rfl | rfl <;> simp
  · unfold peerAfter
    rw [h.acts, List.foldl_append, l.peerAfter_dropped hpeer]
    cases opened <;> rfl

/-! ### `#reconcile` -/

/-- The reconciliation leaves the socket. -/
theorem reconcile_wired (hw : Wired l) : Wired l.reconcile := by
  cases reconcile_spec l with
  | same heq hiff =>
    rw [heq]
    exact hw
  | ends hwants hne hends =>
    refine hends.wired ?_
    split
    · exact hw.keeps rfl rfl rfl (fun _ _ hl => hl) id
    · exact hw
  | starts hwants hidle heq =>
    rw [heq]
    refine hw.keeps rfl rfl rfl (fun n hn hl => ?_) fun hl => ?_
    · rw [timer_armed, Bool.or_eq_true]
      exact .inr hl
    · have hsame : l.armed .hidden = true := hl
      exact hsame

/-- The reconciliation starts a stream, or ends it. -/
theorem reconcile_streamed (hs : Streamed l (l.peerAfter isOpen)) :
    Streamed l.reconcile (l.reconcile.peerAfter isOpen) := by
  cases reconcile_spec l with
  | same heq hiff =>
    rw [heq]
    exact hs
  | ends hwants hne hends =>
    refine hends.streamed fun hidle => absurd ?_ hne
    split at hidle
    · exact hidle
    · exact hidle
  | starts hwants hidle heq =>
    have hopen := hs.peer
    have hnone := hs.idle hidle
    rw [heq]
    constructor
    · exact fun _ => rfl
    · rw [timer_armed]
      have hretry := hnone .streamRetry (by simp [streamTimers])
      constructor
      · nofun
      · intro harmed
        have hsame : l.armed .streamRetry = true := harmed
        rw [hretry] at hsame
        cases hsame
    · nofun
    · nofun
    · unfold peerAfter at hopen ⊢
      rw [timer_acts, push_acts _ rfl, List.foldl_append]
      have hacts : ({ l with stream := .requested } : Link S J).acts = l.acts := rfl
      rw [hacts, hopen, hidle]
      rfl

/-! ### The handlers -/

/-- Nothing has happened to the stream. -/
theorem Streamed.frame (h : Streamed l (l.peerAfter isOpen)) (hstream : l'.stream = l.stream)
    (harmed : ∀ n ∈ streamTimers, l'.armed n = l.armed n)
    (hpeer : l'.peerAfter isOpen = l.peerAfter isOpen) : Streamed l' (l'.peerAfter isOpen) := by
  rw [hpeer]
  exact h.keeps hstream harmed

/-- A stream with a peer connection needs little more. -/
theorem Streamed.of_peered (hpeered : l.stream.peered = true)
    (hnegotiate : l.stream = .negotiating → l.armed .negotiate = true)
    (hretry : l.armed .streamRetry = false) (hopen : isOpen = true) : Streamed l isOpen := by
  have hstream : l.stream = .negotiating ∨ l.stream = .live := by
    revert hpeered
    cases l.stream <;> simp [StreamState.peered]
  constructor
  · rcases hstream with hn | hlive
    · exact fun _ => hnegotiate hn
    · rw [hlive]
      nofun
  · rw [hretry]
    rcases hstream with hs | hs <;> simp [hs]
  · rcases hstream with hs | hs <;> simp [hs]
  · rcases hstream with hs | hs <;> simp [hs]
  · rw [hopen, hpeered]

/-- The peer connection of an idle stream is gone. -/
theorem Streamed.none_idle (h : Streamed l isOpen) (hidle : l.stream = .idle) :
    isOpen = false := by
  rw [h.peer, hidle]
  rfl

/-- Only a stream that is retried has the timer of the retry. -/
theorem Streamed.not_retrying (h : Streamed l isOpen) (hs : l.stream ≠ .retrying) :
    l.armed .streamRetry = false := by
  rw [← Bool.not_eq_true]
  exact fun hretry => hs (h.retrying.mpr hretry)

/-- Any timer but that of a hidden tab. -/
theorem timer_wired {name : Timer} (ms : ℤ) (hw : Wired l) (hname : name ≠ .hidden) :
    Wired (l.timer name ms) := by
  refine hw.keeps rfl rfl rfl (fun n _ hl => ?_) fun hl => ?_
  · rw [timer_armed, hl, Bool.or_true]
  · rw [timer_armed, decide_eq_false hname.symm, Bool.false_or] at hl
    exact hl

/-- A timer that is not one of the stream. -/
theorem timer_streamed {name : Timer} (ms : ℤ) (hs : Streamed l (l.peerAfter isOpen))
    (hname : name ∉ streamTimers) :
    Streamed (l.timer name ms) ((l.timer name ms).peerAfter isOpen) := by
  refine hs.frame rfl (fun n hn => ?_) ?_
  · have hne : n ≠ name := fun heq => hname (heq ▸ hn)
    rw [timer_armed, decide_eq_false hne, Bool.false_or]
  · unfold peerAfter
    rw [timer_acts]

/-- `socket-open`. -/
theorem opened_wired (hw : Wired l) : Wired (l.on random .socketOpen) := by
  constructor
  · exact fun _ => ⟨rfl, rfl⟩
  · nofun
  · exact hw.paused
  · exact hw.hidden

/-- An opened socket leaves the stream. -/
theorem opened_streamed (hs : Streamed l (l.peerAfter isOpen)) :
    Streamed (l.on random .socketOpen) ((l.on random .socketOpen).peerAfter isOpen) := by
  have hopen : Streamed { l with socket := .open }
      (({ l with socket := .open } : Link S J).peerAfter isOpen) :=
    hs.frame rfl (fun _ _ => rfl) rfl
  exact timer_streamed _ (timer_streamed _ (timer_streamed _ hopen (by decide)) (by decide))
    (by decide)

/-- A message about the stream leaves the socket. -/
theorem streamMessage_wired (news : StreamNews) (iceServers : Option S)
    (policy reason : Option String) (hw : Wired l) :
    Wired (l.streamMessage random news iceServers policy reason) := by
  cases news with
  | starting =>
    unfold streamMessage
    by_cases hs : l.stream = .requested
    · simp only [if_pos hs]
      exact hw.keeps rfl rfl rfl (fun _ _ hl => hl) id
    · simp only [if_neg hs]
      exact hw
  | configured =>
    unfold streamMessage
    by_cases hs : l.stream = .requested ∨ l.stream = .starting
    · simp only [if_pos hs]
      exact hw.keeps rfl rfl rfl (fun _ _ hl => hl) id
    · simp only [if_neg hs]
      exact hw
  | ended =>
    unfold streamMessage
    by_cases hs : l.stream.active = true
    · simp only [if_pos hs]
      exact (fail_spec _ _ _).wired hw
    · simp only [if_neg hs]
      exact hw
  | other => exact hw

/-- A message about the stream sets its timers. -/
theorem streamMessage_streamed (news : StreamNews) (iceServers : Option S)
    (policy reason : Option String) (hs : Streamed l (l.peerAfter isOpen)) :
    Streamed (l.streamMessage random news iceServers policy reason)
      ((l.streamMessage random news iceServers policy reason).peerAfter isOpen) := by
  cases news with
  | starting =>
    unfold streamMessage
    by_cases hreq : l.stream = .requested
    · simp only [if_pos hreq]
      have hnegotiate : l.armed .negotiate = true := hs.negotiate (by rw [hreq]; rfl)
      have hretry := hs.not_retrying (by rw [hreq]; nofun)
      have hopen := hs.peer
      constructor
      · exact fun _ => hnegotiate
      · constructor
        · nofun
        · intro harmed
          exact absurd (harmed : l.armed .streamRetry = true) (by rw [hretry]; nofun)
      · nofun
      · nofun
      · rw [hreq] at hopen
        exact hopen
    · simp only [if_neg hreq]
      exact hs
  | configured =>
    unfold streamMessage
    by_cases hreq : l.stream = .requested ∨ l.stream = .starting
    · simp only [if_pos hreq]
      have hnegotiate : l.armed .negotiate = true :=
        hs.negotiate (by rcases hreq with hreq | hreq <;> rw [hreq] <;> rfl)
      have hretry := hs.not_retrying (by rcases hreq with hreq | hreq <;> rw [hreq] <;> nofun)
      refine .of_peered rfl (fun _ => hnegotiate) hretry ?_
      unfold peerAfter
      rw [push_acts _ rfl, List.foldl_append]
      rfl
    · simp only [if_neg hreq]
      exact hs
  | ended =>
    unfold streamMessage
    by_cases hactive : l.stream.active = true
    · simp only [if_pos hactive]
      exact (fail_spec _ _ _).streamed
    · simp only [if_neg hactive]
      exact hs
  | other => exact hs

/-- A message leaves the socket. -/
theorem message_wired (m : Message S J) (hw : Wired l) : Wired (l.message random m) := by
  cases m with
  | status => exact hw.keeps rfl rfl rfl (fun _ _ hl => hl) id
  | hello device version =>
    obtain ⟨d, v, heq⟩ := hello_eq l random device version
    rw [heq]
    exact hw.keeps rfl rfl rfl (fun _ _ hl => hl) id
  | stream => exact streamMessage_wired _ _ _ _ hw
  | jsep =>
    by_cases hpeered : l.stream.peered = true
    · simp only [message, if_pos hpeered]
      exact hw.keeps rfl rfl rfl (fun _ _ hl => hl) id
    · simp only [message, if_neg hpeered]
      exact hw
  | error =>
    by_cases hbegin : l.stream.beginning = true
    · simp only [message, if_pos hbegin]
      exact (fail_spec _ _ _).wired hw
    · simp only [message, if_neg hbegin]
      exact hw
  | other => exact hw

/-- Every message. -/
theorem message_streamed (m : Message S J) (hs : Streamed l (l.peerAfter isOpen)) :
    Streamed (l.message random m) ((l.message random m).peerAfter isOpen) := by
  cases m with
  | status => exact hs.frame rfl (fun _ _ => rfl) rfl
  | hello device version =>
    obtain ⟨d, v, heq⟩ := hello_eq l random device version
    rw [heq]
    exact hs.frame rfl (fun _ _ => rfl) rfl
  | stream => exact streamMessage_streamed _ _ _ _ hs
  | jsep data =>
    by_cases hpeered : l.stream.peered = true
    · simp only [message, if_pos hpeered]
      refine hs.frame rfl (fun _ _ => rfl) ?_
      unfold peerAfter
      rw [push_acts _ rfl, List.foldl_append]
      rfl
    · simp only [message, if_neg hpeered]
      exact hs
  | error =>
    by_cases hbegin : l.stream.beginning = true
    · simp only [message, if_pos hbegin]
      exact (fail_spec _ _ _).streamed
    · simp only [message, if_neg hbegin]
      exact hs
  | other => exact hs

/-- A timer that has fired is not armed. -/
theorem disarm_armed (name n : Timer) :
    (l.disarm name).armed n = (decide (n ≠ name) && l.armed n) := rfl

/-- A timer that fires keeps the socket on its way. -/
theorem fired_wired {name : Timer} (harmed : l.armed name = true) (hw : Wired l) :
    Wired ((l.disarm name).fired random name) := by
  -- A timer that fires is armed no more; the ones that `Wired` needs are handled at once.
  have hdisarm : name ∉ [Timer.ping, .silence, .socketRetry] → Wired (l.disarm name) := by
    intro hname
    refine hw.keeps rfl rfl rfl (fun n hn hl => ?_) fun hl => ?_
    · have hne : n ≠ name := fun heq => hname (heq ▸ hn)
      rw [disarm_armed, hl, decide_eq_true hne, Bool.and_true]
    · rw [disarm_armed, Bool.and_eq_true] at hl
      exact hl.2
  cases name with
  | ping =>
    constructor
    · exact fun hopen => ⟨rfl, (hw.opened hopen).2⟩
    · exact hw.closed
    · exact hw.paused
    · exact hw.hidden
  | silence =>
    exact (socketLost_spec _ random true).wired hw.paused hw.hidden
  | socketRetry =>
    by_cases hclosed : l.socket = .closed
    · have heq : (l.disarm .socketRetry).fired random .socketRetry =
          { l.disarm .socketRetry with socket := .connecting }.push .socketOpen := if_pos hclosed
      rw [heq]
      exact ⟨nofun, nofun, hw.paused, hw.hidden⟩
    · have heq : (l.disarm .socketRetry).fired random .socketRetry = l.disarm .socketRetry :=
        if_neg hclosed
      rw [heq]
      exact ⟨hw.opened, fun h => absurd h hclosed, hw.paused, hw.hidden⟩
  | streamRetry =>
    by_cases hretrying : l.stream = .retrying
    · have heq : (l.disarm .streamRetry).fired random .streamRetry =
          { l.disarm .streamRetry with stream := .idle } := if_pos hretrying
      rw [heq]
      exact (hdisarm (by decide)).keeps rfl rfl rfl (fun _ _ hl => hl) id
    · have heq : (l.disarm .streamRetry).fired random .streamRetry = l.disarm .streamRetry :=
        if_neg hretrying
      rw [heq]
      exact hdisarm (by decide)
  | negotiate | iceDisconnected => exact (fail_spec _ _ _).wired (hdisarm (by decide))
  | socketStable | stable =>
    exact (hdisarm (by decide)).keeps rfl rfl rfl (fun _ _ hl => hl) id
  | hidden =>
    have hw' := hdisarm (by decide)
    exact ⟨hw'.opened, hw'.closed, fun _ => hw.hidden harmed, hw'.hidden⟩

/-- A timer that fires keeps the stream on its way. -/
theorem fired_streamed {name : Timer} (harmed : l.armed name = true)
    (hs : Streamed l (l.peerAfter isOpen)) :
    Streamed ((l.disarm name).fired random name)
      (((l.disarm name).fired random name).peerAfter isOpen) := by
  have hdisarm : ∀ n ∈ streamTimers, name ∉ streamTimers →
      (l.disarm name).armed n = l.armed n := by
    intro n hn hname
    have hne : n ≠ name := fun heq => hname (heq ▸ hn)
    rw [disarm_armed, decide_eq_true hne, Bool.true_and]
  cases name with
  | ping =>
    have hpush : Streamed ((l.disarm .ping).push .ping)
        (((l.disarm .ping).push .ping).peerAfter isOpen) := by
      refine hs.frame rfl (fun n hn => hdisarm n hn (by decide)) ?_
      unfold peerAfter
      rw [push_acts _ rfl, List.foldl_append]
      rfl
    exact timer_streamed _ hpush (by decide)
  | silence =>
    refine (socketLost_spec _ random true).streamed fun hidle => ?_
    have hnone : l.peerAfter isOpen = false := hs.none_idle hidle
    unfold peerAfter at hnone ⊢
    rw [push_acts _ rfl, List.foldl_append]
    exact hnone
  | socketRetry =>
    by_cases hclosed : l.socket = .closed
    · have heq : (l.disarm .socketRetry).fired random .socketRetry =
          { l.disarm .socketRetry with socket := .connecting }.push .socketOpen := if_pos hclosed
      rw [heq]
      refine hs.frame rfl (fun n hn => hdisarm n hn (by decide)) ?_
      unfold peerAfter
      rw [push_acts _ rfl, List.foldl_append]
      rfl
    · have heq : (l.disarm .socketRetry).fired random .socketRetry = l.disarm .socketRetry :=
        if_neg hclosed
      rw [heq]
      exact hs.frame rfl (fun n hn => hdisarm n hn (by decide)) rfl
  | streamRetry =>
    -- Only a stream that waits for its retry has the timer, and nothing else.
    have hretrying : l.stream = .retrying := hs.retrying.mpr harmed
    obtain ⟨hnegotiate, hice, hstable⟩ := hs.quiet hretrying
    have heq : (l.disarm .streamRetry).fired random .streamRetry =
        { l.disarm .streamRetry with stream := .idle } := if_pos hretrying
    have hopen : l.peerAfter isOpen = false := by
      rw [hs.peer, hretrying]
      rfl
    rw [heq]
    refine .of_idle rfl (fun n hn => ?_) hopen
    have hn' : (l.disarm .streamRetry).armed n = false := by
      rw [disarm_armed]
      simp only [streamTimers, List.mem_cons, List.not_mem_nil, or_false] at hn
      rcases hn with rfl | rfl | rfl | rfl
      · exact hnegotiate
      · exact hice
      · exact hstable
      · rfl
    exact hn'
  | negotiate | iceDisconnected => exact (fail_spec _ _ _).streamed
  | socketStable | hidden =>
    exact hs.frame rfl (fun n hn => hdisarm n hn (by decide)) rfl
  | stable =>
    -- The stream is neither idle nor retrying, or the timer would not be armed.
    constructor
    · exact hs.negotiate
    · exact hs.retrying
    · intro hretrying
      exact absurd harmed (by rw [(hs.quiet hretrying).2.2]; nofun)
    · intro hidle
      exact absurd harmed (by rw [hs.idle hidle .stable (by simp [streamTimers])]; nofun)
    · exact hs.peer

/-- The connection leaves the socket. -/
theorem peer_wired (ice : IceState) (connection : ConnectionState) (hw : Wired l) :
    Wired (l.peer random ice connection) := by
  have hset : Wired { l with ice, connection } := hw.keeps rfl rfl rfl (fun _ _ hl => hl) id
  cases peer_spec l random ice connection with
  | same heq =>
    rw [heq]
    exact hset
  | connected hpeered hconn heq =>
    rw [heq]
    refine timer_wired _ ?_ (by decide)
    have hcancel := cancel_cancels [Timer.negotiate, .iceDisconnected]
      (l := { l with ice, connection, stream := .live, streamReason := "" })
    refine hw.keeps hcancel.keeps.socket hcancel.keeps.visible hcancel.keeps.paused
      (fun n hn hl => ?_) fun hl => ?_
    · rw [hcancel.armed, Bool.and_eq_true]
      refine ⟨?_, hl⟩
      simp only [List.mem_cons, List.not_mem_nil, or_false] at hn
      rcases hn with rfl | rfl | rfl <;> decide
    · rw [hcancel.armed, Bool.and_eq_true] at hl
      exact hl.2
  | disconnected hpeered hconn heq =>
    rw [heq]
    exact timer_wired _ hset (by decide)
  | failed hpeered hconn hfails => exact hfails.wired hset

/-- The connection sets the timers of the stream. -/
theorem peer_streamed (ice : IceState) (connection : ConnectionState)
    (hs : Streamed l (l.peerAfter isOpen)) :
    Streamed (l.peer random ice connection)
      ((l.peer random ice connection).peerAfter isOpen) := by
  have hretry : l.stream.peered = true → l.armed .streamRetry = false := fun hpeered =>
    hs.not_retrying fun hretrying => by rw [hretrying] at hpeered; cases hpeered
  have hopen : l.stream.peered = true → l.peerAfter isOpen = true := hs.peer.trans
  cases peer_spec l random ice connection with
  | same heq =>
    rw [heq]
    exact hs.frame rfl (fun _ _ => rfl) rfl
  | connected hpeered hconn heq =>
    rw [heq]
    have hcancel := cancel_cancels [Timer.negotiate, .iceDisconnected]
      (l := { l with ice, connection, stream := .live, streamReason := "" })
    have hlive := hcancel.keeps.stream
    refine .of_peered (congrArg StreamState.peered hlive)
      (fun h => absurd (hlive.symm.trans h) nofun) ?_ ?_
    · rw [timer_armed, hcancel.armed]
      exact hretry hpeered
    · unfold peerAfter
      rw [timer_acts, hcancel.acts]
      exact hopen hpeered
  | disconnected hpeered hconn heq =>
    rw [heq]
    refine .of_peered hpeered (fun h => ?_) (hretry hpeered) ?_
    · have hstream : l.stream = .negotiating := h
      have hnegotiate : l.armed .negotiate = true := hs.negotiate (by rw [hstream]; rfl)
      rw [timer_armed, Bool.or_eq_true]
      exact .inr hnegotiate
    · unfold peerAfter
      rw [timer_acts]
      exact hopen hpeered
  | failed hpeered hconn hfails => exact hfails.streamed

/-- A tab that is hidden sets its timer. -/
theorem visibility_wired (visible : Bool) (hw : Wired l) :
    Wired (l.on random (.visibility visible)) := by
  cases visible with
  | true =>
    have hcancel := cancel_cancels [Timer.hidden] (l := { l with visible := true })
    constructor
    · intro hopen
      obtain ⟨hping, hsilence⟩ := hw.opened (hcancel.keeps.socket.symm.trans hopen)
      exact ⟨(hcancel.armed _).trans hping, (hcancel.armed _).trans hsilence⟩
    · intro hclosed
      exact (hcancel.armed _).trans (hw.closed (hcancel.keeps.socket.symm.trans hclosed))
    · nofun
    · intro hhidden
      exact absurd ((hcancel.armed _).symm.trans hhidden) nofun
  | false =>
    constructor
    · exact hw.opened
    · exact hw.closed
    · exact fun _ => rfl
    · exact fun _ => rfl

/-- Showing and hiding the tab leave the stream. -/
theorem visibility_streamed (visible : Bool) (hs : Streamed l (l.peerAfter isOpen)) :
    Streamed (l.on random (.visibility visible))
      ((l.on random (.visibility visible)).peerAfter isOpen) := by
  cases visible with
  | true =>
    have hcancel := cancel_cancels [Timer.hidden] (l := { l with visible := true })
    refine hs.frame hcancel.keeps.stream (fun n hn => ?_)
      (congrArg (·.foldl replay isOpen) hcancel.acts)
    refine (hcancel.armed n).trans ?_
    simp only [streamTimers, List.mem_cons, List.not_mem_nil, or_false] at hn
    rcases hn with rfl | rfl | rfl | rfl <;> rfl
  | false =>
    have hset : Streamed { l with visible := false }
        (({ l with visible := false } : Link S J).peerAfter isOpen) :=
      hs.frame rfl (fun _ _ => rfl) rfl
    exact timer_streamed _ hset (by decide)

/-- A retry opens a socket where there is none. -/
theorem retry_wired (hw : Wired l) : Wired l.retry := by
  unfold retry
  split
  · have hcancel := cancel_cancels [Timer.socketRetry] (l := l)
    constructor
    · nofun
    · nofun
    · intro hpaused
      exact hcancel.keeps.visible.trans (hw.paused (hcancel.keeps.paused.symm.trans hpaused))
    · intro hhidden
      exact hcancel.keeps.visible.trans (hw.hidden ((hcancel.armed _).symm.trans hhidden))
  · split
    · exact (endStream_spec _).wired hw
    · exact hw

/-- A retry ends the stream, or leaves it. -/
theorem retry_streamed (hs : Streamed l (l.peerAfter isOpen)) :
    Streamed l.retry (l.retry.peerAfter isOpen) := by
  unfold retry
  split
  · have hcancel := cancel_cancels [Timer.socketRetry] (l := l)
    refine hs.frame hcancel.keeps.stream (fun n hn => ?_) ?_
    · refine (hcancel.armed n).trans ?_
      simp only [streamTimers, List.mem_cons, List.not_mem_nil, or_false] at hn
      rcases hn with rfl | rfl | rfl | rfl <;> rfl
    · unfold peerAfter
      rw [push_acts _ rfl, List.foldl_append]
      exact congrArg (·.foldl replay isOpen) hcancel.acts
  · split
    · exact (endStream_spec _).streamed hs.none_idle
    · exact hs

/-! ### Every event -/

/-- The socket, after every event. -/
theorem on_wired {e : Event S J} (he : l.Delivers e) (hw : Wired l) : Wired (l.on random e) := by
  cases e with
  | start => exact he.elim
  | socketOpen => exact opened_wired hw
  | socketClose opened => exact (socketLost_spec _ _ _).wired hw.paused hw.hidden
  | message m =>
    refine message_wired m ?_
    split
    · exact timer_wired _ hw (by decide)
    · exact hw
  | timer name => exact fired_wired he hw
  | peer ice connection => exact peer_wired ice connection hw
  | froze =>
    by_cases hactive : l.stream.active = true
    · simp only [on, if_pos hactive]
      exact (fail_spec _ _ _).wired hw
    · simp only [on, if_neg hactive]
      exact hw
  | visibility visible => exact visibility_wired visible hw
  | retry => exact retry_wired hw

/-- The stream, after every event. -/
theorem on_streamed {e : Event S J} (he : l.Delivers e) (hs : Streamed l (l.peerAfter isOpen)) :
    Streamed (l.on random e) ((l.on random e).peerAfter isOpen) := by
  cases e with
  | start => exact he.elim
  | socketOpen => exact opened_streamed hs
  | socketClose opened => exact (socketLost_spec _ _ _).streamed hs.none_idle
  | message m =>
    refine message_streamed m ?_
    split
    · exact timer_streamed _ hs (by decide)
    · exact hs
  | timer name => exact fired_streamed he hs
  | peer ice connection => exact peer_streamed ice connection hs
  | froze =>
    by_cases hactive : l.stream.active = true
    · simp only [on, if_pos hactive]
      exact (fail_spec _ _ _).streamed
    · simp only [on, if_neg hactive]
      exact hs
  | visibility visible => exact visibility_streamed visible hs
  | retry => exact retry_streamed hs

end Link

namespace Dashboard

variable {S J : Type} {p : Page S J}

/-- What holds after every event. -/
structure Page.Ok (p : Page S J) : Prop where
  wanted : p.link.stream ≠ .idle ↔ p.link.wantsStream = true
  wired : p.link.Wired
  streamed : p.link.Streamed p.isOpen

/-- Every event that can be delivered keeps the invariant. -/
theorem Page.Ok.handle {random : ℚ} {e : Event S J} (h : p.Ok) (he : p.link.Delivers e) :
    (p.handle random e).Ok := by
  obtain ⟨l, hl⟩ : ∃ l, l = ({ p.link with effects := [] } : Link S J) := ⟨_, rfl⟩
  have hlink : (p.handle random e).link = (l.on random e).reconcile := by
    rw [hl]
    rfl
  have hopen : (p.handle random e).isOpen = (l.on random e).reconcile.peerAfter p.isOpen := by
    rw [← Link.foldl_effects, ← hlink]
    rfl
  have hdelivers : l.Delivers e := by
    rw [hl]
    cases e <;> exact he
  have hwired : l.Wired := by
    rw [hl]
    exact h.wired.keeps rfl rfl rfl (fun _ _ harm => harm) id
  have hstreamed : l.Streamed (l.peerAfter p.isOpen) := by
    rw [hl]
    exact h.streamed.keeps rfl fun _ _ => rfl
  constructor
  · rw [hlink]
    exact Link.reconcile_wanted _
  · rw [hlink]
    exact Link.reconcile_wired (Link.on_wired hdelivers hwired)
  · rw [hlink, hopen]
    exact Link.reconcile_streamed (Link.on_streamed hdelivers hstreamed)

/-- The invariant holds in every reachable state. -/
theorem Page.ok (h : (linkMachine S J).Reachable p) : p.Ok := by
  refine h.invariant (fun p hp => ?_) fun p e t hp _ he => ?_
  · obtain ⟨random, rfl⟩ := hp
    refine ⟨⟨nofun, nofun⟩, ⟨nofun, nofun, nofun, nofun⟩, ?_⟩
    exact .of_idle rfl (fun _ _ => rfl) rfl
  · have hstep : (if p.link.Delivers e.1 then some (p.handle e.2 e.1) else none) = some t := he
    split at hstep
    · rename_i hdelivers
      cases hstep
      exact hp.handle hdelivers
    · cases hstep

/-- The page has no dead end: whatever it waits for, a timer ends the wait. -/
structure Page.HasWayOut (p : Page S J) : Prop where
  wanted : p.link.stream ≠ .idle ↔ p.link.wantsStream = true
  beginning : p.link.stream = .requested ∨ p.link.stream = .starting ∨
    p.link.stream = .negotiating → p.link.armed .negotiate = true
  retrying : p.link.stream = .retrying ↔ p.link.armed .streamRetry = true
  quiet : p.link.stream = .retrying → p.link.armed .negotiate = false ∧
    p.link.armed .iceDisconnected = false ∧ p.link.armed .stable = false
  idle : p.link.stream = .idle → p.link.armed .negotiate = false ∧
    p.link.armed .iceDisconnected = false ∧ p.link.armed .stable = false ∧
    p.link.armed .streamRetry = false
  opened : p.link.socket = .open → p.link.armed .ping = true ∧ p.link.armed .silence = true
  closed : p.link.socket = .closed → p.link.armed .socketRetry = true
  peer : p.isOpen = true ↔ p.link.stream = .negotiating ∨ p.link.stream = .live
  paused : p.link.paused = true → p.link.visible = false

/-- In whatever order the events come, the page has no dead end. -/
theorem no_dead_end (h : (linkMachine S J).Reachable p) : p.HasWayOut := by
  obtain ⟨hwanted, hwired, hstreamed⟩ := p.ok h
  exact {
    wanted := hwanted
    beginning := by
      rintro (hs | hs | hs) <;> exact hstreamed.negotiate (by rw [hs]; rfl)
    retrying := hstreamed.retrying
    quiet := hstreamed.quiet
    idle := by
      intro hidle
      have hnone := hstreamed.idle hidle
      exact ⟨hnone _ (by simp [Link.streamTimers]), hnone _ (by simp [Link.streamTimers]),
        hnone _ (by simp [Link.streamTimers]), hnone _ (by simp [Link.streamTimers])⟩
    opened := hwired.opened
    closed := hwired.closed
    peer := by
      rw [hstreamed.peer]
      cases p.link.stream <;> simp [StreamState.peered]
    paused := hwired.paused }

/-- A stream that fails while it is set up. -/
def failingRun : List (Event Unit Unit) :=
  [.socketOpen, .message (.status ⟨some "running", none⟩),
    .message (.stream .configured none none none), .peer .failed .failed]

/-- A stream that failed waits for its retry. -/
theorem no_dead_end_failing : ∃ p : Page Unit Unit, p.link.stream = .retrying ∧
    p.link.armed .streamRetry = true ∧ p.HasWayOut := by
  obtain ⟨p, hrun, hstream, harmed⟩ : ∃ p, (linkMachine Unit Unit).run
      (Page.handle { link := .new, isOpen := false } 0 .start) (failingRun.map (·, 0)) = some p ∧
      p.link.stream = .retrying ∧ p.link.armed .streamRetry = true := ⟨_, rfl, rfl, rfl⟩
  exact ⟨p, hstream, harmed, no_dead_end (.of_run (.init ⟨0, rfl⟩) hrun)⟩

end Dashboard

end AndroidAppliance
