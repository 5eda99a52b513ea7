import AndroidAppliance.Dashboard.Handlers

/-!
# What an event does to a link

`on_takes` says what an event does to the socket, the status and the tab, `on_stream` what it
does to the stream, and `on_acts` which effects it has: only a configuration opens a peer
connection, only signaling data reaches it, and only `reconcile` sends anything.
-/

namespace AndroidAppliance

open Dashboard

/-- The effect neither sends, nor opens a peer connection, nor passes signaling data on. -/
def Dashboard.Effect.plain {S J : Type} : Effect S J → Bool
  | .socketOpen | .socketClose | .ping | .peerClose | .checkAuth | .timer _ _ | .cancel _ => true
  | .send _ | .peerOpen _ _ | .peerSignal _ => false

/-- The message that the effect sends. -/
def Dashboard.Effect.request {S J : Type} : Effect S J → Option Request
  | .send m => some m
  | .socketOpen | .socketClose | .ping | .timer _ _ | .cancel _ | .peerOpen _ _ | .peerSignal _
  | .peerClose | .checkAuth => none

namespace Link

variable {S J : Type} {l l' l'' : Link S J} {random : ℚ} {e : Event S J}

/-! ### Effects -/

/-- All effects that were added are plain. -/
def Plainly (l l' : Link S J) : Prop := ∃ xs, l'.acts = l.acts ++ xs ∧ ∀ x ∈ xs, x.plain = true

/-- No act at all. -/
theorem Plainly.of_eq (h : l'.acts = l.acts) : Plainly l l' :=
  ⟨[], h.trans (List.append_nil _).symm, nofun⟩

theorem Plainly.trans (h : Plainly l l') (h' : Plainly l' l'') : Plainly l l'' := by
  obtain ⟨xs, hxs, hplain⟩ := h
  obtain ⟨ys, hys, hplain'⟩ := h'
  refine ⟨xs ++ ys, by rw [hys, hxs, List.append_assoc], fun x hx => ?_⟩
  rcases List.mem_append.mp hx with hx | hx
  · exact hplain x hx
  · exact hplain' x hx

/-- An effect that is no timer. -/
theorem push_plainly {x : Effect S J} (htimer : x.isTimer = false) (hplain : x.plain = true) :
    Plainly l (l.push x) := by
  refine ⟨[x], push_acts x htimer, fun y hy => ?_⟩
  rw [List.mem_singleton.mp hy]
  exact hplain

/-- A timer that is set has no other effect. -/
theorem timer_plainly (name : Timer) (ms : ℤ) : Plainly l (l.timer name ms) :=
  .of_eq (timer_acts name ms)

/-- A peer connection is closed, and nothing is sent. -/
theorem dropped_plain (l : Link S J) : ∀ x ∈ l.dropped, x.plain = true := by
  unfold dropped
  split
  · nofun
  · intro x hx
    rw [List.mem_singleton.mp hx]
    rfl

/-- The end of a stream sends nothing. -/
theorem EndsStream.plainly (h : EndsStream l l') : Plainly l l' := ⟨_, h.acts, l.dropped_plain⟩

/-- Nor does a failure. -/
theorem Fails.plainly (h : Fails l l') : Plainly l l' := by
  refine ⟨_, h.acts, fun x hx => ?_⟩
  rw [List.mem_singleton.mp hx]
  rfl

/-- Nor does a lost socket. -/
theorem Loses.plainly {opened : Bool} (h : Loses opened l l') : Plainly l l' := by
  refine ⟨_, h.acts.trans (List.append_assoc _ _ _), fun x hx => ?_⟩
  rcases List.mem_append.mp hx with hx | hx
  · exact l.dropped_plain x hx
  · cases opened with
    | true => cases hx
    | false =>
      rw [List.mem_singleton.mp hx]
      rfl

/-! ### The stream -/

/-- What an event other than a message does to the stream: it may end it, wait for a new try
or go live with its peer connection. -/
def Turns (l l' : Link S J) : Prop :=
  l'.stream = l.stream ∨ l'.stream = .idle ∨ l'.stream = .retrying ∨
    l.stream.peered = true ∧ l'.stream = .live

/-! ### Socket, status and tab -/

/-- What an event does to the socket, the status and the tab. -/
inductive Takes (e : Event S J) (l l' : Link S J) : Prop
  | heard (status : Status) : e = .message (.status status) → l'.status = some status →
      l'.socket = l.socket → l'.paused = l.paused → Takes e l l'
  /-- The status goes with the socket. -/
  | lost : l'.socket = .closed → l'.status = none → Takes e l l'
  | opened : e = .socketOpen → l'.socket = .open → l'.status = l.status → l'.paused = l.paused →
      Takes e l l'
  | shown : e = .visibility true → l'.socket = l.socket → l'.status = l.status →
      l'.paused = false → Takes e l l'
  | other : (l'.socket = .open → l.socket = .open) → l'.status = l.status →
      (l.paused = true → l'.paused = true) → Takes e l l'

/-- A step that keeps them. -/
theorem Keeps.takes (h : Keeps l l') : Takes e l l' :=
  .other (fun hopen => h.socket.symm.trans hopen) h.status fun hpaused => h.paused.trans hpaused

/-- The same in front of another step. -/
theorem Takes.of_keeps (h : Takes e l' l'') (hkeeps : Keeps l l') : Takes e l l'' := by
  cases h with
  | heard status he hs hsocket hpaused =>
    exact .heard status he hs (hsocket.trans hkeeps.socket) (hpaused.trans hkeeps.paused)
  | lost hsocket hstatus => exact .lost hsocket hstatus
  | opened he hsocket hstatus hpaused =>
    exact .opened he hsocket (hstatus.trans hkeeps.status) (hpaused.trans hkeeps.paused)
  | shown he hsocket hstatus hpaused =>
    exact .shown he (hsocket.trans hkeeps.socket) (hstatus.trans hkeeps.status) hpaused
  | other hsocket hstatus hpaused =>
    exact .other (fun hopen => hkeeps.socket.symm.trans (hsocket hopen))
      (hstatus.trans hkeeps.status) fun h => hpaused (hkeeps.paused.trans h)

/-- The end of a stream keeps them. -/
theorem EndsStream.takes (h : EndsStream l l') : Takes e l l' :=
  .other (fun hopen => h.socket.symm.trans hopen) h.status fun hpaused => h.paused.trans hpaused

/-- So does a failure. -/
theorem Fails.takes (h : Fails l l') : Takes e l l' :=
  .other (fun hopen => h.socket.symm.trans hopen) h.status fun hpaused => h.paused.trans hpaused

/-- A lost socket takes the status with it. -/
theorem Loses.takes {opened : Bool} (h : Loses opened l l') : Takes e l l' :=
  .lost h.socket h.status

/-! ### Messages -/

/-- What a message does to the stream, and the effects that it has. -/
inductive Answers (m : Message S J) (l l' : Link S J) : Prop
  | ignored : l'.stream = l.stream → l'.acts = l.acts → Answers m l l'
  | starting (servers : Option S) (policy reason : Option String) :
      m = .stream .starting servers policy reason → l.stream = .requested →
      l'.stream = .starting → l'.acts = l.acts → Answers m l l'
  | configured (servers : Option S) (policy reason : Option String) :
      m = .stream .configured servers policy reason →
      l.stream = .requested ∨ l.stream = .starting → l'.stream = .negotiating →
      l'.acts = l.acts ++ [.peerOpen servers policy] → Answers m l l'
  | ended (servers : Option S) (policy reason : Option String) :
      m = .stream .ended servers policy reason → l.stream.active = true →
      l'.stream = .retrying → l'.acts = l.acts ++ [.peerClose] → Answers m l l'
  | signal (data : J) : m = .jsep data → l.stream.peered = true → l'.stream = l.stream →
      l'.acts = l.acts ++ [.peerSignal data] → Answers m l l'
  | refused (text : Option String) : m = .error text → l.stream.beginning = true →
      l'.stream = .retrying → l'.acts = l.acts ++ [.peerClose] → Answers m l l'

/-- Messages about the stream, one by one. -/
theorem streamMessage_answers (news : StreamNews) (servers : Option S)
    (policy reason : Option String) :
    Answers (.stream news servers policy reason) l
      (l.streamMessage random news servers policy reason) := by
  cases news with
  | starting =>
    by_cases hreq : l.stream = .requested
    · simp only [streamMessage, if_pos hreq]
      exact .starting _ _ _ rfl hreq rfl rfl
    · simp only [streamMessage, if_neg hreq]
      exact .ignored rfl rfl
  | configured =>
    by_cases hreq : l.stream = .requested ∨ l.stream = .starting
    · simp only [streamMessage, if_pos hreq]
      exact .configured _ _ _ rfl hreq rfl (push_acts _ rfl)
    · simp only [streamMessage, if_neg hreq]
      exact .ignored rfl rfl
  | ended =>
    by_cases hactive : l.stream.active = true
    · simp only [streamMessage, if_pos hactive]
      exact .ended _ _ _ rfl hactive (fail_spec _ _ _).stream (fail_spec _ _ _).acts
    · simp only [streamMessage, if_neg hactive]
      exact .ignored rfl rfl
  | other => exact .ignored rfl rfl

/-- Every message. -/
theorem message_answers (m : Message S J) : Answers m l (l.message random m) := by
  cases m with
  | status => exact .ignored rfl rfl
  | hello device version =>
    obtain ⟨d, v, heq⟩ := hello_eq l random device version
    rw [heq]
    exact .ignored rfl rfl
  | stream => exact streamMessage_answers _ _ _ _
  | jsep data =>
    by_cases hpeered : l.stream.peered = true
    · simp only [message, if_pos hpeered]
      exact .signal data rfl hpeered rfl (push_acts _ rfl)
    · simp only [message, if_neg hpeered]
      exact .ignored rfl rfl
  | error text =>
    by_cases hbegin : l.stream.beginning = true
    · simp only [message, if_pos hbegin]
      exact .refused text rfl hbegin (fail_spec _ _ _).stream (fail_spec _ _ _).acts
    · simp only [message, if_neg hbegin]
      exact .ignored rfl rfl
  | other => exact .ignored rfl rfl

/-- An answer depends on the stream and on what was done. -/
theorem Answers.congr {m : Message S J} (h : Answers m l' l'') (hstream : l'.stream = l.stream)
    (hacts : l'.acts = l.acts) : Answers m l l'' := by
  cases h with
  | ignored hs ha => exact .ignored (hs.trans hstream) (ha.trans hacts)
  | starting a b c hm hreq hs ha =>
    exact .starting a b c hm (hstream.symm.trans hreq) hs (ha.trans hacts)
  | configured a b c hm hreq hs ha =>
    rw [hstream] at hreq
    rw [hacts] at ha
    exact .configured a b c hm hreq hs ha
  | ended a b c hm hactive hs ha =>
    rw [hstream] at hactive
    rw [hacts] at ha
    exact .ended a b c hm hactive hs ha
  | signal data hm hpeered hs ha =>
    rw [hstream] at hpeered
    rw [hacts] at ha
    exact .signal data hm hpeered (hs.trans hstream) ha
  | refused text hm hbegin hs ha =>
    rw [hstream] at hbegin
    rw [hacts] at ha
    exact .refused text hm hbegin hs ha

/-- A message first winds the timer of the silence. -/
theorem on_message (l : Link S J) (random : ℚ) (m : Message S J) :
    ∃ l', Keeps l l' ∧ l'.acts = l.acts ∧
    l.on random (.message m) = l'.message random m := by
  by_cases hopen : l.socket = .open
  · refine ⟨l.timer .silence silenceMs, timer_keeps _ _, timer_acts _ _, ?_⟩
    simp only [on, if_pos hopen]
  · refine ⟨l, ⟨rfl, rfl, rfl, rfl, rfl⟩, rfl, ?_⟩
    simp only [on, if_neg hopen]

/-- Every message, as an event. -/
theorem on_answers (l : Link S J) (random : ℚ) (m : Message S J) :
    Answers m l (l.on random (.message m)) := by
  obtain ⟨l₁, hkeeps, hacts, heq⟩ := on_message l random m
  rw [heq]
  exact (message_answers m).congr hkeeps.stream hacts

/-- Of the messages only a `status` changes the status. -/
theorem message_takes (m : Message S J) : Takes (.message m) l (l.message random m) := by
  cases m with
  | status status => exact .heard status rfl rfl rfl rfl
  | hello device version =>
    obtain ⟨d, v, heq⟩ := hello_eq l random device version
    rw [heq]
    exact .other id rfl id
  | stream news servers policy reason =>
    cases news with
    | starting =>
      simp only [message, streamMessage]
      split <;> exact .other id rfl id
    | configured =>
      simp only [message, streamMessage]
      split <;> exact .other id rfl id
    | ended =>
      simp only [message, streamMessage]
      split
      · exact (fail_spec _ _ _).takes
      · exact .other id rfl id
    | other => exact .other id rfl id
  | jsep data =>
    simp only [message]
    split <;> exact .other id rfl id
  | error text =>
    simp only [message]
    split
    · exact (fail_spec _ _ _).takes
    · exact .other id rfl id
  | other => exact .other id rfl id

/-! ### Other events -/

/-- What a timer makes of the stream. -/
theorem fired_turns (name : Timer) : Turns l (l.fired random name) := by
  cases name with
  | ping | socketStable | stable | hidden => exact .inl rfl
  | silence => exact .inr (.inl (socketLost_spec (l.push .socketClose) random true).stream)
  | socketRetry =>
    simp only [fired]
    split <;> exact .inl rfl
  | streamRetry =>
    simp only [fired]
    split
    · exact .inr (.inl rfl)
    · exact .inl rfl
  | negotiate | iceDisconnected => exact .inr (.inr (.inl (fail_spec _ _ _).stream))

/-- A timer sends nothing itself. -/
theorem fired_plainly (name : Timer) : Plainly l (l.fired random name) := by
  cases name with
  | ping => exact (push_plainly rfl rfl).trans (timer_plainly _ _)
  | socketStable | stable | hidden => exact .of_eq rfl
  | silence =>
    have hlost := socketLost_spec (l.push .socketClose) random true
    exact (push_plainly rfl rfl).trans hlost.plainly
  | socketRetry =>
    simp only [fired]
    split
    · exact push_plainly (l := { l with socket := .connecting }) rfl rfl
    · exact .of_eq rfl
  | streamRetry =>
    simp only [fired]
    split <;> exact .of_eq rfl
  | negotiate | iceDisconnected => exact (fail_spec _ _ _).plainly

/-- A timer may close the socket, or the tab's stream. -/
theorem fired_takes (name : Timer) : Takes e l (l.fired random name) := by
  cases name with
  | ping | socketStable | stable => exact .other id rfl id
  | hidden => exact .other id rfl fun _ => rfl
  | silence =>
    have hlost := socketLost_spec (l.push .socketClose) random true
    exact .lost hlost.socket hlost.status
  | socketRetry =>
    simp only [fired]
    split
    · exact .other nofun rfl id
    · exact .other id rfl id
  | streamRetry =>
    simp only [fired]
    split <;> exact .other id rfl id
  | negotiate | iceDisconnected => exact (fail_spec _ _ _).takes

/-- What the states of the connection make of the stream. -/
theorem peer_turns (ice : IceState) (connection : ConnectionState) :
    Turns l (l.peer random ice connection) := by
  cases peer_spec l random ice connection with
  | same heq =>
    rw [heq]
    exact .inl rfl
  | connected hpeered hconn heq =>
    rw [heq]
    have hcancel := cancel_cancels [Timer.negotiate, .iceDisconnected]
      (l := { l with ice, connection, stream := .live, streamReason := "" })
    exact .inr (.inr (.inr ⟨hpeered, hcancel.keeps.stream⟩))
  | disconnected hpeered hconn heq =>
    rw [heq]
    exact .inl rfl
  | failed hpeered hconn hfails => exact .inr (.inr (.inl hfails.stream))

/-- The connection sends nothing itself. -/
theorem peer_plainly (ice : IceState) (connection : ConnectionState) :
    Plainly l (l.peer random ice connection) := by
  cases peer_spec l random ice connection with
  | same heq =>
    rw [heq]
    exact .of_eq rfl
  | connected hpeered hconn heq =>
    rw [heq]
    have hcancel := cancel_cancels [Timer.negotiate, .iceDisconnected]
      (l := { l with ice, connection, stream := .live, streamReason := "" })
    exact .of_eq ((timer_acts _ _).trans hcancel.acts)
  | disconnected hpeered hconn heq =>
    rw [heq]
    exact .of_eq (timer_acts _ _)
  | failed hpeered hconn hfails => exact hfails.plainly

/-- The connection keeps the socket, the status and the tab. -/
theorem peer_takes (ice : IceState) (connection : ConnectionState) :
    Takes e l (l.peer random ice connection) := by
  cases peer_spec l random ice connection with
  | same heq =>
    rw [heq]
    exact .other id rfl id
  | connected hpeered hconn heq =>
    rw [heq]
    have hcancel := cancel_cancels [Timer.negotiate, .iceDisconnected]
      (l := { l with ice, connection, stream := .live, streamReason := "" })
    exact .other (fun h => hcancel.keeps.socket.symm.trans h) hcancel.keeps.status
      fun h => hcancel.keeps.paused.trans h
  | disconnected hpeered hconn heq =>
    rw [heq]
    exact .other id rfl id
  | failed hpeered hconn hfails => exact hfails.takes.of_keeps ⟨rfl, rfl, rfl, rfl, rfl⟩

/-- What a retry makes of the stream. -/
theorem retry_turns : Turns l l.retry := by
  unfold retry
  split
  · exact .inl (cancel_cancels (l := l) [.socketRetry]).keeps.stream
  · split
    · exact .inr (.inl (endStream_spec _).stream)
    · exact .inl rfl

/-- A retry sends nothing itself. -/
theorem retry_plainly : Plainly l l.retry := by
  unfold retry
  split
  · have hcancel := cancel_cancels (l := l) [.socketRetry]
    exact (Plainly.of_eq hcancel.acts).trans (push_plainly rfl rfl)
  · split
    · exact (endStream_spec _).plainly
    · exact .of_eq rfl

/-- A retry may open a socket. -/
theorem retry_takes : Takes e l l.retry := by
  unfold retry
  split
  · have hcancel := cancel_cancels (l := l) [.socketRetry]
    exact .other nofun hcancel.keeps.status fun h => hcancel.keeps.paused.trans h
  · split
    · exact (endStream_spec _).takes
    · exact .other id rfl id

/-- Every event but a message. -/
theorem on_turns (he : ∀ m, e ≠ .message m) : Turns l (l.on random e) := by
  cases e with
  | start | socketOpen => exact .inl rfl
  | socketClose opened => exact .inr (.inl (socketLost_spec l random opened).stream)
  | message m => exact absurd rfl (he m)
  | timer name => exact fired_turns (l := l.disarm name) name
  | peer ice connection => exact peer_turns ice connection
  | froze =>
    by_cases hactive : l.stream.active = true
    · simp only [on, if_pos hactive]
      exact .inr (.inr (.inl (fail_spec _ _ _).stream))
    · simp only [on, if_neg hactive]
      exact .inl rfl
  | visibility visible =>
    cases visible with
    | true =>
      exact .inl (cancel_cancels (l := { l with visible := true }) [.hidden]).keeps.stream
    | false => exact .inl rfl
  | retry => exact retry_turns

/-- Nothing but a message passes anything on. -/
theorem on_plainly (he : ∀ m, e ≠ .message m) : Plainly l (l.on random e) := by
  cases e with
  | start => exact push_plainly (l := { l with socket := .connecting }) rfl rfl
  | socketOpen =>
    exact ((Plainly.of_eq (timer_acts (l := { l with socket := .open }) _ _)).trans
      (timer_plainly _ _)).trans (timer_plainly _ _)
  | socketClose opened => exact (socketLost_spec l random opened).plainly
  | message m => exact absurd rfl (he m)
  | timer name => exact fired_plainly (l := l.disarm name) name
  | peer ice connection => exact peer_plainly ice connection
  | froze =>
    by_cases hactive : l.stream.active = true
    · simp only [on, if_pos hactive]
      exact (fail_spec _ _ _).plainly
    · simp only [on, if_neg hactive]
      exact .of_eq rfl
  | visibility visible =>
    cases visible with
    | true =>
      exact .of_eq (cancel_cancels (l := { l with visible := true }) [.hidden]).acts
    | false => exact .of_eq (timer_acts (l := { l with visible := false }) _ _)
  | retry => exact retry_plainly

/-- Every event. -/
theorem on_takes : Takes e l (l.on random e) := by
  cases e with
  | start => exact .other nofun rfl id
  | socketOpen => exact .opened rfl rfl rfl rfl
  | socketClose opened => exact (socketLost_spec l random opened).takes
  | message m =>
    obtain ⟨l₁, hkeeps, -, heq⟩ := on_message l random m
    rw [heq]
    exact (message_takes m).of_keeps hkeeps
  | timer name =>
    exact (fired_takes (l := l.disarm name) name).of_keeps ⟨rfl, rfl, rfl, rfl, rfl⟩
  | peer ice connection => exact peer_takes ice connection
  | froze =>
    by_cases hactive : l.stream.active = true
    · simp only [on, if_pos hactive]
      exact (fail_spec _ _ _).takes
    · simp only [on, if_neg hactive]
      exact .other id rfl id
  | visibility visible =>
    cases visible with
    | true =>
      have hcancel := cancel_cancels (l := { l with visible := true }) [.hidden]
      exact .shown rfl hcancel.keeps.socket hcancel.keeps.status rfl
    | false => exact .other id rfl id
  | retry => exact retry_takes

/-! ### The whole event -/

/-- `reconcile` only changes the stream. -/
theorem reconcile_keeps (l : Link S J) : l.reconcile.socket = l.socket ∧
    l.reconcile.status = l.status ∧ l.reconcile.paused = l.paused := by
  cases reconcile_spec l with
  | same heq hiff =>
    rw [heq]
    exact ⟨rfl, rfl, rfl⟩
  | ends hwants hne hends =>
    rw [hends.socket, hends.status, hends.paused]
    split <;> exact ⟨rfl, rfl, rfl⟩
  | starts hwants hidle heq =>
    rw [heq]
    exact ⟨rfl, rfl, rfl⟩

/-- Whether a stream is wanted stays the same. -/
theorem reconcile_wantsStream (l : Link S J) : l.reconcile.wantsStream = l.wantsStream := by
  obtain ⟨hsocket, hstatus, hpaused⟩ := reconcile_keeps l
  unfold wantsStream running
  rw [hsocket, hstatus, hpaused]

/-- A stream is there exactly when one is wanted. -/
theorem reconcile_wanted (l : Link S J) :
    l.reconcile.stream ≠ .idle ↔ l.reconcile.wantsStream = true := by
  cases reconcile_spec l with
  | same heq hiff =>
    rw [heq]
    exact hiff
  | ends hwants hne hends =>
    rw [reconcile_wantsStream, hwants, hends.stream]
    simp
  | starts hwants hidle heq =>
    rw [heq]
    exact ⟨fun _ => hwants, fun _ => StreamState.noConfusion⟩

/-- The same with the reconciliation behind it. -/
theorem handle_takes (l : Link S J) (random : ℚ) (e : Event S J) :
    Takes e l (l.handle random e) := by
  have hon : Takes e l (({ l with effects := [] } : Link S J).on random e) :=
    on_takes.of_keeps ⟨rfl, rfl, rfl, rfl, rfl⟩
  obtain ⟨hsocket, hstatus, hpaused⟩ :=
    reconcile_keeps (({ l with effects := [] } : Link S J).on random e)
  cases hon with
  | heard status he hs hk hp =>
    exact .heard status he (hstatus.trans hs) (hsocket.trans hk) (hpaused.trans hp)
  | lost hk hs => exact .lost (hsocket.trans hk) (hstatus.trans hs)
  | opened he hk hs hp =>
    exact .opened he (hsocket.trans hk) (hstatus.trans hs) (hpaused.trans hp)
  | shown he hk hs hp =>
    exact .shown he (hsocket.trans hk) (hstatus.trans hs) (hpaused.trans hp)
  | other hk hs hp =>
    exact .other (fun h => hk (hsocket.symm.trans h)) (hstatus.trans hs)
      fun h => hpaused.trans (hp h)

/-! ### What is sent -/

/-- The messages that the event sends. -/
def sent (l : Link S J) : List Request := l.acts.filterMap Effect.request

/-- What is sent, among the effects. -/
theorem mem_sent {m : Request} : m ∈ l.sent ↔ .send m ∈ l.effects := by
  unfold sent acts
  rw [List.mem_filterMap]
  constructor
  · rintro ⟨x, hx, hm⟩
    cases x with
    | send r =>
      cases hm
      exact (List.mem_filter.mp hx).1
    | socketOpen | socketClose | ping | timer | cancel | peerOpen | peerSignal | peerClose
    | checkAuth => cases hm
  · intro hm
    exact ⟨.send m, List.mem_filter.mpr ⟨hm, rfl⟩, rfl⟩

/-- Nothing is sent by plain acts. -/
theorem Plainly.sent (h : Plainly l l') : l'.sent = l.sent := by
  obtain ⟨xs, hxs, hplain⟩ := h
  have hnone : xs.filterMap Effect.request = [] := by
    refine List.filterMap_eq_nil_iff.mpr fun x hx => ?_
    have hx' := hplain x hx
    cases x with
    | send r => cases hx'
    | socketOpen | socketClose | ping | timer | cancel | peerOpen | peerSignal | peerClose
    | checkAuth => rfl
  unfold Link.sent
  rw [hxs, List.filterMap_append, hnone, List.append_nil]

/-- A handler sends nothing. -/
theorem on_sent : (l.on random e).sent = l.sent := by
  by_cases he : ∀ m, e ≠ .message m
  · exact (on_plainly he).sent
  · simp only [not_forall, not_not] at he
    obtain ⟨m, rfl⟩ := he
    unfold sent
    cases on_answers l random m with
    | ignored hs ha | starting _ _ _ hm hreq hs ha => rw [ha]
    | configured _ _ _ hm hreq hs ha | ended _ _ _ hm hactive hs ha | signal _ hm hpeered hs ha
    | refused _ hm hbegin hs ha =>
      rw [ha, List.filterMap_append]
      exact List.append_nil _

/-- What `reconcile` sends. -/
theorem reconcile_sent : l.reconcile.sent = l.sent ++
    if l.wantsStream = true ∧ l.stream = .idle then [.start]
    else if l.wantsStream = false ∧ l.stream ≠ .idle ∧ l.socket = .open ∧ l.running = true then
      [.stop]
    else [] := by
  cases reconcile_spec l with
  | same heq hiff =>
    have hstart : ¬(l.wantsStream = true ∧ l.stream = .idle) := fun h => hiff.mpr h.1 h.2
    have hstop : ¬(l.wantsStream = false ∧ l.stream ≠ .idle ∧ l.socket = .open ∧
        l.running = true) := fun h => by
      have hwants := hiff.mp h.2.1
      rw [h.1] at hwants
      cases hwants
    rw [heq, if_neg hstart, if_neg hstop, List.append_nil]
  | ends hwants hne hends =>
    rw [if_neg fun h => hne h.2]
    have hsent := hends.plainly.sent
    by_cases hopen : l.socket = .open ∧ l.running = true
    · rw [if_pos (by simp [hopen])] at hsent
      rw [if_pos ⟨hwants, hne, hopen⟩, hsent]
      unfold sent
      rw [push_acts _ rfl, List.filterMap_append]
      rfl
    · have hcond : ¬(decide (l.socket = .open) && l.running) = true := by simpa using hopen
      rw [if_neg hcond] at hsent
      rw [if_neg fun h => hopen h.2.2, hsent, List.append_nil]
  | starts hwants hidle heq =>
    rw [if_pos ⟨hwants, hidle⟩, heq]
    unfold sent
    rw [timer_acts, push_acts _ rfl, List.filterMap_append]
    rfl

/-- What the link does with an event that is no message about its stream. -/
inductive Passes (l l' : Link S J) : Prop
  | starts : l'.sent = [.start] → l'.stream = .requested → Passes l l'
  | stops : l'.sent = [.stop] → l'.stream = .idle → Passes l l'
  | turns : l'.sent = [] → Turns l l' → Passes l l'

/-- An event, and the reconciliation behind it. -/
theorem handle_passes (hturns : Turns l (({ l with effects := [] } : Link S J).on random e)) :
    Passes l (l.handle random e) := by
  obtain ⟨l₁, hl₁⟩ : ∃ l₁, l₁ = ({ l with effects := [] } : Link S J).on random e := ⟨_, rfl⟩
  have hnone : l₁.sent = [] := by
    rw [hl₁]
    exact on_sent
  have hsent : l₁.reconcile.sent = _ := reconcile_sent
  rw [hnone, List.nil_append] at hsent
  have heq : l.handle random e = l₁.reconcile := by
    rw [hl₁]
    rfl
  rw [← hl₁] at hturns
  rw [heq]
  cases reconcile_spec l₁ with
  | same hsame hiff =>
    refine .turns ?_ ?_
    · rw [hsame]
      exact hnone
    · rw [hsame]
      exact hturns
  | ends hwants hne hends =>
    by_cases hstop : l₁.wantsStream = false ∧ l₁.stream ≠ .idle ∧ l₁.socket = .open ∧
        l₁.running = true
    · rw [if_neg fun h => hne h.2, if_pos hstop] at hsent
      exact .stops hsent hends.stream
    · rw [if_neg fun h => hne h.2, if_neg hstop] at hsent
      exact .turns hsent (.inr (.inl hends.stream))
  | starts hwants hidle hstarts =>
    rw [if_pos ⟨hwants, hidle⟩] at hsent
    refine .starts hsent ?_
    rw [hstarts]
    rfl

/-- Such an event opens no peer connection and passes nothing on to it. -/
theorem handle_plain (hplain : Plainly { l with effects := [] }
    (({ l with effects := [] } : Link S J).on random e)) {x : Effect S J}
    (hx : x ∈ (l.handle random e).effects) : x.plain = true ∨ ∃ m, x = .send m := by
  obtain ⟨xs, hxs, hplain⟩ := hplain
  obtain ⟨l₁, hl₁⟩ : ∃ l₁, l₁ = ({ l with effects := [] } : Link S J).on random e := ⟨_, rfl⟩
  have hon : ∀ y ∈ l₁.acts, y.plain = true := by
    rw [hl₁, hxs]
    exact hplain
  have heq : l.handle random e = l₁.reconcile := by
    rw [hl₁]
    rfl
  have hall : ∀ y ∈ l₁.reconcile.acts, y.plain = true ∨ ∃ m, y = .send m := by
    cases reconcile_spec l₁ with
    | same hsame hiff =>
      rw [hsame]
      exact fun y hy => .inl (hon y hy)
    | ends hwants hne hends =>
      rw [hends.acts]
      intro y hy
      rcases List.mem_append.mp hy with hy | hy
      · split at hy
        · rw [push_acts _ rfl] at hy
          rcases List.mem_append.mp hy with hy | hy
          · exact .inl (hon y hy)
          · exact .inr ⟨_, List.mem_singleton.mp hy⟩
        · exact .inl (hon y hy)
      · exact .inl (dropped_plain _ y hy)
    | starts hwants hidle hstarts =>
      rw [hstarts, timer_acts, push_acts _ rfl]
      intro y hy
      rcases List.mem_append.mp hy with hy | hy
      · exact .inl (hon y hy)
      · exact .inr ⟨_, List.mem_singleton.mp hy⟩
  rw [heq] at hx
  by_cases htimer : x.isTimer = true
  · cases x with
    | timer | cancel => exact .inl rfl
    | socketOpen | socketClose | send | ping | peerOpen | peerSignal | peerClose | checkAuth =>
      cases htimer
  · exact hall x (List.mem_filter.mpr ⟨hx, by simpa using htimer⟩)

/-- A message that is no status leaves the socket, the status and the tab. -/
theorem message_same (l : Link S J) (random : ℚ) {m : Message S J}
    (hm : ∀ status, m ≠ .status status) :
    (l.message random m).socket = l.socket ∧ (l.message random m).status = l.status ∧
      (l.message random m).paused = l.paused := by
  have hfail : ∀ reason, (l.fail random reason).socket = l.socket ∧
      (l.fail random reason).status = l.status ∧ (l.fail random reason).paused = l.paused :=
    fun reason =>
      ⟨(fail_spec _ _ _).socket, (fail_spec _ _ _).status, (fail_spec _ _ _).paused⟩
  cases m with
  | status status => exact absurd rfl (hm status)
  | hello device version =>
    obtain ⟨d, v, heq⟩ := hello_eq l random device version
    rw [heq]
    exact ⟨rfl, rfl, rfl⟩
  | stream news servers policy reason =>
    cases news with
    | starting =>
      simp only [message, streamMessage]
      split <;> exact ⟨rfl, rfl, rfl⟩
    | configured =>
      simp only [message, streamMessage]
      split <;> exact ⟨rfl, rfl, rfl⟩
    | ended =>
      simp only [message, streamMessage]
      split
      · exact hfail _
      · exact ⟨rfl, rfl, rfl⟩
    | other => exact ⟨rfl, rfl, rfl⟩
  | jsep data =>
    simp only [message]
    split <;> exact ⟨rfl, rfl, rfl⟩
  | error text =>
    simp only [message]
    split
    · exact hfail _
    · exact ⟨rfl, rfl, rfl⟩
  | other => exact ⟨rfl, rfl, rfl⟩

/-- No message begins or ends the wish for a stream but a status. -/
theorem handle_answers (random : ℚ) {m : Message S J}
    (hm : ∀ status, m ≠ .status status)
    (hwanted : l.stream ≠ .idle ↔ l.wantsStream = true) :
    Answers m { l with effects := [] } (l.handle random (.message m)) ∧
      (l.handle random (.message m)).sent = [] := by
  obtain ⟨l₁, hl₁⟩ : ∃ l₁, l₁ = ({ l with effects := [] } : Link S J).on random (.message m) :=
    ⟨_, rfl⟩
  have hanswers : Answers m { l with effects := [] } l₁ := by
    rw [hl₁]
    exact on_answers _ random m
  have hnone : l₁.sent = [] := by
    rw [hl₁]
    exact on_sent
  have hwants : l₁.wantsStream = l.wantsStream := by
    obtain ⟨l₂, hkeeps, -, heq⟩ :=
      on_message { l with effects := [] } random m
    obtain ⟨hsocket, hstatus, hpaused⟩ := message_same l₂ random hm
    rw [hl₁, heq]
    unfold wantsStream running
    rw [hsocket, hstatus, hpaused, hkeeps.socket, hkeeps.status, hkeeps.paused]
  have hstream : l₁.stream ≠ .idle ↔ l.stream ≠ .idle := by
    cases hanswers with
    | ignored hs ha | signal _ hp hpeered hs ha => rw [hs]
    | starting _ _ _ hp hreq hs ha =>
      have hreq' : l.stream = .requested := hreq
      simp [hs, hreq']
    | configured _ _ _ hp hreq hs ha =>
      have hreq' : l.stream = .requested ∨ l.stream = .starting := hreq
      rcases hreq' with hreq' | hreq' <;> simp [hs, hreq']
    | ended _ _ _ hp hactive hs ha =>
      have hactive' : l.stream.active = true := hactive
      have hne : l.stream ≠ .idle := fun h => by rw [h] at hactive'; cases hactive'
      simp [hs, hne]
    | refused _ hp hbegin hs ha =>
      have hbegin' : l.stream.beginning = true := hbegin
      have hne : l.stream ≠ .idle := fun h => by rw [h] at hbegin'; cases hbegin'
      simp [hs, hne]
  have hsame : l.handle random (.message m) = l₁ := by
    have heq : l.handle random (.message m) = l₁.reconcile := by
      rw [hl₁]
      rfl
    rw [heq]
    cases reconcile_spec l₁ with
    | same heq hiff => exact heq
    | ends hnot hne hends =>
      have hyes := hwanted.mp (hstream.mp hne)
      rw [← hwants, hnot] at hyes
      cases hyes
    | starts hyes hidle heq =>
      rw [hwants] at hyes
      exact absurd hidle (hstream.mpr (hwanted.mpr hyes))
  rw [hsame]
  exact ⟨hanswers, hnone⟩

/-- A start is sent when the event leaves a stream to be wanted where there is none. -/
theorem handle_starts : .send .start ∈ (l.handle random e).effects ↔
    ((({ l with effects := [] } : Link S J).on random e).wantsStream = true ∧
      (({ l with effects := [] } : Link S J).on random e).stream = .idle) := by
  have hnone : (({ l with effects := [] } : Link S J).on random e).sent = [] := on_sent
  rw [← mem_sent]
  unfold handle
  rw [reconcile_sent, hnone, List.nil_append]
  split
  · rename_i h
    exact ⟨fun _ => h, fun _ => List.mem_singleton.mpr rfl⟩
  · rename_i h
    refine ⟨fun hmem => ?_, fun h' => absurd h' h⟩
    split at hmem
    · cases List.mem_singleton.mp hmem
    · cases hmem

end Link

end AndroidAppliance
