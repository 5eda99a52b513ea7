import AndroidAppliance.Dashboard.Link

/-!
# What the helpers of the link do

One lemma for each helper that the handlers share: what becomes of the socket, the tab and
the stream, which timers are armed after it, and what its caller has to do. The effects that
set and cancel timers are left out of the last (`Link.acts`).
-/

namespace AndroidAppliance

open Dashboard

/-- The effect is about a timer. -/
def Dashboard.Effect.isTimer {S J : Type} : Effect S J → Bool
  | .timer _ _ | .cancel _ => true
  | .socketOpen | .socketClose | .send _ | .ping | .peerOpen _ _ | .peerSignal _ | .peerClose
  | .checkAuth => false

namespace Link

variable {S J : Type} {l l' l'' : Link S J} {random : ℚ}

/-- The effects that are not about timers. -/
def acts (l : Link S J) : List (Effect S J) := l.effects.filter (!·.isTimer)

/-- A fold that passes over timers. -/
theorem foldl_acts {β : Type} {f : β → Effect S J → β}
    (hf : ∀ b x, x.isTimer = true → f b x = b) (l : Link S J) (b : β) :
    l.effects.foldl f b = l.acts.foldl f b := by
  have hfold : ∀ (xs : List (Effect S J)) (b : β),
      xs.foldl f b = (xs.filter (!·.isTimer)).foldl f b := by
    intro xs
    induction xs with
    | nil => exact fun _ => rfl
    | cons x xs ih =>
      intro b
      rw [List.foldl_cons]
      cases htimer : x.isTimer with
      | true =>
        rw [hf b x htimer, List.filter_cons_of_neg (by simp [htimer])]
        exact ih b
      | false =>
        rw [List.filter_cons_of_pos (by simp [htimer])]
        exact ih _
  exact hfold l.effects b

/-- A step that leaves the socket, the status, the tab and the stream as they are. -/
structure Keeps (l l' : Link S J) : Prop where
  socket : l'.socket = l.socket
  status : l'.status = l.status
  visible : l'.visible = l.visible
  paused : l'.paused = l.paused
  stream : l'.stream = l.stream

/-- Two steps that keep them. -/
theorem Keeps.trans (h : Keeps l l') (h' : Keeps l' l'') : Keeps l l'' :=
  ⟨h'.socket.trans h.socket, h'.status.trans h.status, h'.visible.trans h.visible,
    h'.paused.trans h.paused, h'.stream.trans h.stream⟩

/-- An effect is added. -/
theorem push_acts (x : Effect S J) (hx : x.isTimer = false) : (l.push x).acts = l.acts ++ [x] := by
  simp [acts, push, hx]

/-- A timer is set. -/
theorem timer_keeps (name : Timer) (ms : ℤ) : Keeps l (l.timer name ms) :=
  ⟨rfl, rfl, rfl, rfl, rfl⟩

/-- A timer is no act. -/
theorem timer_acts (name : Timer) (ms : ℤ) : (l.timer name ms).acts = l.acts := by
  simp [acts, timer, push, Effect.isTimer]

/-- The timer is armed, and the others as they were. -/
theorem timer_armed (name n : Timer) (ms : ℤ) :
    (l.timer name ms).armed n = (decide (n = name) || l.armed n) := rfl

/-! ### `#cancel` -/

/-- The timers are not armed any more, and nothing else has changed. -/
structure Cancels (names : List Timer) (l l' : Link S J) : Prop where
  keeps : Keeps l l'
  armed : ∀ n, l'.armed n = (decide (n ∉ names) && l.armed n)
  acts : l'.acts = l.acts

/-- One timer. -/
theorem cancelOne_cancels (name : Timer) : Cancels [name] l (l.cancelOne name) := by
  unfold cancelOne
  split
  · refine ⟨⟨rfl, rfl, rfl, rfl, rfl⟩, fun n => ?_, ?_⟩
    · simp [push, disarm]
    · simp [Link.acts, push, disarm, Effect.isTimer]
  · rename_i hname
    refine ⟨⟨rfl, rfl, rfl, rfl, rfl⟩, fun n => ?_, rfl⟩
    by_cases hn : n = name
    · subst hn
      simpa using hname
    · simp [hn]

/-- All timers of a list. -/
theorem cancel_cancels (names : List Timer) : Cancels names l (l.cancel names) := by
  induction names generalizing l with
  | nil => exact ⟨⟨rfl, rfl, rfl, rfl, rfl⟩, fun n => by simp [cancel], rfl⟩
  | cons name names ih =>
    have hone := cancelOne_cancels (l := l) name
    have hrest := ih (l := l.cancelOne name)
    refine ⟨hone.keeps.trans hrest.keeps, fun n => ?_, hrest.acts.trans hone.acts⟩
    have hn : (l.cancel (name :: names)).armed n = _ := hrest.armed n
    rw [hn, hone.armed]
    by_cases heq : n = name <;> simp [heq]

/-! ### The stream goes -/

/-- The timers of the stream. -/
def streamTimers : List Timer := [.negotiate, .iceDisconnected, .stable, .streamRetry]

/-- `peer-close`, when there is a stream. -/
def dropped (l : Link S J) : List (Effect S J) :=
  if l.stream = .idle then [] else [.peerClose]

/-- What `endStream` does. -/
structure EndsStream (l l' : Link S J) : Prop where
  socket : l'.socket = l.socket
  status : l'.status = l.status
  visible : l'.visible = l.visible
  paused : l'.paused = l.paused
  stream : l'.stream = .idle
  armed : ∀ n, l'.armed n = (decide (n ∉ streamTimers) && l.armed n)
  acts : l'.acts = l.acts ++ l.dropped

/-- `endStream`. -/
theorem endStream_spec (l : Link S J) : EndsStream l l.endStream := by
  obtain ⟨l₁, hl₁⟩ : ∃ l₁, l₁ = if l.stream ≠ .idle then l.push .peerClose else l := ⟨_, rfl⟩
  have hkeeps : Keeps l l₁ ∧ l₁.armed = l.armed ∧ l₁.acts = l.acts ++ l.dropped := by
    rw [hl₁]
    unfold dropped
    by_cases hidle : l.stream = .idle
    · rw [if_neg (not_not.mpr hidle), if_pos hidle]
      exact ⟨⟨rfl, rfl, rfl, rfl, rfl⟩, rfl, (List.append_nil _).symm⟩
    · rw [if_pos hidle, if_neg hidle]
      exact ⟨⟨rfl, rfl, rfl, rfl, rfl⟩, rfl, push_acts _ rfl⟩
  obtain ⟨hkeeps, harmed, hacts⟩ := hkeeps
  have hcancel := cancel_cancels (l := l₁) streamTimers
  have heq : l.endStream = { l₁.cancel streamTimers with
      stream := .idle, streamAttempts := 0, ice := .new, connection := .new } := by
    rw [hl₁]
    rfl
  rw [heq]
  exact ⟨hcancel.keeps.socket.trans hkeeps.socket, hcancel.keeps.status.trans hkeeps.status,
    hcancel.keeps.visible.trans hkeeps.visible, hcancel.keeps.paused.trans hkeeps.paused, rfl,
    fun n => by rw [← harmed]; exact hcancel.armed n, hcancel.acts.trans hacts⟩

/-- What `fail` does. -/
structure Fails (l l' : Link S J) : Prop where
  socket : l'.socket = l.socket
  status : l'.status = l.status
  visible : l'.visible = l.visible
  paused : l'.paused = l.paused
  stream : l'.stream = .retrying
  armed : ∀ n, l'.armed n = (decide (n = .streamRetry) ||
    decide (n ∉ [Timer.negotiate, .iceDisconnected, .stable]) && l.armed n)
  acts : l'.acts = l.acts ++ [.peerClose]

/-- `fail`. -/
theorem fail_spec (l : Link S J) (random : ℚ) (reason : String) :
    Fails l (l.fail random reason) := by
  have hcancel := cancel_cancels (l := l.push .peerClose)
    [Timer.negotiate, .iceDisconnected, .stable]
  refine ⟨hcancel.keeps.socket, hcancel.keeps.status, hcancel.keeps.visible,
    hcancel.keeps.paused, rfl, fun n => ?_, ?_⟩
  · have hn := hcancel.armed n
    unfold fail
    rw [timer_armed]
    exact congrArg _ hn
  · unfold fail
    rw [timer_acts]
    exact hcancel.acts.trans (push_acts _ rfl)

/-! ### The socket goes -/

/-- What `socketLost` does. -/
structure Loses (opened : Bool) (l l' : Link S J) : Prop where
  socket : l'.socket = .closed
  status : l'.status = none
  visible : l'.visible = l.visible
  paused : l'.paused = l.paused
  stream : l'.stream = .idle
  armed : ∀ n, l'.armed n = (decide (n = .socketRetry) ||
    decide (n ∉ [Timer.ping, .silence, .socketStable]) &&
      (decide (n ∉ streamTimers) && l.armed n))
  acts : l'.acts = l.acts ++ l.dropped ++ if opened then [] else [.checkAuth]

/-- `socketLost`. -/
theorem socketLost_spec (l : Link S J) (random : ℚ) (opened : Bool) :
    Loses opened l (l.socketLost random opened) := by
  have hend := endStream_spec { l with socket := .closed, status := none }
  obtain ⟨l₁, hl₁⟩ : ∃ l₁, l₁ = ({ l with socket := .closed, status := none } :
    Link S J).endStream := ⟨_, rfl⟩
  rw [← hl₁] at hend
  have hcancel := cancel_cancels (l := l₁) [Timer.ping, .silence, .socketStable]
  obtain ⟨l₂, hl₂⟩ : ∃ l₂, l₂ = l₁.cancel [Timer.ping, .silence, .socketStable] := ⟨_, rfl⟩
  rw [← hl₂] at hcancel
  have heq : l.socketLost random opened =
      if opened then { l₂ with socketAttempts := l₂.socketAttempts + 1 }.timer .socketRetry
        (backoffDelay l₂.socketAttempts random)
      else ({ l₂ with socketAttempts := l₂.socketAttempts + 1 }.timer .socketRetry
        (backoffDelay l₂.socketAttempts random)).push .checkAuth := by
    rw [hl₂, hl₁]
    rfl
  have harmed : ∀ n, l₂.armed n = (decide (n ∉ [Timer.ping, .silence, .socketStable]) &&
      (decide (n ∉ streamTimers) && l.armed n)) := fun n => by
    rw [hcancel.armed, hend.armed]
  have hacts : l₂.acts = l.acts ++ l.dropped := hcancel.acts.trans hend.acts
  have hkeeps := hcancel.keeps
  obtain ⟨l₃, hl₃⟩ : ∃ l₃, l₃ = ({ l₂ with socketAttempts := l₂.socketAttempts + 1 } :
    Link S J).timer .socketRetry (backoffDelay l₂.socketAttempts random) := ⟨_, rfl⟩
  have hlost : Keeps l₁ l₃ ∧ (∀ n, l₃.armed n = (decide (n = .socketRetry) || l₂.armed n)) ∧
      l₃.acts = l₂.acts := by
    rw [hl₃]
    exact ⟨⟨hkeeps.socket, hkeeps.status, hkeeps.visible, hkeeps.paused, hkeeps.stream⟩,
      fun _ => rfl, timer_acts _ _⟩
  obtain ⟨hkeeps', harmed', hacts'⟩ := hlost
  rw [heq, ← hl₃]
  have harmed'' : ∀ n, l₃.armed n = (decide (n = .socketRetry) ||
      decide (n ∉ [Timer.ping, .silence, .socketStable]) &&
        (decide (n ∉ streamTimers) && l.armed n)) := fun n => by rw [harmed', harmed]
  cases opened with
  | true =>
    exact ⟨hkeeps'.socket.trans hend.socket, hkeeps'.status.trans hend.status,
      hkeeps'.visible.trans hend.visible, hkeeps'.paused.trans hend.paused,
      hkeeps'.stream.trans hend.stream, harmed'',
      (hacts'.trans hacts).trans (List.append_nil _).symm⟩
  | false =>
    refine ⟨hkeeps'.socket.trans hend.socket, hkeeps'.status.trans hend.status,
      hkeeps'.visible.trans hend.visible, hkeeps'.paused.trans hend.paused,
      hkeeps'.stream.trans hend.stream, harmed'', ?_⟩
    have hpush : (l₃.push .checkAuth).acts = l₃.acts ++ [.checkAuth] := push_acts _ rfl
    exact hpush.trans (congrArg (· ++ _) (hacts'.trans hacts))

/-! ### `#peer` -/

/-- What `peer` does with the states of a peer connection. -/
inductive Peers (ice : IceState) (connection : ConnectionState) (l l' : Link S J) : Prop
  /-- There is nothing to do. -/
  | same : l' = { l with ice, connection } → Peers ice connection l l'
  | connected : l.stream.peered = true → connection = .connected →
      l' = ({ l with ice, connection, stream := .live, streamReason := "" }.cancel
        [.negotiate, .iceDisconnected]).timer .stable stableMs → Peers ice connection l l'
  | disconnected : l.stream.peered = true → connection = .disconnected →
      l' = ({ l with ice, connection } : Link S J).timer .iceDisconnected disconnectedMs →
      Peers ice connection l l'
  | failed : l.stream.peered = true → connection = .failed → Fails { l with ice, connection } l' →
      Peers ice connection l l'

/-- The handler of the connection. -/
theorem peer_spec (l : Link S J) (random : ℚ) (ice : IceState) (connection : ConnectionState) :
    Peers ice connection l (l.peer random ice connection) := by
  by_cases hpeered : l.stream.peered = true
  · cases connection with
    | connected => exact .connected hpeered rfl (by simp [peer, hpeered])
    | disconnected =>
      by_cases hice : l.armed .iceDisconnected = true
      · exact .same (by simp [peer, hpeered, hice])
      · exact .disconnected hpeered rfl (by simp [peer, hpeered, hice])
    | failed =>
      have heq : l.peer random ice .failed =
          ({ l with ice, connection := .failed } : Link S J).fail random
            "The video connection failed." := by simp [peer, hpeered]
      rw [heq]
      exact .failed hpeered rfl (fail_spec _ _ _)
    | new | connecting | closed => exact .same (by simp [peer, hpeered])
  · exact .same (by simp [peer, hpeered])

/-! ### `#message` -/

/-- `hello` is about the device and the version. -/
theorem hello_eq (l : Link S J) (random : ℚ) (device : Option (ℚ × ℚ)) (version : Option String) :
    ∃ d v, l.message random (.hello device version) = { l with device := d, version := v } := by
  cases device with
  | none => exact ⟨_, _, rfl⟩
  | some size =>
    obtain ⟨width, height⟩ := size
    by_cases hsize : 0 < width ∧ 0 < height
    · refine ⟨(width, height), version <|> l.version, ?_⟩
      simp only [message, if_pos hsize]
    · refine ⟨l.device, version <|> l.version, ?_⟩
      simp only [message, if_neg hsize]

/-! ### `#reconcile` -/

/-- What `reconcile` does. -/
inductive Reconciles (l l' : Link S J) : Prop
  /-- A stream is there exactly when one is wanted. -/
  | same : l' = l → (l.stream ≠ .idle ↔ l.wantsStream = true) → Reconciles l l'
  /-- A stream that is not wanted any more. -/
  | ends : l.wantsStream = false → l.stream ≠ .idle →
      EndsStream (if l.socket = .open && l.running then l.push (.send .stop) else l) l' →
      Reconciles l l'
  /-- A new stream. -/
  | starts : l.wantsStream = true → l.stream = .idle →
      l' = (({ l with stream := .requested } : Link S J).push (.send .start)).timer .negotiate
        negotiateMs → Reconciles l l'

/-- `reconcile`. -/
theorem reconcile_spec (l : Link S J) : Reconciles l l.reconcile := by
  unfold reconcile
  cases hwants : l.wantsStream with
  | false =>
    rw [Bool.not_false, if_pos rfl]
    by_cases hidle : l.stream = .idle
    · rw [if_pos hidle]
      exact .same rfl ⟨fun hne => absurd hidle hne, fun h => by rw [hwants] at h; cases h⟩
    · rw [if_neg hidle]
      exact .ends hwants hidle (endStream_spec _)
  | true =>
    rw [if_neg (by simp)]
    by_cases hidle : l.stream = .idle
    · rw [if_pos hidle]
      exact .starts hwants hidle rfl
    · rw [if_neg hidle]
      exact .same rfl ⟨fun _ => hwants, fun _ => hidle⟩

end Link

end AndroidAppliance
