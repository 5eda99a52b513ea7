import AndroidAppliance.Dashboard.Events

/-!
# Streams start on fresh news

What `web/js/main.js` does with the statuses of the link: `onMessage` counts the ones of the
socket (`statusSeq`), and `run` takes the one of an HTTP reply only when none came in the
meantime. `Main.heard` is not in the source: it holds the statuses since the socket opened.

A stream is to start only when the last of these says that Android runs. The status of an
HTTP reply that arrives while there is no socket outlives the opening of the next one, so
this holds of the runs that open no socket, and show no tab, on such a status
(`starts_fresh`).
-/

namespace AndroidAppliance

namespace Dashboard

variable {S J : Type}

/-- The page, with the statuses that arrived since the socket opened, the last one first. -/
structure Main (S J : Type) where
  link : Link S J
  statusSeq : Nat
  /-- The commands that run, with the `statusSeq` that they have `seen`. -/
  runs : List Nat
  heard : List Status
  /-- The effects of the event. -/
  ran : List (Effect S J)

namespace Main

/-- What happens to the page. -/
inductive Event (S J : Type)
  /-- An event of the browser, a timer or the user. -/
  | browser (e : Dashboard.Event S J)
  /-- A message of the socket. -/
  | message (m : Message S J)
  | run
  /-- The reply to a command. -/
  | answered (i : Nat) (status : Status)
  | refused (i : Nat)

/-- `dispatch`. -/
def dispatch (m : Main S J) (random : ℚ) (e : Dashboard.Event S J) : Main S J :=
  let link := m.link.handle random e
  { m with link, ran := link.effects }

/-- A status is dispatched. -/
def hear (m : Main S J) (random : ℚ) (status : Status) : Main S J :=
  { m.dispatch random (.message (.status status)) with heard := status :: m.heard }

/-- `onMessage`. -/
def onMessage (m : Main S J) (random : ℚ) : Message S J → Main S J
  | .status status => { m with statusSeq := m.statusSeq + 1 }.hear random status
  | message => m.dispatch random (.message message)

/-- The rest of `run`, for the command that has seen `seen`. -/
def finish (m : Main S J) (random : ℚ) (seen : Nat) (status : Status) : Main S J :=
  if seen = m.statusSeq then m.hear random status else { m with ran := [] }

/-- One event. -/
def step (m : Main S J) (random : ℚ) : Event S J → Option (Main S J)
  | .browser (.message _) => none
  | .browser .socketOpen =>
    if m.link.Delivers .socketOpen then some { m.dispatch random .socketOpen with heard := [] }
    else none
  | .browser e => if m.link.Delivers e then some (m.dispatch random e) else none
  | .message message => if m.link.socket = .open then some (m.onMessage random message) else none
  | .run => some { m with runs := m.runs ++ [m.statusSeq], ran := [] }
  | .answered i status => m.runs[i]?.map fun seen =>
    { m with runs := m.runs.eraseIdx i }.finish random seen status
  | .refused i => m.runs[i]?.map fun _ => { m with runs := m.runs.eraseIdx i, ran := [] }

/-- A status that says that Android runs came since the socket opened, and none after it says
otherwise. -/
def Fresh (m : Main S J) : Prop :=
  ∃ status, m.heard.head? = some status ∧ status.state = some "running"

/-- If the event starts a stream, the last status says that Android runs. -/
def FreshStart (m : Main S J) (e : Event S J × ℚ) : Prop :=
  ∀ m', m.step e.2 e.1 = some m' → .send .start ∈ m'.ran → m'.Fresh

/-- No socket opens, and no tab is shown again, while the link has a status saying that
Android runs from before the socket opened. -/
def Settled (m : Main S J) (e : Event S J × ℚ) : Prop :=
  match e.1 with
  | .browser .socketOpen => ¬(m.link.running = true ∧ m.link.paused = false)
  | .browser (.visibility true) =>
    ¬(m.link.socket = .open ∧ m.link.running = true ∧ m.link.paused = true ∧ m.heard = [])
  | _ => True

end Main

/-- The machine of the page, with the random numbers. -/
def mainMachine (S J : Type) : Machine (Main S J) (Main.Event S J × ℚ) where
  Init m := ∃ random, m = Main.dispatch
    { link := .new, statusSeq := 0, runs := [], heard := [], ran := [] } random .start
  step m e := m.step e.2 e.1

namespace Main

variable {l : Link S J} {heard : List Status} {m m' : Main S J} {random : ℚ}

/-- What holds after every event of a settled run. -/
structure Ok (l : Link S J) (heard : List Status) : Prop where
  wanted : l.stream ≠ .idle ↔ l.wantsStream = true
  known : l.socket = .open → ∀ status, heard.head? = some status → l.status = some status
  /-- A status from before the socket opened has started no stream. -/
  old : l.socket = .open → l.running = true → heard = [] → l.paused = true

theorem handle_wanted (l : Link S J) (random : ℚ) (e : Dashboard.Event S J) :
    (l.handle random e).stream ≠ .idle ↔ (l.handle random e).wantsStream = true :=
  Link.reconcile_wanted _

theorem running_congr {l l' : Link S J} (h : l'.status = l.status) : l'.running = l.running := by
  unfold Link.running
  rw [h]

/-- An event that brings no status and opens no socket. -/
theorem Ok.dispatch {e : Dashboard.Event S J} (h : Ok l heard) (hopen : e ≠ .socketOpen)
    (hmessage : ∀ status, e ≠ .message (.status status))
    (hshown : e = .visibility true →
      ¬(l.socket = .open ∧ l.running = true ∧ l.paused = true ∧ heard = [])) :
    Ok (l.handle random e) heard := by
  refine ⟨handle_wanted _ _ _, ?_, ?_⟩
  · intro hsocket status hhead
    cases Link.handle_takes l random e with
    | heard st he => exact absurd he (hmessage st)
    | lost hk =>
      rw [hk] at hsocket
      cases hsocket
    | opened he => exact absurd he hopen
    | shown he hk hs hp => exact hs.trans (h.known (hk.symm.trans hsocket) status hhead)
    | other hk hs hp => exact hs.trans (h.known (hk hsocket) status hhead)
  · intro hsocket hrunning hnil
    cases Link.handle_takes l random e with
    | heard st he => exact absurd he (hmessage st)
    | lost hk =>
      rw [hk] at hsocket
      cases hsocket
    | opened he => exact absurd he hopen
    | shown he hk hs hp =>
      have hopened := hk.symm.trans hsocket
      have hrun := (running_congr hs).symm.trans hrunning
      exact absurd ⟨hopened, hrun, h.old hopened hrun hnil, hnil⟩ (hshown he)
    | other hk hs hp =>
      exact hp (h.old (hk hsocket) ((running_congr hs).symm.trans hrunning) hnil)

/-- A status arrives. -/
theorem Ok.hear (status : Status) :
    Ok (l.handle random (.message (.status status))) (status :: heard) := by
  refine ⟨handle_wanted _ _ _, ?_, nofun⟩
  intro hsocket st hhead
  cases hhead
  have hstatus : (({ l with effects := [] } : Link S J).on random
      (.message (.status status))).status = some status := rfl
  exact (Link.reconcile_keeps _).2.1.trans hstatus

/-- The socket opens, and the statuses of the last one do not count. -/
theorem Ok.opened (hold : ¬(l.running = true ∧ l.paused = false)) :
    Ok (l.handle random .socketOpen) [] := by
  refine ⟨handle_wanted _ _ _, nofun, ?_⟩
  intro _ hrunning _
  obtain ⟨-, hstatus, hpaused⟩ :=
    Link.reconcile_keeps (({ l with effects := [] } : Link S J).on random .socketOpen)
  have hrun : l.running = true := (running_congr hstatus).symm.trans hrunning
  have hpause : (l.handle random .socketOpen).paused = l.paused := hpaused
  rw [hpause, ← Bool.not_eq_false]
  exact fun hshown => hold ⟨hrun, hshown⟩

/-! ### Steps -/

/-- What a step is for the link. -/
inductive Steps (m : Main S J) (random : ℚ) (e : Event S J) (m' : Main S J) : Prop
  | opened : e = .browser .socketOpen → m.link.socket = .connecting →
      m' = { m.dispatch random .socketOpen with heard := [] } → Steps m random e m'
  | dispatched (d : Dashboard.Event S J) : d ≠ .socketOpen → e ≠ .browser .socketOpen →
      (∀ status, d ≠ .message (.status status)) →
      (∀ visible, e = .browser (.visibility visible) ↔ d = .visibility visible) →
      m'.link = m.link.handle random d → m'.heard = m.heard → m'.ran = m'.link.effects →
      Steps m random e m'
  | heard (status : Status) : (∀ b, e ≠ .browser b) →
      m'.link = m.link.handle random (.message (.status status)) →
      m'.heard = status :: m.heard → m'.ran = m'.link.effects → Steps m random e m'
  | quiet : (∀ b, e ≠ .browser b) → m'.link = m.link → m'.heard = m.heard → m'.ran = [] →
      Steps m random e m'

theorem step_steps {e : Event S J} (h : m.step random e = some m') : Steps m random e m' := by
  cases e with
  | browser d =>
    have hplain : d ≠ .socketOpen → (∀ message, d ≠ .message message) →
        (if m.link.Delivers d then some (m.dispatch random d) else none) = some m' →
        Steps m random (.browser d) m' := by
      intro hopen hmessage hd
      split at hd
      · cases hd
        exact .dispatched d hopen (fun h => hopen (Event.browser.inj h)) (fun _ => hmessage _)
          (fun visible => ⟨fun h => Event.browser.inj h, fun h => congrArg _ h⟩) rfl rfl rfl
      · cases hd
    cases d with
    | message => cases h
    | socketOpen =>
      have hopened : (if m.link.Delivers .socketOpen then
          some { m.dispatch random .socketOpen with heard := [] } else none) = some m' := h
      split at hopened
      · rename_i hconnecting
        cases hopened
        exact .opened rfl hconnecting rfl
      · cases hopened
    | start | socketClose | timer | peer | froze | visibility | retry =>
      exact hplain nofun nofun h
  | message message =>
    have hopen : (if m.link.socket = .open then some (m.onMessage random message) else none) =
        some m' := h
    split at hopen
    · cases hopen
      by_cases hstatus : ∃ status, message = .status status
      · obtain ⟨status, rfl⟩ := hstatus
        exact .heard status nofun rfl rfl rfl
      · have heq : m.onMessage random message = m.dispatch random (.message message) := by
          cases message with
          | status status => exact absurd ⟨status, rfl⟩ hstatus
          | hello | stream | jsep | error | other => rfl
        rw [heq]
        exact .dispatched (.message message) nofun nofun
          (fun status h => hstatus ⟨status, Dashboard.Event.message.inj h⟩)
          (fun _ => ⟨nofun, nofun⟩) rfl rfl rfl
    · cases hopen
  | run =>
    cases h
    exact .quiet nofun rfl rfl rfl
  | answered i status =>
    obtain ⟨seen, -, rfl⟩ := Option.map_eq_some_iff.mp h
    unfold finish
    split
    · exact .heard status nofun rfl rfl rfl
    · exact .quiet nofun rfl rfl rfl
  | refused i =>
    obtain ⟨seen, -, rfl⟩ := Option.map_eq_some_iff.mp h
    exact .quiet nofun rfl rfl rfl

theorem Ok.step {e : Event S J × ℚ} (h : Ok m.link m.heard) (hsettled : m.Settled e)
    (hstep : m.step e.2 e.1 = some m') : Ok m'.link m'.heard := by
  obtain ⟨e, random⟩ := e
  cases step_steps hstep with
  | opened he hconnecting hm =>
    subst he
    rw [hm]
    exact Ok.opened hsettled
  | dispatched d hopen hbrowser hstatus hvisible hlink hheard hran =>
    rw [hlink, hheard]
    refine h.dispatch hopen hstatus fun hd => ?_
    have he : e = .browser (.visibility true) := (hvisible true).mpr hd
    subst he
    exact hsettled
  | heard status he hlink hheard hran =>
    rw [hlink, hheard]
    exact .hear status
  | quiet he hlink hheard hran =>
    rw [hlink, hheard]
    exact h

/-- A stream starts only where it is wanted. -/
theorem Steps.wanted {e : Event S J} (h : Steps m random e m') (hstart : .send .start ∈ m'.ran) :
    m'.link.wantsStream = true := by
  have hhandled : ∀ d, m'.link = m.link.handle random d → m'.ran = m'.link.effects →
      m'.link.wantsStream = true := by
    intro d hlink hran
    rw [hran, hlink] at hstart
    rw [hlink]
    exact (Link.reconcile_wantsStream _).trans (Link.handle_starts.mp hstart).1
  cases h with
  | opened he hconnecting hm => exact hhandled .socketOpen (hm ▸ rfl) (hm ▸ rfl)
  | dispatched d hopen hbrowser hstatus hvisible hlink hheard hran => exact hhandled d hlink hran
  | heard status he hlink hheard hran => exact hhandled _ hlink hran
  | quiet he hlink hheard hran =>
    rw [hran] at hstart
    cases hstart

/-- Where a stream is wanted, the news are fresh. -/
theorem Ok.fresh (h : Ok m.link m.heard) (hwants : m.link.wantsStream = true) : m.Fresh := by
  have hparts : (m.link.socket = .open ∧ m.link.running = true) ∧ m.link.paused = false := by
    simpa [Link.wantsStream] using hwants
  obtain ⟨⟨hopen, hrunning⟩, hpaused⟩ := hparts
  cases hheard : m.heard with
  | nil =>
    have hpaused' := h.old hopen hrunning hheard
    rw [hpaused] at hpaused'
    cases hpaused'
  | cons status rest =>
    have hhead : m.heard.head? = some status := by rw [hheard]; rfl
    refine ⟨status, hhead, ?_⟩
    have hstatus := h.known hopen status hhead
    simpa [Link.running, hstatus] using hrunning

/-- A link with no stream starts one when the event makes it wanted. -/
theorem starts_stream (random : ℚ) (d : Dashboard.Event S J) (hidle : l.wantsStream = false)
    (hwanted : l.stream ≠ .idle ↔ l.wantsStream = true)
    (hstream : (({ l with effects := [] } : Link S J).on random d).stream = l.stream)
    (hwants : (({ l with effects := [] } : Link S J).on random d).wantsStream = true) :
    .send .start ∈ (l.handle random d).effects := by
  refine Link.handle_starts.mpr ⟨hwants, hstream.trans ?_⟩
  by_contra hne
  rw [hwanted.mp hne] at hidle
  cases hidle

/-- In a settled state exactly the settled steps start their streams on fresh news. -/
theorem Ok.freshStart_iff {e : Event S J × ℚ} (h : Ok m.link m.heard)
    (hstep : m.step e.2 e.1 = some m') : m.FreshStart e ↔ m.Settled e := by
  constructor
  · intro hfresh
    have hfresh' := hfresh m' hstep
    obtain ⟨e, random⟩ := e
    cases step_steps hstep with
    | opened he hconnecting hm =>
      subst he
      rintro ⟨hrunning, hpaused⟩
      have hidle : m.link.wantsStream = false := by simp [Link.wantsStream, hconnecting]
      have hwants : (({ m.link with effects := [] } : Link S J).on random
          .socketOpen).wantsStream = true := by
        have hrun : (({ m.link with effects := [] } : Link S J).on random
            .socketOpen).running = true := hrunning
        have hpause : (({ m.link with effects := [] } : Link S J).on random
            .socketOpen).paused = false := hpaused
        unfold Link.wantsStream
        rw [hrun, hpause]
        rfl
      rw [hm] at hfresh'
      obtain ⟨status, hhead, -⟩ := hfresh' (starts_stream _ _ hidle h.wanted rfl hwants)
      cases hhead
    | dispatched d hopen hbrowser hstatus hvisible hlink hheard hran =>
      by_cases he : e = .browser (.visibility true)
      · have hd := (hvisible true).mp he
        subst he hd
        rintro ⟨hsocket, hrunning, hpaused, hnil⟩
        have hidle : m.link.wantsStream = false := by simp [Link.wantsStream, hpaused]
        have hcancel := Link.cancel_cancels [Timer.hidden]
          (l := ({ m.link with effects := [], visible := true } : Link S J))
        have hwants : (({ m.link with effects := [] } : Link S J).on random
            (.visibility true)).wantsStream = true := by
          have hsocket' : (({ m.link with effects := [] } : Link S J).on random
              (.visibility true)).socket = .open := hcancel.keeps.socket.trans hsocket
          have hrun : (({ m.link with effects := [] } : Link S J).on random
              (.visibility true)).running = true :=
            (running_congr hcancel.keeps.status).trans hrunning
          unfold Link.wantsStream
          rw [hsocket', hrun]
          rfl
        have hstart := starts_stream random (.visibility true) hidle h.wanted
          hcancel.keeps.stream hwants
        rw [← hlink, ← hran] at hstart
        obtain ⟨status, hhead, -⟩ := hfresh' hstart
        rw [hheard, hnil] at hhead
        cases hhead
      · unfold Settled
        split
        · rename_i heq
          exact absurd heq hbrowser
        · rename_i heq
          exact absurd heq he
        · trivial
    | heard status he | quiet he =>
      unfold Settled
      split
      · rename_i heq
        exact absurd heq (he _)
      · rename_i heq
        exact absurd heq (he _)
      · trivial
  · intro hsettled m'' hm'' hstart
    exact (h.step hsettled hm'').fresh ((step_steps hm'').wanted hstart)

end Main

open Main

/-- In every run, all streams start on fresh news exactly when all steps are settled. -/
theorem starts_fresh {m m' : Main S J} {es : List (Main.Event S J × ℚ)}
    (h : (mainMachine S J).Init m) (hrun : (mainMachine S J).run m es = some m') :
    (mainMachine S J).RunOk FreshStart m es ↔ (mainMachine S J).RunOk Settled m es := by
  obtain ⟨random, rfl⟩ := h
  have hok : Ok (Link.new.handle random .start : Link S J) [] :=
    ⟨⟨nofun, nofun⟩, nofun, nofun⟩
  exact Machine.RunOk.iff_of_invariant (I := fun m => Ok m.link m.heard)
    (fun m e t hm hsettled ht => hm.step hsettled ht) (fun m e t hm ht => hm.freshStart_iff ht)
    hok hrun

/-- Android runs on a quiet socket, and the reply to a command says so. -/
def settledRun : List (Main.Event Unit Unit) :=
  [.browser .socketOpen, .run, .answered 0 ⟨some "running", none⟩]

theorem starts_fresh_reply : ∃ m : Main Unit Unit, .send .start ∈ m.ran ∧
    (mainMachine Unit Unit).RunOk FreshStart (Main.dispatch
      { link := .new, statusSeq := 0, runs := [], heard := [], ran := [] } 0 .start)
      (settledRun.map (·, 0)) := by
  obtain ⟨m, hrun, hran⟩ : ∃ m, (mainMachine Unit Unit).run (Main.dispatch
      { link := .new, statusSeq := 0, runs := [], heard := [], ran := [] } 0 .start)
      (settledRun.map (·, 0)) = some m ∧
      m.ran = [.timer .silence 25000, .send .start, .timer .negotiate 15000] := ⟨_, rfl, rfl⟩
  refine ⟨m, by simp [hran], (starts_fresh ⟨0, rfl⟩ hrun).mpr ?_⟩
  exact ⟨fun h => (nomatch h.1), fun _ _ => ⟨trivial, fun _ _ => ⟨trivial, fun _ _ => trivial⟩⟩⟩

/-- The reply to a command comes while there is no socket, and the next one opens. -/
def staleRun : List (Main.Event Unit Unit) :=
  [.browser .socketOpen, .run, .browser (.socketClose true),
    .answered 0 ⟨some "running", none⟩, .browser (.timer .socketRetry)]

theorem stale_start : ¬ ∀ (m m' : Main Unit Unit) (es : List (Main.Event Unit Unit × ℚ)),
    (mainMachine Unit Unit).Init m → (mainMachine Unit Unit).run m es = some m' →
    (mainMachine Unit Unit).RunOk FreshStart m es := by
  intro h
  obtain ⟨m, m', hrun, hall, hstep, hran, hheard⟩ : ∃ m m' : Main Unit Unit,
      (mainMachine Unit Unit).run (Main.dispatch
        { link := .new, statusSeq := 0, runs := [], heard := [], ran := [] } 0 .start)
        (staleRun.map (·, 0)) = some m ∧
      (mainMachine Unit Unit).run (Main.dispatch
        { link := .new, statusSeq := 0, runs := [], heard := [], ran := [] } 0 .start)
        (staleRun.map (·, 0) ++ [(.browser .socketOpen, 0)]) = some m' ∧
      m.step 0 (.browser .socketOpen) = some m' ∧
      m'.ran = [.timer .ping 10000, .timer .silence 25000, .timer .socketStable 8000,
        .send .start, .timer .negotiate 15000] ∧ m'.heard = [] :=
    ⟨_, _, rfl, rfl, rfl, rfl, rfl⟩
  have hlast := (h _ m' _ ⟨0, rfl⟩ hall).last hrun
  obtain ⟨status, hhead, -⟩ := hlast m' hstep (by simp [hran])
  rw [hheard] at hhead
  cases hhead

end Dashboard

end AndroidAppliance
