import AndroidAppliance.Turn.Calls

/-!
# The secret of the running turnserver

The supervising task keeps `Ok`, and with it every step that meets `TurnOk` does. In every run
of such steps a running turnserver has the current secret, and no two are alive
(`turn_agrees`).
-/

namespace AndroidAppliance

namespace Turn

variable {d d' : Turn} {c t : Nat} {k : Call} {u : Task}

namespace Ok

/-! ### The supervising task -/

/-- The task of a `start` begins, with the process that the call has executed. -/
theorem started (h : d.Ok) (hc : d.calls[c]? = some k) (hpc : k.pc ≠ .ended)
    (hgather : k.pc.gathers = false) (hreq : k.request ≠ .stop) {q reader : Option Nat}
    (hq : q = k.pc.on ∨ q = d.proc ∧ k.pc.on = none)
    (hsecret : ∀ p x, k.pc.on = some p → d.procs[p]? = some x → x.secret = d.secret) :
    (({ d with proc := q, reader } : Turn).started c k.pc.on).Ok := by
  have htask := h.task_none hc hpc
  have hdone : ∀ {t : Nat} {u : Task}, d.tasks[t]? = some u → u.pc = .ended := by
    intro t u hu
    by_contra hupc
    rcases h.tasks t u hu hupc with hcur | ⟨-, c', k', hk', hg⟩
    · rw [htask] at hcur
      cases hcur
    · by_cases hne : c' = c
      · subst hne
        cases hk'.symm.trans hc
        rw [hg] at hgather
        cases hgather
      · rw [h.others hc hpc hk' hne (.inl hreq)] at hg
        cases hg
  have hidle : (({ d with proc := q, reader } : Turn).started c k.pc.on).Idle := by
    intro k' hk'
    obtain ⟨c', hc'⟩ := List.mem_iff_getElem?.mp hk'
    obtain ⟨y, hy, ⟨rfl, rfl⟩ | ⟨hne, rfl⟩⟩ := Table.cases_modify hc'
    · rfl
    · exact h.others hc hpc hy (Ne.symm hne) (.inl hreq)
  have hended : ∀ {c' : Nat} {k' : Call},
      (({ d with proc := q, reader } : Turn).started c k.pc.on).calls[c']? = some k' →
        k'.pc = .ended := fun hk' => hidle _ (List.mem_of_getElem? hk')
  have hnew : ∀ {t : Nat} {u : Task},
      (({ d with proc := q, reader } : Turn).started c k.pc.on).tasks[t]? = some u →
        u.pc ≠ .ended → t = d.tasks.length ∧ u.pc = .created k.pc.on := by
    intro t u hu hupc
    rcases Table.cases_append hu with hold | ⟨rfl, rfl⟩
    · exact absurd (hdone hold) hupc
    · exact ⟨rfl, rfl⟩
  have hon : ∀ p, d.isOpen p = true → k.pc.on = some p := h.call c k hc hpc hgather
  exact {
    reaped := h.reaped
    last := h.last
    holder := fun p hp => by
      rcases hq with hq | ⟨-, hnone⟩
      · exact .inl (hq.trans (hon p hp))
      · rw [hon p hp] at hnone
        cases hnone
    call := fun c' k' hk' hpc' => absurd (hended hk') hpc'
    worker := fun t u hu hupc p hp => by
      rw [(hnew hu hupc).2]
      exact hon p hp
    alone := fun c' k' hk' _ hpc' => absurd (hended hk') hpc'
    idle := fun _ _ => hidle
    tasks := fun t u hu hupc => .inl (congrArg some (hnew hu hupc).1.symm)
    proc := fun _ => .inl (Option.some_ne_none _)
    running := fun _ p x hp hopen hx => hsecret p x (hon p hopen) hx
    respawn := fun t u p x _ hu hupc => by
      have hcreated := (hnew hu (by rw [hupc]; exact TaskPc.noConfusion)).2
      rw [hupc] at hcreated
      cases hcreated
    restart := fun c' k' p x hk' hpc' => by
      rw [hended hk'] at hpc'
      cases hpc'
    spawns := fun c' k' s hk' hpc' => by
      rw [hended hk'] at hpc'
      cases hpc' }

/-- A task moves on, and perhaps makes its process the one of `Turn`. -/
theorem work (h : d.Ok) (hu : d.tasks[t]? = some u) (hupc : u.pc ≠ .ended) (pc : TaskPc)
    (q reader : Option Nat)
    (hq : q = d.proc ∨ d.task = some t ∧ ∃ p, u.pc = .spawning (.executing p) ∧ q = some p)
    (hon : pc ≠ .ended → ∀ p, d.isOpen p = true → pc.on = some p)
    (hheld : ∀ p, d.isOpen p = true → u.pc.owns = some p → pc.owns = some p ∨ q = some p)
    (hexec : ∀ p, pc ≠ .spawning (.executing p)) :
    (({ d with proc := q, reader } : Turn).setTask t pc).Ok := by
  have hcase : ∀ {t' : Nat} {u' : Task},
      (({ d with proc := q, reader } : Turn).setTask t pc).tasks[t']? = some u' →
        t' = t ∧ u' = { u with pc } ∨ t' ≠ t ∧ d.tasks[t']? = some u' :=
    fun hu' => cases_setTask (d := { d with proc := q, reader }) hu' hu
  have hself : (({ d with proc := q, reader } : Turn).setTask t pc).tasks[t]? =
      some { u with pc } := setTask_self (d := { d with proc := q, reader }) hu
  exact { h with
    holder := fun p hp => by
      rcases h.holder p hp with hd | hcall | ⟨t', u', hu', howns⟩
      · rcases hq with rfl | ⟨-, p', hexec', rfl⟩
        · exact .inl hd
        · have hon' := h.worker t u hu hupc p hp
          rw [hexec'] at hon'
          exact .inl hon'
      · exact .inr (.inl hcall)
      · by_cases hne : t' = t
        · subst hne
          cases hu'.symm.trans hu
          rcases hheld p hp howns with hpc | hqp
          · exact .inr (.inr ⟨t', _, hself, hpc⟩)
          · exact .inl hqp
        · exact .inr (.inr ⟨t', u', setTask_ne (d := { d with proc := q, reader }) hne hu', howns⟩)
    worker := fun t' u' hu' hpc' p hp => by
      rcases hcase hu' with ⟨rfl, rfl⟩ | ⟨-, hold⟩
      · exact hon hpc' p hp
      · exact h.worker t' u' hold hpc' p hp
    tasks := fun t' u' hu' hpc' => by
      rcases hcase hu' with ⟨rfl, rfl⟩ | ⟨-, hold⟩
      · exact h.tasks t' u hu hupc
      · exact h.tasks t' u' hold hpc'
    proc := fun hne => by
      rcases hq with rfl | ⟨hcur, -⟩
      · exact h.proc hne
      · refine .inl ?_
        have hcur' : (({ d with proc := q, reader } : Turn).setTask t pc).task = some t := hcur
        rw [hcur']
        exact Option.some_ne_none t
    running := fun hno p x hp hopen hx => by
      rcases hq with rfl | ⟨hcur, p', hexec', rfl⟩
      · exact h.running hno p x hp hopen hx
      · have hpp : p' = p := Option.some.inj hp
        exact h.respawn t u p x hcur hu (hpp ▸ hexec') hx
    respawn := fun t' u' p x ht' hu' hpc' hx => by
      rcases hcase hu' with ⟨rfl, rfl⟩ | ⟨-, hold⟩
      · exact absurd hpc' (hexec p)
      · exact h.respawn t' u' p x ht' hold hpc' hx }

/-- A task that was not cancelled is the supervising one. -/
theorem current (h : d.Ok) (hu : d.tasks[t]? = some u) (hpc : u.pc ≠ .ended)
    (hcan : u.cancelled = false) : d.task = some t := by
  rcases h.tasks t u hu hpc with hcur | ⟨hyes, -⟩
  · exact hcur
  · rw [hcan] at hyes
    cases hyes

/-! ### Steps -/

/-- A call goes on after its wait. -/
theorem callStep (h : d.Ok) (hc : d.calls[c]? = some k) {ok : Bool}
    (hstep : d.callStep c k ok = some d') : d'.Ok := by
  obtain ⟨r, pc⟩ := k
  cases pc with
  | gathering t =>
    simp only [Turn.callStep] at hstep
    split at hstep
    · rename_i hdone
      cases hstep
      obtain ⟨u, hu, hend⟩ := Option.any_eq_true _ _ |>.mp hdone
      have hpc : (CallPc.gathering t) ≠ .ended := CallPc.noConfusion
      refine h.terminate hc rfl (fun t' ht' => ?_) (fun _ => rfl) (h.task_none hc hpc)
        (fun _ c' k' hk' => h.others hc hpc hk')
      cases ht'
      exact ⟨u, hu, of_decide_eq_true hend⟩
    · cases hstep
  | terminating p =>
    have hpc : (CallPc.terminating p) ≠ .ended := CallPc.noConfusion
    simp only [Turn.callStep] at hstep
    split at hstep
    · split at hstep
      · cases hstep
      · rename_i hclosed
        cases hstep
        exact h.drain hc (p := p) rfl rfl (by simpa using hclosed)
    · cases hstep
      refine h.move hc (.killing p) d.proc (.inl rfl) (fun _ _ => h.call c _ hc hpc rfl)
        (fun q _ hq => hq) (fun _ => ⟨h.task_none hc hpc, fun c' k' hk' => h.others hc hpc hk'⟩)
        (fun t ht => ?_) (fun hg => ?_) (fun _ hend => ?_) (fun q x hq => ?_) (fun s hs => ?_)
      · cases ht
      · cases hg
      · cases hend
      · cases hq
      · cases hs
  | killing p =>
    simp only [Turn.callStep] at hstep
    split at hstep
    · cases hstep
    · rename_i hclosed
      cases hstep
      exact h.drain hc (p := p) rfl rfl (by simpa using hclosed)
  | draining p =>
    have hpc : (CallPc.draining p) ≠ .ended := CallPc.noConfusion
    simp only [Turn.callStep] at hstep
    split at hstep
    · cases hstep
    · cases hstep
      refine h.stopped hc hpc rfl fun q => ?_
      by_contra hq
      rw [Bool.not_eq_false] at hq
      cases h.call c _ hc hpc rfl q hq
  | spawning s =>
    have hpc : (CallPc.spawning s) ≠ .ended := CallPc.noConfusion
    have hreq := h.spawns c _ s hc rfl
    cases s with
    | addresses =>
      simp only [Turn.callStep, Option.some.injEq] at hstep
      subst hstep
      cases ok with
      | true => exact h.exec_call hc rfl hreq
      | false =>
        exact h.started hc hpc rfl hreq (q := d.proc) (.inr ⟨rfl, rfl⟩) fun p x hp => (nomatch hp)
    | executing p =>
      simp only [Turn.callStep, Option.some.injEq] at hstep
      subst hstep
      refine h.started hc hpc rfl hreq (q := some p) (.inl rfl) fun q x hq hx => ?_
      cases hq
      exact h.restart c _ p x hc rfl hx
  | ended => cases hstep

/-- The supervising task goes on after its wait. -/
theorem supervise (h : d.Ok) (hu : d.tasks[t]? = some u) (hcan : u.cancelled = false) {ok : Bool}
    (hstep : d.supervise t ok u.pc = some d') : d'.Ok := by
  obtain ⟨pc, cancelled⟩ := u
  -- a task that has no process sees none open
  have hidle : pc ≠ .ended → (∀ q, d.isOpen q = true → pc.on ≠ some q) → ∀ pc' : TaskPc,
      (∀ q, pc' ≠ .spawning (.executing q)) → (d.setTask t pc').Ok := by
    intro hpc hnone pc' hexec
    have hno : ∀ q, d.isOpen q ≠ true := fun q hq => hnone q hq (h.worker t _ hu hpc q hq)
    exact h.work hu hpc pc' d.proc d.reader (.inl rfl) (fun _ q hq => absurd hq (hno q))
      (fun q hq => absurd hq (hno q)) hexec
  cases pc with
  | created proc =>
    cases proc with
    | none =>
      cases hstep
      exact hidle TaskPc.noConfusion (fun q _ hq => (nomatch hq)) .sleeping (by simp)
    | some p =>
      cases hstep
      exact h.work hu TaskPc.noConfusion (.waiting p) d.proc d.reader (.inl rfl)
        (fun _ => h.worker t _ hu TaskPc.noConfusion) (fun q _ hq => (nomatch hq)) (by simp)
  | waiting p =>
    simp only [Turn.supervise] at hstep
    split at hstep
    · cases hstep
    · rename_i hclosed
      have hnone : ∀ q, d.isOpen q = true → (TaskPc.waiting p).on ≠ some q := by
        rintro q hq hon
        cases hon
        exact hclosed hq
      split at hstep
      · cases hstep
        exact hidle TaskPc.noConfusion hnone _ (by simp)
      · cases hstep
        exact hidle TaskPc.noConfusion hnone _ (by simp)
  | draining p =>
    simp only [Turn.supervise] at hstep
    split at hstep
    · cases hstep
    · cases hstep
      exact hidle TaskPc.noConfusion (fun q _ hq => (nomatch hq)) _ (by simp)
  | sleeping =>
    cases hstep
    exact hidle TaskPc.noConfusion (fun q _ hq => (nomatch hq)) _ (by simp)
  | spawning s =>
    cases s with
    | addresses =>
      simp only [Turn.supervise, Option.some.injEq] at hstep
      subst hstep
      cases ok with
      | true => exact h.exec_task hu rfl (h.current hu TaskPc.noConfusion hcan)
      | false => exact hidle TaskPc.noConfusion (fun q _ hq => (nomatch hq)) _ (by simp)
    | executing p =>
      cases hstep
      exact h.work hu TaskPc.noConfusion (.waiting p) (some p) (some p)
        (.inr ⟨h.current hu TaskPc.noConfusion hcan, p, rfl, rfl⟩)
        (fun _ => h.worker t _ hu TaskPc.noConfusion) (fun q _ hq => .inr hq) (by simp)
  | unwinding p => cases hstep
  | ended => cases hstep

/-- A cancelled task ends. -/
theorem unwind (h : d.Ok) (hu : d.tasks[t]? = some u) (hstep : d.unwind t u.pc = some d') :
    d'.Ok := by
  obtain ⟨pc, cancelled⟩ := u
  have hend : pc ≠ .ended → pc.owns = none → (d.setTask t .ended).Ok := fun hpc howns =>
    h.work hu hpc .ended d.proc d.reader (.inl rfl) (fun hno => absurd rfl hno)
      (fun q _ hq => absurd (howns.symm.trans hq) (by simp)) (by simp)
  cases pc with
  | created proc => cases hstep; exact hend TaskPc.noConfusion rfl
  | waiting p => cases hstep; exact hend TaskPc.noConfusion rfl
  | draining p => cases hstep; exact hend TaskPc.noConfusion rfl
  | sleeping => cases hstep; exact hend TaskPc.noConfusion rfl
  | spawning s =>
    cases s with
    | addresses => cases hstep; exact hend TaskPc.noConfusion rfl
    | executing p =>
      cases hstep
      exact h.work hu TaskPc.noConfusion (.unwinding p) d.proc d.reader (.inl rfl)
        (fun _ => h.worker t _ hu TaskPc.noConfusion) (fun q _ hq => .inl hq) (by simp)
  | unwinding p =>
    simp only [Turn.unwind] at hstep
    split at hstep
    · cases hstep
    · rename_i hclosed
      cases hstep
      refine h.work hu TaskPc.noConfusion .ended d.proc d.reader (.inl rfl)
        (fun hno => absurd rfl hno) (fun q hq howns => ?_) (by simp)
      cases howns
      exact absurd hq hclosed
  | ended => cases hstep

/-- A call of `stop`, or of `rotate` where it restarts turnserver. -/
theorem beginStop (h : d.Ok) (r : Request) (hr : r ≠ .start) (secret : Str)
    (hsecret : r = .stop → secret = d.secret) (hrotate : r = .rotate → d.task ≠ none)
    (hcross : r = .stop → d.running = true →
      ∀ k ∈ d.calls, k.request ≠ .stop → k.pc.gathers = false) :
    ((({ d with secret } : Turn).addCall r).beginStop d.calls.length r).Ok := by
  have hadd := h.addCall r
  have hc : (d.addCall r).calls[d.calls.length]? = some { request := r, pc := .ended } :=
    Table.append_new
  rcases Option.eq_none_or_eq_some d.task with htask | ⟨t, htask⟩
  rotate_left
  · have hunfold : (({ d with secret } : Turn).addCall r).beginStop d.calls.length r =
        (({ d.addCall r with secret, task := none } : Turn).cancel t |>.setCall d.calls.length
          (.gathering t)) := by
      simp only [Turn.beginStop, Turn.addCall, htask]
    rw [hunfold]
    exact hadd.gather hc htask secret hsecret
  · cases r with
    | start => exact absurd rfl hr
    | rotate => exact absurd htask (hrotate rfl)
    | stop =>
      have hunfold : (({ d with secret } : Turn).addCall .stop).beginStop d.calls.length .stop =
          (d.addCall .stop).terminate d.calls.length .stop := by
        simp only [Turn.beginStop, Turn.addCall, htask, hsecret rfl]
      rw [hunfold]
      refine hadd.terminate hc rfl (fun t ht => (nomatch ht)) (fun hno => absurd rfl hno) htask
        (fun hrun c' k' hk' hne hreq => ?_)
      -- a restart would be at its `gather`, where no stop crosses it
      by_contra hpc
      have hk : d.calls[c']? = some k' := by
        rcases Table.cases_append hk' with hk | ⟨rfl, -⟩
        · exact hk
        · exact absurd rfl hne
      have hreq' := hreq.resolve_left (fun hno => hno rfl)
      have hproc : d.proc ≠ none := by
        intro hnone
        have hrun' : d.running = true := hrun
        unfold Turn.running at hrun'
        rw [hnone] at hrun'
        cases hrun'
      rcases h.proc hproc with hno | ⟨c'', k'', hk'', hg⟩
      · exact hno htask
      · by_cases heq : c'' = c'
        · subst heq
          cases hk''.symm.trans hk
          rw [hcross rfl hrun k' (List.mem_of_getElem? hk) hreq'] at hg
          cases hg
        · rw [h.others hk hpc hk'' heq (.inl hreq')] at hg
          cases hg

/-- **Every step that keeps to `TurnOk` keeps the secrets in agreement.** -/
theorem step (h : d.Ok) {e : Event} (hok : TurnOk d e) (hstep : d.step e = some d') : d'.Ok := by
  cases e with
  | start =>
    cases hstep
    obtain ⟨htask, hidle⟩ := hok
    have hno : ∀ q, d.isOpen q ≠ true := fun q => by
      rw [h.closed htask hidle q]
      exact Bool.false_ne_true
    have hc : (d.addCall .start).calls[d.calls.length]? =
        some { request := .start, pc := .ended } := Table.append_new
    refine (h.addCall .start).move hc (.spawning .addresses) d.proc (.inl rfl)
      (fun _ _ q hq => absurd hq (hno q)) (fun q hq => absurd hq (hno q))
      (fun _ => ⟨htask, fun c' k' hk' hne _ => ?_⟩) (fun t ht => (nomatch ht))
      (fun hg => (nomatch hg)) (fun _ hend => (nomatch hend)) (fun q x hq => (nomatch hq))
      (fun _ _ => Request.noConfusion)
    rcases Table.cases_append hk' with hk | ⟨rfl, -⟩
    · exact hidle k' (List.mem_of_getElem? hk)
    · exact absurd rfl hne
  | stop =>
    cases hstep
    exact h.beginStop .stop Request.noConfusion d.secret (fun _ => rfl)
      (fun hr => (nomatch hr)) (fun _ => hok)
  | rotate secret written =>
    cases hstep
    unfold rotate
    dsimp only
    split
    · rename_i hgo
      exact h.beginStop .rotate Request.noConfusion secret (fun hr => (nomatch hr))
        (fun _ => hgo.2) (fun hr => (nomatch hr))
    · rename_i hstay
      obtain ⟨hexec, hrun⟩ := hok.resolve_left hstay
      exact h.renew secret hexec hrun
  | resume c ok =>
    obtain ⟨k, hc, hstep⟩ := Option.bind_eq_some_iff.mp hstep
    exact h.callStep hc hstep
  | task t ok =>
    obtain ⟨u, hu, hstep⟩ := Option.bind_eq_some_iff.mp hstep
    split at hstep
    · exact h.unwind hu hstep
    · exact h.supervise hu (by simpa using ‹¬ u.cancelled = true›) hstep
  | dies p =>
    simp only [Turn.step] at hstep
    split at hstep
    · cases hstep
      exact h.procs p _ (fun _ => rfl) (fun _ hr => hr) fun x _ _ => rfl
    · cases hstep
  | reap p =>
    simp only [Turn.step] at hstep
    split at hstep
    · rename_i hdead
      cases hstep
      refine h.procs p _ (fun _ => rfl) (fun _ _ => rfl) fun x hx _ => ?_
      have halive := hdead.2
      unfold isAlive at halive
      rw [hx] at halive
      exact halive
    · cases hstep

end Ok

/-! ### Every run -/

/-- A turnserver that runs while no `rotate` and no `start` is in flight accepts every
credential that is handed out, and no two are alive. -/
def Agrees (hmac : Str → Str → Str) (cfg : Config) (d : Turn) : Prop :=
  (¬ d.Restarting → ∀ (p : Nat) x, d.proc = some p → d.running = true →
    d.procs[p]? = some x → x.secret = d.secret ∧
      ∀ host username servers, iceServers hmac cfg d host username = some servers →
        ∀ s ∈ servers, x.accepts hmac s) ∧
  ∀ p q, d.isAlive p = true → d.isAlive q = true → p = q

/-- **TURN secret agreement**, in every run in which no rotation is missed. -/
theorem turn_agrees (hmac : Str → Str → Str) (cfg : Config)
    (h : turnMachine.ReachBy TurnOk d) : d.Agrees hmac cfg := by
  have hd : d.Ok := h.invariant (fun _ => Ok.initial) fun _ _ _ hd hok hstep => hd.step hok hstep
  refine ⟨fun hno p x hproc hrun hx => ?_, fun p q hp hq => ?_⟩
  · have hopen : d.isOpen p = true := by
      unfold running at hrun
      rw [hproc] at hrun
      exact hrun
    have hsecret := hd.running hno p x hproc hopen hx
    refine ⟨hsecret, fun host username servers hservers s hs => ?_⟩
    simp only [iceServers, Option.ite_none_left_eq_some, Option.some.injEq] at hservers
    obtain ⟨-, rfl⟩ := hservers
    rw [List.mem_singleton.mp hs]
    exact congrArg (hmac · username) hsecret.symm
  · have hlast : ∀ p, d.isAlive p = true → p + 1 = d.procs.length := by
      intro p hp
      obtain ⟨x, hx, halive⟩ := Option.any_eq_true _ _ |>.mp hp
      refine hd.last p (Option.any_eq_true _ _ |>.mpr ⟨x, hx, ?_⟩)
      by_contra hr
      rw [hd.reaped p x hx (by simpa using hr)] at halive
      cases halive
    have hp' := hlast p hp
    have hq' := hlast q hq
    omega

/-- A rotation that restarts turnserver. -/
def rotateRun : List Event :=
  [.start, .resume 0 true, .resume 0 true, .task 0 true, .rotate "s1".toList true, .task 0 true,
    .resume 1 true, .dies 0, .reap 0, .resume 1 true, .resume 1 true, .resume 1 true,
    .resume 1 true, .task 1 true]

/-- A `Turn` with the secret of its file. -/
def fresh : Turn :=
  { secret := "s0".toList, proc := none, task := none, reader := none, procs := [], tasks := [],
    calls := [] }

theorem fresh_initial : turnMachine.Init fresh := rfl

theorem turn_agrees_rotated : ∃ d : Turn, turnMachine.run fresh rotateRun = some d ∧
    d.running = true ∧ d.secret = "s1".toList ∧ ¬ d.Restarting ∧
      d.Agrees (fun key text => key ++ text) { turnHost := [], turnPort := 3478 } := by
  have hok : turnMachine.RunOk TurnOk fresh rotateRun := by decide
  obtain ⟨d, hrun, hup, hsecret, hno⟩ : ∃ d : Turn, turnMachine.run fresh rotateRun = some d ∧
      d.running = true ∧ d.secret = "s1".toList ∧ ¬ d.Restarting :=
    ⟨_, rfl, rfl, rfl, by decide⟩
  exact ⟨d, hrun, hup, hsecret, hno, turn_agrees _ _ (.of_run (.init fresh_initial) hok hrun)⟩

/-- Another rotation comes while the first one executes turnserver. -/
def missedRun : List Event :=
  [.start, .resume 0 true, .resume 0 true, .task 0 true, .rotate "s1".toList true, .task 0 true,
    .resume 1 true, .dies 0, .reap 0, .resume 1 true, .resume 1 true, .resume 1 true,
    .rotate "s2".toList true, .resume 1 true, .task 1 true]

/-- The server keeps the secret of the first rotation, and nothing is in flight. -/
theorem rotation_missed : ¬ ∀ (hmac : Str → Str → Str) (cfg : Config) (d : Turn),
    turnMachine.Reachable d → d.Agrees hmac cfg := by
  intro hall
  obtain ⟨d, hrun, hno, hproc, hup, hx, hsecret⟩ : ∃ d : Turn,
      turnMachine.run fresh missedRun = some d ∧ ¬ d.Restarting ∧ d.proc = some 1 ∧
        d.running = true ∧
        d.procs[1]? = some { secret := "s1".toList, alive := true, reaped := false } ∧
        d.secret = "s2".toList :=
    ⟨_, rfl, by decide, rfl, rfl, rfl, rfl⟩
  have hreach : turnMachine.Reachable d := Machine.Reachable.of_run (.init fresh_initial) hrun
  have heq := ((hall (fun key text => key ++ text) { turnHost := [], turnPort := 3478 } d
    hreach).1 hno 1 _ hproc hup hx).1
  rw [hsecret] at heq
  exact absurd heq (by decide)

end Turn

end AndroidAppliance
