import AndroidAppliance.Turn.Invariant

/-!
# The calls and the processes of turnserver

The parts of `start`, `stop` and `rotate` keep `Ok`, each from the place where the call waits,
and so do the processes that they execute, signal and reap.
-/

namespace AndroidAppliance

namespace Turn

variable {d : Turn} {c t : Nat} {k : Call} {u : Task}

namespace Ok

/-! ### Calls on their way -/

theorem task_none (h : d.Ok) (hc : d.calls[c]? = some k) (hpc : k.pc ≠ .ended) :
    d.task = none := by
  cases htask : d.task with
  | none => rfl
  | some t => exact absurd (h.idle t htask k (List.mem_of_getElem? hc)) hpc

/-- What is in flight beside a call that is. -/
theorem others (h : d.Ok) (hc : d.calls[c]? = some k) (hpc : k.pc ≠ .ended) {c' : Nat}
    {k' : Call} (hk' : d.calls[c']? = some k') (hne : c' ≠ c)
    (hreq : k.request ≠ .stop ∨ k'.request ≠ .stop) : k'.pc = .ended := by
  rcases hreq with hreq | hreq
  · exact (h.alone c k hc hreq hpc).2 c' k' hk' hne
  · by_contra hpc'
    exact hpc ((h.alone c' k' hk' hreq hpc').2 c k hc (Ne.symm hne))

/-- A call that has nothing open goes on or ends. -/
theorem stopped (h : d.Ok) (hc : d.calls[c]? = some k) (hpc : k.pc ≠ .ended)
    (hgather : k.pc.gathers = false) (hclosed : ∀ p, d.isOpen p = false) :
    (d.stopped c k.request).Ok := by
  have hno : ∀ p, d.isOpen p ≠ true := fun p => by rw [hclosed p]; exact Bool.false_ne_true
  have hgathers : ∀ t, k.pc ≠ .gathering t := by
    rintro t ht
    rw [ht] at hgather
    cases hgather
  have hmove : ∀ pc : CallPc, (∀ p, pc ≠ .spawning (.executing p)) →
      (∀ s, pc = .spawning s → k.request ≠ .stop) → (d.setCall c pc).Ok := fun pc hexec hspawn =>
    h.move hc pc d.proc (.inl rfl) (fun _ _ p hp => absurd hp (hno p))
      (fun p hp => absurd hp (hno p))
      (fun _ => ⟨h.task_none hc hpc, fun c' k' hk' => h.others hc hpc hk'⟩)
      (fun t ht => absurd ht (hgathers t))
      (fun hg => by rw [hgather] at hg; cases hg)
      (fun _ _ => .inr fun p _ => hclosed p) (fun p x hp => absurd hp (hexec p)) hspawn
  unfold Turn.stopped
  split
  · rename_i hr
    exact hmove _ (by simp) (fun _ _ => by rw [hr]; exact Request.noConfusion)
  · exact hmove _ (by simp) (by simp)
  · exact hmove _ (by simp) (by simp)

/-- The process of `_terminate` is reaped. -/
theorem drain (h : d.Ok) (hc : d.calls[c]? = some k) {p : Nat} (hon : k.pc.on = some p)
    (hgather : k.pc.gathers = false) (hp : d.isOpen p = false) : (d.drain c k.request).Ok := by
  have hpc : k.pc ≠ .ended := by
    intro hend
    rw [hend] at hon
    cases hon
  have hclosed : ∀ q, d.isOpen q = false := by
    intro q
    by_contra hq
    rw [Bool.not_eq_false] at hq
    have heq := h.call c k hc hpc hgather q hq
    rw [hon] at heq
    cases heq
    rw [hp] at hq
    cases hq
  have hno : ∀ q, d.isOpen q ≠ true := fun q => by rw [hclosed q]; exact Bool.false_ne_true
  unfold Turn.drain
  split
  · refine h.move hc _ d.proc (.inl rfl) (fun _ _ q hq => absurd hq (hno q))
      (fun q hq => absurd hq (hno q))
      (fun _ => ⟨h.task_none hc hpc, fun c' k' hk' => h.others hc hpc hk'⟩) (fun t ht => ?_)
      (fun hg => ?_) (fun _ hend => ?_) (fun q x hq => ?_) (fun s hs => ?_)
    · rw [ht] at hgather
      cases hgather
    · rw [hgather] at hg
      cases hg
    · cases hend
    · cases hq
    · cases hs
  · exact h.stopped hc hpc hgather hclosed

/-- Nothing is open when the process is not, and the call restarts turnserver. -/
theorem closed_of_restart (h : d.Ok) (hc : d.calls[c]? = some k) (hon : k.pc.on = none)
    (hgather : ∀ t, k.pc = .gathering t → ∃ u, d.tasks[t]? = some u ∧ u.pc = .ended)
    (hgathers : k.pc.gathers = true) (htask : d.task = none) (hreq : k.request ≠ .stop)
    (hproc : ∀ p, d.proc = some p → d.isOpen p = false) (p : Nat) : d.isOpen p = false := by
  have hpc : k.pc ≠ .ended := by
    intro hend
    rw [hend] at hgathers
    cases hgathers
  by_contra hp
  rw [Bool.not_eq_false] at hp
  -- who holds the open process: `Turn`, another call, or a task
  rcases h.holder p hp with hd | ⟨c', k', hk', hon'⟩ | ⟨t, u, hu, howns⟩
  · rw [hproc p hd] at hp
    cases hp
  · by_cases hne : c' = c
    · subst hne
      cases hk'.symm.trans hc
      rw [hon] at hon'
      cases hon'
    · rw [h.others hc hpc hk' hne (.inl hreq)] at hon'
      cases hon'
  · have hupc : u.pc ≠ .ended := by
      intro hend
      rw [hend] at howns
      cases howns
    rcases h.tasks t u hu hupc with hno | ⟨-, c', k', hk', hkg⟩
    · rw [htask] at hno
      cases hno
    · by_cases hne : c' = c
      · subst hne
        cases hk'.symm.trans hc
        obtain ⟨v, hv, hend⟩ := hgather t hkg
        cases hv.symm.trans hu
        exact hupc hend
      · rw [h.others hc hpc hk' hne (.inl hreq)] at hkg
        cases hkg

/-- The call goes on without a process. -/
theorem stopped_without (h : d.Ok) (hc : d.calls[c]? = some k) (hon : k.pc.on = none)
    (hgather : ∀ t, k.pc = .gathering t → ∃ u, d.tasks[t]? = some u ∧ u.pc = .ended)
    (hgathers : k.request ≠ .stop → k.pc.gathers = true) (htask : d.task = none)
    (hproc : ∀ p, d.proc = some p → d.isOpen p = false) :
    ({ d with proc := none }.stopped c k.request).Ok := by
  have hheld : ∀ pc : CallPc, ∀ p, d.isOpen p = true → k.pc.on = some p ∨ d.proc = some p →
      pc.on = some p ∨ (none : Option Nat) = some p := by
    rintro pc p hp (hk | hd)
    · rw [hon] at hk
      cases hk
    · rw [hproc p hd] at hp
      cases hp
  cases hr : k.request with
  | stop | start =>
    refine h.move hc .ended none (.inr rfl) (fun hend => absurd rfl hend) (hheld _)
      (fun hend => absurd rfl hend) (fun t ht => .inr (hgather t ht)) (fun _ => .inr rfl)
      (fun _ _ => .inr fun p hp => ?_) (fun p x hp => ?_) (fun s hs => ?_)
    · cases hp
    · cases hp
    · cases hs
  | rotate =>
    have hreq : k.request ≠ .stop := by
      rw [hr]
      exact Request.noConfusion
    have hpc : k.pc ≠ .ended := by
      intro hend
      have hg := hgathers hreq
      rw [hend] at hg
      cases hg
    refine h.move hc (.spawning .addresses) none (.inr rfl) (fun _ _ p hp => ?_) (hheld _)
      (fun _ => ⟨htask, fun c' k' hk' => h.others hc hpc hk'⟩)
      (fun t ht => .inr (hgather t ht)) (fun _ => .inr rfl) (fun _ hend => ?_) (fun p x hp => ?_)
      (fun _ _ => hreq)
    · rw [h.closed_of_restart hc hon hgather (hgathers hreq) htask hreq hproc p] at hp
      cases hp
    · cases hend
    · cases hp

/-- `_terminate` of a call that has no process yet: one that has just begun to stop, or one
whose task has ended. -/
theorem terminate (h : d.Ok) (hc : d.calls[c]? = some k) (hon : k.pc.on = none)
    (hgather : ∀ t, k.pc = .gathering t → ∃ u, d.tasks[t]? = some u ∧ u.pc = .ended)
    (hgathers : k.request ≠ .stop → k.pc.gathers = true) (htask : d.task = none)
    (hothers : d.running = true → ∀ (c' : Nat) (k' : Call), d.calls[c']? = some k' → c' ≠ c →
      k.request ≠ .stop ∨ k'.request ≠ .stop → k'.pc = .ended) :
    (d.terminate c k.request).Ok := by
  have hgo := h.stopped_without hc hon hgather hgathers htask
  unfold Turn.terminate
  cases hproc : d.proc with
  | none =>
    exact hgo fun p hp => by rw [hproc] at hp; cases hp
  | some p =>
    dsimp only
    by_cases hopen : d.isOpen p = true
    · have hrunning : d.running = true := by
        unfold Turn.running
        rw [hproc]
        exact hopen
      have hlast : ∀ q, d.isOpen q = true → q = p := by
        intro q hq
        have hq' := h.last q hq
        have hp' := h.last p hopen
        omega
      have heq : ({ d with proc := none } : Turn).isOpen p = true := hopen
      rw [if_pos heq]
      refine h.move hc (.terminating p) none (.inr rfl) (fun _ _ q hq => ?_) (fun q hq _ => ?_)
        (fun _ => ⟨htask, hothers hrunning⟩) (fun t ht => .inr (hgather t ht)) (fun _ => .inr rfl)
        (fun _ hend => ?_) (fun q x hq => ?_) (fun s hs => ?_)
      · rw [hlast q hq]
        rfl
      · rw [hlast q hq]
        exact .inl rfl
      · cases hend
      · cases hq
      · cases hs
    · have heq : ¬ ({ d with proc := none } : Turn).isOpen p = true := hopen
      rw [if_neg heq]
      refine hgo fun q hq => ?_
      cases hproc.symm.trans hq
      simpa using hopen

/-- A call cancels the supervising task, `rotate` with a new secret. -/
theorem gather (h : d.Ok) (hc : d.calls[c]? = some k) (ht : d.task = some t) (secret : Str)
    (hsecret : k.request = .stop → secret = d.secret) :
    (({ d with secret, task := none } : Turn).cancel t |>.setCall c (.gathering t)).Ok := by
  have hidle := h.idle t ht
  have hended : ∀ {c' : Nat} {k' : Call}, d.calls[c']? = some k' → k'.pc = .ended := fun hk' =>
    hidle _ (List.mem_of_getElem? hk')
  have hcase : ∀ {c' : Nat} {k' : Call}, ((({ d with secret, task := none } : Turn).cancel
      t).setCall c (.gathering t)).calls[c']? = some k' → k'.pc ≠ .ended →
        c' = c ∧ k' = { k with pc := .gathering t } := by
    intro c' k' hk' hpc
    rcases cases_setCall (d := ({ d with secret, task := none } : Turn).cancel t) hk' hc with
      hnew | ⟨-, hold⟩
    · exact hnew
    · exact absurd (hended hold) hpc
  have htask : ∀ {t' : Nat} {u' : Task}, (d.tasks.modify t Task.cancel)[t']? = some u' →
      ∃ u, d.tasks[t']? = some u ∧ u'.pc = u.pc ∧
        (t' = t → u'.pc ≠ .ended → u'.cancelled = true) := by
    intro t' u' hu'
    obtain ⟨u, hu, ⟨rfl, rfl⟩ | ⟨hne, rfl⟩⟩ := Table.cases_modify hu'
    · refine ⟨u, hu, ?_, fun _ hpc => ?_⟩
      · unfold Task.cancel
        split <;> rfl
      · unfold Task.cancel at hpc ⊢
        split at hpc
        · exact absurd ‹_› hpc
        · rw [if_neg ‹_›]
    · exact ⟨u', hu, rfl, fun heq => absurd heq.symm hne⟩
  have hself : ((({ d with secret, task := none } : Turn).cancel t).setCall c
      (.gathering t)).calls[c]? = some { k with pc := .gathering t } :=
    setCall_self (d := ({ d with secret, task := none } : Turn).cancel t) hc
  exact {
    reaped := h.reaped
    last := h.last
    holder := fun p hp => by
      rcases h.holder p hp with hproc | ⟨c', k', hk', hon⟩ | ⟨t', u, hu, howns⟩
      · exact .inl hproc
      · rw [hended hk'] at hon
        cases hon
      · obtain ⟨u', hu'⟩ := Table.modify_exists (f := Task.cancel) (i := t) hu
        obtain ⟨v, hv, hpc, -⟩ := htask hu'
        cases hv.symm.trans hu
        exact .inr (.inr ⟨t', u', hu', hpc ▸ howns⟩)
    call := fun c' k' hk' hpc hg => by
      obtain ⟨-, rfl⟩ := hcase hk' hpc
      cases hg
    worker := fun t' u' hu' hpc p hp => by
      obtain ⟨u, hu, heq, -⟩ := htask hu'
      rw [heq] at hpc ⊢
      exact h.worker t' u hu hpc p hp
    alone := fun c' k' hk' _ hpc => by
      obtain ⟨rfl, rfl⟩ := hcase hk' hpc
      refine ⟨rfl, fun c'' k'' hk'' hne => ?_⟩
      by_contra hpc'
      exact hne (hcase hk'' hpc').1
    idle := fun t' ht' => by
      cases ht'
    tasks := fun t' u' hu' hpc => by
      obtain ⟨u, hu, heq, hcan⟩ := htask hu'
      rcases h.tasks t' u hu (heq ▸ hpc) with hcur | ⟨-, c', k', hk', hg⟩
      · cases ht.symm.trans hcur
        exact .inr ⟨hcan rfl hpc, c, _, hself, rfl⟩
      · rw [hended hk'] at hg
        cases hg
    proc := fun _ => .inr ⟨c, _, hself, rfl⟩
    running := fun hno p x hp hopen hx => by
      have hstop : k.request = .stop := by
        by_contra hreq
        exact hno (restarting_iff.mpr ⟨c, _, hself, hreq, CallPc.noConfusion⟩)
      have hquiet : ¬ d.Restarting := by
        rintro ⟨k', hk', -, hpc⟩
        exact hpc (hidle k' hk')
      rw [show (({ d with secret, task := none } : Turn).cancel t |>.setCall c
        (.gathering t)).secret = d.secret from hsecret hstop]
      exact h.running hquiet p x hp hopen hx
    respawn := fun t' u' p x ht' => by
      cases ht'
    restart := fun c' k' p x hk' hpc => by
      obtain ⟨-, rfl⟩ := hcase hk' (by rw [hpc]; exact CallPc.noConfusion)
      cases hpc
    spawns := fun c' k' s hk' hpc => by
      obtain ⟨-, rfl⟩ := hcase hk' (by rw [hpc]; exact CallPc.noConfusion)
      cases hpc }

/-! ### Processes -/

theorem isOpen_exec {p : Nat} (hp : d.exec.isOpen p = true) :
    d.isOpen p = true ∨ p = d.procs.length := by
  obtain ⟨x, hx, hopen⟩ := Option.any_eq_true _ _ |>.mp hp
  rcases Table.cases_append hx with hold | ⟨hp, -⟩
  · exact .inl (Option.any_eq_true _ _ |>.mpr ⟨x, hold, hopen⟩)
  · exact .inr hp

theorem exec_length : d.exec.procs.length = d.procs.length + 1 := by simp [exec]

/-- The configuration of a new process has the current secret. -/
theorem exec_secret {p : Nat} {x : Proc} (hx : d.exec.procs[p]? = some x)
    (hp : p = d.procs.length) : x.secret = d.secret := by
  rcases Table.cases_append hx with hold | ⟨-, rfl⟩
  · rw [hp, List.getElem?_eq_none (by omega)] at hold
    cases hold
  · rfl

theorem exec_reaped (h : d.Ok) (p : Nat) (x : Proc) (hx : d.exec.procs[p]? = some x)
    (hr : x.reaped = true) : x.alive = false := by
  rcases Table.cases_append hx with hold | ⟨-, rfl⟩
  · exact h.reaped p x hold hr
  · cases hr

/-- A call executes turnserver. -/
theorem exec_call (h : d.Ok) (hc : d.calls[c]? = some k) (hpc : k.pc = .spawning .addresses)
    (hreq : k.request ≠ .stop) :
    (d.exec.setCall c (.spawning (.executing d.procs.length))).Ok := by
  have hgo : k.pc ≠ .ended := by rw [hpc]; exact CallPc.noConfusion
  have hclosed : ∀ p, d.isOpen p ≠ true := by
    intro p hp
    have hon := h.call c k hc hgo (by rw [hpc]; rfl) p hp
    rw [hpc] at hon
    cases hon
  have hnew : ∀ {p : Nat}, d.exec.isOpen p = true → p = d.procs.length := fun hp =>
    (isOpen_exec hp).resolve_left (hclosed _)
  have htask := h.task_none hc hgo
  have hended : ∀ {c' : Nat} {k' : Call}, d.calls[c']? = some k' → c' ≠ c → k'.pc = .ended :=
    fun hk' hne => (h.alone c k hc hreq hgo).2 _ _ hk' hne
  have hcase : ∀ {c' : Nat} {k' : Call},
      (d.exec.setCall c (.spawning (.executing d.procs.length))).calls[c']? = some k' →
        k'.pc ≠ .ended →
          c' = c ∧ k' = { k with pc := .spawning (.executing d.procs.length) } := by
    intro c' k' hk' hpc'
    rcases cases_setCall (d := d.exec) hk' hc with hnew | ⟨hne, hold⟩
    · exact hnew
    · exact absurd (hended hold hne) hpc'
  have hself : (d.exec.setCall c (.spawning (.executing d.procs.length))).calls[c]? =
      some { k with pc := .spawning (.executing d.procs.length) } := setCall_self (d := d.exec) hc
  have hdone : ∀ {t : Nat} {u : Task}, d.tasks[t]? = some u → u.pc = .ended := by
    intro t u hu
    by_contra hupc
    rcases h.tasks t u hu hupc with hcur | ⟨-, c', k', hk', hg⟩
    · rw [htask] at hcur
      cases hcur
    · by_cases hne : c' = c
      · subst hne
        cases hk'.symm.trans hc
        rw [hpc] at hg
        cases hg
      · rw [hended hk' hne] at hg
        cases hg
  exact {
    reaped := h.exec_reaped
    last := fun p hp => by
      rw [hnew hp]
      exact exec_length.symm
    holder := fun p hp => .inr (.inl ⟨c, _, hself, by rw [hnew hp]; rfl⟩)
    call := fun c' k' hk' hpc' _ p hp => by
      obtain ⟨-, rfl⟩ := hcase hk' hpc'
      rw [hnew hp]
      rfl
    worker := fun t u hu hupc => absurd (hdone hu) hupc
    alone := fun c' k' hk' _ hpc' => by
      obtain ⟨rfl, rfl⟩ := hcase hk' hpc'
      refine ⟨htask, fun c'' k'' hk'' hne => ?_⟩
      by_contra hpc''
      exact hne (hcase hk'' hpc'').1
    idle := fun t ht => by
      have hsome : d.task = some t := ht
      rw [htask] at hsome
      cases hsome
    tasks := fun t u hu hupc => absurd (hdone hu) hupc
    proc := fun hproc => by
      rcases h.proc hproc with hno | ⟨c', k', hk', hg⟩
      · exact absurd htask hno
      · by_cases hne : c' = c
        · subst hne
          cases hk'.symm.trans hc
          rw [hpc] at hg
          cases hg
        · rw [hended hk' hne] at hg
          cases hg
    running := fun hno => absurd (restarting_iff.mpr ⟨c, _, hself, hreq, CallPc.noConfusion⟩) hno
    respawn := fun t u p x ht => by
      have hsome : d.task = some t := ht
      rw [htask] at hsome
      cases hsome
    restart := fun c' k' p x hk' hpc' hx => by
      obtain ⟨-, rfl⟩ := hcase hk' (by rw [hpc']; exact CallPc.noConfusion)
      have hp : p = d.procs.length := by
        cases hpc'
        rfl
      exact exec_secret (d := d) hx hp
    spawns := fun c' k' s hk' hpc' => by
      obtain ⟨-, rfl⟩ := hcase hk' (by rw [hpc']; exact CallPc.noConfusion)
      exact hreq }

/-- The supervising task executes turnserver. -/
theorem exec_task (h : d.Ok) (hu : d.tasks[t]? = some u) (hpc : u.pc = .spawning .addresses)
    (hcur : d.task = some t) :
    (d.exec.setTask t (.spawning (.executing d.procs.length))).Ok := by
  have hgo : u.pc ≠ .ended := by rw [hpc]; exact TaskPc.noConfusion
  have hclosed : ∀ p, d.isOpen p ≠ true := by
    intro p hp
    have hon := h.worker t u hu hgo p hp
    rw [hpc] at hon
    cases hon
  have hnew : ∀ {p : Nat}, d.exec.isOpen p = true → p = d.procs.length := fun hp =>
    (isOpen_exec hp).resolve_left (hclosed _)
  have hidle := h.idle t hcur
  have hended : ∀ {c : Nat} {k : Call}, d.calls[c]? = some k → k.pc = .ended := fun hk =>
    hidle _ (List.mem_of_getElem? hk)
  have hcase : ∀ {t' : Nat} {u' : Task},
      (d.exec.setTask t (.spawning (.executing d.procs.length))).tasks[t']? = some u' →
        u'.pc ≠ .ended →
          t' = t ∧ u' = { u with pc := .spawning (.executing d.procs.length) } := by
    intro t' u' hu' hpc'
    rcases cases_setTask (d := d.exec) hu' hu with hnew | ⟨hne, hold⟩
    · exact hnew
    · rcases h.tasks t' u' hold hpc' with hcur' | ⟨-, c, k, hk, hg⟩
      · exact absurd (Option.some.inj (hcur'.symm.trans hcur)) hne
      · rw [hended hk] at hg
        cases hg
  have hself : (d.exec.setTask t (.spawning (.executing d.procs.length))).tasks[t]? =
      some { u with pc := .spawning (.executing d.procs.length) } := setTask_self (d := d.exec) hu
  exact {
    reaped := h.exec_reaped
    last := fun p hp => by
      rw [hnew hp]
      exact exec_length.symm
    holder := fun p hp => .inr (.inr ⟨t, _, hself, by rw [hnew hp]; rfl⟩)
    call := fun c k hk hkpc => absurd (hended hk) hkpc
    worker := fun t' u' hu' hpc' p hp => by
      obtain ⟨-, rfl⟩ := hcase hu' hpc'
      rw [hnew hp]
      rfl
    alone := fun c k hk _ hkpc => absurd (hended hk) hkpc
    idle := fun _ _ => hidle
    tasks := fun t' u' hu' hpc' => by
      obtain ⟨rfl, -⟩ := hcase hu' hpc'
      exact .inl hcur
    proc := fun _ => .inl (by rw [show (d.exec.setTask t _).task = some t from hcur]; simp)
    running := fun hno p x hp hopen hx => exec_secret (d := d) hx (hnew hopen)
    respawn := fun t' u' p x _ hu' hpc' hx => by
      obtain ⟨-, rfl⟩ := hcase hu' (by rw [hpc']; exact TaskPc.noConfusion)
      have hp : p = d.procs.length := by
        cases hpc'
        rfl
      exact exec_secret (d := d) hx hp
    restart := fun c k p x hk hkpc => by
      rw [hended hk] at hkpc
      cases hkpc
    spawns := h.spawns }

/-- A process dies, or is reaped. -/
theorem procs (h : d.Ok) (p : Nat) (f : Proc → Proc) (hsecret : ∀ x, (f x).secret = x.secret)
    (hopen : ∀ x, x.reaped = true → (f x).reaped = true)
    (hreaped : ∀ x, d.procs[p]? = some x → (f x).reaped = true → (f x).alive = false) :
    ({ d with procs := d.procs.modify p f } : Turn).Ok := by
  have hold : ∀ {q : Nat}, ({ d with procs := d.procs.modify p f } : Turn).isOpen q = true →
      d.isOpen q = true := by
    intro q hq
    obtain ⟨x, hx, hno⟩ := Option.any_eq_true _ _ |>.mp hq
    obtain ⟨y, hy, ⟨rfl, rfl⟩ | ⟨-, rfl⟩⟩ := Table.cases_modify hx
    · refine Option.any_eq_true _ _ |>.mpr ⟨y, hy, ?_⟩
      by_contra hr
      rw [hopen y (by simpa using hr)] at hno
      cases hno
    · exact Option.any_eq_true _ _ |>.mpr ⟨x, hy, hno⟩
  have hsame : ∀ {q : Nat} {x : Proc}, (d.procs.modify p f)[q]? = some x →
      ∃ y, d.procs[q]? = some y ∧ x.secret = y.secret := by
    intro q x hx
    obtain ⟨y, hy, ⟨rfl, rfl⟩ | ⟨-, rfl⟩⟩ := Table.cases_modify hx
    · exact ⟨y, hy, hsecret y⟩
    · exact ⟨x, hy, rfl⟩
  exact { h with
    reaped := fun q x hx hr => by
      obtain ⟨y, hy, ⟨rfl, rfl⟩ | ⟨-, rfl⟩⟩ := Table.cases_modify hx
      · exact hreaped y hy hr
      · exact h.reaped q x hy hr
    last := fun q hq => by
      have hlen : (d.procs.modify p f).length = d.procs.length := List.length_modify ..
      rw [show ({ d with procs := d.procs.modify p f } : Turn).procs.length = d.procs.length
        from hlen]
      exact h.last q (hold hq)
    holder := fun q hq => h.holder q (hold hq)
    call := fun c k hk hpc hg q hq => h.call c k hk hpc hg q (hold hq)
    worker := fun t u hu hpc q hq => h.worker t u hu hpc q (hold hq)
    running := fun hno q x hq hqo hx => by
      obtain ⟨y, hy, heq⟩ := hsame hx
      exact heq.trans (h.running hno q y hq (hold hqo) hy)
    respawn := fun t u q x ht hu hpc hx => by
      obtain ⟨y, hy, heq⟩ := hsame hx
      exact heq.trans (h.respawn t u q y ht hu hpc hy)
    restart := fun c k q x hk hpc hx => by
      obtain ⟨y, hy, heq⟩ := hsame hx
      exact heq.trans (h.restart c k q y hk hpc hy) }

/-- A new secret at a moment when no server has the old one and would keep it. -/
theorem renew (h : d.Ok) (secret : Str) (hexec : ¬ d.Executing)
    (hrun : d.running = true → d.Restarting) : ({ d with secret } : Turn).Ok := by
  refine { h with
    running := fun hno p x hp hopen _ => absurd (hrun ?_) hno
    respawn := fun t u p x ht hu hpc _ => absurd ?_ hexec
    restart := fun c k p x hk hpc _ => absurd ?_ hexec }
  · have hproc : d.proc = some p := hp
    unfold Turn.running
    rw [hproc]
    exact hopen
  · exact .inr ⟨t, ht, u, hu, by rw [hpc]; rfl⟩
  · exact .inl ⟨k, List.mem_of_getElem? hk, by rw [hpc]; rfl⟩

end Ok

end Turn

end AndroidAppliance
