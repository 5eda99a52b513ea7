import AndroidAppliance.Supervisor.Transitions
import AndroidAppliance.Transition.Table

/-!
# Leases and the idle stop

The counter `_leases` against the table of the calls: it is the number of the leases that
were entered and not left yet, the ones that still wait for a boot among them, on every way
out of a lease (`lease_accounting`). The idle check reads the counter, so it stops nothing
while a lease is open, and a lease that does not wake Android leaves the lifecycle as it is.
-/

namespace AndroidAppliance

namespace Supervisor

/-! ### Open leases -/

/-- The request is a lease. -/
def Request.isLease : Request → Bool
  | .lease _ => true
  | .start _ _ | .stop _ | .restart _ _ | .wait _ | .shutdown | .background => false

/-- The call has returned or raised. -/
def CallPc.finished : CallPc → Bool
  | .ended _ => true
  | .created | .stopping _ | .joining _ | .leased | .killServer => false

theorem CallPc.finished_of_ne {pc : CallPc} (h : ∀ res, pc ≠ .ended res) : pc.finished = false := by
  cases pc with
  | ended res => exact absurd rfl (h res)
  | created | stopping | joining | leased | killServer => rfl

/-- A lease that was entered and not left yet. -/
def Call.leasing (t : Call) : Bool := t.request.isLease && !t.pc.finished

/-- Where a call of each kind can wait. -/
def Call.Proper (t : Call) : Prop :=
  (t.pc = .created → t.request = .background) ∧ (t.pc = .killServer → t.request = .shutdown) ∧
    (t.request = .lease false → t.pc = .leased ∨ t.pc.finished = true)

namespace Sup

/-- The number of the open leases. -/
def openLeases (s : Sup) : Nat := s.calls.countP Call.leasing

/-- The steps that a lease without `wake` takes itself. -/
def Passive (s : Sup) : SupEvent → Prop
  | .call q => q = .lease false
  | .resume c | .expire c | .leave c _ | .cancel c =>
    ∃ t, s.calls[c]? = some t ∧ t.request = .lease false
  | .tick _ | .loop _ => False

/-- **Idle stop and leases**, in one state. -/
structure LeasesOk (cfg : Config) (s : Sup) : Prop where
  /-- The counter counts the open leases. -/
  count : s.leases = s.openLeases
  /-- The idle check stops Android only in RUNNING, with no lease open, under a limit above
  zero, and when the last activity is as long ago as the limit says. -/
  idle : ∀ (r : Nat) (s' : Sup), s.step cfg (.tick r) = some s' → s'.core = s.core ∨
    s'.core = s.core.halt ∧ s.core.ctl.state = .running ∧ s.openLeases = 0 ∧
      0 < cfg.idleStopSeconds ∧ ∃ activity, s.core.info.activity = some activity ∧
        (cfg.idleStopSeconds : ℚ) ≤ s.core.info.wall - activity
  /-- A passive lease does nothing to the lifecycle, from its entry to its end. -/
  passive : ∀ (ev : SupEvent) (s' : Sup), s.Passive ev → s.step cfg ev = some s' →
    s'.core = s.core

variable {cfg : Config} {s s' : Sup} {t : Call} {r : Sup × CallPc}

/-! ### The calls that a stretch creates -/

/-- A task of `_spawn` before its first step. -/
def continuation : Call := { request := .background, pc := .created }

/-- A turn of `_start` leaves the rest to a task of `_spawn`. -/
def leavesOff (s : Sup) (wait : Bool) : Bool :=
  !wait && s.core.ctl.state == .stopping && !s.core.ctl.closing

/-- **What a turn of `_start` adds to the table**: one task, exactly when it leaves off. -/
theorem start_spawns (s : Sup) (wait : Bool) : (s.start wait).1.calls =
    s.calls ++ if s.leavesOff wait then [continuation] else [] := by
  unfold start leavesOff
  cases s.core.ctl.closing with
  | true => simp
  | false => cases hs : s.core.ctl.state <;> cases wait <;> simp [spawn, continuation]

/-- A turn that waits adds nothing. -/
theorem start_true_calls (s : Sup) : (s.start true).1.calls = s.calls :=
  (start_spawns s true).trans (List.append_nil _)

@[simp] theorem start_leases (s : Sup) (wait : Bool) : (s.start wait).1.leases = s.leases := by
  unfold start
  split
  · rfl
  · split
    · rfl
    · cases wait <;> rfl
    · rfl
    · rfl

/-- A lease gives its count back with the step that ends it. -/
theorem lease_leases (r : Sup × CallPc) :
    (lease r).1.leases = r.1.leases - ((lease r).2.finished).toNat := by
  unfold lease
  split
  · split
    · exact (sub_zero _).symm
    · rfl
  · rfl
  · rename_i pc _ hpc
    simp [CallPc.finished_of_ne hpc]

/-- The same at the end of any call. -/
theorem andThen_leases (q : Request) (r : Sup × CallPc) :
    (andThen q r).1.leases = r.1.leases - ((q.isLease && (andThen q r).2.finished)).toNat := by
  cases q with
  | lease wake => exact lease_leases r
  | start | stop | restart | wait | shutdown | background => exact (sub_zero _).symm

/-- The calls that leave their start to a task of `_spawn`. -/
def detaches (s : Sup) : Request → Bool
  | .start wait _ => s.leavesOff wait
  | .restart wait _ => !wait
  | .background => s.leavesOff false
  | .stop _ | .wait _ | .lease _ | .shutdown => false

/-- **What the first stretch of a call adds to the table.** -/
theorem enter_spawns (s : Sup) (q : Request) : (s.enter q).1.calls =
    s.calls ++ if s.detaches q then [continuation] else [] := by
  have hnone : ∀ r : Sup, r.calls = s.calls →
      r.calls = s.calls ++ if false then [continuation] else [] :=
    fun r hr => hr.trans (List.append_nil _).symm
  cases q with
  | start wait timeout => exact start_spawns { s with core := s.core.touch } wait
  | stop wait => exact hnone _ rfl
  | restart wait timeout =>
    cases wait with
    | true => exact hnone _ (start_true_calls { s with core := s.core.touch.stop })
    | false => rfl
  | wait timeout =>
    refine hnone _ ?_
    simp only [enter]
    split <;> rfl
  | lease wake =>
    refine hnone _ ?_
    cases wake with
    | true =>
      simp only [enter, if_true, lease_calls]
      exact start_true_calls { s with leases := s.leases + 1 }
    | false =>
      simp only [enter, Bool.false_eq_true, if_false]
      split <;> exact lease_calls _
  | shutdown => exact hnone _ rfl
  | background => exact start_spawns s false

/-- **What a later stretch adds to the table**: only a task of `_spawn` at its first step adds
another one. -/
theorem wake_spawns (h : s.wake t = some r) : r.1.calls =
    s.calls ++ if t.pc == .created && s.leavesOff false then [continuation] else [] := by
  have hnone : ∀ {pc : CallPc} {l : List Call}, pc ≠ .created → l = s.calls →
      l = s.calls ++ if pc == .created && s.leavesOff false then [continuation] else [] := by
    intro pc l hpc hl
    rw [hl, beq_eq_false_iff_ne.mpr hpc]
    exact (List.append_nil _).symm
  unfold wake at h
  split at h
  · rename_i hpc
    cases h
    rw [hpc]
    exact start_spawns s false
  · rename_i hpc
    rw [hpc]
    split at h
    · cases h
      refine hnone (by simp) ?_
      cases t.request with
      | stop | shutdown => rfl
      | start | restart | wait | lease | background =>
        simp only [afterStop, andThen_calls]
        exact start_true_calls s
    · cases h
  · rename_i hpc
    rw [hpc]
    split at h
    · cases h
      exact hnone (by simp) (andThen_calls _ _)
    · cases h
      exact hnone (by simp) (andThen_calls _ _)
    · cases h
  · rename_i hpc
    cases h
    rw [hpc]
    exact hnone (by simp) rfl
  · cases h
  · cases h

/-! ### A stretch keeps the count -/

/-- The counter moves with what the call holds, and the call stays where it can wait. -/
structure Balanced (s : Sup) (t : Call) (r : Sup × CallPc) : Prop where
  leases : r.1.leases + t.leasing.toNat =
    s.leases + ({ t with pc := r.2 } : Call).leasing.toNat
  proper : ({ t with pc := r.2 } : Call).Proper

/-- The wait of a turn of `_start`. -/
theorem start_pc (s : Sup) (wait : Bool) :
    (s.start wait).2 ≠ .created ∧ (s.start wait).2 ≠ .killServer := by
  have hjoin : ∀ l : Lifecycle, l.joinBoot ≠ .created ∧ l.joinBoot ≠ .killServer := by
    intro l
    unfold Lifecycle.joinBoot
    split <;> simp
  have hstop : s.awaitStop (.ended .asserted) ≠ .created ∧
      s.awaitStop (.ended .asserted) ≠ .killServer := by
    unfold awaitStop
    split
    · split <;> simp
    · simp
  unfold start
  split
  · simp
  · split
    · simp
    · cases wait with
      | true => exact hstop
      | false => simp
    · cases wait with
      | true => exact hjoin s.core.beginBoot
      | false => simp
    · cases wait with
      | true => exact hjoin s.core
      | false => simp

theorem lease_pc (h : r.2 ≠ .created ∧ r.2 ≠ .killServer) :
    (lease r).2 ≠ .created ∧ (lease r).2 ≠ .killServer := by
  unfold lease
  split
  · split <;> simp
  · simp
  · exact h

theorem andThen_pc (q : Request) (h : r.2 ≠ .created ∧ r.2 ≠ .killServer) :
    (andThen q r).2 ≠ .created ∧ (andThen q r).2 ≠ .killServer := by
  cases q with
  | lease wake => exact lease_pc h
  | start | stop | restart | wait | shutdown | background => exact h

/-- What a call that is no passive lease does with the outcome of its wait. -/
theorem balanced_andThen (hq : t.request ≠ .lease false) (hover : t.pc.finished = false)
    (hleases : r.1.leases = s.leases) (hpc : r.2 ≠ .created ∧ r.2 ≠ .killServer) :
    s.Balanced t (andThen t.request r) := by
  have hnew := andThen_pc t.request hpc
  refine ⟨?_, fun h => absurd h hnew.1, fun h => absurd h hnew.2, fun h => absurd h hq⟩
  have hcount := andThen_leases t.request r
  simp only [Call.leasing, hover, hcount, hleases]
  cases t.request.isLease <;> cases (andThen t.request r).2.finished <;> simp

/-- A stretch of a call that holds no lease. -/
theorem balanced_of_not_lease (hq : t.request.isLease = false)
    (hleases : r.1.leases = s.leases)
    (hpc : ({ t with pc := r.2 } : Call).Proper) : s.Balanced t r := by
  refine ⟨?_, hpc⟩
  simp only [Call.leasing, hq, hleases, Bool.false_and]

theorem wake_balanced (ht : t.Proper) (h : s.wake t = some r) : s.Balanced t r := by
  unfold wake at h
  split at h
  · rename_i hpc
    cases h
    have hq := ht.1 hpc
    have hnew := start_pc s false
    refine balanced_of_not_lease (by rw [hq]; rfl) (start_leases s false)
      ⟨fun _ => hq, fun h => absurd h hnew.2, fun h => ?_⟩
    cases hq.symm.trans h
  · rename_i k hpc
    have hover : t.pc.finished = false := by rw [hpc]; rfl
    have hpassive : t.request ≠ .lease false := by
      intro hq
      rcases ht.2.2 hq with h | h
      · cases hpc.symm.trans h
      · rw [hover] at h; cases h
    split at h
    · cases h
      cases hq : t.request with
      | stop wait =>
        refine balanced_of_not_lease (by rw [hq]; rfl) rfl ⟨nofun, nofun, fun h => ?_⟩
        cases hq.symm.trans h
      | shutdown =>
        refine balanced_of_not_lease (by rw [hq]; rfl) rfl ⟨nofun, fun _ => hq, fun h => ?_⟩
        cases hq.symm.trans h
      | start | restart | wait | lease | background =>
        have hand := balanced_andThen (s := s) (r := s.start true) hpassive hover
          (start_leases s true) (start_pc s true)
        rw [hq] at hand
        exact hand
    · cases h
  · rename_i f hpc
    have hover : t.pc.finished = false := by rw [hpc]; rfl
    have hpassive : t.request ≠ .lease false := by
      intro hq
      rcases ht.2.2 hq with h | h
      · cases hpc.symm.trans h
      · rw [hover] at h; cases h
    split at h
    · cases h
      exact balanced_andThen hpassive hover rfl ⟨nofun, nofun⟩
    · cases h
      exact balanced_andThen hpassive hover rfl ⟨nofun, nofun⟩
    · cases h
  · rename_i hpc
    cases h
    have hq := ht.2.1 hpc
    refine balanced_of_not_lease (by rw [hq]; rfl) rfl ⟨nofun, nofun, fun h => ?_⟩
    cases hq.symm.trans h
  · cases h
  · cases h

theorem expire_balanced (h : s.expire t = some r) : s.Balanced t r := by
  unfold expire at h
  split at h
  · rename_i f timeout hpc htimeout
    split at h
    · cases h
    · cases h
      refine balanced_andThen (fun hq => ?_) (by rw [hpc]; rfl) rfl ⟨nofun, nofun⟩
      rw [hq] at htimeout
      cases htimeout
  · cases h

theorem leave_balanced {ok : Bool} (h : s.leave t ok = some r) : s.Balanced t r := by
  unfold leave at h
  split at h
  · rename_i wake hpc hq
    cases h
    refine ⟨?_, nofun, nofun, fun _ => .inr rfl⟩
    simp only [Call.leasing, hq, hpc, release]
    split <;> simp [Request.isLease, CallPc.finished]
  · cases h

theorem cancel_balanced (h : s.cancel t = some r) : s.Balanced t r := by
  unfold cancel at h
  split at h
  · cases h
  · rename_i wake hq hpc
    cases h
    refine ⟨?_, by simp, by simp, fun _ => .inr rfl⟩
    simp only [Call.leasing, CallPc.finished_of_ne hpc, hq, release]
    simp [Request.isLease, CallPc.finished]
  · rename_i hpc hq
    cases h
    refine balanced_of_not_lease ?_ rfl ⟨by simp, by simp, fun _ => .inr rfl⟩
    cases hr : t.request with
    | lease wake => exact absurd hr (hq wake)
    | start | stop | restart | wait | shutdown | background => rfl

/-! ### The first stretch -/

/-- The first stretch of a call counts its lease when it stays open. -/
theorem enter_leases (q : Request) : (s.enter q).1.leases =
    s.leases + (({ request := q, pc := (s.enter q).2 } : Call).leasing).toNat := by
  have hlease : ∀ r : Sup × CallPc, r.1.leases = s.leases + 1 →
      (lease r).1.leases = s.leases + ((!(lease r).2.finished).toNat : Int) := by
    intro r hr
    rw [lease_leases, hr]
    cases (lease r).2.finished <;> simp
  cases q with
  | start wait timeout => exact (start_leases _ wait).trans (add_zero _).symm
  | stop wait => exact (add_zero _).symm
  | restart wait timeout =>
    cases wait with
    | true => exact (start_leases _ true).trans (add_zero _).symm
    | false => exact (add_zero _).symm
  | wait timeout =>
    refine Eq.trans ?_ (add_zero _).symm
    simp only [enter]
    split <;> rfl
  | lease wake =>
    cases wake with
    | true => exact hlease _ (start_leases _ true)
    | false =>
      simp only [enter, Bool.false_eq_true, if_false, Call.leasing, Request.isLease,
        Bool.true_and]
      split <;> exact hlease _ rfl
  | shutdown => exact (add_zero _).symm
  | background => exact (start_leases s false).trans (add_zero _).symm

/-- Where a call waits first. -/
theorem enter_proper (q : Request) :
    ({ request := q, pc := (s.enter q).2 } : Call).Proper := by
  have hplain : ∀ (q : Request) (pc : CallPc), q ≠ .lease false →
      pc ≠ .created ∧ pc ≠ .killServer → ({ request := q, pc } : Call).Proper :=
    fun q pc hq hpc => ⟨fun h => absurd h hpc.1, fun h => absurd h hpc.2, fun h => absurd h hq⟩
  have hstop : ∀ (s : Sup) (done : CallPc), done ≠ .created →
      s.awaitStop done ≠ .created ∧ (s.awaitStop done = .killServer → done = .killServer) := by
    intro s done hdone
    unfold awaitStop
    split
    · split
      · simp
      · exact ⟨hdone, id⟩
    · exact ⟨hdone, id⟩
  cases q with
  | start wait timeout => exact hplain _ _ (by simp) (start_pc _ wait)
  | stop wait =>
    cases wait with
    | true =>
      have h := hstop { s with core := s.core.stop } (.ended .returned) (by simp)
      exact ⟨fun hc => absurd hc h.1, fun hk => absurd (h.2 hk) (by simp), by simp⟩
    | false => exact ⟨by simp [enter], by simp [enter], by simp⟩
  | restart wait timeout =>
    cases wait with
    | true => exact hplain _ _ (by simp) (start_pc _ true)
    | false => exact ⟨by simp [enter], by simp [enter], by simp⟩
  | wait timeout =>
    refine hplain _ _ (by simp) ?_
    simp only [enter]
    split
    · simp
    · unfold Lifecycle.joinBoot
      split <;> simp
    · simp
  | lease wake =>
    cases wake with
    | true => exact hplain _ _ (by simp) (lease_pc (start_pc _ true))
    | false =>
      have hdone : ∀ (s : Sup) (res : Result),
          (lease (s, .ended res)).2 = .leased ∨ (lease (s, .ended res)).2.finished = true := by
        intro s res
        unfold lease
        split
        · split
          · exact .inl rfl
          · exact .inr rfl
        · exact .inr rfl
        · rename_i pc _ hne
          exact absurd rfl (hne res)
      have hproper : ∀ (s : Sup) (res : Result),
          ({ request := .lease false, pc := (lease (s, .ended res)).2 } : Call).Proper := by
        intro s res
        refine ⟨fun hc => ?_, fun hk => ?_, fun _ => hdone s res⟩
        · have hc' : (lease (s, .ended res)).2 = .created := hc
          rcases hdone s res with h | h <;> rw [hc'] at h <;> cases h
        · have hk' : (lease (s, .ended res)).2 = .killServer := hk
          rcases hdone s res with h | h <;> rw [hk'] at h <;> cases h
      simp only [enter, Bool.false_eq_true, if_false]
      split <;> exact hproper _ _
  | shutdown =>
    have h := hstop { s with core := s.core.shutdown } .killServer (by simp)
    exact ⟨fun hc => absurd hc h.1, fun _ => rfl, by simp⟩
  | background => exact hplain _ _ (by simp) (start_pc s false)

/-! ### Every step keeps the count -/

/-- The counter counts the open leases, and every call is where it can wait. -/
structure Counted (s : Sup) : Prop where
  count : s.leases = s.openLeases
  proper : ∀ t ∈ s.calls, t.Proper

theorem Counted.initial (h : s.Initial) : s.Counted := by
  obtain ⟨-, hcalls, hleases⟩ := h
  refine ⟨?_, fun t ht => ?_⟩
  · rw [hleases, openLeases, hcalls]
    rfl
  · rw [hcalls] at ht
    cases ht

theorem Counted.core (h : s.Counted) (core : Lifecycle) : ({ s with core } : Sup).Counted :=
  ⟨h.count, h.proper⟩

/-- A new call. -/
theorem Counted.addCall (h : s.Counted) (q : Request) :
    (Sup.addCall q (s.enter q)).Counted := by
  have hnew : (Sup.addCall q (s.enter q)).calls =
      s.calls ++ [{ request := q, pc := (s.enter q).2 }] ∨
      (Sup.addCall q (s.enter q)).calls =
        s.calls ++ [continuation] ++ [{ request := q, pc := (s.enter q).2 }] := by
    have hcalls := enter_spawns s q
    split at hcalls
    · exact .inr (congrArg (· ++ _) hcalls)
    · exact .inl (congrArg (· ++ _) (hcalls.trans (List.append_nil _)))
  have hleases : (Sup.addCall q (s.enter q)).leases = (s.enter q).1.leases := rfl
  refine ⟨?_, fun t ht => ?_⟩
  · rw [hleases, enter_leases, h.count]
    have hone : ∀ x : Call, [x].countP Call.leasing = x.leasing.toNat := by
      intro x
      cases hx : x.leasing <;> simp [hx]
    have hcont : continuation.leasing = false := rfl
    unfold openLeases
    rcases hnew with hnew | hnew <;> rw [hnew]
    · rw [List.countP_append, hone, Nat.cast_add]
    · rw [List.countP_append, List.countP_append, hone, hone, hcont, Nat.cast_add,
        Bool.toNat_false, add_zero]
  · have hproper : t ∈ s.calls ∨ t = continuation ∨
        t = { request := q, pc := (s.enter q).2 } := by
      rcases hnew with hnew | hnew <;> rw [hnew] at ht <;> simp at ht <;> tauto
    rcases hproper with ht | rfl | rfl
    · exact h.proper t ht
    · exact ⟨fun _ => rfl, nofun, nofun⟩
    · exact enter_proper q

/-- A stretch of a call. -/
theorem Counted.setCall (h : s.Counted) {c : Nat} (hc : s.calls[c]? = some t)
    (hcalls : r.1.calls = s.calls ∨ r.1.calls = s.calls ++ [continuation])
    (hr : s.Balanced t r) : (setCall c r).Counted := by
  have hold : r.1.calls[c]? = some t := by
    rcases hcalls with hcalls | hcalls <;> rw [hcalls]
    · exact hc
    · exact Table.append_old hc
  have hcount : r.1.calls.countP Call.leasing = s.openLeases := by
    rcases hcalls with hcalls | hcalls <;> rw [hcalls]
    · rfl
    · simp [openLeases, continuation, Call.leasing, Request.isLease]
  refine ⟨?_, fun u hu => ?_⟩
  · have hmod := Table.countP_modify (p := Call.leasing) (f := ({ · with pc := r.2 })) hold
    have hleases := hr.leases
    have hcnt := h.count
    have hset : (Sup.setCall c r).openLeases =
        (r.1.calls.modify c ({ · with pc := r.2 })).countP Call.leasing := rfl
    have hl : (Sup.setCall c r).leases = r.1.leases := rfl
    rw [hset, hl]
    omega
  · obtain ⟨i, hi⟩ := List.mem_iff_getElem?.mp hu
    obtain ⟨y, hy, ⟨rfl, rfl⟩ | ⟨hne, rfl⟩⟩ := Table.cases_modify hi
    · cases hold.symm.trans hy
      exact hr.proper
    · have hmem := List.mem_of_getElem? hy
      rcases hcalls with hcalls | hcalls <;> rw [hcalls] at hmem
      · exact h.proper u hmem
      · rcases List.mem_append.mp hmem with hmem | hmem
        · exact h.proper u hmem
        · rw [List.mem_singleton.mp hmem]
          exact ⟨fun _ => rfl, nofun, nofun⟩

theorem idleCheck_eq (cfg : Config) (s : Sup) : ∃ core, s.idleCheck cfg = { s with core } := by
  unfold idleCheck
  split
  · exact ⟨s.core, rfl⟩
  · split
    · exact ⟨s.core.halt, rfl⟩
    · exact ⟨s.core, rfl⟩

/-- **Every step keeps the count of the open leases.** -/
theorem Counted.step (h : s.Counted) {ev : SupEvent} (hstep : s.step cfg ev = some s') :
    s'.Counted := by
  cases ev with
  | call q =>
    simp only [Sup.step] at hstep
    split at hstep
    · cases hstep
    · cases hstep
      exact h.addCall q
  | resume c =>
    obtain ⟨t, hc, hstep⟩ := Option.bind_eq_some_iff.mp hstep
    obtain ⟨r, hr, rfl⟩ := Option.map_eq_some_iff.mp hstep
    refine h.setCall hc ?_ (wake_balanced (h.proper t (List.mem_of_getElem? hc)) hr)
    have hcalls := wake_spawns hr
    split at hcalls
    · exact .inr hcalls
    · exact .inl (hcalls.trans (List.append_nil _))
  | expire c =>
    obtain ⟨t, hc, hstep⟩ := Option.bind_eq_some_iff.mp hstep
    obtain ⟨r, hr, rfl⟩ := Option.map_eq_some_iff.mp hstep
    exact h.setCall hc (.inl (expire_calls hr)) (expire_balanced hr)
  | leave c ok =>
    obtain ⟨t, hc, hstep⟩ := Option.bind_eq_some_iff.mp hstep
    obtain ⟨r, hr, rfl⟩ := Option.map_eq_some_iff.mp hstep
    exact h.setCall hc (.inl (leave_calls hr)) (leave_balanced hr)
  | cancel c =>
    obtain ⟨t, hc, hstep⟩ := Option.bind_eq_some_iff.mp hstep
    obtain ⟨r, hr, rfl⟩ := Option.map_eq_some_iff.mp hstep
    exact h.setCall hc (.inl (cancel_calls hr)) (cancel_balanced hr)
  | tick r =>
    obtain ⟨t, -, hstep⟩ := Option.bind_eq_some_iff.mp hstep
    split at hstep
    · cases hstep
    · split at hstep
      · cases hstep
        obtain ⟨core, hcore⟩ := idleCheck_eq cfg s
        rw [hcore]
        exact h.core core
      · cases hstep
        exact h
      · cases hstep
  | loop e =>
    simp only [Sup.step] at hstep
    split at hstep
    · cases hstep
    · obtain ⟨core, -, rfl⟩ := Option.map_eq_some_iff.mp hstep
      exact h.core core

/-! ### The idle check and the passive leases -/

/-- What the idle check found when it stopped Android. -/
theorem Counted.idle (h : s.Counted) : (s.idleCheck cfg).core = s.core ∨
    (s.idleCheck cfg).core = s.core.halt ∧ s.core.ctl.state = .running ∧ s.openLeases = 0 ∧
      0 < cfg.idleStopSeconds ∧ ∃ activity, s.core.info.activity = some activity ∧
        (cfg.idleStopSeconds : ℚ) ≤ s.core.info.wall - activity := by
  unfold idleCheck
  split
  · exact .inl rfl
  · rename_i hgo
    simp only [not_or, not_not] at hgo
    obtain ⟨hlimit, hleases, hrun⟩ := hgo
    split
    · rename_i hidle
      have hopen : s.openLeases = 0 := by
        have hcount := h.count
        omega
      refine .inr ⟨rfl, hrun, hopen, Nat.pos_of_ne_zero hlimit, ?_⟩
      unfold Lifecycle.idleSeconds at hidle
      split at hidle
      · exact absurd (Nat.le_zero.mp hidle) hlimit
      · rename_i activity hactivity
        refine ⟨activity, hactivity, ?_⟩
        have hfloor : (cfg.idleStopSeconds : Int) ≤ (s.core.info.wall - activity).floor := by
          omega
        exact_mod_cast Rat.le_floor_iff.mp hfloor
    · exact .inl rfl

/-- A call that is over does not go on. -/
theorem wake_finished (h : t.pc.finished = true) : s.wake t = none := by
  cases hpc : t.pc with
  | ended res => simp only [wake, hpc]
  | created | stopping | joining | leased | killServer =>
    rw [hpc] at h
    cases h

/-- A lease without `wake` leaves the lifecycle alone in each of its steps. -/
theorem Counted.passive (h : s.Counted) {ev : SupEvent} (hev : s.Passive ev)
    (hstep : s.step cfg ev = some s') : s'.core = s.core := by
  have hwait : ∀ {c : Nat}, (∃ t, s.calls[c]? = some t ∧ t.request = .lease false) →
      ∀ {t : Call}, s.calls[c]? = some t → t.request = .lease false ∧
        (t.pc = .leased ∨ t.pc.finished = true) := by
    rintro c ⟨t, ht, hq⟩ t' ht'
    cases ht.symm.trans ht'
    exact ⟨hq, (h.proper t (List.mem_of_getElem? ht)).2.2 hq⟩
  cases ev with
  | call q =>
    have hq : q = .lease false := hev
    subst hq
    cases hstep
    have hcore : (s.enter (.lease false)).1.core = s.core := by
      simp only [enter, Bool.false_eq_true, if_false]
      split <;> exact lease_core _
    exact hcore
  | resume c =>
    obtain ⟨t, hc, hstep⟩ := Option.bind_eq_some_iff.mp hstep
    obtain ⟨r, hr, rfl⟩ := Option.map_eq_some_iff.mp hstep
    obtain ⟨-, hpc | hpc⟩ := hwait hev hc
    · simp only [wake, hpc] at hr
      cases hr
    · rw [wake_finished hpc] at hr
      cases hr
  | expire c =>
    obtain ⟨t, hc, hstep⟩ := Option.bind_eq_some_iff.mp hstep
    obtain ⟨r, hr, rfl⟩ := Option.map_eq_some_iff.mp hstep
    exact expire_core hr
  | leave c ok =>
    obtain ⟨t, hc, hstep⟩ := Option.bind_eq_some_iff.mp hstep
    obtain ⟨r, hr, rfl⟩ := Option.map_eq_some_iff.mp hstep
    obtain ⟨hq, -⟩ := hwait hev hc
    unfold leave at hr
    split at hr
    · rename_i wake hpc hwake
      cases hr
      cases hq.symm.trans hwake
      simp [Sup.setCall, release]
    · cases hr
  | cancel c =>
    obtain ⟨t, hc, hstep⟩ := Option.bind_eq_some_iff.mp hstep
    obtain ⟨r, hr, rfl⟩ := Option.map_eq_some_iff.mp hstep
    exact cancel_core hr
  | tick r => exact absurd hev id
  | loop e => exact absurd hev id

end Sup

/-! ### Every reachable state -/

/-- **Idle stop and leases**: in every reachable state the counter counts the open leases,
the idle check stops only an idle Android, and passive leases leave the lifecycle alone. -/
theorem lease_accounting {cfg : Config} {s : Sup} (h : (supervisor cfg).Reachable s) :
    s.LeasesOk cfg := by
  have hs : s.Counted := h.invariant (fun _ => Sup.Counted.initial) fun _ _ _ hs _ => hs.step
  refine ⟨hs.count, fun r s' hstep => ?_, fun _ _ hev hstep => hs.passive hev hstep⟩
  obtain ⟨t, -, hstep⟩ := Option.bind_eq_some_iff.mp hstep
  split at hstep
  · cases hstep
  · split at hstep
    · cases hstep
      exact hs.idle
    · cases hstep
      exact .inl rfl
    · cases hstep

/-- Three leases after a boot; the passive one is left with success. -/
def leaseRun : List SupEvent :=
  bootRun ++ [.call (.lease true), .call (.lease false), .call (.lease true), .leave 2 true,
    .loop (.clock 400 400)]

theorem lease_accounting_nested : ∃ s : Sup,
    (supervisor ⟨300, 180, 30⟩).run Sup.fresh leaseRun = some s ∧ s.openLeases = 2 ∧
      s.core.ctl.state = .running ∧ s.LeasesOk ⟨300, 180, 30⟩ := by
  have hstart : (supervisor ⟨300, 180, 30⟩).Reachable Sup.fresh := .init Sup.fresh_initial
  obtain ⟨s, hs, hopen, hrun⟩ : ∃ s : Sup,
      (supervisor ⟨300, 180, 30⟩).run Sup.fresh leaseRun = some s ∧ s.openLeases = 2 ∧
        s.core.ctl.state = .running :=
    ⟨_, rfl, rfl, rfl⟩
  exact ⟨s, hs, hopen, hrun, lease_accounting (hstart.of_run hs)⟩

end Supervisor

end AndroidAppliance
