import AndroidAppliance.Input.Hands

/-!
# A closed session leaves nothing down

When `_close` has cancelled the tasks, the tables name everything that is down, and `_let_go`
sends it (`nothing_down`).

`_press` and `Pointers` forget a key or a contact before its key-up or lift is delivered, so
a cancelled send can lose it (`lift_lost`).
-/

namespace AndroidAppliance

namespace Input

open Session Strokes

namespace Hands

variable {printable : Char → Bool} {v v' : Hands} {e : Event}

/-! ### `_close` -/

/-- The session is closed, and nothing of the reader is lost. -/
theorem Ok.close (h : v.Ok printable) (hrunning : v.stage = .running)
    (hsafe : ∀ i, v.reader.lifts i → isDown v.log (.contact i) = false) :
    v.close.Ok printable := by
  have hbusy : v.busy := .inl hrunning
  have hended := ((h.contacts hbusy).leave hsafe fun _ _ _ => ReaderPc.noConfusion :
    Contacts v.pointers v.next .finished v.wheel v.log)
  refine ⟨fun _ => hended.move (fun i hi => ?_) fun i hi => ?_, fun _ => h.keys hbusy,
    fun _ => rfl, fun _ hg => absurd rfl hg, fun hnot => absurd (.inr (.inl rfl)) hnot, nofun,
    nofun, h.jobs⟩
  · cases hw : v.wheel with
    | playing j left delivered =>
      rw [Hands.close, hw] at hi
      exact hi
    | lifting j delivered =>
      rw [Hands.close, hw] at hi
      exact hi
    | idle | created | finished =>
      rw [Hands.close, hw] at hi
      exact hi.elim
  · cases hw : v.wheel with
    | playing j left delivered =>
      rw [hw] at hi
      rw [Hands.close, hw]
      exact ⟨hi.1, rfl⟩
    | lifting j delivered =>
      rw [hw] at hi
      rw [Hands.close, hw]
      exact hi
    | idle | created | finished =>
      rw [hw] at hi
      exact hi.elim

/-- The lane is cancelled, and nothing of it is lost. -/
theorem Ok.closeKeys (h : v.Ok printable) (hstage : v.stage = .gathering)
    (hwheel : v.wheel = .finished)
    (hsafe : ∀ c, v.keys.releases c → isDown v.log (.key c) = true → c ∈ heldCodes v.held) :
    v.closeKeys.Ok printable := by
  have hbusy : v.busy := .inr (.inl hstage)
  have hreader := h.reader (by rw [hstage]; nofun)
  have hclosing : ({ v with jobs := [], cancelled := true, stage := .closingKeys } : Hands).Ok
      printable :=
    ⟨fun _ => h.contacts hbusy, fun _ => h.keys hbusy, fun _ => hreader, fun _ _ => hwheel,
      fun hnot => absurd (.inr (.inr rfl)) hnot, nofun, nofun, nofun⟩
  have hbusy' : ({ v with jobs := [], cancelled := true, stage := .closingKeys } : Hands).busy :=
    .inr (.inr rfl)
  have hover := hclosing.lane_stay hbusy' ((h.keys hbusy).cancel hsafe)
  unfold Hands.closeKeys
  dsimp only
  split
  · exact hover
  · exact hover
  · exact hover
  · exact hover
  · rename_i e d ups rest hpc
    have hcarried := (h.keys hbusy).carried
    rw [hpc] at hcarried
    refine hclosing.restore hbusy' (fun c hc => ?_) fun e' he' =>
      hcarried e' (List.mem_cons_of_mem _ (List.mem_append_left _ he'))
    dsimp only at hc
    rw [hpc] at hc
    exact hc
  · rename_i ups hpc
    exact hclosing.pasted hpc

/-- The tables name everything that is down. -/
theorem Ok.letGo (h : v.Ok printable) (hstage : v.stage = .closingKeys)
    (hkeys : v.keys = .finished) : v.letGo.Ok printable := by
  have hbusy : v.busy := .inr (.inr hstage)
  have hreader := h.reader (by rw [hstage]; nofun)
  have hwheel := h.wheel (by rw [hstage]; nofun) (by rw [hstage]; nofun)
  have hcontacts := h.contacts hbusy
  have hcarried := h.keys hbusy
  have hkey : ∀ q ∈ v.held, keyStrokes q.2 = [{ thing := .key q.2.code, down := false }] := by
    intro q hq
    unfold keyStrokes
    rw [(hcarried.ups q hq).1]
  have hnot : ¬v.letGo.busy := by
    rintro (hs | hs | hs) <;> cases hs
  refine ⟨fun hb => absurd hb hnot, fun hb => absurd hb hnot, fun _ => hreader,
    fun _ _ => hwheel, fun _ => hkeys, fun rest hrest => ?_, nofun, h.jobs⟩
  obtain rfl : rest = (if v.pointers.lifts = [] then [] else
      [v.pointers.lifts.map Touch.stroke]) ++ v.held.map fun q => keyStrokes q.2 := by
    cases hrest
    rfl
  have hmem : ∀ s, s ∈ ((if v.pointers.lifts = [] then [] else
      [v.pointers.lifts.map Touch.stroke]) ++ v.held.map fun q => keyStrokes q.2).flatten ↔
        s ∈ v.pointers.lifts.map Touch.stroke ∨ ∃ q ∈ v.held, s ∈ keyStrokes q.2 := by
    intro s
    rw [List.flatten_append, List.mem_append]
    refine or_congr ?_ (by simp)
    split
    · rename_i hnone
      simp [hnone]
    · simp
  refine ⟨fun s hs => ?_, fun x hx => ?_⟩
  · rcases (hmem s).mp hs with hs | ⟨q, hq, hs⟩
    · obtain ⟨t, ht, rfl⟩ := List.mem_map.mp hs
      obtain ⟨c, -, rfl⟩ := List.mem_map.mp ht
      rfl
    · rw [hkey q hq] at hs
      rw [List.mem_singleton.mp hs]
  · cases x with
    | contact i =>
      rcases hcontacts.down i hx with hi | hi | hi
      · obtain ⟨c, hc, rfl⟩ := List.mem_map.mp hi
        exact ⟨_, (hmem _).mpr (.inl (List.mem_map_of_mem (List.mem_map_of_mem hc))), rfl⟩
      · rw [hreader] at hi
        exact hi.elim
      · rw [hwheel] at hi
        exact hi.elim
    | key c =>
      rcases hcarried.down c hx with hc | hc
      · obtain ⟨q, hq, rfl⟩ := List.mem_map.mp hc
        refine ⟨{ thing := .key q.2.code, down := false }, (hmem _).mpr (.inr ⟨q, hq, ?_⟩), rfl⟩
        rw [hkey q hq]
        exact List.mem_singleton_self _
      · rw [hkeys] at hc
        exact hc.elim

/-- `release` sends the next lifts. -/
theorem Ok.release (h : v.Ok printable) (hv : v.release = some v') : v'.Ok printable := by
  unfold Hands.release at hv
  split at hv
  · rename_i strokes rest hstage
    have hnot : ¬v.busy := by
      rintro (hs | hs | hs) <;> rw [hs] at hstage <;> cases hstage
    obtain ⟨hups, hdown⟩ := h.sends _ hstage
    cases hv
    exact {
      contacts := by
        rintro (hs | hs | hs) <;> cases hs
      keys := by
        rintro (hs | hs | hs) <;> cases hs
      reader := fun _ => h.reader (by rw [hstage]; nofun)
      wheel := fun _ _ => h.wheel (by rw [hstage]; nofun) (by rw [hstage]; nofun)
      lane := fun _ => h.lane hnot
      sends := fun rest' hrest => by
        cases hrest
        refine ⟨fun s hs => hups s ?_, fun x hx => ?_⟩
        · rw [List.flatten_cons]
          exact List.mem_append_right _ hs
        · have hfirst : ∀ s ∈ strokes, s.down = false := fun s hs => hups s (by
            rw [List.flatten_cons]
            exact List.mem_append_left _ hs)
          obtain ⟨hold, hnone⟩ := isDown_append_ups hfirst hx
          obtain ⟨s, hs, heq⟩ := hdown x hold
          rw [List.flatten_cons] at hs
          rcases List.mem_append.mp hs with hs | hs
          · exact absurd heq (hnone s hs)
          · exact ⟨s, hs, heq⟩
      closed := nofun
      jobs := h.jobs }
  · rename_i hstage
    have hnot : ¬v.busy := by
      rintro (hs | hs | hs) <;> rw [hs] at hstage <;> cases hstage
    obtain ⟨-, hdown⟩ := h.sends _ hstage
    cases hv
    exact {
      contacts := by
        rintro (hs | hs | hs) <;> cases hs
      keys := by
        rintro (hs | hs | hs) <;> cases hs
      reader := fun _ => h.reader (by rw [hstage]; nofun)
      wheel := fun _ _ => h.wheel (by rw [hstage]; nofun) (by rw [hstage]; nofun)
      lane := fun _ => h.lane hnot
      sends := nofun
      closed := fun _ x => by
        by_contra hx
        obtain ⟨s, hs, -⟩ := hdown x (Bool.not_eq_false _ |>.mp hx)
        cases hs
      jobs := h.jobs }
  all_goals cases hv

/-! ### Every run -/

/-- A message is received by an idle reader. -/
theorem receive_eq {v₁ : Hands} (h : v.receive v₁ = some v') : v.reader = .idle ∧ v' = v₁ := by
  unfold Hands.receive at h
  split at h
  · cases h
    exact ⟨‹_›, rfl⟩
  · cases h

/-- Every step that is safe. -/
theorem Ok.step (h : v.Ok printable) (hsafe : v.Safe e) (hv : v.step printable e = some v') :
    v'.Ok printable := by
  cases e with
  | touch points =>
    obtain ⟨hidle, rfl⟩ := receive_eq hv
    exact h.touch hidle points
  | mouse left right =>
    obtain ⟨hidle, rfl⟩ := receive_eq hv
    exact h.mouse hidle left right
  | wheel =>
    obtain ⟨hidle, rfl⟩ := receive_eq hv
    exact h.notch hidle
  | key key action =>
    obtain ⟨hidle, rfl⟩ := receive_eq hv
    exact h.putJob hidle nofun
  | button b action =>
    obtain ⟨hidle, rfl⟩ := receive_eq hv
    exact h.putJob hidle nofun
  | text text =>
    obtain ⟨hidle, rfl⟩ := receive_eq hv
    split
    · exact h
    · exact h.putJob hidle nofun
  | «end» =>
    cases hv
    exact h.end hsafe
  | gesture =>
    cases hv
    exact { h with contacts := fun hbusy => (h.contacts hbusy).grow (Nat.le_succ _) }
  | deliverInput => exact h.deliverInput hv
  | sentInput => exact h.sentInput hv
  | deliverWheel => exact h.deliverWheel hv
  | scroll drag => exact h.scroll hv
  | job =>
    simp only [Hands.step] at hv
    split at hv
    · rename_i j jobs hidle hjobs
      cases hv
      have htaken : ({ v with jobs } : Hands).Ok printable :=
        { h with jobs := fun e he => h.jobs e (hjobs ▸ List.mem_cons_of_mem _ he) }
      refine htaken.runJob hidle j fun e he => h.jobs e ?_
      rw [hjobs, he]
      exact List.mem_cons_self
    · cases hv
  | deliverKey => exact h.deliverKey hv
  | sentKey => exact h.sentKey hv
  | pasted =>
    simp only [Hands.step] at hv
    split at hv
    · cases hv
      exact h.pasted ‹_›
    all_goals cases hv
  | close =>
    simp only [Hands.step] at hv
    split at hv
    · cases hv
      exact h.close ‹_› hsafe
    · cases hv
  | closeKeys =>
    simp only [Hands.step] at hv
    split at hv
    · rename_i hstage
      cases hv
      exact h.closeKeys hstage.1 hstage.2 hsafe
    · cases hv
  | letGo =>
    simp only [Hands.step] at hv
    split at hv
    · rename_i hstage
      cases hv
      exact h.letGo hstage.1 hstage.2
    · cases hv
  | release => exact h.release hv

end Hands

/-- **A closed session leaves nothing down**, in every run in which no cancelled send loses a
lift or a key-up. -/
theorem nothing_down {printable : Char → Bool} {v : Hands}
    (h : (inputMachine printable).ReachBy Hands.Safe v) (hclosed : v.stage = .closed) (x : Thing) :
    Settled v.log x := by
  have hok : v.Ok printable :=
    h.invariant (fun _ hinit => .initial hinit) fun _ _ _ hv hsafe hstep => hv.step hsafe hstep
  exact settled_of_isDown (hok.closed hclosed x)

/-- A session that was just registered. -/
def fresh : Hands :=
  { pointers := .forget, next := 1, held := [], notches := false, jobs := [], reader := .idle,
    wheel := .idle, keys := .idle, cancelled := false, stage := .running, log := [] }

theorem fresh_initial (printable : Char → Bool) : (inputMachine printable).Init fresh := rfl

/-- A finger and Shift are down when the session is closed. -/
def closedRun : List Hands.Event :=
  [.touch [(.number 0, true)], .deliverInput, .sentInput, .key "Shift" .down, .job, .deliverKey,
    .close, .closeKeys, .letGo, .release, .release, .release]

theorem nothing_down_closed : ∃ v, (inputMachine fun _ => false).run fresh closedRun = some v ∧
    v.log = [⟨.contact 1, true⟩, ⟨.key (.key "Shift"), true⟩, ⟨.contact 1, false⟩,
      ⟨.key (.key "Shift"), false⟩] ∧ ∀ x, Settled v.log x := by
  obtain ⟨v, hrun, hclosed, hlog⟩ : ∃ v,
      (inputMachine fun _ => false).run fresh closedRun = some v ∧ v.stage = .closed ∧
        v.log = [⟨.contact 1, true⟩, ⟨.key (.key "Shift"), true⟩, ⟨.contact 1, false⟩,
          ⟨.key (.key "Shift"), false⟩] := ⟨_, rfl, rfl, rfl⟩
  have hok : (inputMachine fun _ => false).RunOk Hands.Safe fresh closedRun := by
    refine ⟨trivial, fun _ h₁ => ⟨trivial, fun _ h₂ => ⟨trivial, fun _ h₃ => ⟨trivial, fun _ h₄ =>
      ⟨trivial, fun _ h₅ => ⟨trivial, fun _ h₆ => ⟨?_, fun _ h₇ => ⟨?_, fun _ _ => ⟨trivial,
        fun _ _ => ⟨trivial, fun _ _ => ⟨trivial, fun _ _ => ⟨trivial,
          fun _ _ => trivial⟩⟩⟩⟩⟩⟩⟩⟩⟩⟩⟩⟩
    all_goals cases h₁; cases h₂; cases h₃; cases h₄; cases h₅; cases h₆
    · exact fun i hi => hi.elim
    · cases h₇
      exact fun c hc => hc.elim
  exact ⟨v, hrun, hlog, nothing_down (.of_run (.init (fresh_initial _)) hok hrun) hclosed⟩

/-- The close cancels the lift of a finger. -/
def lostRun : List Hands.Event :=
  [.touch [(.number 0, true)], .deliverInput, .sentInput, .touch [(.number 0, false)], .close,
    .closeKeys, .letGo, .release]

/-- The table has forgotten the finger, and it stays down. -/
theorem lift_lost : ¬ ∀ (printable : Char → Bool) (v : Hands),
    (inputMachine printable).Reachable v → v.stage = .closed → ∀ x, Settled v.log x := by
  intro hall
  obtain ⟨v, hrun, hclosed, hlog⟩ : ∃ v,
      (inputMachine fun _ => false).run fresh lostRun = some v ∧ v.stage = .closed ∧
        v.log = [⟨.contact 1, true⟩] := ⟨_, rfl, rfl, rfl⟩
  have hsettled := hall _ v (.of_run (.init (fresh_initial _)) hrun) hclosed (.contact 1)
  rw [hlog] at hsettled
  cases hsettled [] [] rfl

end Input

end AndroidAppliance
