import AndroidAppliance.Input.Carried

/-!
# The tasks of a session

The reader, the task of the wheel and the keys lane keep `Hands.Ok`: while they run, what is
down is known from the tables and from what the tasks have to deliver. `Safe` says when a
cancelled send loses nothing.
-/

namespace AndroidAppliance

namespace Input

open Session Strokes

/-! ### The session -/

namespace Hands

/-- The tasks of the session are not over yet. -/
def busy (v : Hands) : Prop :=
  v.stage = .running ∨ v.stage = .gathering ∨ v.stage = .closingKeys

/-- What is down is known, until `_let_go` has sent it. -/
structure Ok (printable : Char → Bool) (v : Hands) : Prop where
  contacts : v.busy → Contacts v.pointers v.next v.reader v.wheel v.log
  keys : v.busy → Carried printable v.held v.keys v.log
  reader : v.stage ≠ .running → v.reader = .finished
  wheel : v.stage ≠ .running → v.stage ≠ .gathering → v.wheel = .finished
  lane : ¬v.busy → v.keys = .finished
  sends : ∀ rest, v.stage = .lettingGo rest → (∀ s ∈ rest.flatten, s.down = false) ∧
    ∀ x, isDown v.log x = true → ∃ s ∈ rest.flatten, s.thing = x
  closed : v.stage = .closed → ∀ x, isDown v.log x = false
  /-- Only the press of BACK is a job of its own. -/
  jobs : ∀ e, Job.send e ∈ v.jobs → e.eventType ≠ .down

/-- No cancelled send loses the lift of a contact or the key-up of a key that is down. -/
def Safe (v : Hands) : Event → Prop
  | .end | .close => ∀ i, v.reader.lifts i → isDown v.log (.contact i) = false
  | .closeKeys => ∀ c, v.keys.releases c → isDown v.log (.key c) = true → c ∈ heldCodes v.held
  | .touch _ | .mouse _ _ | .wheel | .key _ _ | .button _ _ | .text _ | .gesture | .deliverInput
  | .sentInput | .deliverWheel | .scroll _ | .job | .deliverKey | .sentKey | .pasted | .letGo
  | .release => True

variable {printable : Char → Bool} {v v' : Hands}

/-- In the beginning nothing is down. -/
theorem Ok.initial (h : v.Initial) : v.Ok printable := by
  rw [h]
  refine ⟨fun _ => ⟨List.nodup_nil, ?_, nofun, ?_, ?_, nofun⟩, fun _ => ⟨?_, ?_, ?_⟩, nofun, nofun,
    fun hbusy => absurd (.inl rfl) hbusy, nofun, nofun, nofun⟩
  · exact fun i hi => absurd hi Bool.false_ne_true
  · exact fun i hi => (nomatch hi)
  · exact fun i hi => hi.elim
  · exact fun c hc => absurd hc Bool.false_ne_true
  · exact fun e he => (nomatch he)
  · exact fun q hq => (nomatch hq)

/-- A step of the tasks that `_close` does not take. -/
theorem Ok.stay (h : v.Ok printable) (hbusy : v.busy) (hstage : v'.stage = v.stage)
    (hjobs : v'.jobs = v.jobs)
    (hcontacts : Contacts v'.pointers v'.next v'.reader v'.wheel v'.log)
    (hkeys : Carried printable v'.held v'.keys v'.log)
    (hreader : v.reader = .finished → v'.reader = .finished)
    (hwheel : v.wheel = .finished → v'.wheel = .finished) : v'.Ok printable := by
  have hbusy' : v'.busy := by
    unfold busy
    rw [hstage]
    exact hbusy
  exact {
    contacts := fun _ => hcontacts
    keys := fun _ => hkeys
    reader := fun hs => hreader (h.reader (hstage ▸ hs))
    wheel := fun hs hg => hwheel (h.wheel (hstage ▸ hs) (hstage ▸ hg))
    lane := fun hnot => absurd hbusy' hnot
    sends := fun rest hrest => by
      rcases hbusy' with hs | hs | hs <;> rw [hs] at hrest <;> cases hrest
    closed := fun hclosed => by
      rcases hbusy' with hs | hs | hs <;> rw [hs] at hclosed <;> cases hclosed
    jobs := fun e he => h.jobs e (hjobs ▸ he) }

/-- A reader that reads is one of a running session. -/
theorem Ok.running (h : v.Ok printable) (hidle : v.reader ≠ .finished) : v.stage = .running := by
  by_contra hs
  exact hidle (h.reader hs)

/-! ### The reader -/

/-- A job of a paste, or of a key that is not held. -/
theorem Ok.putJob (h : v.Ok printable) (hidle : v.reader = .idle) {j : Job}
    (hj : ∀ e, Job.send e = j → e.eventType ≠ .down) : (v.putJob j).Ok printable := by
  have hbusy : v.busy := .inl (h.running (by rw [hidle]; nofun))
  unfold Hands.putJob
  split
  · refine { h with jobs := fun e he => ?_ }
    rcases List.mem_append.mp he with he | he
    · exact h.jobs e he
    · exact hj e (List.mem_singleton.mp he)
  · have hcontacts := h.contacts hbusy
    refine h.stay hbusy rfl rfl (hcontacts.leave (fun i hi => ?_) fun _ _ _ => ReaderPc.noConfusion)
      (h.keys hbusy) (fun _ => rfl) id
    rw [hidle] at hi
    exact hi.elim

/-- The press of BACK. -/
theorem Ok.pressBack (h : v.Ok printable) (hidle : v.reader = .idle) (back : Bool) :
    (v.pressBack back).Ok printable := by
  unfold Hands.pressBack
  split
  · refine h.putJob hidle fun e he => ?_
    cases he
    nofun
  · exact h

/-- The reader handles touches or the mouse. -/
theorem Ok.sendInput (h : v.Ok printable) (hidle : v.reader = .idle) {p : Pointers} {next : Nat}
    {l : List Touch} (hp : v.pointers.Handles v.next p next l) (back : Bool) :
    (({ v with pointers := p, next } : Hands).sendInput l back).Ok printable := by
  have hbusy : v.busy := .inl (h.running (by rw [hidle]; nofun))
  have hcontacts := h.contacts hbusy
  rw [hidle] at hcontacts
  have hsending : Contacts p next (.sending l false back) v.wheel v.log := hcontacts.handled hp
  unfold Hands.sendInput
  split
  · rename_i hnone
    have hleft : Contacts p next v.reader v.wheel v.log := by
      refine hsending.leave (fun i hi => ?_) fun _ _ _ => ?_
      · obtain ⟨t, ht, -⟩ := hi
        rw [hnone] at ht
        cases ht
      · rw [hidle]
        exact ReaderPc.noConfusion
    have hhandled : ({ v with pointers := p, next } : Hands).Ok printable :=
      h.stay hbusy rfl rfl hleft (h.keys hbusy) id id
    exact hhandled.pressBack hidle back
  · refine h.stay hbusy rfl rfl hsending (h.keys hbusy) (fun hover => ?_) id
    rw [hidle] at hover
    cases hover

/-- A message about touches. -/
theorem Ok.touch (h : v.Ok printable) (hidle : v.reader = .idle)
    (points : List (TouchId × Bool)) : (v.touch points).Ok printable := by
  have hbusy : v.busy := .inl (h.running (by rw [hidle]; nofun))
  unfold Hands.touch
  split
  · exact h
  · exact h.sendInput hidle (Pointers.touches_handles (h.contacts hbusy).distinct _ _) _

/-- A message about the mouse. -/
theorem Ok.mouse (h : v.Ok printable) (hidle : v.reader = .idle) (left right : Bool) :
    (v.mouse left right).Ok printable := by
  have hbusy : v.busy := .inl (h.running (by rw [hidle]; nofun))
  exact h.sendInput hidle (Pointers.mouse_handles (h.contacts hbusy).distinct _ _ _) _

/-- A message about the wheel. -/
theorem Ok.notch (h : v.Ok printable) (hidle : v.reader = .idle) : v.notch.Ok printable := by
  have hbusy : v.busy := .inl (h.running (by rw [hidle]; nofun))
  refine h.stay hbusy rfl rfl ((h.contacts hbusy).move (fun i hi => ?_) fun i hi => ?_)
    (h.keys hbusy) id fun hover => ?_
  · unfold Hands.notch at hi
    dsimp only at hi
    split at hi
    · exact hi.elim
    · exact hi
  · unfold Hands.notch
    dsimp only
    split
    · rename_i hwheel
      rw [hwheel] at hi
      exact hi
    · exact hi
  · unfold Hands.notch
    dsimp only
    rw [hover]
    rfl

/-- The reader is over, or cancelled in a send that loses nothing. -/
theorem Ok.end (h : v.Ok printable)
    (hsafe : ∀ i, v.reader.lifts i → isDown v.log (.contact i) = false) :
    ({ v with reader := .finished } : Hands).Ok printable := by
  refine ⟨fun hbusy => ?_, h.keys, fun _ => rfl, h.wheel, h.lane, h.sends, h.closed, h.jobs⟩
  exact (h.contacts hbusy).leave hsafe fun _ _ _ => ReaderPc.noConfusion

/-- The touches of the reader are delivered. -/
theorem Ok.deliverInput (h : v.Ok printable) (hv : v.deliverInput = some v') :
    v'.Ok printable := by
  unfold Hands.deliverInput at hv
  split at hv
  · rename_i l back hreader
    have hbusy : v.busy := .inl (h.running (by rw [hreader]; nofun))
    have hcontacts := h.contacts hbusy
    rw [hreader] at hcontacts
    cases hv
    refine h.stay hbusy rfl rfl hcontacts.delivered ((h.keys hbusy).touched fun s hs c => ?_)
      (fun hover => ?_) id
    · obtain ⟨t, -, rfl⟩ := List.mem_map.mp hs
      exact Thing.noConfusion
    · rw [hreader] at hover
      cases hover
  · cases hv
  · cases hv
  · cases hv

/-- The send of the reader returns. -/
theorem Ok.sentInput (h : v.Ok printable) (hv : v.sentInput = some v') : v'.Ok printable := by
  unfold Hands.sentInput at hv
  split at hv
  · rename_i l back hreader
    have hbusy : v.busy := .inl (h.running (by rw [hreader]; nofun))
    cases hv
    have hidle : ({ v with reader := .idle } : Hands).Ok printable := by
      refine h.stay hbusy rfl rfl ((h.contacts hbusy).leave (fun i hi => ?_) fun _ _ _ =>
        ReaderPc.noConfusion) (h.keys hbusy) (fun hover => ?_) id
      · rw [hreader] at hi
        exact hi.elim
      · rw [hreader] at hover
        cases hover
    exact hidle.pressBack rfl back
  · cases hv
  · cases hv
  · cases hv

/-! ### The wheel -/

/-- The wheel runs only before the keys lane is closed. -/
theorem Ok.wheeling (h : v.Ok printable) (hwheel : v.wheel ≠ .finished) : v.busy := by
  by_contra hbusy
  have hrunning : v.stage ≠ .running := fun hs => hbusy (.inl hs)
  have hgathering : v.stage ≠ .gathering := fun hs => hbusy (.inr (.inl hs))
  exact hwheel (h.wheel hrunning hgathering)

/-- The touch of a drag is delivered. -/
theorem Ok.deliverWheel (h : v.Ok printable) (hv : v.deliverWheel = some v') :
    v'.Ok printable := by
  unfold Hands.deliverWheel at hv
  have hkeys : v.busy → ∀ i down,
      Carried printable v.held v.keys (v.log ++ [{ thing := .contact i, down }]) :=
    fun hbusy i down => (h.keys hbusy).touched fun s hs c => by
      rw [List.mem_singleton.mp hs]
      exact Thing.noConfusion
  split at hv
  · rename_i i left hwheel
    have hbusy := h.wheeling (by rw [hwheel]; nofun)
    have hcontacts := h.contacts hbusy
    rw [hwheel] at hcontacts
    cases hv
    refine h.stay hbusy rfl rfl (hcontacts.dragged rfl (fun _ hj => hj) (fun _ hj => hj.symm) ?_)
      (hkeys hbusy i _) id (fun hover => ?_)
    · intro hdown
      refine ⟨rfl, fun hdone => ?_⟩
      rw [hdone.1] at hdown
      cases hdown
    · rw [hwheel] at hover
      cases hover
  · rename_i i hwheel
    have hbusy := h.wheeling (by rw [hwheel]; nofun)
    have hcontacts := h.contacts hbusy
    rw [hwheel] at hcontacts
    cases hv
    refine h.stay hbusy rfl rfl (hcontacts.dragged rfl (fun _ hj => hj) (fun _ hj => hj.symm) nofun)
      (hkeys hbusy i _) id (fun hover => ?_)
    rw [hwheel] at hover
    cases hover
  all_goals cases hv

/-- The next drag begins, or the wheel rests. -/
theorem Ok.scrollOn (h : v.Ok printable) (hbusy : v.busy) (hwheel : ∀ i, ¬v.wheel.drags i)
    (hover : v.wheel ≠ .finished) (drag : Bool) : (v.scrollOn drag).Ok printable := by
  have hcontacts := h.contacts hbusy
  have hidle : Contacts v.pointers v.next v.reader .idle v.log :=
    hcontacts.move (fun _ hi => False.elim hi) fun i hi => absurd hi (hwheel i)
  unfold Hands.scrollOn
  split
  · split
    · exact h.stay hbusy rfl rfl (hcontacts.drag hwheel _) (h.keys hbusy) id
        fun hw => absurd hw hover
    · exact h.stay hbusy rfl rfl (hidle.grow (Nat.le_succ _)) (h.keys hbusy) id
        fun hw => absurd hw hover
  · exact h.stay hbusy rfl rfl hidle (h.keys hbusy) id fun hw => absurd hw hover

/-- The task of the wheel goes on. -/
theorem Ok.scroll (h : v.Ok printable) {drag : Bool} (hv : v.scroll drag = some v') :
    v'.Ok printable := by
  unfold Hands.scroll at hv
  split at hv
  · rename_i hwheel
    have hover : v.wheel ≠ .finished := by rw [hwheel]; nofun
    cases hv
    refine h.scrollOn (h.wheeling hover) (fun i hi => ?_) hover drag
    rw [hwheel] at hi
    exact hi
  · rename_i i left hwheel
    have hbusy := h.wheeling (by rw [hwheel]; nofun)
    cases hv
    refine h.stay hbusy rfl rfl ((h.contacts hbusy).move (fun j hj => ?_) fun j hj => ?_)
      (h.keys hbusy) id (fun hover => ?_)
    · rw [hwheel]
      exact hj
    · rw [hwheel] at hj
      exact ⟨hj.1, fun hdone => Bool.false_ne_true hdone.2⟩
    · rw [hwheel] at hover
      cases hover
  · rename_i i hwheel
    have hover : v.wheel ≠ .finished := by rw [hwheel]; nofun
    cases hv
    refine h.scrollOn (h.wheeling hover) (fun j hj => ?_) hover drag
    rw [hwheel] at hj
    exact hj.2 ⟨rfl, rfl⟩
  · rename_i i hwheel
    have hbusy := h.wheeling (by rw [hwheel]; nofun)
    cases hv
    refine h.stay hbusy rfl rfl ((h.contacts hbusy).move (fun j hj => hj.elim) fun j hj => ?_)
      (h.keys hbusy) id fun _ => rfl
    rw [hwheel] at hj
    exact absurd hj.2.symm Bool.false_ne_true
  all_goals cases hv

/-! ### The keys lane -/

/-- A lane that works is one of a running session. -/
theorem Ok.laneBusy (h : v.Ok printable) (hkeys : v.keys ≠ .finished) : v.busy := by
  by_contra hbusy
  exact hkeys (h.lane hbusy)

/-- The lane goes on. -/
theorem Ok.lane_stay (h : v.Ok printable) (hbusy : v.busy) {held : Held} {keys : KeysPc}
    (hkeys : Carried printable held keys v.log) :
    ({ v with held, keys } : Hands).Ok printable :=
  h.stay hbusy rfl rfl (h.contacts hbusy) hkeys id id

/-- The keys that a paste had lifted are pressed again. -/
theorem Ok.restore (h : v.Ok printable) (hbusy : v.busy) (hnone : ∀ c, ¬v.keys.releases c)
    {rest : List KeyEvent} (hrest : ∀ e ∈ rest, e.code ∈ heldCodes v.held) :
    (v.restore rest).Ok printable := by
  have hkeys := h.keys hbusy
  cases rest with
  | nil =>
    refine h.lane_stay hbusy (hkeys.go (fun c hc => absurd hc (hnone c)) fun e he => ?_)
    split at he
    · cases he
    · cases he
  | cons up rest =>
    refine h.lane_stay hbusy (hkeys.go (fun c hc => absurd hc (hnone c)) fun e he => .inr ?_)
    rcases List.mem_cons.mp he with rfl | he
    · exact hrest up (by simp)
    · exact hrest e (List.mem_cons_of_mem _ he)

/-- The keys that are down are lifted for a paste. -/
theorem Ok.lift (h : v.Ok printable) (hbusy : v.busy) (hnone : ∀ c, ¬v.keys.releases c)
    {ups rest : List KeyEvent} (hups : ∀ e ∈ ups, e.code ∈ heldCodes v.held)
    (hrest : ∀ e ∈ rest, e.code ∈ heldCodes v.held) : (v.lift ups rest).Ok printable := by
  have hkeys := h.keys hbusy
  cases rest with
  | nil =>
    exact h.lane_stay hbusy
      (hkeys.go (fun c hc => absurd hc (hnone c)) fun e he => .inr (hups e he))
  | cons up rest =>
    refine h.lane_stay hbusy (hkeys.go (fun c hc => absurd hc (hnone c)) fun e he => .inr ?_)
    rcases List.mem_cons.mp he with rfl | he
    · exact hrest e (by simp)
    · rcases List.mem_append.mp he with he | he
      · exact hups e he
      · exact hrest e (List.mem_cons_of_mem _ he)

/-- A paste. -/
theorem Ok.paste (h : v.Ok printable) (hidle : v.keys = .idle) : v.paste.Ok printable := by
  have hbusy := h.laneBusy (by rw [hidle]; nofun)
  have hmods : ∀ e ∈ v.held.modifiers, e.code ∈ heldCodes v.held := by
    intro e he
    obtain ⟨q, hq, rfl⟩ := List.mem_map.mp (List.mem_filter.mp he).1
    exact List.mem_map.mpr ⟨q, hq, rfl⟩
  refine h.lift hbusy (fun c hc => ?_) hmods hmods
  rw [hidle] at hc
  exact hc.elim

/-- The lane sends a key that it does not hold down. -/
theorem Ok.sendKey (h : v.Ok printable) (hidle : v.keys = .idle) {e : KeyEvent}
    (he : e.eventType ≠ .down) :
    ({ v with keys := .sending e false } : Hands).Ok printable := by
  have hbusy := h.laneBusy (by rw [hidle]; nofun)
  refine h.lane_stay hbusy ((h.keys hbusy).go (fun c hc => ?_) fun e' he' => ?_)
  · rw [hidle] at hc
    exact hc.elim
  · have hnone : (KeysPc.sending e false).carried = [] := if_neg he
    rw [hnone] at he'
    cases he'

/-- A key. -/
theorem Ok.press (h : v.Ok printable) (hidle : v.keys = .idle) (p : Pressed)
    (action : KeyAction) : (v.press printable p action).Ok printable := by
  have hbusy := h.laneBusy (by rw [hidle]; nofun)
  have hkeys := h.keys hbusy
  rw [hidle] at hkeys
  unfold Hands.press
  dsimp only
  by_cases hup : action = .up
  · -- an up takes the key out of the table before anything is sent
    subst hup
    rw [if_pos rfl]
    have hdropped : (∀ e, p.plan printable .up (v.held.has p) ≠ .event e) →
        ({ v with held := v.held.pop p } : Hands).Ok printable := by
      intro hplan
      rw [hkeys.upDropped hplan]
      exact h
    split
    · rename_i text hplan
      exact (hdropped fun e he => by rw [hplan] at he; cases he).paste hidle
    · rename_i hplan
      exact hdropped fun e he => by rw [hplan] at he; cases he
    · rename_i e hplan
      have htype := Carried.plan_up_type hplan
      rw [if_neg (by rw [htype]; nofun)]
      exact h.lane_stay hbusy (hkeys.up hplan)
  · rw [if_neg hup]
    split
    · exact h.paste hidle
    · exact h
    · rename_i e hplan
      split
      · rename_i htype
        split
        · exact h
        · cases action with
          | down => exact h.lane_stay hbusy (hkeys.press hplan htype)
          | up => exact absurd rfl hup
          | press => exact absurd htype (Carried.plan_press hplan)
      · rename_i htype
        exact h.sendKey hidle htype

/-- A job of the lane. -/
theorem Ok.runJob (h : v.Ok printable) (hidle : v.keys = .idle) (j : Job)
    (hj : ∀ e, Job.send e = j → e.eventType ≠ .down) : (v.runJob printable j).Ok printable := by
  cases j with
  | press p action => exact h.press hidle p action
  | paste text => exact h.paste hidle
  | send e => exact h.sendKey hidle (hj e rfl)

/-- The key of the lane is delivered. -/
theorem Ok.deliverKey (h : v.Ok printable) (hv : v.deliverKey = some v') : v'.Ok printable := by
  unfold Hands.deliverKey at hv
  have hcontacts : v.busy → ∀ e, Contacts v.pointers v.next v.reader v.wheel
      (v.log ++ keyStrokes e) := fun hbusy e => (h.contacts hbusy).keyed fun s hs i => by
    unfold keyStrokes at hs
    split at hs
    · rw [List.mem_singleton.mp hs]
      exact Thing.noConfusion
    · rw [List.mem_singleton.mp hs]
      exact Thing.noConfusion
    · cases hs
  split at hv
  · rename_i e hpc
    have hbusy := h.laneBusy (by rw [hpc]; nofun)
    have hkeys := h.keys hbusy
    rw [hpc] at hkeys
    cases hv
    refine h.stay hbusy rfl rfl (hcontacts hbusy e) (hkeys.delivered (fun e' he' => he')
      (fun c hc => hc) fun hdown => hkeys.carried e ?_) id id
    have hone : (KeysPc.sending e false).carried = [e] := if_pos hdown
    rw [hone]
    exact List.mem_singleton_self e
  · rename_i e ups rest hpc
    have hbusy := h.laneBusy (by rw [hpc]; nofun)
    have hkeys := h.keys hbusy
    rw [hpc] at hkeys
    cases hv
    exact h.stay hbusy rfl rfl (hcontacts hbusy e) (hkeys.delivered (fun e' he' => he')
      (fun c hc => hc.elim) fun _ => hkeys.carried e List.mem_cons_self) id id
  · rename_i e rest hpc
    have hbusy := h.laneBusy (by rw [hpc]; nofun)
    have hkeys := h.keys hbusy
    rw [hpc] at hkeys
    cases hv
    exact h.stay hbusy rfl rfl (hcontacts hbusy e) (hkeys.delivered (fun e' he' => he')
      (fun c hc => hc.elim) fun _ => hkeys.carried e List.mem_cons_self) id id
  all_goals cases hv

/-- The send of the lane returns. -/
theorem Ok.sentKey (h : v.Ok printable) (hv : v.sentKey = some v') : v'.Ok printable := by
  unfold Hands.sentKey at hv
  split at hv
  · rename_i e hpc
    have hbusy := h.laneBusy (by rw [hpc]; nofun)
    cases hv
    refine h.lane_stay hbusy ((h.keys hbusy).go (fun c hc => ?_) nofun)
    rw [hpc] at hc
    exact hc
  · rename_i e ups rest hpc
    have hbusy := h.laneBusy (by rw [hpc]; nofun)
    have hcarried := (h.keys hbusy).carried
    rw [hpc] at hcarried
    cases hv
    refine h.lift hbusy (fun c hc => ?_) (fun e' he' => hcarried e' ?_) fun e' he' =>
      hcarried e' ?_
    · rw [hpc] at hc
      exact hc
    · exact List.mem_cons_of_mem _ (List.mem_append_left _ he')
    · exact List.mem_cons_of_mem _ (List.mem_append_right _ he')
  · rename_i e rest hpc
    have hbusy := h.laneBusy (by rw [hpc]; nofun)
    have hcarried := (h.keys hbusy).carried
    rw [hpc] at hcarried
    cases hv
    refine h.restore hbusy (fun c hc => ?_) fun e' he' =>
      hcarried e' (List.mem_cons_of_mem _ he')
    rw [hpc] at hc
    exact hc
  all_goals cases hv

/-- The text of a paste was sent. -/
theorem Ok.pasted (h : v.Ok printable) {ups : List KeyEvent} (hpc : v.keys = .texting ups) :
    (v.restore ups).Ok printable := by
  have hbusy := h.laneBusy (by rw [hpc]; nofun)
  have hcarried := (h.keys hbusy).carried
  rw [hpc] at hcarried
  refine h.restore hbusy (fun c hc => ?_) hcarried
  rw [hpc] at hc
  exact hc

end Hands

end Input

end AndroidAppliance
