import AndroidAppliance.Status.Basic
import AndroidAppliance.Transition.Table

/-!
# No status update is lost

In every state either a `_notify` is still to run, or every open session has the current status
last in what was queued to it. The flag `_notify_pending` says which, and at most one `_notify` is
scheduled in a turn of the loop.
-/

namespace AndroidAppliance

namespace Status

variable {ρ : Type}

/-! ### Sessions -/

namespace Session

variable {s : Session ρ} {fields : Watched ρ}

/-- The session, if it is open and its outbox did not overflow, was last told these fields. -/
def Told (fields : Watched ρ) (s : Session ρ) : Prop :=
  s.isOpen = true → s.overflowed = false → s.lastStatus = some fields

theorem told_send_status : (s.send (.status fields)).Told fields := by
  intro _ hroom
  unfold send at hroom ⊢
  split at hroom
  · rename_i hlt
    rw [if_pos hlt, lastStatus, List.filterMap_append]
    exact List.getLast?_concat
  · cases hroom

theorem Told.send_other (h : s.Told fields) : (s.send .other).Told fields := by
  intro hopen hroom
  unfold send at hopen hroom ⊢
  split at hroom
  · rename_i hlt
    rw [if_pos hlt] at hopen ⊢
    have hother : (s.queued ++ [Message.other]).filterMap Message.fields? =
        s.queued.filterMap Message.fields? := by
      rw [List.filterMap_append]
      exact List.append_nil _
    rw [lastStatus, hother]
    exact h hopen hroom
  · cases hroom

theorem told_new : (new fields).Told fields := told_send_status

end Session

/-! ### The Supervisor -/

namespace World

variable {w : World ρ}

/-- All sessions are told the current fields. -/
def AllTold (w : World ρ) : Prop := ∀ s ∈ w.sessions, s.Told w.fields

/-- The flag says whether a `_notify` is scheduled; only one is; and sessions have a hub. -/
structure Sound (w : World ρ) : Prop where
  handles : w.due + w.soon = if w.pending then 1 else 0
  hub : w.sessions ≠ [] → Subscriber.hub ∈ w.subscribers

/-- A `_notify` is to run, or all is told. -/
def Fresh (w : World ρ) : Prop := w.pending = true ∨ w.AllTold

/-- A session that changes, and is told as much as before. -/
theorem AllTold.modify (h : w.AllTold) {i : Nat} {f : Session ρ → Session ρ}
    (hf : ∀ s, s.Told w.fields → (f s).Told w.fields) :
    AllTold { w with sessions := w.sessions.modify i f } := by
  intro s hs
  rcases Table.mem_modify hs with hmem | ⟨s', hmem, rfl⟩
  · exact h s hmem
  · exact hf s' (h s' hmem)

theorem Fresh.modify (h : w.Fresh) {i : Nat} {f : Session ρ → Session ρ}
    (hf : ∀ s, s.Told w.fields → (f s).Told w.fields) :
    Fresh { w with sessions := w.sessions.modify i f } :=
  h.imp id fun h => h.modify hf

theorem Sound.modify (h : w.Sound) {i : Nat} {f : Session ρ → Session ρ} :
    Sound { w with sessions := w.sessions.modify i f } := by
  refine ⟨h.handles, fun hne => h.hub fun hnil => hne ?_⟩
  rw [hnil]
  exact List.modify_nil ..

/-! ### Changes -/

theorem changed_eq : w.changed.fields = w.fields ∧ w.changed.subscribers = w.subscribers ∧
    w.changed.sessions = w.sessions ∧ w.changed.due = w.due := by
  unfold changed
  split
  · exact ⟨rfl, rfl, rfl, rfl⟩
  · exact ⟨rfl, rfl, rfl, rfl⟩

theorem Sound.changed (h : w.Sound) : w.changed.Sound := by
  refine ⟨?_, ?_⟩
  · have hhandles := h.handles
    unfold World.changed
    split
    · exact hhandles
    · -- no handle is there, so this is the one
      rename_i hno
      rw [if_neg fun hpending => hno (.inr hpending)] at hhandles
      change w.due + (w.soon + 1) = 1
      omega
  · rw [changed_eq.2.2.1, changed_eq.2.1]
    exact h.hub

/-- After a change a `_notify` is to run, unless there is nobody to tell. -/
theorem Sound.changed_fresh (h : w.Sound) : w.changed.Fresh := by
  by_cases hnone : w.subscribers = []
  · refine .inr fun s hs => ?_
    rw [changed_eq.2.2.1] at hs
    have hhub := h.hub (List.ne_nil_of_mem hs)
    rw [hnone] at hhub
    exact absurd hhub List.not_mem_nil
  · left
    unfold World.changed
    split
    · rename_i hcase
      exact hcase.resolve_left hnone
    · rfl

variable [DecidableEq ρ]

theorem assign_eq (a : Assign ρ) : (w.assign a).subscribers = w.subscribers ∧
    (w.assign a).sessions = w.sessions := by
  unfold assign
  split
  · exact ⟨rfl, rfl⟩
  · exact ⟨changed_eq.2.1, changed_eq.2.2.1⟩

theorem Sound.assign (h : w.Sound) (a : Assign ρ) : (w.assign a).Sound := by
  unfold World.assign
  split
  · exact h
  · exact Sound.changed ⟨h.handles, h.hub⟩

theorem Fresh.assign (h : w.Fresh) (hsound : w.Sound) (a : Assign ρ) : (w.assign a).Fresh := by
  unfold World.assign
  split
  · exact h
  · exact Sound.changed_fresh ⟨hsound.handles, hsound.hub⟩

theorem Sound.assigns (h : w.Sound) (as : List (Assign ρ)) : (as.foldl World.assign w).Sound := by
  induction as generalizing w with
  | nil => exact h
  | cons a as ih => exact ih (h.assign a)

theorem Fresh.assigns (h : w.Fresh) (hsound : w.Sound) (as : List (Assign ρ)) :
    (as.foldl World.assign w).Fresh := by
  induction as generalizing w with
  | nil => exact h
  | cons a as ih => exact ih (h.assign hsound a) (hsound.assign a)

/-! ### Notifications -/

omit [DecidableEq ρ] in
/-- The hub tells every session. -/
theorem allTold_statusChanged : w.statusChanged.AllTold := by
  intro s hs
  obtain ⟨s', -, rfl⟩ := List.mem_map.mp hs
  split
  · exact Session.told_send_status
  · intro hopen
    exact absurd hopen ‹_›

omit [DecidableEq ρ] in
theorem Sound.statusChanged (h : w.Sound) : w.statusChanged.Sound := by
  refine ⟨h.handles, fun hne => h.hub fun hnil => hne ?_⟩
  change w.sessions.map _ = []
  rw [hnil, List.map_nil]

theorem Sound.callback (h : w.Sound) (c : Call ρ) (s : Subscriber) : (w.callback c s).1.Sound := by
  cases s with
  | hub => exact h.statusChanged
  | other => exact h.assigns c.sets

theorem Sound.callAll (h : w.Sound) (calls : Nat → Call ρ) (i : Nat) (l : List Subscriber) :
    (World.callAll calls i w l).Sound := by
  induction l generalizing i w with
  | nil => exact h
  | cons s rest ih => exact ih (h.callback (calls i) s) (i + 1)

/-- Once all is told, the callbacks that follow make no difference. -/
theorem Fresh.callAll (h : w.Fresh) (hsound : w.Sound) (calls : Nat → Call ρ) (i : Nat)
    (l : List Subscriber) : (World.callAll calls i w l).Fresh := by
  induction l generalizing i w with
  | nil => exact h
  | cons s rest ih =>
    refine ih ?_ (hsound.callback (calls i) s) (i + 1)
    -- the hub tells all again; another callback may change something, which schedules
    cases s with
    | hub => exact .inr allTold_statusChanged
    | other => exact h.assigns hsound (calls i).sets

/-- The loop reaches the hub. -/
theorem Sound.callAll_fresh (h : w.Sound) (calls : Nat → Call ρ) (i : Nat) {l : List Subscriber}
    (hhub : Subscriber.hub ∈ l) : (World.callAll calls i w l).Fresh := by
  induction l generalizing i w with
  | nil => exact absurd hhub List.not_mem_nil
  | cons s rest ih =>
    have hsound := h.callback (calls i) s
    cases s with
    | hub => exact Fresh.callAll (.inr allTold_statusChanged) hsound calls (i + 1) rest
    | other => exact ih hsound (i + 1) ((List.mem_cons.mp hhub).resolve_left (by decide))

/-- A `_notify` that is due: whatever the other callbacks do, the sessions are told, or told
again in the next turn. -/
theorem Sound.notify (h : w.Sound) (hdue : w.due ≠ 0) (calls : Nat → Call ρ) :
    (w.notify calls).Sound ∧ (w.notify calls).Fresh := by
  have hhandles := h.handles
  have hbegun : Sound { w with pending := false, due := w.due - 1 } := by
    refine ⟨?_, h.hub⟩
    change w.due - 1 + w.soon = 0
    split at hhandles <;> omega
  refine ⟨hbegun.callAll calls 0 w.subscribers, ?_⟩
  -- where there are sessions the hub is subscribed, so the loop reaches it
  by_cases hnone : w.sessions = []
  · refine Fresh.callAll (.inr fun s hs => ?_) hbegun calls 0 w.subscribers
    change s ∈ w.sessions at hs
    rw [hnone] at hs
    exact absurd hs List.not_mem_nil
  · exact hbegun.callAll_fresh calls 0 (h.hub hnone)

/-! ### Runs -/

/-- **One step** keeps the flag true, and what is told current. -/
theorem Sound.step {w' : World ρ} {e : Event ρ} (h : w.Sound) (hfresh : w.Fresh)
    (hstep : w.step e = some w') : w'.Sound ∧ w'.Fresh := by
  cases e with
  | subscribe callback =>
    cases hstep
    exact ⟨⟨h.handles, fun hne => List.mem_append_left _ (h.hub hne)⟩, hfresh⟩
  | assign a =>
    cases hstep
    exact ⟨h.assign a, hfresh.assign h a⟩
  | join =>
    rw [World.step] at hstep
    split at hstep
    · rename_i hjoin
      cases hstep
      refine ⟨⟨h.handles, fun _ => hjoin.1⟩, hfresh.imp id fun htold s hs => ?_⟩
      rcases List.mem_append.mp hs with hs | hs
      · exact htold s hs
      · rw [List.mem_singleton.mp hs]
        exact Session.told_new
    · cases hstep
  | stream i on =>
    cases hstep
    -- whether a session streams does not matter to what it is told
    have hsound : Sound
        { w with sessions := w.sessions.modify i fun s => { s with streaming := on } } := h.modify
    have htold : Fresh
        { w with sessions := w.sessions.modify i fun s => { s with streaming := on } } :=
      hfresh.modify fun s hs => hs
    exact ⟨hsound.assign _, htold.assign hsound _⟩
  | count =>
    cases hstep
    exact ⟨h.assign _, hfresh.assign h _⟩
  | close i =>
    cases hstep
    exact ⟨h.modify, hfresh.modify fun s _ hopen => by cases hopen⟩
  | send i =>
    cases hstep
    exact ⟨h.modify, hfresh.modify fun s hs => hs.send_other⟩
  | take i =>
    cases hstep
    exact ⟨h.modify, hfresh.modify fun s hs => hs⟩
  | notify calls =>
    rw [World.step] at hstep
    split at hstep
    · cases hstep
    · rename_i hdue
      cases hstep
      exact h.notify hdue calls
  | turn =>
    rw [World.step] at hstep
    split at hstep
    · rename_i hdue
      cases hstep
      have hhandles := h.handles
      rw [hdue, Nat.zero_add] at hhandles
      exact ⟨⟨hhandles, h.hub⟩, hfresh⟩
    · cases hstep

theorem sound_reachable (hreach : (statusMachine ρ).Reachable w) : w.Sound ∧ w.Fresh := by
  refine Machine.ReachBy.invariant (I := fun w => w.Sound ∧ w.Fresh) ?_
    (fun w e w' h _ hstep => h.1.step h.2 hstep) hreach
  rintro w ⟨-, hpending, hdue, hsoon, hsessions⟩
  refine ⟨⟨?_, fun hne => absurd hsessions hne⟩, .inr fun s hs => ?_⟩
  · rw [hdue, hsoon, hpending]
    rfl
  · rw [hsessions] at hs
    exact absurd hs List.not_mem_nil

end World

/-- **No status update is lost**, and the changes in one turn of the loop schedule at most one
`_notify`. -/
theorem status_current [DecidableEq ρ] {w : World ρ} (hreach : (statusMachine ρ).Reachable w) :
    w.Current ∧ w.soon ≤ 1 := by
  obtain ⟨hsound, hfresh⟩ := World.sound_reachable hreach
  have hhandles := hsound.handles
  constructor
  · rcases hfresh with hpending | htold
    · rw [if_pos hpending] at hhandles
      exact .inl (by omega)
    · exact .inr htold
  · split at hhandles
    · omega
    · omega

/-- A session joins after a change and before its `_notify`, and another callback raises. -/
def joinedRun : List (Event Nat) :=
  [.subscribe .other, .subscribe .hub, .join, .assign (.state .starting),
    .assign (.phase (some .preparing)), .join, .turn,
    .notify fun _ => { sets := [.viewers 1], raises := true }, .turn]

/-- A Supervisor that has just been built. -/
def World.built : World Nat where
  fields := { state := .stopped, phase := none, gpu := none, apiLevel := none, viewers := 0,
              lastError := none }
  subscribers := []
  pending := false
  due := 0
  soon := 0
  sessions := []

/-- Both are told all changes, and will be told that of the callback. -/
theorem status_current_joined : ∃ w, (statusMachine Nat).run World.built joinedRun = some w ∧
    w.due = 1 ∧ w.Current := by
  obtain ⟨w, hrun, hdue⟩ : ∃ w, (statusMachine Nat).run World.built joinedRun = some w ∧
      w.due = 1 := ⟨_, rfl, rfl⟩
  have hreach : (statusMachine Nat).Reachable w :=
    .of_run (.init ⟨rfl, rfl, rfl, rfl, rfl⟩) hrun
  exact ⟨w, hrun, hdue, (status_current hreach).1⟩

end Status

end AndroidAppliance
