import Mathlib.Algebra.Order.Ring.Rat
import Mathlib.Data.List.Induction
import Mathlib.Tactic.Linarith

/-!
# The freeze detector

`FreezeDetector` of `web/js/freeze.js`: the video is frozen when the screen changed without a
decoded frame, and none follows within the timeout. A hash is a value of any type, a time a
rational number.

The four fields are about the displays at the end of the history, behind the last frame and the
last reset (`recent`): `pendingSince` is the first change among them. `Summary` says so, and
`frozen_iff` reads it in the terms of the whole history (`Missed`).
-/

namespace AndroidAppliance

namespace Dashboard

/-! ### `web/js/freeze.js` -/

/-- `FreezeDetector`. -/
structure FreezeDetector (α : Type*) where
  timeout : ℚ
  hash : Option α
  frames : Nat
  framesAtDisplay : Nat
  pendingSince : Option ℚ

namespace FreezeDetector

variable {α : Type*}

/-- `new FreezeDetector(timeout)`. -/
def make (α : Type*) (timeout : ℚ) : FreezeDetector α where
  timeout := timeout
  hash := none
  frames := 0
  framesAtDisplay := 0
  pendingSince := none

/-- A display event arrived. -/
def display [DecidableEq α] (d : FreezeDetector α) (hash : α) (now : ℚ) : FreezeDetector α :=
  let changed := d.hash ≠ none ∧ some hash ≠ d.hash
  let framed := d.frames ≠ d.framesAtDisplay
  { d with
    hash := some hash
    framesAtDisplay := d.frames
    pendingSince :=
      if changed ∧ ¬framed ∧ d.pendingSince = none then some now else d.pendingSince }

/-- The video decoded a frame. -/
def frame (d : FreezeDetector α) : FreezeDetector α :=
  { d with frames := d.frames + 1, pendingSince := none }

/-- True when the video has been frozen for the timeout. -/
def frozen (d : FreezeDetector α) (now : ℚ) : Bool :=
  match d.pendingSince with
  | none => false
  | some since => d.timeout ≤ now - since

/-- Forget everything. -/
def reset (d : FreezeDetector α) : FreezeDetector α :=
  { d with hash := none, framesAtDisplay := d.frames, pendingSince := none }

/-! ### The history -/

/-- A call of one of the three methods, and when. -/
inductive Event (α : Type*)
  | display (hash : α) (time : ℚ)
  | frame (time : ℚ)
  | reset (time : ℚ)

/-- The time at which an event happens. -/
def Event.time : Event α → ℚ
  | .display _ time | .frame time | .reset time => time

/-- The screen changed. -/
def Event.isDisplay : Event α → Bool
  | .display _ _ => true
  | .frame _ | .reset _ => false

/-- A frame was decoded. -/
def Event.isFrame : Event α → Bool
  | .frame _ => true
  | .display _ _ | .reset _ => false

/-- The stream was restarted. -/
def Event.isReset : Event α → Bool
  | .reset _ => true
  | .display _ _ | .frame _ => false

/-- The method that an event calls. -/
def handle [DecidableEq α] (d : FreezeDetector α) : Event α → FreezeDetector α
  | .display hash time => d.display hash time
  | .frame _ => d.frame
  | .reset _ => d.reset

/-- The detector after a history. -/
def after [DecidableEq α] (timeout : ℚ) (es : List (Event α)) : FreezeDetector α :=
  es.foldl handle (make α timeout)

/-- At `t` the screen showed a change that no frame came with: a display since the last frame and
the last reset, with another hash than the display before it, which is behind the last reset too,
and no frame between the two. -/
def Missed (es : List (Event α)) (t : ℚ) : Prop :=
  ∃ before hash₀ t₀ between hash post,
    es = before ++ .display hash₀ t₀ :: (between ++ .display hash t :: post) ∧ hash ≠ hash₀ ∧
    (∀ e ∈ between, e.isDisplay = false ∧ e.isFrame = false ∧ e.isReset = false) ∧
    ∀ e ∈ post, e.isFrame = false ∧ e.isReset = false

/-! ### The displays at the end -/

section Recent

variable {es : List (Event α)} {shown : List (α × ℚ)} {hash : α} {t : ℚ}

/-- The displays behind the last frame and the last reset, with their times. -/
def recent (es : List (Event α)) : List (α × ℚ) :=
  es.foldl (fun shown e => match e with
    | .display hash time => shown ++ [(hash, time)]
    | .frame _ | .reset _ => []) []

theorem recent_append_display (es : List (Event α)) (hash : α) (t : ℚ) :
    recent (es ++ [.display hash t]) = recent es ++ [(hash, t)] := by
  simp [recent, List.foldl_append]

theorem recent_append_frame (es : List (Event α)) (t : ℚ) : recent (es ++ [.frame t]) = [] := by
  simp [recent, List.foldl_append]

theorem recent_append_reset (es : List (Event α)) (t : ℚ) : recent (es ++ [.reset t]) = [] := by
  simp [recent, List.foldl_append]

/-- What a display is an event for. -/
def displayed (p : α × ℚ) : Event α := .display p.1 p.2

/-- They are the end of the history. -/
theorem exists_recent (es : List (Event α)) :
    ∃ before, es = before ++ (recent es).map displayed := by
  induction es using List.reverseRecOn with
  | nil => exact ⟨[], rfl⟩
  | append_singleton es e ih =>
    cases e with
    | display hash t =>
      obtain ⟨before, heq⟩ := ih
      refine ⟨before, ?_⟩
      rw [recent_append_display, List.map_append, ← List.append_assoc, ← heq]
      rfl
    | frame t => exact ⟨es ++ [.frame t], by simp [recent_append_frame]⟩
    | reset t => exact ⟨es ++ [.reset t], by simp [recent_append_reset]⟩

theorem recent_append_displays (es : List (Event α)) (shown : List (α × ℚ)) :
    recent (es ++ shown.map displayed) = recent es ++ shown := by
  induction shown using List.reverseRecOn with
  | nil => simp
  | append_singleton shown p ih =>
    rw [List.map_append, ← List.append_assoc, List.map_singleton, displayed,
      recent_append_display, ih, List.append_assoc]

/-- Events without a frame and a reset are displays. -/
theorem exists_displayed {post : List (Event α)}
    (h : ∀ e ∈ post, e.isFrame = false ∧ e.isReset = false) :
    ∃ shown : List (α × ℚ), post = shown.map displayed := by
  induction post with
  | nil => exact ⟨[], rfl⟩
  | cons e post ih =>
    rw [List.forall_mem_cons] at h
    obtain ⟨shown, rfl⟩ := ih h.2
    cases e with
    | display hash t => exact ⟨(hash, t) :: shown, rfl⟩
    | frame t => cases h.1.1
    | reset t => cases h.1.2

variable [DecidableEq α]

/-- The times of the displays whose hash differs from the one before. -/
def changes : List (α × ℚ) → List ℚ
  | p :: q :: shown => (if q.1 ≠ p.1 then [q.2] else []) ++ changes (q :: shown)
  | [] | [_] => []

theorem changes_append (shown : List (α × ℚ)) (p : α × ℚ) : changes (shown ++ [p]) =
    changes shown ++ (if ∃ q ∈ shown.getLast?, p.1 ≠ q.1 then [p.2] else []) := by
  induction shown with
  | nil => simp [changes]
  | cons q shown ih =>
    cases shown with
    | nil => simp [changes]
    | cons r shown =>
      rw [List.cons_append, List.cons_append, changes, changes, List.append_assoc,
        List.getLast?_cons_cons]
      exact congrArg _ ih

/-- The first display is no change. -/
theorem changes_cons_sublist (p : α × ℚ) (shown : List (α × ℚ)) :
    (changes (p :: shown)).Sublist (shown.map Prod.snd) := by
  induction shown generalizing p with
  | nil => exact .slnil
  | cons q shown ih =>
    rw [changes, List.map_cons]
    split
    · exact (ih q).cons_cons q.2
    · exact (ih q).cons q.2

theorem changes_sublist (shown : List (α × ℚ)) :
    (changes shown).Sublist (shown.map Prod.snd) := by
  cases shown with
  | nil => exact .slnil
  | cons p shown => exact (changes_cons_sublist p shown).cons p.2

theorem mem_changes : t ∈ changes shown ↔ ∃ before p q post,
    shown = before ++ p :: q :: post ∧ q.1 ≠ p.1 ∧ q.2 = t := by
  induction shown with
  | nil => simp [changes]
  | cons p shown ih =>
    cases shown with
    | nil =>
      refine ⟨fun h => (by cases h), ?_⟩
      rintro ⟨before, p', q, post, heq, -⟩
      have hlen := congrArg List.length heq
      simp only [List.length_append, List.length_cons, List.length_nil] at hlen
      omega
    | cons q shown =>
      rw [changes, List.mem_append, ih]
      constructor
      · rintro (h | ⟨before, p', q', post, heq, hne, ht⟩)
        · split_ifs at h with hne
          · exact ⟨[], p, q, shown, rfl, hne, (List.mem_singleton.mp h).symm⟩
          · cases h
        · exact ⟨p :: before, p', q', post, by rw [heq]; rfl, hne, ht⟩
      · rintro ⟨before, p', q', post, heq, hne, ht⟩
        cases before with
        | nil =>
          cases heq
          left
          rw [if_pos hne, ht]
          exact List.mem_singleton_self t
        | cons r before =>
          obtain ⟨-, heq⟩ := List.cons.inj heq
          exact .inr ⟨before, p', q', post, heq, hne, ht⟩

theorem missed_iff : Missed es t ↔ t ∈ changes (recent es) := by
  rw [mem_changes]
  constructor
  · rintro ⟨before, hash₀, t₀, between, hash, post, rfl, hne, hbetween, hpost⟩
    -- there is no fourth kind of events
    have hnil : between = [] := by
      cases between with
      | nil => rfl
      | cons e between =>
        obtain ⟨hd, hf, hr⟩ := hbetween e List.mem_cons_self
        cases e with
        | display => cases hd
        | frame => cases hf
        | reset => cases hr
    obtain ⟨shown, rfl⟩ := exists_displayed hpost
    have hend : before ++ .display hash₀ t₀ :: (between ++ .display hash t ::
        shown.map displayed) =
        before ++ ((hash₀, t₀) :: (hash, t) :: shown).map displayed := by
      rw [hnil]
      rfl
    exact ⟨recent before, (hash₀, t₀), (hash, t), shown, by rw [hend, recent_append_displays],
      hne, rfl⟩
  · rintro ⟨front, p, q, shown, heq, hne, rfl⟩
    obtain ⟨before, hes⟩ := exists_recent es
    refine ⟨before ++ front.map displayed, p.1, p.2, [], q.1, shown.map displayed, ?_, hne,
      fun e he => (by cases he), fun e he => ?_⟩
    · rw [hes, heq]
      simp [displayed]
    · obtain ⟨r, -, rfl⟩ := List.mem_map.mp he
      exact ⟨rfl, rfl⟩

end Recent

/-! ### What the fields are about -/

section Summary

variable [DecidableEq α] {timeout : ℚ} {d : FreezeDetector α} {es : List (Event α)}

/-- The fields after a history. -/
structure Summary (timeout : ℚ) (es : List (Event α)) (d : FreezeDetector α) : Prop where
  timeout : d.timeout = timeout
  counted : d.framesAtDisplay ≤ d.frames
  /-- With a display behind the last frame and the last reset, its hash is the base. -/
  base : ∀ p ∈ (recent es).getLast?, d.hash = some p.1 ∧ d.frames = d.framesAtDisplay
  /-- Without one, the next display shows no missed change. -/
  free : recent es = [] → d.hash = none ∨ d.frames ≠ d.framesAtDisplay
  pending : d.pendingSince = (changes (recent es)).head?

theorem Summary.display (h : Summary timeout es d) (hash : α) (t : ℚ) :
    Summary timeout (es ++ [.display hash t]) (d.display hash t) := by
  refine ⟨h.timeout, le_rfl, ?_, ?_, ?_⟩
  · rw [recent_append_display, List.getLast?_concat]
    rintro p hp
    cases hp
    exact ⟨rfl, rfl⟩
  · rw [recent_append_display]
    exact fun hnil => absurd hnil (by simp)
  · rw [recent_append_display, changes_append, List.head?_append, ← h.pending]
    cases hlast : (recent es).getLast? with
    | none =>
      have hnil := List.getLast?_eq_none_iff.mp hlast
      have hpending : d.pendingSince = none := by rw [h.pending, hnil]; rfl
      rcases h.free hnil with hbase | hframed
      · simp [FreezeDetector.display, hbase, hpending]
      · simp [FreezeDetector.display, hframed, hpending]
    | some p =>
      obtain ⟨hbase, hframes⟩ := h.base p hlast
      by_cases hsame : hash = p.1
      · simp [FreezeDetector.display, hbase, hsame]
      · -- a change counts from the first one on
        cases hpending : d.pendingSince with
        | none => simp [FreezeDetector.display, hbase, hframes, hsame, hpending]
        | some since => simp [FreezeDetector.display, hpending]

theorem summary_after (timeout : ℚ) (es : List (Event α)) :
    Summary timeout es (after timeout es) := by
  induction es using List.reverseRecOn with
  | nil => exact ⟨rfl, le_rfl, fun p hp => (by cases hp), fun _ => .inl rfl, rfl⟩
  | append_singleton es e ih =>
    rw [after, List.foldl_append, List.foldl_cons, List.foldl_nil]
    cases e with
    | display hash t => exact Summary.display ih hash t
    | frame t =>
      refine ⟨ih.timeout, ih.counted.trans (Nat.le_succ _), ?_, fun _ => .inr ?_, ?_⟩
      · rw [recent_append_frame]
        exact fun p hp => by cases hp
      · exact (Nat.lt_succ_of_le ih.counted).ne'
      · rw [recent_append_frame]
        rfl
    | reset t =>
      refine ⟨ih.timeout, le_rfl, ?_, fun _ => .inl rfl, ?_⟩
      · rw [recent_append_reset]
        exact fun p hp => by cases hp
      · rw [recent_append_reset]
        rfl

/-- Later changes have later times. -/
theorem pairwise_changes (hclock : (es.map Event.time).Pairwise (· ≤ ·)) :
    (changes (recent es)).Pairwise (· ≤ ·) := by
  obtain ⟨before, hes⟩ := exists_recent es
  have htimes : ((recent es).map Prod.snd).Sublist (es.map Event.time) := by
    have heq : es.map Event.time = before.map Event.time ++ (recent es).map Prod.snd := by
      conv_lhs => rw [hes]
      rw [List.map_append, List.map_map]
      rfl
    rw [heq]
    exact List.sublist_append_right _ _
  exact hclock.sublist ((changes_sublist _).trans htimes)

/-- **A freeze is reported exactly** when the screen showed a change without a frame, and the
first time it did lies the timeout back. A hash that stays the same never does, and a frame
clears the report. -/
theorem frozen_iff (timeout : ℚ) (es : List (Event α))
    (hclock : (es.map Event.time).Pairwise (· ≤ ·)) :
    (∀ now, (after timeout es).frozen now = true ↔
      ∃ t, Missed es t ∧ (∀ t', Missed es t' → t ≤ t') ∧ timeout ≤ now - t) ∧
    ((∃ hash₀, ∀ hash t, .display hash t ∈ es → hash = hash₀) →
      ∀ now, (after timeout es).frozen now = false) ∧
    ∀ now, (after timeout es).frame.frozen now = false := by
  have h := summary_after timeout es
  refine ⟨fun now => ?_, fun hsame now => ?_, fun now => rfl⟩
  · simp only [missed_iff]
    rw [frozen, h.pending, h.timeout]
    cases hchanges : changes (recent es) with
    | nil => simp
    | cons since rest =>
      have hfirst := (List.pairwise_cons.mp (hchanges ▸ pairwise_changes hclock)).1
      simp only [List.head?_cons, decide_eq_true_eq]
      constructor
      · exact fun hlong => ⟨since, List.mem_cons_self,
          fun t ht => (List.mem_cons.mp ht).elim (fun heq => heq.ge) (hfirst t), hlong⟩
      · rintro ⟨t, ht, -, hlong⟩
        have hge : since ≤ t := (List.mem_cons.mp ht).elim (fun heq => heq.ge) (hfirst t)
        linarith
  · obtain ⟨hash₀, hsame⟩ := hsame
    have hnone : changes (recent es) = [] := by
      rw [List.eq_nil_iff_forall_not_mem]
      intro t ht
      obtain ⟨before, hash, t', between, hash', post, rfl, hne, -⟩ := missed_iff.mpr ht
      have hhash : hash = hash₀ := hsame hash t' (by simp)
      have hhash' : hash' = hash₀ := hsame hash' t (by simp)
      exact hne (hhash'.trans hhash.symm)
    rw [frozen, h.pending, hnone]
    rfl

/-- Two changes without a frame: the time is counted from the first one. -/
theorem frozen_iff_pending :
    let es : List (Event Nat) := [.display 1 0, .display 2 1, .display 3 2]
    (es.map Event.time).Pairwise (· ≤ ·) ∧ ((after 3 es).frozen 4 = true ↔
      ∃ t, Missed es t ∧ (∀ t', Missed es t' → t ≤ t') ∧ 3 ≤ 4 - t) := by
  intro es
  have hclock : (es.map Event.time).Pairwise (· ≤ ·) := by decide
  exact ⟨hclock, (frozen_iff 3 es hclock).1 4⟩

end Summary

end FreezeDetector

end Dashboard

end AndroidAppliance
