import Mathlib.Algebra.Order.Ring.Rat
import Mathlib.Data.List.Chain
import Mathlib.Tactic.Linarith

/-!
# The token bucket

`Bucket` of `appliance/session.py`, which limits the messages of a session and the errors that it
sends. A clock reading is a rational number, in seconds.

The level after a call is what the bucket may still give away at once (`length_granted_le`). The
cap forgets what flowed in before a window, so the bound holds from any reading on
(`length_window_le`).
-/

namespace AndroidAppliance

namespace Session

/-! ### `appliance/session.py` -/

/-- `Bucket`: `rate` per second, up to `burst` at once. -/
structure Bucket where
  rate : ℚ
  burst : ℚ
  tokens : ℚ
  time : ℚ
  deriving DecidableEq, Repr

namespace Bucket

/-- `Bucket(rate, burst)`, at the clock reading `now`. -/
def make (rate burst now : ℚ) : Bucket where
  rate := rate
  burst := burst
  tokens := burst
  time := now

/-- What has flowed in by `now`. -/
def filled (b : Bucket) (now : ℚ) : ℚ := min b.burst (b.tokens + (now - b.time) * b.rate)

/-- `take`. -/
def take (b : Bucket) (now : ℚ) : Bucket × Bool :=
  if b.filled now < 1 then ({ b with tokens := b.filled now, time := now }, false)
  else ({ b with tokens := b.filled now - 1, time := now }, true)

/-- The bucket after a call at each of the readings. -/
def after (b : Bucket) (readings : List ℚ) : Bucket :=
  readings.foldl (fun b now => (b.take now).1) b

/-- The readings at which a call returned `True`. -/
def granted (b : Bucket) : List ℚ → List ℚ
  | [] => []
  | now :: readings =>
    (if (b.take now).2 then [now] else []) ++ (b.take now).1.granted readings

/-! ### One call -/

variable {b : Bucket} {now s t : ℚ} {readings : List ℚ}

@[simp]
theorem take_rate (b : Bucket) (now : ℚ) : (b.take now).1.rate = b.rate := by
  rw [take]
  split <;> rfl

@[simp]
theorem take_burst (b : Bucket) (now : ℚ) : (b.take now).1.burst = b.burst := by
  rw [take]
  split <;> rfl

@[simp]
theorem take_time (b : Bucket) (now : ℚ) : (b.take now).1.time = now := by
  rw [take]
  split <;> rfl

/-- The level, and one more where the call is granted, is what had flowed in. -/
theorem take_tokens (b : Bucket) (now : ℚ) :
    (b.take now).1.tokens + (if (b.take now).2 then 1 else 0) = b.filled now := by
  rw [take]
  split_ifs <;> simp_all

/-- A level between nothing and the burst, and a rate that fills. -/
structure Ok (b : Bucket) : Prop where
  rate : 0 ≤ b.rate
  empty : 0 ≤ b.tokens
  full : b.tokens ≤ b.burst

theorem ok_make {rate burst : ℚ} (hrate : 0 ≤ rate) (hburst : 1 ≤ burst) (now : ℚ) :
    (make rate burst now).Ok :=
  ⟨hrate, zero_le_one.trans hburst, le_rfl⟩

namespace Ok

theorem flow_nonneg (h : b.Ok) (hle : b.time ≤ now) : 0 ≤ (now - b.time) * b.rate :=
  mul_nonneg (sub_nonneg.mpr hle) h.rate

theorem filled_nonneg (h : b.Ok) (hle : b.time ≤ now) : 0 ≤ b.filled now := by
  have hflow := h.flow_nonneg hle
  have hempty := h.empty
  exact le_min (hempty.trans h.full) (by linarith)

/-- A call keeps the level in its bounds. -/
theorem take (h : b.Ok) (hle : b.time ≤ now) : (b.take now).1.Ok := by
  have hfilled := h.filled_nonneg hle
  have hcap : b.filled now ≤ b.burst := min_le_left _ _
  refine ⟨(take_rate b now).symm ▸ h.rate, ?_, ?_⟩
  · rw [Bucket.take]
    split_ifs with hlow
    · exact hfilled
    · exact sub_nonneg.mpr (not_lt.mp hlow)
  · rw [take_burst, Bucket.take]
    split_ifs with hlow
    · exact hcap
    · exact (sub_le_self _ zero_le_one).trans hcap

end Ok

/-! ### Any readings -/

/-- Readings of a clock that does not go back, from the last call on. -/
def Clocked (b : Bucket) (readings : List ℚ) : Prop := (b.time :: readings).Pairwise (· ≤ ·)

theorem Clocked.head (h : b.Clocked (now :: readings)) : b.time ≤ now :=
  (List.pairwise_cons.mp h).1 now List.mem_cons_self

theorem Clocked.tail (h : b.Clocked (now :: readings)) : (b.take now).1.Clocked readings := by
  rw [Clocked, take_time]
  exact (List.pairwise_cons.mp h).2

theorem Ok.after (h : b.Ok) (hclock : b.Clocked readings) : (b.after readings).Ok := by
  induction readings generalizing b with
  | nil => exact h
  | cons now readings ih => exact ih (h.take hclock.head) hclock.tail

@[simp]
theorem after_burst (b : Bucket) (readings : List ℚ) : (b.after readings).burst = b.burst := by
  induction readings generalizing b with
  | nil => rfl
  | cons now readings ih => exact (ih _).trans (take_burst b now)

theorem granted_sublist (b : Bucket) (readings : List ℚ) :
    (b.granted readings).Sublist readings := by
  induction readings generalizing b with
  | nil => exact .slnil
  | cons now readings ih =>
    rw [granted]
    split
    · exact (ih _).cons_cons now
    · exact (ih _).cons now

/-- How many of the calls from `s` to `t`, both included, are granted. -/
def window (b : Bucket) (readings : List ℚ) (s t : ℚ) : Nat :=
  (b.granted readings).countP fun r => s ≤ r ∧ r ≤ t

theorem window_cons (b : Bucket) (now : ℚ) (readings : List ℚ) (s t : ℚ) :
    b.window (now :: readings) s t =
      (if (b.take now).2 = true ∧ s ≤ now ∧ now ≤ t then 1 else 0) +
        (b.take now).1.window readings s t := by
  rw [window, granted, List.countP_append]
  congr 1
  by_cases hgranted : (b.take now).2 = true <;> simp [hgranted, List.countP_cons]

/-- A call in the window counts when it is granted. -/
theorem counted_le (granted : Bool) (p : Prop) [Decidable p] :
    ((if granted = true ∧ p then 1 else 0 : Nat) : ℚ) ≤ if granted then 1 else 0 := by
  cases granted with
  | false => simp
  | true => by_cases hp : p <;> simp [hp]

/-- Behind the end of the window nothing is counted. -/
theorem window_eq_zero (h : ∀ r ∈ readings, t < r) : b.window readings s t = 0 := by
  rw [window, List.countP_eq_zero]
  intro r hr
  have hlt := h r ((b.granted_sublist readings).subset hr)
  simp [not_le.mpr hlt]

theorem Clocked.lt_of_lt (h : b.Clocked (now :: readings)) (hlt : t < now) :
    ∀ r ∈ now :: readings, t < r := by
  have hle := (List.pairwise_cons.mp (List.pairwise_cons.mp h).2).1
  rw [List.forall_mem_cons]
  exact ⟨hlt, fun r hr => hlt.trans_le (hle r hr)⟩

/-- **What is granted up to `t`** is in the bucket now or flows in by then. -/
theorem window_le_level (h : b.Ok) (hclock : b.Clocked readings) (ht : b.time ≤ t) :
    (b.window readings s t : ℚ) ≤ b.tokens + b.rate * (t - b.time) := by
  induction readings generalizing b with
  | nil =>
    have hflow := h.flow_nonneg ht
    have hempty := h.empty
    rw [window, granted, List.countP_nil, Nat.cast_zero]
    linarith
  | cons now readings ih =>
    rcases le_or_gt now t with hnow | hnow
    · have hrest := ih (h.take hclock.head) hclock.tail ((take_time b now).symm ▸ hnow)
      have hlevel := take_tokens b now
      have hfilled : b.filled now ≤ b.tokens + (now - b.time) * b.rate := min_le_right _ _
      have hone := counted_le (b.take now).2 (s ≤ now ∧ now ≤ t)
      rw [take_rate, take_time] at hrest
      rw [window_cons]
      push_cast at hone ⊢
      linarith
    · have hflow := h.flow_nonneg ht
      have hempty := h.empty
      -- the clock does not go back: the later calls are behind the window as well
      rw [window_eq_zero (hclock.lt_of_lt hnow), Nat.cast_zero]
      linarith

/-- **The bound on every window**: what flowed in before it is forgotten above the burst. -/
theorem window_le (h : b.Ok) (hclock : b.Clocked readings) (hst : s ≤ t) :
    (b.window readings s t : ℚ) ≤ b.burst + b.rate * (t - s) := by
  have hpos : 0 ≤ b.burst + b.rate * (t - s) :=
    add_nonneg (h.empty.trans h.full) (mul_nonneg h.rate (sub_nonneg.mpr hst))
  induction readings generalizing b with
  | nil => simpa [window, granted] using hpos
  | cons now readings ih =>
    have hok := h.take hclock.head
    rcases lt_or_ge now s with hbefore | hin
    · -- a call before the window is not counted, and the level it leaves does not matter
      have hrest := ih hok hclock.tail (by simpa using hpos)
      rw [take_burst, take_rate] at hrest
      rw [window_cons, if_neg fun hall => absurd hall.2.1 (not_le.mpr hbefore), zero_add]
      exact hrest
    rcases le_or_gt now t with hnow | hnow
    · -- from the first call in the window on, the level bounds what is granted
      have hrest := window_le_level (s := s) hok hclock.tail ((take_time b now).symm ▸ hnow)
      have hlevel := take_tokens b now
      have hcap : b.filled now ≤ b.burst := min_le_left _ _
      have hflow : b.rate * (t - now) ≤ b.rate * (t - s) :=
        mul_le_mul_of_nonneg_left (by linarith) h.rate
      have hone := counted_le (b.take now).2 (s ≤ now ∧ now ≤ t)
      rw [take_rate, take_time] at hrest
      rw [window_cons]
      push_cast at hone ⊢
      linarith
    · rw [window_eq_zero (hclock.lt_of_lt hnow), Nat.cast_zero]
      exact hpos

/-- Calls as far apart as a token needs are all granted. -/
theorem granted_of_spaced (hburst : 1 ≤ b.burst)
    (hfirst : ∀ now ∈ readings.head?, 1 ≤ b.tokens + (now - b.time) * b.rate)
    (hspaced : readings.IsChain fun r r' => 1 ≤ (r' - r) * b.rate) :
    b.granted readings = readings := by
  induction readings generalizing b with
  | nil => rfl
  | cons now readings ih =>
    have hone : 1 ≤ b.filled now := le_min hburst (hfirst now rfl)
    have htake : b.take now = ({ b with tokens := b.filled now - 1, time := now }, true) :=
      if_neg (not_lt.mpr hone)
    rw [granted, htake, if_pos rfl, List.singleton_append]
    refine congrArg _ (ih hburst (fun next hnext => ?_) hspaced.tail)
    have hgap : 1 ≤ (next - now) * b.rate := by
      obtain ⟨rest, rfl⟩ := List.head?_eq_some_iff.mp hnext
      exact hspaced.rel
    dsimp only
    linarith

/-- **The bucket**: in every window at most the burst and what flows in, a level between nothing
and the burst, and no refusal for calls that keep to the rate. -/
theorem bucket_bound {rate burst start : ℚ} (hrate : 0 ≤ rate) (hburst : 1 ≤ burst)
    (hclock : (start :: readings).Pairwise (· ≤ ·)) :
    (∀ s t, s ≤ t →
      ((make rate burst start).window readings s t : ℚ) ≤ burst + rate * (t - s)) ∧
    (∀ before, before <+: readings → 0 ≤ ((make rate burst start).after before).tokens ∧
      ((make rate burst start).after before).tokens ≤ burst) ∧
    (readings.IsChain (fun r r' => 1 ≤ (r' - r) * rate) →
      (make rate burst start).granted readings = readings) := by
  have hok := ok_make hrate hburst start
  refine ⟨fun s t hst => window_le hok hclock hst, fun before hbefore => ?_, fun hspaced => ?_⟩
  · have hlevel := hok.after (hclock.sublist (hbefore.sublist.cons_cons start))
    have hfull := hlevel.full
    rw [after_burst] at hfull
    exact ⟨hlevel.empty, hfull⟩
  · -- the bucket is full at the first call
    refine granted_of_spaced hburst (fun now hnow => ?_) hspaced
    have hle : start ≤ now := (List.pairwise_cons.mp hclock).1 now (List.mem_of_mem_head? hnow)
    exact hburst.trans (le_add_of_nonneg_right (hok.flow_nonneg hle))

/-- Two calls at once and one that is refused, at one a second. -/
theorem bucket_bound_refused :
    (make 1 2 0).granted [0, 0, 0, 1] = [0, 0, 1] ∧
      ((make 1 2 0).window [0, 0, 0, 1] 0 1 : ℚ) ≤ 2 + 1 * (1 - 0) :=
  ⟨by decide +kernel, (bucket_bound (by decide) (by decide) (by decide)).1 0 1 (by decide)⟩

end Bucket

end Session

end AndroidAppliance
