import AndroidAppliance.Gesture.Wheel
import Mathlib.Algebra.BigOperators.Group.List.Basic

/-!
# The gestures of the API

`tap`, `long_press` and `swipe` of `appliance/input.py`. A swipe is a straight move at 60 Hz, a tap
and a long press stay where they are.

`WellFormed` is what the emulator needs of a gesture. Its points are those of a straight way,
rounded and clamped; both keep the order along each axis (`clampTo_mono`).
-/

namespace AndroidAppliance

namespace Gesture

/-! ### `appliance/input.py` -/

/-- `TAP_HOLD`, in seconds. -/
def tapHold : ℚ := 5 / 100

/-- `tap`. -/
def tap (identifier : Nat) (x y : ℚ) : List Step :=
  [⟨0, touch identifier x y true⟩, ⟨tapHold, touch identifier x y false⟩]

/-- `long_press`. -/
def longPress (identifier : Nat) (x y durationMs : ℚ) : List Step :=
  [⟨0, touch identifier x y true⟩, ⟨durationMs / 1000, touch identifier x y false⟩]

/-- `moves`, for a swipe. -/
def swipeMoves (durationMs : ℚ) : Nat := (max 1 (round (durationMs / 1000 / frame))).toNat

/-- `swipe`. -/
def swipe (identifier : Nat) (x₁ y₁ x₂ y₂ durationMs : ℚ) : List Step :=
  let moves := swipeMoves durationMs
  let interval := durationMs / 1000 / moves
  ⟨0, touch identifier x₁ y₁ true⟩ ::
    (List.range moves).map (fun i : ℕ =>
      let f := ((i : ℚ) + 1) / moves
      ⟨interval, touch identifier (x₁ + (x₂ - x₁) * f) (y₁ + (y₂ - y₁) * f) true⟩) ++
    [⟨0, touch identifier x₂ y₂ false⟩]

/-! ### What a gesture is -/

/-- A gesture of one finger from `(x₁, y₁)` to `(x₂, y₂)`, that takes `seconds`. -/
structure WellFormed (identifier : Nat) (x₁ y₁ x₂ y₂ seconds : ℚ) (steps : List Step) : Prop where
  inside : ∀ s ∈ steps, (0 ≤ s.event.place.x ∧ s.event.place.x ≤ width - 1) ∧
    0 ≤ s.event.place.y ∧ s.event.place.y ≤ height - 1
  identifiers : ∀ s ∈ steps, s.event.identifier = identifier
  press : ∃ s, steps.head? = some s ∧ s.event.place = clamp x₁ y₁ ∧ s.event.pressure ≠ 0
  lift : ∃ pressed lifted, steps = pressed ++ [lifted] ∧ (∀ s ∈ pressed, s.event.pressure ≠ 0) ∧
    lifted.event.pressure = 0 ∧ lifted.event.place = clamp x₂ y₂
  right : x₁ ≤ x₂ → (steps.map (·.event.place.x)).Pairwise (· ≤ ·)
  left : x₂ ≤ x₁ → (steps.map (·.event.place.x)).Pairwise (· ≥ ·)
  down : y₁ ≤ y₂ → (steps.map (·.event.place.y)).Pairwise (· ≤ ·)
  up : y₂ ≤ y₁ → (steps.map (·.event.place.y)).Pairwise (· ≥ ·)
  delays : ∀ s ∈ steps, 0 ≤ s.delay
  duration : (steps.map Step.delay).sum = seconds

/-! ### Clamped ways -/

/-- One coordinate of `clamp`. -/
def clampTo (size : ℤ) (q : ℚ) : ℤ := max 0 (min (size - 1) (round q))

theorem clampTo_mono (size : ℤ) {a b : ℚ} (h : a ≤ b) : clampTo size a ≤ clampTo size b :=
  max_le_max le_rfl (min_le_min le_rfl (round_mono h))

theorem clamp_inside (x y : ℚ) : (0 ≤ (clamp x y).x ∧ (clamp x y).x ≤ width - 1) ∧
    0 ≤ (clamp x y).y ∧ (clamp x y).y ≤ height - 1 := by
  have hclamped : ∀ (size : ℤ) (q : ℚ), 0 < size →
      0 ≤ clampTo size q ∧ clampTo size q ≤ size - 1 := by
    intro size q hsize
    exact ⟨le_max_left _ _, max_le (by omega) (min_le_left _ _)⟩
  exact ⟨hclamped width x (by decide), hclamped height y (by decide)⟩

section Way

variable {n : Nat} {start move : ℚ}

/-- Along an axis the clamped points of a way go in one direction. -/
theorem pairwise_way (hn : 0 < n) (size : ℤ) (hmove : 0 ≤ move) :
    ((fractions n).map fun t => clampTo size (start + move * t)).Pairwise (· ≤ ·) := by
  rw [List.pairwise_map]
  exact (pairwise_fractions hn).imp fun hab => clampTo_mono size (by gcongr)

theorem pairwise_way_of_nonpos (hn : 0 < n) (size : ℤ) (hmove : move ≤ 0) :
    ((fractions n).map fun t => clampTo size (start + move * t)).Pairwise (· ≥ ·) := by
  rw [List.pairwise_map]
  exact (pairwise_fractions hn).imp fun hab =>
    clampTo_mono size (add_le_add_right (mul_le_mul_of_nonpos_left hab hmove) _)

end Way

/-! ### The three gestures -/

section Gestures

variable (identifier : Nat) (x y x₁ y₁ x₂ y₂ : ℚ) {durationMs : ℚ}

/-- A press and a lift at one place. -/
theorem wellFormed_still {seconds : ℚ} (h : 0 ≤ seconds) : WellFormed identifier x y x y seconds
    [⟨0, touch identifier x y true⟩, ⟨seconds, touch identifier x y false⟩] where
  inside := by
    simp only [List.forall_mem_cons]
    exact ⟨clamp_inside x y, clamp_inside x y, fun _ hs => by cases hs⟩
  identifiers := by simp [touch]
  press := ⟨_, rfl, rfl, touch_down_pressure⟩
  lift := ⟨[_], _, rfl, by simpa using touch_down_pressure, rfl, rfl⟩
  right := by simp [touch]
  left := by simp [touch]
  down := by simp [touch]
  up := by simp [touch]
  delays := by simpa using h
  duration := by simp

theorem tapHold_nonneg : 0 ≤ tapHold := by
  norm_num [tapHold]

theorem swipeMoves_pos (durationMs : ℚ) : 0 < swipeMoves durationMs := by
  have hone : (1 : ℤ) ≤ max 1 (round (durationMs / 1000 / frame)) := le_max_left _ _
  unfold swipeMoves
  omega

theorem places_swipe (durationMs : ℚ) :
    (swipe identifier x₁ y₁ x₂ y₂ durationMs).map (·.event.place) =
      (fractions (swipeMoves durationMs)).map fun t =>
        clamp (x₁ + (x₂ - x₁) * t) (y₁ + (y₂ - y₁) * t) := by
  simp only [swipe, fractions, List.map_append, List.map_cons, List.map_map, List.map_nil, touch,
    mul_zero, add_zero, mul_one, add_sub_cancel]
  rfl

theorem mem_swipe {s : Step} (hs : s ∈ swipe identifier x₁ y₁ x₂ y₂ durationMs) :
    s.event.identifier = identifier ∧
      (s.delay = 0 ∨ s.delay = durationMs / 1000 / swipeMoves durationMs) := by
  simp only [swipe, List.cons_append, List.mem_cons, List.mem_append, List.mem_map,
    List.not_mem_nil, or_false] at hs
  rcases hs with rfl | ⟨i, -, rfl⟩ | rfl
  · exact ⟨rfl, .inl rfl⟩
  · exact ⟨rfl, .inr rfl⟩
  · exact ⟨rfl, .inl rfl⟩

/-- The intervals add up to the duration, whatever the moves were rounded to. -/
theorem sum_delays_swipe :
    ((swipe identifier x₁ y₁ x₂ y₂ durationMs).map Step.delay).sum = durationMs / 1000 := by
  have hne : (swipeMoves durationMs : ℚ) ≠ 0 := by exact_mod_cast (swipeMoves_pos durationMs).ne'
  simp only [swipe, List.map_append, List.map_cons, List.map_map, List.map_nil, List.sum_append,
    List.sum_cons, List.sum_nil, Function.comp_def, List.map_const', List.sum_replicate,
    List.length_range, nsmul_eq_mul, add_zero, zero_add]
  exact mul_div_cancel₀ _ hne

theorem wellFormed_swipe (h : 0 ≤ durationMs) :
    WellFormed identifier x₁ y₁ x₂ y₂ (durationMs / 1000)
      (swipe identifier x₁ y₁ x₂ y₂ durationMs) := by
  have hpos := swipeMoves_pos durationMs
  -- both axes are ways of their own, along the same fractions
  have hplaces := places_swipe identifier x₁ y₁ x₂ y₂ durationMs
  have hxs := congrArg (List.map Pixel.x) hplaces
  have hys := congrArg (List.map Pixel.y) hplaces
  simp only [List.map_map, Function.comp_def] at hxs hys
  refine ⟨fun s hs => ?_, fun s hs => (mem_swipe identifier x₁ y₁ x₂ y₂ hs).1,
    ⟨_, rfl, rfl, touch_down_pressure⟩, ⟨_, _, rfl, fun s hs => ?_, rfl, rfl⟩, fun hmove => ?_,
    fun hmove => ?_, fun hmove => ?_, fun hmove => ?_, fun s hs => ?_,
    sum_delays_swipe identifier x₁ y₁ x₂ y₂⟩
  · have hmem : s.event.place ∈ (swipe identifier x₁ y₁ x₂ y₂ durationMs).map (·.event.place) :=
      List.mem_map_of_mem hs
    rw [hplaces] at hmem
    obtain ⟨t, -, hplace⟩ := List.mem_map.mp hmem
    rw [← hplace]
    exact clamp_inside _ _
  · simp only [List.mem_cons, List.mem_map] at hs
    rcases hs with rfl | ⟨i, -, rfl⟩
    · exact touch_down_pressure
    · exact touch_down_pressure
  · rw [hxs]
    exact pairwise_way hpos width (sub_nonneg.mpr hmove)
  · rw [hxs]
    exact pairwise_way_of_nonpos hpos width (sub_nonpos.mpr hmove)
  · rw [hys]
    exact pairwise_way hpos height (sub_nonneg.mpr hmove)
  · rw [hys]
    exact pairwise_way_of_nonpos hpos height (sub_nonpos.mpr hmove)
  · obtain ⟨-, hdelay | hdelay⟩ := mem_swipe identifier x₁ y₁ x₂ y₂ hs
    · exact hdelay.ge
    · rw [hdelay]
      positivity

/-- **The gestures are well formed**, wherever they begin and end and however long they take. -/
theorem gestures_well_formed (h : 0 ≤ durationMs) :
    WellFormed identifier x y x y tapHold (tap identifier x y) ∧
    WellFormed identifier x y x y (durationMs / 1000) (longPress identifier x y durationMs) ∧
    WellFormed identifier x₁ y₁ x₂ y₂ (durationMs / 1000)
      (swipe identifier x₁ y₁ x₂ y₂ durationMs) :=
  ⟨wellFormed_still identifier x y tapHold_nonneg, wellFormed_still identifier x y (by positivity),
    wellFormed_swipe identifier x₁ y₁ x₂ y₂ h⟩

/-- A swipe out of the frame that takes no time. -/
theorem gestures_well_formed_instant :
    WellFormed 3 540 960 5000 (-7) 0 (swipe 3 540 960 5000 (-7) 0) := by
  have h := (gestures_well_formed 3 0 0 540 960 5000 (-7) (le_refl (0 : ℚ))).2.2
  rwa [zero_div] at h

end Gestures

end Gesture

end AndroidAppliance
