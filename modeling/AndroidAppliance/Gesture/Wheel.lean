import AndroidAppliance.Gesture.Pointers
import Mathlib.Data.List.Pairwise
import Mathlib.Tactic.FieldSimp
import Mathlib.Tactic.Linarith
import Mathlib.Tactic.Ring

/-!
# The wheel as a drag

`_fit`, `touch` and `wheel` of `appliance/input.py`: a notch of the wheel is a touch drag of the
wanted move. Near a border the drag starts further in, so that it keeps its length.

`round` is monotone and fixes integers (`round_mono`, `round_intCast`). So a point that lies in
the frame is not clamped, and the points of a drag are monotone as their rational places are.
-/

namespace AndroidAppliance

namespace Gesture

/-! ### `appliance/input.py` -/

/-- `FRAME`, in seconds. -/
def frame : ℚ := 1 / 60

/-- `WHEEL_PX`. -/
def wheelPx : ℚ := 168 / 120

/-- `WHEEL_MOVE`, in seconds. -/
def wheelMove : ℚ := 12 / 100

/-- `WHEEL_HOLD`, in seconds. -/
def wheelHold : ℚ := 8 / 100

/-- `MAX_WHEEL_PX`. -/
def maxWheelPx : ℚ := 1000

/-- `MIN_WHEEL_PX`. -/
def minWheelPx : ℚ := 30

/-- `touch`. -/
def touch (identifier : Nat) (x y : ℚ) (down : Bool) : Touch where
  place := clamp x y
  identifier := identifier
  pressure := if down then fullPressure else 0

/-- `Step`: wait `delay` seconds, then send `event`. -/
structure Step where
  delay : ℚ
  event : Touch
  deriving DecidableEq, Repr

/-- `_fit`. -/
def fit (start move : ℚ) (size : ℤ) : ℚ :=
  if |move| < size then min (max start (-move)) (size - 1 - move) else start

/-- The wanted move for a delta: `mx` or `my`. -/
def wanted (delta : ℚ) : ℚ := max (-maxWheelPx) (min maxWheelPx (-delta * wheelPx))

/-- `math.hypot(mx, my) < MIN_WHEEL_PX`. -/
def Short (mx my : ℚ) : Prop := mx * mx + my * my < minWheelPx * minWheelPx

instance (mx my : ℚ) : Decidable (Short mx my) := inferInstanceAs (Decidable (_ < _))

/-- `moves`. -/
def moves : Nat := (max 1 (round (wheelMove / frame))).toNat

/-- The steps of a drag from `(x, y)` by `(mx, my)`. -/
def drag (identifier : Nat) (x y mx my : ℚ) : List Step :=
  ⟨0, touch identifier x y true⟩ ::
    (List.range moves).map (fun i => ⟨wheelMove / moves,
      touch identifier (x + mx * (i + 1) / moves) (y + my * (i + 1) / moves) true⟩) ++
    [⟨wheelHold, touch identifier (x + mx) (y + my) false⟩]

/-- `wheel`. -/
def wheel (identifier : Nat) (x y dx dy : ℚ) : List Step :=
  let mx := wanted dx
  let my := wanted dy
  if Short mx my then []
  else
    let p := clamp x y
    drag identifier (fit p.x mx width) (fit p.y my height) mx my

/-! ### Rounding -/

theorem abs_round_sub_le (q : ℚ) : |(round q : ℚ) - q| ≤ 1 / 2 := by
  have hlow : (⌊q⌋ : ℚ) ≤ q := Int.floor_le q
  have hhigh : q < ⌊q⌋ + 1 := Int.lt_floor_add_one q
  rw [abs_le]
  unfold round
  split_ifs <;> push_cast <;> constructor <;> linarith

@[simp]
theorem round_intCast (n : ℤ) : round n = n := by
  simp [round]

theorem round_mono {a b : ℚ} (h : a ≤ b) : round a ≤ round b := by
  by_contra hlt
  have hstep : (round b : ℚ) + 1 ≤ round a := by exact_mod_cast not_le.mp hlt
  have ha := abs_le.mp (abs_round_sub_le a)
  have hb := abs_le.mp (abs_round_sub_le b)
  -- two places that differ by 1 at least, each half a pixel off at most: they are the same
  have heq : a = b := by linarith
  subst heq
  linarith

/-! ### The frame -/

/-- A coordinate in a frame of this size. -/
def Inside (size : ℤ) (q : ℚ) : Prop := 0 ≤ q ∧ q ≤ size - 1

/-- A place in the frame is not clamped. -/
theorem clamp_of_inside {x y : ℚ} (hx : Inside width x) (hy : Inside height y) :
    clamp x y = ⟨round x, round y⟩ := by
  have hround : ∀ {size : ℤ} {q : ℚ}, Inside size q →
      max 0 (min (size - 1) (round q)) = round q := by
    intro size q hq
    have hlow : 0 ≤ round q := by
      have h := round_mono hq.1
      rwa [← Int.cast_zero, round_intCast] at h
    have hhigh : round q ≤ size - 1 := by
      have h := round_mono hq.2
      rwa [← Int.cast_one, ← Int.cast_sub, round_intCast] at h
    rw [min_eq_right hhigh, max_eq_right hlow]
  simp only [clamp, hround hx, hround hy]

theorem inside_clamp (x y : ℚ) :
    Inside width (clamp x y).x ∧ Inside height (clamp x y).y := by
  have hclamped : ∀ {size : ℤ} (n : ℤ), 0 < size → Inside size (max 0 (min (size - 1) n) : ℤ) := by
    intro size n hsize
    have hlow : (0 : ℤ) ≤ max 0 (min (size - 1) n) := le_max_left _ _
    have hhigh : max 0 (min (size - 1) n) ≤ size - 1 :=
      max_le (by omega) (min_le_left _ _)
    exact ⟨by exact_mod_cast hlow, by exact_mod_cast hhigh⟩
  exact ⟨hclamped _ (by decide), hclamped _ (by decide)⟩

/-- A place on the way between two places in the frame. -/
theorem Inside.between {size : ℤ} {q move t : ℚ} (hq : Inside size q)
    (hend : Inside size (q + move)) (h0 : 0 ≤ t) (h1 : t ≤ 1) : Inside size (q + move * t) := by
  obtain ⟨hlow, hhigh⟩ := hq
  obtain ⟨hlow', hhigh'⟩ := hend
  have hmix : q + move * t = (1 - t) * q + t * (q + move) := by ring
  have ht : 0 ≤ 1 - t := by linarith
  rw [hmix]
  constructor
  · exact add_nonneg (mul_nonneg ht hlow) (mul_nonneg h0 hlow')
  · calc (1 - t) * q + t * (q + move)
        ≤ (1 - t) * (size - 1) + t * (size - 1) :=
          add_le_add (mul_le_mul_of_nonneg_left hhigh ht) (mul_le_mul_of_nonneg_left hhigh' h0)
      _ = size - 1 := by ring

/-- The starts from which a drag by `move` stays inside, and the one nearest to `p`. -/
structure Nearest (size : ℤ) (move p start : ℚ) : Prop where
  inside : Inside size start ∧ Inside size (start + move)
  least : ∀ s, Inside size s → Inside size (s + move) → |start - p| ≤ |s - p|

/-- `_fit` finds it. -/
theorem nearest_fit {size : ℤ} {move p : ℚ} (hp : Inside size p) (hmove : |move| ≤ size - 1) :
    Nearest size move p (fit p move size) := by
  obtain ⟨hp0, hp1⟩ := hp
  obtain ⟨hm0, hm1⟩ := abs_le.mp hmove
  have hfit : fit p move size = min (max p (-move)) (size - 1 - move) := by
    rw [fit, if_pos]
    linarith
  rw [hfit]
  -- the start is in the frame, before the end, or after it: one of the three stays
  rcases le_total p (-move) with hbefore | hafter
  · have hle : -move ≤ (size : ℚ) - 1 - move := by linarith
    rw [max_eq_right hbefore, min_eq_left hle]
    refine ⟨⟨⟨by linarith, by linarith⟩, ⟨by linarith, by linarith⟩⟩, fun s _ hs => ?_⟩
    have h0 := hs.1
    rw [abs_of_nonneg (by linarith), abs_of_nonneg (by linarith)]
    linarith
  rw [max_eq_left hafter]
  rcases le_total p ((size : ℚ) - 1 - move) with hroom | hout
  · rw [min_eq_left hroom]
    refine ⟨⟨⟨hp0, hp1⟩, ⟨by linarith, by linarith⟩⟩, fun s _ _ => ?_⟩
    rw [sub_self, abs_zero]
    exact abs_nonneg _
  · rw [min_eq_right hout]
    refine ⟨⟨⟨by linarith, by linarith⟩, ⟨by linarith, by linarith⟩⟩, fun s _ hs => ?_⟩
    have h1 := hs.2
    rw [abs_of_nonpos (by linarith), abs_of_nonpos (by linarith)]
    linarith

theorem abs_wanted_le (delta : ℚ) : |wanted delta| ≤ maxWheelPx := by
  have hpos : (0 : ℚ) ≤ maxWheelPx := by norm_num [maxWheelPx]
  rw [abs_le]
  exact ⟨le_max_left _ _, max_le (by linarith) (min_le_left _ _)⟩

/-! ### Parts of a way -/

/-- How much of the way each step has gone that takes `n` moves: the press, the moves, the lift. -/
def fractions (n : Nat) : List ℚ :=
  0 :: (List.range n).map (fun i : ℕ => ((i : ℚ) + 1) / n) ++ [1]

theorem mem_fractions {n : Nat} (hn : 0 < n) {t : ℚ} (h : t ∈ fractions n) : 0 ≤ t ∧ t ≤ 1 := by
  have hpos : (0 : ℚ) < n := by exact_mod_cast hn
  simp only [fractions, List.cons_append, List.mem_cons, List.mem_append, List.mem_map,
    List.mem_range, List.not_mem_nil, or_false] at h
  rcases h with rfl | ⟨i, hi, rfl⟩ | rfl
  · exact ⟨le_rfl, zero_le_one⟩
  · have hle : (i : ℚ) + 1 ≤ n := by exact_mod_cast hi
    exact ⟨by positivity, (div_le_one hpos).mpr hle⟩
  · exact ⟨zero_le_one, le_rfl⟩

/-- The steps only go on. -/
theorem pairwise_fractions {n : Nat} (hn : 0 < n) : (fractions n).Pairwise (· ≤ ·) := by
  have hpos : (0 : ℚ) < n := by exact_mod_cast hn
  have hgrow : ((List.range n).map fun i : ℕ => ((i : ℚ) + 1) / n).Pairwise (· ≤ ·) := by
    rw [List.pairwise_map]
    refine List.pairwise_lt_range.imp fun {a b} hab => ?_
    have hle : (a : ℚ) + 1 ≤ b + 1 := by exact_mod_cast Nat.succ_le_succ hab.le
    gcongr
  unfold fractions
  rw [List.cons_append, List.pairwise_cons, List.pairwise_append]
  refine ⟨fun t ht => (mem_fractions hn (List.mem_cons_of_mem _ ht)).1, hgrow,
    List.pairwise_singleton _ _, fun t ht u hu => ?_⟩
  rw [List.mem_singleton.mp hu]
  exact (mem_fractions hn (List.mem_cons_of_mem _ (List.mem_append_left _ ht))).2

/-! ### The points of a drag -/

/-- How much of the way each step of a drag has gone. -/
def times : List ℚ := fractions moves

theorem moves_pos : 0 < moves := by
  have hone : (1 : ℤ) ≤ max 1 (round (wheelMove / frame)) := le_max_left _ _
  unfold moves
  omega

/-- A drag follows the line from its start to its end. -/
theorem places_drag (identifier : Nat) (x y mx my : ℚ) :
    (drag identifier x y mx my).map (·.event.place) =
      times.map fun t => clamp (x + mx * t) (y + my * t) := by
  simp only [drag, times, fractions, List.map_append, List.map_cons, List.map_map,
    List.map_nil, touch, mul_zero, add_zero, mul_one]
  congr 2
  refine List.map_congr_left fun i _ => ?_
  simp only [Function.comp_apply, mul_div_assoc]

theorem mem_times {t : ℚ} (h : t ∈ times) : 0 ≤ t ∧ t ≤ 1 :=
  mem_fractions moves_pos h

theorem pairwise_times : times.Pairwise (· ≤ ·) := pairwise_fractions moves_pos

/-- Along an axis the rounded points go one way. -/
theorem pairwise_round {start move : ℚ} (hmove : 0 ≤ move) :
    (times.map fun t => round (start + move * t)).Pairwise (· ≤ ·) := by
  rw [List.pairwise_map]
  exact pairwise_times.imp fun hab => round_mono (by gcongr)

theorem pairwise_round_of_nonpos {start move : ℚ} (hmove : move ≤ 0) :
    (times.map fun t => round (start + move * t)).Pairwise (· ≥ ·) := by
  rw [List.pairwise_map]
  exact pairwise_times.imp fun hab =>
    round_mono (add_le_add_right (mul_le_mul_of_nonpos_left hab hmove) _)

/-- A drag by `(mx, my)` from `(sx, sy)`, none of whose points is clamped. -/
structure DragFrom (identifier : Nat) (sx sy mx my : ℚ) (steps : List Step) : Prop where
  identifiers : ∀ s ∈ steps, s.event.identifier = identifier
  /-- Every step is where the way has come by then, rounded and nothing else. -/
  places : steps.map (·.event.place) =
    times.map fun t => ⟨round (sx + mx * t), round (sy + my * t)⟩
  /-- The whole way is in the frame. -/
  inside : ∀ t ∈ times, Inside width (sx + mx * t) ∧ Inside height (sy + my * t)
  first : (steps.head?.map (·.event.place)) = some ⟨round sx, round sy⟩
  last : (steps.getLast?.map (·.event.place)) = some ⟨round (sx + mx), round (sy + my)⟩
  displacement : |((round (sx + mx) : ℚ) - round sx) - mx| ≤ 1 ∧
    |((round (sy + my) : ℚ) - round sy) - my| ≤ 1
  right : 0 ≤ mx → (steps.map (·.event.place.x)).Pairwise (· ≤ ·)
  left : mx ≤ 0 → (steps.map (·.event.place.x)).Pairwise (· ≥ ·)
  down : 0 ≤ my → (steps.map (·.event.place.y)).Pairwise (· ≤ ·)
  up : my ≤ 0 → (steps.map (·.event.place.y)).Pairwise (· ≥ ·)
  lift : ∃ pressed lifted, steps = pressed ++ [lifted] ∧
    (∀ s ∈ pressed, s.event.pressure ≠ 0) ∧ lifted.event.pressure = 0 ∧
    pressed.getLast?.map (·.event.place) = some lifted.event.place

/-- Two rounded places are as far apart as the places, but for what they were rounded by. -/
theorem abs_round_add_sub_le (q move : ℚ) : |((round (q + move) : ℚ) - round q) - move| ≤ 1 := by
  have hq := abs_le.mp (abs_round_sub_le q)
  have hend := abs_le.mp (abs_round_sub_le (q + move))
  rw [abs_le]
  constructor <;> linarith

theorem touch_down_pressure {identifier : Nat} {x y : ℚ} :
    (touch identifier x y true).pressure ≠ 0 := by
  have hfull : fullPressure ≠ 0 := by decide
  exact hfull

section Drag

variable {sx sy mx my : ℚ}

theorem identifier_of_mem_drag {identifier : Nat} {s : Step}
    (hs : s ∈ drag identifier sx sy mx my) : s.event.identifier = identifier := by
  simp only [drag, List.cons_append, List.mem_cons, List.mem_append, List.mem_map,
    List.not_mem_nil, or_false] at hs
  rcases hs with rfl | ⟨i, -, rfl⟩ | rfl <;> rfl

/-- The finger is down up to the end of the way, and is lifted there. -/
theorem drag_lift (identifier : Nat) : ∃ pressed lifted,
    drag identifier sx sy mx my = pressed ++ [lifted] ∧
      (∀ s ∈ pressed, s.event.pressure ≠ 0) ∧ lifted.event.pressure = 0 ∧
      pressed.getLast?.map (·.event.place) = some lifted.event.place := by
  refine ⟨_, _, rfl, ?_, rfl, ?_⟩
  · intro s hs
    simp only [List.mem_cons, List.mem_map] at hs
    rcases hs with rfl | ⟨i, -, rfl⟩
    · exact touch_down_pressure
    · exact touch_down_pressure
  · -- the last of the moves has gone the whole way
    obtain ⟨n, hn⟩ := Nat.exists_eq_add_one_of_ne_zero moves_pos.ne'
    have hne : ((n : ℚ) + 1) ≠ 0 := by positivity
    simp only [hn, List.range_succ, List.map_append, List.map_cons, List.map_nil,
      ← List.cons_append, List.getLast?_append, List.getLast?_singleton, Option.some_or,
      Option.map_some, touch, Nat.cast_add, Nat.cast_one, mul_div_cancel_right₀ _ hne]

theorem dragFrom_drag (identifier : Nat) (hx : Inside width sx ∧ Inside width (sx + mx))
    (hy : Inside height sy ∧ Inside height (sy + my)) :
    DragFrom identifier sx sy mx my (drag identifier sx sy mx my) := by
  have hinside : ∀ t ∈ times, Inside width (sx + mx * t) ∧ Inside height (sy + my * t) := by
    intro t ht
    obtain ⟨h0, h1⟩ := mem_times ht
    exact ⟨hx.1.between hx.2 h0 h1, hy.1.between hy.2 h0 h1⟩
  have hclamp : ∀ t ∈ times, clamp (sx + mx * t) (sy + my * t) =
      ⟨round (sx + mx * t), round (sy + my * t)⟩ :=
    fun t ht => clamp_of_inside (hinside t ht).1 (hinside t ht).2
  have hplaces := places_drag identifier sx sy mx my
  rw [List.map_congr_left hclamp] at hplaces
  have hxs := congrArg (List.map Pixel.x) hplaces
  have hys := congrArg (List.map Pixel.y) hplaces
  simp only [List.map_map, Function.comp_def] at hxs hys
  refine ⟨fun s hs => identifier_of_mem_drag hs, hplaces, hinside, ?_, ?_,
    ⟨abs_round_add_sub_le _ _, abs_round_add_sub_le _ _⟩, ?_, ?_, ?_, ?_, drag_lift identifier⟩
  · rw [← List.head?_map, hplaces]
    simp [times, fractions]
  · rw [← List.getLast?_map, hplaces, times, fractions, List.map_append, List.getLast?_append]
    simp
  · intro hmove
    rw [hxs]
    exact pairwise_round hmove
  · intro hmove
    rw [hxs]
    exact pairwise_round_of_nonpos hmove
  · intro hmove
    rw [hys]
    exact pairwise_round hmove
  · intro hmove
    rw [hys]
    exact pairwise_round_of_nonpos hmove

end Drag

/-! ### `wheel` -/

/-- The wheel gives nothing exactly for a short move. Otherwise it gives a drag by the wanted
move, from the start nearest to the pointer from which the drag stays in the frame. -/
theorem wheel_drag (identifier : Nat) (x y dx dy : ℚ) :
    (wheel identifier x y dx dy = [] ↔ Short (wanted dx) (wanted dy)) ∧
      (¬ Short (wanted dx) (wanted dy) → ∃ sx sy,
        Nearest width (wanted dx) (clamp x y).x sx ∧ Nearest height (wanted dy) (clamp x y).y sy ∧
          DragFrom identifier sx sy (wanted dx) (wanted dy) (wheel identifier x y dx dy)) := by
  refine ⟨?_, fun hlong => ?_⟩
  · by_cases hshort : Short (wanted dx) (wanted dy)
    · simp [wheel, hshort]
    · simp [wheel, hshort, drag]
  have hroom : ∀ {size : ℤ} (delta : ℚ), 1001 ≤ size → |wanted delta| ≤ (size : ℚ) - 1 := by
    intro size delta hsize
    have hcast : (1001 : ℚ) ≤ size := by exact_mod_cast hsize
    have hle : |wanted delta| ≤ 1000 := abs_wanted_le delta
    linarith
  obtain ⟨hpx, hpy⟩ := inside_clamp x y
  have hx := nearest_fit hpx (hroom dx (by decide))
  have hy := nearest_fit hpy (hroom dy (by decide))
  refine ⟨_, _, hx, hy, ?_⟩
  rw [wheel, if_neg hlong]
  exact dragFrom_drag identifier hx.inside hy.inside

/-- A notch near the upper border. -/
theorem wheel_drag_border :
    ∃ sx sy, Nearest width (wanted 0) (clamp 540 10).x sx ∧
      Nearest height (wanted 120) (clamp 540 10).y sy ∧
        DragFrom 1 sx sy (wanted 0) (wanted 120) (wheel 1 540 10 0 120) :=
  (wheel_drag 1 540 10 0 120).2 (by norm_num [Short, wanted, wheelPx, maxWheelPx, minWheelPx])

end Gesture

end AndroidAppliance
