import Mathlib.Algebra.Order.Floor.Ring
import Mathlib.Data.Rat.Floor
import Mathlib.Tactic.FieldSimp
import Mathlib.Tactic.IntervalCases
import Mathlib.Tactic.Linarith
import Mathlib.Tactic.Positivity
import Mathlib.Tactic.Ring

/-!
# Where a pointer lands on the device

`mapPoint` undoes what the browser and the guest do to a pixel of the device: the guest turns
it into the decoded frame, the video element letterboxes that frame. `drawnAt` is that way
forward: the quarter turns one after another, then `object-fit: contain` (`Contain`). The
centre of each pixel comes back as that pixel, and any other position as the pixel whose
centre is the nearest along each axis (`mapPoint_inverts`). Coordinates are rational numbers.
-/

namespace AndroidAppliance

namespace Geometry

/-! ### Frames and rectangles -/

/-- The size of a frame. -/
@[ext]
structure Frame (α : Type) [Zero α] [LT α] where
  width : α
  height : α
  width_pos : 0 < width
  height_pos : 0 < height

/-- A rectangle of the page. -/
@[ext]
structure Rect extends Frame ℚ where
  left : ℚ
  top : ℚ

theorem scale_pos (rect : Rect) (frame : Frame ℚ) :
    0 < min (rect.width / frame.width) (rect.height / frame.height) :=
  lt_min (div_pos rect.width_pos frame.width_pos) (div_pos rect.height_pos frame.height_pos)

/-- The area of the element that the frame covers. -/
def contentRect (rect : Rect) (frame : Frame ℚ) : Rect :=
  let scale := min (rect.width / frame.width) (rect.height / frame.height)
  let width := frame.width * scale
  let height := frame.height * scale
  { left := rect.left + (rect.width - width) / 2
    top := rect.top + (rect.height - height) / 2
    width := width
    height := height
    width_pos := mul_pos frame.width_pos (scale_pos rect frame)
    height_pos := mul_pos frame.height_pos (scale_pos rect frame) }

/-- Quarter turns, clockwise, from the natural frame to the decoded frame. -/
def frameTurns (frame : Frame ℚ) (device : Frame ℤ) : ℕ :=
  if decide (frame.width ≥ frame.height) = decide (device.width ≥ device.height) then 0 else 3

/-- Fractions of the natural frame for fractions `(u, v)` of the decoded frame. -/
def UNTURN : List (ℚ → ℚ → ℚ × ℚ) :=
  [fun u v => (u, v),
   fun u v => (v, 1 - u),
   fun u v => (1 - u, 1 - v),
   fun u v => (1 - v, u)]

/-- `clamp`. -/
def clamp {α : Type} [LinearOrder α] (value low high : α) : α :=
  max low (min high value)

/-- A position on the device, and whether the pointer was on the frame. -/
@[ext]
structure Point where
  x : ℤ
  y : ℤ
  inside : Bool
  deriving DecidableEq, Repr

/-- Map a client position to device pixels. There is no result when `UNTURN` has no such
number of turns. -/
def mapPoint (clientX clientY : ℚ) (rect : Rect) (frame : Frame ℚ) (device : Frame ℤ)
    (turns : Option ℕ) : Option Point :=
  let area := contentRect rect frame
  let u := (clientX - area.left) / area.width
  let v := (clientY - area.top) / area.height
  let inside := decide (u ≥ 0) && decide (u ≤ 1) && decide (v ≥ 0) && decide (v ≤ 1)
  UNTURN[turns.getD (frameTurns frame device)]?.map fun unturn =>
    let f := unturn (clamp u 0 1) (clamp v 0 1)
    { x := clamp ⌊f.1 * (device.width : ℚ)⌋ 0 (device.width - 1)
      y := clamp ⌊f.2 * (device.height : ℚ)⌋ 0 (device.height - 1)
      inside := inside }

/-! ### How a pixel is drawn -/

/-- A quarter turn, clockwise, of fractions of a frame. -/
def quarterTurn (f : ℚ × ℚ) : ℚ × ℚ :=
  (1 - f.2, f.1)

/-- The fractions of the decoded frame where the centre of a pixel stands. -/
def turned (device : Frame ℤ) (turns : ℕ) (x y : ℤ) : ℚ × ℚ :=
  quarterTurn^[turns] ((x + 1 / 2) / device.width, (y + 1 / 2) / device.height)

/-- The client position at which the centre of a pixel is drawn, when the frame covers
`area`. -/
def drawnAt (area : Rect) (device : Frame ℤ) (turns : ℕ) (x y : ℤ) : ℚ × ℚ :=
  let uv := turned device turns x y
  (area.left + uv.1 * area.width, area.top + uv.2 * area.height)

/-- `object-fit: contain`: the frame, scaled, in the middle of the rectangle and as large as
it can be there. -/
structure Contain (rect : Rect) (frame : Frame ℚ) (area : Rect) : Prop where
  ratio : area.width * frame.height = area.height * frame.width
  width_le : area.width ≤ rect.width
  height_le : area.height ≤ rect.height
  fills : area.width = rect.width ∨ area.height = rect.height
  middle_x : area.left - rect.left = (rect.left + rect.width) - (area.left + area.width)
  middle_y : area.top - rect.top = (rect.top + rect.height) - (area.top + area.height)

/-- A pixel of the device. -/
def Frame.Pixel (device : Frame ℤ) (x y : ℤ) : Prop :=
  0 ≤ x ∧ x < device.width ∧ 0 ≤ y ∧ y < device.height

/-- `contentRect` is the letterboxed area. -/
theorem contain_iff {rect : Rect} {frame : Frame ℚ} {area : Rect} :
    Contain rect frame area ↔ area = contentRect rect frame := by
  have hw := frame.width_pos
  have hh := frame.height_pos
  constructor
  · intro hc
    have hscale : ∃ s, area.width = frame.width * s ∧ area.height = frame.height * s := by
      refine ⟨area.width / frame.width, by field_simp, ?_⟩
      have hratio := hc.ratio
      field_simp
      linarith
    obtain ⟨s, hws, hhs⟩ := hscale
    have hs : s = min (rect.width / frame.width) (rect.height / frame.height) := by
      have hle₁ : s ≤ rect.width / frame.width := by
        rw [le_div_iff₀ hw, mul_comm, ← hws]
        exact hc.width_le
      have hle₂ : s ≤ rect.height / frame.height := by
        rw [le_div_iff₀ hh, mul_comm, ← hhs]
        exact hc.height_le
      refine le_antisymm (le_min hle₁ hle₂) ?_
      rcases hc.fills with h | h
      · exact (min_le_left _ _).trans ((div_le_iff₀ hw).mpr (by rw [mul_comm, ← hws, h]))
      · exact (min_le_right _ _).trans ((div_le_iff₀ hh).mpr (by rw [mul_comm, ← hhs, h]))
    have hx := hc.middle_x
    have hy := hc.middle_y
    subst hs
    ext
    · exact hws
    · exact hhs
    · simp only [contentRect, ← hws]
      linarith
    · simp only [contentRect, ← hhs]
      linarith
  · rintro rfl
    refine ⟨?_, ?_, ?_, ?_, ?_, ?_⟩
    · simp only [contentRect]
      ring
    · calc frame.width * min (rect.width / frame.width) (rect.height / frame.height)
          ≤ frame.width * (rect.width / frame.width) :=
            mul_le_mul_of_nonneg_left (min_le_left _ _) hw.le
        _ = rect.width := mul_div_cancel₀ _ hw.ne'
    · calc frame.height * min (rect.width / frame.width) (rect.height / frame.height)
          ≤ frame.height * (rect.height / frame.height) :=
            mul_le_mul_of_nonneg_left (min_le_right _ _) hh.le
        _ = rect.height := mul_div_cancel₀ _ hh.ne'
    · rcases min_choice (rect.width / frame.width) (rect.height / frame.height) with h | h
      · left
        simp only [contentRect, h]
        exact mul_div_cancel₀ _ hw.ne'
      · right
        simp only [contentRect, h]
        exact mul_div_cancel₀ _ hh.ne'
    · simp only [contentRect]
      ring
    · simp only [contentRect]
      ring

/-! ### One axis -/

/-- The pixel of an axis of `n` pixels for a fraction of it. -/
def cell (t : ℚ) (n : ℤ) : ℤ :=
  clamp ⌊clamp t 0 1 * (n : ℚ)⌋ 0 (n - 1)

theorem clamp_mem {α : Type} [LinearOrder α] {low high : α} (value : α) (h : low ≤ high) :
    low ≤ clamp value low high ∧ clamp value low high ≤ high :=
  ⟨le_max_left _ _, max_le h (min_le_left _ _)⟩

theorem clamp_of_mem {α : Type} [LinearOrder α] {value low high : α} (hlow : low ≤ value)
    (hhigh : value ≤ high) : clamp value low high = value := by
  rw [clamp, min_eq_right hhigh, max_eq_right hlow]

theorem clamp_of_le {α : Type} [LinearOrder α] {value low high : α} (hvalue : value ≤ low) :
    clamp value low high = low :=
  max_eq_left ((min_le_right _ _).trans hvalue)

theorem clamp_of_ge {α : Type} [LinearOrder α] {value low high : α} (h : low ≤ high)
    (hvalue : high ≤ value) : clamp value low high = high := by
  rw [clamp, min_eq_left hvalue, max_eq_right h]

theorem one_sub_clamp (t : ℚ) : 1 - clamp t 0 1 = clamp (1 - t) 0 1 := by
  rcases le_total t 0 with h₀ | h₀
  · rw [clamp_of_le h₀, clamp_of_ge zero_le_one (by linarith), sub_zero]
  rcases le_total t 1 with h₁ | h₁
  · rw [clamp_of_mem h₀ h₁, clamp_of_mem (by linarith) (by linarith)]
  · rw [clamp_of_ge zero_le_one h₁, clamp_of_le (by linarith), sub_self]

theorem cell_mem (t : ℚ) {n : ℤ} (hn : 0 < n) : 0 ≤ cell t n ∧ cell t n < n := by
  obtain ⟨hlow, hhigh⟩ :=
    clamp_mem ⌊clamp t 0 1 * (n : ℚ)⌋ (show (0 : ℤ) ≤ n - 1 by omega)
  exact ⟨hlow, by rw [cell]; omega⟩

/-- The centre of a pixel lies on the axis. -/
theorem centre_mem {x n : ℤ} (hx : 0 ≤ x) (hxn : x < n) :
    (0 : ℚ) ≤ (x + 1 / 2) / n ∧ ((x : ℚ) + 1 / 2) / n ≤ 1 := by
  have hn : (0 : ℚ) < n := by exact_mod_cast hx.trans_lt hxn
  have hx' : (0 : ℚ) ≤ x := by exact_mod_cast hx
  have hxn' : (x : ℚ) + 1 ≤ n := by exact_mod_cast Int.add_one_le_iff.mpr hxn
  refine ⟨by positivity, ?_⟩
  rw [div_le_one hn]
  linarith

theorem cell_centre {x n : ℤ} (hx : 0 ≤ x) (hxn : x < n) :
    cell ((x + 1 / 2) / n) n = x := by
  have hn : (n : ℚ) ≠ 0 := by exact_mod_cast (hx.trans_lt hxn).ne'
  obtain ⟨hlow, hhigh⟩ := centre_mem hx hxn
  have hfloor : ⌊(x : ℚ) + 1 / 2⌋ = x := by
    rw [Int.floor_eq_iff]
    constructor <;> linarith
  rw [cell, clamp_of_mem hlow hhigh, div_mul_cancel₀ _ hn, hfloor,
    clamp_of_mem hx (by omega)]

/-- A fraction of the axis is at most half a pixel from the centre of its cell. -/
theorem abs_cell_le {t : ℚ} {n : ℤ} (hn : 0 < n) (h₀ : 0 ≤ t) (h₁ : t ≤ 1) :
    |t * n - (cell t n + 1 / 2)| ≤ 1 / 2 := by
  have hn' : (0 : ℚ) < n := by exact_mod_cast hn
  have hfloor : (⌊t * (n : ℚ)⌋ : ℚ) ≤ t * n := Int.floor_le _
  have hlt : t * n < (⌊t * (n : ℚ)⌋ : ℚ) + 1 := Int.lt_floor_add_one _
  have hnonneg : 0 ≤ ⌊t * (n : ℚ)⌋ := Int.floor_nonneg.mpr (by positivity)
  rw [cell, clamp_of_mem h₀ h₁, abs_le]
  rcases le_or_gt ⌊t * (n : ℚ)⌋ (n - 1) with h | h
  · rw [clamp_of_mem hnonneg h]
    constructor <;> linarith
  · -- Only the end of the axis is rounded to `n`.
    have hle : t * n ≤ n := by nlinarith
    have hge : (n : ℚ) ≤ ⌊t * (n : ℚ)⌋ := by exact_mod_cast Int.sub_one_lt_iff.mp h
    rw [clamp_of_ge (by omega) h.le]
    push_cast
    constructor <;> linarith

/-- **The nearest pixel of an axis.** -/
theorem cell_nearest (t : ℚ) {n q : ℤ} (hq : 0 ≤ q) (hqn : q < n) :
    |t - (cell t n + 1 / 2) / n| ≤ |t - (q + 1 / 2) / n| := by
  have hn : 0 < n := hq.trans_lt hqn
  have hn' : (0 : ℚ) < n := by exact_mod_cast hn
  have hq' : (0 : ℚ) ≤ q := by exact_mod_cast hq
  have hqn' : (q : ℚ) + 1 ≤ n := by exact_mod_cast Int.add_one_le_iff.mpr hqn
  -- In pixels instead of fractions.
  have hscale : ∀ r : ℤ, |t - ((r : ℚ) + 1 / 2) / n| = |t * n - (r + 1 / 2)| / n := by
    intro r
    rw [← abs_of_pos hn', ← abs_div, abs_of_pos hn']
    congr 1
    field_simp
  rw [hscale, hscale]
  refine (div_le_div_iff_of_pos_right hn').mpr ?_
  rcases lt_or_ge t 0 with h₀ | h₀
  · have hcell : cell t n = 0 := by
      rw [cell, clamp_of_le h₀.le, zero_mul, Int.floor_zero, clamp_of_mem le_rfl (by omega)]
    have ht : t * n < 0 := mul_neg_of_neg_of_pos h₀ hn'
    rw [hcell, abs_of_neg (by push_cast; linarith), abs_of_neg (by linarith)]
    push_cast
    linarith
  rcases lt_or_ge 1 t with h₁ | h₁
  · have hcell : cell t n = n - 1 := by
      rw [cell, clamp_of_ge zero_le_one h₁.le, one_mul, Int.floor_intCast,
        clamp_of_ge (by omega) (by omega)]
    have ht : (n : ℚ) < t * n := by nlinarith
    rw [hcell, abs_of_pos (by push_cast; linarith), abs_of_pos (by linarith)]
    push_cast
    linarith
  · have hhalf := abs_cell_le hn h₀ h₁
    rcases eq_or_ne q (cell t n) with rfl | hne
    · exact le_rfl
    -- The centres of two pixels are a whole pixel apart or more.
    have hdist : (1 : ℚ) ≤ |(q : ℚ) - cell t n| := by
      exact_mod_cast Int.one_le_abs (sub_ne_zero.mpr hne)
    have htriangle : |(q : ℚ) - cell t n|
        ≤ |t * n - (cell t n + 1 / 2)| + |t * n - (q + 1 / 2)| := by
      have hsplit : (q : ℚ) - cell t n
          = (t * n - (cell t n + 1 / 2)) - (t * n - (q + 1 / 2)) := by ring
      rw [hsplit]
      exact abs_sub _ _
    linarith

/-- The same from the other end of the axis. -/
theorem cell_nearest_flip (t : ℚ) {n q : ℤ} (hq : 0 ≤ q) (hqn : q < n) :
    |t - (1 - (cell (1 - t) n + 1 / 2) / n)| ≤ |t - (1 - (q + 1 / 2) / n)| := by
  have hflip : ∀ c : ℚ, |t - (1 - c)| = |(1 - t) - c| := by
    intro c
    rw [← abs_neg]
    congr 1
    ring
  rw [hflip, hflip]
  exact cell_nearest (1 - t) hq hqn

/-! ### The two ways -/

variable {rect area : Rect} {frame : Frame ℚ} {device : Frame ℤ}

/-- `UNTURN` for a position that is not clamped. -/
def unturned (turns : ℕ) (u v : ℚ) : ℚ × ℚ :=
  (UNTURN[turns]?.getD fun u v => (u, v)) u v

theorem unturned_quarterTurn {turns : ℕ} (hturns : turns < UNTURN.length) (f : ℚ × ℚ) :
    unturned turns (quarterTurn^[turns] f).1 (quarterTurn^[turns] f).2 = f := by
  obtain ⟨fx, fy⟩ := f
  have hlength : UNTURN.length = 4 := rfl
  rw [hlength] at hturns
  interval_cases turns <;> simp [unturned, UNTURN, quarterTurn]

/-- What `mapPoint` computes, one axis at a time. -/
theorem mapPoint_eq {turns : Option ℕ}
    (hturns : turns.getD (frameTurns frame device) < UNTURN.length) (clientX clientY : ℚ)
    (area : Rect) (harea : area = contentRect rect frame) :
    let u := (clientX - area.left) / area.width
    let v := (clientY - area.top) / area.height
    let f := unturned (turns.getD (frameTurns frame device)) u v
    mapPoint clientX clientY rect frame device turns
      = some ⟨cell f.1 device.width, cell f.2 device.height,
          decide (u ≥ 0) && decide (u ≤ 1) && decide (v ≥ 0) && decide (v ≤ 1)⟩ := by
  subst harea
  have hlength : UNTURN.length = 4 := rfl
  rw [hlength] at hturns
  simp only [mapPoint, unturned, cell]
  generalize turns.getD (frameTurns frame device) = n at hturns
  interval_cases n <;> simp [UNTURN, one_sub_clamp]

/-- Distances on the page are those of the fractions, scaled. -/
theorem abs_client {l w : ℚ} (hw : 0 < w) (c t : ℚ) :
    |c - (l + t * w)| = |(c - l) / w - t| * w := by
  rw [← abs_of_pos hw, ← abs_mul, abs_of_pos hw]
  congr 1
  field_simp
  ring

/-- Where a pixel stands in the decoded frame: each axis of the frame shows one of the device,
from this end or from the other. -/
theorem turned_nearest {turns : ℕ} (hturns : turns < UNTURN.length) (u v : ℚ) {x y : ℤ}
    (hpixel : device.Pixel x y) :
    let f := unturned turns u v
    let near := turned device turns (cell f.1 device.width) (cell f.2 device.height)
    |u - near.1| ≤ |u - (turned device turns x y).1| ∧
      |v - near.2| ≤ |v - (turned device turns x y).2| := by
  obtain ⟨hx, hxw, hy, hyh⟩ := hpixel
  have hlength : UNTURN.length = 4 := rfl
  rw [hlength] at hturns
  interval_cases turns
  · exact ⟨cell_nearest u hx hxw, cell_nearest v hy hyh⟩
  · exact ⟨cell_nearest_flip u hy hyh, cell_nearest v hx hxw⟩
  · exact ⟨cell_nearest_flip u hx hxw, cell_nearest_flip v hy hyh⟩
  · have hturned : ∀ a b : ℤ, turned device 3 a b
        = (((b : ℚ) + 1 / 2) / device.height, 1 - ((a : ℚ) + 1 / 2) / device.width) := by
      intro a b
      simp [turned, quarterTurn]
    simp only [hturned]
    exact ⟨cell_nearest u hy hyh, cell_nearest_flip v hx hxw⟩

/-- The centre of a pixel stands on the decoded frame. -/
theorem turned_mem {x y : ℤ} (hpixel : device.Pixel x y) (turns : ℕ) :
    (0 ≤ (turned device turns x y).1 ∧ (turned device turns x y).1 ≤ 1) ∧
      0 ≤ (turned device turns x y).2 ∧ (turned device turns x y).2 ≤ 1 := by
  obtain ⟨hx, hxw, hy, hyh⟩ := hpixel
  induction turns with
  | zero => exact ⟨centre_mem hx hxw, centre_mem hy hyh⟩
  | succ turns ih =>
    obtain ⟨⟨hu₀, hu₁⟩, hv₀, hv₁⟩ := ih
    rw [turned, Function.iterate_succ_apply']
    exact ⟨⟨sub_nonneg.mpr hv₁, sub_le_self 1 hv₀⟩, hu₀, hu₁⟩

theorem frameTurns_lt (frame : Frame ℚ) (device : Frame ℤ) :
    frameTurns frame device < UNTURN.length := by
  have hlength : UNTURN.length = 4 := rfl
  rw [frameTurns, hlength]
  split <;> omega

/-- **`mapPoint` inverts the display**: the centre of each pixel of the device comes back as
that pixel, and every client position as the pixel that is drawn nearest to it along each
axis. -/
theorem mapPoint_inverts (harea : Contain rect frame area) {turns : Option ℕ}
    (hturns : ∀ n ∈ turns, n < UNTURN.length) :
    (∀ x y, device.Pixel x y →
      let drawn := drawnAt area device (turns.getD (frameTurns frame device)) x y
      mapPoint drawn.1 drawn.2 rect frame device turns = some ⟨x, y, true⟩) ∧
    ∀ clientX clientY, ∃ point,
      mapPoint clientX clientY rect frame device turns = some point ∧
      device.Pixel point.x point.y ∧
      ∀ x y, device.Pixel x y →
        let near := drawnAt area device (turns.getD (frameTurns frame device)) point.x point.y
        let other := drawnAt area device (turns.getD (frameTurns frame device)) x y
        |clientX - near.1| ≤ |clientX - other.1| ∧
          |clientY - near.2| ≤ |clientY - other.2| := by
  have hlt : turns.getD (frameTurns frame device) < UNTURN.length := by
    cases turns with
    | none => exact frameTurns_lt frame device
    | some n => exact hturns n rfl
  have hw := area.width_pos
  have hh := area.height_pos
  have heq := fun clientX clientY =>
    mapPoint_eq hlt clientX clientY area (contain_iff.mp harea)
  constructor
  · intro x y hpixel drawn
    have hu : (drawn.1 - area.left) / area.width
        = (turned device (turns.getD (frameTurns frame device)) x y).1 := by
      simp only [drawn, drawnAt]
      field_simp
      ring
    have hv : (drawn.2 - area.top) / area.height
        = (turned device (turns.getD (frameTurns frame device)) x y).2 := by
      simp only [drawn, drawnAt]
      field_simp
      ring
    obtain ⟨⟨hu₀, hu₁⟩, hv₀, hv₁⟩ :=
      turned_mem hpixel (turns.getD (frameTurns frame device))
    obtain ⟨hx, hxw, hy, hyh⟩ := hpixel
    rw [heq]
    simp only [hu, hv]
    rw [turned, unturned_quarterTurn hlt, cell_centre hx hxw, cell_centre hy hyh, ← turned]
    simp [hu₀, hu₁, hv₀, hv₁]
  · intro clientX clientY
    refine ⟨_, heq clientX clientY, ?_, ?_⟩
    · obtain ⟨hx, hxw⟩ := cell_mem _ device.width_pos
      obtain ⟨hy, hyh⟩ := cell_mem _ device.height_pos
      exact ⟨hx, hxw, hy, hyh⟩
    · intro x y hpixel near other
      obtain ⟨hu, hv⟩ := turned_nearest hlt ((clientX - area.left) / area.width)
        ((clientY - area.top) / area.height) hpixel
      simp only [near, other, drawnAt, abs_client hw, abs_client hh]
      exact ⟨mul_le_mul_of_nonneg_right hu hw.le, mul_le_mul_of_nonneg_right hv hh.le⟩

/-- A landscape frame of a portrait device, letterboxed above and below. -/
theorem mapPoint_inverts_landscape : ∃ (rect area : Rect) (frame : Frame ℚ) (device : Frame ℤ),
    rect.width = 960 ∧ rect.height = 800 ∧ frame.width = 1920 ∧ frame.height = 1080 ∧
    device.width = 1080 ∧ device.height = 1920 ∧
    (∀ x y, device.Pixel x y →
      let drawn := drawnAt area device (frameTurns frame device) x y
      mapPoint drawn.1 drawn.2 rect frame device none = some ⟨x, y, true⟩) ∧
    ∀ clientX clientY, ∃ point,
      mapPoint clientX clientY rect frame device none = some point ∧
      device.Pixel point.x point.y ∧
      ∀ x y, device.Pixel x y →
        let near := drawnAt area device (frameTurns frame device) point.x point.y
        let other := drawnAt area device (frameTurns frame device) x y
        |clientX - near.1| ≤ |clientX - other.1| ∧
          |clientY - near.2| ≤ |clientY - other.2| := by
  let rect : Rect := ⟨⟨960, 800, by norm_num, by norm_num⟩, 0, 0⟩
  let frame : Frame ℚ := ⟨1920, 1080, by norm_num, by norm_num⟩
  let device : Frame ℤ := ⟨1080, 1920, by norm_num, by norm_num⟩
  have hnone : ∀ n ∈ (none : Option ℕ), n < UNTURN.length := by simp
  have h := @mapPoint_inverts rect _ frame device (contain_iff.mpr rfl) none hnone
  refine ⟨rect, contentRect rect frame, frame, device, rfl, rfl, rfl, rfl, rfl, rfl, ?_⟩
  simpa only [Option.getD_none] using h

end Geometry

end AndroidAppliance
