import Mathlib.Data.List.Induction
import Mathlib.Tactic.Common

/-!
# Strokes

A log of things that go down and up again. `Strokes.isDown` reads off whether a thing is
down at the end; if it is not, each of its downs has an up behind it
(`Strokes.settled_of_isDown`).
-/

namespace AndroidAppliance

universe u

/-- A thing goes down or up. -/
structure Stroke (α : Type u) where
  thing : α
  down : Bool
  deriving DecidableEq, Repr

namespace Strokes

variable {α : Type u} [DecidableEq α]

/-- Whether `x` is down after a stroke, if it was before as `b` says. -/
def next (x : α) (b : Bool) (s : Stroke α) : Bool := if s.thing = x then s.down else b

/-- Whether `x` is down after the log. -/
def isDown (log : List (Stroke α)) (x : α) : Bool := log.foldl (next x) false

/-- Every down of `x` has an up of `x` behind it. -/
def Settled (log : List (Stroke α)) (x : α) : Prop :=
  ∀ before after, log = before ++ ⟨x, true⟩ :: after → ⟨x, false⟩ ∈ after

variable {log more : List (Stroke α)} {x y : α} {b : Bool}

@[simp]
theorem isDown_nil : isDown ([] : List (Stroke α)) x = false := rfl

/-- Strokes of other things do not matter. -/
theorem foldl_other (h : ∀ s ∈ more, s.thing ≠ x) : more.foldl (next x) b = b := by
  induction more generalizing b with
  | nil => rfl
  | cons s more ih =>
    have hs : next x b s = b := if_neg (h s (by simp))
    rw [List.foldl_cons, hs]
    exact ih fun s hmem => h s (List.mem_cons_of_mem _ hmem)

theorem isDown_append_other (h : ∀ s ∈ more, s.thing ≠ x) :
    isDown (log ++ more) x = isDown log x := by
  unfold isDown
  rw [List.foldl_append, foldl_other h]

theorem isDown_concat (s : Stroke α) :
    isDown (log ++ [s]) x = if s.thing = x then s.down else isDown log x := by
  unfold isDown
  rw [List.foldl_append]
  rfl

/-- The strokes in between matter only as far as the thing is among them. -/
theorem isDown_append_congr {log' : List (Stroke α)} (h : isDown log x = isDown log' x) :
    isDown (log ++ more) x = isDown (log' ++ more) x := by
  unfold isDown at h ⊢
  rw [List.foldl_append, List.foldl_append, h]

/-- Behind ups alone, a thing is down only if it was before and is not among them. -/
theorem isDown_append_ups (hups : ∀ s ∈ more, s.down = false)
    (h : isDown (log ++ more) x = true) :
    isDown log x = true ∧ ∀ s ∈ more, s.thing ≠ x := by
  induction more using List.reverseRecOn with
  | nil =>
    rw [List.append_nil] at h
    exact ⟨h, nofun⟩
  | append_singleton more s ih =>
    rw [← List.append_assoc, isDown_concat] at h
    have hs : s.thing ≠ x := by
      intro hx
      rw [if_pos hx, hups s (by simp)] at h
      cases h
    rw [if_neg hs] at h
    obtain ⟨hlog, hmore⟩ := ih (fun s hmem => hups s (List.mem_append_left _ hmem)) h
    refine ⟨hlog, fun s' hs' => ?_⟩
    rcases List.mem_append.mp hs' with hs' | hs'
    · exact hmore s' hs'
    · exact List.mem_singleton.mp hs' ▸ hs

/-- Behind downs alone, what was down stays down, and what they name is down too. -/
theorem isDown_append_downs (hdowns : ∀ s ∈ more, s.down = true) :
    isDown (log ++ more) x = true ↔ isDown log x = true ∨ ∃ s ∈ more, s.thing = x := by
  induction more using List.reverseRecOn with
  | nil => simp
  | append_singleton more s ih =>
    have hmore := ih fun s hs => hdowns s (List.mem_append_left _ hs)
    rw [← List.append_assoc, isDown_concat]
    split
    · rename_i hx
      simp [hdowns s (by simp), hx]
    · rename_i hx
      simp [hmore, hx]

/-- The state of a thing after a down without an up behind it. -/
theorem foldl_unlifted (h : ⟨x, false⟩ ∉ more) : more.foldl (next x) true = true := by
  induction more with
  | nil => rfl
  | cons s more ih =>
    have hs : next x true s = true := by
      unfold next
      split
      · rename_i hx
        by_contra hdown
        refine h (List.mem_cons.mpr (.inl ?_))
        rw [← hx, ← Bool.not_eq_true _ |>.mp hdown]
      · rfl
    rw [List.foldl_cons, hs]
    exact ih fun hmem => h (List.mem_cons_of_mem _ hmem)

/-- **A thing that is not down at the end** has an up behind each of its downs. -/
theorem settled_of_isDown (h : isDown log x = false) : Settled log x := by
  intro before after heq
  by_contra hmem
  have hdown : isDown log x = true := by
    rw [heq]
    unfold isDown
    rw [List.foldl_append, List.foldl_cons]
    have hnext : ∀ b, next x b ⟨x, true⟩ = true := fun b => if_pos rfl
    rw [hnext]
    exact foldl_unlifted hmem
  rw [h] at hdown
  cases hdown

end Strokes

end AndroidAppliance
