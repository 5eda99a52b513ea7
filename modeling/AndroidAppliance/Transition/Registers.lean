import Mathlib.Data.List.Induction
import Mathlib.Tactic.Common

/-!
# Registers

A log of writes to registers, each of which holds a value or is clear. `Registers.read`
replays the log: what a register holds is what was written to it last.

`Log.Each P log` says that `P` holds of every entry of a log and of what came before it.
-/

namespace AndroidAppliance

universe u v

/-- A register is written, or cleared. -/
structure Write (ι : Type u) (α : Type v) where
  register : ι
  value : Option α
  deriving DecidableEq, Repr

namespace Registers

variable {ι : Type u} {α : Type v} [DecidableEq ι]

/-- What the register holds after a write, if it held `v` before. -/
def next (i : ι) (v : Option α) (w : Write ι α) : Option α := if w.register = i then w.value else v

/-- What the register holds after the log. -/
def read (log : List (Write ι α)) (i : ι) : Option α := log.foldl (next i) none

variable {log more : List (Write ι α)} {i : ι} {v : Option α} {w : Write ι α}

@[simp]
theorem read_nil : read ([] : List (Write ι α)) i = none := rfl

theorem read_concat : read (log ++ [w]) i = if w.register = i then w.value else read log i := by
  unfold read
  rw [List.foldl_append]
  rfl

theorem read_concat_self : read (log ++ [w]) w.register = w.value := by
  rw [read_concat, if_pos rfl]

theorem read_concat_of_ne (h : w.register ≠ i) : read (log ++ [w]) i = read log i := by
  rw [read_concat, if_neg h]

/-- A register that no write names stays as it is. -/
theorem read_append_of_ne (h : ∀ w ∈ more, w.register ≠ i) : read (log ++ more) i = read log i := by
  induction more using List.reverseRecOn with
  | nil => rw [List.append_nil]
  | append_singleton more w ih =>
    rw [← List.append_assoc, read_concat_of_ne (h w (by simp))]
    exact ih fun w hw => h w (List.mem_append_left _ hw)

/-- Behind writes that clear, a register is clear if one of them names it. -/
theorem read_append_clears (hclear : ∀ w ∈ more, w.value = none) :
    read (log ++ more) i = if ∃ w ∈ more, w.register = i then none else read log i := by
  split
  · rename_i hex
    induction more using List.reverseRecOn with
    | nil => obtain ⟨w, hw, -⟩ := hex; cases hw
    | append_singleton more w ih =>
      rw [← List.append_assoc, read_concat]
      split
      · exact hclear w (by simp)
      · rename_i hne
        obtain ⟨w', hw', hi⟩ := hex
        refine ih (fun w hw => hclear w (List.mem_append_left _ hw)) ⟨w', ?_, hi⟩
        rcases List.mem_append.mp hw' with hw' | hw'
        · exact hw'
        · rw [List.mem_singleton.mp hw'] at hi
          exact absurd hi hne
  · rename_i hnone
    exact read_append_of_ne fun w hw hi => hnone ⟨w, hw, hi⟩

/-- A register that holds a value was written. -/
theorem exists_of_read (h : (read log i).isSome = true) : ∃ w ∈ log, w.register = i := by
  by_contra hnone
  have hclear : read ([] ++ log) i = read [] i :=
    read_append_of_ne fun w hw hi => hnone ⟨w, hw, hi⟩
  rw [List.nil_append, read_nil] at hclear
  rw [hclear] at h
  cases h

end Registers

namespace Log

variable {α : Type u} {P : List α → α → Prop} {log more : List α} {x : α}

/-- Every entry satisfies `P` together with the entries before it. -/
def Each (P : List α → α → Prop) (log : List α) : Prop :=
  ∀ before x after, log = before ++ x :: after → P before x

theorem Each.nil : Each P [] := by
  intro before x after heq
  simp at heq

theorem Each.concat (h : Each P log) (hx : P log x) : Each P (log ++ [x]) := by
  intro before y after heq
  induction after using List.reverseRecOn with
  | nil =>
    obtain ⟨rfl, hy⟩ := List.append_inj' heq rfl
    cases hy
    exact hx
  | append_singleton after z _ =>
    rw [← List.cons_append, ← List.append_assoc] at heq
    obtain ⟨hlog, -⟩ := List.append_inj' heq rfl
    exact h before y after hlog

theorem Each.append (h : Each P log)
    (hmore : ∀ before x after, more = before ++ x :: after → P (log ++ before) x) :
    Each P (log ++ more) := by
  induction more using List.reverseRecOn with
  | nil =>
    rw [List.append_nil]
    exact h
  | append_singleton more x ih =>
    rw [← List.append_assoc]
    refine (ih fun before y after heq => ?_).concat (hmore more x [] rfl)
    refine hmore before y (after ++ [x]) ?_
    rw [heq, List.append_assoc, List.cons_append]

end Log

end AndroidAppliance
