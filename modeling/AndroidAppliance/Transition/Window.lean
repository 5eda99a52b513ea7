import AndroidAppliance.Transition.Registers
import Mathlib.Algebra.Order.Group.Defs

/-!
# Limits on a window of a log

A log of entries with times, some of which count and some of which reset a limiter. A limiter
that looks at each entry that counts, and sees fewer than `n` that count since the last reset
and within the last `width`, lets at most `n` pass in any window without a reset.

`between_le` is the same for every window: each reset in it allows `n` more.
-/

namespace AndroidAppliance

universe u v

namespace Log

variable {α : Type u} {resets : α → Bool} {log : List α} {x y : α}

/-- The entries since the last one that resets, with that one. -/
def since (resets : α → Bool) (log : List α) : List α :=
  log.foldl (fun kept x => if resets x then [x] else kept ++ [x]) []

@[simp]
theorem since_nil : since resets ([] : List α) = [] := rfl

theorem since_concat :
    since resets (log ++ [x]) = if resets x then [x] else since resets log ++ [x] := by
  rw [since, List.foldl_append]
  rfl

theorem since_sublist : (since resets log).Sublist log := by
  induction log using List.reverseRecOn with
  | nil => exact List.Sublist.slnil
  | append_singleton log x ih =>
    rw [since_concat]
    split
    · exact List.sublist_append_right log [x]
    · exact ih.append (List.Sublist.refl [x])

theorem mem_of_mem_since (h : y ∈ since resets log) : y ∈ log :=
  since_sublist.subset h

variable {τ : Type v} [LinearOrder τ] {time : α → τ} {counts : α → Bool} {lo hi lo' hi' : τ}

/-- How many of the entries that count have a time between two others. -/
def between (time : α → τ) (counts : α → Bool) (lo hi : τ) (log : List α) : Nat :=
  log.countP fun x => counts x = true ∧ lo ≤ time x ∧ time x ≤ hi

@[simp]
theorem between_nil : between time counts lo hi [] = 0 := rfl

theorem between_concat : between time counts lo hi (log ++ [x]) =
    between time counts lo hi log +
      if counts x = true ∧ lo ≤ time x ∧ time x ≤ hi then 1 else 0 := by
  rw [between, List.countP_append, List.countP_singleton]
  simp [between]

theorem between_singleton : between time counts lo hi [x] =
    if counts x = true ∧ lo ≤ time x ∧ time x ≤ hi then 1 else 0 := by
  rw [← List.nil_append [x], between_concat, between_nil, Nat.zero_add]

/-- Entries of one window that are all in another. -/
theorem between_mono (h : ∀ x ∈ log, lo ≤ time x → time x ≤ hi → lo' ≤ time x ∧ time x ≤ hi') :
    between time counts lo hi log ≤ between time counts lo' hi' log := by
  refine List.countP_mono_left fun x hx hin => ?_
  rw [decide_eq_true_iff] at hin ⊢
  exact ⟨hin.1, h x hx hin.2.1 hin.2.2⟩

theorem between_eq_zero (h : ∀ x ∈ log, time x < lo) : between time counts lo hi log = 0 := by
  refine List.countP_eq_zero.mpr fun x hx hin => ?_
  rw [decide_eq_true_iff] at hin
  exact (h x hx).not_ge hin.2.1

variable [AddCommGroup τ] [IsOrderedAddMonoid τ] {width t : τ} {n : Nat}

/-- An entry that counts, and does not reset, comes after fewer than `n` that count. -/
def Limited (time : α → τ) (counts resets : α → Bool) (width : τ) (n : Nat) (before : List α)
    (x : α) : Prop :=
  counts x = true → resets x = false →
    between time counts (time x - width) (time x) (since resets before) < n

/-- What has passed in a window that is not over: `n` for each reset, and at most `n` since
the last one. -/
structure Passed (time : α → τ) (counts resets : α → Bool) (t hi : τ) (n : Nat) (log : List α) :
    Prop where
  le_add : between time counts t hi log ≤
    n * between time resets t hi log + between time counts t hi (since resets log)
  le : between time counts t hi (since resets log) ≤ n

theorem Passed.concat (hn : 0 < n) (h : Passed time counts resets t (t + width) n log)
    (hsorted : ∀ y ∈ log, time y ≤ time x) (hx : time x ≤ t + width)
    (hlim : Limited time counts resets width n log x) :
    Passed time counts resets t (t + width) n (log ++ [x]) := by
  have hle := h.le_add
  by_cases hearly : time x < t
  · -- nothing is in the window yet
    have hlog : ∀ y ∈ log ++ [x], time y < t := by
      intro y hy
      rcases List.mem_append.mp hy with hy | hy
      · exact (hsorted y hy).trans_lt hearly
      · rwa [List.mem_singleton.mp hy]
    have hzero : between time counts t (t + width) (log ++ [x]) = 0 := between_eq_zero hlog
    have hsince : between time counts t (t + width) (since resets (log ++ [x])) = 0 :=
      between_eq_zero fun y hy => hlog y (mem_of_mem_since hy)
    exact ⟨by rw [hzero]; exact Nat.zero_le _, by rw [hsince]; exact Nat.zero_le _⟩
  rw [not_lt] at hearly
  by_cases hreset : resets x = true
  · -- a reset: at most `n` of what was counted since the one before it
    have hsince : since resets (log ++ [x]) = [x] := by rw [since_concat, if_pos hreset]
    have hresets : between time resets t (t + width) (log ++ [x]) =
        between time resets t (t + width) log + 1 := by
      rw [between_concat, if_pos ⟨hreset, hearly, hx⟩]
    refine ⟨?_, ?_⟩
    · have hall := h.le
      rw [hsince, hresets, between_concat, between_singleton, Nat.mul_add, Nat.mul_one]
      omega
    · rw [hsince, between_singleton]
      split <;> omega
  · have hsince : since resets (log ++ [x]) = since resets log ++ [x] := by
      rw [since_concat, if_neg hreset]
    have hresets : between time resets t (t + width) (log ++ [x]) =
        between time resets t (t + width) log := by
      rw [between_concat, if_neg fun hin => hreset hin.1, Nat.add_zero]
    refine ⟨?_, ?_⟩
    · rw [hsince, hresets, between_concat, between_concat]
      omega
    · rw [hsince, between_concat]
      by_cases hcounts : counts x = true
      · -- all that counts in the window is in the limiter's own window too
        have hmono : between time counts t (t + width) (since resets log) ≤
            between time counts (time x - width) (time x) (since resets log) :=
          between_mono fun y hy hlo _ =>
            ⟨(sub_le_iff_le_add.mpr hx).trans hlo, hsorted y (mem_of_mem_since hy)⟩
        have hlt := hlim hcounts (Bool.eq_false_iff.mpr hreset)
        split <;> omega
      · rw [if_neg fun hin => hcounts hin.1, Nat.add_zero]
        exact h.le

/-- **The limit of a window** with any number of resets in it. -/
theorem between_le (hn : 0 < n) (hsorted : log.Pairwise (time · ≤ time ·))
    (hlim : Each (Limited time counts resets width n) log) (t : τ) :
    between time counts t (t + width) log ≤
      n * (1 + between time resets t (t + width) log) := by
  -- induction on the log; as long as the window is not over, `Passed` carries it
  have hboth : between time counts t (t + width) log ≤
      n * (1 + between time resets t (t + width) log) ∧
      ((∀ x ∈ log, time x ≤ t + width) → Passed time counts resets t (t + width) n log) := by
    induction log using List.reverseRecOn with
    | nil => exact ⟨Nat.zero_le _, fun _ => ⟨Nat.zero_le _, Nat.zero_le _⟩⟩
    | append_singleton log x ih =>
      obtain ⟨hlog, -, hle⟩ := List.pairwise_append.mp hsorted
      have hle' : ∀ y ∈ log, time y ≤ time x := fun y hy => hle y hy x (List.mem_singleton_self x)
      obtain ⟨ihle, ihpassed⟩ := ih hlog fun before y after heq =>
        hlim before y (after ++ [x]) (by rw [heq, List.append_assoc, List.cons_append])
      have hpassed : time x ≤ t + width →
          Passed time counts resets t (t + width) n (log ++ [x]) := fun hx =>
        (ihpassed fun y hy => (hle' y hy).trans hx).concat hn hle' hx (hlim log x [] rfl)
      have hlast : x ∈ log ++ [x] := List.mem_append_right _ (List.mem_singleton_self x)
      refine ⟨?_, fun hall => hpassed (hall x hlast)⟩
      by_cases hx : time x ≤ t + width
      · have hle_add := (hpassed hx).le_add
        have hsince := (hpassed hx).le
        rw [Nat.mul_add, Nat.mul_one]
        omega
      · rw [between_concat, between_concat, if_neg fun hin => hx hin.2.2,
          if_neg fun hin => hx hin.2.2]
        exact ihle
  exact hboth.1

end Log

end AndroidAppliance
