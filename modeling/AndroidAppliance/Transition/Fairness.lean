import AndroidAppliance.Transition.Machine
import Mathlib.Data.Nat.Init
import Mathlib.Order.Nat

/-!
# Infinite runs and weak fairness

An infinite run of a machine (`Trace`) is weakly fair to a set of labels when it does not
leave the set enabled for ever without taking one of them (`Trace.Fair`). Fairness is a
premise of the theorems that need it; a machine promises nothing about it.

The rule for "this will happen" is `Trace.leads_to`: a set of labels stays enabled until
the goal, no step increases a rank, and those labels decrease it. `Trace.lasso` builds
the runs that show that such premises can be met: a finite run, and a step that stays.
-/

namespace AndroidAppliance

universe u v

namespace Machine

variable {σ : Type u} {ε : Type v}

/-- An infinite run. -/
structure Trace (M : Machine σ ε) where
  /-- The state after `n` steps. -/
  state : ℕ → σ
  /-- The label of the step after these. -/
  label : ℕ → ε
  init : M.Init (state 0)
  next : ∀ n, M.step (state n) (label n) = some (state (n + 1))

/-- Some label of the set `A` is enabled. -/
def Enabled (M : Machine σ ε) (A : ε → Prop) (s : σ) : Prop :=
  ∃ a t, A a ∧ M.step s a = some t

/-- What brings every run from `P` to a step of the kind `G`: one of the labels `A` is
enabled all the while, and each of them lowers the rank, which nothing else raises. -/
structure Progress (M : Machine σ ε) (ok : σ → ε → Prop) (A : ε → Prop) (P : σ → Prop)
    (G : σ → ε → σ → Prop) (rank : σ → ℕ) : Prop where
  enabled : ∀ s, M.ReachBy ok s → P s → M.Enabled A s
  step : ∀ s a t, M.ReachBy ok s → P s → ok s a → M.step s a = some t →
    G s a t ∨ P t ∧ rank t ≤ rank s ∧ (A a → rank t < rank s)

namespace Trace

variable {M : Machine σ ε} {ok : σ → ε → Prop} {A : ε → Prop} {P : σ → Prop}
  {G : σ → ε → σ → Prop} {rank : σ → ℕ}

/-- Weak fairness: labels that stay enabled are taken at last. -/
def Fair (r : M.Trace) (A : ε → Prop) : Prop :=
  ∀ n, (∀ k, n ≤ k → M.Enabled A (r.state k)) → ∃ k, n ≤ k ∧ A (r.label k)

/-- Every step of the run satisfies `ok`. -/
def Ok (r : M.Trace) (ok : σ → ε → Prop) : Prop := ∀ n, ok (r.state n) (r.label n)

/-- The states of a run are reachable. -/
theorem reachBy (r : M.Trace) (hok : r.Ok ok) (n : ℕ) : M.ReachBy ok (r.state n) := by
  induction n with
  | zero => exact .init r.init
  | succ n ih => exact .step ih (hok n) (r.next n)

/-- Without the goal, `P` stays and the rank does not grow. -/
private theorem stays (r : M.Trace) (hok : r.Ok ok) (h : M.Progress ok A P G rank) {n : ℕ}
    (hn : P (r.state n))
    (hno : ∀ k, n ≤ k → ¬ G (r.state k) (r.label k) (r.state (k + 1))) (k : ℕ) (hk : n ≤ k) :
    P (r.state k) ∧ rank (r.state k) ≤ rank (r.state n) := by
  induction k, hk using Nat.le_induction with
  | base => exact ⟨hn, le_refl _⟩
  | succ k hk ih =>
    obtain hg | ⟨hP, hle, -⟩ := h.step _ _ _ (r.reachBy hok k) ih.1 (hok k) (r.next k)
    · exact absurd hg (hno k hk)
    · exact ⟨hP, hle.trans ih.2⟩

/-- **The rule of weak fairness.** -/
theorem leads_to (r : M.Trace) (hok : r.Ok ok) (h : M.Progress ok A P G rank)
    (hfair : r.Fair A) {n : ℕ} (hn : P (r.state n)) :
    ∃ k, n ≤ k ∧ G (r.state k) (r.label k) (r.state (k + 1)) := by
  -- a step of the set before the goal leaves a smaller rank to go on with
  induction hr : rank (r.state n) using Nat.strong_induction_on generalizing n with
  | _ m ih =>
    by_contra hcon
    have hno : ∀ k, n ≤ k → ¬ G (r.state k) (r.label k) (r.state (k + 1)) :=
      fun k hk hg => hcon ⟨k, hk, hg⟩
    have hstay := r.stays hok h hn hno
    obtain ⟨k, hk, ha⟩ := hfair n fun k hk => h.enabled _ (r.reachBy hok k) (hstay k hk).1
    obtain hg | ⟨hP, -, hlt⟩ := h.step _ _ _ (r.reachBy hok k) (hstay k hk).1 (hok k) (r.next k)
    · exact hno k hk hg
    · have hsmall : rank (r.state (k + 1)) < m :=
        hr ▸ lt_of_lt_of_le (hlt ha) (hstay k hk).2
      obtain ⟨j, hj, hg⟩ := ih _ hsmall hP rfl
      exact hno j (by omega) hg

end Trace

/-! ### A finite run that goes on for ever -/

variable {M : Machine σ ε} {ok : σ → ε → Prop} {s t u : σ} {es fs : List ε} {a : ε}

theorem run_append (es fs : List ε) :
    M.run s (es ++ fs) = (M.run s es).bind fun t => M.run t fs := by
  induction es generalizing s with
  | nil => rfl
  | cons e es ih =>
    simp only [List.cons_append, run, Option.bind_assoc]
    exact congrArg _ (funext fun _ => ih)

/-- Every prefix of a run is a run. -/
theorem run_take (h : M.run s es = some t) (n : ℕ) : ∃ u, M.run s (es.take n) = some u := by
  rw [← List.take_append_drop n es, run_append] at h
  obtain ⟨u, hu, -⟩ := Option.bind_eq_some_iff.mp h
  exact ⟨u, hu⟩

/-- The next step of a run. -/
theorem run_take_succ {n : ℕ} {e : ε} (he : es[n]? = some e)
    (hu : M.run s (es.take n) = some u) : M.step u e = M.run s (es.take (n + 1)) := by
  rw [List.take_add_one, he, run_append, hu]
  simp [run]

/-- The steps of a run satisfy the condition of the run. -/
theorem RunOk.get {n : ℕ} {e : ε} (h : M.RunOk ok s es) (he : es[n]? = some e)
    (hu : M.run s (es.take n) = some u) : ok u e := by
  induction es generalizing s n with
  | nil => cases he
  | cons e' es ih =>
    cases n with
    | zero =>
      cases he
      cases hu
      exact h.1
    | succ n =>
      obtain ⟨v, hv, hrest⟩ := Option.bind_eq_some_iff.mp hu
      exact ih (h.2 v hv) he hrest

namespace Trace

/-- A finite run, and then one step for ever that leaves its end as it is. -/
def lasso (h0 : M.Init s) (hrun : M.run s es = some t) (hloop : M.step t a = some t) :
    M.Trace where
  state n := (M.run s (es.take n)).getD t
  label n := (es[n]?).getD a
  init := h0
  next n := by
    obtain ⟨u, hu⟩ := run_take hrun n
    cases he : es[n]? with
    | some e =>
      obtain ⟨v, hv⟩ := run_take hrun (n + 1)
      rw [hu, hv, Option.getD_some, Option.getD_some, Option.getD_some,
        run_take_succ he hu, hv]
    | none =>
      have hlen : es.length ≤ n := List.getElem?_eq_none_iff.mp he
      rw [List.take_of_length_le hlen, List.take_of_length_le (Nat.le_succ_of_le hlen), hrun]
      exact hloop

variable {h0 : M.Init s} {hrun : M.run s es = some t} {hloop : M.step t a = some t}

theorem lasso_state {n : ℕ} (hn : es.length ≤ n) : (lasso h0 hrun hloop).state n = t := by
  simp only [lasso, List.take_of_length_le hn, hrun, Option.getD_some]

theorem lasso_state_take {n : ℕ} (hu : M.run s (es.take n) = some u) :
    (lasso h0 hrun hloop).state n = u := by
  simp only [lasso, hu, Option.getD_some]

theorem lasso_ok (hes : M.RunOk ok s es) (ha : ok t a) : (lasso h0 hrun hloop).Ok ok := by
  intro n
  cases he : es[n]? with
  | some e =>
    obtain ⟨u, hu⟩ := run_take hrun n
    have hok := hes.get he hu
    simpa only [lasso, he, hu, Option.getD_some] using hok
  | none =>
    have hlen : es.length ≤ n := List.getElem?_eq_none_iff.mp he
    rw [lasso_state hlen]
    simpa only [lasso, he, Option.getD_none] using ha

/-- The run is fair to labels that are not enabled at its end. -/
theorem lasso_fair {A : ε → Prop} (h : ¬ M.Enabled A t) : (lasso h0 hrun hloop).Fair A := by
  intro n hall
  have hen := hall (n + es.length) (Nat.le_add_right ..)
  rw [lasso_state (Nat.le_add_left ..)] at hen
  exact absurd hen h

end Trace

end Machine

end AndroidAppliance
