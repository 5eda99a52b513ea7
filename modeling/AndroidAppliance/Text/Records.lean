import Mathlib.Data.List.Basic
import Mathlib.Data.List.Induction
import Mathlib.Tactic.Common

/-!
# Records that are read in chunks

A stream of records, each ended by a separator, over any alphabet. A reader that gets the stream
in chunks, cut anywhere, takes the records that are complete and keeps what is behind the last
separator for the next chunk. It gets the records of the whole text, each once and in order:
`complete_append` and `pending_append` are one step of it. A reader that stops at the first record
of a kind gets `through` of them.
-/

namespace AndroidAppliance

namespace Records

variable {α : Type*} {sep : α → Bool} {a b s : List α} {c : α}

/-- The records that a separator ends. -/
def complete (sep : α → Bool) (s : List α) : List (List α) := (s.splitOnP sep).dropLast

/-- What is behind the last separator. -/
def pending (sep : α → Bool) (s : List α) : List α := (s.splitOnP sep).getLast?.getD []

/-- A stream is a record that has not ended, or ends with one. -/
theorem exists_last_cut (sep : α → Bool) (s : List α) : (∀ c ∈ s, sep c = false) ∨
    ∃ a c b, s = a ++ c :: b ∧ sep c = true ∧ ∀ d ∈ b, sep d = false := by
  -- from the end: what comes behind a cut only makes its last part longer
  induction s using List.reverseRecOn with
  | nil => exact .inl (List.forall_mem_nil _)
  | append_singleton s d ih =>
    cases hd : sep d with
    | true => exact .inr ⟨s, d, [], rfl, hd, List.forall_mem_nil _⟩
    | false =>
      have hlast : ∀ e ∈ [d], sep e = false := List.forall_mem_singleton.mpr hd
      obtain hfree | ⟨a, c, b, rfl, hc, hb⟩ := ih
      · exact .inl (List.forall_mem_append.mpr ⟨hfree, hlast⟩)
      · refine .inr ⟨a, c, b ++ [d], ?_, hc, List.forall_mem_append.mpr ⟨hb, hlast⟩⟩
        rw [List.append_assoc, List.cons_append]

/-- A record has no separator, and is of the text. -/
theorem of_mem_splitOnP {r : List α} (h : r ∈ s.splitOnP sep) :
    (∀ c ∈ r, sep c = false) ∧ r ⊆ s := by
  obtain ⟨n, hn⟩ : ∃ n, s.length = n := ⟨_, rfl⟩
  induction n using Nat.strongRecOn generalizing s with
  | ind n ih =>
    obtain hfree | ⟨a, c, b, rfl, hc, hb⟩ := exists_last_cut sep s
    · rw [List.splitOnP_eq_singleton hfree, List.mem_singleton] at h
      rw [h]
      exact ⟨hfree, List.Subset.refl s⟩
    · rw [List.splitOnP_append_cons a b hc, List.splitOnP_eq_singleton hb, List.mem_append,
        List.mem_singleton] at h
      rcases h with hmem | rfl
      · have hlt : a.length < n := by
          rw [← hn, List.length_append, List.length_cons]
          omega
        obtain ⟨hr, hsub⟩ := ih a.length hlt hmem rfl
        exact ⟨hr, List.Subset.trans hsub (List.subset_append_left _ _)⟩
      · exact ⟨hb, fun d hd => List.mem_append_right _ (List.mem_cons_of_mem _ hd)⟩

theorem complete_of_free (h : ∀ c ∈ s, sep c = false) : complete sep s = [] := by
  rw [complete, List.splitOnP_eq_singleton h]
  rfl

theorem pending_of_free (h : ∀ c ∈ s, sep c = false) : pending sep s = s := by
  rw [pending, List.splitOnP_eq_singleton h]
  rfl

@[simp]
theorem complete_nil : complete sep [] = [] := complete_of_free (List.forall_mem_nil _)

@[simp]
theorem pending_nil : pending sep [] = [] := pending_of_free (List.forall_mem_nil _)

theorem complete_cut (hc : sep c = true) : complete sep (a ++ c :: b) =
    a.splitOnP sep ++ complete sep b := by
  rw [complete, List.splitOnP_append_cons a b hc,
    List.dropLast_append_of_ne_nil (List.splitOnP_ne_nil _ _), complete]

theorem pending_cut (hc : sep c = true) : pending sep (a ++ c :: b) = pending sep b := by
  rw [pending, List.splitOnP_append_cons a b hc,
    List.getLast?_append_of_ne_nil _ (List.splitOnP_ne_nil _ _), pending]

/-- What is kept has no separator. -/
theorem pending_free (s : List α) : ∀ c ∈ pending sep s, sep c = false := by
  obtain hfree | ⟨a, c, b, rfl, hc, hb⟩ := exists_last_cut sep s
  · rw [pending_of_free hfree]
    exact hfree
  · rw [pending_cut hc, pending_of_free hb]
    exact hb

/-- The records of two texts: those of the first, and those that end in the second. -/
theorem complete_append (a b : List α) : complete sep (a ++ b) =
    complete sep a ++ complete sep (pending sep a ++ b) := by
  obtain hfree | ⟨u, c, v, rfl, hc, hv⟩ := exists_last_cut sep a
  · rw [complete_of_free hfree, pending_of_free hfree, List.nil_append]
  · rw [List.append_assoc, List.cons_append, complete_cut hc, complete_cut hc, pending_cut hc,
      complete_of_free hv, pending_of_free hv, List.append_nil]

theorem pending_append (a b : List α) :
    pending sep (a ++ b) = pending sep (pending sep a ++ b) := by
  obtain hfree | ⟨u, c, v, rfl, hc, hv⟩ := exists_last_cut sep a
  · rw [pending_of_free hfree]
  · rw [List.append_assoc, List.cons_append, pending_cut hc, pending_cut hc, pending_of_free hv]

/-! ### Up to a record that ends the reading -/

variable {p : α → Bool} {l l' : List α}

/-- The elements up to the first one that `p` holds of, which is the last. -/
def through (p : α → Bool) : List α → List α
  | [] => []
  | a :: l => if p a then [a] else a :: through p l

theorem through_cons_of_pos (hc : p c = true) : through p (c :: l) = [c] := if_pos hc

theorem through_cons_of_neg (hc : p c = false) : through p (c :: l) = c :: through p l :=
  if_neg (Bool.eq_false_iff.mp hc)

/-- Elements that do not end the reading are read before all others. -/
theorem through_append (h : ∀ c ∈ l, p c = false) : through p (l ++ l') = l ++ through p l' := by
  induction l with
  | nil => rfl
  | cons c l ih =>
    have hl : ∀ d ∈ l, p d = false := fun d hd => h d (List.mem_cons_of_mem c hd)
    rw [List.cons_append, through_cons_of_neg (h c List.mem_cons_self), ih hl, List.cons_append]

theorem through_cut (h : ∀ c ∈ l, p c = false) (hc : p c = true) :
    through p (l ++ c :: l') = l ++ [c] := by
  rw [through_append h, through_cons_of_pos hc]

end Records

end AndroidAppliance
