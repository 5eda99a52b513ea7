import Mathlib.Data.List.Basic
import Mathlib.Tactic.Common

/-!
# Tables

A table is a list whose entries are created at the end, changed in place and never
removed, so that an index names an entry for good. The lemmas here read an entry of a
table after one such change back into the table before it.
-/

namespace AndroidAppliance

namespace Table

universe u

variable {α : Type u} {l : List α} {a x y : α} {f : α → α} {i j : Nat}

/-- An entry after a creation is an old one or the new one. -/
theorem cases_append (h : (l ++ [a])[i]? = some x) :
    l[i]? = some x ∨ i = l.length ∧ x = a := by
  rw [List.getElem?_append] at h
  split at h
  · exact .inl h
  · rename_i hlt
    rw [List.getElem?_singleton] at h
    split at h
    · cases h; exact .inr ⟨by omega, rfl⟩
    · cases h

/-- The old entries stay at a creation. -/
theorem append_old (h : l[i]? = some x) : (l ++ [a])[i]? = some x := by
  rw [List.getElem?_append_left (List.getElem?_eq_some_iff.mp h).1, h]

/-- The new entry is the last one. -/
theorem append_new : (l ++ [a])[l.length]? = some a := by
  simp

/-- An entry after a change is an old one, changed when it is the one in question. -/
theorem cases_modify (h : (l.modify i f)[j]? = some x) :
    ∃ y, l[j]? = some y ∧ (i = j ∧ x = f y ∨ i ≠ j ∧ x = y) := by
  rw [List.getElem?_modify, Option.map_eq_map] at h
  obtain ⟨y, hy, rfl⟩ := Option.map_eq_some_iff.mp h
  refine ⟨y, hy, ?_⟩
  by_cases hij : i = j <;> simp [hij]

/-- The same, without the places. -/
theorem mem_modify (h : x ∈ l.modify i f) : x ∈ l ∨ ∃ y ∈ l, x = f y := by
  obtain ⟨j, hj⟩ := List.mem_iff_getElem?.mp h
  obtain ⟨y, hy, hcase⟩ := cases_modify hj
  rcases hcase with ⟨-, rfl⟩ | ⟨-, rfl⟩
  · exact .inr ⟨y, List.mem_of_getElem? hy, rfl⟩
  · exact .inl (List.mem_of_getElem? hy)

/-- The entry that a change is about. -/
theorem modify_self (h : l[i]? = some x) : (l.modify i f)[i]? = some (f x) := by
  simp [h]

/-- The other entries stay at a change. -/
theorem modify_ne (hij : i ≠ j) (h : l[j]? = some x) : (l.modify i f)[j]? = some x := by
  simp [h, hij]

/-- A change keeps every entry in the table. -/
theorem modify_exists (h : l[j]? = some x) : ∃ y, (l.modify i f)[j]? = some y := by
  by_cases hij : i = j
  · exact ⟨f x, modify_self (hij ▸ h) |> (hij ▸ ·)⟩
  · exact ⟨x, modify_ne hij h⟩

/-- An entry after an assignment is the assigned one or an old one. -/
theorem cases_set (h : (l.set i a)[j]? = some x) :
    i = j ∧ x = a ∨ i ≠ j ∧ l[j]? = some x := by
  rw [List.getElem?_set] at h
  split at h
  · split at h
    · cases h; exact .inl ⟨‹_›, rfl⟩
    · cases h
  · exact .inr ⟨‹_›, h⟩

/-- The assigned entry. -/
theorem set_self (h : l[i]? = some x) : (l.set i a)[i]? = some a := by
  simp [(List.getElem?_eq_some_iff.mp h).1]

/-- The other entries stay at an assignment. -/
theorem set_ne (hij : i ≠ j) (h : l[j]? = some x) : (l.set i a)[j]? = some x := by
  rw [List.getElem?_set_ne hij, h]

/-! ### Counting -/

variable {p : α → Bool}

/-- The count after a change of one entry. -/
theorem countP_modify (h : l[i]? = some x) :
    (l.modify i f).countP p + (p x).toNat = l.countP p + (p (f x)).toNat := by
  induction l generalizing i with
  | nil => simp at h
  | cons b rest ih =>
    cases i with
    | zero =>
      obtain rfl : b = x := by simpa using h
      simp only [List.modify_zero_cons, List.countP_cons]
      cases p b <;> cases p (f b) <;> simp
    | succ i =>
      have hrest := ih h
      simp only [List.modify_succ_cons, List.countP_cons]
      omega

end Table

end AndroidAppliance
