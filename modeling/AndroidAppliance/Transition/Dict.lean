import Mathlib.Data.List.Nodup
import Mathlib.Data.List.Perm.Subperm
import Mathlib.Tactic.Common

/-!
# Dicts

A `Dict` keeps its entries in the order in which their keys were put, at most one for a key:
a `dict` of Python, or a `Map` of JavaScript. A key that is put again keeps its place.
-/

namespace AndroidAppliance

universe u v

/-- The entries of a dict, with one entry for a key. -/
structure Dict (κ : Type u) (α : Type v) where
  entries : List (κ × α)
  nodup : (entries.map Prod.fst).Nodup
  deriving DecidableEq, Repr

namespace Dict

variable {κ : Type u} {α : Type v} [DecidableEq κ]

/-- No key has a value. -/
def empty : Dict κ α := { entries := [], nodup := List.nodup_nil }

/-- The value of a key. -/
def get (d : Dict κ α) (k : κ) : Option α := d.entries.lookup k

/-- The key has a value. -/
def has (d : Dict κ α) (k : κ) : Bool := (d.get k).isSome

/-- How many keys have a value. -/
def size (d : Dict κ α) : Nat := d.entries.length

/-- The values, in the order of the keys. -/
def values (d : Dict κ α) : List α := d.entries.map Prod.snd

/-- The key is taken out. -/
def pop (d : Dict κ α) (k : κ) : Dict κ α where
  entries := d.entries.filter (·.1 ≠ k)
  nodup := d.nodup.sublist (List.Sublist.map _ List.filter_sublist)

variable {d : Dict κ α} {k k' : κ} {a b : α}

/-- The entries and the values of the keys say the same. -/
theorem get_eq_some : d.get k = some a ↔ (k, a) ∈ d.entries := by
  constructor
  · intro h
    obtain ⟨before, after, heq, -⟩ := List.lookup_eq_some_iff.mp h
    rw [heq]
    simp
  · intro h
    cases hget : d.get k with
    | none =>
      have hne := List.lookup_eq_none_iff.mp hget _ h
      simp at hne
    | some b =>
      obtain ⟨before, after, heq, -⟩ := List.lookup_eq_some_iff.mp hget
      have hmem : (k, b) ∈ d.entries := by
        rw [heq]
        simp
      have hpair := List.inj_on_of_nodup_map d.nodup hmem h rfl
      exact congrArg (some ∘ Prod.snd) hpair

/-- A key without a value is not in the table. -/
theorem get_eq_none : d.get k = none ↔ k ∉ d.entries.map Prod.fst := by
  unfold get
  rw [List.lookup_eq_none_iff]
  constructor
  · intro h hmem
    obtain ⟨e, he, rfl⟩ := List.mem_map.mp hmem
    have hne := h e he
    simp at hne
  · intro h e he
    have hne : k ≠ e.1 := fun heq => h (heq ▸ List.mem_map_of_mem he)
    simpa using hne

/-- A key with a value is. -/
theorem has_iff : d.has k = true ↔ k ∈ d.entries.map Prod.fst := by
  rw [← not_iff_not, ← get_eq_none, has, Option.not_isSome_iff_eq_none]

/-- The value of a key is set. -/
def put (d : Dict κ α) (k : κ) (a : α) : Dict κ α :=
  if h : d.has k = true then
    { entries := d.entries.map fun e => if e.1 = k then (k, a) else e
      nodup := by
        have hfst : (Prod.fst ∘ fun e : κ × α => if e.1 = k then (k, a) else e) = Prod.fst := by
          funext e
          simp only [Function.comp]
          split
          · exact Eq.symm ‹_›
          · rfl
        rw [List.map_map, hfst]
        exact d.nodup }
  else
    { entries := d.entries ++ [(k, a)]
      nodup := by
        rw [List.map_append, List.map_singleton]
        refine List.nodup_append.mpr ⟨d.nodup, List.nodup_singleton k, fun x hx y hy => ?_⟩
        rw [List.mem_singleton.mp hy]
        rintro rfl
        exact h (has_iff.mpr hx) }

/-- A value is that of a key. -/
theorem mem_values : a ∈ d.values ↔ ∃ k, d.get k = some a := by
  unfold values
  rw [List.mem_map]
  constructor
  · rintro ⟨e, he, rfl⟩
    exact ⟨e.1, get_eq_some.mpr he⟩
  · rintro ⟨k, hk⟩
    exact ⟨(k, a), get_eq_some.mp hk, rfl⟩

/-- So is what is made of a value. -/
theorem mem_map_values {β : Type*} {f : α → β} {b : β} :
    b ∈ d.values.map f ↔ ∃ k a, d.get k = some a ∧ f a = b := by
  rw [List.mem_map]
  constructor
  · rintro ⟨a, ha, hb⟩
    obtain ⟨k, hk⟩ := mem_values.mp ha
    exact ⟨k, a, hk, hb⟩
  · rintro ⟨k, a, hk, hb⟩
    exact ⟨a, mem_values.mpr ⟨k, hk⟩, hb⟩

/-- A function that tells the keys apart has no value twice. -/
theorem nodup_map_values {β : Type*} {f : α → β}
    (h : ∀ k k' a a', d.get k = some a → d.get k' = some a' → f a = f a' → k = k') :
    (d.values.map f).Nodup := by
  have hentries : d.entries.Nodup := List.Nodup.of_map _ d.nodup
  rw [values, List.map_map]
  refine hentries.map_on fun e he e' he' heq => ?_
  have hget := get_eq_some.mpr he
  have hget' := get_eq_some.mpr he'
  have hkey : e.1 = e'.1 := h _ _ _ _ hget hget' heq
  rw [← hkey] at hget'
  exact Prod.ext hkey (Option.some.inj (hget.symm.trans hget'))

@[simp]
theorem get_empty : (empty : Dict κ α).get k = none := rfl

omit [DecidableEq κ] in
@[simp]
theorem size_empty : (empty : Dict κ α).size = 0 := rfl

omit [DecidableEq κ] in
@[simp]
theorem values_empty : (empty : Dict κ α).values = [] := rfl

/-- What is left without a key. -/
theorem get_pop : (d.pop k).get k' = if k' = k then none else d.get k' := by
  refine Option.ext fun b => ?_
  have hmem : (d.pop k).get k' = some b ↔ d.get k' = some b ∧ k' ≠ k := by
    rw [get_eq_some, get_eq_some, pop, List.mem_filter]
    simp
  rw [hmem]
  split
  · simp [*]
  · simp [*]

/-- What a key has then. -/
theorem get_put : (d.put k a).get k' = if k' = k then some a else d.get k' := by
  refine Option.ext fun b => ?_
  rw [get_eq_some]
  unfold put
  split
  · -- the key is there: its entry is replaced in place
    rename_i hhas
    rw [List.mem_map]
    constructor
    · rintro ⟨e, he, heq⟩
      split at heq
      · cases heq
        simp
      · rename_i hne
        subst heq
        exact (if_neg hne).trans (get_eq_some.mpr he)
    · intro h
      split at h
      · rename_i hk
        cases h
        obtain ⟨e, he, rfl⟩ := List.mem_map.mp (has_iff.mp hhas)
        exact ⟨e, he, by simp [hk]⟩
      · rename_i hne
        exact ⟨(k', b), get_eq_some.mp h, by simp [hne]⟩
  · rename_i hhas
    rw [List.mem_append, List.mem_singleton]
    constructor
    · rintro (hmem | heq)
      · have hne : k' ≠ k := by
          rintro rfl
          exact hhas (has_iff.mpr (List.mem_map_of_mem hmem))
        rw [if_neg hne]
        exact get_eq_some.mpr hmem
      · cases heq
        simp
    · intro h
      split at h
      · rename_i hk
        cases h
        exact .inr (by rw [hk])
      · exact .inl (get_eq_some.mp h)

/-- The new value of the key. -/
theorem get_put_self : (d.put k a).get k = some a := by
  rw [get_put, if_pos rfl]

/-- The other keys keep theirs. -/
theorem get_put_of_ne (h : k' ≠ k) : (d.put k a).get k' = d.get k' := by
  rw [get_put, if_neg h]

/-- A known key makes the table no larger. -/
theorem size_put_of_has (h : d.has k = true) : (d.put k a).size = d.size := by
  unfold put size
  rw [dif_pos h]
  exact List.length_map _

/-- A new key makes it larger. -/
theorem size_put_of_not_has (h : ¬d.has k = true) : (d.put k a).size = d.size + 1 := by
  unfold put size
  rw [dif_neg h]
  exact List.length_append

/-- Taking a key out does not. -/
theorem size_pop_le : (d.pop k).size ≤ d.size :=
  List.length_filter_le _ _

/-- Distinct keys with a value each are no more than the entries. -/
theorem length_le_size {ks : List κ} (hnodup : ks.Nodup) (h : ∀ k ∈ ks, d.has k = true) :
    ks.length ≤ d.size := by
  have hsub : ks ⊆ d.entries.map Prod.fst := fun k hk => has_iff.mp (h k hk)
  have hlen := (hnodup.subperm hsub).length_le
  rwa [List.length_map] at hlen

end Dict

end AndroidAppliance
