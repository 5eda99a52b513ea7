import Mathlib.Data.List.Basic
import Mathlib.Tactic.Common

/-!
# Text as Python sees it

The methods of `str` that parsers of short headers use, on lists of characters. Headers are
decoded as Latin-1, so `lower` knows the letters of that range; `strip` is also used on other
text and knows all white space.
-/

namespace AndroidAppliance

/-- A `str`. -/
abbrev Str := List Char

namespace Str

/-- `s.partition(sep)`. -/
def partition (sep : Char) : Str → Str × Str × Str
  | [] => ([], [], [])
  | c :: s =>
    if c = sep then ([], [c], s) else (c :: (partition sep s).1, (partition sep s).2)

/-- `s.split(sep)[-1]`. -/
def splitLast (sep : Char) (s : Str) : Str := (s.reverse.takeWhile (· ≠ sep)).reverse

/-- `c.isspace()`. -/
def isSpace (c : Char) : Bool :=
  (9 ≤ c.toNat && c.toNat ≤ 13) || (28 ≤ c.toNat && c.toNat ≤ 32) || c.toNat = 0x85 ||
    c.toNat = 0xA0 || c.toNat = 0x1680 || (0x2000 ≤ c.toNat && c.toNat ≤ 0x200A) ||
    c.toNat = 0x2028 || c.toNat = 0x2029 || c.toNat = 0x202F || c.toNat = 0x205F || c.toNat = 0x3000

/-- `s.strip()`. -/
def strip (s : Str) : Str := ((s.dropWhile isSpace).reverse.dropWhile isSpace).reverse

/-- A capital letter of Latin-1 has its small one 32 places on. -/
def lowerChar (c : Char) : Char :=
  if ('A' ≤ c ∧ c ≤ 'Z') ∨ (0xC0 ≤ c.toNat ∧ c.toNat ≤ 0xDE ∧ c.toNat ≠ 0xD7) then
    Char.ofNat (c.toNat + 32)
  else c

/-- `s.lower()`. -/
def lower (s : Str) : Str := s.map lowerChar

/-- `s.isascii() and s.isdigit()`. -/
def isDigits (s : Str) : Bool := !s.isEmpty && s.all Char.isDigit

/-- `int(s)` of ASCII digits. -/
def int (s : Str) : Nat := Nat.ofDigitChars 10 s 0

/-- `str(n)`. -/
def ofNat (n : Nat) : Str := Nat.toDigits 10 n

/-- `str(n)` of an integer. -/
def ofInt : Int → Str
  | .ofNat n => ofNat n
  | .negSucc n => '-' :: ofNat (n + 1)

/-! ### `partition` -/

variable {sep : Char} {s a b : Str}

/-- The parts make up the text, and the separator is not in the first one. -/
theorem partition_spec (sep : Char) (s : Str) :
    sep ∉ (partition sep s).1 ∧
      (s = (partition sep s).1 ++ sep :: (partition sep s).2.2 ∨
        s = (partition sep s).1 ∧ (partition sep s).2.2 = []) := by
  induction s with
  | nil => exact ⟨List.not_mem_nil, .inr ⟨rfl, rfl⟩⟩
  | cons c s ih =>
    unfold partition
    by_cases hc : c = sep
    · rw [if_pos hc]
      exact ⟨List.not_mem_nil, .inl (by rw [hc]; rfl)⟩
    · rw [if_neg hc]
      obtain ⟨hsep, hparts⟩ := ih
      refine ⟨by simpa [Ne.symm hc] using hsep, ?_⟩
      rcases hparts with heq | ⟨heq, hrest⟩
      · exact .inl (congrArg (c :: ·) heq)
      · exact .inr ⟨congrArg (c :: ·) heq, hrest⟩

theorem partition_free (h : sep ∉ s) : partition sep s = (s, [], []) := by
  induction s with
  | nil => rfl
  | cons c s ih =>
    rw [List.mem_cons, not_or] at h
    rw [partition, if_neg (Ne.symm h.1), ih h.2]

theorem partition_sep (h : sep ∉ a) :
    partition sep (a ++ sep :: b) = (a, [sep], b) := by
  induction a with
  | nil => rw [List.nil_append, partition, if_pos rfl]
  | cons c a ih =>
    rw [List.mem_cons, not_or] at h
    rw [List.cons_append, partition, if_neg (Ne.symm h.1), ih h.2]

/-- The separator that comes first is the one that counts. -/
theorem append_sep_inj {a' b' : Str} (ha : sep ∉ a) (ha' : sep ∉ a')
    (h : a ++ sep :: b = a' ++ sep :: b') : a = a' ∧ b = b' := by
  induction a generalizing a' with
  | nil =>
    cases a' with
    | nil => simpa using h
    | cons c a' =>
      have hc : sep = c := by simpa using congrArg List.head? h
      simp [hc] at ha'
  | cons c a ih =>
    cases a' with
    | nil =>
      have hc : c = sep := by simpa using congrArg List.head? h
      simp [hc] at ha
    | cons c' a' =>
      simp only [List.cons_append, List.cons.injEq] at h
      simp only [List.mem_cons, not_or] at ha ha'
      obtain ⟨rfl, rfl⟩ := ih ha.2 ha'.2 h.2
      exact ⟨by rw [h.1], rfl⟩

/-! ### Numbers -/

theorem int_ofNat (n : Nat) : int (ofNat n) = n :=
  Nat.ofDigitChars_toDigits (by decide) (by decide)

theorem ofNat_ne_nil (n : Nat) : ofNat n ≠ [] := by
  intro hnil
  have hpos := Nat.length_toDigits_pos (b := 10) (n := n)
  rw [show Nat.toDigits 10 n = [] from hnil] at hpos
  exact absurd hpos (by decide)

theorem ofNat_digit {n : Nat} {c : Char} (h : c ∈ ofNat n) : c.isDigit = true :=
  Nat.isDigit_of_mem_toDigits (by decide) (by decide) h

theorem isDigits_ofNat (n : Nat) : isDigits (ofNat n) = true := by
  simp only [isDigits, Bool.and_eq_true, List.all_eq_true, Bool.not_eq_true',
    List.isEmpty_eq_false_iff]
  exact ⟨ofNat_ne_nil n, fun _ hc => ofNat_digit hc⟩

/-- A separator that is neither a digit nor a sign is in no number. -/
theorem not_mem_ofInt {n : Int} (hd : sep.isDigit = false) (hs : sep ≠ '-') :
    sep ∉ ofInt n := by
  have hnat : ∀ m : Nat, sep ∉ ofNat m := fun m h => by
    rw [ofNat_digit h] at hd
    cases hd
  cases n with
  | ofNat n => exact hnat n
  | negSucc n =>
    rw [ofInt, List.mem_cons, not_or]
    exact ⟨hs, hnat _⟩

theorem digit_toNat {c : Char} (h : c.isDigit = true) : 48 ≤ c.toNat ∧ c.toNat ≤ 57 := by
  simp only [Char.isDigit, Bool.and_eq_true, decide_eq_true_eq, UInt32.le_iff_toNat_le] at h
  exact h

/-- Digits that are a number's text read back as the number. -/
theorem int_of_isDigits {n : Int} (h : isDigits (ofInt n) = true) : (int (ofInt n) : Int) = n := by
  cases n with
  | ofNat n => exact congrArg Int.ofNat (int_ofNat n)
  | negSucc n =>
    simp only [isDigits, ofInt, List.all_cons, Bool.and_eq_true] at h
    exact absurd h.2.1 (by decide)

/-- What is in a joined text: the separator, and what is in the parts. -/
theorem mem_intercalate {sep c : Char} {parts : List Str} (h : c ∈ [sep].intercalate parts) :
    c = sep ∨ ∃ part ∈ parts, c ∈ part := by
  induction parts with
  | nil => cases h
  | cons part parts ih =>
    cases parts with
    | nil =>
      rw [List.intercalate_singleton] at h
      exact .inr ⟨part, List.mem_cons_self, h⟩
    | cons next parts =>
      rw [List.intercalate_cons_cons, List.mem_append, List.mem_append, List.mem_singleton] at h
      obtain (h | h) | h := h
      · exact .inr ⟨part, List.mem_cons_self, h⟩
      · exact .inl h
      · obtain h | ⟨p, hp, hc⟩ := ih h
        · exact .inl h
        · exact .inr ⟨p, List.mem_cons_of_mem _ hp, hc⟩

/-- A property of every character, from a computation on the text. -/
theorem forall_mem_of_all {p : Char → Prop} [DecidablePred p] {s : Str}
    (h : s.all (fun c => decide (p c)) = true) : ∀ c ∈ s, p c := by
  simpa only [List.all_eq_true, decide_eq_true_eq] using h

end Str

end AndroidAppliance
