import AndroidAppliance.Text.Code

/-!
# UTF-16 units

A string of JavaScript as its units (`Units`). A text becomes units by `Utf16.encode`, one unit
for a character below 10000h and a pair of surrogates for any other, and units become a string of
`Code`s again by `Utf16.decode`.
-/

namespace AndroidAppliance

namespace Text

/-- The UTF-16 units of a string. -/
abbrev Units := List Nat

namespace Utf16

/-- The first half of a pair of surrogates. -/
def isHigh (u : Nat) : Bool := 0xd800 ≤ u && u ≤ 0xdbff

/-- The second half. -/
def isLow (u : Nat) : Bool := 0xdc00 ≤ u && u ≤ 0xdfff

/-- The units of a character. -/
def encodeChar (c : Char) : Units :=
  if c.toNat < 0x10000 then [c.toNat]
  else [0xd800 + (c.toNat - 0x10000) / 1024, 0xdc00 + (c.toNat - 0x10000) % 1024]

/-- The units of a text. -/
def encode (text : List Char) : Units := text.flatMap encodeChar

/-- A unit that is not part of a pair. -/
def single (u : Nat) : Code :=
  if 0xd800 ≤ u ∧ u ≤ 0xdfff then .lone (.ofNat 2048 (u - 0xd800)) else .char (.ofNat u)

/-- A pair of surrogates. -/
def pair (high low : Nat) : Code :=
  .char (.ofNat (0x10000 + (high - 0xd800) * 1024 + (low - 0xdc00)))

/-- The code points of the units; a surrogate that is alone stands for itself. -/
def decode : Units → Codes
  | [] => []
  | [u] => [single u]
  | u :: v :: units =>
    if isHigh u && isLow v then pair u v :: decode units else single u :: decode (v :: units)

variable {c : Char} {text more : List Char}

@[simp]
theorem encode_nil : encode [] = [] := rfl

@[simp]
theorem encode_append : encode (text ++ more) = encode text ++ encode more :=
  List.flatMap_append

@[simp]
theorem encode_cons : encode (c :: text) = encodeChar c ++ encode text := rfl

/-- No character is a surrogate. -/
theorem toNat_not_surrogate (c : Char) : c.toNat < 0xd800 ∨ 0xdfff < c.toNat := by
  rcases c.valid with h | ⟨h, -⟩
  · exact .inl h
  · exact .inr h

theorem toNat_lt (c : Char) : c.toNat < 0x110000 := by
  rcases c.valid with h | ⟨-, h⟩
  · exact Nat.lt_trans h (by decide)
  · exact h

/-- A character is one unit that is no surrogate, or a pair of surrogates. -/
theorem encodeChar_cases (c : Char) :
    (encodeChar c = [c.toNat] ∧ isHigh c.toNat = false) ∨
      ∃ u v, encodeChar c = [u, v] ∧ isHigh u = true ∧ isLow v = true ∧ isHigh v = false ∧
        pair u v = .char c := by
  have hlt := toNat_lt c
  have hnot := toNat_not_surrogate c
  unfold encodeChar isHigh isLow
  split
  · refine .inl ⟨rfl, ?_⟩
    rw [Bool.and_eq_false_iff, decide_eq_false_iff_not, decide_eq_false_iff_not]
    omega
  · refine .inr ⟨_, _, rfl, ?_, ?_, ?_, ?_⟩
    · rw [Bool.and_eq_true, decide_eq_true_eq, decide_eq_true_eq]
      omega
    · rw [Bool.and_eq_true, decide_eq_true_eq, decide_eq_true_eq]
      omega
    · rw [Bool.and_eq_false_iff, decide_eq_false_iff_not, decide_eq_false_iff_not]
      omega
    · have hcode : 0x10000 + (0xd800 + (c.toNat - 0x10000) / 1024 - 0xd800) * 1024 +
          (0xdc00 + (c.toNat - 0x10000) % 1024 - 0xdc00) = c.toNat := by omega
      rw [pair, hcode, Char.ofNat_toNat]

theorem length_encodeChar (c : Char) : 1 ≤ (encodeChar c).length ∧ (encodeChar c).length ≤ 2 := by
  rcases encodeChar_cases c with ⟨h, -⟩ | ⟨u, v, h, -⟩
  · simp [h]
  · simp [h]

/-- A character that is one unit stands for itself. -/
theorem single_toNat (c : Char) : single c.toNat = .char c := by
  have hnot := toNat_not_surrogate c
  unfold single
  rw [if_neg (by omega), Char.ofNat_toNat]

theorem decode_cons_single {u : Nat} {units : Units} (h : isHigh u = false) :
    decode (u :: units) = single u :: decode units := by
  cases units with
  | nil => rfl
  | cons v units => rw [decode, h, Bool.false_and, if_neg Bool.false_ne_true]

/-- **The units of a text** are read as the text. -/
@[simp]
theorem decode_encode (text : List Char) : decode (encode text) = Codes.ofText text := by
  induction text with
  | nil => rfl
  | cons c text ih =>
    rw [encode_cons]
    rcases encodeChar_cases c with ⟨h, hhigh⟩ | ⟨u, v, h, hhigh, hlow, -, hpair⟩
    · rw [h, List.singleton_append, decode_cons_single hhigh, single_toNat, ih]
      rfl
    · rw [h, List.cons_append, List.singleton_append, decode, hhigh, hlow, Bool.true_and,
        if_pos rfl, hpair, ih]
      rfl

/-- The last unit of a text is not the first half of a pair. -/
theorem isHigh_last {rest : Units} (h : text ≠ []) :
    isHigh ((encode text ++ rest).getD ((encode text).length - 1) 0) = false := by
  obtain ⟨init, c, rfl⟩ := List.eq_nil_or_concat text |>.resolve_left h
  have hone : encode [c] = encodeChar c := List.append_nil _
  rw [List.concat_eq_append, encode_append, hone, List.append_assoc, List.length_append]
  have hlen := length_encodeChar c
  rw [List.getD_eq_getElem?_getD, List.getElem?_append_right (by omega)]
  rcases encodeChar_cases c with ⟨hc, hhigh⟩ | ⟨u, v, hc, -, -, hhigh, -⟩
  · simpa [hc] using hhigh
  · have hindex : (encode init).length + 2 - 1 - (encode init).length = 1 := by omega
    simpa [hc, hindex] using hhigh

end Utf16

end Text

end AndroidAppliance
