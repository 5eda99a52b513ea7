import AndroidAppliance.Text.Str

/-!
# Base64

`b64encode` of Python, with two readers: `b64decode` with `validate=True`, and `base64 -d` of a
shell, which leaves out the ends of lines and writes what it has read when the rest is no base64.
-/

namespace AndroidAppliance

namespace Base64

/-- The character of six bits. -/
def char (n : Nat) : Char :=
  if n < 26 then Char.ofNat (65 + n)
  else if n < 52 then Char.ofNat (71 + n)
  else if n < 62 then Char.ofNat (n - 4)
  else if n = 62 then '+'
  else '/'

/-- The six bits of a character. -/
def value (c : Char) : Option Nat :=
  if 'A' ≤ c ∧ c ≤ 'Z' then some (c.toNat - 65)
  else if 'a' ≤ c ∧ c ≤ 'z' then some (c.toNat - 71)
  else if '0' ≤ c ∧ c ≤ '9' then some (c.toNat + 4)
  else if c = '+' then some 62
  else if c = '/' then some 63
  else none

/-- `base64.b64encode`. -/
def encode : List UInt8 → Str
  | [] => []
  | [a] => [char (a.toNat / 4), char (a.toNat % 4 * 16), '=', '=']
  | [a, b] =>
    [char (a.toNat / 4), char (a.toNat % 4 * 16 + b.toNat / 16), char (b.toNat % 16 * 4), '=']
  | a :: b :: c :: s =>
    char (a.toNat / 4) :: char (a.toNat % 4 * 16 + b.toNat / 16) ::
      char (b.toNat % 16 * 4 + c.toNat / 64) :: char (c.toNat % 64) :: encode s

/-- The bytes of four characters. -/
def block (a b c d : Char) : Option (List UInt8) := do
  let x ← value a
  let y ← value b
  if c = '=' ∧ d = '=' then return [UInt8.ofNat (x * 4 + y / 16)]
  let z ← value c
  if d = '=' then return [UInt8.ofNat (x * 4 + y / 16), UInt8.ofNat (y % 16 * 16 + z / 4)]
  let w ← value d
  return [UInt8.ofNat (x * 4 + y / 16), UInt8.ofNat (y % 16 * 16 + z / 4),
    UInt8.ofNat (z % 4 * 64 + w)]

/-- `base64.b64decode` with `validate=True`; `none` is its error. -/
def decode : Str → Option (List UInt8)
  | [] => some []
  | a :: b :: c :: d :: s => do
    let bytes ← block a b c d
    -- nothing follows the padding
    if d = '=' ∧ s ≠ [] then failure
    return bytes ++ (← decode s)
  | _ => none

/-- `base64 -d`, of text without the ends of its lines. -/
def decodeBlocks : Str → List UInt8
  | a :: b :: c :: d :: s =>
    match block a b c d with
    | some bytes => bytes ++ decodeBlocks s
    | none => []
  | _ => []

/-- `base64 -d`. -/
def decodeLines (s : Str) : List UInt8 := decodeBlocks (s.filter (· ≠ '\n'))

variable {bytes : List UInt8}

/-! ### Six bits -/

theorem value_char {n : Nat} (h : n < 64) : value (char n) = some n := by
  have hall : ∀ n < 64, value (char n) = some n := by decide
  exact hall n h

theorem char_ne_pad {n : Nat} (h : n < 64) : char n ≠ '=' := by
  have hall : ∀ n < 64, char n ≠ '=' := by decide
  exact hall n h

/-- A character of base64 is visible, and ASCII. -/
theorem char_visible {n : Nat} (h : n < 64) : 0x21 ≤ (char n).toNat ∧ (char n).toNat < 0x7F := by
  have hall : ∀ n < 64, 0x21 ≤ (char n).toNat ∧ (char n).toNat < 0x7F := by decide
  exact hall n h

/-- A byte of which the bits come from two characters. -/
theorem ofNat_bits (b : UInt8) {n : Nat} (h : n = b.toNat) : UInt8.ofNat n = b := by
  rw [h, UInt8.ofNat_toNat]

/-! ### Round trip -/

theorem block_one (a : UInt8) :
    block (char (a.toNat / 4)) (char (a.toNat % 4 * 16)) '=' '=' = some [a] := by
  have ha : a.toNat < 256 := a.toNat_lt
  rw [block, value_char (by omega), value_char (by omega)]
  change some [UInt8.ofNat _] = _
  rw [ofNat_bits a (by omega)]

theorem block_two (a b : UInt8) :
    block (char (a.toNat / 4)) (char (a.toNat % 4 * 16 + b.toNat / 16))
      (char (b.toNat % 16 * 4)) '=' = some [a, b] := by
  have ha : a.toNat < 256 := a.toNat_lt
  have hb : b.toNat < 256 := b.toNat_lt
  have hpad : char (b.toNat % 16 * 4) ≠ '=' := char_ne_pad (by omega)
  simp only [block, value_char (show a.toNat / 4 < 64 by omega),
    value_char (show a.toNat % 4 * 16 + b.toNat / 16 < 64 by omega),
    value_char (show b.toNat % 16 * 4 < 64 by omega), hpad]
  change some [UInt8.ofNat _, UInt8.ofNat _] = _
  rw [ofNat_bits a (by omega), ofNat_bits b (by omega)]

theorem block_three (a b c : UInt8) :
    block (char (a.toNat / 4)) (char (a.toNat % 4 * 16 + b.toNat / 16))
      (char (b.toNat % 16 * 4 + c.toNat / 64)) (char (c.toNat % 64)) = some [a, b, c] := by
  have ha : a.toNat < 256 := a.toNat_lt
  have hb : b.toNat < 256 := b.toNat_lt
  have hc : c.toNat < 256 := c.toNat_lt
  have hpad : char (c.toNat % 64) ≠ '=' := char_ne_pad (by omega)
  simp only [block, value_char (show a.toNat / 4 < 64 by omega),
    value_char (show a.toNat % 4 * 16 + b.toNat / 16 < 64 by omega),
    value_char (show b.toNat % 16 * 4 + c.toNat / 64 < 64 by omega),
    value_char (show c.toNat % 64 < 64 by omega), hpad, and_false, if_false]
  change some [UInt8.ofNat _, UInt8.ofNat _, UInt8.ofNat _] = _
  rw [ofNat_bits a (by omega), ofNat_bits b (by omega), ofNat_bits c (by omega)]

theorem decode_encode (bytes : List UInt8) : decode (encode bytes) = some bytes := by
  induction bytes using encode.induct with
  | case1 => rfl
  | case2 a =>
    rw [encode, decode, block_one]
    rfl
  | case3 a b =>
    rw [encode, decode, block_two]
    rfl
  | case4 a b c s ih =>
    have hpad : char (c.toNat % 64) ≠ '=' := char_ne_pad (by omega)
    simp only [encode, decode, block_three, hpad, ih]
    rfl

theorem decodeBlocks_encode (bytes : List UInt8) : decodeBlocks (encode bytes) = bytes := by
  induction bytes using encode.induct with
  | case1 => rfl
  | case2 a =>
    rw [encode, decodeBlocks, block_one]
    rfl
  | case3 a b =>
    rw [encode, decodeBlocks, block_two]
    rfl
  | case4 a b c s ih =>
    rw [encode, decodeBlocks, block_three, ih]
    rfl

theorem encode_inj {other : List UInt8} : encode bytes = encode other ↔ bytes = other := by
  refine ⟨fun h => ?_, congrArg encode⟩
  have hdecode := congrArg decode h
  rw [decode_encode, decode_encode] at hdecode
  exact Option.some.inj hdecode

theorem length_encode (bytes : List UInt8) :
    (encode bytes).length = 4 * ((bytes.length + 2) / 3) := by
  induction bytes using encode.induct with
  | case1 => rfl
  | case2 a => simp [encode]
  | case3 a b => simp [encode]
  | case4 a b c s ih =>
    simp only [encode, List.length_cons, ih]
    omega

/-- Every character is visible, and ASCII. -/
theorem visible_encode {c : Char} (h : c ∈ encode bytes) : 0x21 ≤ c.toNat ∧ c.toNat < 0x7F := by
  induction bytes using encode.induct with
  | case1 => cases h
  | case2 a =>
    have ha : a.toNat < 256 := a.toNat_lt
    simp only [encode, List.mem_cons, List.not_mem_nil, or_false] at h
    rcases h with rfl | rfl | rfl | rfl
    · exact char_visible (by omega)
    · exact char_visible (by omega)
    · decide
    · decide
  | case3 a b =>
    have ha : a.toNat < 256 := a.toNat_lt
    have hb : b.toNat < 256 := b.toNat_lt
    simp only [encode, List.mem_cons, List.not_mem_nil, or_false] at h
    rcases h with rfl | rfl | rfl | rfl
    · exact char_visible (by omega)
    · exact char_visible (by omega)
    · exact char_visible (by omega)
    · decide
  | case4 a b c s ih =>
    have ha : a.toNat < 256 := a.toNat_lt
    have hb : b.toNat < 256 := b.toNat_lt
    have hc : c.toNat < 256 := c.toNat_lt
    simp only [encode, List.mem_cons] at h
    rcases h with rfl | rfl | rfl | rfl | h
    · exact char_visible (by omega)
    · exact char_visible (by omega)
    · exact char_visible (by omega)
    · exact char_visible (by omega)
    · exact ih h

/-- The ends of lines around base64 do not matter to a shell. -/
theorem decodeLines_encode (bytes : List UInt8) : decodeLines (encode bytes ++ ['\n']) = bytes := by
  have hnewline : ∀ c ∈ encode bytes, c ≠ '\n' := by
    rintro c hc rfl
    exact absurd (visible_encode hc).1 (by decide)
  have hfilter : (encode bytes ++ ['\n']).filter (· ≠ '\n') = encode bytes := by
    rw [List.filter_append, List.filter_eq_self.mpr (by simpa using hnewline)]
    exact List.append_nil _
  rw [decodeLines, hfilter, decodeBlocks_encode]

end Base64

end AndroidAppliance
