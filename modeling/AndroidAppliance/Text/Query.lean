import AndroidAppliance.Text.Utf8
import Mathlib.Data.List.DropRight
import Mathlib.Data.List.SplitBy

/-!
# Query strings

`parse_qsl` of Python with `keep_blank_values`, with the `unquote` that it uses, and writers of
query strings: a writer has the set of characters that it leaves as they are, and writes any other
byte as `%XX`.

`parseQsl_write` is the round trip. A value is a list of bytes, and what is read is its text: of
bytes that are no text, what `bytes.decode(errors="replace")` makes of them; of a text, the text
(`decode_encode`).
-/

namespace AndroidAppliance

namespace Utf8

/-- `str.encode()`. -/
def encode (s : Str) : List UInt8 := s.flatMap String.utf8EncodeChar

theorem toNat_ofNat {n : Nat} (h : n < 256) : (UInt8.ofNat n).toNat = n := by
  simp [Nat.mod_eq_of_lt h]

/-- The first byte of a character of several bytes. -/
theorem decodeFrom_lead {b : Nat} {p : Partial} (hb : b < 256) (h : lead b = some p)
    (rest : List UInt8) : decodeFrom none (UInt8.ofNat b :: rest) = decodeFrom (some p) rest := by
  have hascii : ¬b < 0x80 := fun hlt => by
    rw [lead, if_neg (by omega), if_neg (by omega), if_neg (by omega)] at h
    cases h
  rw [decodeFrom_cons, toNat_ofNat hb, step, first, if_neg hascii, h]
  rfl

section Continuation

variable {bits low high x : Nat} {h0 : 0x80 ≤ low}

/-- A byte in the middle of a character. -/
theorem decodeFrom_more (n : Nat) (hx : x < 64) (hlow : low ≤ x + 0x80) (hhigh : x + 0x80 ≤ high)
    (rest : List UInt8) :
    decodeFrom (some ⟨n + 1, bits, low, high, h0⟩) (UInt8.ofNat (x + 0x80) :: rest) =
      decodeFrom (some ⟨n, bits * 64 + x, 0x80, 0xBF, Nat.le_refl _⟩) rest := by
  have hmod : (x + 0x80) % 64 = x := by omega
  rw [decodeFrom_cons, toNat_ofNat (by omega), step, Partial.next, if_pos ⟨hlow, hhigh⟩, hmod]
  rfl

/-- The last byte of a character. -/
theorem decodeFrom_last (hx : x < 64) (hlow : low ≤ x + 0x80) (hhigh : x + 0x80 ≤ high)
    (rest : List UInt8) :
    decodeFrom (some ⟨0, bits, low, high, h0⟩) (UInt8.ofNat (x + 0x80) :: rest) =
      Char.ofNat (bits * 64 + x) :: decode rest := by
  have hmod : (x + 0x80) % 64 = x := by omega
  rw [decodeFrom_cons, toNat_ofNat (by omega), step, Partial.next, if_pos ⟨hlow, hhigh⟩, hmod]
  rfl

end Continuation

/-- The bytes of a character are read as it, whatever is behind them. -/
theorem decode_encodeChar (c : Char) (rest : List UInt8) :
    decode (String.utf8EncodeChar c ++ rest) = c :: decode rest := by
  have hval : c.val.toNat = c.toNat := rfl
  have hvalid : c.toNat < 0xD800 ∨ 0xDFFF < c.toNat ∧ c.toNat < 0x110000 := c.valid
  have hchar : Char.ofNat c.toNat = c := Char.ofNat_toNat c
  unfold String.utf8EncodeChar
  simp only [hval]
  generalize c.toNat = v at hvalid hchar
  split
  · rw [List.cons_append, decode, decodeFrom_cons, toNat_ofNat (by omega), step, first,
      if_pos (by omega), hchar]
    rfl
  split
  · have hlead : lead (v / 64 % 0x20 + 0xc0) = some ⟨0, v / 64, 0x80, 0xBF, Nat.le_refl _⟩ := by
      rw [lead, if_pos (by omega), show v / 64 % 0x20 + 0xc0 - 0xC0 = v / 64 by omega]
    have hv : v / 64 * 64 + v % 0x40 = v := by omega
    rw [decode, List.cons_append, decodeFrom_lead (by omega) hlead, List.cons_append,
      decodeFrom_last (by omega) (by omega) (by omega), hv, hchar, List.nil_append]
  split
  · have hlead : lead (v / 4096 % 0x10 + 0xe0) = some
        { missing := 1, bits := v / 4096, low := if v / 4096 = 0 then 0xA0 else 0x80,
          high := if v / 4096 = 0x0D then 0x9F else 0xBF, not_ascii := by split <;> decide } := by
      have he : v / 4096 % 0x10 + 0xe0 = v / 4096 + 0xe0 := by omega
      rw [lead, if_neg (by omega), if_pos (by omega)]
      simp only [he, Nat.add_sub_cancel, Nat.add_eq_right, show (0xED : Nat) = 0x0D + 0xe0 from rfl,
        Nat.add_right_cancel_iff]
    have hv : (v / 4096 * 64 + v / 64 % 0x40) * 64 + v % 0x40 = v := by omega
    -- neither a character that is too long nor a surrogate
    have hlow : (if v / 4096 = 0 then 0xA0 else 0x80) ≤ v / 64 % 0x40 + 0x80 := by split <;> omega
    have hhigh : v / 64 % 0x40 + 0x80 ≤ if v / 4096 = 0x0D then 0x9F else 0xBF := by
      split <;> omega
    rw [decode, List.cons_append, decodeFrom_lead (by omega) hlead, List.cons_append,
      decodeFrom_more 0 (by omega) hlow hhigh, List.cons_append,
      decodeFrom_last (by omega) (by omega) (by omega), hv, hchar, List.nil_append]
  · have hlead : lead (v / 262144 % 0x08 + 0xf0) = some
        { missing := 2, bits := v / 262144, low := if v / 262144 = 0 then 0x90 else 0x80,
          high := if v / 262144 = 4 then 0x8F else 0xBF, not_ascii := by split <;> decide } := by
      have he : v / 262144 % 0x08 + 0xf0 = v / 262144 + 0xf0 := by omega
      rw [lead, if_neg (by omega), if_neg (by omega), if_pos (by omega)]
      simp only [he, Nat.add_sub_cancel, Nat.add_eq_right, show (0xF4 : Nat) = 4 + 0xf0 from rfl,
        Nat.add_right_cancel_iff]
    have hv : ((v / 262144 * 64 + v / 4096 % 0x40) * 64 + v / 64 % 0x40) * 64 + v % 0x40 = v := by
      omega
    have hlow : (if v / 262144 = 0 then 0x90 else 0x80) ≤ v / 4096 % 0x40 + 0x80 := by
      split <;> omega
    have hhigh : v / 4096 % 0x40 + 0x80 ≤ if v / 262144 = 4 then 0x8F else 0xBF := by
      split <;> omega
    rw [decode, List.cons_append, decodeFrom_lead (by omega) hlead, List.cons_append,
      decodeFrom_more 1 (by omega) hlow hhigh, List.cons_append,
      decodeFrom_more 0 (by omega) (by omega) (by omega), List.cons_append,
      decodeFrom_last (by omega) (by omega) (by omega), hv, hchar, List.nil_append]

/-- **A text is read back** from its bytes. -/
theorem decode_encode (s : Str) : decode (encode s) = s := by
  induction s with
  | nil => rfl
  | cons c s ih =>
    rw [encode, List.flatMap_cons, decode_encodeChar]
    exact congrArg _ ih

/-- `bytes.decode()`; `none` is a `UnicodeDecodeError`: the bytes are those of no text. -/
def text? (bytes : List UInt8) : Option Str :=
  if encode (decode bytes) = bytes then some (decode bytes) else none

theorem text?_eq_some {bytes : List UInt8} {s : Str} : text? bytes = some s ↔ encode s = bytes := by
  constructor
  · intro h
    obtain ⟨hbytes, hs⟩ := Option.ite_none_right_eq_some.mp h
    rw [← Option.some.inj hs, hbytes]
  · rintro rfl
    rw [text?, decode_encode, if_pos rfl]

/-- ASCII is decoded byte by byte. -/
theorem decode_ascii {bytes : List UInt8} (h : ∀ b ∈ bytes, b.toNat < 0x80) :
    decode bytes = bytes.map fun b => Char.ofNat b.toNat := by
  induction bytes with
  | nil => rfl
  | cons b bytes ih =>
    rw [decode, decodeFrom_cons, List.map_cons, ← ih fun c hc => h c (List.mem_cons_of_mem _ hc)]
    simp only [step, first, if_pos (h b List.mem_cons_self)]
    rfl

/-! ### Cutting bytes where the text is cut -/

section Separator

variable {a : Char}

theorem encodeChar_ascii (ha : a.toNat < 0x80) :
    String.utf8EncodeChar a = [UInt8.ofNat a.toNat] := by
  have hval : a.val.toNat = a.toNat := rfl
  rw [String.utf8EncodeChar, hval]
  exact if_pos (by omega)

/-- The byte of an ASCII character is in the bytes of no other one. -/
theorem ne_of_mem_encodeChar (ha : a.toNat < 0x80) {c : Char} (hne : c ≠ a) {b : UInt8}
    (hb : b ∈ String.utf8EncodeChar c) : b ≠ UInt8.ofNat a.toNat := by
  have hval : c.val.toNat = c.toNat := rfl
  have hbyte : (UInt8.ofNat a.toNat).toNat = a.toNat := toNat_ofNat (by omega)
  have hvalid : c.toNat < 0xD800 ∨ 0xDFFF < c.toNat ∧ c.toNat < 0x110000 := c.valid
  have hcode : c.toNat ≠ a.toNat := fun h => hne (Char.toNat_inj.mp h)
  rintro rfl
  unfold String.utf8EncodeChar at hb
  simp only [hval] at hb
  -- the bytes of any other character are above ASCII
  have hhigh : ∀ n k : Nat, 0x80 ≤ k → n + k < 256 → UInt8.ofNat a.toNat ≠ UInt8.ofNat (n + k) := by
    intro n k hk hlt heq
    have htoNat := congrArg UInt8.toNat heq
    rw [hbyte, toNat_ofNat hlt] at htoNat
    omega
  split at hb
  · refine hcode ?_
    rw [← hbyte, List.mem_singleton.mp hb, toNat_ofNat (by omega)]
  split at hb
  · simp only [List.mem_cons, List.not_mem_nil, or_false] at hb
    obtain h | h := hb <;> exact hhigh _ _ (by decide) (by omega) h
  split at hb
  · simp only [List.mem_cons, List.not_mem_nil, or_false] at hb
    obtain h | h | h := hb <;> exact hhigh _ _ (by decide) (by omega) h
  · simp only [List.mem_cons, List.not_mem_nil, or_false] at hb
    obtain h | h | h | h := hb <;> exact hhigh _ _ (by decide) (by omega) h

theorem encode_concat (s : Str) (c : Char) :
    encode (s ++ [c]) = encode s ++ String.utf8EncodeChar c := by
  rw [encode, List.flatMap_append, List.flatMap_singleton]
  rfl

/-- What is stripped from the bytes is what is stripped from the text. -/
theorem encode_rdropWhile (ha : a.toNat < 0x80) (s : Str) :
    (encode s).rdropWhile (· = UInt8.ofNat a.toNat) = encode (s.rdropWhile (· = a)) := by
  induction s using List.reverseRecOn with
  | nil => rfl
  | append_singleton s c ih =>
    rw [encode_concat]
    by_cases hc : c = a
    · rw [hc, encodeChar_ascii ha, List.rdropWhile_concat_pos _ _ _ (by simp),
        List.rdropWhile_concat_pos _ _ _ (by simp), ih]
    · rw [List.rdropWhile_concat_neg _ _ _ (by simpa using hc), encode_concat,
        List.rdropWhile_eq_self_iff]
      intro hne
      have hbytes : String.utf8EncodeChar c ≠ [] := String.utf8EncodeChar_ne_nil
      rw [List.getLast_append_of_ne_nil _ hbytes, decide_eq_true_eq]
      exact ne_of_mem_encodeChar ha hc (List.getLast_mem hbytes)

/-- The bytes behind the last separator are those of the text behind it. -/
theorem encode_rtakeWhile (ha : a.toNat < 0x80) (s : Str) :
    (encode s).rtakeWhile (· ≠ UInt8.ofNat a.toNat) = encode (s.rtakeWhile (· ≠ a)) := by
  induction s using List.reverseRecOn with
  | nil => rfl
  | append_singleton s c ih =>
    rw [encode_concat]
    by_cases hc : c = a
    · rw [hc, encodeChar_ascii ha, List.rtakeWhile_concat_neg _ _ _ (by simp),
        List.rtakeWhile_concat_neg _ _ _ (by simp)]
      rfl
    · rw [List.rtakeWhile_concat_pos _ _ _ (by simpa using hc), encode_concat, ← ih,
        List.rtakeWhile, List.reverse_append, List.takeWhile_append_of_pos, List.reverse_append,
        List.reverse_reverse]
      · rfl
      · intro b hb
        exact decide_eq_true (ne_of_mem_encodeChar ha hc (List.mem_reverse.mp hb))

end Separator

end Utf8

namespace Query

/-! ### What Python reads -/

/-- A character of ASCII. -/
def isAscii (c : Char) : Bool := c.toNat < 0x80

/-- The value of a hexadecimal digit. -/
def hexDigit (c : Char) : Option Nat :=
  if '0' ≤ c ∧ c ≤ '9' then some (c.toNat - 48)
  else if 'A' ≤ c ∧ c ≤ 'F' then some (c.toNat - 55)
  else if 'a' ≤ c ∧ c ≤ 'f' then some (c.toNat - 87)
  else none

/-- `unquote_to_bytes`, of ASCII. -/
def unquoteToBytes : Str → List UInt8
  | '%' :: a :: b :: s =>
    match hexDigit a, hexDigit b with
    | some x, some y => UInt8.ofNat (16 * x + y) :: unquoteToBytes s
    | _, _ => 0x25 :: unquoteToBytes (a :: b :: s)
  | c :: s => UInt8.ofNat c.toNat :: unquoteToBytes s
  | [] => []

/-- `unquote`: ASCII and other characters take turns, and what is not ASCII stays. -/
def unquote (s : Str) : Str :=
  if s.contains '%' then
    (s.splitBy fun a b => isAscii a == isAscii b).flatMap fun part =>
      if part.all isAscii then Utf8.decode (unquoteToBytes part) else part
  else s

/-- `s.replace("+", " ")`. -/
def spaces (s : Str) : Str := s.map fun c => if c = '+' then ' ' else c

/-- `parse_qsl(query, keep_blank_values=True)`. -/
def parseQsl (query : Str) : List (Str × Str) :=
  ((query.splitOn '&').filter fun field => !field.isEmpty).map fun field =>
    (unquote (spaces (Str.partition '=' field).1), unquote (spaces (Str.partition '=' field).2.2))

/-- `get` of the parameters: of equal keys the last one counts. -/
def get (params : List (Str × Str)) (key : Str) : Option Str :=
  (params.reverse.find? (·.1 = key)).map (·.2)

/-! ### What a writer writes -/

/-- The bytes that a writer leaves as they are. -/
structure Safe where
  byte : UInt8 → Bool
  ascii : ∀ b, byte b = true → b.toNat < 0x80
  plain : ∀ b, byte b = true → Char.ofNat b.toNat ∉ ['%', '+', '&', '=']

/-- A digit of `%02X`. -/
def hexChar (n : Nat) : Char := if n < 10 then Char.ofNat (48 + n) else Char.ofNat (55 + n)

/-- A byte, as `quote` writes it. -/
def quoteByte (safe : Safe) (b : UInt8) : Str :=
  if safe.byte b then [Char.ofNat b.toNat]
  else ['%', hexChar (b.toNat / 16), hexChar (b.toNat % 16)]

/-- `quote` of `urllib.parse`. -/
def quote (safe : Safe) (bytes : List UInt8) : Str := bytes.flatMap (quoteByte safe)

/-- A key that is written as it is. -/
def isKey (key : Str) : Bool := key.all fun c => c ∉ ['%', '+', '&', '=']

/-- The query string of the fields. -/
def write (safe : Safe) (fields : List (Str × List UInt8)) : Str :=
  ['&'].intercalate (fields.map fun f => f.1 ++ '=' :: quote safe f.2)

/-! ### Round trip -/

variable {safe : Safe} {bytes : List UInt8}

theorem hexDigit_hexChar {n : Nat} (h : n < 16) : hexDigit (hexChar n) = some n := by
  have hall : ∀ n < 16, hexDigit (hexChar n) = some n := by decide
  exact hall n h

theorem hexChar_plain {n : Nat} (h : n < 16) :
    isAscii (hexChar n) = true ∧ hexChar n ∉ ['%', '+', '&', '='] := by
  have hall : ∀ n < 16, isAscii (hexChar n) = true ∧ hexChar n ∉ ['%', '+', '&', '='] := by decide
  exact hall n h

theorem toNat_ofNat_byte (b : UInt8) : (Char.ofNat b.toNat).toNat = b.toNat := by
  have hb : b.toNat < 256 := b.toNat_lt
  have hvalid : b.toNat.isValidChar := .inl (by omega)
  rw [Char.ofNat, dif_pos hvalid]
  rfl

/-- What is written is ASCII, and has none of the characters of `parse_qsl`. -/
theorem mem_quote {c : Char} (h : c ∈ quote safe bytes) :
    isAscii c = true ∧ c ∉ ['+', '&', '='] := by
  obtain ⟨b, -, hc⟩ := List.mem_flatMap.mp h
  have hb : b.toNat < 256 := b.toNat_lt
  unfold quoteByte at hc
  split at hc
  · rename_i hsafe
    obtain rfl := List.mem_singleton.mp hc
    refine ⟨?_, fun hmem => safe.plain b hsafe (List.mem_cons_of_mem _ hmem)⟩
    rw [isAscii, toNat_ofNat_byte]
    exact decide_eq_true (safe.ascii b hsafe)
  · simp only [List.mem_cons, List.not_mem_nil, or_false] at hc
    have hhex : ∀ n < 16, isAscii (hexChar n) = true ∧ hexChar n ∉ ['+', '&', '='] := fun n hn =>
      ⟨(hexChar_plain hn).1, fun hmem => (hexChar_plain hn).2 (List.mem_cons_of_mem _ hmem)⟩
    obtain rfl | rfl | rfl := hc
    · decide
    · exact hhex _ (by omega)
    · exact hhex _ (by omega)

theorem unquoteToBytes_cons {c : Char} (h : c ≠ '%') (s : Str) :
    unquoteToBytes (c :: s) = UInt8.ofNat c.toNat :: unquoteToBytes s := by
  rw [unquoteToBytes]
  rintro a b t hc -
  exact h hc

theorem unquoteToBytes_quoteByte (b : UInt8) (s : Str) :
    unquoteToBytes (quoteByte safe b ++ s) = b :: unquoteToBytes s := by
  have hb : b.toNat < 256 := b.toNat_lt
  unfold quoteByte
  split
  · rename_i hsafe
    have hne : Char.ofNat b.toNat ≠ '%' := fun h =>
      safe.plain b hsafe (h ▸ List.mem_cons_self)
    rw [List.cons_append, unquoteToBytes_cons hne, toNat_ofNat_byte, UInt8.ofNat_toNat]
    rfl
  · have hbyte : UInt8.ofNat (16 * (b.toNat / 16) + b.toNat % 16) = b := by
      rw [Nat.div_add_mod, UInt8.ofNat_toNat]
    simp only [List.cons_append, List.nil_append, unquoteToBytes]
    rw [hexDigit_hexChar (by omega), hexDigit_hexChar (by omega)]
    exact congrArg (· :: _) hbyte

theorem unquoteToBytes_quote (bytes : List UInt8) : unquoteToBytes (quote safe bytes) = bytes := by
  induction bytes with
  | nil => rfl
  | cons b bytes ih => rw [quote, List.flatMap_cons, unquoteToBytes_quoteByte, ← quote, ih]

/-- **A value** is read as the text of its bytes. -/
theorem unquote_quote (bytes : List UInt8) : unquote (quote safe bytes) = Utf8.decode bytes := by
  have hascii : ∀ c ∈ quote safe bytes, isAscii c = true := fun c hc => (mem_quote hc).1
  unfold unquote
  split
  · rename_i hpercent
    have hne : quote safe bytes ≠ [] := List.ne_nil_of_mem (List.contains_iff_mem.mp hpercent)
    have hchain : (quote safe bytes).IsChain fun a b => (isAscii a == isAscii b) = true := by
      refine List.Pairwise.isChain (List.pairwise_of_forall_mem_list fun a ha b hb => ?_)
      rw [hascii a ha, hascii b hb]
      rfl
    rw [List.splitBy_of_isChain hne hchain, List.flatMap_singleton,
      if_pos (List.all_eq_true.mpr hascii), unquoteToBytes_quote]
  · rename_i hpercent
    -- every byte is left as it is
    have hsafe : ∀ b ∈ bytes, safe.byte b = true := by
      intro b hb
      by_contra hbad
      refine hpercent (List.contains_iff_mem.mpr (List.mem_flatMap.mpr ⟨b, hb, ?_⟩))
      rw [quoteByte, if_neg hbad]
      exact List.mem_cons_self
    rw [Utf8.decode_ascii fun b hb => safe.ascii b (hsafe b hb), quote,
      List.flatMap_congr fun b hb => (by rw [quoteByte, if_pos (hsafe b hb)]),
      List.map_eq_flatMap]

theorem spaces_of_not_mem {s : Str} (h : '+' ∉ s) : spaces s = s := by
  refine (List.map_congr_left fun c hc => ?_).trans (List.map_id s)
  exact if_neg fun heq : c = '+' => h (heq ▸ hc)

theorem unquote_of_not_mem {s : Str} (h : '%' ∉ s) : unquote s = s :=
  if_neg fun hmem => h (List.contains_iff_mem.mp hmem)

/-- **The fields are read back**, in their order, with the texts of their values. -/
theorem parseQsl_write {fields : List (Str × List UInt8)}
    (hkeys : fields.all (fun f => isKey f.1) = true) :
    parseQsl (write safe fields) = fields.map fun f => (f.1, Utf8.decode f.2) := by
  have hkey : ∀ f ∈ fields, ∀ c ∈ ['%', '+', '&', '='], c ∉ f.1 := fun f hf c hc hmem =>
    of_decide_eq_true (List.all_eq_true.mp (List.all_eq_true.mp hkeys f hf) c hmem) hc
  cases fields with
  | nil => rfl
  | cons first fields =>
    have hsplit : (write safe (first :: fields)).splitOn '&' =
        (first :: fields).map fun f => f.1 ++ '=' :: quote safe f.2 := by
      refine List.splitOn_intercalate '&' (fun part hpart => ?_) (by simp)
      obtain ⟨f, hf, rfl⟩ := List.mem_map.mp hpart
      rw [List.mem_append, List.mem_cons]
      rintro (hmem | heq | hmem)
      · exact hkey f hf '&' (by decide) hmem
      · cases heq
      · exact (mem_quote hmem).2 (by decide)
    rw [parseQsl, hsplit, List.filter_eq_self.mpr ?_, List.map_map]
    · refine List.map_congr_left fun f hf => ?_
      simp only [Function.comp_apply, Str.partition_sep (hkey f hf '=' (by decide))]
      rw [spaces_of_not_mem (hkey f hf '+' (by decide)),
        unquote_of_not_mem (hkey f hf '%' (by decide)),
        spaces_of_not_mem fun hmem => (mem_quote hmem).2 (by decide), unquote_quote]
    · intro part hpart
      obtain ⟨f, -, rfl⟩ := List.mem_map.mp hpart
      simp

/-- Of fields with equal keys the last one is read. -/
theorem get_concat (params : List (Str × Str)) (key value key' : Str) :
    get (params ++ [(key, value)]) key' = if key = key' then some value else get params key' := by
  unfold get
  rw [List.reverse_concat, List.find?_cons]
  split <;> simp_all

end Query

end AndroidAppliance
