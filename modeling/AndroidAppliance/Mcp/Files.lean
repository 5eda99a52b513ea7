import AndroidAppliance.Text.Base64
import AndroidAppliance.Text.Query

/-!
# The files of the MCP tools

`android_pull` and `android_push` of `appliance/mcp_server.py`, with the chunks of
`appliance/client.py`. A file travels inside the answer or the arguments of a tool, as text or as
base64.

`mcp_copies` is what an agent may rely on: what one tool gives for a file, the other one takes for
the same file, and nothing that it refuses reaches the device. Only `auto` leaves open which file
it was, and `auto_eq_iff` says when.
-/

namespace AndroidAppliance

namespace Mcp

/-- What a file holds. -/
abbrev Bytes := List UInt8

/-! ### `appliance/mcp_server.py` -/

/-- `MAX_PULL`. -/
def maxPull : Nat := 8388608

/-- `MAX_PUSH`. -/
def maxPush : Nat := 67108864

/-- `MAX_HTTP_BODY`. -/
def maxHttpBody : Nat := maxPush * 4 / 3 + 1048576

/-- `ToolError`. -/
inductive FileError
  | message (text : Str)
  /-- What is not base64; the text of `binascii.Error` follows. -/
  | notBase64 (what : Str)
  deriving DecidableEq, Repr

/-- `_decode`. -/
def decode (content : Str) (limit : Nat) (what : Str) : Except FileError Bytes :=
  match Base64.decode content with
  | none => .error (.notBase64 what)
  | some data =>
    if limit < data.length then
      .error (.message (what ++ " is ".toList ++ Str.ofNat data.length ++
        " bytes; the limit is ".toList ++ Str.ofNat limit))
    else .ok data

/-- The answer of `pull` to bytes that are no text. -/
def binary (data : Bytes) : Str :=
  "[binary, ".toList ++ Str.ofNat data.length ++ " bytes, base64]\n".toList ++ Base64.encode data

/-- `pull`, of the bytes that the client wrote to the temporary file. -/
def pull (path encoding : Str) (data : Bytes) : Except FileError Str :=
  if ["auto".toList, "text".toList, "base64".toList].contains encoding = false then
    .error (.message "encoding must be auto, text or base64".toList)
  else if maxPull < data.length then
    .error (.message (path ++ " is ".toList ++ Str.ofNat data.length ++
      " bytes; the limit is ".toList ++ Str.ofNat maxPull))
  else if encoding = "base64".toList then .ok (Base64.encode data)
  else match Utf8.text? data with
  | some text => .ok text
  | none =>
    if encoding = "text".toList then
      .error (.message (path ++ " is not UTF-8 text; use encoding=base64".toList))
    else .ok (binary data)

/-- `push`, up to the bytes of the temporary file. -/
def push (text contentBase64 : Option Str) : Except FileError Bytes := do
  if text.isNone = contentBase64.isNone then
    throw (.message "give either text or content_base64".toList)
  let data ←
    match text with
    | some text => pure (Utf8.encode text)
    | none => decode (contentBase64.getD []) maxPush "content_base64".toList
  if maxPush < data.length then
    throw (.message ("the content is ".toList ++ Str.ofNat data.length ++
      " bytes; the limit is ".toList ++ Str.ofNat maxPush))
  return data

/-! ### `appliance/client.py` -/

/-- `_chunks`. -/
def chunks (data : Bytes) : List Bytes :=
  if data = [] then [] else data.take 65536 :: chunks (data.drop 65536)
termination_by data.length
decreasing_by
  rename_i hne
  rw [List.length_drop]
  have := List.length_pos_iff.mpr hne
  omega

/-! ### What an agent may rely on -/

variable {data : Bytes} {path : Str}

/-- The chunks of the body are the file. -/
theorem flatten_chunks (data : Bytes) : (chunks data).flatten = data := by
  induction data using chunks.induct with
  | case1 => rw [chunks, if_pos rfl, List.flatten_nil]
  | case2 data hne ih =>
    rw [chunks, if_neg hne, List.flatten_cons, ih, List.take_append_drop]

/-- The client sends no empty chunk, which would end the body. -/
theorem mem_chunks {chunk : Bytes} (h : chunk ∈ chunks data) :
    chunk ≠ [] ∧ chunk.length ≤ 65536 := by
  induction data using chunks.induct with
  | case1 =>
    rw [chunks, if_pos rfl] at h
    cases h
  | case2 data hne ih =>
    rw [chunks, if_neg hne] at h
    rcases List.mem_cons.mp h with rfl | h
    · refine ⟨?_, List.length_take_le _ _⟩
      rw [Ne, List.take_eq_nil_iff]
      exact fun h => h.elim nofun hne
    · exact ih h

section Pull

variable {answer encoding text : Str}

/-- As base64 every file is pulled. -/
theorem pull_base64 (h : data.length ≤ maxPull) :
    pull path "base64".toList data = .ok (Base64.encode data) := by
  rw [pull, if_neg (by decide), if_neg (Nat.not_lt.mpr h), if_pos rfl]

/-- As text one that is UTF-8. -/
theorem pull_text (h : data.length ≤ maxPull)
    (hencoding : encoding ∈ ["auto".toList, "text".toList]) (htext : Utf8.text? data = some text) :
    pull path encoding data = .ok text := by
  have hknown : ∀ encoding ∈ ["auto".toList, "text".toList],
      ¬["auto".toList, "text".toList, "base64".toList].contains encoding = false ∧
        encoding ≠ "base64".toList := by decide
  rw [pull, if_neg (hknown _ hencoding).1, if_neg (Nat.not_lt.mpr h),
    if_neg (hknown _ hencoding).2, htext]

/-- One that is not goes as base64. -/
theorem pull_auto (h : data.length ≤ maxPull) (htext : Utf8.text? data = none) :
    pull path "auto".toList data = .ok (binary data) := by
  rw [pull, if_neg (by decide), if_neg (Nat.not_lt.mpr h), if_neg (by decide), htext]
  exact if_neg (by decide)

/-- As text it is refused. -/
theorem pull_text_none (h : data.length ≤ maxPull) (htext : Utf8.text? data = none) :
    pull path "text".toList data =
      .error (.message (path ++ " is not UTF-8 text; use encoding=base64".toList)) := by
  rw [pull, if_neg (by decide), if_neg (Nat.not_lt.mpr h), if_neg (by decide), htext]
  exact if_pos rfl

/-- What is too large is not pulled. -/
theorem le_of_pull (h : pull path encoding data = .ok answer) : data.length ≤ maxPull := by
  by_contra hlarge
  rw [pull, if_pos (Nat.not_le.mp hlarge)] at h
  split at h <;> cases h

end Pull

section Push

variable {content text : Str}

/-- What is decoded within the limit. -/
theorem decode_eq_ok {limit : Nat} (what : Str) : decode content limit what = .ok data ↔
    Base64.decode content = some data ∧ data.length ≤ limit := by
  unfold decode
  cases hdecode : Base64.decode content with
  | none => exact ⟨nofun, fun h => nomatch h.1⟩
  | some bytes =>
    change (if limit < bytes.length then _ else _) = _ ↔ _
    split
    · rename_i hlimit
      refine ⟨nofun, fun h => ?_⟩
      cases h.1
      exact absurd hlimit (Nat.not_lt.mpr h.2)
    · rename_i hlimit
      constructor
      · intro h
        cases h
        exact ⟨rfl, Nat.not_lt.mp hlimit⟩
      · rintro ⟨h, -⟩
        cases h
        rfl

/-- The last check of `push`. -/
theorem limited_eq_ok {bytes : Bytes} {e : FileError} :
    (if maxPush < bytes.length then Except.error e else .ok bytes) = .ok data ↔
      bytes = data ∧ data.length ≤ maxPush := by
  split
  · rename_i hlarge
    refine ⟨nofun, ?_⟩
    rintro ⟨rfl, hle⟩
    exact absurd hlarge (Nat.not_lt.mpr hle)
  · rename_i hle
    constructor
    · intro h
      cases h
      exact ⟨rfl, Nat.not_lt.mp hle⟩
    · exact fun h => congrArg Except.ok h.1

/-- What is pushed as base64. -/
theorem push_content : push none (some content) = .ok data ↔
    Base64.decode content = some data ∧ data.length ≤ maxPush := by
  rw [← decode_eq_ok "content_base64".toList]
  change (decode content maxPush "content_base64".toList).bind
    (fun data => if maxPush < data.length then Except.error _ else .ok data) = _ ↔ _
  cases hdecode : decode content maxPush "content_base64".toList with
  | error e => exact ⟨nofun, nofun⟩
  | ok bytes =>
    refine limited_eq_ok.trans ⟨fun h => congrArg _ h.1, fun h => ?_⟩
    cases h
    exact ⟨rfl, ((decode_eq_ok _).mp hdecode).2⟩

/-- What is pushed as text. -/
theorem push_text : push (some text) none = .ok data ↔
    Utf8.encode text = data ∧ data.length ≤ maxPush := by
  change (if maxPush < (Utf8.encode text).length then Except.error _ else .ok _) = _ ↔ _
  exact limited_eq_ok

end Push

/-! ### `auto` -/

/-- What stands behind a number and a space. -/
theorem framed_inj {start tail rest a b : Str} {m n : Nat} (htail : tail = ' ' :: rest)
    (h : start ++ Str.ofNat m ++ tail ++ a = start ++ Str.ofNat n ++ tail ++ b) : a = b := by
  have hfree : ∀ n, ' ' ∉ Str.ofNat n := fun n hmem => absurd (Str.ofNat_digit hmem) (by decide)
  rw [htail] at h
  simp only [List.append_assoc, List.cons_append] at h
  have hrest := (Str.append_sep_inj (hfree _) (hfree _) (List.append_cancel_left h)).2
  exact List.append_cancel_left hrest

/-- The base64 names one file. -/
theorem binary_inj {other : Bytes} : binary data = binary other ↔ data = other := by
  refine ⟨fun h => ?_, congrArg binary⟩
  have htail : " bytes, base64]\n".toList = ' ' :: "bytes, base64]\n".toList := by decide
  exact Base64.encode_inj.mp (framed_inj htail h)

/-- A text file that reads like the answer to another file, which is no text. -/
def Shadows (data shadow : Bytes) : Prop :=
  Utf8.text? data = none ∧ Utf8.encode (binary data) = shadow

/-- **When `auto` gives the same answer for two files.** -/
theorem auto_eq_iff {other : Bytes} (h : data.length ≤ maxPull) (h' : other.length ≤ maxPull) :
    pull path "auto".toList data = pull path "auto".toList other ↔
      data = other ∨ Shadows data other ∨ Shadows other data := by
  cases htext : Utf8.text? data with
  | some text =>
    have hencode := Utf8.text?_eq_some.mp htext
    rw [pull_text h (by decide) htext]
    cases htext' : Utf8.text? other with
    | some text' =>
      have hencode' := Utf8.text?_eq_some.mp htext'
      rw [pull_text h' (by decide) htext']
      constructor
      · intro heq
        cases heq
        exact .inl (hencode.symm.trans hencode')
      · rintro (rfl | ⟨hnone, -⟩ | ⟨hnone, -⟩)
        · rw [Option.some.inj (htext.symm.trans htext')]
        · rw [htext] at hnone
          cases hnone
        · rw [htext'] at hnone
          cases hnone
    | none =>
      rw [pull_auto h' htext']
      constructor
      · intro heq
        cases heq
        exact .inr (.inr ⟨htext', hencode⟩)
      · rintro (rfl | ⟨hnone, -⟩ | ⟨-, hshadow⟩)
        · rw [htext] at htext'
          cases htext'
        · rw [htext] at hnone
          cases hnone
        · rw [← hshadow, Utf8.text?_eq_some.mpr rfl] at htext
          rw [Option.some.inj htext]
  | none =>
    rw [pull_auto h htext]
    cases htext' : Utf8.text? other with
    | some text' =>
      have hencode' := Utf8.text?_eq_some.mp htext'
      rw [pull_text h' (by decide) htext']
      constructor
      · intro heq
        cases heq
        exact .inr (.inl ⟨htext, hencode'⟩)
      · rintro (rfl | ⟨-, hshadow⟩ | ⟨hnone, -⟩)
        · rw [htext] at htext'
          cases htext'
        · rw [← hshadow, Utf8.text?_eq_some.mpr rfl] at htext'
          rw [Option.some.inj htext']
        · rw [htext'] at hnone
          cases hnone
    | none =>
      rw [pull_auto h' htext']
      constructor
      · intro heq
        exact .inl (binary_inj.mp (Except.ok.inj heq))
      · rintro (rfl | ⟨-, hshadow⟩ | ⟨-, hshadow⟩)
        · rfl
        · rw [← hshadow, Utf8.text?_eq_some.mpr rfl] at htext'
          cases htext'
        · rw [← hshadow, Utf8.text?_eq_some.mpr rfl] at htext
          cases htext

/-! ### The two tools together -/

/-- **What an agent may rely on** about the contents of a file. -/
structure Copies (path : Str) (data : Bytes) : Prop where
  /-- What is pulled can be pushed, and is the same file. -/
  base64 : ∀ answer, pull path "base64".toList data = .ok answer →
    push none (some answer) = .ok data
  text : ∀ answer, pull path "text".toList data = .ok answer → push (some answer) none = .ok data
  auto : ∀ answer, pull path "auto".toList data = .ok answer →
    push (some answer) none = .ok data ∨ Utf8.text? data = none ∧ answer = binary data
  /-- Every file of the size is pulled, and as text every one that is text. -/
  pulled : (∃ answer, pull path "base64".toList data = .ok answer) ↔ data.length ≤ maxPull
  pulledText : (∃ answer, pull path "text".toList data = .ok answer) ↔
    data.length ≤ maxPull ∧ ∃ text, Utf8.encode text = data
  shadows : ∀ other, data.length ≤ maxPull → other.length ≤ maxPull →
    (pull path "auto".toList data = pull path "auto".toList other ↔
      data = other ∨ Shadows data other ∨ Shadows other data)
  /-- Only the bytes of the content are pushed, and only when there are not too many. -/
  pushed : ∀ content, push none (some content) = .ok data ↔
    Base64.decode content = some data ∧ data.length ≤ maxPush
  /-- The client sends them in pieces, and the base64 of the largest file fits into a request with
  one mebibyte to spare, but for three bytes. -/
  sent : (chunks data).flatten = data ∧ ∀ chunk ∈ chunks data, chunk ≠ [] ∧ chunk.length ≤ 65536
  fits : data.length ≤ maxPush → (Base64.encode data).length + (1048576 - 3) ≤ maxHttpBody

/-- What was pulled as base64 can be pushed. -/
theorem push_encode (h : data.length ≤ maxPull) :
    push none (some (Base64.encode data)) = .ok data :=
  push_content.mpr ⟨Base64.decode_encode data, h.trans (by decide)⟩

/-- What was pulled as text can be pushed. -/
theorem push_of_text? {text : Str} (h : data.length ≤ maxPull)
    (htext : Utf8.text? data = some text) : push (some text) none = .ok data :=
  push_text.mpr ⟨Utf8.text?_eq_some.mp htext, h.trans (by decide)⟩

theorem mcp_copies (path : Str) (data : Bytes) : Copies path data where
  base64 answer h := by
    have hle := le_of_pull h
    rw [pull_base64 hle] at h
    cases h
    exact push_encode hle
  text answer h := by
    have hle := le_of_pull h
    cases htext : Utf8.text? data with
    | none =>
      rw [pull_text_none hle htext] at h
      cases h
    | some text =>
      rw [pull_text hle (by decide) htext] at h
      cases h
      exact push_of_text? hle htext
  auto answer h := by
    have hle := le_of_pull h
    cases htext : Utf8.text? data with
    | none =>
      rw [pull_auto hle htext] at h
      cases h
      exact .inr ⟨rfl, rfl⟩
    | some text =>
      rw [pull_text hle (by decide) htext] at h
      cases h
      exact .inl (push_of_text? hle htext)
  pulled := ⟨fun ⟨_, h⟩ => le_of_pull h, fun h => ⟨_, pull_base64 h⟩⟩
  pulledText := by
    constructor
    · rintro ⟨answer, h⟩
      have hle := le_of_pull h
      cases htext : Utf8.text? data with
      | none =>
        rw [pull_text_none hle htext] at h
        cases h
      | some text => exact ⟨hle, text, Utf8.text?_eq_some.mp htext⟩
    · rintro ⟨hle, text, htext⟩
      exact ⟨text, pull_text hle (by decide) (Utf8.text?_eq_some.mpr htext)⟩
  shadows other := auto_eq_iff
  pushed content := push_content
  sent := ⟨flatten_chunks data, fun _ h => mem_chunks h⟩
  fits h := by
    have hbody : maxHttpBody = 90527061 := by decide
    have hpush : maxPush = 67108864 := rfl
    rw [Base64.length_encode]
    omega

end Mcp

end AndroidAppliance
