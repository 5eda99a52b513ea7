import AndroidAppliance.Text.Str
import AndroidAppliance.Shell.Words
import AndroidAppliance.Regex.Search
import Mathlib.Data.List.DropRight

/-!
# `json_field` of `androidctl`

The host reads single strings out of the daemon's JSON answers with a regular expression and a loop
that undoes the escapes. Both are modelled over the text, and the encoder with them.

`jsonField_encodeObject` says what comes out for every flat object: the value of the first string
field whose key is KEY, or ends with a quotation mark and KEY. That is the field itself for tidy
objects; `jsonField_iff` says exactly for which.
-/

namespace AndroidAppliance

namespace Ctl

open Shell (isNameChar)

/-! ### What the daemon writes -/

/-- What `json.dumps` writes for a character; `ensure_ascii` is off. -/
def escape (c : Char) : Str :=
  if c = '"' then "\\\"".toList
  else if c = '\\' then "\\\\".toList
  else if c = '\n' then "\\n".toList
  else if c = '\r' then "\\r".toList
  else if c = '\t' then "\\t".toList
  else if c = Char.ofNat 8 then "\\b".toList
  else if c = Char.ofNat 12 then "\\f".toList
  else if c.toNat < 32 then
    "\\u00".toList ++ [Nat.digitChar (c.toNat / 16), Nat.digitChar (c.toNat % 16)]
  else [c]

/-- The characters of a string, between its quotation marks. -/
def encode (s : Str) : Str := s.flatMap escape

/-- A string as `json.dumps` writes it. -/
def encodeString (s : Str) : Str := '"' :: (encode s ++ ['"'])

/-- A character of a number. -/
def isNumberChar (c : Char) : Bool := c.isDigit || "+-.eE".toList.contains c

/-- The text of a number. -/
structure Number where
  text : Str
  chars : ∀ c ∈ text, isNumberChar c = true

/-- A number is of visible ASCII. -/
theorem isNumberChar_graph {c : Char} (h : isNumberChar c = true) :
    33 ≤ c.toNat ∧ c.toNat ≤ 126 := by
  rw [isNumberChar, Bool.or_eq_true] at h
  obtain h | h := h
  · obtain ⟨hge, hle⟩ := Str.digit_toNat h
    omega
  · have hall : ∀ c ∈ "+-.eE".toList, 33 ≤ c.toNat ∧ c.toNat ≤ 126 :=
      Str.forall_mem_of_all (by decide)
    exact hall c (List.contains_iff_mem.mp h)

/-- A value that is no array and no object. -/
inductive Value
  | str (s : Str)
  | num (n : Number)
  | bool (b : Bool)

/-- A value as `json.dumps` writes it. -/
def encodeValue : Value → Str
  | .str s => encodeString s
  | .num n => n.text
  | .bool b => if b then "true".toList else "false".toList

/-- A field as `json.dumps` writes it with `separators=(",", ":")`. -/
def encodeField (f : Str × Value) : Str := encodeString f.1 ++ ':' :: encodeValue f.2

/-- What `JSONResponse` writes for a flat object; the separators are compact. -/
def encodeObject (fields : List (Str × Value)) : Str :=
  '{' :: ([','].intercalate (fields.map encodeField) ++ ['}'])

/-! ### What the host reads -/

/-- A locale, as far as `[[:space:]]` goes: no graphic character of ASCII is a space. -/
structure Locale where
  space : Char → Bool
  graph : ∀ c : Char, 33 ≤ c.toNat → c.toNat ≤ 126 → space c = false

/-- `$(<file)`: without NUL, and without newlines at the end. -/
def substituted (s : Str) : Str := (s.filter (· ≠ Char.ofNat 0)).rdropWhile (· = '\n')

open Regex in
/-- `"KEY"[[:space:]]*:[[:space:]]*"(([^"\\]|\\.)*)"`, for a KEY whose characters stand for
themselves. -/
def fieldExpr (l : Locale) (key : Str) : Grouped Char where
  before := .seq (.word ('"' :: (key ++ ['"']))) (.seq (.star (.one l.space)) (.seq (.one (· = ':'))
    (.seq (.star (.one l.space)) (.one (· = '"')))))
  group := .star (.alt (.one fun c => c ≠ '"' && c ≠ '\\')
    (.seq (.one (· = '\\')) (.one fun _ => true)))
  after := .one (· = '"')

/-- `[0-9a-fA-F]`. -/
def isHexDigit (c : Char) : Bool :=
  c.isDigit || ('a' ≤ c && c ≤ 'f') || ('A' ≤ c && c ≤ 'F')

/-- The value of a hexadecimal digit. -/
def hexValue (c : Char) : Nat :=
  if c.isDigit then c.toNat - 48 else if 'a' ≤ c then c.toNat - 87 else c.toNat - 55

/-- `printf -v chunk "\\u$hex"`; a NUL ends the text of a variable. -/
def printfUnicode (hex : Str) : Str :=
  let digits := hex.takeWhile isHexDigit
  let n := digits.foldl (fun n c => 16 * n + hexValue c) 0
  if digits.isEmpty then "\\u".toList ++ hex
  else if n = 0 then []
  else Char.ofNat n :: hex.drop digits.length

/-- The `case` over `${value:1:1}`, and how many characters of `value` it is done with. -/
def unescapeOne (value : Str) : Str × Nat :=
  match value.drop 1 with
  | 'n' :: _ => (['\n'], 2)
  | 't' :: _ => (['\t'], 2)
  | 'r' :: _ => (['\r'], 2)
  | 'b' :: _ => ([Char.ofNat 8], 2)
  | 'f' :: _ => ([Char.ofNat 12], 2)
  | 'u' :: rest => (printfUnicode (rest.take 4), 6)
  | c :: _ => ([c], 2)
  | [] => ([], 2)

/-- An escape takes a character at least. -/
theorem unescapeOne_pos (value : Str) : 0 < (unescapeOne value).2 := by
  unfold unescapeOne
  split <;> exact Nat.succ_pos _

/-- The `while` loop over `value`: what is in front of the next backslash, and the escape. -/
def unescape (value : Str) : Str :=
  if value.isEmpty then []
  else
    let chunk := value.takeWhile (· ≠ '\\')
    let value' := value.dropWhile (· ≠ '\\')
    if _ : value'.isEmpty then chunk
    else chunk ++ ((unescapeOne value').1 ++ unescape (value'.drop (unescapeOne value').2))
termination_by value.length
decreasing_by
  have hpos := unescapeOne_pos (value.dropWhile (· ≠ '\\'))
  have hle : (value.dropWhile (· ≠ '\\')).length ≤ value.length :=
    (List.dropWhile_suffix _).length_le
  have hne : value.dropWhile (· ≠ '\\') ≠ [] := by simpa [value'] using ‹¬value'.isEmpty = true›
  have hlen := List.length_pos_of_ne_nil hne
  rw [List.length_drop]
  omega

/-- `json_field KEY FILE`; `none` is the exit status 1. -/
def jsonField (l : Locale) (key file : Str) : Option Str :=
  ((fieldExpr l key).search (substituted file)).map unescape

/-! ### The loop undoes the escapes -/

variable {c : Char} {s t : Str}

/-- Nothing is left. -/
theorem unescape_nil : unescape [] = [] := by
  rw [unescape]
  rfl

/-- A character that is no backslash stands for itself. -/
theorem unescape_cons (hc : c ≠ '\\') (s : Str) : unescape (c :: s) = c :: unescape s := by
  rw [unescape, unescape]
  have htake : (c :: s).takeWhile (· ≠ '\\') = c :: s.takeWhile (· ≠ '\\') :=
    List.takeWhile_cons_of_pos (by simpa using hc)
  have hdrop : (c :: s).dropWhile (· ≠ '\\') = s.dropWhile (· ≠ '\\') :=
    List.dropWhile_cons_of_pos (by simpa using hc)
  simp only [htake, hdrop, List.isEmpty_cons, Bool.false_eq_true, if_false]
  cases s with
  | nil => rfl
  | cons d s =>
    simp only [List.isEmpty_cons, Bool.false_eq_true, if_false]
    split <;> rfl

/-- A backslash, and what it takes. -/
theorem unescape_backslash (s : Str) : unescape ('\\' :: s) =
    (unescapeOne ('\\' :: s)).1 ++ unescape (('\\' :: s).drop (unescapeOne ('\\' :: s)).2) := by
  rw [unescape]
  rfl

/-- What is left of a character: a NUL gets lost. -/
def kept (c : Char) : Str := if c = Char.ofNat 0 then [] else [c]

/-- An escape of one letter. -/
theorem unescape_letter {d : Char} {out : Str} (h : unescapeOne ('\\' :: d :: s) = (out, 2)) :
    unescape ('\\' :: d :: s) = out ++ unescape s := by
  rw [unescape_backslash, h]
  rfl

/-- An escape of a number. -/
theorem unescape_unicode (a b : Char) (s : Str) :
    unescape ('\\' :: 'u' :: '0' :: '0' :: a :: b :: s) =
      printfUnicode ['0', '0', a, b] ++ unescape s := by
  rw [unescape_backslash]
  rfl

/-- A character without a meaning of its own, also for the shell. -/
abbrev Plain (c : Char) : Prop := c ≠ '"' ∧ c ≠ '\\' ∧ c ≠ Char.ofNat 0

/-- The letters of the short escapes, with what they stand for. -/
def shortEscapes : List (Char × Char) :=
  [('"', '"'), ('\\', '\\'), ('n', '\n'), ('r', '\r'), ('t', '\t'), ('b', Char.ofNat 8),
    ('f', Char.ofNat 12)]

/-- All that can become of a character: a short escape, an escape with its code, or itself. -/
theorem escape_eq (c : Char) : (∃ d, (d, c) ∈ shortEscapes ∧ escape c = ['\\', d]) ∨
    (c ≠ '"' ∧ c.toNat < 32 ∧ escape c = ['\\', 'u', '0', '0', Nat.digitChar (c.toNat / 16),
      Nat.digitChar (c.toNat % 16)]) ∨
    (Plain c ∧ escape c = [c]) := by
  unfold escape
  split
  · subst c
    exact .inl ⟨'"', by decide, rfl⟩
  rename_i hquote
  split
  · subst c
    exact .inl ⟨'\\', by decide, rfl⟩
  rename_i hback
  split
  · subst c
    exact .inl ⟨'n', by decide, rfl⟩
  split
  · subst c
    exact .inl ⟨'r', by decide, rfl⟩
  split
  · subst c
    exact .inl ⟨'t', by decide, rfl⟩
  split
  · subst c
    exact .inl ⟨'b', by decide, rfl⟩
  split
  · subst c
    exact .inl ⟨'f', by decide, rfl⟩
  split
  · rename_i hlt
    exact .inr (.inl ⟨hquote, hlt, rfl⟩)
  · rename_i hlt
    refine .inr (.inr ⟨⟨hquote, hback, ?_⟩, rfl⟩)
    rintro rfl
    exact hlt (by decide)

/-- **An escape is undone**, whatever follows it. -/
theorem unescape_escape (c : Char) (s : Str) : unescape (escape c ++ s) = kept c ++ unescape s := by
  obtain ⟨d, hmem, hescape⟩ | ⟨-, hlt, hescape⟩ | ⟨⟨-, hback, hnul⟩, hescape⟩ := escape_eq c
  · rw [hescape]
    have hshort : ∀ p ∈ shortEscapes, unescapeOne ('\\' :: p.1 :: s) = (kept p.2, 2) := by
      simp only [shortEscapes, List.forall_mem_cons]
      exact ⟨rfl, rfl, rfl, rfl, rfl, rfl, rfl, fun p hp => absurd hp List.not_mem_nil⟩
    exact unescape_letter (hshort (d, c) hmem)
  · rw [hescape]
    -- the digits are read back, but the code zero is no character for the shell
    have hdigits : ∀ n < 32, printfUnicode ['0', '0', Nat.digitChar (n / 16),
        Nat.digitChar (n % 16)] = kept (Char.ofNat n) := by decide +kernel
    have hcode := hdigits c.toNat hlt
    rw [Char.ofNat_toNat] at hcode
    rw [← hcode]
    exact unescape_unicode _ _ s
  · rw [hescape, kept, if_neg hnul]
    exact unescape_cons hback s

/-- A NUL is dropped. -/
theorem flatMap_kept (s : Str) : s.flatMap kept = s.filter (· ≠ Char.ofNat 0) := by
  induction s with
  | nil => rfl
  | cons c s ih =>
    rw [List.flatMap_cons, List.filter_cons, ih, kept]
    split <;> simp_all

/-- What `json.dumps` escapes is read back without its NULs. -/
theorem unescape_encode (s : Str) : unescape (encode s) = s.filter (· ≠ Char.ofNat 0) := by
  rw [← flatMap_kept]
  induction s with
  | nil => exact unescape_nil
  | cons c s ih =>
    rw [encode, List.flatMap_cons, unescape_escape, List.flatMap_cons]
    exact congrArg _ ih

/-! ### Quotation marks in a text -/

/-- A character stays as it is, or a backslash comes first; a quotation mark is in its own escape
only. -/
theorem escape_cases (c : Char) : (escape c = [c] ∧ Plain c) ∨
    ∃ d plain, escape c = '\\' :: d :: plain ∧ (∀ e ∈ plain, Plain e) ∧
      (c = '"' ∧ d = '"' ∧ plain = [] ∨ c ≠ '"' ∧ d ≠ '"' ∧ d ≠ Char.ofNat 0) := by
  have hnil : ∀ e ∈ ([] : Str), Plain e := fun e he => absurd he List.not_mem_nil
  obtain ⟨d, hmem, hescape⟩ | ⟨hquote, hlt, hescape⟩ | ⟨hplain, hescape⟩ := escape_eq c
  · have hletters : ∀ p ∈ shortEscapes,
        p.2 = '"' ∧ p.1 = '"' ∨ p.2 ≠ '"' ∧ p.1 ≠ '"' ∧ p.1 ≠ Char.ofNat 0 := by decide
    refine .inr ⟨d, [], hescape, hnil, ?_⟩
    obtain ⟨hc, hd⟩ | hother := hletters (d, c) hmem
    · exact .inl ⟨hc, hd, rfl⟩
    · exact .inr hother
  · have hdigit : ∀ n < 16, Plain (Nat.digitChar n) := by decide
    refine .inr ⟨'u', _, hescape, ?_, .inr ⟨hquote, by decide, by decide⟩⟩
    simp only [List.forall_mem_cons]
    exact ⟨by decide, by decide, hdigit _ (by omega), hdigit _ (by omega), hnil⟩
  · exact .inl ⟨hescape, hplain⟩

/-- Only a quote is escaped with a quote. -/
theorem quote_notMem_escape {c : Char} (hc : c ≠ '"') : '"' ∉ escape c := by
  obtain ⟨hescape, -⟩ | ⟨d, plain, hescape, hplain, hquote⟩ := escape_cases c
  · rw [hescape, List.mem_singleton]
    exact Ne.symm hc
  · have hd : d ≠ '"' := by
      obtain ⟨heq, -⟩ | ⟨-, hd, -⟩ := hquote
      · exact absurd heq hc
      · exact hd
    rw [hescape, List.mem_cons, List.mem_cons, not_or, not_or]
    exact ⟨by decide, Ne.symm hd, fun hmem => (hplain _ hmem).1 rfl⟩

/-- An encoded string has no NUL. -/
theorem nul_notMem_encodeString (s : Str) : Char.ofNat 0 ∉ encodeString s := by
  have hescape : ∀ c, Char.ofNat 0 ∉ escape c := by
    intro c hmem
    obtain ⟨hescape, hplain⟩ | ⟨d, plain, hescape, hplain, hquote⟩ := escape_cases c
    · rw [hescape, List.mem_singleton] at hmem
      exact hplain.2.2 hmem.symm
    · rw [hescape, List.mem_cons, List.mem_cons] at hmem
      obtain hmem | hmem | hmem := hmem
      · exact absurd hmem (by decide)
      · obtain ⟨-, hd, -⟩ | ⟨-, -, hd⟩ := hquote
        · exact absurd (hmem.trans hd) (by decide)
        · exact hd hmem.symm
      · exact (hplain _ hmem).2.2 rfl
  intro hmem
  rw [encodeString, List.mem_cons, List.mem_append] at hmem
  obtain hmem | hmem | hmem := hmem
  · exact absurd hmem (by decide)
  · obtain ⟨c, -, hc⟩ := List.mem_flatMap.mp hmem
    exact hescape c hc
  · exact absurd hmem (by decide)

/-- What stands in front of the quotation mark that ends a string. -/
def stringValue (escaped : Bool) : Str → Option Str
  | [] => none
  | c :: s =>
    if c = '"' && !escaped then some []
    else (stringValue (c = '\\' && !escaped) s).map (c :: ·)

variable {l : Locale} {key a b : Str}

/-- The group ends where the string does. -/
theorem stringValue_of_group (h : b ∈ (fieldExpr l key).group.lang) (s : Str) :
    stringValue false (b ++ '"' :: s) = some b := by
  refine Regex.Expr.star_induction (P := fun b => stringValue false (b ++ '"' :: s) = some b)
    rfl ?_ h
  intro a ha b ih
  obtain ⟨c, hc, rfl⟩ | ⟨_, ⟨c, hc, rfl⟩, _, ⟨d, -, rfl⟩, rfl⟩ := (Regex.Expr.mem_alt _ _ _).mp ha
  · simp only [ne_eq, Bool.and_eq_true, decide_eq_true_eq] at hc
    simp [stringValue, hc.1, hc.2, ih]
  · rw [decide_eq_true_eq] at hc
    simp [stringValue, hc, ih]

/-- A plain character in front of a value. -/
theorem plain_mem_group (ha : ∀ c ∈ a, Plain c) (hb : b ∈ (fieldExpr l key).group.lang) :
    a ++ b ∈ (fieldExpr l key).group.lang := by
  induction a with
  | nil => exact hb
  | cons c a ih =>
    rw [List.forall_mem_cons] at ha
    exact Regex.Expr.append_mem_star (a := [c]) (.inl ⟨c, by simp [ha.1.1, ha.1.2.1], rfl⟩)
      (ih ha.2)

/-- An encoded string is matched by the group. -/
theorem encode_mem_group (l : Locale) (key s : Str) : encode s ∈ (fieldExpr l key).group.lang := by
  induction s with
  | nil => exact Language.nil_mem_kstar _
  | cons c s ih =>
    have hcons : encode (c :: s) = escape c ++ encode s := List.flatMap_cons
    rw [hcons]
    obtain ⟨hescape, hplain⟩ | ⟨d, plain, hescape, hplain, -⟩ := escape_cases c
    · rw [hescape]
      exact plain_mem_group (List.forall_mem_singleton.mpr hplain) ih
    · rw [hescape]
      exact Regex.Expr.append_mem_star (a := ['\\', d])
        (.inr ⟨['\\'], ⟨'\\', rfl, rfl⟩, [d], ⟨d, rfl, rfl⟩, rfl⟩) (plain_mem_group hplain ih)

/-! ### Where a match begins -/

/-- What a match looks like: the name, spaces, a colon, spaces and a string. -/
structure FieldAt (l : Locale) (key s b : Str) : Prop where
  group : b ∈ (fieldExpr l key).group.lang
  text : ∃ u v rest, (∀ c ∈ u, l.space c = true) ∧ (∀ c ∈ v, l.space c = true) ∧
    s = '"' :: (key ++ '"' :: (u ++ ':' :: (v ++ '"' :: (b ++ '"' :: rest))))

/-- What the expression splits is a field. -/
theorem fieldAt_of_splits (h : (fieldExpr l key).Splits s a b) : FieldAt l key s b := by
  obtain ⟨hbefore, hb, _, ⟨z, hz, rfl⟩, rest, rfl⟩ := h
  obtain ⟨w, hname, _, hsecond, rfl⟩ := (Regex.Expr.mem_seq _ _ _).mp hbefore
  obtain ⟨u, hu, _, hthird, rfl⟩ := (Regex.Expr.mem_seq _ _ _).mp hsecond
  obtain ⟨_, ⟨x, hx, rfl⟩, _, hfourth, rfl⟩ := (Regex.Expr.mem_seq _ _ _).mp hthird
  obtain ⟨v, hv, _, ⟨y, hy, rfl⟩, rfl⟩ := (Regex.Expr.mem_seq _ _ _).mp hfourth
  rw [Regex.Expr.mem_word] at hname
  rw [decide_eq_true_eq] at hx hy hz
  subst hname hx hy hz
  exact ⟨hb, u, v, rest, Regex.Expr.mem_star_one hu, Regex.Expr.mem_star_one hv, by simp⟩

/-- No white space stands where the next character is none. -/
theorem no_spaces {u x y : Str} {c d : Char} (hu : ∀ c ∈ u, l.space c = true)
    (hc : l.space c = false) (h : c :: x = u ++ d :: y) : u = [] ∧ c = d ∧ x = y := by
  cases u with
  | nil => exact ⟨rfl, List.cons.inj h⟩
  | cons e u =>
    have hspace := hu e List.mem_cons_self
    rw [← (List.cons.inj h).1, hc] at hspace
    cases hspace

/-- No match begins at a character that is no quote. -/
theorem search_skip {c : Char} (hc : c ≠ '"') (s : Str) :
    (fieldExpr l key).search (c :: s) = (fieldExpr l key).search s := by
  have hnone : (fieldExpr l key).matchAt (c :: s) = none := by
    refine Regex.Grouped.matchAt_eq_none fun a b h => hc ?_
    obtain ⟨u, v, rest, -, -, htext⟩ := (fieldAt_of_splits h).text
    exact (List.cons.inj htext).1
  rw [Regex.Grouped.search, hnone, Option.none_or]

/-- Nor in a text without quotes. -/
theorem search_skip_all (ha : '"' ∉ a) (s : Str) :
    (fieldExpr l key).search (a ++ s) = (fieldExpr l key).search s := by
  induction a with
  | nil => rfl
  | cons c a ih =>
    rw [List.mem_cons, not_or] at ha
    rw [List.cons_append, search_skip (Ne.symm ha.1), ih ha.2]

/-- In front of a string value the match takes the value. -/
theorem matchAt_str (v r : Str) :
    (fieldExpr l key).matchAt ('"' :: (key ++ '"' :: ':' :: '"' :: (encode v ++ '"' :: r))) =
      some (encode v) := by
  have hquote := l.graph '"' (by decide) (by decide)
  have hcolon := l.graph ':' (by decide) (by decide)
  refine Regex.Grouped.matchAt_of_unique (a := '"' :: (key ++ ['"', ':', '"'])) ?_ ?_
  · refine ⟨⟨_, (Regex.Expr.mem_word _ _).mpr rfl, [':', '"'], ?_, by simp⟩,
      encode_mem_group l key v, ['"'], ⟨'"', rfl, rfl⟩, r, by simp⟩
    -- no spaces on both sides of the colon
    exact ⟨[], Language.nil_mem_kstar _, [':', '"'], ⟨[':'], ⟨':', rfl, rfl⟩, ['"'], ⟨[],
      Language.nil_mem_kstar _, ['"'], ⟨'"', rfl, rfl⟩, rfl⟩, rfl⟩, rfl⟩
  · intro a b h
    have hfield := fieldAt_of_splits h
    obtain ⟨u, w, rest, hu, hw, htext⟩ := hfield.text
    have hbehind := List.append_cancel_left (List.cons.inj htext).2
    obtain ⟨rfl, -, hbehind⟩ := no_spaces hu hcolon (List.cons.inj hbehind).2
    obtain ⟨rfl, -, hbehind⟩ := no_spaces hw hquote hbehind
    have hvalue := stringValue_of_group hfield.group rest
    rw [← hbehind, stringValue_of_group (encode_mem_group l key v) r] at hvalue
    exact (Option.some.inj hvalue).symm

/-- Where no string is the value there is no match. -/
theorem matchAt_other (ht : ∀ u w rest, (∀ c ∈ u, l.space c = true) → (∀ c ∈ w, l.space c = true) →
    t ≠ u ++ ':' :: (w ++ '"' :: rest)) :
    (fieldExpr l key).matchAt ('"' :: (key ++ '"' :: t)) = none := by
  refine Regex.Grouped.matchAt_eq_none fun a b h => ?_
  obtain ⟨u, w, rest, hu, hw, htext⟩ := (fieldAt_of_splits h).text
  have hbehind := List.append_cancel_left (List.cons.inj htext).2
  exact ht u w _ hu hw (List.cons.inj hbehind).2

/-- What stands behind a value. -/
def Closes (t : Str) : Prop := ∃ r, t = ',' :: r ∨ t = '}' :: r

/-- The string that a field would give. -/
def strValue : Value → Option Str
  | .str v => some v
  | .num _ | .bool _ => none

/-- What a match needs behind the colon is no other value. -/
theorem other_value {x : Value} (hx : strValue x = none) (ht : Closes t) :
    ∃ c r, encodeValue x ++ t = c :: r ∧ c ≠ '"' ∧ l.space c = false := by
  cases x with
  | str v => cases hx
  | num n =>
    obtain ⟨text, hchars⟩ := n
    cases text with
    | nil =>
      obtain ⟨r, rfl | rfl⟩ := ht
      · exact ⟨',', r, rfl, by decide, l.graph _ (by decide) (by decide)⟩
      · exact ⟨'}', r, rfl, by decide, l.graph _ (by decide) (by decide)⟩
    | cons c text =>
      have hc := hchars c List.mem_cons_self
      refine ⟨c, text ++ t, rfl, fun heq => absurd (heq ▸ hc) (by decide), ?_⟩
      obtain ⟨hge, hle⟩ := isNumberChar_graph hc
      exact l.graph c hge hle
  | bool b =>
    cases b with
    | true => exact ⟨'t', "rue".toList ++ t, rfl, by decide, l.graph _ (by decide) (by decide)⟩
    | false => exact ⟨'f', "alse".toList ++ t, rfl, by decide, l.graph _ (by decide) (by decide)⟩

/-- A field of the name that is looked for. -/
theorem matchAt_value (x : Value) (ht : Closes t) :
    (fieldExpr l key).matchAt ('"' :: (key ++ '"' :: ':' :: (encodeValue x ++ t))) =
      (strValue x).map encode := by
  cases hx : strValue x with
  | some v =>
    cases x with
    | str w =>
      cases hx
      have hstr : (fieldExpr l key).matchAt ('"' :: (key ++ '"' :: ':' :: '"' ::
          (encode v ++ '"' :: t))) = some (encode v) := matchAt_str v t
      simpa [encodeValue, encodeString] using hstr
    | num n => cases hx
    | bool b => cases hx
  | none =>
    refine matchAt_other fun u w rest hu hw htext => ?_
    obtain ⟨c, r, hvalue, hquote, hspace⟩ := other_value (l := l) hx ht
    have hcolon := l.graph ':' (by decide) (by decide)
    obtain ⟨-, -, hbehind⟩ := no_spaces hu hcolon htext
    rw [hvalue] at hbehind
    exact hquote (no_spaces hw hspace hbehind).2.1

/-- A string that is no name of a field. -/
theorem matchAt_closes (ht : Closes t) :
    (fieldExpr l key).matchAt ('"' :: (key ++ '"' :: t)) = none := by
  refine matchAt_other fun u w rest hu hw htext => ?_
  obtain ⟨r, rfl | rfl⟩ := ht
  · exact absurd (no_spaces hu (l.graph ',' (by decide) (by decide)) htext).2.1 (by decide)
  · exact absurd (no_spaces hu (l.graph '}' (by decide) (by decide)) htext).2.1 (by decide)

/-- A character of a name is not escaped. -/
theorem escape_nameChar (h : isNameChar c = true) : escape c = [c] := by
  have hne : ∀ d, isNameChar d = false → c ≠ d := by
    rintro d hd rfl
    rw [h] at hd
    cases hd
  have hcontrol : ∀ n < 32, isNameChar (Char.ofNat n) = false := by decide +kernel
  have hlt : ¬c.toNat < 32 := by
    intro hlt
    have hfalse := hcontrol c.toNat hlt
    rw [Char.ofNat_toNat, h] at hfalse
    cases hfalse
  simp only [escape, hne '"' (by decide), hne '\\' (by decide), hne '\n' (by decide),
    hne '\r' (by decide), hne '\t' (by decide), hne (Char.ofNat 8) (by decide),
    hne (Char.ofNat 12) (by decide), hlt, if_false]

/-- A KEY of `json_field`, as its callers have them: letters, digits and `_`. -/
def isKey (key : Str) : Bool := !key.isEmpty && key.all isNameChar

/-- The object goes through the shell as it is. -/
theorem substituted_encodeObject (fields : List (Str × Value)) :
    substituted (encodeObject fields) = encodeObject fields := by
  have hvalue : ∀ x, Char.ofNat 0 ∉ encodeValue x := by
    intro x
    cases x with
    | str s => exact nul_notMem_encodeString s
    | num n => exact fun hmem => absurd (n.chars _ hmem) (by decide)
    | bool b => cases b <;> decide
  have hfield : ∀ f, Char.ofNat 0 ∉ encodeField f := by
    intro f
    rw [encodeField, List.mem_append, List.mem_cons, not_or, not_or]
    exact ⟨nul_notMem_encodeString f.1, by decide, hvalue f.2⟩
  have hobject : ∀ c ∈ encodeObject fields, c ≠ Char.ofNat 0 := by
    rintro c hc rfl
    rw [encodeObject, List.mem_cons, List.mem_append] at hc
    obtain hc | hc | hc := hc
    · exact absurd hc (by decide)
    · obtain hc | ⟨part, hpart, hc⟩ := Str.mem_intercalate hc
      · exact absurd hc (by decide)
      · obtain ⟨f, -, rfl⟩ := List.mem_map.mp hpart
        exact hfield f hc
    · exact absurd hc (by decide)
  rw [substituted, List.filter_eq_self.mpr (by simpa using hobject)]
  exact List.rdropWhile_concat_neg _ ('{' :: _) '}' (by decide)

section Key

variable (hkey : isKey key = true)
include hkey

/-- A key is of characters of names. -/
theorem key_chars : key ≠ [] ∧ ∀ c ∈ key, isNameChar c = true := by
  simpa [isKey] using hkey

/-- A key is not escaped. -/
theorem encode_key : encode key = key := by
  have hchars := (key_chars hkey).2
  clear hkey
  induction key with
  | nil => rfl
  | cons c key ih =>
    rw [List.forall_mem_cons] at hchars
    have hcons : encode (c :: key) = escape c ++ encode key := List.flatMap_cons
    rw [hcons, escape_nameChar hchars.1, ih hchars.2]
    rfl

/-- No other string looks like the key. -/
theorem eq_key {more : Str} (h : encode s ++ '"' :: t = key ++ '"' :: more) : s = key := by
  have hchars : ∀ c ∈ key, Plain c := by
    intro c hc
    have hname := (key_chars hkey).2 c hc
    refine ⟨?_, ?_, ?_⟩ <;> rintro rfl <;> exact absurd hname (by decide)
  clear hkey
  induction s generalizing key with
  | nil =>
    cases key with
    | nil => rfl
    | cons d key => exact absurd (List.cons.inj h).1.symm (hchars d List.mem_cons_self).1
  | cons c s ih =>
    have hcons : encode (c :: s) = escape c ++ encode s := List.flatMap_cons
    rw [hcons] at h
    obtain ⟨hescape, hplain⟩ | ⟨d, plain, hescape, -, -⟩ := escape_cases c
    · rw [hescape] at h
      cases key with
      | nil => exact absurd (List.cons.inj h).1 hplain.1
      | cons d key =>
        obtain ⟨rfl, hrest⟩ := List.cons.inj h
        rw [ih hrest (List.forall_mem_cons.mp hchars).2]
    · rw [hescape] at h
      cases key with
      | nil => exact absurd (List.cons.inj h).1 (by decide)
      | cons d key => exact absurd (List.cons.inj h).1.symm (hchars d List.mem_cons_self).2.1

/-- The match that begins with the name, in front of a text. -/
theorem matchAt_string : (fieldExpr l key).matchAt ('"' :: (encode s ++ '"' :: t)) =
    if s = key then (fieldExpr l key).matchAt ('"' :: (key ++ '"' :: t)) else none := by
  split
  · rename_i heq
    rw [heq, encode_key hkey]
  · rename_i hne
    refine Regex.Grouped.matchAt_eq_none fun a b h => hne ?_
    obtain ⟨u, v, rest, -, -, htext⟩ := (fieldAt_of_splits h).text
    exact eq_key hkey (List.cons.inj htext).2

/-- What the match that begins with the name of KEY takes in front of a text. -/
theorem search_quote : (fieldExpr l key).search ('"' :: (encode s ++ '"' :: t)) =
    (if s = key then (fieldExpr l key).matchAt ('"' :: (key ++ '"' :: t)) else none).or
      ((fieldExpr l key).search (encode s ++ '"' :: t)) := by
  rw [Regex.Grouped.search, matchAt_string hkey]

/-- A string is searched for its end: KEY with a quotation mark in front. -/
theorem search_encode (ht : ∀ c, t.head? = some c → isNameChar c = false) :
    (fieldExpr l key).search (encode s ++ '"' :: t) =
      (if ('"' :: key) <:+ s then (fieldExpr l key).matchAt ('"' :: (key ++ '"' :: t))
        else none).or ((fieldExpr l key).search t) := by
  induction s with
  | nil =>
    have hnone : (fieldExpr l key).matchAt ('"' :: t) = none := by
      refine Regex.Grouped.matchAt_eq_none fun a b h => ?_
      obtain ⟨u, v, rest, -, -, htext⟩ := (fieldAt_of_splits h).text
      obtain ⟨hne, hchars⟩ := key_chars hkey
      obtain ⟨d, key, rfl⟩ := List.exists_cons_of_ne_nil hne
      have hfalse := ht d (by rw [(List.cons.inj htext).2]; rfl)
      rw [hchars d List.mem_cons_self] at hfalse
      cases hfalse
    rw [if_neg (by simp), Option.none_or, encode, List.flatMap_nil, List.nil_append,
      Regex.Grouped.search, hnone, Option.none_or]
  | cons c s ih =>
    have hcons : encode (c :: s) = escape c ++ encode s := List.flatMap_cons
    rw [hcons, List.append_assoc]
    by_cases hc : c = '"'
    · subst hc
      have hescape : escape '"' ++ (encode s ++ '"' :: t) =
          '\\' :: '"' :: (encode s ++ '"' :: t) := rfl
      rw [hescape, search_skip (by decide), search_quote hkey, ih]
      by_cases hs : s = key
      · have hsuffix : ¬('"' :: key) <:+ key := fun h => absurd h.length_le (by simp)
        rw [hs, if_pos rfl, if_neg hsuffix, if_pos List.suffix_rfl, Option.none_or]
      · rw [if_neg hs, Option.none_or]
        have hiff : ('"' :: key) <:+ '"' :: s ↔ ('"' :: key) <:+ s := by
          rw [List.suffix_cons_iff]
          simp [Ne.symm hs]
        simp only [hiff]
    · have hiff : ('"' :: key) <:+ c :: s ↔ ('"' :: key) <:+ s := by
        rw [List.suffix_cons_iff]
        simp [Ne.symm hc]
      rw [search_skip_all (quote_notMem_escape hc), ih]
      simp only [hiff]

/-- No match begins in a value, whatever it looks like. -/
theorem search_value (x : Value) (ht : Closes t) :
    (fieldExpr l key).search (encodeValue x ++ t) = (fieldExpr l key).search t := by
  cases x with
  | str v =>
    have htext : encodeValue (.str v) ++ t = '"' :: (encode v ++ '"' :: t) := by
      simp [encodeValue, encodeString]
    have hhead : ∀ c, t.head? = some c → isNameChar c = false := by
      obtain ⟨r, rfl | rfl⟩ := ht <;> rintro c hc <;> cases hc <;> rfl
    rw [htext, search_quote hkey, search_encode hkey hhead, matchAt_closes ht]
    simp
  | num n =>
    exact search_skip_all (fun hmem => absurd (n.chars _ hmem) (by decide)) t
  | bool b =>
    cases b with
    | true => exact search_skip_all (a := "true".toList) (by decide) t
    | false => exact search_skip_all (a := "false".toList) (by decide) t

/-- The value of a field, when it is a string and the name ends like that of KEY. -/
def seeming (key : Str) (f : Str × Value) : Option Str :=
  if ('"' :: key) <:+ '"' :: f.1 then strValue f.2 else none

/-- The first field, or those behind it. -/
theorem search_field (f : Str × Value) (ht : Closes t) :
    (fieldExpr l key).search (encodeField f ++ t) =
      ((seeming key f).map encode).or ((fieldExpr l key).search t) := by
  have htext : encodeField f ++ t =
      '"' :: (encode f.1 ++ '"' :: ':' :: (encodeValue f.2 ++ t)) := by
    simp [encodeField, encodeString]
  have hhead : ∀ c, (':' :: (encodeValue f.2 ++ t)).head? = some c → isNameChar c = false := by
    rintro c hc
    cases hc
    rfl
  rw [htext, search_quote hkey, search_encode hkey hhead, matchAt_value f.2 ht,
    search_skip (by decide), search_value hkey f.2 ht, seeming]
  by_cases hname : f.1 = key
  · have hsuffix : ¬('"' :: key) <:+ f.1 := fun h => absurd h.length_le (by simp [hname])
    rw [if_pos hname, if_neg hsuffix, Option.none_or, if_pos (by rw [hname])]
  · have hiff : ('"' :: key) <:+ '"' :: f.1 ↔ ('"' :: key) <:+ f.1 := by
      rw [List.suffix_cons_iff]
      simp [Ne.symm hname]
    rw [if_neg hname, Option.none_or]
    simp only [hiff]
    split <;> rfl

/-- All fields of an object. -/
theorem search_fields (fields : List (Str × Value)) :
    (fieldExpr l key).search ([','].intercalate (fields.map encodeField) ++ ['}']) =
      (fields.findSome? (seeming key)).map encode := by
  have hend : (fieldExpr l key).search ['}'] = none := by
    rw [search_skip (by decide)]
    refine Regex.Grouped.matchAt_eq_none fun a b h => ?_
    obtain ⟨u, w, rest, -, -, htext⟩ := (fieldAt_of_splits h).text
    cases htext
  induction fields with
  | nil => exact hend
  | cons f fields ih =>
    cases fields with
    | nil =>
      rw [List.map_singleton, List.intercalate_singleton, search_field hkey f ⟨[], .inr rfl⟩, hend]
      simp
    | cons g fields =>
      have htext : [','].intercalate ((f :: g :: fields).map encodeField) ++ ['}'] =
          encodeField f ++ ',' :: ([','].intercalate ((g :: fields).map encodeField) ++ ['}']) := by
        simp [List.intercalate_cons_cons]
      have hfirst : (f :: g :: fields).findSome? (seeming key) =
          (seeming key f).or ((g :: fields).findSome? (seeming key)) := by
        rw [List.findSome?_cons]
        cases seeming key f <;> rfl
      rw [htext, search_field hkey f ⟨_, .inl rfl⟩, search_skip (by decide), ih, hfirst]
      cases seeming key f <;> rfl

/-- **What `json_field` prints**: the first string whose name ends like that of KEY. -/
theorem jsonField_encodeObject (fields : List (Str × Value)) :
    jsonField l key (encodeObject fields) =
      (fields.findSome? (seeming key)).map fun v => v.filter (· ≠ Char.ofNat 0) := by
  rw [jsonField, substituted_encodeObject, encodeObject, search_skip (by decide),
    search_fields hkey, Option.map_map]
  exact congrArg₂ _ (funext unescape_encode) rfl

end Key

/-- The string field KEY of an object. -/
def stringField (key : Str) (fields : List (Str × Value)) : Option Str :=
  fields.findSome? fun f => if f.1 = key then strValue f.2 else none

/-- The first string in front of it whose name ends with a quotation mark and KEY. -/
def imitation (key : Str) (fields : List (Str × Value)) : Option Str :=
  (fields.takeWhile fun f => f.1 ≠ key || (strValue f.2).isNone).findSome? fun f =>
    if ('"' :: key) <:+ f.1 then strValue f.2 else none

/-- A name that imitates the field goes first. -/
theorem findSome_seeming (key : Str) (fields : List (Str × Value)) :
    fields.findSome? (seeming key) = (imitation key fields).or (stringField key fields) := by
  induction fields with
  | nil => rfl
  | cons f fields ih =>
    by_cases hname : f.1 = key
    · have hseeming : seeming key f = strValue f.2 := by rw [seeming, if_pos (by rw [hname])]
      cases hvalue : strValue f.2 with
      | some v =>
        -- KEY itself: nothing is in front of it
        simp [imitation, stringField, hseeming, hname, hvalue]
      | none =>
        have himitation : imitation key (f :: fields) = imitation key fields := by
          simp [imitation, hvalue]
        have hstring : stringField key (f :: fields) = stringField key fields := by
          simp [stringField, hvalue]
        rw [List.findSome?_cons, hseeming, hvalue, himitation, hstring]
        exact ih
    · have hiff : ('"' :: key) <:+ '"' :: f.1 ↔ ('"' :: key) <:+ f.1 := by
        rw [List.suffix_cons_iff]
        simp [Ne.symm hname]
      have hstring : stringField key (f :: fields) = stringField key fields := by
        simp [stringField, hname]
      have himitation : imitation key (f :: fields) =
          (seeming key f).or (imitation key fields) := by
        simp only [imitation, hname, seeming, hiff, ne_eq, not_false_eq_true, decide_true,
          Bool.true_or, List.takeWhile_cons_of_pos, List.findSome?_cons]
        split <;> simp_all
      rw [List.findSome?_cons, himitation, hstring, Option.or_assoc, ← ih]
      cases seeming key f <;> rfl

/-- **`json_field` undoes the encoding** if and only if no other field imitates KEY: none in front
of it has a string value and a name that ends with a quotation mark and KEY, or the first such
has the same value. -/
theorem jsonField_iff (hkey : isKey key = true) {fields : List (Str × Value)}
    (hnul : ∀ v, stringField key fields = some v → Char.ofNat 0 ∉ v) :
    jsonField l key (encodeObject fields) = stringField key fields ↔
      ∀ v, imitation key fields = some v →
        stringField key fields = some (v.filter (· ≠ Char.ofNat 0)) := by
  rw [jsonField_encodeObject hkey, findSome_seeming]
  cases himitation : imitation key fields with
  | none =>
    have hprints : (stringField key fields).map (fun v => v.filter (· ≠ Char.ofNat 0)) =
        stringField key fields := by
      cases hfield : stringField key fields with
      | none => rfl
      | some v =>
        have hv : ∀ c ∈ v, c ≠ Char.ofNat 0 := fun c hc heq => hnul v hfield (heq ▸ hc)
        rw [Option.map_some, List.filter_eq_self.mpr (by simpa using hv)]
    rw [Option.none_or, hprints]
    simp
  | some v =>
    simp [eq_comm]

/-- The spaces of the POSIX locale. -/
def Locale.posix : Locale where
  space c := c.toNat = 32 || (9 ≤ c.toNat && c.toNat ≤ 13)
  graph c hge hle := by
    have hspace : c.toNat ≠ 32 ∧ ¬c.toNat ≤ 13 := by omega
    simp [hspace]

/-- Quotation marks, newlines and text that looks like the field. -/
theorem jsonField_output : jsonField .posix "output".toList (encodeObject
    [("count".toList, .num ⟨"-1.5e3".toList, Str.forall_mem_of_all (by decide)⟩),
      ("note".toList, .str "\"output\":\"no\"".toList),
      ("output".toList, .str "a \"b\"\n\\".toList)]) = some "a \"b\"\n\\".toList :=
  (jsonField_iff (l := .posix) (by decide) (by decide)).mpr (by decide)

/-- A name that ends with a quotation mark and KEY: its value is printed, with KEY and without. -/
theorem jsonField_imitation :
    jsonField .posix "output".toList (encodeObject
      [("a\"output".toList, .str ['x']), ("output".toList, .str ['y'])]) = some ['x'] ∧
    jsonField .posix "output".toList (encodeObject
      [("a\"output".toList, .str ['x'])]) = some ['x'] := by
  constructor
  · exact (jsonField_encodeObject (by decide +kernel) _).trans (by decide +kernel)
  · exact (jsonField_encodeObject (by decide +kernel) _).trans (by decide +kernel)

end Ctl

end AndroidAppliance
