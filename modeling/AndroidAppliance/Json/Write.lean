import AndroidAppliance.Json.Loads

/-!
# Flat objects

What a shell script writes for a JSON object: compact, with fields that are numbers without a sign,
booleans, or strings that need no escapes. `loads_writeObject` says that `json.loads` reads it back.

The reader is a machine over the text, so the proof follows the text: `Reads` says what the machine
does with a part of it, and the parts of a field are put together by `Reads.append`.
-/

namespace AndroidAppliance

namespace Json

open Text

/-- A value that a script writes. -/
inductive Scalar
  | nat (n : Nat)
  | bool (b : Bool)
  | str (s : Str)
  deriving DecidableEq, Repr

/-- A character of ASCII that stands for itself in a string. -/
def isPlain (c : Char) : Bool := c ≠ '"' && c ≠ '\\' && ' ' ≤ c && c ≤ '~'

namespace Scalar

/-- A scalar, as it is written. -/
def text : Scalar → Str
  | nat n => Str.ofNat n
  | bool b => if b then "true".toList else "false".toList
  | str s => '"' :: s ++ ['"']

/-- The value that is meant. -/
def value : Scalar → Value
  | nat n => .int n
  | bool b => .bool b
  | str s => .str (Codes.ofText s)

/-- A number that is short enough, or a string without escapes. -/
def Writable : Scalar → Prop
  | nat n => (Str.ofNat n).length ≤ maxStrDigits
  | bool _ => True
  | str s => s.all isPlain = true

end Scalar

/-- A field of an object. -/
def writeField (f : Str × Scalar) : Str := '"' :: f.1 ++ '"' :: ':' :: f.2.text

/-- The fields, with commas between them. -/
def writeFields (fields : List (Str × Scalar)) : Str := [','].intercalate (fields.map writeField)

/-- An object. -/
def writeObject (fields : List (Str × Scalar)) : Str := '{' :: writeFields fields ++ ['}']

/-- What `json.loads` makes of the fields. -/
def fieldsOf (fields : List (Str × Scalar)) : List (Codes × Value) :=
  fields.map fun f => (Codes.ofText f.1, f.2.value)

/-- A field behind others. -/
theorem writeFields_concat {fields : List (Str × Scalar)} (hne : fields ≠ []) (f : Str × Scalar) :
    writeFields (fields ++ [f]) = writeFields fields ++ ',' :: writeField f := by
  unfold writeFields
  induction fields with
  | nil => exact absurd rfl hne
  | cons g fields ih =>
    cases fields with
    | nil => simp [List.intercalate_cons_cons]
    | cons h fields =>
      have hrest := ih (List.cons_ne_nil _ _)
      simp only [List.cons_append, List.map_cons, List.intercalate_cons_cons, List.append_assoc,
        List.nil_append] at hrest ⊢
      rw [hrest]

/-! ### Parts of the text -/

variable {float : List Char → PyFloat} {limit : Nat}

/-- The machine comes from a state to another one over the text. -/
def Reads (float : List Char → PyFloat) (limit : Nat) (s : State) (text : Str) (s' : State) :
    Prop :=
  run float limit s (Codes.ofText text) = .ok s'

variable {s s' s'' : State} {a b : Str} {c : Char} {stack : List Frame}

theorem Reads.nil : Reads float limit s [] s := rfl

theorem Reads.cons (hstep : stepChar float s c = some s') (hlimit : s'.stack.length ≤ limit)
    (h : Reads float limit s' a s'') : Reads float limit s (c :: a) s'' := by
  have hrun : run float limit s (Codes.ofText (c :: a)) = run float limit s' (Codes.ofText a) := by
    rw [Codes.ofText, List.map_cons, run]
    simp only [step, hstep, if_neg (Nat.not_lt.mpr hlimit)]
    rfl
  exact hrun.trans h

theorem Reads.append (ha : Reads float limit s a s') (hb : Reads float limit s' b s'') :
    Reads float limit s (a ++ b) s'' := by
  induction a generalizing s with
  | nil =>
    cases ha
    exact hb
  | cons c a ih =>
    rw [Reads, Codes.ofText, List.map_cons, run] at ha
    rw [Reads, Codes.ofText, List.cons_append, List.map_cons, run]
    cases hstep : step float s (.char c) with
    | none =>
      rw [hstep] at ha
      cases ha
    | some t =>
      simp only [hstep] at ha ⊢
      split at ha
      · cases ha
      · rename_i hlimit
        rw [if_neg hlimit]
        exact ih ha

/-! ### Strings and numbers -/

/-- A number above zero does not begin with a zero. -/
theorem ofNat_eq_cons {n : Nat} (h : 0 < n) : ∃ d ds, Str.ofNat n = d :: ds ∧ d ≠ '0' := by
  induction n using Nat.strongRecOn with
  | ind n ih =>
    unfold Str.ofNat at ih ⊢
    rw [Nat.toDigits_eq_if (by decide)]
    split
    · rename_i hlt
      have hall : ∀ n < 10, 0 < n → Nat.digitChar n ≠ '0' := by decide
      exact ⟨_, [], rfl, hall n hlt h⟩
    · obtain ⟨d, ds, hds, hd⟩ := ih (n / 10) (by omega) (by omega)
      exact ⟨d, _, by rw [hds, List.cons_append], hd⟩

/-- A digit in front of a value. -/
theorem stepChar_digit (hdigit : c.isDigit = true) (hzero : c ≠ '0') :
    stepChar float ⟨.value, stack⟩ c = some ⟨.num .int [c], stack⟩ := by
  have hne : ∀ d : Char, d.isDigit = false → c ≠ d := by
    rintro d hd rfl
    rw [hd] at hdigit
    cases hdigit
  have hspace : isSpace c = false := by
    simp only [isSpace, hne ' ' rfl, hne '\t' rfl, hne '\n' rfl, hne '\r' rfl, decide_false,
      Bool.or_self]
  simp only [stepChar, hspace, Bool.false_eq_true, if_false]
  rw [stepValue, if_neg (hne '"' rfl), if_neg (hne '{' rfl), if_neg (hne '[' rfl),
    if_neg (hne 'n' rfl), if_neg (hne 't' rfl), if_neg (hne 'f' rfl), if_neg (hne 'N' rfl),
    if_neg (hne 'I' rfl), if_neg (hne '-' rfl), if_neg hzero, if_pos hdigit]

section Parts

variable (hlimit : stack.length ≤ limit)

include hlimit

theorem reads_plain {isKey : Bool} {text : Codes} (h : a.all isPlain = true) :
    Reads float limit ⟨.str isKey text none, stack⟩ a
      ⟨.str isKey (text ++ Codes.ofText a) none, stack⟩ := by
  induction a generalizing text with
  | nil =>
    rw [Codes.ofText, List.map_nil, List.append_nil]
    exact Reads.nil
  | cons c a ih =>
    rw [List.all_cons, Bool.and_eq_true] at h
    obtain ⟨hc, ha⟩ := h
    simp only [isPlain, Bool.and_eq_true, decide_eq_true_eq] at hc
    have hstep : stepChar float ⟨.str isKey text none, stack⟩ c =
        some ⟨.str isKey (text ++ [.char c]) none, stack⟩ := by
      simp only [stepChar, if_neg hc.1.1.1, if_neg hc.1.1.2, if_neg (Char.not_lt.mpr hc.1.2)]
    have hrest : Reads float limit ⟨.str isKey (text ++ [.char c]) none, stack⟩ a
        ⟨.str isKey (text ++ [.char c] ++ Codes.ofText a) none, stack⟩ := ih ha
    rw [List.append_assoc] at hrest
    exact Reads.cons hstep hlimit hrest

theorem reads_digits {text : Str} (h : ∀ c ∈ a, c.isDigit = true) :
    Reads float limit ⟨.num .int text, stack⟩ a ⟨.num .int (text ++ a), stack⟩ := by
  induction a generalizing text with
  | nil =>
    rw [List.append_nil]
    exact Reads.nil
  | cons c a ih =>
    have hc : c.isDigit = true := h c List.mem_cons_self
    have hstep : stepChar float ⟨.num .int text, stack⟩ c =
        some ⟨.num .int (text ++ [c]), stack⟩ := by
      simp only [stepChar, NumState.next, hc]
      rfl
    have hrest : Reads float limit ⟨.num .int (text ++ [c]), stack⟩ a
        ⟨.num .int (text ++ [c] ++ a), stack⟩ := ih fun d hd => h d (List.mem_cons_of_mem _ hd)
    rw [List.append_assoc] at hrest
    exact Reads.cons hstep hlimit hrest

variable (float) in
/-- Behind the text of a number the machine is in a number, and knows its value. -/
theorem reads_nat (n : Nat) : ∃ state, (state = .zero ∨ state = .int) ∧
    Reads float limit ⟨.value, stack⟩ (Str.ofNat n) ⟨.num state (Str.ofNat n), stack⟩ := by
  obtain rfl | hpos := Nat.eq_zero_or_pos n
  · exact ⟨.zero, .inl rfl, Reads.cons rfl hlimit Reads.nil⟩
  · obtain ⟨d, ds, hds, hzero⟩ := ofNat_eq_cons hpos
    have hdigit : ∀ c ∈ d :: ds, c.isDigit = true := fun c hc => Str.ofNat_digit (hds ▸ hc)
    have hd : d.isDigit = true := hdigit d List.mem_cons_self
    refine ⟨.int, .inr rfl, ?_⟩
    have hrest : Reads float limit ⟨.num .int [d], stack⟩ ds ⟨.num .int (d :: ds), stack⟩ :=
      reads_digits hlimit fun c hc => hdigit c (List.mem_cons_of_mem _ hc)
    rw [hds]
    exact Reads.cons (stepChar_digit (hdigit d List.mem_cons_self) hzero) hlimit hrest

variable (float) in
/-- A string is read to its end. -/
theorem reads_string {isKey : Bool} (ha : a.all isPlain = true)
    (hend : giveString isKey (Codes.ofText a) stack = some s') (hlimit' : s'.stack.length ≤ limit) :
    Reads float limit ⟨.str isKey [] none, stack⟩ (a ++ ['"']) s' := by
  have htext : Reads float limit ⟨.str isKey [] none, stack⟩ a
      ⟨.str isKey (Codes.ofText a) none, stack⟩ := reads_plain hlimit ha
  exact htext.append (Reads.cons (by simpa [stepChar] using hend) hlimit' Reads.nil)

end Parts

/-! ### Objects -/

theorem intValue_ofNat {n : Nat} (h : (Str.ofNat n).length ≤ maxStrDigits) :
    intValue (Str.ofNat n) = some (.int n) := by
  have hsign : '-' ∉ Str.ofNat n := fun hmem => by
    have hdigit := Str.ofNat_digit hmem
    cases hdigit
  have hdigits : (Str.ofNat n).filter (· ≠ '-') = Str.ofNat n :=
    List.filter_eq_self.mpr fun c hc => decide_eq_true fun heq => hsign (heq ▸ hc)
  have hhead : (Str.ofNat n).head? ≠ some '-' := fun heq => hsign (List.mem_of_head? heq)
  unfold intValue
  simp only [hdigits]
  rw [if_neg (Nat.not_lt.mpr h), if_neg hhead, Str.int_ofNat]

section Object

variable {fields : List (Codes × Value)} {key : Codes} {v : Scalar} (hlimit : 1 ≤ limit)

include hlimit

variable (float) in
/-- A value, and the comma or the brace behind it. -/
theorem reads_scalar (hv : v.Writable) (hc : c = ',' ∨ c = '}')
    (hend : stepBehind c ⟨.behind, [.obj (fields ++ [(key, v.value)]) key]⟩ = some s')
    (hs' : s'.stack.length ≤ limit) :
    Reads float limit ⟨.value, [.obj fields key]⟩ (v.text ++ [c]) s' := by
  have hstack : [Frame.obj fields key].length ≤ limit := hlimit
  cases v with
  | nat n =>
    obtain ⟨state, hstate, hreads⟩ := reads_nat float hstack n
    have hvalue : numValue float state (Str.ofNat n) = some (.int n) := by
      obtain rfl | rfl := hstate <;> exact intValue_ofNat hv
    have hnext : state.next c = none := by
      obtain rfl | rfl := hstate <;> obtain rfl | rfl := hc <;> rfl
    have hminus : state ≠ .minus := by
      obtain rfl | rfl := hstate <;> decide
    refine hreads.append (Reads.cons ?_ hs' Reads.nil)
    simp only [stepChar, hminus, decide_false, Bool.false_and, Bool.false_eq_true, if_false, hnext,
      hvalue, Option.bind_some]
    exact hend
  | bool b =>
    have hbehind : Reads float limit ⟨.behind, [.obj (fields ++ [(key, .bool b)]) key]⟩ [c] s' :=
      Reads.cons hend hs' Reads.nil
    cases b with
    | true =>
      exact Reads.cons rfl hlimit (Reads.cons rfl hlimit (Reads.cons rfl hlimit
        (Reads.cons rfl hlimit hbehind)))
    | false =>
      exact Reads.cons rfl hlimit (Reads.cons rfl hlimit (Reads.cons rfl hlimit
        (Reads.cons rfl hlimit (Reads.cons rfl hlimit hbehind))))
  | str a =>
    have hbehind : Reads float limit
        ⟨.behind, [.obj (fields ++ [(key, .str (Codes.ofText a))]) key]⟩ [c] s' :=
      Reads.cons hend hs' Reads.nil
    have hstring : Reads float limit ⟨.str false [] none, [.obj fields key]⟩ (a ++ ['"']) _ :=
      reads_string float hstack hv rfl hlimit
    exact (Reads.cons rfl hlimit hstring).append hbehind

variable (float) in
/-- A field of an open object, and the comma or the brace behind it. -/
theorem reads_field {f : Str × Scalar} {mode : Mode} (hmode : mode = .firstKey ∨ mode = .key)
    (hkey : f.1.all isPlain = true) (hv : f.2.Writable) (hc : c = ',' ∨ c = '}')
    (hend : stepBehind c ⟨.behind, [.obj (fields ++ [(Codes.ofText f.1, f.2.value)])
      (Codes.ofText f.1)]⟩ = some s') (hs' : s'.stack.length ≤ limit) :
    Reads float limit ⟨mode, [.obj fields key]⟩ (writeField f ++ [c]) s' := by
  have hstack : [Frame.obj fields key].length ≤ limit := hlimit
  have hquote : stepChar float ⟨mode, [.obj fields key]⟩ '"' =
      some ⟨.str true [] none, [.obj fields key]⟩ := by
    obtain rfl | rfl := hmode <;> rfl
  have hname : Reads float limit ⟨.str true [] none, [.obj fields key]⟩ (f.1 ++ ['"']) _ :=
    reads_string float hstack hkey rfl hlimit
  have hvalue := reads_scalar float hlimit hv hc hend hs'
  have hcolon : stepChar float ⟨.colon, [.obj fields (Codes.ofText f.1)]⟩ ':' =
      some ⟨.value, [.obj fields (Codes.ofText f.1)]⟩ := rfl
  have hall := Reads.cons hquote hlimit (hname.append (Reads.cons hcolon hlimit hvalue))
  simpa only [writeField, List.append_assoc, List.cons_append, List.nil_append] using hall

/-- The fields of an open object, to its end. -/
theorem reads_fields {f : Str × Scalar} {rest : List (Str × Scalar)} {mode : Mode}
    (hmode : mode = .firstKey ∨ mode = .key) (hkeys : ∀ g ∈ f :: rest, g.1.all isPlain = true)
    (hvalues : ∀ g ∈ f :: rest, g.2.Writable) :
    Reads float limit ⟨mode, [.obj fields key]⟩
      (writeFields (f :: rest) ++ ['}'])
      ⟨.done (.obj (fields ++ fieldsOf (f :: rest))), []⟩ := by
  induction rest generalizing f fields key mode with
  | nil =>
    rw [writeFields, List.map_singleton, List.intercalate_singleton]
    exact reads_field float hlimit hmode (hkeys f List.mem_cons_self) (hvalues f List.mem_cons_self)
      (.inr rfl) rfl (Nat.zero_le _)
  | cons g rest ih =>
    have hfield : Reads float limit ⟨mode, [.obj fields key]⟩ (writeField f ++ [',']) _ :=
      reads_field float hlimit hmode (hkeys f List.mem_cons_self) (hvalues f List.mem_cons_self)
        (.inl rfl) rfl hlimit
    have hall := hfield.append (ih (.inr rfl) (fun h hh => hkeys h (List.mem_cons_of_mem _ hh))
      (fun h hh => hvalues h (List.mem_cons_of_mem _ hh)))
    rw [List.append_assoc] at hall
    simpa only [writeFields, List.map_cons, List.intercalate_cons_cons, List.append_assoc, fieldsOf,
      List.cons_append, List.nil_append] using hall

end Object

/-- A graphic character of ASCII, or a space. -/
def isPrintable (c : Char) : Bool := ' ' ≤ c && c ≤ '~'

theorem isPrintable_of_isPlain {c : Char} (h : isPlain c = true) : isPrintable c = true := by
  simp only [isPlain, Bool.and_eq_true] at h
  rw [isPrintable, h.1.2, h.2]
  rfl

theorem isPrintable_of_isDigit {c : Char} (h : c.isDigit = true) : isPrintable c = true := by
  obtain ⟨hlow, hhigh⟩ := Str.digit_toNat h
  have hle : ' ' ≤ c ∧ c ≤ '~' := by
    constructor <;> rw [Char.le_def, UInt32.le_iff_toNat_le]
    · exact le_trans (by decide) hlow
    · exact le_trans hhigh (by decide)
  rw [isPrintable, decide_eq_true hle.1, decide_eq_true hle.2]
  rfl

theorem Scalar.printable {v : Scalar} (hv : v.Writable) : v.text.all isPrintable = true := by
  cases v with
  | nat n => exact List.all_eq_true.mpr fun c hc => isPrintable_of_isDigit (Str.ofNat_digit hc)
  | bool b => cases b <;> decide
  | str s =>
    have hs : s.all isPrintable = true :=
      List.all_eq_true.mpr fun c hc => isPrintable_of_isPlain (List.all_eq_true.mp hv c hc)
    rw [Scalar.text, List.cons_append, List.all_cons, List.all_append, hs]
    decide

/-- What a script writes is ASCII in one line. -/
theorem printable_writeObject {fields : List (Str × Scalar)}
    (hkeys : ∀ f ∈ fields, f.1.all isPlain = true) (hvalues : ∀ f ∈ fields, f.2.Writable) :
    (writeObject fields).all isPrintable = true := by
  have hfields : (writeFields fields).all isPrintable = true := by
    refine List.all_eq_true.mpr fun c hc => ?_
    obtain rfl | ⟨part, hpart, hmem⟩ := Str.mem_intercalate hc
    · decide
    · obtain ⟨f, hf, rfl⟩ := List.mem_map.mp hpart
      simp only [writeField, List.cons_append, List.mem_cons, List.mem_append] at hmem
      obtain rfl | hkey | rfl | rfl | htext := hmem
      · decide
      · exact isPrintable_of_isPlain (List.all_eq_true.mp (hkeys f hf) c hkey)
      · decide
      · decide
      · exact List.all_eq_true.mp (Scalar.printable (hvalues f hf)) c htext
  rw [writeObject, List.cons_append, List.all_cons, List.all_append, hfields]
  decide

/-- **An object that a script writes** is read back. -/
theorem loads_writeObject {fields : List (Str × Scalar)} (hlimit : 1 ≤ limit)
    (hkeys : ∀ f ∈ fields, f.1.all isPlain = true) (hvalues : ∀ f ∈ fields, f.2.Writable) :
    loads float limit (Codes.ofText (writeObject fields)) = .ok (.obj (fieldsOf fields)) := by
  have hreads : Reads float limit start (writeObject fields)
      ⟨.done (.obj (fieldsOf fields)), []⟩ := by
    have hopen : stepChar float start '{' = some ⟨.firstKey, [.obj [] []]⟩ := rfl
    refine Reads.cons hopen hlimit ?_
    cases fields with
    | nil => exact Reads.cons rfl (Nat.zero_le _) Reads.nil
    | cons f rest => exact reads_fields hlimit (.inl rfl) hkeys hvalues
  rw [loads, show run float limit start _ = _ from hreads]
  rfl

end Json

end AndroidAppliance
