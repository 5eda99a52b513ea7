import AndroidAppliance.Text.Str

/-!
# UTF-8

`bytes.decode(errors="replace")` of Python, one byte after another. A character takes up to four
bytes; a byte that cannot follow ends the character before it, which is replaced as a whole, and
is read as the first of the next one.

A newline is one byte and no part of another character, so text is decoded line by line
(`decode_newline`), whatever else is in the lines.
-/

namespace AndroidAppliance

namespace Utf8

/-- What stands for bytes that are no character. -/
def replacement : Char := Char.ofNat 0xFFFD

/-- A character of which the first bytes are read. -/
structure Partial where
  /-- How many bytes follow the next one. -/
  missing : Nat
  /-- The bits of the bytes that are read. -/
  bits : Nat
  /-- The range of the next byte. -/
  low : Nat
  high : Nat
  not_ascii : 0x80 ≤ low
  deriving DecidableEq

/-- The first byte of a character of several bytes. The range of the second one leaves out what a
shorter character says, the surrogates and what is above U+10FFFF. -/
def lead (b : Nat) : Option Partial :=
  if 0xC2 ≤ b ∧ b ≤ 0xDF then
    some { missing := 0, bits := b - 0xC0, low := 0x80, high := 0xBF, not_ascii := Nat.le_refl _ }
  else if 0xE0 ≤ b ∧ b ≤ 0xEF then
    some { missing := 1, bits := b - 0xE0, low := if b = 0xE0 then 0xA0 else 0x80,
           high := if b = 0xED then 0x9F else 0xBF, not_ascii := by split <;> decide }
  else if 0xF0 ≤ b ∧ b ≤ 0xF4 then
    some { missing := 2, bits := b - 0xF0, low := if b = 0xF0 then 0x90 else 0x80,
           high := if b = 0xF4 then 0x8F else 0xBF, not_ascii := by split <;> decide }
  else none

/-- A byte between characters: the characters that it ends, and what is open after it. -/
def first (b : Nat) : Str × Option Partial :=
  if b < 0x80 then ([Char.ofNat b], none)
  else match lead b with
    | some p => ([], some p)
    | none => ([replacement], none)

/-- A byte inside a character. -/
def Partial.next (p : Partial) (b : Nat) : Str × Option Partial :=
  if p.low ≤ b ∧ b ≤ p.high then
    match p.missing with
    | 0 => ([Char.ofNat (p.bits * 64 + b % 64)], none)
    | n + 1 =>
      ([], some { missing := n, bits := p.bits * 64 + b % 64, low := 0x80, high := 0xBF,
                  not_ascii := Nat.le_refl _ })
  else (replacement :: (first b).1, (first b).2)

/-- One byte: the characters that are complete, and what is left. -/
def step : Option Partial → Nat → Str × Option Partial
  | none, b => first b
  | some p, b => p.next b

/-- The bytes behind an open character. -/
def decodeFrom : Option Partial → List UInt8 → Str
  | none, [] => []
  | some _, [] => [replacement]
  | p, b :: s => (step p b.toNat).1 ++ decodeFrom (step p b.toNat).2 s

/-- `bytes.decode(errors="replace")`. -/
def decode (bytes : List UInt8) : Str := decodeFrom none bytes

variable {p : Option Partial} {a b : List UInt8}

/-- A newline ends the character that is open. -/
theorem step_newline (p : Option Partial) : step p 0x0A = (decodeFrom p [] ++ ['\n'], none) := by
  cases p with
  | none => rfl
  | some p =>
    -- the ranges of the next byte hold no ASCII, so the open character is replaced
    have hrange : ¬(p.low ≤ 0x0A ∧ 0x0A ≤ p.high) := by
      have hlow := p.not_ascii
      omega
    rw [step, Partial.next, if_neg hrange]
    rfl

theorem decodeFrom_cons (p : Option Partial) (c : UInt8) (s : List UInt8) :
    decodeFrom p (c :: s) = (step p c.toNat).1 ++ decodeFrom (step p c.toNat).2 s := by
  cases p <;> rfl

theorem decodeFrom_newline (p : Option Partial) (a b : List UInt8) :
    decodeFrom p (a ++ 0x0A :: b) = decodeFrom p a ++ '\n' :: decode b := by
  induction a generalizing p with
  | nil =>
    have hstep : step p (0x0A : UInt8).toNat = (decodeFrom p [] ++ ['\n'], none) := step_newline p
    rw [List.nil_append, decodeFrom_cons, hstep, List.append_assoc]
    rfl
  | cons c a ih => rw [List.cons_append, decodeFrom_cons, decodeFrom_cons, ih, List.append_assoc]

/-- **Text is decoded line by line.** -/
theorem decode_newline (a b : List UInt8) :
    decode (a ++ 0x0A :: b) = decode a ++ '\n' :: decode b := decodeFrom_newline none a b

/-- A character of three bytes, and its first two bytes before a letter. -/
example : decode [0xE2, 0x82, 0xAC] = ['€'] ∧ decode [0xE2, 0x82, 0x61] = [replacement, 'a'] := by
  decide

end Utf8

end AndroidAppliance
