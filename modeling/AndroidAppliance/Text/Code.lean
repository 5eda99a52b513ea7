import Mathlib.Algebra.Ring.Nat
import Mathlib.Data.List.Basic
import Mathlib.Tactic.Common

/-!
# Strings that are not text

A string of JavaScript is a list of UTF-16 units, and one of Python a list of code points. In
both a half of a surrogate pair can stand alone, so not every such string is Unicode text. Such
a string is a list of `Code`s here: the same list on both sides of a `JSON.stringify` and a
`json.loads`.
-/

namespace AndroidAppliance

namespace Text

/-- A character, or a half of a surrogate pair that stands alone. -/
inductive Code
  | char (c : Char)
  | lone (half : Fin 2048)
  deriving DecidableEq, Repr

/-- A string of JavaScript or Python. -/
abbrev Codes := List Code

namespace Code

/-- The character, if it is one. -/
def char? : Code → Option Char
  | char c => some c
  | lone _ => none

/-- How many characters `JSON.stringify` writes for it inside a string. -/
def jsonLength : Code → Nat
  | char c =>
    if c = '"' ∨ c = '\\' ∨ c = '\x08' ∨ c = '\x0c' ∨ c = '\n' ∨ c = '\r' ∨ c = '\t' then 2
    else if c < ' ' then 6
    else 1
  | lone _ => 6

end Code

namespace Codes

/-- A text as a string. -/
def ofText (text : List Char) : Codes := text.map .char

/-- The text, if the string is one. -/
def text? (s : Codes) : Option (List Char) := s.mapM Code.char?

/-- The length of the string in JSON, with its quotes. -/
def jsonLength (s : Codes) : Nat := 2 + (s.map Code.jsonLength).sum

@[simp]
theorem text?_ofText (text : List Char) : text? (ofText text) = some text := by
  unfold text? ofText
  induction text with
  | nil => rfl
  | cons c text ih =>
    rw [List.map_cons, List.mapM_cons, ih]
    rfl

/-- Only a text gives a text. -/
theorem eq_of_text? {s : Codes} {text : List Char} (h : text? s = some text) : s = ofText text := by
  unfold text? at h
  induction s generalizing text with
  | nil =>
    cases h
    rfl
  | cons c s ih =>
    rw [List.mapM_cons] at h
    cases c with
    | lone half => cases h
    | char c =>
      obtain ⟨d, hd, h⟩ := Option.bind_eq_some_iff.mp h
      cases hd
      obtain ⟨rest, hrest, h⟩ := Option.bind_eq_some_iff.mp h
      cases h
      rw [ih hrest]
      rfl

end Codes

end Text

end AndroidAppliance
