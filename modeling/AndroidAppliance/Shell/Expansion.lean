import AndroidAppliance.Shell.Words
import Mathlib.Algebra.Ring.Nat
import Mathlib.Data.List.TakeWhile
import Mathlib.Order.Basic

/-!
# Expansion of a word

Parameter expansion, field splitting, pathname expansion and quote removal, in any environment:
the values of all parameters, and the files that a pattern names.

An inert word is its own text, in every environment (`expand_of_inert`). What a
word can become otherwise is bounded by its parts: no character appears more often in the fields
than in the characters of the word and the values of its parameters (`count_fields_le`).
-/

namespace AndroidAppliance

namespace Shell

/-- A character of a field, and whether it was quoted. -/
abbrev Field := List (Bool × Char)

/-- Any variables, and any files. -/
structure Env where
  /-- The value of a parameter; `none` when it is unset. -/
  param : Param → Option Str
  /-- The paths that match a pattern. -/
  files : Field → List Str

/-- The field separators: white space unless `IFS` is set. -/
def Env.ifs (env : Env) : Str := (env.param (.variable ['I', 'F', 'S'])).getD [' ', '\t', '\n']

/-- The value of a parameter; one that is unset is empty. -/
def Env.value (env : Env) (p : Param) : Str := (env.param p).getD []

/-- The fields of a word so far. -/
structure Fields where
  done : List Field
  /-- The field that is not over. -/
  last : Option Field
  /-- White space of `IFS` ended the last field. -/
  soft : Bool

namespace Fields

/-- Nothing was read. -/
def empty : Fields := ⟨[], none, false⟩

/-- A character that separates nothing. -/
def add (f : Fields) (qc : Bool × Char) : Fields := ⟨f.done, some (f.last.getD [] ++ [qc]), false⟩

/-- Quotation marks: there is a field, even an empty one. -/
def touch (f : Fields) : Fields := ⟨f.done, some (f.last.getD []), false⟩

/-- A character of an unquoted expansion. -/
def split (ifs : Str) (f : Fields) (c : Char) : Fields :=
  if !ifs.contains c then f.add (false, c)
  else if c = ' ' || c = '\t' || c = '\n' then
    match f.last with
    | some field => ⟨f.done ++ [field], none, true⟩
    | none => f
  else match f.last with
    | some field => ⟨f.done ++ [field], none, false⟩
    | none => if f.soft then { f with soft := false } else ⟨f.done ++ [[]], none, false⟩

/-- A part of the word. -/
def part (env : Env) (f : Fields) : Part → Fields
  | .char q c => f.add (q, c)
  | .quotes => f.touch
  | .param true p => (env.value p).foldl (fun f c => f.add (true, c)) f
  | .param false p => (env.value p).foldl (split env.ifs) f

/-- All fields. -/
def all (f : Fields) : List Field := f.done ++ f.last.toList

end Fields

/-- The fields of a word, before pathname expansion. -/
def fields (env : Env) (w : Word) : List Field := (w.foldl (Fields.part env) .empty).all

/-- An unquoted `*`, `?` or `[…]`. -/
def isPattern (f : Field) : Bool :=
  f.any (fun qc => !qc.1 && (qc.2 = '*' || qc.2 = '?')) ||
    (f.dropWhile (fun qc => qc != (false, '['))).contains (false, ']')

/-- Pathname expansion and quote removal. -/
def glob (env : Env) (f : Field) : List Str :=
  if isPattern f && !(env.files f).isEmpty then env.files f else [f.map (·.2)]

/-- What a word becomes; tilde expansion is not read. -/
def expand (env : Env) (w : Word) : Option (List Str) :=
  if w.head? = some (.char false '~') then none else some ((fields env w).flatMap (glob env))

/-! ### Inert words -/

/-- A part that is no parameter. -/
def Part.Literal : Part → Prop
  | .char _ _ | .quotes => True
  | .param _ _ => False

/-- A part that no expansion changes, wherever it stands. -/
def Part.Inert : Part → Prop
  | .char true _ => True
  | .char false c => c ≠ '*' ∧ c ≠ '?' ∧ c ≠ '[' ∧ c ≠ '~'
  | .quotes => True
  | .param _ _ => False

instance : DecidablePred Part.Literal
  | .char _ _ => .isTrue trivial
  | .quotes => .isTrue trivial
  | .param _ _ => .isFalse id

/-- The characters of a word. -/
def textOf (w : Word) : Str := w.filterMap fun
  | .char _ c => some c
  | .quotes | .param _ _ => none

/-- The characters of a word with their quotation. -/
def charsOf (w : Word) : Field := w.filterMap fun
  | .char q c => some (q, c)
  | .quotes | .param _ _ => none

/-- A word without a parameter, a tilde in front or a pattern. -/
structure Inert (w : Word) : Prop where
  ne_nil : w ≠ []
  literal : ∀ p ∈ w, p.Literal
  tilde : w.head? ≠ some (.char false '~')
  pattern : isPattern (charsOf w) = false

instance : DecidablePred Inert := fun w =>
  decidable_of_iff (w ≠ [] ∧ (∀ p ∈ w, p.Literal) ∧ w.head? ≠ some (.char false '~') ∧
    isPattern (charsOf w) = false) ⟨fun ⟨h₁, h₂, h₃, h₄⟩ => ⟨h₁, h₂, h₃, h₄⟩,
      fun ⟨h₁, h₂, h₃, h₄⟩ => ⟨h₁, h₂, h₃, h₄⟩⟩

variable {env : Env} {w : Word} {f : Fields}

theorem charsOf_snd (w : Word) : (charsOf w).map (·.2) = textOf w := by
  rw [charsOf, textOf, List.map_filterMap]
  refine List.filterMap_congr fun p _ => ?_
  cases p <;> rfl

/-- A word without parameters goes to one field. -/
theorem foldl_literal (h : ∀ p ∈ w, p.Literal) (hne : w ≠ []) (f : Fields) :
    w.foldl (Fields.part env) f = ⟨f.done, some (f.last.getD [] ++ charsOf w), false⟩ := by
  induction w generalizing f with
  | nil => exact absurd rfl hne
  | cons p w ih =>
    rw [List.forall_mem_cons] at h
    rw [List.foldl_cons]
    by_cases hw : w = []
    · subst hw
      cases p with
      | char q c => rfl
      | quotes => simp [Fields.part, Fields.touch, charsOf]
      | param q p => exact h.1.elim
    · rw [ih h.2 hw]
      cases p with
      | char q c => simp [Fields.part, Fields.add, charsOf]
      | quotes => simp [Fields.part, Fields.touch, charsOf]
      | param q p => exact h.1.elim

/-- **An inert word is its text**, in every environment. -/
theorem expand_of_inert (h : Inert w) : expand env w = some [textOf w] := by
  have hfields : fields env w = [charsOf w] := by
    rw [fields, foldl_literal h.literal h.ne_nil]
    rfl
  rw [expand, if_neg h.tilde, hfields, List.flatMap_singleton, glob, h.pattern,
    Bool.false_and, if_neg (by decide), charsOf_snd]

/-- A word of inert parts is inert. -/
theorem inert_of_parts (h : ∀ p ∈ w, p.Inert) (hne : w ≠ []) : Inert w := by
  have hchar : ∀ {q : Bool} {c : Char}, (q, c) ∈ charsOf w → Part.char q c ∈ w := by
    intro q c hmem
    obtain ⟨p, hp, heq⟩ := List.mem_filterMap.mp hmem
    cases p <;> cases heq
    exact hp
  refine ⟨hne, fun p hp => ?_, fun hhead => (h _ (List.mem_of_head? hhead)).2.2.2 rfl, ?_⟩
  · have hinert := h p hp
    cases p with
    | char q c => trivial
    | quotes => trivial
    | param q p => exact hinert.elim
  · have hbracket : (charsOf w).dropWhile (fun qc => qc != (false, '[')) = [] := by
      rw [List.dropWhile_eq_nil_iff]
      rintro ⟨q, c⟩ hmem
      rw [bne_iff_ne]
      intro heq
      cases heq
      exact (h _ (hchar hmem)).2.2.1 rfl
    rw [isPattern, hbracket, List.contains_nil, Bool.or_false, List.any_eq_false]
    rintro ⟨q, c⟩ hmem
    cases q with
    | true => simp
    | false =>
      obtain ⟨hstar, hquestion, -⟩ := h _ (hchar hmem)
      simp [hstar, hquestion]

/-! ### What a word can become -/

/-- How often a character can come from a part. -/
def Part.count (env : Env) (c : Char) : Part → Nat
  | .char _ d => if d = c then 1 else 0
  | .param _ p => (env.value p).count c
  | .quotes => 0

/-- How often a character is in the fields. -/
def Fields.count (c : Char) (f : Fields) : Nat := (f.all.flatten.map (·.2)).count c

theorem count_add (c : Char) (f : Fields) (qc : Bool × Char) :
    (f.add qc).count c = f.count c + if qc.2 = c then 1 else 0 := by
  cases hlast : f.last <;>
    simp [Fields.count, Fields.all, Fields.add, hlast, List.count_cons, Nat.add_assoc]

theorem count_split_le (c : Char) (ifs : Str) (f : Fields) (d : Char) :
    (f.split ifs d).count c ≤ f.count c + if d = c then 1 else 0 := by
  unfold Fields.split
  split
  · exact (count_add c f (false, d)).le
  · -- a separator only ends a field
    refine le_trans (le_of_eq ?_) (Nat.le_add_right _ _)
    cases hlast : f.last with
    | some field => dsimp only; split <;> simp [Fields.count, Fields.all, hlast]
    | none =>
      dsimp only
      split
      · rfl
      · split <;> simp [Fields.count, Fields.all, hlast]

theorem count_part_le (c : Char) (f : Fields) (p : Part) :
    (f.part env p).count c ≤ f.count c + p.count env c := by
  have hfold : ∀ {g : Fields → Char → Fields},
      (∀ f d, (g f d).count c ≤ f.count c + if d = c then 1 else 0) → ∀ (v : Str) (f : Fields),
        (v.foldl g f).count c ≤ f.count c + v.count c := by
    intro g hg v
    induction v with
    | nil => exact fun f => le_rfl
    | cons d v ih =>
      intro f
      have hstep := hg f d
      have hrest := ih (g f d)
      rw [List.foldl_cons, List.count_cons]
      simp only [beq_iff_eq]
      omega
  cases p with
  | char q d => exact (count_add c f (q, d)).le
  | quotes =>
    refine le_of_eq ?_
    cases hlast : f.last <;> simp [Fields.count, Fields.all, Fields.part, Fields.touch, hlast,
      Part.count]
  | param q p =>
    cases q with
    | true => exact hfold (fun f d => (count_add c f (true, d)).le) _ f
    | false => exact hfold (count_split_le c env.ifs) _ f

/-- **No character out of nothing.** -/
theorem count_fields_le (c : Char) (w : Word) :
    ((fields env w).flatten.map (·.2)).count c ≤ (w.map (Part.count env c)).sum := by
  have hfold : ∀ (w : Word) (f : Fields),
      (w.foldl (Fields.part env) f).count c ≤ f.count c + (w.map (Part.count env c)).sum := by
    intro w
    induction w with
    | nil => exact fun f => le_rfl
    | cons p w ih =>
      intro f
      have hstep : (f.part env p).count c ≤ f.count c + p.count env c := count_part_le c f p
      have hrest := ih (f.part env p)
      rw [List.foldl_cons, List.map_cons, List.sum_cons]
      omega
  have h := hfold w .empty
  rwa [show Fields.count c .empty = 0 from rfl, Nat.zero_add] at h

end Shell

end AndroidAppliance
