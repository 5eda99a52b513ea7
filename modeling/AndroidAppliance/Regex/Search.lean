import Mathlib.Computability.Language

/-!
# Regular expressions with a group

Extended regular expressions over any alphabet, by derivatives, and the search of POSIX: the match
that begins first, of these the longest, in which each part of the expression takes as much as it
can, from left to right. An expression here is a part before the group, the group and a part after
it, and the search gives what the group took.

What a search gives is a split of the text (`matchAt_splits`) and there is a match when there is a
split (`matchAt_isSome`); where the splits agree on the group, the rules about lengths do not count
(`matchAt_of_unique`).
-/

namespace AndroidAppliance

namespace Regex

open scoped Computability

/-- An expression over the characters `α`. -/
inductive Expr (α : Type*)
  | never
  | empty
  /-- One character of a class. -/
  | one (p : α → Bool)
  | seq (r r' : Expr α)
  | alt (r r' : Expr α)
  | star (r : Expr α)

variable {α : Type*} {r r' : Expr α} {s : List α} {c : α}

namespace Expr

/-- The texts that an expression matches as a whole. -/
def lang : Expr α → Language α
  | never => 0
  | empty => 1
  | one p => {s | ∃ c, p c = true ∧ s = [c]}
  | seq r r' => r.lang * r'.lang
  | alt r r' => r.lang + r'.lang
  | star r => r.lang∗

/-- The expression matches the empty text. -/
def nullable : Expr α → Bool
  | never => false
  | empty => true
  | one _ => false
  | seq r r' => r.nullable && r'.nullable
  | alt r r' => r.nullable || r'.nullable
  | star _ => true

/-- What is left to match behind a character. -/
def deriv (c : α) : Expr α → Expr α
  | never => never
  | empty => never
  | one p => if p c then empty else never
  | seq r r' =>
    if r.nullable then alt (seq (r.deriv c) r') (r'.deriv c) else seq (r.deriv c) r'
  | alt r r' => alt (r.deriv c) (r'.deriv c)
  | star r => seq (r.deriv c) (star r)

/-- The expression matches the whole text. -/
def accepts : Expr α → List α → Bool
  | r, [] => r.nullable
  | r, c :: s => (r.deriv c).accepts s

/-- A fixed text. -/
def word [DecidableEq α] : List α → Expr α
  | [] => empty
  | c :: s => seq (one (· = c)) (word s)

/-! ### What an expression matches -/

/-- A product begins in its first factor, or passes it over. -/
theorem cons_mem_mul (l m : Language α) :
    c :: s ∈ l * m ↔ (∃ a, c :: a ∈ l ∧ ∃ b ∈ m, a ++ b = s) ∨ ([] ∈ l ∧ c :: s ∈ m) := by
  rw [Language.mem_mul]
  constructor
  · rintro ⟨a, ha, b, hb, hab⟩
    cases a with
    | nil =>
      rw [List.nil_append] at hab
      exact .inr ⟨ha, hab ▸ hb⟩
    | cons d a =>
      rw [List.cons_append, List.cons.injEq] at hab
      obtain ⟨rfl, hab⟩ := hab
      exact .inl ⟨a, ha, b, hb, hab⟩
  · rintro (⟨a, ha, b, hb, rfl⟩ | ⟨hnil, hs⟩)
    · exact ⟨c :: a, ha, b, hb, rfl⟩
    · exact ⟨[], hnil, c :: s, hs, rfl⟩

/-- A round of a star that is not empty takes the first character. -/
theorem cons_mem_kstar (l : Language α) :
    c :: s ∈ l∗ ↔ ∃ a, c :: a ∈ l ∧ ∃ b ∈ l∗, a ++ b = s := by
  constructor
  · intro h
    obtain ⟨rounds, hs, hrounds⟩ := Language.mem_kstar_iff_exists_nonempty.mp h
    cases rounds with
    | nil => cases hs
    | cons first rounds =>
      rw [List.forall_mem_cons] at hrounds
      obtain ⟨⟨hfirst, hne⟩, hrest⟩ := hrounds
      cases first with
      | nil => exact absurd rfl hne
      | cons d a =>
        rw [List.flatten_cons, List.cons_append, List.cons.injEq] at hs
        obtain ⟨rfl, hs⟩ := hs
        exact ⟨a, hfirst, rounds.flatten, Language.join_mem_kstar fun y hy => (hrest y hy).1,
          hs.symm⟩
  · rintro ⟨a, ha, b, hb, rfl⟩
    obtain ⟨rounds, rfl, hrounds⟩ := Language.mem_kstar.mp hb
    exact Language.join_mem_kstar (L := (c :: a) :: rounds) (List.forall_mem_cons.mpr ⟨ha, hrounds⟩)

/-- One character of a class. -/
theorem mem_one (p : α → Bool) (s : List α) :
    s ∈ (one p).lang ↔ ∃ c, p c = true ∧ s = [c] := Iff.rfl

/-- One expression behind the other. -/
theorem mem_seq (r r' : Expr α) (s : List α) :
    s ∈ (seq r r').lang ↔ ∃ a ∈ r.lang, ∃ b ∈ r'.lang, a ++ b = s := Iff.rfl

/-- One expression or the other. -/
theorem mem_alt (r r' : Expr α) (s : List α) :
    s ∈ (alt r r').lang ↔ s ∈ r.lang ∨ s ∈ r'.lang := Iff.rfl

/-- Whether the empty text is matched. -/
theorem nullable_iff (r : Expr α) : r.nullable = true ↔ [] ∈ r.lang := by
  induction r with
  | never => simp [nullable, lang, Language.notMem_zero]
  | empty => simp [nullable, lang]
  | one p => simp [nullable, mem_one]
  | seq r r' ih ih' => simp [nullable, lang, ih, ih', Language.mem_mul]
  | alt r r' ih ih' => rw [nullable, Bool.or_eq_true, ih, ih', mem_alt]
  | star r => simp [nullable, lang, Language.nil_mem_kstar]

/-- What is matched behind a character. -/
theorem mem_deriv (r : Expr α) (c : α) (s : List α) :
    s ∈ (r.deriv c).lang ↔ c :: s ∈ r.lang := by
  induction r generalizing s with
  | never => exact ⟨fun h => h.elim, fun h => h.elim⟩
  | empty =>
    refine ⟨fun h => h.elim, fun h => ?_⟩
    rw [lang, Language.mem_one] at h
    cases h
  | one p =>
    rw [mem_one, deriv]
    split
    · rename_i hp
      rw [lang, Language.mem_one]
      exact ⟨fun h => ⟨c, hp, by rw [h]⟩, fun ⟨d, _, h⟩ => (List.cons.inj h).2⟩
    · rename_i hp
      refine ⟨fun h => h.elim, ?_⟩
      rintro ⟨d, hd, h⟩
      rw [(List.cons.inj h).1] at hp
      exact absurd hd hp
  | seq r r' ih ih' =>
    -- the first part takes the character, or is empty and the second one does
    have hfirst : s ∈ (seq (r.deriv c) r').lang ↔
        ∃ a, c :: a ∈ r.lang ∧ ∃ b ∈ r'.lang, a ++ b = s := by
      simp only [mem_seq, ih]
    have hcons : c :: s ∈ (seq r r').lang ↔
        s ∈ (seq (r.deriv c) r').lang ∨ (r.nullable = true ∧ c :: s ∈ r'.lang) := by
      rw [hfirst, nullable_iff]
      exact cons_mem_mul r.lang r'.lang
    rw [hcons, deriv]
    split
    · rename_i hnull
      simp [mem_alt, ih', hnull]
    · rename_i hnull
      simp [hnull]
  | alt r r' ih ih' => rw [deriv, mem_alt, ih, ih', mem_alt]
  | star r ih =>
    rw [lang, cons_mem_kstar, deriv, mem_seq]
    simp only [ih]
    exact Iff.rfl

/-- Whether a text is matched. -/
theorem accepts_iff (r : Expr α) (s : List α) : r.accepts s = true ↔ s ∈ r.lang := by
  induction s generalizing r with
  | nil => exact nullable_iff r
  | cons c s ih => exact (ih (r.deriv c)).trans (mem_deriv r c s)

/-- A word. -/
theorem mem_word [DecidableEq α] (w s : List α) : s ∈ (word w).lang ↔ s = w := by
  induction w generalizing s with
  | nil => rfl
  | cons c w ih =>
    simp only [word, mem_seq, mem_one, ih, decide_eq_true_eq]
    constructor
    · rintro ⟨a, ⟨d, rfl, rfl⟩, b, rfl, rfl⟩
      rfl
    · rintro rfl
      exact ⟨[c], ⟨c, rfl, rfl⟩, w, rfl, rfl⟩

/-- What an empty text has and every round keeps, all of a star has. -/
theorem star_induction {P : List α → Prop} (hnil : P [])
    (hround : ∀ a ∈ r.lang, ∀ b, P b → P (a ++ b)) (h : s ∈ (star r).lang) : P s := by
  rw [lang, Language.mem_kstar] at h
  obtain ⟨rounds, rfl, hrounds⟩ := h
  induction rounds with
  | nil => exact hnil
  | cons a rounds ih =>
    rw [List.forall_mem_cons] at hrounds
    exact hround a hrounds.1 _ (ih hrounds.2)

/-- One match more. -/
theorem append_mem_star {a b : List α} (ha : a ∈ r.lang) (hb : b ∈ (star r).lang) :
    a ++ b ∈ (star r).lang := by
  obtain ⟨rounds, rfl, hrounds⟩ := Language.mem_kstar.mp hb
  exact Language.join_mem_kstar (L := a :: rounds) (List.forall_mem_cons.mpr ⟨ha, hrounds⟩)

/-- Characters of a class, as many as there are. -/
theorem mem_star_one {p : α → Bool} (h : s ∈ (star (one p)).lang) : ∀ c ∈ s, p c = true := by
  refine star_induction (P := fun s => ∀ c ∈ s, p c = true) ?_ ?_ h
  · exact fun c hc => absurd hc List.not_mem_nil
  · rintro a ⟨d, hd, rfl⟩ b ih
    exact List.forall_mem_cons.mpr ⟨hd, ih⟩

end Expr

/-! ### The search -/

/-- The longest beginning of a text that has a property. -/
def longest (p : List α → Bool) (s : List α) : Option (List α) := s.inits.reverse.find? p

/-- An expression with a group in it. -/
structure Grouped (α : Type*) where
  before : Expr α
  group : Expr α
  after : Expr α

namespace Grouped

variable {g : Grouped α} {a b rest : List α}

/-- What the group takes when the expression begins where the text does: the match is as long as
it can be, then the part before the group, then the group. -/
def matchAt (g : Grouped α) (s : List α) : Option (List α) := do
  let m ← longest (Expr.seq g.before (.seq g.group g.after)).accepts s
  let a ← longest (fun a => g.before.accepts a &&
    (Expr.seq g.group g.after).accepts (m.drop a.length)) m
  longest (fun b => g.group.accepts b && g.after.accepts ((m.drop a.length).drop b.length))
    (m.drop a.length)

/-- What the group takes in the first match. -/
def search (g : Grouped α) : List α → Option (List α)
  | [] => g.matchAt []
  | c :: s => (g.matchAt (c :: s)).or (g.search s)

/-- A way to match a beginning of a text. -/
structure Splits (g : Grouped α) (s a b : List α) : Prop where
  before : a ∈ g.before.lang
  group : b ∈ g.group.lang
  after : ∃ c ∈ g.after.lang, ∃ rest, s = a ++ (b ++ (c ++ rest))

end Grouped

/-- The longest prefix has the property. -/
theorem longest_spec {p : List α → Bool} {m : List α} (h : longest p s = some m) :
    p m = true ∧ m <+: s := by
  rw [longest] at h
  exact ⟨List.find?_some h, by simpa using List.mem_of_find?_eq_some h⟩

/-- There is one when a prefix has it. -/
theorem longest_isSome {p : List α → Bool} {m : List α} (hm : p m = true) (hs : m <+: s) :
    (longest p s).isSome = true := by
  rw [longest, List.find?_isSome]
  exact ⟨m, by simpa using hs, hm⟩

namespace Grouped

variable {g : Grouped α} {a b rest : List α}

/-- What is found is a match. -/
theorem matchAt_splits (h : g.matchAt s = some b) : ∃ a, g.Splits s a b := by
  simp only [matchAt, Option.bind_eq_bind, Option.bind_eq_some_iff] at h
  obtain ⟨m, hm, a, ha, hb⟩ := h
  obtain ⟨hma, hms⟩ := longest_spec hm
  obtain ⟨hab, ham⟩ := longest_spec ha
  obtain ⟨hbc, hbm⟩ := longest_spec hb
  rw [Bool.and_eq_true, Expr.accepts_iff, Expr.accepts_iff] at hab hbc
  obtain ⟨rest, rfl⟩ := hms
  obtain ⟨u, rfl⟩ := ham
  rw [List.drop_left] at hbm hbc
  obtain ⟨c, rfl⟩ := hbm
  rw [List.drop_left] at hbc
  exact ⟨a, hab.1, hbc.1, c, hbc.2, rest, by simp⟩

/-- A match is found. -/
theorem matchAt_isSome (h : g.Splits s a b) : (g.matchAt s).isSome = true := by
  obtain ⟨ha, hb, c, hc, rest, rfl⟩ := h
  -- every part can be matched, so each of the three longest ones exists
  have hwhole : (Expr.seq g.before (.seq g.group g.after)).accepts (a ++ (b ++ c)) = true :=
    (Expr.accepts_iff _ _).mpr ⟨a, ha, b ++ c, ⟨b, hb, c, hc, rfl⟩, rfl⟩
  obtain ⟨m, hm⟩ := Option.isSome_iff_exists.mp
    (longest_isSome hwhole (s := a ++ (b ++ (c ++ rest))) ⟨rest, by simp⟩)
  obtain ⟨a', ha', u, hu, rfl⟩ := (Expr.accepts_iff _ _).mp (longest_spec hm).1
  have hfirst : (g.before.accepts a' &&
      (Expr.seq g.group g.after).accepts ((a' ++ u).drop a'.length)) = true := by
    rw [Bool.and_eq_true, Expr.accepts_iff, Expr.accepts_iff, List.drop_left]
    exact ⟨ha', hu⟩
  obtain ⟨x, hx⟩ := Option.isSome_iff_exists.mp
    (longest_isSome (p := fun a => g.before.accepts a &&
      (Expr.seq g.group g.after).accepts ((a' ++ u).drop a.length)) hfirst ⟨u, rfl⟩)
  have hrest := (longest_spec hx).1
  rw [Bool.and_eq_true, Expr.accepts_iff, Expr.accepts_iff] at hrest
  obtain ⟨-, b', hb', c', hc', heq⟩ := hrest
  have hgroup : (g.group.accepts b' &&
      g.after.accepts (((a' ++ u).drop x.length).drop b'.length)) = true := by
    rw [Bool.and_eq_true, Expr.accepts_iff, Expr.accepts_iff, ← heq, List.drop_left]
    exact ⟨hb', hc'⟩
  have hlast := longest_isSome (p := fun b => g.group.accepts b &&
    g.after.accepts (((a' ++ u).drop x.length).drop b.length)) hgroup ⟨c', heq⟩
  simpa [matchAt, hm, hx] using hlast

/-- Nothing is found where nothing matches. -/
theorem matchAt_eq_none (h : ∀ a b, ¬g.Splits s a b) : g.matchAt s = none := by
  cases hmatch : g.matchAt s with
  | none => rfl
  | some b =>
    obtain ⟨a, hsplits⟩ := matchAt_splits hmatch
    exact absurd hsplits (h a b)

/-- Where all splits agree on the group, it is what the group takes. -/
theorem matchAt_of_unique (h : g.Splits s a b) (hunique : ∀ a' b', g.Splits s a' b' → b' = b) :
    g.matchAt s = some b := by
  obtain ⟨b', hmatch⟩ := Option.isSome_iff_exists.mp (matchAt_isSome h)
  obtain ⟨a', hsplits⟩ := matchAt_splits hmatch
  rw [hmatch, hunique a' b' hsplits]

end Grouped

end Regex

end AndroidAppliance
