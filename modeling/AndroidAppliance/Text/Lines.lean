import AndroidAppliance.Text.Str
import Mathlib.Data.List.TakeWhile

/-!
# Lines

A text is cut at the separators of a predicate: the shell ends a line at a newline only, Python's
`str.splitlines` at several more characters, with `\r\n` as one of them. `lines` gives the last
line also when nothing ends it, `terminated` does not.

`lines_append` and `terminated_append` are the two rules: the first line is what stands before
the first separator, and what comes behind is cut on its own.
-/

namespace AndroidAppliance

namespace Str

variable {sep : Char → Bool} {l s : Str} {ls : List Str} {c : Char}

/-- The lines that a separator ends. -/
def terminated (sep : Char → Bool) (s : Str) : List Str := (s.splitOnP sep).dropLast

/-- The lines, and what is left behind the last separator. -/
def lines (sep : Char → Bool) (s : Str) : List Str :=
  if (s.splitOnP sep).getLast? = some [] then (s.splitOnP sep).dropLast else s.splitOnP sep

/-- What ends a line for the shell. -/
def isNewline (c : Char) : Bool := c = '\n'

/-- Each line with a newline. -/
def unlines (ls : List Str) : Str := ls.flatMap fun l => l ++ ['\n']

/-- `s.replace("\r\n", "\n")`. -/
def crlf : Str → Str
  | [] => []
  | '\r' :: '\n' :: s => '\n' :: crlf s
  | c :: s => c :: crlf s

/-- What ends a line for `str.splitlines`, besides `\r\n`. -/
def isLineBreak (c : Char) : Bool :=
  (0x0A ≤ c.toNat && c.toNat ≤ 0x0D) || (0x1C ≤ c.toNat && c.toNat ≤ 0x1E) || c.toNat = 0x85 ||
    c.toNat = 0x2028 || c.toNat = 0x2029

/-- `s.splitlines()`. -/
def splitlines (s : Str) : List Str := lines isLineBreak (crlf s)

/-- How a text file is read: `\r\n` and `\r` are newlines. -/
def universal (s : Str) : Str := (crlf s).map fun c => if c = '\r' then '\n' else c

/-! ### Cutting -/

@[simp]
theorem terminated_nil : terminated sep [] = [] := rfl

@[simp]
theorem lines_nil : lines sep [] = [] := rfl

theorem terminated_append (h : ∀ c ∈ l, sep c = false) (hc : sep c = true) (s : Str) :
    terminated sep (l ++ c :: s) = l :: terminated sep s := by
  unfold terminated
  rw [List.splitOnP_append_cons_of_forall_mem h c hc,
    List.dropLast_cons_of_ne_nil (List.splitOnP_ne_nil sep s)]

theorem lines_append (h : ∀ c ∈ l, sep c = false) (hc : sep c = true) (s : Str) :
    lines sep (l ++ c :: s) = l :: lines sep s := by
  have hne := List.splitOnP_ne_nil sep s
  unfold lines
  rw [List.splitOnP_append_cons_of_forall_mem h c hc, List.dropLast_cons_of_ne_nil hne,
    List.getLast?_cons_of_ne_nil hne]
  split <;> rfl

/-- A text without a separator is one line. -/
theorem lines_of_free (h : ∀ c ∈ l, sep c = false) (hne : l ≠ []) : lines sep l = [l] := by
  unfold lines
  rw [List.splitOnP_eq_singleton h, if_neg]
  simpa using hne

/-- Every text has one of three forms: empty, one line that nothing ends, or a line with its end
and the rest. -/
theorem lines_induction (sep : Char → Bool) {P : Str → Prop} (nil : P [])
    (open_line : ∀ l, (∀ c ∈ l, sep c = false) → l ≠ [] → P l)
    (line : ∀ l c s, (∀ c ∈ l, sep c = false) → sep c = true → P s → P (l ++ c :: s))
    (s : Str) : P s := by
  -- on the length: the rest behind the first separator is shorter
  induction hn : s.length using Nat.strongRecOn generalizing s with
  | ind n ih =>
    have hfree : ∀ c ∈ s.takeWhile (fun c => !sep c), sep c = false := by
      intro c hc
      simpa using List.mem_takeWhile_imp hc
    have happ := List.takeWhile_append_dropWhile (p := fun c => !sep c) (l := s)
    cases hrest : s.dropWhile (fun c => !sep c) with
    | nil =>
      rw [hrest, List.append_nil] at happ
      rw [happ] at hfree
      by_cases hs : s = []
      · rw [hs]
        exact nil
      · exact open_line s hfree hs
    | cons c rest =>
      rw [hrest] at happ
      have hc : sep c = true := by
        have hhead := List.head?_dropWhile_not (fun c => !sep c) s
        rw [hrest] at hhead
        simpa using hhead
      have hlt : rest.length < n := by
        have hlen := congrArg List.length happ
        rw [List.length_append, List.length_cons] at hlen
        omega
      rw [← happ]
      exact line _ c rest hfree hc (ih rest.length hlt rest rfl)

/-- No line holds a separator. -/
theorem lines_free (h : l ∈ lines sep s) : ∀ c ∈ l, sep c = false := by
  induction s using lines_induction sep with
  | nil => cases h
  | open_line l' hfree hne =>
    rw [lines_of_free hfree hne, List.mem_singleton] at h
    rwa [h]
  | line l' c s hfree hc ih =>
    rw [lines_append hfree hc, List.mem_cons] at h
    rcases h with rfl | h
    · exact hfree
    · exact ih h

/-! ### Lines behind one another -/

/-- A line with its end, and the rest, are cut on their own. -/
theorem lines_append_end (hc : sep c = true) (a b : Str) :
    lines sep (a ++ c :: b) = lines sep (a ++ [c]) ++ lines sep b := by
  induction a using lines_induction sep with
  | nil =>
    have hnone : ∀ c ∈ ([] : Str), sep c = false := fun _ h => by cases h
    rw [lines_append hnone hc, lines_append hnone hc, lines_nil, List.cons_append, List.nil_append]
  | open_line l hfree hne =>
    rw [lines_append hfree hc, lines_append hfree hc, lines_nil, List.cons_append, List.nil_append]
  | line l c' s hfree hc' ih =>
    rw [List.append_assoc, List.append_assoc, List.cons_append, List.cons_append,
      lines_append hfree hc', lines_append hfree hc', ih, List.cons_append]

/-- The first line grows by what is put before it. -/
theorem lines_prepend (h : ∀ c ∈ l, sep c = false) {a b : Str} (ha : ∀ c ∈ a, sep c = false)
    (hc : sep c = true) : lines sep (l ++ (a ++ c :: b)) =
      (lines sep (a ++ c :: b)).modifyHead (l ++ ·) := by
  have hfree : ∀ c ∈ l ++ a, sep c = false := by
    intro c hc
    rcases List.mem_append.mp hc with hc | hc
    · exact h c hc
    · exact ha c hc
  rw [← List.append_assoc, lines_append hfree hc, lines_append ha hc]
  rfl

/-- A text that holds a separator is a line, its end and the rest. -/
theorem exists_cut (h : ∃ c ∈ s, sep c = true) :
    ∃ a c b, s = a ++ c :: b ∧ (∀ c ∈ a, sep c = false) ∧ sep c = true := by
  induction s using lines_induction sep with
  | nil =>
    obtain ⟨c, hc, -⟩ := h
    cases hc
  | open_line l hfree _ =>
    obtain ⟨c, hc, hsep⟩ := h
    rw [hfree c hc] at hsep
    cases hsep
  | line l c b hfree hc _ => exact ⟨l, c, b, rfl, hfree, hc⟩

/-! ### `\r\n` -/

/-- A character that is not the first of the pair stays. -/
theorem crlf_cons (h : c = '\r' → s.head? ≠ some '\n') : crlf (c :: s) = c :: crlf s := by
  rw [crlf]
  rintro s' hc rfl
  exact h hc rfl

theorem crlf_append_of_not_mem (h : '\r' ∉ l) (s : Str) : crlf (l ++ s) = l ++ crlf s := by
  induction l with
  | nil => rfl
  | cons c l ih =>
    rw [List.mem_cons, not_or] at h
    rw [List.cons_append, crlf_cons fun hc => absurd hc.symm h.1, ih h.2, List.cons_append]

/-- What is put behind a text does not pair with a character before its last. -/
theorem crlf_cons_append {c : Char} {s t : Str} (hpair : ∀ s', c = '\r' → s = '\n' :: s' → False)
    (hr : ¬(c = '\r' ∧ s = [])) : crlf (c :: (s ++ t)) = c :: crlf (s ++ t) := by
  refine crlf_cons fun hc => ?_
  cases s with
  | nil => exact absurd ⟨hc, rfl⟩ hr
  | cons d s =>
    rw [List.cons_append, List.head?_cons]
    exact fun hd => hpair s hc (by rw [Option.some.inj hd])

/-- Nothing that ends before a newline reaches behind it. -/
theorem crlf_append_newline (a b : Str) : crlf (a ++ '\n' :: b) = crlf (a ++ ['\n']) ++ crlf b := by
  fun_induction crlf a with
  | case1 =>
    have hn : ∀ s : Str, crlf ('\n' :: s) = '\n' :: crlf s :=
      fun s => crlf_cons fun h => absurd h (by decide)
    rw [List.nil_append, List.nil_append, hn, hn]
    rfl
  | case2 s ih => simp only [List.cons_append, crlf, ih]
  | case3 c s hpair ih =>
    by_cases hr : c = '\r' ∧ s = []
    · -- the last character before the newline is the first of the pair
      obtain ⟨rfl, rfl⟩ := hr
      rfl
    · rw [List.cons_append, List.cons_append, crlf_cons_append hpair hr,
        crlf_cons_append hpair hr, ih]
      rfl

/-- A newline behind a text is new, or makes one of the `\r` at its end. -/
theorem crlf_append_singleton (a : Str) : crlf (a ++ ['\n']) = crlf a ++ ['\n'] ∨
    ∃ b, crlf a = b ++ ['\r'] ∧ crlf (a ++ ['\n']) = b ++ ['\n'] := by
  fun_induction crlf a with
  | case1 => exact .inl rfl
  | case2 s ih =>
    obtain ih | ⟨b, hb, hbn⟩ := ih
    · exact .inl (by simp only [List.cons_append, crlf, ih])
    · exact .inr ⟨'\n' :: b, by simp [hb], by simp only [List.cons_append, crlf, hbn]⟩
  | case3 c s hpair ih =>
    by_cases hr : c = '\r' ∧ s = []
    · obtain ⟨rfl, rfl⟩ := hr
      exact .inr ⟨[], rfl, rfl⟩
    · rw [List.cons_append, crlf_cons_append hpair hr]
      obtain ih | ⟨b, hb, hbn⟩ := ih
      · exact .inl (by rw [ih, List.cons_append])
      · exact .inr ⟨c :: b, by rw [hb, List.cons_append], by rw [hbn, List.cons_append]⟩

/-- The newline stays the last character. -/
theorem crlf_newline (a : Str) : ∃ b, crlf (a ++ ['\n']) = b ++ ['\n'] := by
  obtain h | ⟨b, -, h⟩ := crlf_append_singleton a
  · exact ⟨crlf a, h⟩
  · exact ⟨b, h⟩

/-- What begins with the end of a line still does. -/
theorem crlf_cons_break (h : isLineBreak c = true) (s : Str) :
    ∃ c' s', crlf (c :: s) = c' :: s' ∧ isLineBreak c' = true := by
  by_cases hpair : c = '\r' ∧ s.head? = some '\n'
  · obtain ⟨rfl, hs⟩ := hpair
    obtain ⟨s, rfl⟩ := List.head?_eq_some_iff.mp hs
    exact ⟨'\n', crlf s, rfl, by decide⟩
  · exact ⟨c, crlf s, crlf_cons fun hc hs => hpair ⟨hc, hs⟩, h⟩

theorem crlf_of_not_mem (h : '\r' ∉ s) : crlf s = s := by
  fun_induction crlf s with
  | case1 => rfl
  | case2 s ih => exact absurd List.mem_cons_self h
  | case3 c s _ ih => rw [ih fun hmem => h (List.mem_cons_of_mem _ hmem)]

/-! ### The lines of a text file -/

theorem cr_notMem_universal (s : Str) : '\r' ∉ universal s := by
  rw [universal, List.mem_map]
  rintro ⟨c, -, hc⟩
  split at hc
  · exact absurd hc (by decide)
  · rename_i hne
    exact hne hc

theorem universal_append_newline (a b : Str) :
    universal (a ++ '\n' :: b) = universal (a ++ ['\n']) ++ universal b := by
  rw [universal, crlf_append_newline, List.map_append]
  rfl

theorem universal_append_singleton (a : Str) : universal (a ++ ['\n']) = universal a ∨
    universal (a ++ ['\n']) = universal a ++ ['\n'] := by
  obtain h | ⟨b, hb, hbn⟩ := crlf_append_singleton a
  · exact .inr (by rw [universal, h, List.map_append]; rfl)
  · exact .inl (by rw [universal, hbn, universal, hb, List.map_append, List.map_append]; rfl)

/-- An end behind a text brings an empty line at most. -/
theorem findSome_lines_end {β : Type*} {f : Str → Option β} (hf : f [] = none)
    (hc : sep c = true) (s : Str) : (lines sep (s ++ [c])).findSome? f =
      (lines sep s).findSome? f := by
  induction s using lines_induction sep with
  | nil =>
    have hnone : ∀ c ∈ ([] : Str), sep c = false := fun _ h => by cases h
    rw [lines_append hnone hc, lines_nil, List.findSome?_singleton, hf]
    rfl
  | open_line l hfree hne => rw [lines_append hfree hc, lines_of_free hfree hne, lines_nil]
  | line l d s hfree hd ih =>
    rw [List.append_assoc, List.cons_append, lines_append hfree hd, lines_append hfree hd,
      List.findSome?_cons, List.findSome?_cons, ih]

/-- Python's lines are found in the lines that end with a newline, one after another. -/
theorem findSome_splitlines {β : Type*} {f : Str → Option β} (hf : f [] = none) (s : Str) :
    (splitlines (universal s)).findSome? f =
      (lines isNewline s).findSome? fun l => (splitlines (universal l)).findSome? f := by
  have hsplit : ∀ s, splitlines (universal s) = lines isLineBreak (universal s) := by
    intro s
    rw [splitlines, crlf_of_not_mem (cr_notMem_universal s)]
  simp only [hsplit]
  induction s using lines_induction isNewline with
  | nil => rfl
  | open_line l hfree hne => rw [lines_of_free hfree hne, List.findSome?_singleton]
  | line l c s hfree hc ih =>
    have hn : c = '\n' := by simpa [isNewline] using hc
    subst hn
    have hfirst : (lines isLineBreak (universal (l ++ ['\n']))).findSome? f =
        (lines isLineBreak (universal l)).findSome? f := by
      obtain h | h := universal_append_singleton l
      · rw [h]
      · rw [h, findSome_lines_end hf (by decide)]
    obtain ⟨b, hb⟩ : ∃ b, universal (l ++ ['\n']) = b ++ ['\n'] := by
      obtain ⟨b, hb⟩ := crlf_newline l
      exact ⟨_, by rw [universal, hb, List.map_append]; rfl⟩
    rw [lines_append hfree hc, List.findSome?_cons, ← ih, ← hfirst, universal_append_newline, hb,
      List.append_assoc, List.singleton_append, lines_append_end (by decide),
      List.findSome?_append]
    cases (lines isLineBreak (b ++ ['\n'])).findSome? f <;> rfl

/-- Of the lines that a newline ends, those without another separator are Python's lines too. -/
theorem filter_lines_sublist {p : Str → Bool}
    (h : ∀ l ∈ lines isNewline s, p l = true → ∀ c ∈ l, isLineBreak c = false) :
    ((lines isNewline s).filter p).Sublist (lines isLineBreak s) := by
  induction s using lines_induction isNewline with
  | nil => exact List.Sublist.refl _
  | open_line l hfree hne =>
    rw [lines_of_free hfree hne] at h ⊢
    cases hp : p l with
    | true =>
      rw [lines_of_free (h l (List.mem_singleton_self l) hp) hne, List.filter_cons_of_pos hp,
        List.filter_nil]
    | false =>
      rw [List.filter_cons_of_neg (by simp [hp]), List.filter_nil]
      exact List.nil_sublist _
  | line l c s hfree hc ih =>
    have hn : c = '\n' := by simpa [isNewline] using hc
    subst hn
    rw [lines_append hfree hc] at h ⊢
    have hrest := ih fun l' hl' => h l' (List.mem_cons_of_mem _ hl')
    cases hp : p l with
    | true =>
      rw [lines_append (h l List.mem_cons_self hp) (by decide), List.filter_cons_of_pos hp]
      exact hrest.cons_cons l
    | false =>
      rw [lines_append_end (by decide), List.filter_cons_of_neg (by simp [hp])]
      exact hrest.trans (List.sublist_append_right _ _)

/-! ### Written lines are read again -/

theorem unlines_cons (l : Str) (ls : List Str) : unlines (l :: ls) = l ++ '\n' :: unlines ls := by
  simp [unlines]

theorem terminated_unlines (h : ∀ l ∈ ls, '\n' ∉ l) : terminated isNewline (unlines ls) = ls := by
  induction ls with
  | nil => rfl
  | cons l ls ih =>
    have hl : ∀ c ∈ l, isNewline c = false := by
      intro c hc
      have hne : c ≠ '\n' := fun heq => h l List.mem_cons_self (heq ▸ hc)
      simpa [isNewline] using hne
    rw [unlines_cons, terminated_append hl rfl, ih fun l' hl' => h l' (List.mem_cons_of_mem _ hl')]

theorem lines_unlines (hsep : sep '\n' = true) (h : ∀ l ∈ ls, ∀ c ∈ l, sep c = false) :
    lines sep (unlines ls) = ls := by
  induction ls with
  | nil => rfl
  | cons l ls ih =>
    rw [unlines_cons, lines_append (h l List.mem_cons_self) hsep,
      ih fun l' hl' => h l' (List.mem_cons_of_mem _ hl')]

theorem universal_of_not_mem (h : '\r' ∉ s) : universal s = s := by
  rw [universal, crlf_of_not_mem h]
  refine (List.map_congr_left fun c hc => if_neg fun heq => ?_).trans (List.map_id s)
  exact h (heq ▸ hc)

/-- Lines that are written with newlines are the lines of the text file. -/
theorem splitlines_unlines (h : ∀ l ∈ ls, ∀ c ∈ l, isLineBreak c = false) :
    splitlines (universal (unlines ls)) = ls := by
  have hfree : '\r' ∉ unlines ls := by
    simp only [unlines, List.mem_flatMap, List.mem_append, not_exists, not_and, not_or]
    refine fun l hl => ⟨fun hmem => ?_, by decide⟩
    have hbreak := h l hl _ hmem
    exact absurd hbreak (by decide)
  rw [universal_of_not_mem hfree, splitlines, crlf_of_not_mem hfree]
  exact lines_unlines (by decide) h

end Str

end AndroidAppliance
