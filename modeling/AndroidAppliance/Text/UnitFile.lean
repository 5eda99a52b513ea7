import AndroidAppliance.Text.Lines

/-!
# Unit files

Unit files as they are written: a `Line` is what a writer means by one line of the file, and
`meant` is what the lines say together, the assignments with their sections. Lines that are `Plain`
have nothing that would end a line, continue it or be trimmed.
-/

namespace AndroidAppliance

namespace UnitFile

/-! ### Lines as they are meant -/

/-- An assignment, with the section it stands in. -/
structure Entry where
  part : Str
  key : Str
  value : Str
  deriving DecidableEq, Repr

/-- The white space of the format. -/
def isBlank (c : Char) : Bool := c = ' ' || c = '\t' || c = '\n' || c = '\r'

/-- A line of a unit. -/
inductive Line
  | comment (text : Str)
  | blank
  | header (name : Str)
  | assign (key value : Str)
  deriving DecidableEq, Repr

/-- A line as it is written. -/
def Line.text : Line → Str
  | .comment text => '#' :: text
  | .blank => []
  | .header name => '[' :: (name ++ [']'])
  | .assign key value => key ++ '=' :: value

/-- Nothing that ends the line, continues it or is trimmed. -/
structure Plain (s : Str) : Prop where
  newline : '\n' ∉ s
  backslash : '\\' ∉ s
  head : ∀ c, s.head? = some c → isBlank c = false
  last : ∀ c, s.getLast? = some c → isBlank c = false

/-- The key of an assignment. -/
structure Key (s : Str) : Prop extends Plain s where
  ne_nil : s ≠ []
  equals : '=' ∉ s
  bracket : s.head? ≠ some '['
  hash : s.head? ≠ some '#'
  semicolon : s.head? ≠ some ';'

/-- A line that is read as it is meant. -/
def Line.Plain : Line → Prop
  | .comment text => '\n' ∉ text
  | .blank => True
  | .header name => '\n' ∉ name ∧ '\\' ∉ name
  | .assign key value => Key key ∧ UnitFile.Plain value

/-- What the lines mean, from a section on. -/
def meant (part : Str) : List Line → List Entry
  | [] => []
  | .comment _ :: ls => meant part ls
  | .blank :: ls => meant part ls
  | .header name :: ls => meant name ls
  | .assign key value :: ls => ⟨part, key, value⟩ :: meant part ls

/-- What a line assigns to a key. -/
def Line.value (key : Str) : Line → Option Str
  | .comment _ => none
  | .blank => none
  | .header _ => none
  | .assign k value => if k = key then some value else none

/-- The rest of a text behind a prefix: `s/^PREFIX//p`. -/
def behind (before s : Str) : Option Str :=
  if before.isPrefixOf s then some (s.drop before.length) else none

/-! ### Plain text -/

variable {s t : Str} {c : Char}

/-- A text without white space and backslashes. -/
theorem Plain.of_forall (h : ∀ c ∈ s, isBlank c = false ∧ c ≠ '\\') : Plain s where
  newline hmem := absurd (h _ hmem).1 (by decide)
  backslash hmem := (h _ hmem).2 rfl
  head c hc := (h c (List.mem_of_head? hc)).1
  last c hc := (h c (List.mem_of_getLast? hc)).1

/-- Plain texts with a plain text between them. -/
theorem Plain.append (hs : Plain s) (ht : Plain t) : Plain (s ++ t) where
  newline := by simpa using ⟨hs.newline, ht.newline⟩
  backslash := by simpa using ⟨hs.backslash, ht.backslash⟩
  head c hc := by
    rcases List.eq_nil_or_concat s with rfl | ⟨_, _, rfl⟩
    · exact ht.head c hc
    · exact hs.head c (by simpa using hc)
  last c hc := by
    rw [List.getLast?_append] at hc
    cases htail : t.getLast? with
    | none => exact hs.last c (by simpa [htail] using hc)
    | some d => exact ht.last c (by rw [htail]; simpa [htail] using hc)

/-- Plain texts with a blank between them. -/
theorem Plain.words (hs : Plain s) (hsne : s ≠ []) (ht : Plain t) (htne : t ≠ []) :
    Plain (s ++ ' ' :: t) where
  newline := by simpa using ⟨hs.newline, ht.newline⟩
  backslash := by simpa using ⟨hs.backslash, ht.backslash⟩
  head c hc := by
    rw [List.head?_append_of_ne_nil _ hsne] at hc
    exact hs.head c hc
  last c hc := by
    rw [List.getLast?_append_of_ne_nil _ (List.cons_ne_nil _ _),
      List.getLast?_cons_of_ne_nil htne] at hc
    exact ht.last c hc

theorem Plain.intercalate {ws : List Str} (h : ∀ w ∈ ws, Plain w ∧ w ≠ []) (hne : ws ≠ []) :
    Plain ([' '].intercalate ws) ∧ [' '].intercalate ws ≠ [] := by
  induction ws with
  | nil => exact absurd rfl hne
  | cons w ws ih =>
    rw [List.forall_mem_cons] at h
    cases ws with
    | nil =>
      rw [List.intercalate_singleton]
      exact h.1
    | cons v vs =>
      obtain ⟨hplain, hrest⟩ := ih h.2 (List.cons_ne_nil _ _)
      rw [List.intercalate_cons_cons, List.append_assoc, List.singleton_append]
      exact ⟨h.1.1.words h.1.2 hplain hrest, by simp [h.1.2]⟩

theorem all_not_isBlank {o : Option Char} :
    o.all (fun c => !isBlank c) = true ↔ ∀ c, o = some c → isBlank c = false := by
  simp [Option.all_eq_true]

instance : DecidablePred Plain := fun s =>
  decidable_of_iff ('\n' ∉ s ∧ '\\' ∉ s ∧ s.head?.all (fun c => !isBlank c) = true ∧
    s.getLast?.all (fun c => !isBlank c) = true)
    ⟨fun h => ⟨h.1, h.2.1, all_not_isBlank.mp h.2.2.1, all_not_isBlank.mp h.2.2.2⟩,
      fun h => ⟨h.newline, h.backslash, all_not_isBlank.mpr h.head, all_not_isBlank.mpr h.last⟩⟩

instance : DecidablePred Key := fun s =>
  decidable_of_iff (Plain s ∧ s ≠ [] ∧ '=' ∉ s ∧ s.head? ≠ some '[' ∧ s.head? ≠ some '#' ∧
    s.head? ≠ some ';') ⟨fun h => ⟨h.1, h.2.1, h.2.2.1, h.2.2.2.1, h.2.2.2.2.1, h.2.2.2.2.2⟩,
      fun h => ⟨h.toPlain, h.ne_nil, h.equals, h.bracket, h.hash, h.semicolon⟩⟩

instance : DecidablePred Line.Plain
  | .comment text => inferInstanceAs (Decidable ('\n' ∉ text))
  | .blank => .isTrue trivial
  | .header name => inferInstanceAs (Decidable ('\n' ∉ name ∧ '\\' ∉ name))
  | .assign key value => inferInstanceAs (Decidable (Key key ∧ Plain value))

/-! ### Lines of a text -/

theorem newline_notMem_text {l : Line} (h : l.Plain) : '\n' ∉ l.text := by
  cases l with
  | comment text => simpa [Line.text, Line.Plain] using h
  | blank => exact List.not_mem_nil
  | header name => simpa [Line.text] using h.1
  | assign key value => simpa [Line.text] using ⟨h.1.newline, h.2.newline⟩

/-- A line is found by its key as an assignment is by its text. -/
theorem behind_text {l : Line} (h : l.Plain) {key : Str} (hfree : '=' ∉ key)
    (hhead : ∃ c s, key = c :: s ∧ c ≠ '#' ∧ c ≠ '[') :
    behind (key ++ ['=']) l.text = l.value key := by
  obtain ⟨c, s, rfl, hhash, hbracket⟩ := hhead
  cases l with
  | comment text => simp [behind, Line.text, Line.value, hhash]
  | blank => simp [behind, Line.text, Line.value]
  | header name => simp [behind, Line.text, Line.value, hbracket]
  | assign k value =>
    have hk := h.1.equals
    rw [Line.value, behind, Line.text]
    split
    · rename_i hbefore
      obtain ⟨rest, hrest⟩ := List.isPrefixOf_iff_prefix.mp hbefore
      rw [List.append_assoc, List.singleton_append] at hrest
      obtain ⟨rfl, rfl⟩ := Str.append_sep_inj hfree hk hrest
      rw [if_pos rfl, List.append_cons (c :: s) '=' rest, List.drop_left]
    · rename_i hbefore
      rw [if_neg]
      rintro rfl
      refine hbefore (List.isPrefixOf_iff_prefix.mpr ⟨value, ?_⟩)
      rw [List.append_assoc, List.singleton_append]

/-- The lines of what is written. -/
theorem lines_text {ls : List Line} (h : ∀ l ∈ ls, l.Plain) :
    Str.lines Str.isNewline (Str.unlines (ls.map Line.text)) = ls.map Line.text := by
  refine Str.lines_unlines rfl fun s hs c hc => ?_
  obtain ⟨l, hl, rfl⟩ := List.mem_map.mp hs
  have hne : c ≠ '\n' := fun heq => newline_notMem_text (h l hl) (heq ▸ hc)
  simpa [Str.isNewline] using hne

/-! ### Meaning piece by piece -/

/-- The section behind lines. -/
def partAfter (part : Str) : List Line → Str
  | [] => part
  | .header name :: ls => partAfter name ls
  | .comment _ :: ls => partAfter part ls
  | .blank :: ls => partAfter part ls
  | .assign _ _ :: ls => partAfter part ls

theorem meant_append (part : Str) (ls ls' : List Line) :
    meant part (ls ++ ls') = meant part ls ++ meant (partAfter part ls) ls' := by
  induction ls generalizing part with
  | nil => rfl
  | cons l ls ih =>
    cases l with
    | comment text => exact ih part
    | blank => exact ih part
    | header name => exact ih name
    | assign key value => exact congrArg (_ :: ·) (ih part)

theorem partAfter_append (part : Str) (ls ls' : List Line) :
    partAfter part (ls ++ ls') = partAfter (partAfter part ls) ls' := by
  induction ls generalizing part with
  | nil => rfl
  | cons l ls ih =>
    cases l with
    | comment text => exact ih part
    | blank => exact ih part
    | header name => exact ih name
    | assign key value => exact ih part

/-- Assignments stay in their section. -/
theorem meant_assigns (part key : Str) (vs : List Str) :
    meant part (vs.map (.assign key)) = vs.map (⟨part, key, ·⟩) ∧
      partAfter part (vs.map (.assign key)) = part := by
  induction vs with
  | nil => exact ⟨rfl, rfl⟩
  | cons v vs ih => exact ⟨congrArg (_ :: ·) ih.1, ih.2⟩

end UnitFile

end AndroidAppliance
