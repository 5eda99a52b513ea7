import AndroidAppliance.Device.Adb
import Mathlib.Data.Char
import Mathlib.Data.List.DropRight
import Mathlib.Data.List.Infix
import Mathlib.Data.List.Lex

/-!
# The listing of a directory

`list_files` of `appliance/backend.py`.
The device prints a line for each entry, with four fields of which the path is the last; the
listing takes the text apart again.

A name can hold a character that ends a line for Python. `pieces` is what a printed line becomes;
`Survives` says when that is the entry again, and `listFiles_exact_iff` that the listing is exact
when every entry survives, and only then.
-/

namespace AndroidAppliance

namespace Device

open Str

/-! ### `appliance/backend.py` -/

/-- What Python knows of the characters and digits that are not ASCII. -/
structure Unicode where
  /-- `c.isdigit()`. -/
  isdigit : Char → Bool
  isdigit_ascii : ∀ c, c.toNat < 128 → isdigit c = c.isDigit
  /-- `int(s)`; `none` when it raises. -/
  int : Str → Option Nat
  int_ascii : ∀ s, isDigits s = true → s.length ≤ 4300 → int s = some (Str.int s)

/-- `s.isdigit()`. -/
def Unicode.digits (u : Unicode) (s : Str) : Bool := !s.isEmpty && s.all u.isdigit

/-- `FILE_TYPES.get(text, "other")`. -/
def fileTypes (text : Str) : Str :=
  if text = "directory".toList then "dir".toList
  else if text = "regular file".toList then "file".toList
  else if text = "regular empty file".toList then "file".toList
  else if text = "symbolic link".toList then "link".toList
  else "other".toList

/-- An entry of the result. -/
structure Shown where
  name : Str
  type : Str
  size : Nat
  mtime : Int
  deriving DecidableEq, Repr

/-- What `list_files` raises. -/
inductive ListError
  | notFound (message : Str)
  | badRequest (message : Str)
  /-- `int` refuses its text. -/
  | valueError
  deriving DecidableEq, Repr

/-- The text before the first `|`, and what is behind it. -/
def cut (s : Str) : Option (Str × Str) :=
  let parts := partition '|' s
  if parts.2.1.isEmpty then none else some (parts.1, parts.2.2)

/-- `line.split("|", 3)`, if it has four parts. -/
def fields (line : Str) : Option (Str × Str × Str × Str) := do
  let (a, rest) ← cut line
  let (b, rest) ← cut rest
  let (c, rest) ← cut rest
  return (a, b, c, rest)

/-- `path.rstrip("/").rsplit("/", 1)[-1]`. -/
def baseName (path : Str) : Str := splitLast '/' (path.rdropWhile (· = '/'))

/-- A line that is taken for an entry: four parts, digits in the second and the third. -/
def IsEntry (u : Unicode) (line : Str) : Prop :=
  ∃ f, fields line = some f ∧ u.digits f.2.1 = true ∧ u.digits f.2.2.1 = true

/-- One round of the loop. -/
def parseLine (u : Unicode) (line : Str) : Except ListError (List Shown) :=
  match fields line with
  | none => .ok []
  | some (type, size, mtime, path) =>
    if !u.digits size || !u.digits mtime then .ok []
    else match u.int size, u.int mtime with
      | some n, some m => .ok [⟨baseName path, fileTypes type, n, m⟩]
      | _, _ => .error .valueError

/-- The loop. -/
def parseLines (u : Unicode) : List Str → Except ListError (List Shown)
  | [] => .ok []
  | line :: rest => do
    let entry ← parseLine u line
    let entries ← parseLines u rest
    return entry ++ entries

/-- `sorted(entries, key=lambda e: e["name"])`. -/
def sortByName (entries : List Shown) : List Shown := entries.mergeSort fun a b => a.name ≤ b.name

/-- `list_files`, from what the shell command gave. -/
def listFiles (u : Unicode) (path : Str) (r : Result) : Except ListError (List Shown) :=
  if r.exitCode ≠ 0 ∧ strip r.text = [] then
    if "No such file".toList <:+: r.output then
      .error (.notFound (path ++ " does not exist".toList))
    else .error (.badRequest ("cannot list ".toList ++ path ++ ": ".toList ++ r.errorText))
  else (parseLines u (splitlines r.text)).map sortByName

/-! ### What the device prints -/

/-- An entry of a directory. Size and time are numbers of 64 bits. -/
structure Entry where
  name : Str
  /-- What `stat` says of the type. -/
  type : Str
  size : Nat
  mtime : Int
  name_ne_nil : name ≠ []
  name_plain : '/' ∉ name ∧ '\n' ∉ name ∧ Char.ofNat 0 ∉ name
  type_plain : ∀ c ∈ type, c ≠ '|' ∧ isLineBreak c = false
  size_lt : size < 18446744073709551616
  mtime_lt : mtime < 9223372036854775808

/-- A directory, under a path that `_check_path` lets pass. -/
structure Directory where
  path : Str
  entries : List Entry
  checked : checkPath path = true
  nodup : (entries.map Entry.name).Nodup

/-- `path.rstrip("/") + "/"`, the argument of `find`. -/
def findPath (path : Str) : Str := path.rdropWhile (· = '/') ++ ['/']

/-- What stands before the path in the line of an entry. -/
def Entry.head (e : Entry) : Str :=
  e.type ++ '|' :: (ofNat e.size ++ '|' :: (ofInt e.mtime ++ ['|']))

/-- `stat -c '%F|%s|%Y|%n'`. -/
def Entry.line (e : Entry) (path : Str) : Str := e.head ++ (findPath path ++ e.name)

/-- What the command prints for a directory. -/
def Directory.result (d : Directory) : Result :=
  ⟨0, unlines (d.entries.map (Entry.line · d.path)), []⟩

/-- How an entry is to be shown. -/
def Entry.shown (e : Entry) : Shown := ⟨e.name, fileTypes e.type, e.size, e.mtime⟩

/-- Exactly the entries, by name. -/
def Exact (entries : List Entry) (out : List Shown) : Prop :=
  out.Perm (entries.map Entry.shown) ∧ out.Pairwise (·.name ≤ ·.name)

/-! ### The pieces of a printed line -/

/-- What a printed line becomes. -/
def pieces (l : Str) : List Str := splitlines (crlf (l ++ ['\n']))

/-- A text without an end of a line. -/
def OneLine (s : Str) : Prop := ∀ c ∈ s, isLineBreak c = false

instance (s : Str) : Decidable (OneLine s) := List.decidableBAll _ _

variable {l a : Str} {ls : List Str} {u : Unicode}

theorem OneLine.not_mem (h : OneLine l) : '\r' ∉ l := by
  intro hmem
  exact absurd (h _ hmem) (by decide)

theorem OneLine.append (h : OneLine l) (ha : OneLine a) : OneLine (l ++ a) := by
  intro c hc
  rcases List.mem_append.mp hc with hc | hc
  · exact h c hc
  · exact ha c hc

/-- What is cut is what the newline ends, after both replacements. -/
theorem exists_pieces (l : Str) : ∃ b, crlf (crlf (l ++ ['\n'])) = b ++ ['\n'] ∧
    pieces l = lines isLineBreak (b ++ ['\n']) := by
  obtain ⟨a, ha⟩ := crlf_newline l
  obtain ⟨b, hb⟩ := crlf_newline a
  refine ⟨b, by rw [ha, hb], ?_⟩
  rw [pieces, splitlines, ha, hb]

theorem splitlines_unlines_pieces (ls : List Str) :
    splitlines (crlf (unlines ls)) = ls.flatMap pieces := by
  induction ls with
  | nil => rfl
  | cons l ls ih =>
    obtain ⟨a, ha⟩ := crlf_newline l
    obtain ⟨b, hb⟩ := crlf_newline a
    rw [List.flatMap_cons, ← ih, unlines_cons, crlf_append_newline, ha, List.append_assoc,
      List.singleton_append, splitlines, crlf_append_newline, hb, List.append_assoc,
      List.singleton_append, lines_append_end (by decide), pieces, splitlines, ha, hb]
    rfl

theorem pieces_of_oneLine (h : OneLine l) : pieces l = [l] := by
  have hcrlf : crlf (l ++ ['\n']) = l ++ ['\n'] := crlf_append_of_not_mem h.not_mem _
  rw [pieces, splitlines, hcrlf, hcrlf, lines_append h (by decide), lines_nil]

/-- The first piece grows by what is put before it. -/
theorem pieces_append (h : OneLine a) (l : Str) :
    pieces (a ++ l) = (pieces l).modifyHead (a ++ ·) := by
  obtain ⟨b, hb, hpieces⟩ := exists_pieces l
  have hall : pieces (a ++ l) = lines isLineBreak (a ++ (b ++ ['\n'])) := by
    rw [pieces, splitlines, List.append_assoc, crlf_append_of_not_mem h.not_mem,
      crlf_append_of_not_mem h.not_mem, hb]
  obtain ⟨p, c, q, hcut, hp, hc⟩ :=
    exists_cut (s := b ++ ['\n']) ⟨'\n', by simp, (by decide : isLineBreak '\n' = true)⟩
  rw [hall, hpieces, hcut, lines_prepend h hp hc]

/-- The first piece is what stands before the first end of a line. -/
theorem exists_pieces_eq (l : Str) :
    ∃ ps, pieces l = l.takeWhile (fun c => !isLineBreak c) :: ps := by
  induction l using lines_induction isLineBreak with
  | nil => exact ⟨[], rfl⟩
  | open_line l hfree _ =>
    refine ⟨[], ?_⟩
    rw [pieces_of_oneLine hfree, List.takeWhile_eq_self_iff.mpr fun c hc => by simp [hfree c hc]]
  | line l c s hfree hc _ =>
    obtain ⟨b, hb, hpieces⟩ := exists_pieces (c :: s)
    have hnone : ∀ c ∈ ([] : Str), isLineBreak c = false := fun _ h => by cases h
    -- the separator, or what the two replacements make of it
    obtain ⟨c₁, s₁, h₁, hc₁⟩ := crlf_cons_break hc (s ++ ['\n'])
    obtain ⟨c₂, s₂, h₂, hc₂⟩ := crlf_cons_break hc₁ s₁
    rw [List.cons_append, h₁, h₂] at hb
    rw [← hb] at hpieces
    have hempty : lines isLineBreak (c₂ :: s₂) = [] :: lines isLineBreak s₂ :=
      lines_append hnone hc₂ s₂
    refine ⟨lines isLineBreak s₂, ?_⟩
    rw [pieces_append hfree, hpieces, hempty, List.modifyHead_cons, List.append_nil,
      List.takeWhile_append_of_pos fun c hc => by simp [hfree c hc],
      List.takeWhile_cons_of_neg (by simp [hc]), List.append_nil]

/-! ### What is read of the pieces -/

variable {e : Entry} {path : Str}

theorem cut_append (h : '|' ∉ a) (l : Str) : cut (a ++ '|' :: l) = some (a, l) := by
  rw [cut, partition_sep h]
  rfl

theorem Entry.not_mem_type (e : Entry) : '|' ∉ e.type := fun h => (e.type_plain _ h).1 rfl

/-- The fields of a line that begins as the line of an entry does. -/
theorem fields_head (e : Entry) (rest : Str) :
    fields (e.head ++ rest) = some (e.type, ofNat e.size, ofInt e.mtime, rest) := by
  have hsize : '|' ∉ ofNat e.size := fun h => absurd (ofNat_digit h) (by decide)
  have hmtime : '|' ∉ ofInt e.mtime := not_mem_ofInt (by decide) (by decide)
  have hline : e.head ++ rest =
      e.type ++ '|' :: (ofNat e.size ++ '|' :: (ofInt e.mtime ++ '|' :: rest)) := by
    simp [Entry.head]
  rw [hline, fields, cut_append e.not_mem_type]
  simp only [Option.bind_eq_bind, Option.bind_some, cut_append hsize, cut_append hmtime]
  rfl

theorem oneLine_of_digits (h : ∀ c ∈ l, c.isDigit = true ∨ c = '-' ∨ c = '|') : OneLine l := by
  intro c hc
  rcases h c hc with hd | rfl | rfl
  · obtain ⟨hlow, hhigh⟩ := digit_toNat hd
    simp [isLineBreak]
    omega
  · decide
  · decide

theorem mem_ofInt {n : Int} {c : Char} (h : c ∈ ofInt n) : c.isDigit = true ∨ c = '-' := by
  cases n with
  | ofNat n => exact .inl (ofNat_digit h)
  | negSucc n =>
    rcases List.mem_cons.mp h with rfl | h
    · exact .inr rfl
    · exact .inl (ofNat_digit h)

theorem oneLine_head (e : Entry) : OneLine e.head := by
  have htype : OneLine e.type := fun c hc => (e.type_plain c hc).2
  refine htype.append (oneLine_of_digits fun c hc => ?_)
  simp only [List.mem_cons, List.mem_append, List.not_mem_nil, or_false] at hc
  rcases hc with rfl | hc | rfl | hc | rfl
  · exact .inr (.inr rfl)
  · exact .inl (ofNat_digit hc)
  · exact .inr (.inr rfl)
  · exact (mem_ofInt hc).imp_right .inl
  · exact .inr (.inr rfl)

/-- A number of 64 bits is read back. -/
theorem int_ofNat_lt (u : Unicode) {n : Nat} (h : n < 18446744073709551616) :
    u.digits (ofNat n) = true ∧ u.int (ofNat n) = some n := by
  have hempty : (ofNat n).isEmpty = false := by simpa using ofNat_ne_nil n
  have hlen : (ofNat n).length ≤ 20 := by
    refine (Nat.length_toDigits_le_iff (by decide) (by decide)).mpr (Nat.lt_of_lt_of_le h ?_)
    decide
  constructor
  · simp only [Unicode.digits, hempty, Bool.not_false, Bool.true_and, List.all_eq_true]
    intro c hc
    have hd := ofNat_digit hc
    rw [u.isdigit_ascii c, hd]
    have hhigh := (digit_toNat hd).2
    omega
  · rw [u.int_ascii, int_ofNat]
    · exact isDigits_ofNat n
    · omega

/-- The sign is no digit. -/
theorem digits_ofInt (u : Unicode) {n : Int} : u.digits (ofInt n) = true → 0 ≤ n := by
  cases n with
  | ofNat n => exact fun _ => Int.natCast_nonneg n
  | negSucc n =>
    intro h
    simp only [Unicode.digits, ofInt, List.all_cons, Bool.and_eq_true] at h
    rw [u.isdigit_ascii '-' (by decide)] at h
    exact absurd h.2.1 (by decide)

/-- A line that begins as the line of an entry does is an entry, unless the time is negative. -/
theorem parseLine_head (u : Unicode) (e : Entry) (rest : Str) :
    parseLine u (e.head ++ rest) = .ok (if 0 ≤ e.mtime then
      [⟨baseName rest, fileTypes e.type, e.size, e.mtime⟩] else []) := by
  obtain ⟨hsize, hsize'⟩ := int_ofNat_lt u e.size_lt
  rw [parseLine, fields_head]
  simp only [hsize, hsize', Bool.not_true, Bool.false_or]
  -- `isdigit` takes a time exactly when it has no sign
  by_cases hneg : 0 ≤ e.mtime
  · obtain ⟨m, hm⟩ := Int.eq_ofNat_of_zero_le hneg
    have hlt : m < 18446744073709551616 := by
      have h := e.mtime_lt
      omega
    obtain ⟨hmtime, hmtime'⟩ := int_ofNat_lt u hlt
    have hofInt : ofInt e.mtime = ofNat m := by rw [hm]; rfl
    rw [hofInt, hmtime, hmtime', if_pos hneg, hm]
    rfl
  · have hmtime : u.digits (ofInt e.mtime) = false := by
      by_contra htrue
      exact hneg (digits_ofInt u (by simpa using htrue))
    rw [hmtime, if_neg hneg]
    rfl

/-- What a line gives is nothing exactly when it is not taken for an entry. -/
theorem parseLine_eq_nil : parseLine u l = .ok [] ↔ ¬ IsEntry u l := by
  unfold parseLine IsEntry
  cases hf : fields l with
  | none => simp
  | some f =>
    obtain ⟨type, size, mtime, path⟩ := f
    by_cases hdigits : u.digits size = true ∧ u.digits mtime = true
    · simp only [hdigits.1, hdigits.2, Bool.not_true, Bool.or_self, Bool.false_eq_true, if_false]
      refine iff_of_false ?_ (fun h => h ⟨_, rfl, hdigits.1, hdigits.2⟩)
      cases u.int size with
      | none => simp
      | some n => cases u.int mtime <;> simp
    · refine iff_of_true ?_ ?_
      · rw [not_and_or] at hdigits
        simp only [Bool.not_eq_true] at hdigits
        rcases hdigits with h | h <;> simp [h]
      · rintro ⟨f, hsome, h⟩
        cases hsome
        exact hdigits h

theorem parseLines_append (ls ls' : List Str) : parseLines u (ls ++ ls') = do
    let a ← parseLines u ls
    let b ← parseLines u ls'
    return a ++ b := by
  induction ls with
  | nil =>
    cases h : parseLines u ls' <;>
      simp [parseLines, h, Bind.bind, Except.bind, pure, Except.pure]
  | cons l ls ih =>
    simp only [List.cons_append, parseLines, ih]
    cases parseLine u l with
    | error e => rfl
    | ok x =>
      cases parseLines u ls with
      | error e => rfl
      | ok y =>
        cases parseLines u ls' with
        | error e => rfl
        | ok z => simp [Bind.bind, Except.bind, pure, Except.pure]

theorem parseLines_cons_ok {out : List Shown} : parseLines u (l :: ls) = .ok out ↔
    ∃ x y, parseLine u l = .ok x ∧ parseLines u ls = .ok y ∧ out = x ++ y := by
  rw [parseLines]
  cases parseLine u l with
  | error e => simp [Bind.bind, Except.bind]
  | ok x =>
    cases parseLines u ls with
    | error e => simp [Bind.bind, Except.bind]
    | ok y => simp [Bind.bind, Except.bind, pure, Except.pure, eq_comm]

/-- Lines of which none is taken for an entry. -/
theorem parseLines_eq_nil : parseLines u ls = .ok [] ↔ ∀ l ∈ ls, ¬ IsEntry u l := by
  induction ls with
  | nil => simp [parseLines]
  | cons l ls ih =>
    rw [parseLines_cons_ok, List.forall_mem_cons, ← ih, ← parseLine_eq_nil]
    constructor
    · rintro ⟨x, y, hx, hy, heq⟩
      obtain ⟨rfl, rfl⟩ := List.append_eq_nil_iff.mp heq.symm
      exact ⟨hx, hy⟩
    · rintro ⟨hx, hy⟩
      exact ⟨[], [], hx, hy, rfl⟩

/-- No time that is read is negative. -/
theorem mtime_nonneg {out : List Shown} (h : parseLines u ls = .ok out) :
    ∀ x ∈ out, 0 ≤ x.mtime := by
  induction ls generalizing out with
  | nil =>
    cases h
    intro x hx
    cases hx
  | cons l ls ih =>
    obtain ⟨a, b, ha, hb, rfl⟩ := parseLines_cons_ok.mp h
    intro x hx
    rcases List.mem_append.mp hx with hx | hx
    · unfold parseLine at ha
      split at ha
      · cases ha
        cases hx
      · split at ha
        · cases ha
          cases hx
        · split at ha
          · cases ha
            rw [List.mem_singleton.mp hx]
            exact Int.natCast_nonneg _
          · cases ha
    · exact ih hb x hx

/-! ### The name of a path -/

theorem splitLast_append {s name : Str} (h : '/' ∉ name) :
    splitLast '/' (s ++ '/' :: name) = name := by
  have hall : ∀ c ∈ name.reverse, (decide (c ≠ '/')) = true := by
    intro c hc
    have hne : c ≠ '/' := fun heq => h (heq ▸ List.mem_reverse.mp hc)
    simpa using hne
  rw [splitLast, List.reverse_append, List.reverse_cons, List.append_assoc,
    List.takeWhile_append_of_pos hall, List.singleton_append,
    List.takeWhile_cons_of_neg (by simp), List.append_nil, List.reverse_reverse]

/-- The name of an entry is read back from its path. -/
theorem baseName_findPath (e : Entry) (path : Str) :
    baseName (findPath path ++ e.name) = e.name := by
  have hlast : ∀ h : findPath path ++ e.name ≠ [],
      ¬ decide ((findPath path ++ e.name).getLast h = '/') = true := by
    intro h hslash
    have hmem := List.getLast_mem e.name_ne_nil
    rw [List.getLast_append_of_ne_nil _ e.name_ne_nil, decide_eq_true_eq] at hslash
    rw [hslash] at hmem
    exact e.name_plain.1 hmem
  rw [baseName, List.rdropWhile_eq_self_iff.mpr hlast, findPath, List.append_assoc,
    List.singleton_append, splitLast_append e.name_plain.1]

theorem oneLine_baseName (h : OneLine l) : OneLine (baseName l) := by
  intro c hc
  rw [baseName, splitLast, List.mem_reverse] at hc
  have hc := List.mem_reverse.mp ((List.takeWhile_subset _) hc)
  exact h c ((List.rdropWhile_prefix _ l).subset hc)

/-- A text up to its first end of a line. -/
def firstLine (s : Str) : Str := s.takeWhile fun c => !isLineBreak c

theorem oneLine_firstLine (s : Str) : OneLine (firstLine s) := fun c hc => by
  simpa using List.mem_takeWhile_imp hc

theorem firstLine_of_oneLine (h : OneLine l) : firstLine l = l :=
  List.takeWhile_eq_self_iff.mpr fun c hc => by simp [h c hc]

/-- What comes behind an end of a line does not matter. -/
theorem firstLine_append (h : ¬ OneLine l) (a : Str) : firstLine (l ++ a) = firstLine l := by
  have hbreak : ∃ c ∈ l, isLineBreak c = true := by
    by_contra hnone
    refine h fun c hc => ?_
    by_contra hc'
    exact hnone ⟨c, hc, by simpa using hc'⟩
  obtain ⟨p, c, q, rfl, hp, hc⟩ := exists_cut hbreak
  have hp' : ∀ c ∈ p, (!isLineBreak c) = true := fun c hc => by simp [hp c hc]
  rw [firstLine, firstLine, List.append_assoc, List.takeWhile_append_of_pos hp',
    List.takeWhile_append_of_pos hp', List.cons_append, List.takeWhile_cons_of_neg (by simp [hc]),
    List.takeWhile_cons_of_neg (by simp [hc])]

/-! ### Entries that survive -/

/-- The pieces of the line of an entry, without the first. -/
def later (path : Str) (e : Entry) : List Str := (pieces (findPath path ++ e.name)).tail

/-- **What an entry needs**: a time that is not negative and a name that is one line. Where the
path of the directory is not one line, its part before the first end of a line has to end in the
name of the entry, and nothing behind may look like an entry. -/
def Survives (u : Unicode) (path : Str) (e : Entry) : Prop :=
  0 ≤ e.mtime ∧ OneLine e.name ∧ (OneLine (findPath path) ∨
    baseName (firstLine (findPath path)) = e.name ∧ ∀ l ∈ later path e, ¬ IsEntry u l)

theorem pieces_line (path : Str) (e : Entry) :
    pieces (e.line path) = (e.head ++ firstLine (findPath path ++ e.name)) :: later path e := by
  obtain ⟨ps, hps⟩ := exists_pieces_eq (findPath path ++ e.name)
  rw [later, Entry.line, pieces_append (oneLine_head e), hps]
  rfl

/-- How the first piece of a line is read. -/
def Entry.read (e : Entry) (path : Str) : Shown :=
  ⟨baseName (firstLine (findPath path ++ e.name)), fileTypes e.type, e.size, e.mtime⟩

theorem parse_line (hmtime : 0 ≤ e.mtime) {out : List Shown} :
    parseLines u (pieces (e.line path)) = .ok out ↔
      ∃ rest, parseLines u (later path e) = .ok rest ∧ out = e.read path :: rest := by
  rw [pieces_line, parseLines_cons_ok, parseLine_head, if_pos hmtime]
  constructor
  · rintro ⟨x, y, hx, hy, rfl⟩
    cases hx
    exact ⟨y, hy, rfl⟩
  · rintro ⟨rest, hrest, rfl⟩
    exact ⟨_, rest, rfl, hrest, rfl⟩

/-- The line of an entry that survives is the entry. -/
theorem parse_of_survives (h : Survives u path e) :
    parseLines u (pieces (e.line path)) = .ok [e.shown] := by
  obtain ⟨hmtime, hname, hpath⟩ := h
  rw [parse_line hmtime]
  by_cases hone : OneLine (findPath path)
  · have hboth := hone.append hname
    refine ⟨[], parseLines_eq_nil.mpr ?_, ?_⟩
    · rw [later, pieces_of_oneLine hboth]
      intro l hl
      cases hl
    · rw [Entry.read, firstLine_of_oneLine hboth, baseName_findPath]
      rfl
  · -- the name is cut off with the end of the path, which has to give it
    rcases hpath with hone' | ⟨hbase, hlater⟩
    · exact absurd hone' hone
    · refine ⟨[], parseLines_eq_nil.mpr hlater, ?_⟩
      rw [Entry.read, firstLine_append hone, hbase]
      rfl

/-! ### `list_files` -/

section Listing

variable {entries : List Entry}

/-- The lines of all entries, when each line is read as these. -/
theorem parseLines_flatMap {f : Entry → List Str} {g : Entry → List Shown}
    (h : ∀ e ∈ entries, parseLines u (f e) = .ok (g e)) :
    parseLines u (entries.flatMap f) = .ok (entries.flatMap g) := by
  induction entries with
  | nil => rfl
  | cons e es ih =>
    rw [List.flatMap_cons, parseLines_append, h e List.mem_cons_self,
      ih fun e' he => h e' (List.mem_cons_of_mem _ he)]
    rfl

/-- If all lines can be read, those of each entry can. -/
theorem exists_of_parseLines_flatMap {f : Entry → List Str} {out : List Shown}
    (h : parseLines u (entries.flatMap f) = .ok out) :
    ∃ g : Entry → List Shown, (∀ e ∈ entries, parseLines u (f e) = .ok (g e)) ∧
      out = entries.flatMap g := by
  refine ⟨fun e => (parseLines u (f e)).toOption.getD [], ?_⟩
  induction entries generalizing out with
  | nil =>
    cases h
    refine ⟨fun e he => ?_, rfl⟩
    cases he
  | cons e es ih =>
    rw [List.flatMap_cons, parseLines_append] at h
    cases hfirst : parseLines u (f e) with
    | error err =>
      rw [hfirst] at h
      cases h
    | ok x =>
      cases hrest : parseLines u (es.flatMap f) with
      | error err =>
        rw [hfirst, hrest] at h
        cases h
      | ok y =>
        rw [hfirst, hrest] at h
        cases h
        obtain ⟨heach, rfl⟩ := ih hrest
        refine ⟨fun e' he => ?_, ?_⟩
        · rcases List.mem_cons.mp he with rfl | he
          · simp only [hfirst]
            rfl
          · exact heach e' he
        · simp only [List.flatMap_cons, hfirst]
          rfl

/-- Lists that all have a first element, no more than one each. -/
theorem rest_eq_nil {α β : Type} {f : α → β} {rest : α → List β} {es : List α}
    (h : (es.flatMap fun e => f e :: rest e).length ≤ es.length) : ∀ e ∈ es, rest e = [] := by
  have hlow : ∀ es : List α, es.length ≤ (es.flatMap fun e => f e :: rest e).length := by
    intro es
    induction es with
    | nil => exact Nat.zero_le _
    | cons e es ih =>
      rw [List.flatMap_cons, List.length_append, List.length_cons, List.length_cons]
      omega
  induction es with
  | nil =>
    intro e he
    cases he
  | cons e es ih =>
    have hes := hlow es
    rw [List.flatMap_cons, List.length_append, List.length_cons, List.length_cons] at h
    rw [List.forall_mem_cons]
    exact ⟨List.length_eq_zero_iff.mp (by omega), ih (by omega)⟩

theorem exact_sortByName (out : List Shown) :
    Exact entries (sortByName out) ↔ out.Perm (entries.map Entry.shown) := by
  have hperm : (sortByName out).Perm out := List.mergeSort_perm out _
  refine ⟨fun h => hperm.symm.trans h.1, fun h => ⟨hperm.trans h, ?_⟩⟩
  have htrans : ∀ a b c : Shown, decide (a.name ≤ b.name) = true →
      decide (b.name ≤ c.name) = true → decide (a.name ≤ c.name) = true := by
    intro a b c hab hbc
    rw [decide_eq_true_eq] at *
    exact le_trans hab hbc
  have htotal : ∀ a b : Shown,
      (decide (a.name ≤ b.name) || decide (b.name ≤ a.name)) = true := by
    intro a b
    rw [Bool.or_eq_true, decide_eq_true_eq, decide_eq_true_eq]
    exact le_total a.name b.name
  have hsorted := List.pairwise_mergeSort htrans htotal out
  exact hsorted.imp fun h => of_decide_eq_true h

/-- If the lines give the entries in some order, each entry survives. -/
theorem survives_of_perm {path : Str} {out : List Shown}
    (hparse : parseLines u (entries.flatMap fun e => pieces (e.line path)) = .ok out)
    (hperm : out.Perm (entries.map Entry.shown)) : ∀ e ∈ entries, Survives u path e := by
  have hmem : ∀ e ∈ entries, e.shown ∈ out := fun e he =>
    hperm.mem_iff.mpr (List.mem_map_of_mem he)
  have hmtime : ∀ e ∈ entries, 0 ≤ e.mtime := fun e he => mtime_nonneg hparse _ (hmem e he)
  obtain ⟨g, hg, rfl⟩ := exists_of_parseLines_flatMap hparse
  -- each line gives its entry first, so by their number it gives nothing else
  choose! rest hrest hgrest using fun e he => (parse_line (hmtime e he)).mp (hg e he)
  have hflat : entries.flatMap g = entries.flatMap fun e => e.read path :: rest e :=
    List.flatMap_congr fun e he => hgrest e he
  have hnone : ∀ e ∈ entries, rest e = [] := by
    have hlen := hperm.length_eq
    rw [hflat, List.length_map] at hlen
    exact rest_eq_nil hlen.le
  have hread : entries.flatMap g = entries.map (Entry.read · path) := by
    rw [hflat, List.map_eq_flatMap]
    exact List.flatMap_congr fun e he => by rw [hnone e he]
  rw [hread] at hmem hperm
  -- every name that is listed is one line, so the names of the entries are
  intro e he
  obtain ⟨e', -, heq⟩ := List.mem_map.mp (hmem e he)
  have hname : baseName (firstLine (findPath path ++ e'.name)) = e.name := congrArg Shown.name heq
  refine ⟨hmtime e he, hname ▸ oneLine_baseName (oneLine_firstLine _), ?_⟩
  by_cases hone : OneLine (findPath path)
  · exact .inl hone
  · rw [firstLine_append hone] at hname
    exact .inr ⟨hname, parseLines_eq_nil.mp (hnone e he ▸ hrest e he)⟩

/-- **The listing is exact** when every entry survives, and only then. -/
theorem listFiles_exact_iff (u : Unicode) (d : Directory) :
    (∃ out, listFiles u d.path d.result = .ok out ∧ Exact d.entries out) ↔
      ∀ e ∈ d.entries, Survives u d.path e := by
  have hlist : listFiles u d.path d.result = (parseLines u
      (d.entries.flatMap fun e => pieces (e.line d.path))).map sortByName := by
    rw [listFiles, if_neg fun h => h.1 rfl, Result.text, Directory.result,
      splitlines_unlines_pieces, List.flatMap_map]
  rw [hlist]
  constructor
  · rintro ⟨out, hout, hexact⟩
    cases hparse : parseLines u (d.entries.flatMap fun e => pieces (e.line d.path)) with
    | error err =>
      rw [hparse] at hout
      cases hout
    | ok found =>
      rw [hparse] at hout
      cases hout
      exact survives_of_perm hparse ((exact_sortByName found).mp hexact)
  · intro h
    refine ⟨_, ?_, (exact_sortByName (d.entries.map Entry.shown)).mpr (.refl _)⟩
    rw [parseLines_flatMap fun e he => parse_of_survives (h e he), ← List.map_eq_flatMap]
    rfl

end Listing

/-- The digits and the white space of ASCII. -/
def Unicode.ascii : Unicode where
  isdigit := Char.isDigit
  isdigit_ascii := fun _ _ => rfl
  int := fun s => if isDigits s && decide (s.length ≤ 4300) then some (Str.int s) else none
  int_ascii := fun s hs hlen => by simp [hs, hlen]

/-- A name with a carriage return is cut there. -/
theorem listFiles_carriage_return :
    ∃ d : Directory, d.entries.length = 1 ∧ (∀ e ∈ d.entries, 0 ≤ e.mtime) ∧
      ¬ ∃ out, listFiles .ascii d.path d.result = .ok out ∧ Exact d.entries out := by
  let e : Entry := ⟨"a\rb".toList, "regular file".toList, 3, 1700000000, by decide,
    ⟨by decide, by decide, by decide⟩, Str.forall_mem_of_all (by decide), by decide, by decide⟩
  let d : Directory := ⟨"/sdcard".toList, [e], by decide, by simp⟩
  refine ⟨d, rfl, ?_, fun hexact => ?_⟩
  · intro e' he
    rw [List.mem_singleton.mp he]
    decide
  · have h := ((listFiles_exact_iff .ascii d).mp hexact e List.mem_cons_self).2.1
    exact absurd h (by decide)

end Device

end AndroidAppliance
