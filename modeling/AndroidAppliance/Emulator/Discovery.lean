import AndroidAppliance.Text.Lines
import AndroidAppliance.Transition.Dict
import Mathlib.Data.List.Infix

/-!
# The discovery file

`Emulator.discovery` of `appliance/emulator.py` and the loop of `_connect` that reads with it. The
emulator writes the file in steps, so a reading is a prefix of the text.

A reading is taken for complete once it names the gRPC port and the token. A prefix that ends
inside the value of one of them, behind the other, names both, and the value is cut
(`discovery_iff`, `discovery_cut`). Every other prefix gives nothing or the final values.
-/

namespace AndroidAppliance

namespace Discovery

open Str

/-! ### `appliance/emulator.py` -/

/-- The key of the port. -/
def grpcPort : Str := "grpc.port".toList

/-- The key of the token. -/
def grpcToken : Str := "grpc.token".toList

/-- `line.split("=", 1)` of a line with `=`. -/
def splitPair (line : Str) : Option (Str × Str) :=
  if (partition '=' line).2.1 = [] then none
  else some ((partition '=' line).1, (partition '=' line).2.2)

/-- The pairs of a text file, as it is read. -/
def pairs (file : Str) : List (Str × Str) := (splitlines (universal file)).filterMap splitPair

/-- `dict` of pairs: the last value of a key counts. -/
def dict (ps : List (Str × Str)) : Dict Str Str := ps.foldl (fun d e => d.put e.1 e.2) .empty

/-- A key that is there, with a value that is not empty. -/
def named (values : Dict Str Str) (key : Str) : Bool := (values.get key).any (· ≠ [])

/-- `discovery`; there may be no file. -/
def discovery (file : Option Str) : Option (Dict Str Str) :=
  file.bind fun text =>
    let values := dict (pairs text)
    if named values grpcPort && named values grpcToken then some values else none

/-! ### `appliance/supervisor.py` -/

/-- What `_connect` makes the gRPC client of, with what it reads one time after another: the port,
as the text that `int` gets, and the token. -/
def connect (readings : List (Option Str)) : Option (Option Str × Option Str) :=
  (readings.findSome? discovery).map fun found => (found.get grpcPort, found.get grpcToken)

/-! ### Complete files -/

/-- The line of an entry. -/
def line (e : Str × Str) : Str := e.1 ++ '=' :: e.2

/-- The lines of a file. -/
def textOf (es : List (Str × Str)) : Str := unlines (es.map line)

/-- A key and a value that can stand in a line. -/
def Plain (e : Str × Str) : Prop :=
  '=' ∉ e.1 ∧ ∀ c ∈ line e, isLineBreak c = false

instance (e : Str × Str) : Decidable (Plain e) :=
  decidable_of_iff ('=' ∉ e.1 ∧ (line e).all (fun c => !isLineBreak c) = true) (by simp [Plain])

/-- What the emulator writes: a line for each key, in any order. -/
structure File where
  values : Dict Str Str
  plain : ∀ e ∈ values.entries, Plain e

/-- The text of a discovery file. -/
def File.text (f : File) : Str := textOf f.values.entries

/-- A prefix that ends inside the value of `key`: behind its first character and before its end,
and behind the value of `other`. -/
def CutAt (f : File) (p key other : Str) : Prop :=
  ∃ before value after part,
    f.values.entries = before ++ (key, value) :: after ∧
    p = textOf before ++ (key ++ '=' :: part) ∧ part ≠ [] ∧ part <+: value ∧ part ≠ value ∧
    ∃ w, (other, w) ∈ before ∧ w ≠ []

/-- A prefix that ends inside the port or inside the token, behind the other one. -/
def CutInside (f : File) (p : Str) : Prop :=
  CutAt f p grpcPort grpcToken ∨ CutAt f p grpcToken grpcPort

/-! ### What a prefix is read as -/

variable {f : File} {p key other w : Str} {e : Str × Str} {es ps : List (Str × Str)}

theorem splitPair_line (h : '=' ∉ key) (w : Str) : splitPair (key ++ '=' :: w) = some (key, w) := by
  rw [splitPair, partition_sep h, if_neg (List.cons_ne_nil _ _)]

theorem splitPair_key (h : '=' ∉ p) : splitPair p = none := by
  rw [splitPair, partition_free h, if_pos rfl]

theorem textOf_cons (e : Str × Str) (es : List (Str × Str)) :
    textOf (e :: es) = line e ++ '\n' :: textOf es := by
  rw [textOf, List.map_cons, unlines_cons]
  rfl

theorem textOf_append (es ps : List (Str × Str)) : textOf (es ++ ps) = textOf es ++ textOf ps := by
  simp [textOf, unlines]

theorem cr_notMem_textOf (h : ∀ e ∈ es, Plain e) : '\r' ∉ textOf es := by
  induction es with
  | nil => exact List.not_mem_nil
  | cons e es ih =>
    rw [textOf_cons, List.mem_append, List.mem_cons, not_or, not_or]
    refine ⟨fun hmem => ?_, by decide, ih fun e' he' => h e' (List.mem_cons_of_mem _ he')⟩
    exact absurd ((h e List.mem_cons_self).2 _ hmem) (by decide)

theorem pairs_of_notMem (h : '\r' ∉ p) : pairs p = (lines isLineBreak p).filterMap splitPair := by
  rw [pairs, universal_of_not_mem h, splitlines, crlf_of_not_mem h]

/-- A first line that is complete is a pair. -/
theorem pairs_cons (he : Plain e) (h : '\r' ∉ p) : pairs (line e ++ '\n' :: p) = e :: pairs p := by
  have hcr : '\r' ∉ line e ++ '\n' :: p := by
    rw [List.mem_append, List.mem_cons, not_or, not_or]
    exact ⟨fun hmem => absurd (he.2 _ hmem) (by decide), by decide, h⟩
  have hsome : splitPair (line e) = some e := splitPair_line he.1 e.2
  rw [pairs_of_notMem hcr, lines_append he.2 (by decide), List.filterMap_cons_some hsome,
    pairs_of_notMem h]

/-- A prefix of two texts is one of the first, or ends in the second. -/
theorem prefix_append_split {a b : Str} (h : p <+: a ++ b) :
    p <+: a ∨ ∃ q, q <+: b ∧ p = a ++ q := by
  by_cases hlen : p.length ≤ a.length
  · exact .inl (List.prefix_of_prefix_length_le h (List.prefix_append a b) hlen)
  · obtain ⟨q, rfl⟩ := List.prefix_of_prefix_length_le (List.prefix_append a b) h (by omega)
    exact .inr ⟨q, (List.prefix_append_right_inj a).mp h, rfl⟩

/-- A line that is cut is a key without a value, or a key with the first part of its value. -/
theorem line_prefix (he : Plain e) (h : p <+: line e) :
    splitPair p = none ∨ ∃ w, p = e.1 ++ '=' :: w ∧ w <+: e.2 ∧ splitPair p = some (e.1, w) := by
  obtain h | ⟨q, hq, rfl⟩ := prefix_append_split h
  · exact .inl (splitPair_key fun hmem => he.1 (h.subset hmem))
  · cases q with
    | nil =>
      rw [List.append_nil]
      exact .inl (splitPair_key he.1)
    | cons c w =>
      obtain ⟨rfl, hw⟩ := List.cons_prefix_cons.mp hq
      exact .inr ⟨w, rfl, hw, splitPair_line he.1 w⟩

/-- **A prefix of a file is read as the entries before it**, and the entry in which it ends with
the first part of its value. -/
theorem pairs_prefix (hes : ∀ e ∈ es, Plain e) (h : p <+: textOf es) :
    ∃ before after, es = before ++ after ∧ (pairs p = before ∨
      ∃ key value w later, after = (key, value) :: later ∧ w <+: value ∧
        p = textOf before ++ (key ++ '=' :: w) ∧ pairs p = before ++ [(key, w)]) := by
  induction es generalizing p with
  | nil =>
    obtain rfl := List.prefix_nil.mp h
    exact ⟨[], [], rfl, .inl rfl⟩
  | cons e es ih =>
    have he := hes e List.mem_cons_self
    have hes' : ∀ e' ∈ es, Plain e' := fun e' he' => hes e' (List.mem_cons_of_mem _ he')
    have hcr : '\r' ∉ p := fun hmem => cr_notMem_textOf hes (h.subset hmem)
    rw [textOf_cons] at h
    -- the newline goes with the rest: a complete line without it is a pair as well
    obtain h | ⟨q, hq, rfl⟩ := prefix_append_split h
    · refine ⟨[], e :: es, rfl, ?_⟩
      by_cases hp : p = []
      · subst hp
        exact .inl rfl
      · have hfree : ∀ c ∈ p, isLineBreak c = false := fun c hc => he.2 c (h.subset hc)
        rw [pairs_of_notMem hcr, lines_of_free hfree hp]
        obtain hnone | ⟨w, hpw, hw, hsome⟩ := line_prefix he h
        · exact .inl (by rw [List.filterMap_cons_none hnone, List.filterMap_nil])
        · refine .inr ⟨e.1, e.2, w, es, rfl, hw, hpw, ?_⟩
          rw [List.filterMap_cons_some hsome]
          rfl
    · cases q with
      | nil =>
        have hsome : splitPair (line e) = some (e.1, e.2) := splitPair_line he.1 e.2
        refine ⟨[], e :: es, rfl, .inr ⟨e.1, e.2, e.2, es, rfl, List.prefix_rfl, ?_, ?_⟩⟩
        · rw [List.append_nil]
          rfl
        · rw [pairs_of_notMem hcr, List.append_nil, lines_of_free he.2 (by simp [line]),
            List.filterMap_cons_some hsome]
          rfl
      | cons c q =>
        obtain ⟨rfl, hrest⟩ := List.cons_prefix_cons.mp hq
        have hcr' : '\r' ∉ q := fun hmem => cr_notMem_textOf hes' (hrest.subset hmem)
        obtain ⟨before, after, rfl, hcase⟩ := ih hes' hrest
        refine ⟨e :: before, after, rfl, ?_⟩
        rw [pairs_cons he hcr']
        obtain hq' | ⟨key, value, w, later, hafter, hw, rfl, hq'⟩ := hcase
        · exact .inl (by rw [hq'])
        · refine .inr ⟨key, value, w, later, hafter, hw, ?_, by rw [hq']; rfl⟩
          rw [textOf_cons, List.append_assoc, List.cons_append]

theorem plain_part (h : Plain (key, w)) (hpart : p <+: w) : Plain (key, p) := by
  refine ⟨h.1, fun c hc => h.2 c ?_⟩
  exact ((List.prefix_append_right_inj key).mpr (List.cons_prefix_cons.mpr ⟨rfl, hpart⟩)).subset hc

/-- Complete lines, and one without its newline. -/
theorem pairs_cut (hes : ∀ e ∈ es, Plain e) (he : Plain e) :
    pairs (textOf es ++ line e) = es ++ [e] := by
  have hfree : '\r' ∉ line e := fun hmem => absurd (he.2 _ hmem) (by decide)
  induction es with
  | nil =>
    have hsome : splitPair (line e) = some e := splitPair_line he.1 e.2
    change pairs (line e) = [e]
    rw [pairs_of_notMem hfree, lines_of_free he.2 (by simp [line]),
      List.filterMap_cons_some hsome, List.filterMap_nil]
  | cons e' es ih =>
    have hes' : ∀ e ∈ es, Plain e := fun e he => hes e (List.mem_cons_of_mem _ he)
    have hcr : '\r' ∉ textOf es ++ line e := by
      rw [List.mem_append, not_or]
      exact ⟨cr_notMem_textOf hes', hfree⟩
    rw [textOf_cons, List.append_assoc, List.cons_append,
      pairs_cons (hes e' List.mem_cons_self) hcr, ih hes', List.cons_append]

/-! ### The values -/

theorem get_dict_concat {k : Str} :
    (dict (ps ++ [(key, w)])).get k = if k = key then some w else (dict ps).get k := by
  rw [dict, List.foldl_append]
  exact Dict.get_put

/-- With each key once, the dict has the values of the list. -/
theorem get_dict (h : (ps.map Prod.fst).Nodup) {k : Str} :
    (dict ps).get k = some w ↔ (k, w) ∈ ps := by
  induction ps using List.reverseRecOn with
  | nil => simp [dict]
  | append_singleton ps e ih =>
    rw [List.map_append, List.nodup_append] at h
    have hkey : e.1 ∉ ps.map Prod.fst := fun hmem => h.2.2 _ hmem _ List.mem_cons_self rfl
    rw [get_dict_concat, List.mem_append, List.mem_singleton]
    split
    · subst k
      rw [Option.some_inj]
      constructor
      · rintro rfl
        exact .inr rfl
      · rintro (hmem | heq)
        · exact absurd (List.mem_map_of_mem hmem) hkey
        · exact (congrArg Prod.snd heq).symm
    · rename_i hne
      rw [ih h.1]
      refine ⟨.inl, fun hmem => hmem.resolve_right ?_⟩
      rintro rfl
      exact hne rfl

theorem named_iff {d : Dict Str Str} : named d key = true ↔ ∃ w, d.get key = some w ∧ w ≠ [] := by
  simp [named, Option.any_eq_true]

theorem discovery_eq_some {d : Dict Str Str} : discovery (some p) = some d ↔
    d = dict (pairs p) ∧ named d grpcPort = true ∧ named d grpcToken = true := by
  simp only [discovery, Option.bind_some]
  split
  · rename_i h
    rw [Bool.and_eq_true] at h
    constructor
    · intro heq
      obtain rfl := Option.some_inj.mp heq
      exact ⟨rfl, h⟩
    · rintro ⟨rfl, -⟩
      rfl
  · rename_i h
    refine ⟨fun heq => by simp at heq, ?_⟩
    rintro ⟨rfl, hport, htoken⟩
    exact absurd (by rw [hport, htoken]; rfl) h

/-- What the complete file names: the port and the token. -/
def File.client (f : File) : Option Str × Option Str :=
  (f.values.get grpcPort, f.values.get grpcToken)

theorem nodup_before {before after : List (Str × Str)} (h : f.values.entries = before ++ after) :
    (before.map Prod.fst).Nodup := by
  have hkeys := f.values.nodup
  rw [h, List.map_append] at hkeys
  exact hkeys.of_append_left

/-- The value of a key that is not the one in which the prefix ends. -/
theorem get_complete {before after : List (Str × Str)} (h : f.values.entries = before ++ after)
    (hnamed : named (dict before) key = true) : (dict before).get key = f.values.get key := by
  obtain ⟨w, hw, -⟩ := named_iff.mp hnamed
  rw [hw, eq_comm, Dict.get_eq_some, h]
  exact List.mem_append_left _ ((get_dict (nodup_before h)).mp hw)

/-- The value of a key in a reading that ends in the line of `key`. -/
theorem get_open {k : Str} {value : Str} {before later : List (Str × Str)}
    (hentries : f.values.entries = before ++ (key, value) :: later) (hw : w <+: value)
    (hp : p = textOf before ++ (key ++ '=' :: w)) (hne : k ≠ other)
    (hk : named (dict (before ++ [(key, w)])) k = true)
    (hother : named (dict (before ++ [(key, w)])) other = true) (hcut : ¬CutAt f p k other) :
    (dict (before ++ [(key, w)])).get k = f.values.get k := by
  obtain ⟨v, hv, hvne⟩ := named_iff.mp hk
  obtain ⟨u, hu, hune⟩ := named_iff.mp hother
  rw [get_dict_concat] at hv hu ⊢
  by_cases hkey : k = key
  · subst hkey
    rw [if_pos rfl] at hv ⊢
    rw [if_neg hne.symm] at hu
    obtain rfl := Option.some_inj.mp hv
    -- the value is complete: the other one is in the lines before
    have hcomplete : w = value := by
      by_contra hpart
      exact hcut ⟨before, value, later, w, hentries, hp, hvne, hw, hpart, u,
        (get_dict (nodup_before hentries)).mp hu, hune⟩
    rw [hcomplete, eq_comm, Dict.get_eq_some, hentries]
    exact List.mem_append_right _ List.mem_cons_self
  · rw [if_neg hkey] at hv ⊢
    exact get_complete hentries (named_iff.mpr ⟨v, hv, hvne⟩)

/-- With the cut value in it, the reading is taken for complete, and the value is another one. -/
theorem discovery_of_cutAt (hne : key ≠ other) (h : CutAt f p key other) :
    named (dict (pairs p)) key = true ∧ named (dict (pairs p)) other = true ∧
      (dict (pairs p)).get key ≠ f.values.get key := by
  obtain ⟨before, value, after, part, hentries, rfl, hpart, hprefix, hcut, w, hother, hw⟩ := h
  have hplain : ∀ e ∈ before ++ (key, value) :: after, Plain e := hentries ▸ f.plain
  have hbefore : ∀ e ∈ before, Plain e := fun e he => hplain e (List.mem_append_left _ he)
  have hlast : Plain (key, part) :=
    plain_part (hplain _ (List.mem_append_right _ List.mem_cons_self)) hprefix
  have hread : pairs (textOf before ++ (key ++ '=' :: part)) = before ++ [(key, part)] := by
    change pairs (textOf before ++ line (key, part)) = _
    exact pairs_cut hbefore hlast
  have hkey : (dict (before ++ [(key, part)])).get key = some part := by
    rw [get_dict_concat, if_pos rfl]
  have hget : (dict (before ++ [(key, part)])).get other = some w := by
    rw [get_dict_concat, if_neg hne.symm]
    exact (get_dict (nodup_before hentries)).mpr hother
  have hvalue : f.values.get key = some value := by
    rw [Dict.get_eq_some, hentries]
    exact List.mem_append_right _ List.mem_cons_self
  rw [hread]
  -- each key has one value, so the part is not the final one
  refine ⟨named_iff.mpr ⟨part, hkey, hpart⟩, named_iff.mpr ⟨w, hget, hw⟩, ?_⟩
  rw [hkey, hvalue]
  exact fun heq => hcut (Option.some_inj.mp heq)

theorem grpcPort_ne_grpcToken : grpcPort ≠ grpcToken := by decide

/-- **A reading that is taken for complete has the final port and token, but for a prefix that
ends inside one of them, behind the other.** -/
theorem client_iff (hp : p <+: f.text) :
    (∀ d, discovery (some p) = some d → (d.get grpcPort, d.get grpcToken) = f.client) ↔
      ¬CutInside f p := by
  constructor
  · rintro h (hcut | hcut)
    · obtain ⟨hport, htoken, hne⟩ := discovery_of_cutAt grpcPort_ne_grpcToken hcut
      exact hne (congrArg Prod.fst (h _ (discovery_eq_some.mpr ⟨rfl, hport, htoken⟩)))
    · obtain ⟨htoken, hport, hne⟩ := discovery_of_cutAt grpcPort_ne_grpcToken.symm hcut
      exact hne (congrArg Prod.snd (h _ (discovery_eq_some.mpr ⟨rfl, hport, htoken⟩)))
  · intro hcut d hd
    obtain ⟨rfl, hport, htoken⟩ := discovery_eq_some.mp hd
    obtain ⟨before, after, hentries, hread⟩ := pairs_prefix f.plain hp
    -- a cut in the line of any other key, or in a key, does not touch the two values
    obtain hread | ⟨key, value, w, later, rfl, hw, hpw, hread⟩ := hread
    · rw [hread] at hport htoken ⊢
      rw [get_complete hentries hport, get_complete hentries htoken]
      rfl
    · rw [hread] at hport htoken ⊢
      rw [get_open hentries hw hpw grpcPort_ne_grpcToken hport htoken fun h => hcut (.inl h),
        get_open hentries hw hpw grpcPort_ne_grpcToken.symm htoken hport
          fun h => hcut (.inr h)]
      rfl

/-- The client is made of the first reading that is taken for complete. -/
theorem connect_eq_some {readings : List (Option Str)} {client : Option Str × Option Str}
    (h : connect readings = some client) :
    ∃ p d, some p ∈ readings ∧ discovery (some p) = some d ∧
      (d.get grpcPort, d.get grpcToken) = client := by
  obtain ⟨d, hd, hclient⟩ := Option.map_eq_some_iff.mp h
  obtain ⟨reading, hmem, hfound⟩ := List.exists_of_findSome?_eq_some hd
  cases reading with
  | none => simp [discovery] at hfound
  | some p => exact ⟨p, d, hmem, hfound, hclient⟩

theorem pairs_text (f : File) : pairs f.text = f.values.entries := by
  have hfree : ∀ l ∈ f.values.entries.map line, ∀ c ∈ l, isLineBreak c = false := by
    intro l hl
    obtain ⟨e, he, rfl⟩ := List.mem_map.mp hl
    exact (f.plain e he).2
  rw [pairs, File.text, textOf, splitlines_unlines hfree, List.filterMap_map]
  refine (List.filterMap_congr fun e he => ?_).trans List.filterMap_some
  exact splitPair_line (f.plain e he).1 e.2

theorem get_text (f : File) (k : Str) : (dict (pairs f.text)).get k = f.values.get k := by
  refine Option.ext fun w => ?_
  rw [pairs_text, get_dict f.values.nodup, Dict.get_eq_some]

/-- The complete file is taken for complete, if it names both. -/
theorem discovery_text (hport : named f.values grpcPort = true)
    (htoken : named f.values grpcToken = true) :
    discovery (some f.text) = some (dict (pairs f.text)) := by
  refine discovery_eq_some.mpr ⟨rfl, ?_, ?_⟩
  · rw [named, get_text]
    exact hport
  · rw [named, get_text]
    exact htoken

/-- **`discovery` of a prefix is nothing or has the final port and token exactly when the prefix
does not end inside one of them, behind the other**. Of readings that are no such prefix the
client gets the final port and token, and it gets them once the complete file is read. -/
theorem discovery_iff (f : File) :
    (∀ p, p <+: f.text →
      ((∀ d, discovery (some p) = some d → (d.get grpcPort, d.get grpcToken) = f.client) ↔
        ¬CutInside f p)) ∧
    ∀ readings : List (Option Str),
      (∀ p, some p ∈ readings → p <+: f.text ∧ ¬CutInside f p) →
        (∀ client, connect readings = some client → client = f.client) ∧
        (some f.text ∈ readings → named f.values grpcPort = true →
          named f.values grpcToken = true → connect readings = some f.client) := by
  refine ⟨fun p hp => client_iff hp, fun readings h => ?_⟩
  have hclient : ∀ client, connect readings = some client → client = f.client := by
    intro client hconnect
    obtain ⟨p, d, hmem, hd, rfl⟩ := connect_eq_some hconnect
    obtain ⟨hp, hcut⟩ := h p hmem
    exact (client_iff hp).mpr hcut d hd
  refine ⟨hclient, fun hmem hport htoken => ?_⟩
  have hfound : (readings.findSome? discovery).isSome = true :=
    List.findSome?_isSome_iff.mpr ⟨some f.text, hmem, by rw [discovery_text hport htoken]; rfl⟩
  obtain ⟨d, hd⟩ := Option.isSome_iff_exists.mp hfound
  have hconnect : connect readings = some (d.get grpcPort, d.get grpcToken) := by
    rw [connect, hd, Option.map_some]
  rw [hconnect, hclient _ hconnect]

/-- A file with a port and a token of two characters. -/
def written : File where
  values := (Dict.empty.put grpcPort "8554".toList).put grpcToken "ab".toList
  plain := by decide

/-- The complete file is not cut, and the client gets what it says. -/
theorem discovery_iff_written : ¬CutInside written written.text ∧
    connect [none, some written.text] = some (some "8554".toList, some "ab".toList) := by
  have hcut : ¬CutInside written written.text := by
    refine ((discovery_iff written).1 written.text List.prefix_rfl).mp fun d hd => ?_
    obtain ⟨rfl, -⟩ := discovery_eq_some.mp hd
    decide
  refine ⟨hcut, ?_⟩
  have hreadings : ∀ p, some p ∈ [none, some written.text] →
      p <+: written.text ∧ ¬CutInside written p := by
    intro p hp
    obtain rfl : p = written.text := by simpa using hp
    exact ⟨List.prefix_rfl, hcut⟩
  exact ((discovery_iff written).2 _ hreadings).2 (by simp) (by decide) (by decide)

/-- One character before the end of the token, the reading is taken for complete: the client gets
the token `a`. -/
theorem discovery_cut : ∃ p, p <+: written.text ∧ (∃ d, discovery (some p) = some d ∧
      d.get grpcToken = some "a".toList ∧ written.values.get grpcToken = some "ab".toList) ∧
    connect [some p, some written.text] = some (some "8554".toList, some "a".toList) := by
  refine ⟨"grpc.port=8554\ngrpc.token=a".toList, by decide, ?_, by decide⟩
  exact ⟨dict [(grpcPort, "8554".toList), (grpcToken, "a".toList)], by decide, by decide, by decide⟩

end Discovery

end AndroidAppliance
