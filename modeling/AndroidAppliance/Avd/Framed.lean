import AndroidAppliance.Avd.Configure

/-!
# What configure leaves of config.ini

`configure` cuts the text with `splitlines`, which ends a line at more characters than the newline
that ends it in the file. The results here are about the lines of the file (`fileLines`), and say
for which texts the cut matters: `configure_framed_iff` of refusal, frame and idempotence,
`configure_agrees_iff` of lines in conflict.
-/

namespace AndroidAppliance

namespace Avd

open Str

/-- The lines of a text file, each up to its newline. -/
def fileLines (text : Str) : List Str := lines isNewline (universal text)

/-! ### The texts that are written again -/

variable {cfg : Config} {api : Nat} {d : Texts} {key value text : Str} {ls : List Str}

/-- Every managed key has its value, up to the unit, where `_read_key` finds it. -/
def right (cfg : Config) (ls : List Str) : Bool :=
  (managed cfg).all fun kv => (readKey ls kv.1).any fun current => dropUnit current = kv.2

theorem right_iff : right cfg ls = true ↔ ∀ kv ∈ managed cfg,
    ∃ current, readKey ls kv.1 = some current ∧ dropUnit current = kv.2 := by
  simp only [right, List.all_eq_true, Option.any_eq_true, decide_eq_true_eq]

/-- The loop changes a line exactly when a key is not right yet. -/
theorem unchanged_iff : (setKeys (managed cfg) ls).2 = false ↔ right cfg ls = true := by
  rw [right_iff]
  constructor
  · generalize managed cfg = kvs
    intro h
    induction kvs with
    | nil => exact fun _ hkv => absurd hkv List.not_mem_nil
    | cons kv kvs ih =>
      simp only [setKeys, Bool.or_eq_false_iff] at h
      rcases setKey_cases ls kv.1 kv.2 with ⟨current, hread, heq, hset⟩ | ⟨_, -, -, hset⟩ |
        ⟨-, hset⟩
      · rw [hset] at h
        exact List.forall_mem_cons.mpr ⟨⟨current, hread, heq⟩, ih h.2⟩
      · rw [hset] at h
        cases h.1
      · rw [hset] at h
        cases h.1
  · intro h
    rw [setKeys_of_right fun kv hkv => by rw [← readKey_eq]; exact h kv hkv]

theorem right_linesOf_configured (himage : imageOf (linesOf text) = sysdir api) :
    right cfg (linesOf (configured cfg text)) = true := by
  rw [right_iff]
  intro kv hkv
  rw [readKey_eq]
  exact right_configured himage hkv

/-- Every line that is written is a line of the file. -/
theorem fileLines_joined (hls : ls ≠ []) (h : ∀ l ∈ ls, OneLine l) :
    fileLines (joined ls) = ls := by
  have hcr : '\r' ∉ unlines ls := by
    simp only [unlines, List.mem_flatMap, List.mem_append, not_exists, not_and, not_or]
    exact fun l hl => ⟨fun hmem => absurd (h l hl _ hmem) (by decide), by decide⟩
  rw [fileLines, joined_eq_unlines hls, universal_of_not_mem hcr]
  refine lines_unlines rfl fun l hl c hc => ?_
  by_contra hn
  have hnewline : c = '\n' := by simpa [isNewline] using hn
  have hone := h l hl c hc
  rw [hnewline] at hone
  exact absurd hone (by decide)

/-- A text that is not written again. -/
theorem configured_of_right (h : right cfg (linesOf text) = true) : configured cfg text = text :=
  if_neg (by rw [unchanged_iff.mpr h]; exact Bool.false_ne_true)

/-- A text that is: its lines end where Python's do. -/
theorem fileLines_configured (himage : imageOf (linesOf text) = sysdir api)
    (h : right cfg (linesOf text) = false) :
    fileLines (configured cfg text) = (setKeys (managed cfg) (linesOf text)).1 ∧
      ∀ l ∈ fileLines (configured cfg text), OneLine l := by
  have hchanged : (setKeys (managed cfg) (linesOf text)).2 = true := by
    by_contra hno
    rw [unchanged_iff.mp (Bool.eq_false_iff.mpr hno)] at h
    cases h
  have hone := oneLine_setKeys (settable_managed cfg) (oneLine_linesOf text)
  have hlines : fileLines (configured cfg text) = (setKeys (managed cfg) (linesOf text)).1 := by
    rw [configured, if_pos hchanged]
    exact fileLines_joined (setKeys_ne_nil (image_line himage)) hone
  exact ⟨hlines, hlines ▸ hone⟩

variable (cfg api) in
/-- A call is refused exactly when the image is another one. -/
theorem raised_configure (hconfig : d .config = some text) :
    (imageOf (linesOf text) ≠ sysdir api → ∃ message,
      configure cfg api d = ⟨d, [], some (.avdError message)⟩) ∧
    ((configure cfg api d).raised = none ↔ imageOf (linesOf text) = sysdir api) := by
  have hrefused : imageOf (linesOf text) ≠ sysdir api →
      configure cfg api d =
        ⟨d, [], some (.avdError (mismatch cfg (imageOf (linesOf text)) api))⟩ := by
    intro himage
    simp only [configure, hconfig, ne_eq, himage, not_false_eq_true, if_true]
  refine ⟨fun himage => ⟨_, hrefused himage⟩, fun hnone => ?_, fun himage =>
    (configure_matched cfg api hconfig himage).1⟩
  by_contra himage
  rw [hrefused himage] at hnone
  cases hnone

variable (cfg api) in
/-- A second call changes nothing, and does not write config.ini. -/
theorem configure_again (hconfig : d .config = some text)
    (himage : imageOf (linesOf text) = sysdir api) :
    (configure cfg api (configure cfg api d).texts).raised = none ∧
      (configure cfg api (configure cfg api d).texts).texts = (configure cfg api d).texts ∧
      .config ∉ (configure cfg api (configure cfg api d).texts).writes := by
  obtain ⟨-, htext, hquick, hregistry, htmp, -⟩ := configure_matched cfg api hconfig himage
  -- the image's key is not managed, so the second call is not refused either
  have himage' := imageOf_configured cfg himage
  -- nothing is left to set, and what is written is there already
  have hset : setKeys (managed cfg) (linesOf (configured cfg text)) =
      (linesOf (configured cfg text), false) :=
    setKeys_of_right fun kv hkv => right_configured himage hkv
  have hwritten : configure cfg api (configure cfg api d).texts =
      ⟨(configure cfg api d).texts.write .registry (registry cfg api), [.registry], none⟩ := by
    simp [configure.eq_def cfg api (configure cfg api d).texts, htext, himage', hset, hquick]
  rw [hwritten]
  refine ⟨rfl, funext fun f => ?_, by simp⟩
  simp only [Texts.write]
  split_ifs with hf hf'
  · rw [hf, hregistry]
  · rw [hf', htmp]
  · rfl

/-! ### Refusal, frame and idempotence -/

/-- **Refused, framed and idempotent**, for the lines of the file. -/
structure Framed (cfg : Config) (api : Nat) (d : Texts) (text : Str) : Prop where
  /-- With another image nothing is written. -/
  refused : imageOf (fileLines text) ≠ sysdir api → ∃ message,
    configure cfg api d = ⟨d, [], some (.avdError message)⟩
  /-- Otherwise the managed keys have their values, and the lines for no managed key stay, in
  their order, as do the other files. -/
  framed : imageOf (fileLines text) = sysdir api → (configure cfg api d).raised = none ∧
    ∃ text', (configure cfg api d).texts .config = some text' ∧
      right cfg (linesOf text') = true ∧ right cfg (fileLines text') = true ∧
      ((fileLines text).filter (unmanaged cfg)).Sublist (fileLines text') ∧
      ∀ path, (configure cfg api d).texts (.other path) = d (.other path)
  /-- A second call changes nothing, and does not write config.ini. -/
  again : imageOf (fileLines text) = sysdir api →
    (configure cfg api (configure cfg api d).texts).raised = none ∧
      (configure cfg api (configure cfg api d).texts).texts = (configure cfg api d).texts ∧
      .config ∉ (configure cfg api (configure cfg api d).texts).writes

/-- The cut of `splitlines` does not matter: the image is the same, and so are the managed values
when nothing is to be written; when config.ini is written, every line for no managed key is one
line for Python too. -/
structure Uncut (cfg : Config) (api : Nat) (text : Str) : Prop where
  image : imageOf (fileLines text) = sysdir api ↔ imageOf (linesOf text) = sysdir api
  kept : imageOf (linesOf text) = sysdir api → right cfg (linesOf text) = true →
    right cfg (fileLines text) = true
  written : imageOf (linesOf text) = sysdir api → right cfg (linesOf text) = false →
    ∀ l ∈ fileLines text, unmanaged cfg l = true → OneLine l

/-- The lines for no managed key stay. -/
theorem sublist_configured (himage : imageOf (linesOf text) = sysdir api)
    (hone : ∀ l ∈ fileLines text, unmanaged cfg l = true → OneLine l)
    (h : right cfg (linesOf text) = false) :
    ((fileLines text).filter (unmanaged cfg)).Sublist (fileLines (configured cfg text)) := by
  have hcut : linesOf text = lines isLineBreak (universal text) := by
    rw [linesOf, splitlines, crlf_of_not_mem (cr_notMem_universal text)]
  have hkept : (setKeys (managed cfg) (linesOf text)).1.filter (unmanaged cfg) =
      (linesOf text).filter (unmanaged cfg) :=
    filter_setKeys fun kv hkv line hline => by simpa using List.all_eq_true.mp hline kv hkv
  have hsub := (filter_lines_sublist hone).filter (unmanaged cfg)
  simp only [List.filter_filter, Bool.and_self] at hsub
  rw [← hcut, ← hkept] at hsub
  rw [(fileLines_configured himage h).1]
  exact hsub.trans List.filter_sublist

/-- **Refused, framed and idempotent**, exactly when the cut of `splitlines` does not matter. -/
theorem configure_framed_iff (hconfig : d .config = some text) :
    Framed cfg api d text ↔ Uncut cfg api text := by
  obtain ⟨hrefused, hraised⟩ := raised_configure cfg api hconfig
  constructor
  · intro h
    have himage : imageOf (fileLines text) = sysdir api ↔
        imageOf (linesOf text) = sysdir api := by
      rw [← hraised]
      refine ⟨fun himage => (h.framed himage).1, fun hnone => ?_⟩
      by_contra himage
      obtain ⟨message, hmessage⟩ := h.refused himage
      rw [hmessage] at hnone
      cases hnone
    refine ⟨himage, fun hmatch hright => ?_, fun hmatch hright l hl hline => ?_⟩
    · obtain ⟨-, text', htext', -, hfile, -⟩ := h.framed (himage.mpr hmatch)
      obtain ⟨-, htext, -⟩ := configure_matched cfg api hconfig hmatch
      cases htext.symm.trans htext'
      rwa [configured_of_right hright] at hfile
    · obtain ⟨-, text', htext', -, -, hsub, -⟩ := h.framed (himage.mpr hmatch)
      obtain ⟨-, htext, -⟩ := configure_matched cfg api hconfig hmatch
      cases htext.symm.trans htext'
      exact (fileLines_configured hmatch hright).2 l
        (hsub.subset (List.mem_filter.mpr ⟨hl, hline⟩))
  · intro h
    refine ⟨fun himage => hrefused fun hmatch => himage (h.image.mpr hmatch), fun himage => ?_,
      fun himage => configure_again cfg api hconfig (h.image.mp himage)⟩
    have hmatch := h.image.mp himage
    obtain ⟨hnone, htext, -, -, -, hother⟩ := configure_matched cfg api hconfig hmatch
    refine ⟨hnone, configured cfg text, htext, right_linesOf_configured hmatch, ?_, ?_, hother⟩
    · cases hright : right cfg (linesOf text) with
      | true =>
        rw [configured_of_right hright]
        exact h.kept hmatch hright
      | false =>
        rw [(fileLines_configured hmatch hright).1, ← linesOf_configured cfg (image_line hmatch)]
        exact right_linesOf_configured hmatch
    · cases hright : right cfg (linesOf text) with
      | true =>
        rw [configured_of_right hright]
        exact List.filter_sublist
      | false => exact sublist_configured hmatch (h.written hmatch hright) hright

/-- The emulator wrote the size back with spaces and a unit; other keys are missing. -/
theorem configure_framed_spaced :
    let cfg : Config := ⟨"android".toList, "/data/avd/android.avd".toList, 2048, 2⟩
    let text : Str := ("image.sysdir.1=system-images/android-36/google_apis_playstore/x86_64/\n" ++
      "hw.ramSize = 2048M\nhw.keyboard=yes\n").toList
    let d : Texts := fun f => if f = .config then some text else none
    Framed cfg 36 d text := by
  intro cfg text d
  refine (configure_framed_iff rfl).mpr ⟨by decide +kernel, fun _ hright => ?_, fun _ _ => ?_⟩
  · have hwrong : right cfg (linesOf text) = false := by decide +kernel
    cases hwrong.symm.trans hright
  · exact fun l hl _ => List.forall_mem_iff_forall_getElem.mpr (by decide +kernel) l hl

/-- The name of the AVD holds a character that ends a line for Python only: what stands behind it
is taken for a line of the size, and gets the managed value. -/
theorem configure_cuts :
    let cfg : Config := ⟨"android".toList, "/data/avd/android.avd".toList, 2048, 2⟩
    let name : Str := "avd.ini.displayname=My".toList ++ Char.ofNat 0x2028 :: "hw.ramSize=1".toList
    let text : Str :=
      "image.sysdir.1=system-images/android-36/google_apis_playstore/x86_64/\n".toList ++ name ++
        ['\n']
    let d : Texts := fun f => if f = .config then some text else none
    imageOf (fileLines text) = sysdir 36 ∧ name ∈ fileLines text ∧ unmanaged cfg name = true ∧
      ¬ Framed cfg 36 d text := by
  intro cfg name text d
  refine ⟨by decide +kernel, by decide +kernel, by decide +kernel, fun h => ?_⟩
  obtain ⟨-, text', htext', -, -, hsub, -⟩ := h.framed (by decide +kernel)
  have htext : (configure cfg 36 d).texts .config = some (configured cfg text) :=
    (configure_matched cfg 36 rfl (by decide +kernel)).2.1
  cases htext.symm.trans htext'
  have hlost : name ∉ fileLines (configured cfg text) := by decide +kernel
  exact hlost (hsub.subset (List.mem_filter.mpr ⟨by decide +kernel, by decide +kernel⟩))

/-! ### Lines in conflict -/

/-- No line gives the key another value than this one, up to the unit. -/
def Agrees (ls : List Str) (kv : Str × Str) : Prop :=
  ∀ line ∈ ls, ∀ v, valueOf kv.1 line = some v → dropUnit v = kv.2

theorem agrees_iff {kv : Str × Str} :
    Agrees ls kv ↔ ∀ v ∈ values ls kv.1, dropUnit v = kv.2 := by
  simp only [Agrees, values, List.mem_filterMap]
  constructor
  · rintro h v ⟨line, hline, hv⟩
    exact h line hline v hv
  · exact fun h line hline v hv => h v ⟨line, hline, hv⟩

/-- A key that is settled agrees, unless its first value was right and another one was not. -/
theorem settle_agrees (hvalue : PlainValue value) (vs : List Str) :
    (∀ v ∈ settle value vs, dropUnit v = value) ↔
      ∀ first, vs.head? = some first → dropUnit first = value → ∀ v ∈ vs, dropUnit v = value := by
  unfold settle
  cases hhead : vs.head? with
  | none => simp [hvalue.dropUnit]
  | some first =>
    by_cases heq : dropUnit first = value
    · simp [heq]
    · have hmap : ∀ v ∈ vs.map fun _ => value, dropUnit v = value := by
        intro v hv
        obtain ⟨_, -, rfl⟩ := List.mem_map.mp hv
        exact hvalue.dropUnit
      simp only [if_neg heq]
      refine iff_of_true hmap fun _ hfirst hright => ?_
      cases hfirst
      exact absurd hright heq

/-- **No line in conflict** in the file. When the call writes nothing, exactly when there is none
before it; otherwise exactly when every managed key whose first line is right already has no
other line that is not. -/
theorem configure_agrees_iff (hconfig : d .config = some text) :
    (∀ text', (configure cfg api d).texts .config = some text' →
      ∀ kv ∈ managed cfg, Agrees (fileLines text') kv) ↔
    (imageOf (linesOf text) ≠ sysdir api ∨ right cfg (linesOf text) = true →
      ∀ kv ∈ managed cfg, Agrees (fileLines text) kv) ∧
    (imageOf (linesOf text) = sysdir api → right cfg (linesOf text) = false →
      ∀ kv ∈ managed cfg, ∀ first, readKey (linesOf text) kv.1 = some first →
        dropUnit first = kv.2 → Agrees (linesOf text) kv) := by
  -- one text is left in any case
  have hleft : ∀ after, (configure cfg api d).texts .config = some after →
      ((∀ text', (configure cfg api d).texts .config = some text' →
        ∀ kv ∈ managed cfg, Agrees (fileLines text') kv) ↔
      ∀ kv ∈ managed cfg, Agrees (fileLines after) kv) := by
    intro after hafter
    refine ⟨fun h => h after hafter, fun h text' htext' => ?_⟩
    cases hafter.symm.trans htext'
    exact h
  by_cases hmatch : imageOf (linesOf text) = sysdir api
  · obtain ⟨-, htext, -⟩ := configure_matched cfg api hconfig hmatch
    rw [hleft _ htext]
    cases hright : right cfg (linesOf text) with
    | true =>
      rw [configured_of_right hright]
      simp [hmatch]
    | false =>
      have hset := settable_managed cfg
      have hkey : ∀ kv ∈ managed cfg, Agrees (fileLines (configured cfg text)) kv ↔
          ∀ first, readKey (linesOf text) kv.1 = some first → dropUnit first = kv.2 →
            Agrees (linesOf text) kv := by
        intro kv hkv
        rw [agrees_iff, (fileLines_configured hmatch hright).1, values_setKeys hset hkv,
          settle_agrees (hset.values kv hkv), readKey_eq]
        simp only [agrees_iff]
      simp only [hmatch, ne_eq, not_true_eq_false, Bool.false_eq_true, or_self, false_implies,
        true_and, true_implies]
      exact ⟨fun h kv hkv => (hkey kv hkv).mp (h kv hkv),
        fun h kv hkv => (hkey kv hkv).mpr (h kv hkv)⟩
  · obtain ⟨message, hrefused⟩ := (raised_configure cfg api hconfig).1 hmatch
    have htext : (configure cfg api d).texts .config = some text := by
      rw [hrefused]
      exact hconfig
    rw [hleft _ htext]
    simp [hmatch]

/-- Two different sizes, the wrong one first: both lines get the managed value. -/
theorem configure_agrees_wrong_first :
    let cfg : Config := ⟨"android".toList, "/data/avd/android.avd".toList, 2048, 2⟩
    let text : Str := ("image.sysdir.1=system-images/android-36/google_apis_playstore/x86_64/\n" ++
      "hw.ramSize=4096\nhw.ramSize=2048\n").toList
    let d : Texts := fun f => if f = .config then some text else none
    ∀ text', (configure cfg 36 d).texts .config = some text' →
      ∀ kv ∈ managed cfg, Agrees (fileLines text') kv := by
  intro cfg text d
  have hconfig : d .config = some text := rfl
  refine (configure_agrees_iff hconfig).mpr ⟨fun hkept => ?_,
    fun _ _ kv hkv first hfirst hright => ?_⟩
  · rcases hkept with hno | hright
    · exact absurd (by decide +kernel) hno
    · have hwrong : right cfg (linesOf text) = false := by decide +kernel
      cases hwrong.symm.trans hright
  -- the only key with a line is the size, and its first value is wrong
  · have hwrong : ∀ kv ∈ managed cfg, ∀ first, readKey (linesOf text) kv.1 = some first →
        dropUnit first ≠ kv.2 := by
      have hall : ((managed cfg).all fun kv =>
          (readKey (linesOf text) kv.1).all fun first => dropUnit first ≠ kv.2) = true := by
        decide +kernel
      intro kv hkv first hfirst
      have hone := List.all_eq_true.mp hall kv hkv
      rw [hfirst] at hone
      simpa using hone
    exact absurd hright (hwrong kv hkv first hfirst)

/-- Two different sizes, the right one first: the other line stays. -/
theorem configure_conflict :
    let cfg : Config := ⟨"android".toList, "/data/avd/android.avd".toList, 2048, 2⟩
    let text : Str := ("image.sysdir.1=system-images/android-36/google_apis_playstore/x86_64/\n" ++
      "hw.ramSize=2048\nhw.ramSize=4096\n").toList
    let d : Texts := fun f => if f = .config then some text else none
    imageOf (fileLines text) = sysdir 36 ∧
      ∃ text', (configure cfg 36 d).texts .config = some text' ∧
        ∃ kv ∈ managed cfg, ¬ Agrees (fileLines text') kv := by
  intro cfg text d
  have hline : "hw.ramSize=4096".toList ∈ fileLines (configured cfg text) := by decide +kernel
  refine ⟨by decide +kernel, configured cfg text,
    (configure_matched cfg 36 (d := d) rfl (by decide +kernel)).2.1,
    ("hw.ramSize".toList, ofNat 2048), List.mem_cons_self, fun h => ?_⟩
  exact absurd (h _ hline "4096".toList (by decide +kernel)) (by decide +kernel)

end Avd

end AndroidAppliance
