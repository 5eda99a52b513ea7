import AndroidAppliance.Text.Lines
import AndroidAppliance.Transition.Machine

/-!
# The images of an instance

`read_images`, `write_images`, `rotate_images` and the part of `install_appliance` between them,
of `install.sh`. The images file keeps the current and the previous image of the instance, each
with a mark: whether `install.sh` built it.

A `Host` is the file with what happened to its images so far. `Kept` is the invariant of its
runs: the two images differ, and every image that was built and became current is in one of the
two places with its mark, or was reported as dropped.
-/

namespace AndroidAppliance

namespace Install

/-! ### Names -/

/-- `[[ $s =~ ^FIRST REST*$ ]]` for two classes of characters. -/
def fullmatch (first rest : Char → Bool) : Str → Bool
  | [] => false
  | c :: s => first c && s.all rest

/-- `[A-Za-z0-9]`. -/
def isAlnum (c : Char) : Bool :=
  ('A' ≤ c && c ≤ 'Z') || ('a' ≤ c && c ≤ 'z') || ('0' ≤ c && c ≤ '9')

/-- `^[A-Za-z0-9][A-Za-z0-9._:/@-]*$`. -/
def isImage (s : Str) : Bool :=
  fullmatch isAlnum (fun c => isAlnum c || "._:/@-".toList.contains c) s

/-- `^[A-Za-z0-9][A-Za-z0-9_.-]*$`. -/
def isName (s : Str) : Bool :=
  fullmatch isAlnum (fun c => isAlnum c || "_.-".toList.contains c) s

/-- An `APPLIANCE_IMAGE` that `load_settings` lets pass. -/
structure Image where
  text : Str
  valid : isImage text = true

/-- An `APPLIANCE_NAME` that it lets pass. -/
structure Name where
  text : Str
  valid : isName text = true

/-! ### The images file -/

/-- The variables of `read_images`. -/
structure Images where
  current : Str
  currentBuilt : Str
  previous : Str
  previousBuilt : Str
  deriving DecidableEq, Repr

/-- `IFS='=' read -r key value`: the value is the rest of the line; one `=` that ends it goes, if
there is no other. -/
def readPair (line : Str) : Str × Str :=
  let cut := Str.partition '=' line
  let again := Str.partition '=' cut.2.2
  (cut.1, if again.2.2.isEmpty then again.1 else cut.2.2)

/-- The values before the file is read. -/
def Images.empty : Images := ⟨[], ['0'], [], ['0']⟩

/-- The `case` of `read_images`. -/
def Images.put (i : Images) (key value : Str) : Images :=
  if key = "CURRENT_IMAGE".toList then { i with current := value }
  else if key = "CURRENT_BUILT".toList then { i with currentBuilt := value }
  else if key = "PREVIOUS_IMAGE".toList then { i with previous := value }
  else if key = "PREVIOUS_BUILT".toList then { i with previousBuilt := value }
  else i

/-- One line of the file is read. -/
def Images.readLine (i : Images) (line : Str) : Images :=
  i.put (readPair line).1 (readPair line).2

/-- `read_images`, of the text of the file if there is one. -/
def readImages : Option Str → Images
  | none => .empty
  | some text => (Str.terminated Str.isNewline text).foldl Images.readLine .empty

/-- `write_images`. -/
def writeImages (name : Name) (i : Images) : Str :=
  Str.unlines [
    "# Managed by install.sh: the images of ".toList ++ name.text ++
      ". --rollback switches to".toList,
    "# the previous image.".toList,
    "CURRENT_IMAGE=".toList ++ i.current,
    "CURRENT_BUILT=".toList ++ i.currentBuilt,
    "PREVIOUS_IMAGE=".toList ++ i.previous,
    "PREVIOUS_BUILT=".toList ++ i.previousBuilt]

/-! ### A run -/

/-- `rotate_images`, with `dropped_image`. -/
def rotateImages (i : Images) (new built : Str) : Images × Str :=
  if new = i.current then ({ i with currentBuilt := built }, [])
  else (⟨new, built, i.current, i.currentBuilt⟩,
    if new ≠ i.previous ∧ i.previous ≠ [] ∧ i.previousBuilt = ['1'] then i.previous else [])

/-- What completes: an installation or a print-run, of an image that it builds or not, or a
rollback. -/
inductive Run where
  | install (image : Image) (build : Bool)
  | printRun (image : Image) (build : Bool)
  | rollback

/-- The image that a run builds. -/
def Run.builds : Run → Option Str
  | .install image true => some image.text
  | .printRun image true => some image.text
  | .install _ false => none
  | .printRun _ false => none
  | .rollback => none

/-- The mark of the image of an installation. -/
def builtMark (i : Images) (image : Str) (build : Bool) : Str :=
  if build then ['1']
  else if image = i.previous then i.previousBuilt
  else if image = i.current then i.currentBuilt
  else ['0']

/-- `image` and `built` of `install_appliance`; a rollback without a previous image dies. -/
def Run.choose (i : Images) : Run → Option (Str × Str)
  | .rollback => if i.previous.isEmpty then none else some (i.previous, i.previousBuilt)
  | .install image build => some (image.text, builtMark i image.text build)
  | .printRun image build => some (image.text, builtMark i image.text build)

/-- The images file, and what happened so far. -/
structure Host where
  file : Option Str
  /-- `dropped_image` of the last run. -/
  dropped : Str
  /-- The images that were current after the run that built them. -/
  built : List Str
  /-- What the runs reported as dropped. -/
  reported : List Str
  deriving DecidableEq, Repr

/-- The images that a run reads. -/
def Host.images (h : Host) : Images := readImages h.file

/-- A completed run. -/
def step (name : Name) (h : Host) (r : Run) : Option Host :=
  (r.choose h.images).map fun choice =>
    let rotated := rotateImages h.images choice.1 choice.2
    { file := some (writeImages name rotated.1)
      dropped := rotated.2
      built := r.builds.toList ++ h.built
      reported := if rotated.2.isEmpty then h.reported else rotated.2 :: h.reported }

/-- The runs from a file that is missing or empty. -/
def machine (name : Name) : Machine Host Run where
  Init h := (h.file = none ∨ h.file = some []) ∧ h.dropped = [] ∧ h.built = [] ∧ h.reported = []
  step := step name

/-! ### What is written is read -/

/-- What a line of the file can hold. -/
def Plain (s : Str) : Prop := '\n' ∉ s ∧ '=' ∉ s

theorem not_mem_of_fullmatch {first rest : Char → Bool} {s : Str} {c : Char}
    (h : fullmatch first rest s = true) (hfirst : first c = false) (hrest : rest c = false) :
    c ∉ s := by
  cases s with
  | nil => exact List.not_mem_nil
  | cons d s =>
    rw [fullmatch, Bool.and_eq_true, List.all_eq_true] at h
    rintro (_ | ⟨_, hmem⟩)
    · rw [h.1] at hfirst
      cases hfirst
    · rw [h.2 c hmem] at hrest
      cases hrest

theorem Image.plain (image : Image) : Plain image.text :=
  ⟨not_mem_of_fullmatch image.valid (by decide) (by decide),
    not_mem_of_fullmatch image.valid (by decide) (by decide)⟩

theorem Image.ne_nil (image : Image) : image.text ≠ [] := by
  intro h
  have hvalid := image.valid
  rw [h] at hvalid
  cases hvalid

theorem Name.no_newline (name : Name) : '\n' ∉ name.text :=
  not_mem_of_fullmatch name.valid (by decide) (by decide)

/-- A key and its value. -/
theorem readPair_assign {key value : Str} (hkey : '=' ∉ key) (hvalue : '=' ∉ value) :
    readPair (key ++ '=' :: value) = (key, value) := by
  simp only [readPair, Str.partition_sep hkey, Str.partition_free hvalue, List.isEmpty_nil, if_true]

theorem readLine_assign (i : Images) {line : Str} (key : Str) {value : Str}
    (hline : line = key ++ ['=']) (hkey : '=' ∉ key) (hvalue : '=' ∉ value) :
    i.readLine (line ++ value) = i.put key value := by
  rw [Images.readLine, hline, List.append_assoc, List.singleton_append,
    readPair_assign hkey hvalue]

/-- A line that begins with `#` is for no value. -/
theorem readLine_comment (i : Images) {line : Str} (h : line.head? = some '#') :
    i.readLine line = i := by
  obtain ⟨s, rfl⟩ := List.head?_eq_some_iff.mp h
  have hhead : (readPair ('#' :: s)).1.head? = some '#' := by
    simp [readPair, Str.partition]
  have hne : ∀ {key : Str}, key.head? ≠ some '#' → (readPair ('#' :: s)).1 ≠ key := by
    rintro key hkey rfl
    exact hkey hhead
  rw [Images.readLine, Images.put, if_neg (hne (by decide)), if_neg (hne (by decide)),
    if_neg (hne (by decide)), if_neg (hne (by decide))]

/-- All four values can be written. -/
structure Images.Plain (i : Images) : Prop where
  current : Install.Plain i.current
  currentBuilt : Install.Plain i.currentBuilt
  previous : Install.Plain i.previous
  previousBuilt : Install.Plain i.previousBuilt

/-- **Round trip.** -/
theorem readImages_writeImages (name : Name) {i : Images} (h : i.Plain) :
    readImages (some (writeImages name i)) = i := by
  rw [readImages, writeImages, Str.terminated_unlines (by
    simp [name.no_newline, h.current.1, h.currentBuilt.1, h.previous.1, h.previousBuilt.1])]
  simp only [List.foldl_cons, List.foldl_nil]
  rw [readLine_assign _ "PREVIOUS_BUILT".toList (by decide) (by decide) h.previousBuilt.2,
    readLine_assign _ "PREVIOUS_IMAGE".toList (by decide) (by decide) h.previous.2,
    readLine_assign _ "CURRENT_BUILT".toList (by decide) (by decide) h.currentBuilt.2,
    readLine_assign _ "CURRENT_IMAGE".toList (by decide) (by decide) h.current.2,
    readLine_comment _ (by rfl), readLine_comment _ (by rfl)]
  rfl

/-! ### One run -/

/-- The image is in one of the two places, with this mark. -/
def Images.Placed (i : Images) (image mark : Str) : Prop :=
  (i.current = image ∧ i.currentBuilt = mark) ∨ (i.previous = image ∧ i.previousBuilt = mark)

/-- The places of two different images; the previous place is filled after the current one. -/
structure Images.Ok (i : Images) : Prop where
  plain : i.Plain
  first : i.current = [] → i.previous = []
  distinct : i.current ≠ [] → i.current ≠ i.previous

variable {i : Images} {r : Run} {new mark mark' image : Str}

/-- An image has one mark. -/
theorem Images.Ok.mark_unique (h : i.Ok) (hne : image ≠ []) (hm : i.Placed image mark)
    (hm' : i.Placed image mark') : mark = mark' := by
  have hnot : i.current = image → i.previous ≠ image := by
    rintro rfl hprevious
    exact h.distinct hne hprevious.symm
  rcases hm with ⟨himage, rfl⟩ | ⟨himage, rfl⟩ <;> rcases hm' with ⟨himage', rfl⟩ | ⟨himage', rfl⟩
  · rfl
  · exact absurd himage' (hnot himage)
  · exact absurd himage (hnot himage')
  · rfl

/-- What a run chooses: an image that it builds, or one with the mark that it has. -/
structure Chosen (i : Images) (r : Run) (new mark : Str) : Prop where
  ne_nil : new ≠ []
  plain : Plain new ∧ Plain mark
  built : r.builds = some new → mark = ['1']
  unbuilt : r.builds ≠ some new → r.builds = none ∧ (mark = ['1'] → i.Placed new ['1']) ∧
    ∀ old, i.Placed new old → mark = old

theorem plain_mark : Plain ['0'] ∧ Plain ['1'] :=
  ⟨⟨by decide, by decide⟩, ⟨by decide, by decide⟩⟩

theorem chosen_install (h : i.Ok) (image : Image) (build : Bool)
    (hbuilds : r.builds = if build then some image.text else none) :
    Chosen i r image.text (builtMark i image.text build) := by
  have hplaced : i.Placed image.text (builtMark i image.text false) ∨
      builtMark i image.text false = ['0'] ∧ ∀ old, ¬ i.Placed image.text old := by
    simp only [builtMark, Bool.false_eq_true, if_false]
    split_ifs with hprevious hcurrent
    · exact .inl (.inr ⟨hprevious.symm, rfl⟩)
    · exact .inl (.inl ⟨hcurrent.symm, rfl⟩)
    · refine .inr ⟨rfl, fun old => ?_⟩
      rintro (⟨heq, -⟩ | ⟨heq, -⟩)
      · exact hcurrent heq.symm
      · exact hprevious heq.symm
  cases build with
  | true =>
    refine ⟨image.ne_nil, ⟨image.plain, plain_mark.2⟩, fun _ => rfl, fun hne => absurd ?_ hne⟩
    simpa using hbuilds
  | false =>
    have hnone : r.builds = none := by simpa using hbuilds
    refine ⟨image.ne_nil, ⟨image.plain, ?_⟩, fun hsome => ?_, fun _ => ⟨hnone, fun hone => ?_, ?_⟩⟩
    · rcases hplaced with (⟨-, heq⟩ | ⟨-, heq⟩) | ⟨heq, -⟩
      · exact heq ▸ h.plain.currentBuilt
      · exact heq ▸ h.plain.previousBuilt
      · exact heq.symm ▸ plain_mark.1
    · rw [hnone] at hsome
      cases hsome
    · rcases hplaced with hplaced | ⟨hzero, -⟩
      · rwa [hone] at hplaced
      · rw [hzero] at hone
        cases hone
    · intro old hold
      rcases hplaced with hplaced | ⟨-, hnot⟩
      · exact h.mark_unique image.ne_nil hplaced hold
      · exact absurd hold (hnot old)

theorem chosen_of_choose (h : i.Ok) (hchoose : r.choose i = some (new, mark)) :
    Chosen i r new mark := by
  cases r with
  | rollback =>
    rw [Run.choose] at hchoose
    split_ifs at hchoose with hempty
    cases hchoose
    have hne : i.previous ≠ [] := by simpa using hempty
    refine ⟨hne, ⟨h.plain.previous, h.plain.previousBuilt⟩, ?_, fun _ => ⟨rfl, ?_, ?_⟩⟩
    · intro hsome
      cases hsome
    · intro hone
      exact .inr ⟨rfl, hone⟩
    · intro old hold
      exact h.mark_unique hne (.inr ⟨rfl, rfl⟩) hold
  | install image build =>
    cases hchoose
    exact chosen_install h image build (by cases build <;> rfl)
  | printRun image build =>
    cases hchoose
    exact chosen_install h image build (by cases build <;> rfl)

/-- The chosen image is current already: its mark is written again. -/
theorem rotateImages_same (built : Str) :
    rotateImages i i.current built = ({ i with currentBuilt := built }, []) :=
  if_pos rfl

/-- The chosen image becomes current, and the current one previous. -/
theorem rotateImages_other (hne : new ≠ i.current) (built : Str) :
    rotateImages i new built = (⟨new, built, i.current, i.currentBuilt⟩,
      if new ≠ i.previous ∧ i.previous ≠ [] ∧ i.previousBuilt = ['1'] then i.previous else []) :=
  if_neg hne

namespace Chosen

theorem ok (hc : Chosen i r new mark) (h : i.Ok) : (rotateImages i new mark).1.Ok := by
  by_cases hnew : new = i.current
  · subst hnew
    rw [rotateImages_same]
    exact ⟨⟨h.plain.current, hc.plain.2, h.plain.previous, h.plain.previousBuilt⟩, h.first,
      h.distinct⟩
  · rw [rotateImages_other hnew]
    exact ⟨⟨hc.plain.1, hc.plain.2, h.plain.current, h.plain.currentBuilt⟩,
      fun hnil => absurd hnil hc.ne_nil, fun _ => hnew⟩

/-- What drops out was in the previous place with the mark, and is in neither place now. -/
theorem dropped (_ : Chosen i r new mark) (h : i.Ok) (hd : (rotateImages i new mark).2 ≠ []) :
    (rotateImages i new mark).2 ≠ (rotateImages i new mark).1.current ∧
      (rotateImages i new mark).2 ≠ (rotateImages i new mark).1.previous ∧
        i.Placed (rotateImages i new mark).2 ['1'] := by
  by_cases hnew : new = i.current
  · subst hnew
    rw [rotateImages_same] at hd
    exact absurd rfl hd
  · rw [rotateImages_other hnew] at hd ⊢
    by_cases hout : new ≠ i.previous ∧ i.previous ≠ [] ∧ i.previousBuilt = ['1']
    · rw [if_pos hout]
      refine ⟨hout.1.symm, fun heq => ?_, .inr ⟨rfl, hout.2.2⟩⟩
      have hcurrent : i.current ≠ [] := fun hnil => hout.2.1 (h.first hnil)
      exact h.distinct hcurrent heq.symm
    · rw [if_neg hout] at hd
      exact absurd rfl hd

/-- The mark of an image after the run is the one before it, unless the run built the image. -/
theorem mark_moves (hc : Chosen i r new mark) (h : i.Ok) (hne : image ≠ [])
    {old now : Str} (hold : i.Placed image old)
    (hnow : (rotateImages i new mark).1.Placed image now) :
    now = old ∨ r.builds = some image ∧ now = ['1'] := by
  -- for the image that the run chose, either it is built, or its mark was looked up
  have hchosen : new = image → mark = old ∨ r.builds = some image ∧ mark = ['1'] := by
    rintro rfl
    by_cases hbuilds : r.builds = some new
    · exact .inr ⟨hbuilds, hc.built hbuilds⟩
    · exact .inl ((hc.unbuilt hbuilds).2.2 old hold)
  by_cases hnew : new = i.current
  · subst hnew
    rw [rotateImages_same] at hnow
    rcases hnow with ⟨himage, rfl⟩ | ⟨himage, rfl⟩
    · exact hchosen himage
    · exact .inl (h.mark_unique hne (.inr ⟨himage, rfl⟩) hold)
  · rw [rotateImages_other hnew] at hnow
    rcases hnow with ⟨himage, rfl⟩ | ⟨himage, rfl⟩
    · exact hchosen himage
    · exact .inl (h.mark_unique hne (.inl ⟨himage, rfl⟩) hold)

/-- An image with the mark keeps a place and the mark, or drops out. -/
theorem keeps (hc : Chosen i r new mark) (hne : image ≠ []) (hone : i.Placed image ['1']) :
    (rotateImages i new mark).1.Placed image ['1'] ∨ (rotateImages i new mark).2 = image := by
  have hchosen : new = image → mark = ['1'] := by
    rintro rfl
    by_cases hbuilds : r.builds = some new
    · exact hc.built hbuilds
    · exact (hc.unbuilt hbuilds).2.2 _ hone
  by_cases hnew : new = i.current
  · subst hnew
    rw [rotateImages_same]
    rcases hone with ⟨himage, -⟩ | hprevious
    · exact .inl (.inl ⟨himage, hchosen himage⟩)
    · exact .inl (.inr hprevious)
  · rw [rotateImages_other hnew]
    rcases hone with hcurrent | ⟨rfl, hmark⟩
    · exact .inl (.inr hcurrent)
    · by_cases hback : new = i.previous
      · exact .inl (.inl ⟨hback, hchosen hback⟩)
      · exact .inr (if_pos ⟨hback, hne, hmark⟩)

/-- Only an image that is built gets the mark. -/
theorem marked (hc : Chosen i r new mark) (hone : (rotateImages i new mark).1.Placed image ['1']) :
    r.builds = some image ∨ i.Placed image ['1'] := by
  have hchosen : new = image → mark = ['1'] → r.builds = some image ∨ i.Placed image ['1'] := by
    rintro rfl hmark
    by_cases hbuilds : r.builds = some new
    · exact .inl hbuilds
    · exact .inr ((hc.unbuilt hbuilds).2.1 hmark)
  by_cases hnew : new = i.current
  · subst hnew
    rw [rotateImages_same] at hone
    rcases hone with ⟨himage, hmark⟩ | hprevious
    · exact hchosen himage hmark
    · exact .inr (.inr hprevious)
  · rw [rotateImages_other hnew] at hone
    rcases hone with ⟨himage, hmark⟩ | hcurrent
    · exact hchosen himage hmark
    · exact .inr (.inl hcurrent)

/-- What a run builds is current after it, with the mark. -/
theorem built_placed (hc : Chosen i r new mark) (hbuilds : r.builds = some image) :
    (rotateImages i new mark).1.Placed image ['1'] := by
  have hnew : r.builds = some new := by
    by_contra hnot
    rw [(hc.unbuilt hnot).1] at hbuilds
    cases hbuilds
  have himage : new = image := Option.some.inj (hnew.symm.trans hbuilds)
  have hmark := hc.built hnew
  by_cases hsame : new = i.current
  · subst hsame
    rw [rotateImages_same]
    exact .inl ⟨himage, hmark⟩
  · rw [rotateImages_other hsame]
    exact .inl ⟨himage, hmark⟩

end Chosen

/-- A rollback after a rollback. -/
theorem rollback_rollback (h : i.Ok) {new' : Str}
    (h1 : Run.rollback.choose i = some (new, mark))
    (h2 : Run.rollback.choose (rotateImages i new mark).1 = some (new', mark')) :
    (rotateImages (rotateImages i new mark).1 new' mark').1 = i := by
  have hchoose : ∀ {i : Images} {new mark : Str}, Run.rollback.choose i = some (new, mark) →
      i.previous ≠ [] ∧ new = i.previous ∧ mark = i.previousBuilt := by
    intro i new mark hsome
    rw [Run.choose] at hsome
    split_ifs at hsome with hempty
    cases hsome
    exact ⟨by simpa using hempty, rfl, rfl⟩
  obtain ⟨hne, rfl, rfl⟩ := hchoose h1
  -- neither of the two finds its image in the current place
  have hcurrent : i.current ≠ [] := fun hnil => hne (h.first hnil)
  have hother := (h.distinct hcurrent).symm
  rw [rotateImages_other hother] at h2 ⊢
  obtain ⟨-, rfl, rfl⟩ := hchoose h2
  rw [rotateImages_other (h.distinct hcurrent)]

/-! ### Runs -/

/-- The invariant. -/
structure Kept (h : Host) : Prop where
  ok : h.images.Ok
  ne_nil : ∀ image ∈ h.built, image ≠ []
  found : ∀ image ∈ h.built, image ∈ h.reported ∨ h.images.Placed image ['1']
  marked : ∀ image, h.images.Placed image ['1'] → image ∈ h.built
  apart : h.dropped ≠ [] → h.dropped ≠ h.images.current ∧ h.dropped ≠ h.images.previous ∧
    h.dropped ∈ h.built

variable {name : Name} {h h' : Host}

/-- What a run leaves. -/
theorem step_spec (hok : h.images.Ok) (hstep : step name h r = some h') :
    ∃ new mark, r.choose h.images = some (new, mark) ∧ Chosen h.images r new mark ∧
      h'.images = (rotateImages h.images new mark).1 ∧
      h'.dropped = (rotateImages h.images new mark).2 ∧
      h'.built = r.builds.toList ++ h.built ∧
      h'.reported = if h'.dropped.isEmpty then h.reported else h'.dropped :: h.reported := by
  obtain ⟨⟨new, mark⟩, hchoose, rfl⟩ := Option.map_eq_some_iff.mp hstep
  have hc := chosen_of_choose hok hchoose
  exact ⟨new, mark, hchoose, hc, readImages_writeImages name (hc.ok hok).plain, rfl, rfl, rfl⟩

theorem Kept.init (hinit : (machine name).Init h) : Kept h := by
  obtain ⟨hfile, hdropped, hbuilt, -⟩ := hinit
  have himages : h.images = Images.empty := by
    rcases hfile with hfile | hfile <;> rw [Host.images, hfile] <;> rfl
  refine ⟨?_, ?_, ?_, ?_, fun hne => absurd hdropped hne⟩
  · have hnil : Plain [] := ⟨List.not_mem_nil, List.not_mem_nil⟩
    rw [himages]
    exact ⟨⟨hnil, plain_mark.1, hnil, plain_mark.1⟩, fun _ => rfl, fun hne => absurd rfl hne⟩
  · simp [hbuilt]
  · simp [hbuilt]
  · rw [himages]
    rintro image (⟨-, hmark⟩ | ⟨-, hmark⟩) <;> cases hmark

theorem Kept.step (hk : Kept h) (hstep : Install.step name h r = some h') : Kept h' := by
  obtain ⟨new, mark, -, hc, himages, hdropped, hbuilt, hreported⟩ := step_spec hk.ok hstep
  have hmono : ∀ image ∈ h.reported, image ∈ h'.reported := by
    intro image hmem
    rw [hreported]
    split
    · exact hmem
    · exact List.mem_cons_of_mem _ hmem
  have hbuilds : ∀ image, image ∈ h'.built ↔ r.builds = some image ∨ image ∈ h.built := by
    intro image
    rw [hbuilt, List.mem_append, Option.mem_toList]
  -- the empty name is that of a free place, never of an image that was built
  have hne : ∀ image ∈ h'.built, image ≠ [] := by
    intro image hmem
    rcases (hbuilds image).mp hmem with hnew | hold
    · rintro rfl
      by_cases hchosen : r.builds = some new
      · exact hc.ne_nil (Option.some.inj (hchosen.symm.trans hnew))
      · rw [(hc.unbuilt hchosen).1] at hnew
        cases hnew
    · exact hk.ne_nil image hold
  refine ⟨himages ▸ hc.ok hk.ok, hne, fun image hmem => ?_, fun image hone => ?_, fun hd => ?_⟩
  · rw [himages]
    rcases (hbuilds image).mp hmem with hnew | hold
    · exact .inr (hc.built_placed hnew)
    rcases hk.found image hold with hreport | hplaced
    · exact .inl (hmono image hreport)
    rcases hc.keeps (hne image hmem) hplaced with hkept | hout
    · exact .inr hkept
    · -- the image drops out: this run reports it
      refine .inl ?_
      have hfilled : h'.dropped.isEmpty = false := by
        rw [hdropped, hout]
        simpa using hne image hmem
      rw [hreported, hfilled, ← hout, ← hdropped]
      exact List.mem_cons_self
  · rw [himages] at hone
    exact (hbuilds image).mpr ((hc.marked hone).imp_right (hk.marked image))
  · rw [hdropped] at hd
    obtain ⟨hcurrent, hprevious, hplaced⟩ := hc.dropped hk.ok hd
    rw [hdropped, himages]
    exact ⟨hcurrent, hprevious, by rw [hbuilt, List.mem_append]; exact .inr (hk.marked _ hplaced)⟩

theorem kept_of_reachable (hr : (machine name).Reachable h) : Kept h :=
  hr.invariant (fun _ => Kept.init) fun _ _ _ hk _ => hk.step

/-- **The bookkeeping of the images**, after any runs and in the next one: the two images differ,
what drops out is neither of them and had the mark, no built image is lost, the mark moves with
its image, and two rollbacks restore all four values. -/
theorem images_bookkeeping (hr : (machine name).Reachable h) :
    (h.images.current ≠ [] → h.images.previous ≠ [] → h.images.current ≠ h.images.previous) ∧
    (∀ image ∈ h.built,
      image = h.images.current ∨ image = h.images.previous ∨ image ∈ h.reported) ∧
    ∀ r h', step name h r = some h' →
      (h'.dropped ≠ [] → h'.dropped ≠ h'.images.current ∧ h'.dropped ≠ h'.images.previous ∧
        h.images.Placed h'.dropped ['1'] ∧ h'.dropped ∈ h'.built) ∧
      (∀ image old now, image ≠ [] → h.images.Placed image old → h'.images.Placed image now →
        now = old ∨ r.builds = some image ∧ now = ['1']) ∧
      (r = .rollback → ∀ h'', step name h' .rollback = some h'' → h''.images = h.images) := by
  have hk := kept_of_reachable hr
  refine ⟨fun hne _ => hk.ok.distinct hne, fun image hmem => ?_, fun r h' hstep => ?_⟩
  · rcases hk.found image hmem with hreport | ⟨himage, -⟩ | ⟨himage, -⟩
    · exact .inr (.inr hreport)
    · exact .inl himage.symm
    · exact .inr (.inl himage.symm)
  have hk' := hk.step hstep
  obtain ⟨new, mark, hchoose, hc, himages, hdropped, -, -⟩ := step_spec hk.ok hstep
  refine ⟨fun hd => ?_, fun image old now hne hold hnow => ?_, ?_⟩
  · obtain ⟨hcurrent, hprevious, hbuilt⟩ := hk'.apart hd
    refine ⟨hcurrent, hprevious, ?_, hbuilt⟩
    rw [hdropped] at hd ⊢
    exact (hc.dropped hk.ok hd).2.2
  · rw [himages] at hnow
    exact hc.mark_moves hk.ok hne hold hnow
  · rintro rfl h'' hstep'
    obtain ⟨new', mark', hchoose', -, himages', -⟩ := step_spec hk'.ok hstep'
    rw [himages] at hchoose' himages'
    rw [himages', rollback_rollback hk.ok hchoose hchoose']

/-- Three images are built one after another, and the first one drops out. -/
theorem images_bookkeeping_three :
    let name : Name := ⟨['a'], by decide⟩
    let one : Image := ⟨['o'], by decide⟩
    let two : Image := ⟨['t', ':', '2'], by decide⟩
    let three : Image := ⟨['t', ':', '3'], by decide⟩
    ∃ h, (machine name).run ⟨none, [], [], []⟩
        [.install one true, .install two true, .printRun three true] = some h ∧
      h.dropped = ['o'] ∧ h.images.current ≠ h.images.previous ∧
        ∀ image ∈ h.built,
          image = h.images.current ∨ image = h.images.previous ∨ image ∈ h.reported := by
  intro name one two three
  have hrun : (machine name).run ⟨none, [], [], []⟩
      [.install one true, .install two true, .printRun three true] =
      some ⟨some (writeImages name ⟨['t', ':', '3'], ['1'], ['t', ':', '2'], ['1']⟩), ['o'],
        [['t', ':', '3'], ['t', ':', '2'], ['o']], [['o']]⟩ := by decide +kernel
  have hr : (machine name).Reachable _ :=
    Machine.Reachable.of_run (.init ⟨.inl rfl, rfl, rfl, rfl⟩) hrun
  have himages := readImages_writeImages name
    (i := ⟨['t', ':', '3'], ['1'], ['t', ':', '2'], ['1']⟩)
    ⟨three.plain, plain_mark.2, two.plain, plain_mark.2⟩
  have hkept := images_bookkeeping hr
  refine ⟨_, hrun, rfl, hkept.1 ?_ ?_, hkept.2.1⟩
  · rw [Host.images, himages]
    decide
  · rw [Host.images, himages]
    decide

end Install

end AndroidAppliance
