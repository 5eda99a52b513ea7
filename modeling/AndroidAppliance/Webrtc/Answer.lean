import AndroidAppliance.Webrtc.Sections

/-!
# The throwaway answer

`throwaway_answer` cuts the offer with `splitlines`, which also ends a line at other characters,
such as a vertical tab. The answer follows the sections that this cut gives
(`answers_of_complete`). So it follows the offer just when the two cuts offer the same
(`throwaway_answers_iff`); an `m=` behind a vertical tab makes it raise (`throwaway_raises`).
-/

namespace AndroidAppliance

namespace Webrtc

namespace Answer

open Sdp

variable {ls section_ : List Str} {secrets : Secrets}

/-! ### The whole answer -/

/-- The answer follows the offers, and the candidate names the mid of the first. -/
structure Answers (offers : List Offered) (address : Str) (answer candidate : Str) : Prop where
  sections : List.Forall₂ Follows offers (sections (lines answer))
  bundle : (lines answer).filter (startsWith "a=group:BUNDLE")
    = ["a=group:BUNDLE ".toList ++ [' '].intercalate (offers.map Offered.mid)]
  /-- The ICE and DTLS lines are the same in all sections. -/
  transport : ∃ same, same ≠ [] ∧
    ∀ section_ ∈ Sdp.sections (lines answer), section_.filter isTransport = same
  candidate : ∃ offer, offers.head? = some offer ∧ candidate = deadCandidate address offer.mid

/-- An answer follows no other offers. -/
theorem Answers.unique {o o' : List Offered} {address answer candidate : Str}
    (h : Answers o address answer candidate) (h' : Answers o' address answer candidate) :
    o = o' := by
  have hunique : ∀ {a b : Offered} {section_ : List Str}, Follows a section_ →
      Follows b section_ → a = b := by
    rintro ⟨media, proto, accepted, mid, rtpmap⟩ ⟨media', proto', accepted', mid', rtpmap'⟩
      section_ ha hb
    obtain rfl : media = media' := ha.media.symm.trans hb.media
    obtain rfl : proto = proto' := ha.proto.symm.trans hb.proto
    obtain rfl : accepted = accepted' := ha.formats.symm.trans hb.formats
    obtain rfl : mid = mid' := List.append_cancel_left
      (List.singleton_inj.mp (ha.mid.symm.trans hb.mid))
    have hrtpmap : rtpmap.toList = rtpmap'.toList := ha.rtpmap.symm.trans hb.rtpmap
    obtain rfl : rtpmap = rtpmap' := by simpa using congrArg List.head? hrtpmap
    rfl
  have hleft : Relator.LeftUnique Follows := by
    intro a _ b ha hb
    exact hunique ha hb
  exact List.left_unique_forall₂' hleft h.sections h'.sections

/-- What the code makes of a section, when nothing is raised. -/
def blockOf (secrets : Secrets) (section_ : List Str × Nat) : List Str :=
  sectionLines secrets (media section_.1) ((proto section_.1).getD [])
    (acceptedText (offered section_.2 section_.1)) (offered section_.2 section_.1).mid
    (attributesOf section_.1)

/-- No `IndexError` for this section. -/
def Complete (section_ : List Str) : Prop :=
  (proto section_).isSome = true ∧ (media section_ ≠ application → formats section_ ≠ [])

/-- A complete section is answered. -/
theorem answerSection_of_complete (secrets : Secrets) {i : Nat} (h : Complete section_) :
    answerSection secrets (midOf i section_) section_ = some (blockOf secrets (section_, i)) := by
  obtain ⟨hproto, hformats⟩ := h
  obtain ⟨proto_, hproto_⟩ := Option.isSome_iff_exists.mp hproto
  have heq := answerSection_eq secrets i section_
  rw [hproto_, Option.bind_some, if_neg fun hnone => hformats hnone.1 hnone.2] at heq
  rw [blockOf, hproto_]
  exact heq

/-- An answered section is complete. -/
theorem complete_of_answerSection {i : Nat} {block : List Str}
    (h : answerSection secrets (midOf i section_) section_ = some block) :
    Complete section_ := by
  have heq := (answerSection_eq secrets i section_).symm.trans h
  obtain ⟨proto_, hproto, hrest⟩ := Option.bind_eq_some_iff.mp heq
  refine ⟨by rw [hproto]; rfl, fun happ hnil => ?_⟩
  rw [if_pos ⟨happ, hnil⟩] at hrest
  cases hrest

/-- `mapM` where every value is known. -/
theorem mapM_of_forall {α β : Type} {f : α → Option β} {g : α → β} {l : List α}
    (h : ∀ a ∈ l, f a = some (g a)) : l.mapM f = some (l.map g) := by
  induction l with
  | nil => rfl
  | cons a l ih =>
    rw [List.mapM_cons, h a List.mem_cons_self, ih fun b hb => h b (List.mem_cons_of_mem _ hb)]
    rfl

/-- A member of the second list has its partner. -/
theorem exists_of_forall₂ {α β : Type} {r : α → β → Prop} {as : List α} {bs : List β}
    (h : List.Forall₂ r as bs) {b : β} (hb : b ∈ bs) : ∃ a ∈ as, r a b := by
  induction h with
  | nil => cases hb
  | cons hr _ ih =>
    obtain rfl | hb := List.mem_cons.mp hb
    · exact ⟨_, List.mem_cons_self, hr⟩
    · obtain ⟨a, ha, hr⟩ := ih hb
      exact ⟨a, List.mem_cons_of_mem _ ha, hr⟩

/-- Every member has a value where `mapM` has one. -/
theorem exists_of_mapM {α β : Type} {f : α → Option β} {l : List α} {bs : List β}
    (h : l.mapM f = some bs) : ∀ a ∈ l, ∃ b, f a = some b := by
  induction l generalizing bs with
  | nil => exact fun a ha => absurd ha List.not_mem_nil
  | cons a l ih =>
    rw [List.mapM_cons] at h
    obtain ⟨b, hb, hrest⟩ := Option.bind_eq_some_iff.mp h
    obtain ⟨bs', hbs, -⟩ := Option.bind_eq_some_iff.mp hrest
    intro a' ha'
    obtain rfl | ha' := List.mem_cons.mp ha'
    · exact ⟨b, hb⟩
    · exact ih hbs a' ha'

/-- The text of the answer. -/
def answerText (secrets : Secrets) (found : List (List Str)) : Str :=
  (header secrets (found.mapIdx midOf) ++ (found.zipIdx.map (blockOf secrets)).flatten).flatMap
    (· ++ "\r\n".toList)

/-- **What the code does**: it raises for a section that is not complete and for none at all. -/
theorem throwawayAnswer_eq_some {offer address answer candidate : Str} :
    throwawayAnswer secrets offer address = some (answer, candidate) ↔
      (∀ section_ ∈ sections (Str.splitlines offer), Complete section_) ∧
      answer = answerText secrets (sections (Str.splitlines offer)) ∧
      ∃ mid, ((sections (Str.splitlines offer)).mapIdx midOf).head? = some mid ∧
        candidate = deadCandidate address mid := by
  set found := sections (Str.splitlines offer) with hfound
  have hzip : (found.mapIdx midOf).zip found
      = found.zipIdx.map fun s => (midOf s.2 s.1, s.1) := by
    have hfst : found = found.zipIdx.map Prod.fst := (List.zipIdx_map_fst 0 found).symm
    conv_lhs => rw [List.mapIdx_eq_zipIdx_map]
    conv_lhs => arg 2; rw [hfst]
    exact List.zip_map' ..
  have hblocks : (∀ section_ ∈ found, Complete section_) →
      ((found.mapIdx midOf).zip found).mapM (fun s => answerSection secrets s.1 s.2)
        = some (found.zipIdx.map (blockOf secrets)) := by
    intro hcomplete
    rw [hzip, List.mapM_map]
    exact mapM_of_forall fun s hs =>
      answerSection_of_complete secrets (hcomplete s.1 (List.fst_mem_of_mem_zipIdx hs))
  rw [throwawayAnswer, ← hfound]
  constructor
  · intro h
    obtain ⟨blocks, hmap, hrest⟩ := Option.bind_eq_some_iff.mp h
    obtain ⟨mid, hmid, hpair⟩ := Option.bind_eq_some_iff.mp hrest
    have hcomplete : ∀ section_ ∈ found, Complete section_ := by
      intro section_ hsection
      obtain ⟨i, hi, rfl⟩ := List.mem_iff_getElem.mp hsection
      have hmem : (midOf i found[i], found[i]) ∈ (found.mapIdx midOf).zip found := by
        rw [hzip, List.mem_map]
        exact ⟨(found[i], i), List.mem_zipIdx_iff_getElem?.mpr (List.getElem?_eq_getElem hi), rfl⟩
      obtain ⟨block, hblock⟩ := exists_of_mapM hmap _ hmem
      exact complete_of_answerSection hblock
    rw [hblocks hcomplete] at hmap
    cases hmap
    obtain ⟨rfl, rfl⟩ := Prod.mk.inj (Option.some.inj hpair)
    exact ⟨hcomplete, rfl, mid, hmid, rfl⟩
  · rintro ⟨hcomplete, rfl, mid, hmid, rfl⟩
    refine Option.bind_eq_some_iff.mpr ⟨_, hblocks hcomplete, ?_⟩
    exact Option.bind_eq_some_iff.mpr ⟨mid, hmid, rfl⟩

/-! ### The lines of the answer -/

open Device (OneLine)

/-- A number is on one line. -/
theorem oneLine_ofNat (n : Nat) : OneLine (Str.ofNat n) :=
  Device.oneLine_of_digits fun _ hc => .inl (Str.ofNat_digit hc)

/-- So is a digit. -/
theorem oneLine_digitChar : ∀ n < 16, Str.isLineBreak (Nat.digitChar n) = false ∧
    Str.isLineBreak (Nat.digitChar n).toUpper = false := by
  decide

/-- So are bytes in hexadecimal. -/
theorem oneLine_hex (bytes : List (Fin 256)) : OneLine (hex bytes) := by
  intro c hc
  obtain ⟨b, -, hc⟩ := List.mem_flatMap.mp hc
  simp only [List.mem_cons, List.not_mem_nil, or_false] at hc
  obtain rfl | rfl := hc
  · exact (oneLine_digitChar _ (by omega)).1
  · exact (oneLine_digitChar _ (by omega)).1

/-- So are texts with a character between them. -/
theorem oneLine_intercalate {c : Char} (hc : Str.isLineBreak c = false)
    (h : ∀ p ∈ ls, OneLine p) : OneLine ([c].intercalate ls) := by
  intro d hd
  obtain rfl | ⟨p, hp, hd⟩ := Str.mem_intercalate hd
  · exact hc
  · exact h p hp d hd

/-- So is each line of the transport. -/
theorem oneLine_transport (secrets : Secrets) : ∀ l ∈ transport secrets, OneLine l := by
  have hfingerprint : ∀ p ∈ secrets.fingerprint.map upperHex, OneLine p := by
    intro p hp
    obtain ⟨b, -, rfl⟩ := List.mem_map.mp hp
    intro c hc
    simp only [upperHex, List.mem_cons, List.not_mem_nil, or_false] at hc
    obtain rfl | rfl := hc
    · exact (oneLine_digitChar _ (by omega)).2
    · exact (oneLine_digitChar _ (by omega)).2
  simp only [transport, List.forall_mem_cons]
  refine ⟨?_, ?_, ?_, by decide, fun l hl => absurd hl List.not_mem_nil⟩
  · exact OneLine.append (by decide) (oneLine_hex _)
  · exact OneLine.append (by decide) (oneLine_hex _)
  · exact OneLine.append (by decide) (oneLine_intercalate (by decide) hfingerprint)

/-- So is the identifier of a section. -/
theorem oneLine_midOf (h : ∀ l ∈ section_, OneLine l) (i : Nat) : OneLine (midOf i section_) := by
  rw [midOf]
  split
  · rename_i l hl
    exact fun c hc => h l (List.mem_of_find?_eq_some hl) c (List.mem_of_mem_drop hc)
  · exact oneLine_ofNat i

/-- So is a field of its first line. -/
theorem oneLine_field (h : ∀ l ∈ section_, OneLine l) {f : Str} (hf : f ∈ fields section_) :
    OneLine f := by
  intro c hc
  have hmem := List.mem_of_mem_drop ((of_mem_splitOn hf).2 c hc)
  cases section_ with
  | nil => cases hmem
  | cons l rest => exact h l List.mem_cons_self c hmem

/-- So is each line of the header. -/
theorem oneLine_header (secrets : Secrets) (h : ∀ p ∈ ls, OneLine p) :
    ∀ l ∈ header secrets ls, OneLine l := by
  simp only [header, List.forall_mem_cons]
  refine ⟨by decide, ?_, by decide, by decide, ?_, by decide,
    fun l hl => absurd hl List.not_mem_nil⟩
  · exact ((show OneLine "o=- ".toList by decide).append (oneLine_ofNat _)).append (by decide)
  · exact OneLine.append (by decide) (oneLine_intercalate (by decide) h)

/-- So is each attribute. -/
theorem oneLine_attributesOf (h : ∀ l ∈ section_, OneLine l) :
    ∀ l ∈ attributesOf section_, OneLine l := by
  intro l hl
  rw [attributesOf] at hl
  split at hl
  · exact h l (List.mem_of_mem_filter hl)
  · simp only [List.mem_append, List.mem_cons, List.not_mem_nil, or_false,
      Option.mem_toList] at hl
    obtain (rfl | rfl) | hl := hl
    · decide
    · decide
    · obtain ⟨f, -, hline⟩ := Option.bind_eq_some_iff.mp hl
      exact h l (List.mem_of_find?_eq_some hline)

/-- So is each line of an answered section. -/
theorem oneLine_blockOf (secrets : Secrets) (h : ∀ l ∈ section_, OneLine l) (i : Nat) :
    ∀ l ∈ blockOf secrets (section_, i), OneLine l := by
  have hmedia : OneLine (media section_) := oneLine_field h (media_mem section_)
  have hproto : OneLine ((proto section_).getD []) := by
    cases hp : proto section_ with
    | none => exact fun c hc => absurd hc List.not_mem_nil
    | some p => exact oneLine_field h (List.mem_of_getElem? hp)
  have haccepted : OneLine (acceptedText (offered i section_)) :=
    oneLine_intercalate (by decide) fun f hf => oneLine_field h (mem_fields_of_accepted hf)
  intro l hl
  rw [blockOf, sectionLines, List.mem_cons, List.mem_cons, List.mem_append, List.mem_cons] at hl
  obtain rfl | rfl | hl | rfl | hl := hl
  · exact (((((show OneLine "m=".toList by decide).append hmedia).append (by decide)).append
      hproto).append (by decide)).append haccepted
  · decide
  · exact oneLine_transport secrets l hl
  · exact OneLine.append (by decide) (oneLine_midOf h i)
  · exact oneLine_attributesOf h l hl

/-- Written lines are the lines of the description. -/
theorem lines_flatMap (h : ∀ l ∈ ls, OneLine l) :
    lines (ls.flatMap (· ++ "\r\n".toList)) = ls := by
  have hcrlf : Str.crlf (ls.flatMap (· ++ "\r\n".toList)) = Str.unlines ls := by
    induction ls with
    | nil => rfl
    | cons l ls ih =>
      rw [List.flatMap_cons, List.append_assoc,
        Str.crlf_append_of_not_mem (h l List.mem_cons_self).not_mem, Str.unlines_cons,
        ← ih fun l' hl' => h l' (List.mem_cons_of_mem _ hl')]
      rfl
  rw [lines, hcrlf]
  refine Str.lines_unlines rfl fun l hl c hc => decide_eq_false fun hnewline => ?_
  have hbreak := h l hl c hc
  rw [hnewline] at hbreak
  exact absurd hbreak (by decide)

variable {found : List (List Str)}

/-- So are the identifiers. -/
theorem oneLine_mids (h : ∀ section_ ∈ found, ∀ l ∈ section_, OneLine l) :
    ∀ mid ∈ found.mapIdx midOf, OneLine mid := by
  intro mid hmid
  obtain ⟨i, hi, rfl⟩ := List.mem_mapIdx.mp hmid
  exact oneLine_midOf (h _ (List.getElem_mem hi)) i

/-- The lines of the answer. -/
theorem lines_answerText (secrets : Secrets) (h : ∀ section_ ∈ found, ∀ l ∈ section_, OneLine l) :
    lines (answerText secrets found) =
      header secrets (found.mapIdx midOf) ++ (found.zipIdx.map (blockOf secrets)).flatten := by
  refine lines_flatMap fun l hl => ?_
  rw [List.mem_append, List.mem_flatten] at hl
  obtain hl | ⟨block, hblock, hl⟩ := hl
  · exact oneLine_header secrets (oneLine_mids h) l hl
  · obtain ⟨⟨section_, i⟩, hs, rfl⟩ := List.mem_map.mp hblock
    exact oneLine_blockOf secrets (h section_ (List.fst_mem_of_mem_zipIdx hs)) i l hl

/-- The sections of the answer. -/
theorem sections_answerText (secrets : Secrets)
    (h : ∀ section_ ∈ found, ∀ l ∈ section_, OneLine l) :
    sections (lines (answerText secrets found)) = found.zipIdx.map (blockOf secrets) := by
  rw [lines_answerText secrets h]
  refine sections_append ?_ fun block hblock => ?_
  · simp only [header, List.forall_mem_cons]
    exact ⟨rfl, rfl, rfl, rfl, rfl, rfl, fun l hl => absurd hl List.not_mem_nil⟩
  · obtain ⟨⟨section_, i⟩, -, rfl⟩ := List.mem_map.mp hblock
    exact isSection_sectionLines (isAttribute_attributesOf section_)

/-! ### The answer follows the offer -/

/-- The sections as `splitlines` cuts them hold no end of a line. -/
theorem oneLine_found (offer : Str) :
    ∀ section_ ∈ sections (Str.splitlines offer), ∀ l ∈ section_, OneLine l :=
  fun _ hs _ hl => Str.lines_free (mem_sections hs hl)

/-- The offers, section by section. -/
theorem offers_eq (ls : List Str) :
    offers ls = (sections ls).zipIdx.map fun s => offered s.2 s.1 := by
  rw [offers, List.mapIdx_eq_zipIdx_map]

/-- **The answer follows the offers of the sections** that the code found, when each has a
protocol and a format. -/
theorem answers_of_complete (secrets : Secrets) {offer : Str} (address : Str)
    (hne : offers (Str.splitlines offer) ≠ [])
    (h : ∀ o ∈ offers (Str.splitlines offer), o.proto.isSome = true ∧ o.accepted ≠ []) :
    ∃ answer candidate, throwawayAnswer secrets offer address = some (answer, candidate) ∧
      Answers (offers (Str.splitlines offer)) address answer candidate := by
  set found := sections (Str.splitlines offer) with hfound
  have hoffers : offers (Str.splitlines offer) = found.zipIdx.map fun s => offered s.2 s.1 :=
    offers_eq _
  have hmids : found.mapIdx midOf = (offers (Str.splitlines offer)).map Offered.mid := by
    rw [hoffers, List.mapIdx_eq_zipIdx_map, List.map_map]
    rfl
  have hoffered : ∀ s ∈ found.zipIdx, offered s.2 s.1 ∈ offers (Str.splitlines offer) :=
    fun s hs => hoffers ▸ List.mem_map_of_mem hs
  have hcomplete : ∀ section_ ∈ found, Complete section_ := by
    intro section_ hs
    obtain ⟨i, hi, rfl⟩ := List.mem_iff_getElem.mp hs
    obtain ⟨hproto, haccepted⟩ := h _ (hoffered (found[i], i)
      (List.mem_zipIdx_iff_getElem?.mpr (List.getElem?_eq_getElem hi)))
    refine ⟨hproto, fun happ hnil => haccepted ?_⟩
    simp [offered, happ, hnil]
  have hlines := lines_answerText secrets (oneLine_found offer)
  have hsections := sections_answerText secrets (oneLine_found offer)
  rw [← hfound] at hlines hsections
  obtain ⟨first, rest, hfirst⟩ := List.exists_cons_of_ne_nil hne
  refine ⟨_, _, throwawayAnswer_eq_some.mpr ⟨hcomplete, rfl, first.mid, ?_, rfl⟩, ?_, ?_, ?_, ?_⟩
  · rw [← hfound, hmids, hfirst]
    rfl
  · rw [hsections, hoffers, List.forall₂_map_left_iff, List.forall₂_map_right_iff,
      List.forall₂_same]
    intro s hs
    obtain ⟨hproto, haccepted⟩ := h _ (hoffered s hs)
    obtain ⟨proto_, hproto_⟩ := Option.isSome_iff_exists.mp hproto
    have hgetD : (proto s.1).getD [] = proto_ := by
      rw [show proto s.1 = some proto_ from hproto_]
      rfl
    rw [blockOf, hgetD]
    exact follows_sectionLines hproto_ haccepted
  · have hblocks : ((found.zipIdx.map (blockOf secrets)).flatten).filter
        (startsWith "a=group:BUNDLE") = [] := by
      refine List.filter_eq_nil_iff.mpr fun l hl => ?_
      obtain ⟨block, hblock, hl⟩ := List.mem_flatten.mp hl
      obtain ⟨s, -, rfl⟩ := List.mem_map.mp hblock
      exact List.filter_eq_nil_iff.mp (filter_bundle (isAttribute_attributesOf s.1)) l hl
    rw [hlines, hmids, List.filter_append, hblocks, List.append_nil]
    rfl
  · refine ⟨transport secrets, by simp [transport], fun section_ hs => ?_⟩
    rw [hsections] at hs
    obtain ⟨s, -, rfl⟩ := List.mem_map.mp hs
    exact filter_transport (isAttribute_attributesOf s.1)
  · exact ⟨first, by rw [hfirst]; rfl, rfl⟩

/-- An `m=` line with a protocol and a format. -/
def WellFormed (section_ : List Str) : Prop :=
  (proto section_).isSome = true ∧ ∃ format ∈ (formats section_).head?, format ≠ []

instance : DecidablePred WellFormed := fun section_ =>
  inferInstanceAs (Decidable ((proto section_).isSome = true ∧
    ∃ format ∈ (formats section_).head?, format ≠ []))

/-- A well-formed section accepts a format that is not empty. -/
theorem WellFormed.has_format (h : WellFormed section_) (i : Nat) :
    ∃ f fs, (offered i section_).accepted = f :: fs ∧ f ≠ [] := by
  obtain ⟨-, f, hf, hne⟩ := h
  obtain ⟨fs, hfs⟩ := List.head?_eq_some_iff.mp hf
  rw [offered]
  dsimp only
  split
  · exact ⟨f, fs, hfs, hne⟩
  · exact ⟨f, [], by rw [hfs]; rfl, hne⟩

/-- The offer of a well-formed section. -/
theorem mem_offers (h : ∀ section_ ∈ sections ls, WellFormed section_) {o : Offered}
    (ho : o ∈ offers ls) : o.proto.isSome = true ∧ ∃ f fs, o.accepted = f :: fs ∧ f ≠ [] := by
  rw [offers_eq, List.mem_map] at ho
  obtain ⟨s, hs, rfl⟩ := ho
  have hwell := h s.1 (List.fst_mem_of_mem_zipIdx hs)
  exact ⟨hwell.1, hwell.has_format s.2⟩

/-- **When the throwaway answer answers every section**: just when cutting at the further
characters of `splitlines` changes nothing that the sections offer. -/
theorem throwaway_answers_iff {offer address : Str} (hne : sections (lines offer) ≠ [])
    (h : ∀ section_ ∈ sections (lines offer), WellFormed section_) :
    (∃ answer candidate, throwawayAnswer secrets offer address = some (answer, candidate) ∧
      Answers (offers (lines offer)) address answer candidate) ↔
    offers (Str.splitlines offer) = offers (lines offer) := by
  have hne' : offers (lines offer) ≠ [] := by
    rw [offers, Ne, List.mapIdx_eq_nil_iff]
    exact hne
  constructor
  · rintro ⟨answer, candidate, hsome, hanswers⟩
    obtain ⟨hcomplete, htext, mid, hmid, -⟩ := throwawayAnswer_eq_some.mp hsome
    have hsections := sections_answerText secrets (oneLine_found offer)
    rw [← htext] at hsections
    have hfound : offers (Str.splitlines offer) ≠ [] := by
      rw [offers, Ne, List.mapIdx_eq_nil_iff]
      intro hnil
      rw [hnil] at hmid
      cases hmid
    have hfollowed : ∀ o ∈ offers (Str.splitlines offer),
        o.proto.isSome = true ∧ o.accepted ≠ [] := by
      intro o ho
      rw [offers_eq, List.mem_map] at ho
      obtain ⟨s, hs, rfl⟩ := ho
      have hproto := (hcomplete s.1 (List.fst_mem_of_mem_zipIdx hs)).1
      refine ⟨hproto, fun hnil => ?_⟩
      -- Without a format the answer has an empty one, which no offer has.
      have hmem : blockOf secrets s ∈ sections (lines answer) :=
        hsections ▸ List.mem_map_of_mem hs
      obtain ⟨o, ho, hfollows⟩ := exists_of_forall₂ hanswers.sections hmem
      obtain ⟨-, f, fs, haccepted, hf⟩ := mem_offers h ho
      have hformats : formats (blockOf secrets s) = [[]] := by
        obtain ⟨proto_, hproto_⟩ := Option.isSome_iff_exists.mp hproto
        have hblank : ' ' ∉ (proto s.1).getD [] := by
          rw [hproto_, Option.getD_some]
          exact blank_notMem (List.mem_of_getElem? hproto_)
        rw [formats, blockOf, fields_sectionLines _ _ _ _ (blank_notMem (media_mem s.1)) hblank,
          acceptedText, hnil]
        rfl
      rw [hfollows.formats, haccepted] at hformats
      exact hf (List.cons.inj hformats).1
    obtain ⟨answer', candidate', hsome', hanswers'⟩ :=
      answers_of_complete secrets address hfound hfollowed
    obtain ⟨rfl, rfl⟩ := Prod.mk.inj (Option.some.inj (hsome.symm.trans hsome'))
    exact hanswers'.unique hanswers
  · intro heq
    rw [← heq]
    refine answers_of_complete secrets address (heq ▸ hne') fun o ho => ?_
    obtain ⟨hproto, f, fs, haccepted, -⟩ := mem_offers h (heq ▸ ho)
    exact ⟨hproto, by simp [haccepted]⟩

/-- The made-up values are all zero. -/
def zeros : Secrets := ⟨[0, 0], List.replicate 12 0, List.replicate 32 0, 0⟩

/-- A video and a data channel, with the first lines of an offer. -/
def plainOffer : Str :=
  "v=0\r\nm=video 9 UDP/TLS/RTP/SAVPF 96 97\r\na=mid:v\r\na=rtpmap:96 VP8/90000\r\n".toList ++
    "m=application 9 UDP/DTLS/SCTP webrtc-datachannel\r\na=sctp-port:5000\r\n".toList

/-- An offer with a video and a data channel. -/
theorem throwaway_answers_plain : ∃ answer candidate,
    throwawayAnswer zeros plainOffer [] = some (answer, candidate) ∧
      Answers (offers (lines plainOffer)) [] answer candidate :=
  (throwaway_answers_iff (by decide) (by decide)).mpr (by decide)

/-- The name of the session holds a vertical tab with `m=` behind it. -/
def tabbedOffer : Str :=
  "v=0\r\ns=a\x0bm=b\r\nm=video 9 UDP/TLS/RTP/SAVPF 96\r\na=mid:0\r\n".toList

/-- One video section, and no answer. -/
theorem throwaway_raises :
    offers (lines tabbedOffer)
      = [⟨"video".toList, some "UDP/TLS/RTP/SAVPF".toList, ["96".toList], "0".toList, none⟩] ∧
    throwawayAnswer zeros tabbedOffer [] = none ∧
    ¬ ∃ answer candidate, throwawayAnswer zeros tabbedOffer [] = some (answer, candidate) ∧
      Answers (offers (lines tabbedOffer)) [] answer candidate := by
  have hnone : throwawayAnswer zeros tabbedOffer [] = none := by decide
  refine ⟨by decide, hnone, ?_⟩
  rintro ⟨answer, candidate, hsome, -⟩
  cases hnone.symm.trans hsome

end Answer

end Webrtc

end AndroidAppliance
