import AndroidAppliance.Device.Listing
import Mathlib.Data.List.Forall2
import Mathlib.Data.List.Induction

/-!
# The sections of an answer

`dead_candidate` and `throwaway_answer` of `appliance/webrtc.py`. A line of SDP ends with `\r\n`
or `\n`, and the sections of a description begin at its `m=` lines. What an answer must follow is
given as an `Offered` for each section, and a section that is answered follows it.
-/

namespace AndroidAppliance

/-! ### Session descriptions -/

namespace Sdp

/-- `startswith`. -/
def startsWith (start : String) (line : Str) : Bool := start.toList.isPrefixOf line

/-- A line joins the last section, or begins one. -/
def addLine (sections : List (List Str)) (line : Str) : List (List Str) :=
  if startsWith "m=" line then sections ++ [[line]]
  else match sections.getLast? with
    | none => []
    | some last => sections.dropLast ++ [last ++ [line]]

/-- The media sections, each with its `m=` line. -/
def sections (lines : List Str) : List (List Str) := lines.foldl addLine []

/-- The lines of a description. -/
def lines (text : Str) : List Str := Str.lines Str.isNewline (Str.crlf text)

/-- The fields of the `m=` line: media, port, protocol, formats. -/
def fields (section_ : List Str) : List Str := ((section_.headD []).drop 2).splitOn ' '

/-- The media of a section. -/
def media (section_ : List Str) : Str := (fields section_).headD []

/-- The protocol of a section. -/
def proto (section_ : List Str) : Option Str := (fields section_)[2]?

/-- The formats of a section. -/
def formats (section_ : List Str) : List Str := (fields section_).drop 3

/-- The media of a data channel. -/
def application : Str := "application".toList

/-- The mid of the section at a position. -/
def midOf (position : Nat) (section_ : List Str) : Str :=
  match section_.find? (startsWith "a=mid:") with
  | some line => line.drop 6
  | none => Str.ofNat position

/-- The `rtpmap` line of a format. -/
def rtpmapOf (section_ : List Str) (format : Str) : Option Str :=
  section_.find? (("a=rtpmap:".toList ++ format ++ [' ']).isPrefixOf ·)

/-- What an answer follows of a section of the offer. -/
structure Offered where
  media : Str
  proto : Option Str
  /-- The formats that are accepted: all of an application, else the first. -/
  accepted : List Str
  mid : Str
  /-- The `rtpmap` line of the format that is accepted; an application needs none. -/
  rtpmap : Option Str
  deriving DecidableEq, Repr

/-- What a section offers. -/
def offered (position : Nat) (section_ : List Str) : Offered where
  media := media section_
  proto := proto section_
  accepted :=
    if media section_ = application then formats section_ else (formats section_).take 1
  mid := midOf position section_
  rtpmap :=
    if media section_ = application then none
    else (formats section_).head?.bind (rtpmapOf section_)

/-- What the sections offer, with this cut into lines. -/
def offers (lines : List Str) : List Offered := (sections lines).mapIdx offered

/-- A line of ICE or DTLS. -/
def isTransport (line : Str) : Bool :=
  startsWith "a=ice-ufrag:" line || startsWith "a=ice-pwd:" line ||
    startsWith "a=fingerprint:" line || startsWith "a=setup:" line

/-- A section of an answer follows one of the offer. -/
structure Follows (offer : Offered) (section_ : List Str) : Prop where
  media : media section_ = offer.media
  proto : proto section_ = offer.proto
  port : ∃ n, 0 < n ∧ (fields section_)[1]? = some (Str.ofNat n)
  formats : formats section_ = offer.accepted
  mid : section_.filter (startsWith "a=mid:") = ["a=mid:".toList ++ offer.mid]
  rtpmap : section_.filter (startsWith "a=rtpmap:") = offer.rtpmap.toList

end Sdp

/-! ### `appliance/webrtc.py` -/

namespace Webrtc

namespace Answer

open Sdp

/-- A JSON value of the candidate. -/
inductive Json
  | str (s : Str)
  | nat (n : Nat)

/-- `\u` and four digits. -/
def unicodeEscape (n : Nat) : Str :=
  '\\' :: 'u' :: [n / 4096, n / 256 % 16, n / 16 % 16, n % 16].map Nat.digitChar

/-- What `json.dumps` writes for a character; `ensure_ascii` is on. -/
def escape (c : Char) : Str :=
  if c = '"' then "\\\"".toList
  else if c = '\\' then "\\\\".toList
  else if c = '\n' then "\\n".toList
  else if c = '\r' then "\\r".toList
  else if c = '\t' then "\\t".toList
  else if c = Char.ofNat 8 then "\\b".toList
  else if c = Char.ofNat 12 then "\\f".toList
  else if 32 ≤ c.toNat ∧ c.toNat ≤ 126 then [c]
  else if c.toNat < 0x10000 then unicodeEscape c.toNat
  else unicodeEscape (0xD800 + (c.toNat - 0x10000) / 0x400) ++
    unicodeEscape (0xDC00 + (c.toNat - 0x10000) % 0x400)

/-- A string as `json.dumps` writes it. -/
def encodeString (s : Str) : Str := '"' :: (s.flatMap escape ++ ['"'])

/-- A value as `json.dumps` writes it. -/
def Json.dumps : Json → Str
  | str s => encodeString s
  | nat n => Str.ofNat n

/-- `json.dumps` of a flat object. -/
def dumps (object : List (Str × Json)) : Str :=
  '{' :: (", ".toList.intercalate
    (object.map fun f => encodeString f.1 ++ ": ".toList ++ f.2.dumps) ++ ['}'])

/-- `DEAD_PORT`. -/
def deadPort : Nat := 40000

/-- The candidate that nobody listens on. -/
def deadCandidate (address mid : Str) : Str :=
  dumps [
    ("candidate".toList, .str ("candidate:1 1 udp 2113937151 ".toList ++ address ++ [' '] ++
      Str.ofNat deadPort ++ " typ host generation 0".toList)),
    ("sdpMid".toList, .str mid),
    ("sdpMLineIndex".toList, .nat 0)]

/-- What `secrets` gives. -/
structure Secrets where
  ufrag : List (Fin 256)
  pwd : List (Fin 256)
  fingerprint : List (Fin 256)
  number : Nat

/-- `bytes.hex`. -/
def hex (bytes : List (Fin 256)) : Str :=
  bytes.flatMap fun b => [Nat.digitChar (b.val / 16), Nat.digitChar (b.val % 16)]

/-- A byte as `02X`. -/
def upperHex (b : Fin 256) : Str :=
  [(Nat.digitChar (b.val / 16)).toUpper, (Nat.digitChar (b.val % 16)).toUpper]

/-- The made-up ICE and DTLS lines. -/
def transport (secrets : Secrets) : List Str :=
  ["a=ice-ufrag:".toList ++ hex secrets.ufrag,
   "a=ice-pwd:".toList ++ hex secrets.pwd,
   "a=fingerprint:sha-256 ".toList ++ [':'].intercalate (secrets.fingerprint.map upperHex),
   "a=setup:active".toList]

/-- The lines of a section, with the formats as a text. -/
def sectionLines (secrets : Secrets) (media proto accepted mid : Str)
    (attributes : List Str) : List Str :=
  ("m=".toList ++ media ++ " 9 ".toList ++ proto ++ [' '] ++ accepted) ::
    "c=IN IP4 0.0.0.0".toList ::
    (transport secrets ++ ("a=mid:".toList ++ mid) :: attributes)

/-- The lines of the answer for a section; none when an `IndexError` is raised. -/
def answerSection (secrets : Secrets) (mid : Str) (section_ : List Str) : Option (List Str) := do
  let parts := Str.partition ' ' ((section_.headD []).drop 2)
  let media := parts.1
  let rest := parts.2.2.splitOn ' '
  let formats := rest.drop 2
  let proto ← rest[1]?
  let accepted ←
    if media ≠ application then formats.head? else some ([' '].intercalate formats)
  let attributes :=
    if media = application then
      section_.filter fun line => startsWith "a=sctp-port:" line ||
        startsWith "a=max-message-size:" line
    else ["a=recvonly".toList, "a=rtcp-mux".toList] ++ (rtpmapOf section_ accepted).toList
  some (sectionLines secrets media proto accepted mid attributes)

/-- The lines of the answer before its sections. -/
def header (secrets : Secrets) (mids : List Str) : List Str :=
  ["v=0".toList,
   "o=- ".toList ++ Str.ofNat secrets.number ++ " 2 IN IP4 127.0.0.1".toList,
   "s=-".toList,
   "t=0 0".toList,
   "a=group:BUNDLE ".toList ++ [' '].intercalate mids,
   "a=msid-semantic: WMS".toList]

/-- `throwaway_answer`; none when an `IndexError` is raised. -/
def throwawayAnswer (secrets : Secrets) (offer address : Str) : Option (Str × Str) := do
  let found := sections (Str.splitlines offer)
  let mids := found.mapIdx midOf
  let blocks ← (mids.zip found).mapM fun s => answerSection secrets s.1 s.2
  let first ← mids.head?
  some ((header secrets mids ++ blocks.flatten).flatMap (· ++ "\r\n".toList),
    deadCandidate address first)

/-! ### Sections -/

variable {line : Str} {ls : List Str} {section_ : List Str} {blocks : List (List Str)}

/-- A line `m=` begins a section. -/
theorem addLine_first (h : startsWith "m=" line = true) (found : List (List Str)) :
    addLine found line = found ++ [[line]] :=
  if_pos h

/-- Another line goes to the last section. -/
theorem addLine_more (h : startsWith "m=" line = false) (found : List (List Str))
    (last : List Str) : addLine (found ++ [last]) line = found ++ [last ++ [line]] := by
  rw [addLine, if_neg (by simp [h]), List.getLast?_concat, List.dropLast_concat]

/-- So do all lines without an `m=`. -/
theorem foldl_more (h : ∀ l ∈ ls, startsWith "m=" l = false) (found : List (List Str))
    (last : List Str) : ls.foldl addLine (found ++ [last]) = found ++ [last ++ ls] := by
  induction ls generalizing last with
  | nil => rw [List.append_nil]; rfl
  | cons l ls ih =>
    rw [List.foldl_cons, addLine_more (h l List.mem_cons_self),
      ih fun l' hl' => h l' (List.mem_cons_of_mem _ hl'), List.append_assoc, List.singleton_append]

/-- In front of the first section they are dropped. -/
theorem foldl_before (h : ∀ l ∈ ls, startsWith "m=" l = false) : ls.foldl addLine [] = [] := by
  induction ls with
  | nil => rfl
  | cons l ls ih =>
    have hl : addLine [] l = [] := by
      rw [addLine, if_neg (by simp [h l List.mem_cons_self])]
      rfl
    rw [List.foldl_cons, hl]
    exact ih fun l' hl' => h l' (List.mem_cons_of_mem _ hl')

/-- A section as it is written: an `m=` line and others. -/
def IsSection (block : List Str) : Prop :=
  ∃ first rest, block = first :: rest ∧ startsWith "m=" first = true ∧
    ∀ l ∈ rest, startsWith "m=" l = false

/-- Sections one behind the other are cut where they were joined. -/
theorem foldl_sections (h : ∀ b ∈ blocks, IsSection b) (found : List (List Str)) :
    blocks.flatten.foldl addLine found = found ++ blocks := by
  induction blocks generalizing found with
  | nil => rw [List.append_nil]; rfl
  | cons b blocks ih =>
    obtain ⟨first, rest, rfl, hfirst, hrest⟩ := h b List.mem_cons_self
    rw [List.flatten_cons, List.foldl_append, List.foldl_cons, addLine_first hfirst,
      foldl_more hrest, ih fun b' hb' => h b' (List.mem_cons_of_mem _ hb'), List.append_assoc,
      List.singleton_append, List.singleton_append]

/-- Sections that are written behind a header are found again. -/
theorem sections_append (hls : ∀ l ∈ ls, startsWith "m=" l = false)
    (h : ∀ b ∈ blocks, IsSection b) : sections (ls ++ blocks.flatten) = blocks := by
  rw [sections, List.foldl_append, foldl_before hls, foldl_sections h, List.nil_append]

/-- The lines of the sections are lines. -/
theorem mem_sections (h : section_ ∈ sections ls) (hline : line ∈ section_) : line ∈ ls := by
  induction ls using List.reverseRecOn generalizing section_ with
  | nil => cases h
  | append_singleton ls l ih =>
    rw [sections, List.foldl_append, List.foldl_cons, List.foldl_nil, ← sections, addLine] at h
    rw [List.mem_append, List.mem_singleton]
    split at h
    · rw [List.mem_append, List.mem_singleton] at h
      obtain h | rfl := h
      · exact .inl (ih h hline)
      · exact .inr (List.mem_singleton.mp hline)
    · split at h
      · cases h
      · rename_i last hlast
        rw [List.mem_append, List.mem_singleton] at h
        obtain h | rfl := h
        · exact .inl (ih (List.dropLast_subset _ h) hline)
        · rw [List.mem_append, List.mem_singleton] at hline
          exact hline.imp_left (ih (List.mem_of_getLast? hlast))

/-! ### Fields -/

variable {s p : Str} {c sep : Char}

/-- A part of a text that is split: without the separator, and of the text. -/
theorem of_mem_splitOn (h : p ∈ s.splitOn sep) : sep ∉ p ∧ ∀ c ∈ p, c ∈ s := by
  induction s generalizing p with
  | nil =>
    rw [List.splitOn_nil, List.mem_singleton] at h
    rw [h]
    exact ⟨List.not_mem_nil, fun c hc => hc⟩
  | cons c s ih =>
    rw [List.splitOn_cons_eq_if_modifyHead] at h
    split at h
    · rw [List.mem_cons] at h
      obtain rfl | h := h
      · exact ⟨List.not_mem_nil, fun c hc => absurd hc List.not_mem_nil⟩
      · exact ⟨(ih h).1, fun d hd => List.mem_cons_of_mem _ ((ih h).2 d hd)⟩
    · rename_i hc
      cases hs : s.splitOn sep with
      | nil => exact absurd hs (List.splitOn_ne_nil _ _)
      | cons q ps =>
        rw [hs, List.modifyHead_cons, List.mem_cons] at h
        obtain rfl | h := h
        · obtain ⟨hq, hmem⟩ := ih (hs ▸ List.mem_cons_self)
          rw [List.mem_cons, not_or]
          refine ⟨⟨fun heq => hc (by simp [heq]), hq⟩, fun d hd => ?_⟩
          rw [List.mem_cons] at hd ⊢
          exact hd.imp_right (hmem d)
        · obtain ⟨hp, hmem⟩ := ih (hs ▸ List.mem_cons_of_mem _ h)
          exact ⟨hp, fun d hd => List.mem_cons_of_mem _ (hmem d hd)⟩

/-- The code reads the fields with `partition` and `split`. -/
theorem partition_fields (s : Str) :
    (s.splitOn ' ').headD [] = (Str.partition ' ' s).1 ∧
      (s.splitOn ' ')[2]? = ((Str.partition ' ' s).2.2.splitOn ' ')[1]? ∧
      (s.splitOn ' ').drop 3 = ((Str.partition ' ' s).2.2.splitOn ' ').drop 2 := by
  obtain ⟨hfree, heq | ⟨heq, hrest⟩⟩ := Str.partition_spec ' ' s
  · have hsplit : s.splitOn ' '
        = (Str.partition ' ' s).1 :: (Str.partition ' ' s).2.2.splitOn ' ' := by
      conv_lhs => rw [heq]
      exact List.splitOn_append_cons_self_of_not_mem hfree _
    rw [hsplit]
    exact ⟨rfl, rfl, rfl⟩
  · have hsplit : s.splitOn ' ' = [(Str.partition ' ' s).1] := by
      conv_lhs => rw [heq]
      exact List.splitOn_eq_singleton hfree
    rw [hsplit, hrest]
    exact ⟨rfl, rfl, rfl⟩

/-- The text of the formats that are accepted. -/
def acceptedText (offer : Offered) : Str := [' '].intercalate offer.accepted

/-- The attributes of a section at the end of its lines. -/
def attributesOf (section_ : List Str) : List Str :=
  if media section_ = application then
    section_.filter fun line => startsWith "a=sctp-port:" line ||
      startsWith "a=max-message-size:" line
  else ["a=recvonly".toList, "a=rtcp-mux".toList] ++
    ((formats section_).head?.bind (rtpmapOf section_)).toList

/-- What `answerSection` makes of an offer: nothing without a protocol, and nothing when no format
is offered and one is needed. -/
theorem answerSection_eq (secrets : Secrets) (i : Nat) (section_ : List Str) :
    answerSection secrets (offered i section_).mid section_ =
      (proto section_).bind fun proto =>
        if media section_ ≠ application ∧ formats section_ = [] then none
        else some (sectionLines secrets (media section_) proto (acceptedText (offered i section_))
          (offered i section_).mid (attributesOf section_)) := by
  obtain ⟨hmedia, hproto, hformats⟩ := partition_fields ((section_.headD []).drop 2)
  have hmedia' : media section_ = _ := hmedia
  have hproto' : proto section_ = _ := hproto
  have hformats' : formats section_ = _ := hformats
  simp only [answerSection, attributesOf, acceptedText, offered, ← hmedia', ← hproto',
    ← hformats', Option.bind_eq_bind]
  refine congrArg _ (funext fun proto => ?_)
  by_cases happ : media section_ = application
  · simp [happ]
  · cases hf : formats section_ with
    | nil => simp [happ]
    | cons f fs => simp [happ]

/-! ### A section of the answer -/

/-- Two starts, neither of which begins the other. -/
def Apart (a b : String) : Prop :=
  ¬ a.toList <+: b.toList ∧ ¬ b.toList <+: a.toList

instance (a b : String) : Decidable (Apart a b) := inferInstanceAs (Decidable (_ ∧ _))

/-- A line begins with one of two texts that differ early. -/
theorem startsWith_apart {a b : String} (h : startsWith a line = true) (hab : Apart a b) :
    startsWith b line = false := by
  by_contra hb
  rw [Bool.not_eq_false] at hb
  have ha := List.isPrefixOf_iff_prefix.mp h
  have hb := List.isPrefixOf_iff_prefix.mp hb
  exact (List.prefix_or_prefix_of_prefix ha hb).elim hab.1 hab.2

/-- How the attributes at the end of a section start. -/
def attributeKeys : List String :=
  ["a=sctp-port:", "a=max-message-size:", "a=recvonly", "a=rtcp-mux", "a=rtpmap:"]

/-- The line is one of the attributes that a section of the answer may have. -/
def IsAttribute (line : Str) : Prop := ∃ key ∈ attributeKeys, startsWith key line = true

/-- An attribute is no other line. -/
theorem isAttribute_apart (h : IsAttribute line) {b : String}
    (hb : ∀ key ∈ attributeKeys, Apart key b) : startsWith b line = false := by
  obtain ⟨key, hkey, hline⟩ := h
  exact startsWith_apart hline (hb key hkey)

variable {secrets : Secrets} {proto_ accepted mid media_ : Str} {attributes : List Str}

/-- The fields of the `m=` line of the answer. -/
theorem fields_sectionLines (secrets : Secrets) (accepted mid : Str) (attributes : List Str)
    (hmedia : ' ' ∉ media_) (hproto : ' ' ∉ proto_) :
    fields (sectionLines secrets media_ proto_ accepted mid attributes)
      = media_ :: ['9'] :: proto_ :: accepted.splitOn ' ' := by
  have hline : ((sectionLines secrets media_ proto_ accepted mid attributes).headD []).drop 2
      = media_ ++ ' ' :: (['9'] ++ ' ' :: (proto_ ++ ' ' :: accepted)) := by
    simp [sectionLines]
  rw [fields, hline, List.splitOn_append_cons_self_of_not_mem hmedia,
    List.splitOn_append_cons_self_of_not_mem (by decide),
    List.splitOn_append_cons_self_of_not_mem hproto]

/-- A kind of line that is not among the lines before the attributes. -/
theorem filter_sectionLines {p : Str → Bool}
    (hfirst : p ("m=".toList ++ media_ ++ " 9 ".toList ++ proto_ ++ [' '] ++ accepted) = false)
    (hc : p "c=IN IP4 0.0.0.0".toList = false) :
    (sectionLines secrets media_ proto_ accepted mid attributes).filter p =
      (transport secrets).filter p ++ ["a=mid:".toList ++ mid].filter p ++
        attributes.filter p := by
  rw [sectionLines, List.filter_cons_of_neg (Bool.eq_false_iff.mp hfirst),
    List.filter_cons_of_neg (Bool.eq_false_iff.mp hc), List.filter_append,
    ← List.singleton_append, List.filter_append, List.append_assoc]

/-- The lines of a section of the answer are one. -/
theorem isSection_sectionLines (h : ∀ l ∈ attributes, IsAttribute l) :
    IsSection (sectionLines secrets media_ proto_ accepted mid attributes) := by
  refine ⟨_, _, rfl, rfl, fun l hl => ?_⟩
  rw [List.mem_cons, List.mem_append, List.mem_cons] at hl
  obtain rfl | hl | rfl | hl := hl
  · rfl
  · simp only [transport, List.mem_cons, List.not_mem_nil, or_false] at hl
    obtain rfl | rfl | rfl | rfl := hl <;> rfl
  · rfl
  · exact isAttribute_apart (h l hl) (by decide)

/-- The identifier of a section stands once. -/
theorem filter_mid (h : ∀ l ∈ attributes, IsAttribute l) :
    (sectionLines secrets media_ proto_ accepted mid attributes).filter (startsWith "a=mid:")
      = ["a=mid:".toList ++ mid] := by
  have hattributes : attributes.filter (startsWith "a=mid:") = [] :=
    List.filter_eq_nil_iff.mpr fun l hl =>
      Bool.eq_false_iff.mp (isAttribute_apart (h l hl) (by decide))
  rw [filter_sectionLines rfl rfl, hattributes]
  rfl

/-- The `rtpmap` lines are among the attributes. -/
theorem filter_rtpmap :
    (sectionLines secrets media_ proto_ accepted mid attributes).filter (startsWith "a=rtpmap:")
      = attributes.filter (startsWith "a=rtpmap:") := by
  rw [filter_sectionLines rfl rfl]
  rfl

/-- The lines of the transport are those of the answer. -/
theorem filter_transport (h : ∀ l ∈ attributes, IsAttribute l) :
    (sectionLines secrets media_ proto_ accepted mid attributes).filter isTransport
      = transport secrets := by
  have hattributes : attributes.filter isTransport = [] := by
    refine List.filter_eq_nil_iff.mpr fun l hl => ?_
    simp [isTransport, isAttribute_apart (h l hl) (b := "a=ice-ufrag:") (by decide),
      isAttribute_apart (h l hl) (b := "a=ice-pwd:") (by decide),
      isAttribute_apart (h l hl) (b := "a=fingerprint:") (by decide),
      isAttribute_apart (h l hl) (b := "a=setup:") (by decide)]
  rw [filter_sectionLines rfl rfl, hattributes]
  rfl

/-- The group stands in front of the sections. -/
theorem filter_bundle (h : ∀ l ∈ attributes, IsAttribute l) :
    (sectionLines secrets media_ proto_ accepted mid attributes).filter
      (startsWith "a=group:BUNDLE") = [] := by
  have hattributes : attributes.filter (startsWith "a=group:BUNDLE") = [] :=
    List.filter_eq_nil_iff.mpr fun l hl =>
      Bool.eq_false_iff.mp (isAttribute_apart (h l hl) (by decide))
  rw [filter_sectionLines rfl rfl, hattributes]
  rfl

/-- The `rtpmap` line of a format is one. -/
theorem startsWith_rtpmapOf {format : Str} (h : rtpmapOf section_ format = some line) :
    startsWith "a=rtpmap:" line = true := by
  have hstart := List.isPrefixOf_iff_prefix.mp (List.find?_some h)
  rw [List.append_assoc] at hstart
  exact List.isPrefixOf_iff_prefix.mpr ((List.prefix_append _ _).trans hstart)

/-- The attributes of an answer are attributes. -/
theorem isAttribute_attributesOf (section_ : List Str) :
    ∀ l ∈ attributesOf section_, IsAttribute l := by
  intro l hl
  rw [attributesOf] at hl
  split at hl
  · rw [List.mem_filter, Bool.or_eq_true] at hl
    obtain ⟨-, h | h⟩ := hl
    · exact ⟨_, by decide, h⟩
    · exact ⟨_, by decide, h⟩
  · simp only [List.mem_append, List.mem_cons, List.not_mem_nil, or_false,
      Option.mem_toList] at hl
    obtain (rfl | rfl) | hl := hl
    · exact ⟨"a=recvonly", by decide, rfl⟩
    · exact ⟨"a=rtcp-mux", by decide, rfl⟩
    · obtain ⟨f, -, hline⟩ := Option.bind_eq_some_iff.mp hl
      exact ⟨"a=rtpmap:", by decide, startsWith_rtpmapOf hline⟩

/-- The `rtpmap` of the offer is the one that is answered. -/
theorem rtpmap_attributesOf (i : Nat) (section_ : List Str) :
    (attributesOf section_).filter (startsWith "a=rtpmap:")
      = (offered i section_).rtpmap.toList := by
  by_cases happ : media section_ = application
  · have hnone : (offered i section_).rtpmap = none := if_pos happ
    rw [hnone, Option.toList_none]
    refine List.filter_eq_nil_iff.mpr fun l hl => ?_
    rw [attributesOf, if_pos happ, List.mem_filter, Bool.or_eq_true] at hl
    obtain ⟨-, h | h⟩ := hl <;>
      exact Bool.eq_false_iff.mp (startsWith_apart h (by decide))
  · have hrtpmap : (offered i section_).rtpmap
        = (formats section_).head?.bind (rtpmapOf section_) := if_neg happ
    rw [attributesOf, if_neg happ, hrtpmap]
    cases hcodec : (formats section_).head?.bind (rtpmapOf section_) with
    | none => rfl
    | some l =>
      obtain ⟨f, -, hline⟩ := Option.bind_eq_some_iff.mp hcodec
      rw [List.filter_append, Option.toList_some,
        List.filter_cons_of_pos (startsWith_rtpmapOf hline)]
      rfl

/-- No field holds a blank. -/
theorem blank_notMem {f : Str} (h : f ∈ fields section_) : ' ' ∉ f := (of_mem_splitOn h).1

/-- The media is a field of the first line. -/
theorem media_mem (section_ : List Str) : media section_ ∈ fields section_ := by
  obtain ⟨f, fs, hf⟩ := List.exists_cons_of_ne_nil
    (List.splitOn_ne_nil ' ' ((section_.headD []).drop 2))
  rw [media, fields, hf]
  exact List.mem_cons_self

/-- So is a format that is accepted. -/
theorem mem_fields_of_accepted {i : Nat} {f : Str} (h : f ∈ (offered i section_).accepted) :
    f ∈ fields section_ := by
  rw [offered] at h
  dsimp only at h
  split at h
  · exact List.mem_of_mem_drop h
  · exact List.mem_of_mem_drop (List.mem_of_mem_take h)

/-- **A section of the answer follows the offer** it is made of. -/
theorem follows_sectionLines {i : Nat} (hproto : (offered i section_).proto = some proto_)
    (haccepted : (offered i section_).accepted ≠ []) :
    Follows (offered i section_) (sectionLines secrets (media section_) proto_
      (acceptedText (offered i section_)) (offered i section_).mid (attributesOf section_)) := by
  have hblank : ' ' ∉ proto_ := blank_notMem (List.mem_of_getElem? hproto)
  have hfields := fields_sectionLines secrets (acceptedText (offered i section_))
    (offered i section_).mid (attributesOf section_) (blank_notMem (media_mem section_)) hblank
  have hattributes := isAttribute_attributesOf section_
  refine ⟨?_, ?_, ⟨9, by decide, ?_⟩, ?_, filter_mid hattributes, ?_⟩
  · rw [media, hfields]
    rfl
  · rw [proto, hfields]
    exact hproto.symm
  · rw [hfields]
    rfl
  · rw [formats, hfields]
    exact List.splitOn_intercalate ' '
      (fun f hf => blank_notMem (mem_fields_of_accepted hf)) haccepted
  · rw [filter_rtpmap]
    exact rtpmap_attributesOf i section_

end Answer

end Webrtc

end AndroidAppliance
