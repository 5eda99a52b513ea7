import AndroidAppliance.Text.Utf16

/-!
# Texts in pieces

`chunkText` of `web/js/keys.js` cuts the units of a text. A text of whole characters is cut into
whole characters, each piece as long as it can be (`Cut`): `chunkText_encode`.
-/

namespace AndroidAppliance

namespace Keyboard

open Text (Units)
open Text.Utf16

/-- The `size` of `chunkText`. With one unit alone it would stand still at a pair of surrogates. -/
abbrev PieceSize := { n : Nat // 2 ≤ n }

/-- `MAX_TEXT` of `web/js/keys.js`. -/
def maxPiece : PieceSize := ⟨60000, by decide⟩

/-- Where the piece that begins at `start` ends. -/
def pieceEnd (text : Units) (size : PieceSize) (start : Nat) : Nat :=
  let stop := min text.length (start + size)
  if stop < text.length ∧ isHigh (text.getD (stop - 1) 0) = true then stop - 1 else stop

theorem lt_pieceEnd {text : Units} {size : PieceSize} {start : Nat} (h : start < text.length) :
    start < pieceEnd text size start := by
  have hsize := size.2
  simp only [pieceEnd]
  split <;> omega

/-- The pieces from `start` on. -/
def chunksFrom (text : Units) (size : PieceSize) (start : Nat) : List Units :=
  if h : start < text.length then
    have : start < pieceEnd text size start := lt_pieceEnd h
    (text.take (pieceEnd text size start)).drop start ::
      chunksFrom text size (pieceEnd text size start)
  else []
termination_by text.length - start

theorem chunksFrom_of_lt {text : Units} {size : PieceSize} {start : Nat}
    (h : start < text.length) : chunksFrom text size start =
      (text.take (pieceEnd text size start)).drop start ::
        chunksFrom text size (pieceEnd text size start) := by
  rw [chunksFrom, dif_pos h]

theorem chunksFrom_length {text : Units} {size : PieceSize} :
    chunksFrom text size text.length = [] := by
  rw [chunksFrom, dif_neg (lt_irrefl _)]

/-- `chunkText`. -/
def chunkText (text : Units) (size : PieceSize) : List Units := chunksFrom text size 0

/-! ### What the pieces are -/

/-- The pieces of a text: whole characters, as many each time as `size` units have room for. -/
inductive Cut (size : Nat) : List Char → List (List Char) → Prop
  | nil : Cut size [] []
  | cons {piece rest : List Char} {pieces : List (List Char)} (hpiece : piece ≠ [])
      (hfits : (encode piece).length ≤ size)
      (hlongest : ∀ c ∈ rest.head?, size < (encode (piece ++ [c])).length)
      (h : Cut size rest pieces) : Cut size (piece ++ rest) (piece :: pieces)

variable {size : PieceSize} {before piece rest text : List Char}

theorem length_encode_append (text rest : List Char) : (encode (text ++ rest)).length =
    (encode text).length + (encode rest).length := by
  rw [encode_append, List.length_append]

theorem length_encode_singleton (c : Char) : (encode [c]).length = (encodeChar c).length := by
  rw [encode_cons, encode_nil, List.append_nil]

theorem length_encode_pos (h : text ≠ []) : 0 < (encode text).length := by
  obtain ⟨c, text, rfl⟩ := List.exists_cons_of_ne_nil h
  have hc := length_encodeChar c
  rw [encode_cons, List.length_append]
  omega

/-- The longest piece that has room. -/
theorem exists_piece (room : Nat) (text : List Char) : ∃ piece rest, text = piece ++ rest ∧
    (encode piece).length ≤ room ∧
    ∀ c ∈ rest.head?, room < (encode (piece ++ [c])).length := by
  induction text generalizing room with
  | nil => exact ⟨[], [], rfl, Nat.zero_le _, by simp⟩
  | cons c text ih =>
    by_cases hroom : (encodeChar c).length ≤ room
    · obtain ⟨piece, rest, rfl, hfits, hlongest⟩ := ih (room - (encodeChar c).length)
      refine ⟨c :: piece, rest, rfl, ?_, fun d hd => ?_⟩
      · rw [encode_cons, List.length_append]
        omega
      · have hd' := hlongest d hd
        rw [List.cons_append, encode_cons, List.length_append]
        omega
    · refine ⟨[], c :: text, rfl, Nat.zero_le _, fun d hd => ?_⟩
      cases hd
      rw [List.nil_append, length_encode_singleton]
      omega

/-- The code ends a piece where no further character has room. -/
theorem pieceEnd_encode (hpiece : piece ≠ []) (hfits : (encode piece).length ≤ size)
    (hlongest : ∀ c ∈ rest.head?, ↑size < (encode (piece ++ [c])).length) :
    pieceEnd (encode (before ++ piece ++ rest)) size (encode before).length =
      (encode (before ++ piece)).length := by
  have hlast : ∀ units : Units, isHigh ((encode (before ++ piece) ++ units).getD
      ((encode (before ++ piece)).length - 1) 0) = false := fun units =>
    isHigh_last (by simp [hpiece])
  have hlen := length_encode_append before piece
  have hsize := size.2
  have hpos := length_encode_pos hpiece
  cases rest with
  | nil =>
    -- the rest of the text has room
    simp only [pieceEnd, List.append_nil]
    rw [if_neg (by omega)]
    omega
  | cons c rest =>
    have hc := hlongest c rfl
    have hwidth := length_encodeChar c
    rw [length_encode_append, length_encode_singleton] at hc
    have htotal : (encode (before ++ piece ++ c :: rest)).length =
        (encode (before ++ piece)).length + ((encodeChar c).length + (encode rest).length) := by
      rw [length_encode_append, encode_cons, List.length_append]
    have hmin : min (encode (before ++ piece ++ c :: rest)).length
        ((encode before).length + size) = (encode before).length + size := by omega
    simp only [pieceEnd, hmin]
    by_cases hfull : (encode piece).length = size
    · -- the piece ends with a whole character
      have hstop : (encode before).length + size = (encode (before ++ piece)).length := by omega
      rw [hstop, if_neg]
      rintro ⟨-, hhigh⟩
      rw [encode_append, hlast] at hhigh
      cases hhigh
    · -- one unit is left, and the next character is a pair
      have hstop : (encode before).length + size = (encode (before ++ piece)).length + 1 := by omega
      rw [hstop, Nat.add_sub_cancel, if_pos]
      refine ⟨by omega, ?_⟩
      rcases encodeChar_cases c with ⟨hone, -⟩ | ⟨u, v, htwo, hhigh, -⟩
      · rw [hone, List.length_singleton] at hc
        omega
      · rw [encode_append, encode_cons, htwo, List.getD_eq_getElem?_getD,
          List.getElem?_append_right le_rfl]
        simpa using hhigh

/-- **The pieces of a text** are those that it is cut into. -/
theorem chunksFrom_encode (size : PieceSize) (before text : List Char) : ∃ pieces,
    Cut size text pieces ∧
      chunksFrom (encode (before ++ text)) size (encode before).length = pieces.map encode := by
  -- the pieces are cut off in front, so the induction is on how much text is left
  induction hn : text.length using Nat.strong_induction_on generalizing before text with
  | _ n ih =>
    obtain ⟨piece, rest, rfl, hfits, hlongest⟩ := exists_piece size text
    by_cases htext : piece ++ rest = []
    · refine ⟨[], ?_, ?_⟩
      · rw [htext]
        exact .nil
      · rw [htext, List.append_nil, chunksFrom_length]
        rfl
    · -- a piece has room for one character at least
      have hpiece : piece ≠ [] := by
        rintro rfl
        obtain ⟨c, rest, rfl⟩ := List.exists_cons_of_ne_nil htext
        have hroom := hlongest c rfl
        have hwidth := length_encodeChar c
        have hsize := size.2
        rw [List.nil_append, length_encode_singleton] at hroom
        omega
      have hshort : rest.length < n := by
        have hpos := List.length_pos_iff.mpr hpiece
        rw [← hn, List.length_append]
        omega
      obtain ⟨pieces, hcut, hpieces⟩ := ih rest.length hshort (before ++ piece) rest rfl
      refine ⟨piece :: pieces, .cons hpiece hfits hlongest hcut, ?_⟩
      have hlt : (encode before).length < (encode (before ++ (piece ++ rest))).length := by
        have hpos := length_encode_pos htext
        rw [length_encode_append]
        omega
      rw [chunksFrom_of_lt hlt, ← List.append_assoc, pieceEnd_encode hpiece hfits hlongest, hpieces,
        List.map_cons]
      have hslice : (List.take (encode (before ++ piece)).length
          (encode (before ++ piece ++ rest))).drop (encode before).length = encode piece := by
        have hall : encode (before ++ piece ++ rest) = encode (before ++ piece) ++ encode rest :=
          encode_append
        rw [hall, List.take_left, encode_append, List.drop_left]
      rw [hslice]

theorem chunkText_encode (size : PieceSize) (text : List Char) : ∃ pieces,
    Cut size text pieces ∧ chunkText (encode text) size = pieces.map encode :=
  chunksFrom_encode size [] text

/-- A text is cut in one way. -/
theorem Cut.unique {size : Nat} {pieces pieces' : List (List Char)} (h : Cut size text pieces)
    (h' : Cut size text pieces') : pieces = pieces' := by
  induction h generalizing pieces' with
  | nil =>
    generalize hnil : ([] : List Char) = text at h'
    cases h' with
    | nil => rfl
    | cons hpiece => simp [hpiece] at hnil
  | @cons piece rest pieces hpiece hfits hlongest hcut ih =>
    generalize htext : piece ++ rest = text at h'
    cases h' with
    | nil => simp [hpiece] at htext
    | @cons piece' rest' pieces' hpiece' hfits' hlongest' hcut' =>
      -- the shorter of two pieces would have room for a character of the other
      have hlonger : ∀ {p r p' : List Char} (c : Char) (tail r' : List Char),
          p' = p ++ c :: tail → r = c :: (tail ++ r') → (encode p').length ≤ size →
          (∀ c ∈ r.head?, size < (encode (p ++ [c])).length) → False := by
        rintro p r p' c tail r' rfl rfl hfits hlongest
        have hc := hlongest c rfl
        rw [length_encode_append, length_encode_singleton] at hc
        rw [length_encode_append, encode_cons, List.length_append] at hfits
        omega
      rcases List.append_eq_append_iff.mp htext with ⟨tail, hp, hr⟩ | ⟨tail, hp, hr⟩
      · cases tail with
        | nil =>
          rw [List.append_nil] at hp
          rw [List.nil_append] at hr
          subst hp hr
          rw [ih hcut']
        | cons c tail => exact (hlonger c tail rest' hp hr hfits' hlongest).elim
      · cases tail with
        | nil =>
          rw [List.append_nil] at hp
          rw [List.nil_append] at hr
          subst hp hr
          rw [ih hcut']
        | cons c tail => exact (hlonger c tail rest hp hr hfits hlongest').elim

/-! ### Any units -/

section AnyUnits

variable {units : Units} {start : Nat}

/-- The loop of `chunkText` for any size: the pieces from `start` on, `none` when `fuel` rounds are
not enough. -/
def chunkLoop (units : Units) (size : Nat) : Nat → Nat → Option (List Units)
  | 0, start => if start < units.length then none else some []
  | fuel + 1, start =>
    if start < units.length then
      let stop := min units.length (start + size)
      let stop :=
        if stop < units.length ∧ isHigh (units.getD (stop - 1) 0) = true then stop - 1 else stop
      (chunkLoop units size fuel stop).map ((units.take stop).drop start :: ·)
    else some []

/-- **Every round goes on**, so there are no more rounds than units. -/
theorem chunkLoop_eq {fuel : Nat} (h : units.length - start ≤ fuel) :
    chunkLoop units size fuel start = some (chunksFrom units size start) := by
  induction fuel generalizing start with
  | zero =>
    have hend : ¬start < units.length := by omega
    rw [chunkLoop, if_neg hend, chunksFrom, dif_neg hend]
  | succ fuel ih =>
    by_cases hlt : start < units.length
    · have hnext : start < pieceEnd units size start := lt_pieceEnd hlt
      have hle : units.length - pieceEnd units size start ≤ fuel := by omega
      have hrest := ih hle
      rw [chunksFrom_of_lt hlt, chunkLoop, if_pos hlt]
      exact congrArg (Option.map _) hrest
    · rw [chunkLoop, if_neg hlt, chunksFrom, dif_neg hlt]

theorem pieceEnd_le (units : Units) (size : PieceSize) (start : Nat) :
    pieceEnd units size start ≤ units.length ∧ pieceEnd units size start ≤ start + size := by
  simp only [pieceEnd]
  split <;> omega

/-- No piece ends between the halves of a pair. -/
theorem pieceEnd_pair (hlt : pieceEnd units size start < units.length)
    (hhigh : isHigh (units.getD (pieceEnd units size start - 1) 0) = true) :
    isLow (units.getD (pieceEnd units size start) 0) = false := by
  simp only [pieceEnd] at hlt hhigh ⊢
  split_ifs at hlt hhigh ⊢ with hback
  · -- the loop went back to a first half, which is no second half
    have hnext := hback.2
    simp only [isHigh, isLow, Bool.and_eq_true, Bool.and_eq_false_iff, decide_eq_true_eq,
      decide_eq_false_iff_not] at hnext ⊢
    omega
  · exact absurd ⟨hlt, hhigh⟩ hback

/-- The halves of a pair are in different pieces. -/
def SplitsPair (piece next : Units) : Prop :=
  ∃ u ∈ piece.getLast?, ∃ v ∈ next.head?, isHigh u = true ∧ isLow v = true

theorem getLast_slice {stop : Nat} (hlt : start < stop) (hle : stop ≤ units.length) :
    ((units.take stop).drop start).getLast? = units[stop - 1]? := by
  rw [List.getLast?_eq_getElem?, List.length_drop, List.length_take, min_eq_left hle,
    List.getElem?_drop, List.getElem?_take_of_lt (by omega)]
  congr 1
  omega

theorem head_slice {stop : Nat} (hlt : start < stop) :
    ((units.take stop).drop start).head? = units[start]? := by
  rw [List.head?_drop, List.getElem?_take_of_lt hlt]

theorem flatten_chunksFrom (h : start ≤ units.length) :
    (chunksFrom units size start).flatten = units.drop start := by
  fun_induction chunksFrom units size start with
  | case1 start hlt hnext ih =>
    have hstop := pieceEnd_le units size start
    rw [List.flatten_cons, ih hstop.1]
    have hsplit : units.drop start = (units.take (pieceEnd units size start)).drop start ++
        units.drop (pieceEnd units size start) := by
      conv_lhs => rw [← List.take_append_drop (pieceEnd units size start) units]
      rw [List.drop_append_of_le_length]
      rw [List.length_take]
      omega
    exact hsplit.symm
  | case2 start hlt =>
    rw [List.flatten_nil, List.drop_eq_nil_of_le (by omega)]

theorem mem_chunksFrom {piece : Units} (h : piece ∈ chunksFrom units size start) :
    piece ≠ [] ∧ piece.length ≤ size := by
  fun_induction chunksFrom units size start with
  | case1 start hlt hnext ih =>
    rcases List.mem_cons.mp h with rfl | h
    · have hstop := pieceEnd_le units size start
      have hlength : ((units.take (pieceEnd units size start)).drop start).length =
          pieceEnd units size start - start := by
        rw [List.length_drop, List.length_take, min_eq_left hstop.1]
      refine ⟨List.ne_nil_of_length_pos ?_, ?_⟩
      · omega
      · omega
    · exact ih h
  | case2 start hlt => cases h

theorem isChain_chunksFrom (units : Units) (size : PieceSize) (start : Nat) :
    (chunksFrom units size start).IsChain fun piece next => ¬SplitsPair piece next := by
  fun_induction chunksFrom units size start with
  | case1 start hlt hnext ih =>
    have hstop := (pieceEnd_le units size start).1
    by_cases hend : pieceEnd units size start < units.length
    · rw [chunksFrom_of_lt hend] at ih ⊢
      refine List.isChain_cons_cons.mpr ⟨?_, ih⟩
      rintro ⟨u, hu, v, hv, hhigh, hlow⟩
      rw [getLast_slice hnext hstop] at hu
      rw [head_slice (lt_pieceEnd hend)] at hv
      have hpair := pieceEnd_pair hend
      rw [List.getD_eq_getElem?_getD, List.getD_eq_getElem?_getD, Option.mem_def.mp hu,
        Option.mem_def.mp hv, Option.getD_some, Option.getD_some, hlow] at hpair
      cases hpair hhigh
    · rw [chunksFrom, dif_neg hend]
      exact List.IsChain.singleton _
  | case2 start hlt => exact List.IsChain.nil

/-- **The pieces of any units**: none is empty or too long, together they are the units, and no
pair is split. The loop that makes them ends. -/
theorem chunkText_units (units : Units) (size : PieceSize) :
    (∃ fuel, chunkLoop units size fuel 0 = some (chunkText units size)) ∧
    (∀ piece ∈ chunkText units size, piece ≠ [] ∧ piece.length ≤ size) ∧
    (chunkText units size).flatten = units ∧
    (chunkText units size).IsChain fun piece next => ¬SplitsPair piece next :=
  ⟨⟨units.length, chunkLoop_eq (Nat.sub_le _ _)⟩, fun _ h => mem_chunksFrom h,
    flatten_chunksFrom (Nat.zero_le _), isChain_chunksFrom units size 0⟩

end AnyUnits

end Keyboard

end AndroidAppliance
