import AndroidAppliance.Ctl.Requests

/-!
# Commands with a body

The commands of `androidctl` that send a JSON body, through the handlers of `api.py`. A body is an
object of `Json.Write`, so what is left for each command is which fields it writes, and that the
handler asks for these.
-/

namespace AndroidAppliance

namespace Ctl

open Request (Raise Interpreter badRequest about)
open Text (Codes)
open Files (Bytes)

/-! ### Bodies -/

open Json (Scalar writeObject fieldsOf isPlain isPrintable)

/-- The interpreter reads JSON in ASCII. -/
structure ReadsAscii (py : Interpreter) : Prop where
  decode : ∀ text : Str, text.all isPrintable = true →
    py.decode (Request.bytesOf text) = some (Codes.ofText text)
  limit : 1 ≤ py.limit

variable {py : Interpreter} {env : Setting} {chunks : List Bytes}

/-- The body of a script is read, however it is cut into chunks. -/
theorem json_written (hpy : ReadsAscii py) (fields : List (Str × Scalar))
    (hkeys : ∀ f ∈ fields, f.1.all isPlain = true) (hvalues : ∀ f ∈ fields, f.2.Writable)
    (hlength : (writeObject fields).length ≤ Request.jsonLimit)
    (hchunks : chunks.flatten = Request.bytesOf (writeObject fields)) :
    Request.json py chunks = .ok (fieldsOf fields) := by
  have hbody : Request.read Request.jsonLimit [] chunks =
      .ok (Request.bytesOf (writeObject fields)) := by
    have hread : Request.read Request.jsonLimit [] chunks = .ok ([] ++ chunks.flatten) :=
      Request.read_of_length_le [] (by
      rw [List.nil_append, hchunks, Request.bytesOf, List.length_map]
      exact hlength)
    rw [hread, List.nil_append, hchunks]
  exact Request.json_of_loads hbody rfl
    (hpy.decode _ (Json.printable_writeObject hkeys hvalues))
    (Json.loads_writeObject hpy.limit hkeys hvalues)

/-! ### Numbers -/

/-- A number is bounded by its digits. -/
theorem ofDigitChars_lt {digits : Str} (h : ∀ c ∈ digits, c.isDigit = true) (n : Nat) :
    Nat.ofDigitChars 10 digits n < (n + 1) * 10 ^ digits.length := by
  induction digits generalizing n with
  | nil => simp
  | cons c digits ih =>
    have hc := Str.digit_toNat (h c List.mem_cons_self)
    have hrest := ih (fun d hd => h d (List.mem_cons_of_mem _ hd)) (10 * n + (c.toNat - 48))
    rw [Nat.ofDigitChars_cons, List.length_cons, pow_succ]
    refine lt_of_lt_of_le hrest ?_
    calc (10 * n + (c.toNat - 48) + 1) * 10 ^ digits.length
        ≤ ((n + 1) * 10) * 10 ^ digits.length := Nat.mul_le_mul_right _ (by omega)
      _ = (n + 1) * (10 ^ digits.length * 10) := by ring

/-- `integers` lets pass nine digits at most. -/
theorem int_lt {values : List Str} (h : integers values = true) :
    ∀ value ∈ values, Str.int value < 10 ^ 9 := by
  intro value hvalue
  have hv := List.all_eq_true.mp h value hvalue
  simp only [Bool.and_eq_true, decide_eq_true_eq, Str.isDigits] at hv
  have hlt := ofDigitChars_lt (List.all_eq_true.mp hv.1.2) 0
  rw [Nat.zero_add, Nat.one_mul] at hlt
  exact lt_of_lt_of_le hlt (Nat.pow_le_pow_right (by decide) hv.2)

section Fields

variable {data : Request.Fields} {field : Str} {n : Nat}

/-- A field with such a number is accepted. -/
theorem number_nat {default : Request.Default}
    (hget : Json.get data (Codes.ofText field) = some (.int n)) (hn : n < 10 ^ 9) :
    Request.number data field default = .ok (some (.int n)) := by
  have hfinite : (Request.Num.int n).isfinite = .ok true := by
    have hrange : 10 ^ 9 ≤ Request.Num.floatRange := by decide +kernel
    exact if_pos (lt_of_lt_of_le hn hrange)
  have hfiniteNumber : Request.finiteNumber (.int n) = .ok (some (.int n)) := by
    simp only [Request.finiteNumber, Request.Num.of, hfinite]
    rfl
  unfold Request.number
  rw [hget]
  cases default <;> simp only [hfiniteNumber]

/-- So is a duration within its limit. -/
theorem duration_nat {default : Int}
    (hget : Json.get data (Codes.ofText field) = some (.int n)) (hn : n < 10 ^ 9) :
    Request.duration data field default = if n ≤ 60000 then .ok (n : Int)
      else .error (badRequest (about field "must be between 0 and 60000".toList)) := by
  unfold Request.duration
  rw [number_nat hget hn]
  change (if (Request.Num.int n).atLeast 0 && (Request.Num.int n).atMost 60000 then _ else _) = _
  have hlow : (Request.Num.int n).atLeast 0 = true := decide_eq_true (Int.natCast_nonneg n)
  have hhigh : (Request.Num.int n).atMost 60000 = decide (n ≤ 60000) :=
    decide_eq_decide.mpr (by omega)
  rw [hlow, hhigh, Bool.true_and]
  by_cases hle : n ≤ 60000
  · rw [if_pos (decide_eq_true hle), if_pos hle]
    rfl
  · rw [if_neg (by simpa using hle), if_neg hle]
    rfl

end Fields

/-! ### Commands with a body -/

/-- A number of up to nine digits. -/
theorem writable_nat {n : Nat} (h : n < 10 ^ 9) : (Scalar.nat n).Writable :=
  le_trans ((Nat.length_toDigits_le_iff (by decide) (by decide)).mpr h) (by decide)

/-- What the commands with numbers send fits into the limit. -/
theorem length_writeObject {fields : List (Str × Scalar)} (hcount : fields.length ≤ 100)
    (h : ∀ f ∈ fields, (Json.writeField f).length ≤ 100) :
    (writeObject fields).length ≤ Request.jsonLimit := by
  have hfields : (Json.writeFields fields).length ≤ fields.length * 101 := by
    clear hcount
    unfold Json.writeFields
    induction fields with
    | nil => exact Nat.zero_le _
    | cons f rest ih =>
      have hf := h f List.mem_cons_self
      have hrest := ih fun g hg => h g (List.mem_cons_of_mem _ hg)
      cases rest with
      | nil =>
        rw [List.map_singleton, List.intercalate_singleton, List.length_singleton]
        omega
      | cons g rest =>
        rw [List.map_cons, List.map_cons] at *
        rw [List.intercalate_cons_cons, List.length_append, List.length_append,
          List.length_singleton, List.length_cons]
        omega
  have hlimit : Request.jsonLimit = 1048576 := rfl
  rw [writeObject, List.cons_append, List.length_cons, List.length_append, List.length_singleton,
    hlimit]
  omega

/-- The fields of numbers. -/
def natFields (fields : List (String × Nat)) : List (Str × Scalar) :=
  fields.map fun f => (f.1.toList, .nat f.2)

/-- An object of small numbers is read as it is written. -/
theorem json_nats (hpy : ReadsAscii py) {fields : List (String × Nat)} (keys : List String)
    {body : Str} (hfields : fields.map Prod.fst = keys) (hcount : keys.length ≤ 100)
    (hkeys : keys.all (fun key => key.toList.all isPlain && key.toList.length ≤ 20) = true)
    (hvalues : ∀ f ∈ fields, f.2 < 10 ^ 9) (hbody : body = Json.writeFields (natFields fields))
    (hchunks : chunks.flatten = Request.bytesOf (braces body)) :
    Request.json py chunks = .ok (fieldsOf (natFields fields)) := by
  have hfield : ∀ g ∈ natFields fields,
      g.1.all isPlain = true ∧ g.2.Writable ∧ (Json.writeField g).length ≤ 100 := by
    intro g hg
    obtain ⟨f, hf, rfl⟩ := List.mem_map.mp hg
    have hkey := List.all_eq_true.mp hkeys f.1 (hfields ▸ List.mem_map_of_mem hf)
    rw [Bool.and_eq_true, decide_eq_true_eq] at hkey
    have hdigits : (Str.ofNat f.2).length ≤ 9 :=
      (Nat.length_toDigits_le_iff (by decide) (by decide)).mpr (hvalues f hf)
    refine ⟨hkey.1, writable_nat (hvalues f hf), ?_⟩
    simp only [Json.writeField, Scalar.text, List.length_append, List.length_cons]
    omega
  rw [hbody] at hchunks
  refine json_written hpy _ (fun g hg => (hfield g hg).1) (fun g hg => (hfield g hg).2.1) ?_ hchunks
  refine length_writeObject ?_ fun g hg => (hfield g hg).2.2
  rw [natFields, List.length_map, ← List.length_map (f := Prod.fst), hfields]
  exact hcount

/-- A text is known by its code points. -/
theorem ofText_inj {a b : Str} : Codes.ofText a = Codes.ofText b ↔ a = b :=
  ⟨fun h => by simpa using congrArg Codes.text? h, fun h => h ▸ rfl⟩

/-- The last field of a name counts. -/
theorem get_natFields (fields : List (String × Nat)) (key : String) :
    Json.get (fieldsOf (natFields fields)) (Codes.ofText key.toList) =
      (fields.reverse.find? fun f => f.1 = key).map fun f => .int f.2 := by
  have hkey : ∀ name : String,
      decide (Codes.ofText name.toList = Codes.ofText key.toList) = decide (name = key) :=
    fun name => decide_eq_decide.mpr (ofText_inj.trans String.toList_inj)
  rw [Json.get, fieldsOf, natFields, List.map_map, ← List.map_reverse, List.find?_map,
    Option.map_map]
  refine congrArg₂ _ rfl ?_
  refine congrFun (congrArg _ (funext fun f => ?_)) _
  exact hkey f.1

/-- The first field of a body. -/
theorem writeFields_first {key : String} {value l : Str}
    (hl : l = '"' :: key.toList ++ ['"', ':']) :
    l ++ decimal value = Json.writeFields (natFields [(key, Str.int value)]) := by
  rw [hl, natFields, List.map_singleton, Json.writeFields, List.map_singleton,
    List.intercalate_singleton, Json.writeField, List.append_assoc]
  rfl

/-- A field behind others. -/
theorem writeFields_next {fields : List (String × Nat)} {key : String} {value t l : Str}
    (ht : t = Json.writeFields (natFields fields)) (hne : fields ≠ [])
    (hl : l = ',' :: '"' :: key.toList ++ ['"', ':']) :
    t ++ l ++ decimal value = Json.writeFields (natFields (fields ++ [(key, Str.int value)])) := by
  have hne' : natFields fields ≠ [] := by simpa [natFields] using hne
  have hfields : natFields (fields ++ [(key, Str.int value)]) =
      natFields fields ++ [(key.toList, .nat (Str.int value))] := List.map_append
  rw [hfields, Json.writeFields_concat hne', ht, hl, Json.writeField]
  simp only [List.append_assoc, List.cons_append, List.nil_append]
  rfl

/-- The fields of a press. -/
theorem pressBody_eq (x y : Str) : pressBody x y =
    Json.writeFields (natFields [("x", Str.int x), ("y", Str.int y)]) :=
  writeFields_next (writeFields_first (by decide)) (List.cons_ne_nil _ _) (by decide)

/-- The fields of a swipe. -/
theorem swipeBody_eq (x1 y1 x2 y2 : Str) : swipeBody x1 y1 x2 y2 = Json.writeFields (natFields
    [("x1", Str.int x1), ("y1", Str.int y1), ("x2", Str.int x2), ("y2", Str.int y2)]) :=
  writeFields_next (writeFields_next (writeFields_next (writeFields_first (by decide))
    (List.cons_ne_nil _ _) (by decide)) (List.cons_ne_nil _ _) (by decide))
    (List.cons_ne_nil _ _) (by decide)

section Numbers

variable {fields : List (String × Nat)} {key name : String} {n : Nat}

/-- A number among the fields. -/
theorem number_natFields (hfind : (fields.reverse.find? fun f => f.1 = key) = some (name, n))
    (hn : n < 10 ^ 9) {default : Request.Default} :
    Request.number (fieldsOf (natFields fields)) key.toList default = .ok (some (.int n)) :=
  number_nat ((get_natFields fields key).trans (congrArg _ hfind)) hn

/-- The duration among the fields. -/
theorem duration_natFields {ms : Str} {default : Int} {call : Int → Call}
    (hfind : (fields.reverse.find? fun f => f.1 = "duration_ms") = some (name, Str.int ms))
    (hn : Str.int ms < 10 ^ 9) :
    (Request.duration (fieldsOf (natFields fields)) "duration_ms".toList default).map call =
      limited ms call := by
  rw [duration_nat ((get_natFields fields _).trans (congrArg _ hfind)) hn, limited]
  split <;> rfl

/-- Without a duration it is the one of the handler. -/
theorem duration_absent (default : Nat) (hdefault : default ≤ 60000) {call : Int → Call}
    (hfind : (fields.reverse.find? fun f => f.1 = key) = none) :
    (Request.duration (fieldsOf (natFields fields)) key.toList default).map call =
      .ok (call default) := by
  have hget : Json.get (fieldsOf (natFields fields)) (Codes.ofText key.toList) = none :=
    (get_natFields fields key).trans (congrArg _ hfind)
  have hlow : (Request.Num.int default).atLeast 0 = true :=
    decide_eq_true (Int.natCast_nonneg default)
  have hhigh : (Request.Num.int default).atMost 60000 = true := decide_eq_true (by omega)
  have hduration : Request.duration (fieldsOf (natFields fields)) key.toList default =
      .ok (default : Int) := by
    unfold Request.duration Request.number
    rw [hget]
    change (if (Request.Num.int default).atLeast 0 && (Request.Num.int default).atMost 60000
      then _ else _) = _
    rw [hlow, hhigh]
    rfl
  rw [hduration]
  rfl

end Numbers

section Handlers

variable {data : Request.Fields} (hjson : Request.json env.py chunks = .ok data)

include hjson

/-- `tap`, of a body with both numbers. -/
theorem apiTap_eq (target : Str) {x y : Option Request.Num}
    (hx : Request.number data "x".toList .missing = .ok x)
    (hy : Request.number data "y".toList .missing = .ok y) :
    apiTap env target chunks = .ok (.tap x y) := by
  unfold apiTap
  rw [hjson]
  change (Request.number data "x".toList .missing).bind _ = _
  rw [hx]
  change (Request.number data "y".toList .missing).bind _ = _
  rw [hy]
  rfl

/-- `long_press`, of a body with both numbers. -/
theorem apiLongPress_eq (target : Str) {x y : Option Request.Num}
    (hx : Request.number data "x".toList .missing = .ok x)
    (hy : Request.number data "y".toList .missing = .ok y) :
    apiLongPress env target chunks =
      (Request.duration data "duration_ms".toList 800).map (.longPress x y) := by
  unfold apiLongPress
  rw [hjson]
  change (Request.number data "x".toList .missing).bind _ = _
  rw [hx]
  change (Request.number data "y".toList .missing).bind _ = _
  rw [hy]
  cases Request.duration data "duration_ms".toList 800 <;> rfl

/-- `swipe`, of a body with all four numbers. -/
theorem apiSwipe_eq (target : Str) {x1 y1 x2 y2 : Option Request.Num}
    (hx1 : Request.number data "x1".toList .missing = .ok x1)
    (hy1 : Request.number data "y1".toList .missing = .ok y1)
    (hx2 : Request.number data "x2".toList .missing = .ok x2)
    (hy2 : Request.number data "y2".toList .missing = .ok y2) :
    apiSwipe env target chunks =
      (Request.duration data "duration_ms".toList 300).map (.swipe [x1, y1, x2, y2]) := by
  have hpoints : (["x1".toList, "y1".toList, "x2".toList, "y2".toList].mapM fun key =>
      Request.number data key .missing) = .ok [x1, y1, x2, y2] := by
    simp only [List.mapM_cons, List.mapM_nil, hx1, hy1, hx2, hy2]
    rfl
  unfold apiSwipe
  rw [hjson]
  change Except.bind (List.mapM _ _) _ = _
  rw [hpoints]
  cases Request.duration data "duration_ms".toList 300 <;> rfl

end Handlers

/-- A command is done: its request comes to a handler, which does what the command means. -/
def Done (env : Setting) (chunks : List Bytes) (c : Command) (sent : Sent) : Prop :=
  chunks.flatten = sent.body →
    ∃ result, handle env sent.method sent.target chunks = some result ∧
      Means env.limit c result

/-- `cmd_tap`. -/
theorem tap_done (hpy : ReadsAscii env.py) {args : List Str} {sent : Sent}
    (hsent : cmdTap args = some sent) : Done env chunks (.tap args) sent := by
  unfold cmdTap at hsent
  split at hsent
  case h_2 => cases hsent
  case h_1 x y =>
    split at hsent
    case isFalse => cases hsent
    case isTrue hints =>
      cases hsent
      intro hchunks
      have hx : Str.int x < 10 ^ 9 := int_lt hints x (by simp)
      have hy : Str.int y < 10 ^ 9 := int_lt hints y (by simp)
      have hjson := json_nats hpy ["x", "y"] rfl (by decide) (by decide)
        (by simpa using ⟨hx, hy⟩) (pressBody_eq x y) hchunks
      have htap := apiTap_eq hjson "/input/tap".toList (number_natFields rfl hx)
        (number_natFields rfl hy)
      exact ⟨_, congrArg some htap, .tap x y⟩

/-- `cmd_long_press`. -/
theorem longPress_done (hpy : ReadsAscii env.py) {args : List Str} {sent : Sent}
    (hsent : cmdLongPress args = some sent) : Done env chunks (.longPress args) sent := by
  unfold cmdLongPress at hsent
  split at hsent
  case h_3 => cases hsent
  case h_1 x y =>
    split at hsent
    case isFalse => cases hsent
    case isTrue hints =>
      cases hsent
      intro hchunks
      have hx : Str.int x < 10 ^ 9 := int_lt hints x (by simp)
      have hy : Str.int y < 10 ^ 9 := int_lt hints y (by simp)
      have hjson := json_nats hpy ["x", "y"] rfl (by decide) (by decide)
        (by simpa using ⟨hx, hy⟩) (pressBody_eq x y) hchunks
      have hpress := (apiLongPress_eq hjson "/input/long-press".toList
        (number_natFields rfl hx) (number_natFields rfl hy)).trans
        (duration_absent 800 (by decide) rfl)
      exact ⟨_, congrArg some hpress, .longPress x y⟩
  case h_2 x y ms =>
    split at hsent
    case isFalse => cases hsent
    case isTrue hints =>
      cases hsent
      intro hchunks
      have hx : Str.int x < 10 ^ 9 := int_lt hints x (by simp)
      have hy : Str.int y < 10 ^ 9 := int_lt hints y (by simp)
      have hms : Str.int ms < 10 ^ 9 := int_lt hints ms (by simp)
      have hjson := json_nats hpy ["x", "y", "duration_ms"] rfl (by decide) (by decide)
        (by simpa using ⟨hx, hy, hms⟩)
        (writeFields_next (pressBody_eq x y) (List.cons_ne_nil _ _) (by decide)) hchunks
      have hpress := (apiLongPress_eq hjson "/input/long-press".toList
        (number_natFields rfl hx) (number_natFields rfl hy)).trans (duration_natFields rfl hms)
      exact ⟨_, congrArg some hpress, .longPressFor x y ms⟩

/-- `cmd_swipe`. -/
theorem swipe_done (hpy : ReadsAscii env.py) {args : List Str} {sent : Sent}
    (hsent : cmdSwipe args = some sent) : Done env chunks (.swipe args) sent := by
  unfold cmdSwipe at hsent
  split at hsent
  case h_3 => cases hsent
  case h_1 x1 y1 x2 y2 =>
    split at hsent
    case isFalse => cases hsent
    case isTrue hints =>
      cases hsent
      intro hchunks
      have hx1 : Str.int x1 < 10 ^ 9 := int_lt hints x1 (by simp)
      have hy1 : Str.int y1 < 10 ^ 9 := int_lt hints y1 (by simp)
      have hx2 : Str.int x2 < 10 ^ 9 := int_lt hints x2 (by simp)
      have hy2 : Str.int y2 < 10 ^ 9 := int_lt hints y2 (by simp)
      have hjson := json_nats hpy ["x1", "y1", "x2", "y2"] rfl (by decide) (by decide)
        (by simpa using ⟨hx1, hy1, hx2, hy2⟩) (swipeBody_eq x1 y1 x2 y2) hchunks
      have hswipe := (apiSwipe_eq hjson "/input/swipe".toList
        (number_natFields rfl hx1) (number_natFields rfl hy1) (number_natFields rfl hx2)
        (number_natFields rfl hy2)).trans (duration_absent 300 (by decide) rfl)
      exact ⟨_, congrArg some hswipe, .swipe x1 y1 x2 y2⟩
  case h_2 x1 y1 x2 y2 ms =>
    split at hsent
    case isFalse => cases hsent
    case isTrue hints =>
      cases hsent
      intro hchunks
      have hx1 : Str.int x1 < 10 ^ 9 := int_lt hints x1 (by simp)
      have hy1 : Str.int y1 < 10 ^ 9 := int_lt hints y1 (by simp)
      have hx2 : Str.int x2 < 10 ^ 9 := int_lt hints x2 (by simp)
      have hy2 : Str.int y2 < 10 ^ 9 := int_lt hints y2 (by simp)
      have hms : Str.int ms < 10 ^ 9 := int_lt hints ms (by simp)
      have hjson := json_nats hpy ["x1", "y1", "x2", "y2", "duration_ms"] rfl (by decide)
        (by decide) (by simpa using ⟨hx1, hy1, hx2, hy2, hms⟩)
        (writeFields_next (swipeBody_eq x1 y1 x2 y2) (List.cons_ne_nil _ _) (by decide)) hchunks
      have hswipe := (apiSwipe_eq hjson "/input/swipe".toList
        (number_natFields rfl hx1) (number_natFields rfl hy1) (number_natFields rfl hx2)
        (number_natFields rfl hy2)).trans (duration_natFields rfl hms)
      exact ⟨_, congrArg some hswipe, .swipeFor x1 y1 x2 y2 ms⟩

/-! ### Other commands with a body -/

/-- The body of a key. -/
theorem bodyKey_eq (key : Str) : braces ("\"key\":\"".toList ++ key ++ "\"".toList) =
    writeObject [("key".toList, .str key)] := by
  have hkey : "\"key\":\"".toList = '"' :: "key".toList ++ ['"', ':', '"'] := by decide
  rw [braces, writeObject, Json.writeFields, List.map_singleton, List.intercalate_singleton,
    Json.writeField, hkey]
  simp only [Scalar.text, List.append_assoc, List.cons_append, List.nil_append]
  rfl

/-- JSON escapes no character of a key. -/
theorem isPlain_of_isKeyChar {c : Char} (h : isKeyChar c = true) : isPlain c = true := by
  have hascii : c.toNat < 128 := by
    -- The ranges of `Char.isUpper`, `Char.isLower` and `Char.isDigit`, written out.
    change (decide (c.val ≥ 'A'.val ∧ c.val ≤ 'Z'.val) ||
      (decide (c.val ≥ 'a'.val) && decide (c.val ≤ 'z'.val)) ||
      (decide (c.val ≥ '0'.val) && decide (c.val ≤ '9'.val)) || decide (c = '_')) = true at h
    simp only [Bool.or_eq_true, Bool.and_eq_true, decide_eq_true_eq, ge_iff_le,
      UInt32.le_iff_toNat_le] at h
    have hval : c.toNat = c.val.toNat := rfl
    rcases h with ((⟨-, h⟩ | ⟨-, h⟩) | ⟨-, h⟩) | rfl
    · exact lt_of_le_of_lt h (by decide)
    · exact lt_of_le_of_lt h (by decide)
    · exact lt_of_le_of_lt h (by decide)
    · decide
  have hall : ∀ n < 128, isKeyChar (Char.ofNat n) = true → isPlain (Char.ofNat n) = true := by
    decide
  rw [← Char.ofNat_toNat c] at h ⊢
  exact hall _ hascii h

/-- The length of the body of a key. -/
theorem length_keyBody (key : Str) :
    (writeObject [("key".toList, .str key)]).length = key.length + 10 := by
  simp only [writeObject, Json.writeFields, List.map_singleton, List.intercalate_singleton,
    Json.writeField, Scalar.text, List.length_append, List.length_cons, List.length_nil,
    List.cons_append]
  have hkey : "key".toList.length = 3 := by decide
  omega

/-- A string without a NUL is accepted. -/
theorem string_of_get (data : Request.Fields) (field : Str) {text : Str}
    (hget : Json.get data (Codes.ofText field) = some (.str (Codes.ofText text)))
    (hnul : Char.ofNat 0 ∉ text) : Request.string data field none = .ok (Codes.ofText text) := by
  have hcontains : (Codes.ofText text).contains (.char (Char.ofNat 0)) = false := by
    rw [Bool.eq_false_iff]
    intro hmem
    obtain ⟨c, hc, heq⟩ := List.mem_map.mp (List.contains_iff_mem.mp hmem)
    cases heq
    exact hnul hc
  have hclean : Request.clean field (Codes.ofText text) = .ok (Codes.ofText text) := by
    unfold Request.clean
    rw [if_neg (Bool.eq_false_iff.mp hcontains), Codes.text?_ofText]
    rfl
  unfold Request.string
  rw [hget]
  exact hclean

/-- `cmd_key`. -/
theorem key_done (hpy : ReadsAscii env.py) {args : List Str} {sent : Sent}
    (hsent : cmdKey args = some sent) : Done env chunks (.key args) sent := by
  unfold cmdKey at hsent
  split at hsent
  case h_2 => cases hsent
  case h_1 key =>
    split at hsent
    case isFalse => cases hsent
    case isTrue hkey =>
      cases hsent
      intro hchunks
      rw [Bool.and_eq_true] at hkey
      have hplain : key.all isPlain = true :=
        List.all_eq_true.mpr fun c hc => isPlain_of_isKeyChar (List.all_eq_true.mp hkey.2 c hc)
      have hbody : chunks.flatten = Request.bytesOf (writeObject [("key".toList, .str key)]) :=
        hchunks.trans (congrArg Request.bytesOf (bodyKey_eq key))
      obtain hlong | hshort := Nat.lt_or_ge Request.jsonLimit (key.length + 10)
      · have hread : Request.read Request.jsonLimit [] chunks = _ :=
          Request.read_of_length_gt (Nat.zero_le _) (by
            rw [List.nil_append, hbody, Request.bytesOf, List.length_map, length_keyBody]
            exact hlong)
        have hresult : apiKey env "/input/key".toList chunks =
            .error (badRequest ("the request body exceeds ".toList ++
              Str.ofNat Request.jsonLimit ++ " bytes".toList)) := by
          unfold apiKey Request.json
          rw [hread]
          rfl
        exact ⟨_, congrArg some hresult, .longKey hlong⟩
      · have hjson := json_written hpy [("key".toList, .str key)]
          (fun f hf => by rw [List.mem_singleton.mp hf]; rfl)
          (fun f hf => by rw [List.mem_singleton.mp hf]; exact hplain)
          (by rw [length_keyBody]; exact hshort) hbody
        have hnul : Char.ofNat 0 ∉ key := fun hmem => by
          have hbad := List.all_eq_true.mp hplain _ hmem
          revert hbad
          decide
        have hstring := string_of_get (fieldsOf [("key".toList, .str key)])
          "key".toList rfl hnul
        have hresult : apiKey env "/input/key".toList chunks = .ok (.key (Codes.ofText key)) := by
          unfold apiKey
          rw [hjson]
          change Except.bind (Request.string _ _ _) _ = _
          rw [hstring]
          rfl
        exact ⟨_, congrArg some hresult, .key hshort⟩

/-- The fields of the commands that start and stop Android. -/
def waitFields (wait : Bool) : List (Str × Scalar) := [("wait".toList, .bool wait)]

/-- A body that says whether to wait. -/
theorem json_wait (hpy : ReadsAscii env.py) (wait : Bool) (body : Str)
    (hbody : braces ("\"wait\":".toList ++ body) = writeObject (waitFields wait))
    (hchunks : chunks.flatten = Request.bytesOf (braces ("\"wait\":".toList ++ body))) :
    Request.json env.py chunks = .ok (fieldsOf (waitFields wait)) := by
  refine json_written hpy _ (fun f hf => ?_) (fun f hf => ?_) ?_ (hchunks.trans (congrArg _ hbody))
  · rw [List.mem_singleton.mp hf]
    rfl
  · rw [List.mem_singleton.mp hf]
    trivial
  · cases wait <;> decide

/-- `cmd_stop`. -/
theorem stop_done (hpy : ReadsAscii env.py) {args : List Str} {sent : Sent}
    (hsent : cmdStop args = some sent) : Done env chunks (.stop args) sent := by
  unfold cmdStop at hsent
  split at hsent
  case isFalse => cases hsent
  case isTrue hargs =>
    cases hsent
    subst hargs
    intro hchunks
    have hjson := json_wait hpy true "true".toList (by decide) hchunks
    have hresult : apiStop env "/stop?format=text".toList chunks = .ok (.stop true) := by
      unfold apiStop
      rw [hjson]
      rfl
    exact ⟨_, congrArg some hresult, .stop⟩

/-- `cmd_wait`. -/
theorem wait_done (hpy : ReadsAscii env.py) {args : List Str} {sent : Sent}
    (hsent : cmdWait args = some sent) : Done env chunks (.wait args) sent := by
  unfold cmdWait at hsent
  split at hsent
  case isFalse => cases hsent
  case isTrue hargs =>
    cases hsent
    subst hargs
    intro hchunks
    have hjson := json_written hpy [] (by simp) (by simp) (by decide) hchunks
    have hresult : apiWait env "/wait?format=text".toList chunks = .ok (.wait none) := by
      unfold apiWait
      rw [hjson]
      rfl
    exact ⟨_, congrArg some hresult, .wait⟩

/-- What `lifecycle` sends. -/
theorem lifecycle_eq {action : Str} {args : List Str} {sent : Sent}
    (h : lifecycle action args = some sent) : ∃ wait : Bool,
      wait = decide ("--no-wait".toList ∉ args) ∧
      sent.method = "POST".toList ∧ sent.target = '/' :: action ++ "?format=text".toList ∧
      sent.body = Request.bytesOf (writeObject (waitFields wait)) := by
  unfold lifecycle at h
  split at h
  case isTrue => cases h
  case isFalse hargs =>
    split at h
    case isTrue hempty =>
      cases h
      have hbody : braces ("\"wait\":".toList ++ "true".toList) =
          writeObject (waitFields true) := by decide
      have hmem : "--no-wait".toList ∉ args := by
        intro hmem
        cases args with
        | nil => cases hmem
        | cons arg args =>
          have hnil : args = [] := List.eq_nil_of_length_eq_zero (by simpa using hargs)
          rw [hnil, List.mem_singleton] at hmem
          rw [List.headD_cons, ← hmem] at hempty
          exact absurd hempty (by decide)
      exact ⟨true, (decide_eq_true hmem).symm, rfl, rfl, congrArg Request.bytesOf hbody⟩
    case isFalse =>
      split at h
      case isFalse => cases h
      case isTrue hnoWait =>
        cases h
        have hbody : braces ("\"wait\":".toList ++ "false".toList) =
            writeObject (waitFields false) := by decide
        have hmem : "--no-wait".toList ∈ args := by
          cases args with
          | nil => exact absurd hnoWait (by decide)
          | cons arg args =>
            rw [List.headD_cons] at hnoWait
            exact hnoWait ▸ List.mem_cons_self
        exact ⟨false, (decide_eq_false (not_not.mpr hmem)).symm, rfl, rfl,
          congrArg Request.bytesOf hbody⟩

/-- The body of a start. -/
theorem json_lifecycle (hpy : ReadsAscii env.py) {wait : Bool}
    (hchunks : chunks.flatten = Request.bytesOf (writeObject (waitFields wait))) :
    Request.json env.py chunks = .ok (fieldsOf (waitFields wait)) := by
  refine json_wait hpy wait (Scalar.text (.bool wait)) ?_ ?_
  · cases wait <;> decide
  · rw [hchunks]
    cases wait <;> decide

/-- `cmd_start`. -/
theorem start_done (hpy : ReadsAscii env.py) {args : List Str} {sent : Sent}
    (hsent : lifecycle "start".toList args = some sent) : Done env chunks (.start args) sent := by
  obtain ⟨wait, hwait, hmethod, htarget, hbody⟩ := lifecycle_eq hsent
  intro hchunks
  rw [hbody] at hchunks
  have hresult : apiStart env sent.target chunks = .ok (.start wait none) := by
    unfold apiStart
    rw [json_lifecycle hpy hchunks]
    rfl
  refine ⟨.ok (.start wait none), ?_, hwait ▸ .start args⟩
  rw [hmethod, ← hresult, htarget]
  rfl

/-- `cmd_restart`. -/
theorem restart_done (hpy : ReadsAscii env.py) {args : List Str} {sent : Sent}
    (hsent : lifecycle "restart".toList args = some sent) :
    Done env chunks (.restart args) sent := by
  obtain ⟨wait, hwait, hmethod, htarget, hbody⟩ := lifecycle_eq hsent
  intro hchunks
  rw [hbody] at hchunks
  have hresult : apiRestart env sent.target chunks = .ok (.restart wait none) := by
    unfold apiRestart
    rw [json_lifecycle hpy hchunks]
    rfl
  refine ⟨.ok (.restart wait none), ?_, hwait ▸ .restart args⟩
  rw [hmethod, ← hresult, htarget]
  rfl

end Ctl

end AndroidAppliance
