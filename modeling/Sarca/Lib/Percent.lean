import Mathlib.Data.List.Basic

/-!
# Percent coding of Unicode text

Texts are lists of code points. `percentEncode` writes every byte of the UTF-8 form that is not an
unreserved ASCII character as `%XX`; `percentDecode` reads `%XX` back and decodes the bytes leniently,
as `fromUtf8Lossy` does: every maximal broken part becomes U+FFFD. A literal character starts with a
byte that continues no sequence, so the escaped bytes between two literal characters are decoded on
their own.

* `percentDecode_percentEncode`, `percentDecode_encodeURIComponent`: decoding undoes encoding;
* `percentDecode_intercalate`: a separator divides the decoding;
* `percentDecode_eq_self_iff`: a text is its own decoding just when it holds no escape.
-/

namespace Sarca.Lib

/-! ## Lenient UTF-8 -/

/-- U+FFFD, the replacement character. -/
def replacement : Char := Char.ofNat 0xFFFD

/-- A continuation byte. -/
def isContinuation (b : UInt8) : Bool :=
  0x80 ≤ b && b ≤ 0xBF

/-- The second byte of a sequence of three or four bytes. -/
def isSecond (first second : UInt8) : Bool :=
  (first == 0xE0 && 0xA0 ≤ second && second ≤ 0xBF) ||
  (0xE1 ≤ first && first ≤ 0xEC && isContinuation second) ||
  (first == 0xED && 0x80 ≤ second && second ≤ 0x9F) ||
  (0xEE ≤ first && first ≤ 0xEF && isContinuation second) ||
  (first == 0xF0 && 0x90 ≤ second && second ≤ 0xBF) ||
  (0xF1 ≤ first && first ≤ 0xF3 && isContinuation second) ||
  (first == 0xF4 && 0x80 ≤ second && second ≤ 0x8F)

/-- How many bytes after the first one belong to the broken sequence they start. -/
def brokenTail (first : UInt8) : List UInt8 → Nat
  | second :: third :: _ =>
    if isSecond first second then (if 0xF0 ≤ first && isContinuation third then 2 else 1) else 0
  | [second] => if isSecond first second then 1 else 0
  | [] => 0

/-- The character the bytes start with. -/
def firstChar? (bs : List UInt8) : Option Char :=
  bs.toByteArray.utf8DecodeChar? 0

/-- Lenient decoding of at most `fuel` characters. -/
def lossyFuel : Nat → List UInt8 → List Char
  | 0, _ => []
  | _ + 1, [] => []
  | fuel + 1, b :: bs =>
    match firstChar? (b :: bs) with
    | some c => c :: lossyFuel fuel (bs.drop (c.utf8Size - 1))
    | none => replacement :: lossyFuel fuel (bs.drop (brokenTail b bs))

/-- Lenient decoding (Rust `String::from_utf8_lossy`). -/
def fromUtf8Lossy (bs : List UInt8) : List Char :=
  lossyFuel bs.length bs

/-! ## Escapes -/

/-- The value of a hexadecimal digit. -/
def hexValue (c : Char) : Option Nat :=
  if '0' ≤ c ∧ c ≤ '9' then some (c.toNat - 48)
  else if 'A' ≤ c ∧ c ≤ 'F' then some (c.toNat - 55)
  else if 'a' ≤ c ∧ c ≤ 'f' then some (c.toNat - 87)
  else none

/-- The hexadecimal digit of a value below 16, in upper case. -/
def hexDigit (n : Nat) : Char :=
  if n < 10 then Char.ofNat (48 + n) else Char.ofNat (55 + n)

/-- The byte of the escape a text starts with, after its `%`. -/
def escapedByte? : List Char → Option UInt8
  | hi :: lo :: _ =>
    match hexValue hi, hexValue lo with
    | some h, some l => some (UInt8.ofNat (16 * h + l))
    | _, _ => none
  | _ => none

/-- Decoding, where `pending` holds the escaped bytes since the last literal character; each step
    uses up one character or one escape, so `fuel` is the length of the text. -/
def decodeFrom : Nat → List UInt8 → List Char → List Char
  | _, pending, [] => fromUtf8Lossy pending
  | 0, pending, _ :: _ => fromUtf8Lossy pending
  | fuel + 1, pending, c :: rest =>
    match (if c = '%' then escapedByte? rest else none) with
    | some b => decodeFrom fuel (pending ++ [b]) (rest.drop 2)
    | none => fromUtf8Lossy pending ++ c :: decodeFrom fuel [] rest

/-- `percent_decode_str(text).decode_utf8_lossy()` -/
def percentDecode (text : List Char) : List Char :=
  decodeFrom text.length [] text

/-- The unreserved ASCII characters. -/
def isUnreserved (b : UInt8) : Bool :=
  (65 ≤ b && b ≤ 90) || (97 ≤ b && b ≤ 122) || (48 ≤ b && b ≤ 57) ||
    b == 45 || b == 95 || b == 46 || b == 126

/-- One byte, literal or escaped. -/
def encodeByte (b : UInt8) : List Char :=
  if isUnreserved b then [Char.ofNat b.toNat]
  else ['%', hexDigit (b.toNat / 16), hexDigit (b.toNat % 16)]

/-- The UTF-8 form of a text. -/
def utf8Bytes (text : List Char) : List UInt8 :=
  text.flatMap String.utf8EncodeChar

/-- Every byte that is not unreserved is escaped. -/
def percentEncode (text : List Char) : List Char :=
  (utf8Bytes text).flatMap encodeByte

/-- The ASCII characters that `encodeURIComponent` leaves alone: the unreserved ones and `!'()*`. -/
def isUriUnescaped (b : UInt8) : Bool :=
  isUnreserved b || b == 33 || b == 39 || b == 40 || b == 41 || b == 42

/-- One byte, literal if it may be kept. -/
def encodeByteBy (keep : UInt8 → Bool) (b : UInt8) : List Char :=
  if keep b then [Char.ofNat b.toNat] else ['%', hexDigit (b.toNat / 16), hexDigit (b.toNat % 16)]

/-- JavaScript `encodeURIComponent`. -/
def encodeURIComponent (text : List Char) : List Char :=
  (utf8Bytes text).flatMap (encodeByteBy isUriUnescaped)

/-- No `%` of the text starts an escape. -/
def NoEscape : List Char → Prop
  | [] => True
  | c :: rest => (c = '%' → escapedByte? rest = none) ∧ NoEscape rest

instance NoEscape.decidable : ∀ text, Decidable (NoEscape text)
  | [] => inferInstanceAs (Decidable True)
  | _ :: rest => @instDecidableAnd _ _ _ (NoEscape.decidable rest)

/-! ## Lenient decoding is short and undoes encoding -/

/-- Lenient decoding makes no more characters than there are bytes. -/
lemma length_lossyFuel (fuel : Nat) (bs : List UInt8) : (lossyFuel fuel bs).length ≤ bs.length := by
  induction fuel generalizing bs with
  | zero => exact Nat.zero_le _
  | succ fuel ih =>
    cases bs with
    | nil => exact Nat.le_refl 0
    | cons b bs =>
      unfold lossyFuel
      cases firstChar? (b :: bs) with
      | some c =>
        have h := ih (bs.drop (c.utf8Size - 1))
        simp only [List.length_cons, List.length_drop] at h ⊢
        omega
      | none =>
        have h := ih (bs.drop (brokenTail b bs))
        simp only [List.length_cons, List.length_drop] at h ⊢
        omega

lemma length_fromUtf8Lossy (bs : List UInt8) : (fromUtf8Lossy bs).length ≤ bs.length :=
  length_lossyFuel _ _

@[simp] lemma fromUtf8Lossy_nil : fromUtf8Lossy [] = [] := rfl

/-- The bytes of a character start with it. -/
lemma firstChar?_utf8EncodeChar (c : Char) (bs : List UInt8) :
    firstChar? (String.utf8EncodeChar c ++ bs) = some c := by
  unfold firstChar?
  rw [List.toByteArray_append]
  exact ByteArray.utf8DecodeChar?_utf8EncodeChar_append

/-- Lenient decoding reads the characters that were encoded. -/
lemma lossyFuel_utf8Bytes (text : List Char) (fuel : Nat) (h : text.length ≤ fuel) :
    lossyFuel fuel (utf8Bytes text) = text := by
  induction text generalizing fuel with
  | nil => cases fuel <;> rfl
  | cons c text ih =>
    cases fuel with
    | zero => exact absurd h (by simp)
    | succ fuel =>
      have hlen : (String.utf8EncodeChar c).length = c.utf8Size := String.length_utf8EncodeChar c
      have hpos : 0 < c.utf8Size := c.utf8Size_pos
      have hfirst := firstChar?_utf8EncodeChar c (utf8Bytes text)
      have htail := ih fuel (by simpa using h)
      have hcons : utf8Bytes (c :: text) = String.utf8EncodeChar c ++ utf8Bytes text := rfl
      rw [hcons]
      cases henc : String.utf8EncodeChar c with
      | nil =>
        rw [henc, List.length_nil] at hlen
        omega
      | cons b bs =>
        rw [henc] at hfirst hlen
        simp only [List.cons_append] at hfirst ⊢
        unfold lossyFuel
        rw [hfirst]
        have hdrop : (bs ++ utf8Bytes text).drop (c.utf8Size - 1) = utf8Bytes text := by
          rw [← hlen]
          exact List.drop_left
        simp only [hdrop, htail]

/-- A text has no more characters than bytes. -/
lemma length_le_utf8Bytes (text : List Char) : text.length ≤ (utf8Bytes text).length := by
  induction text with
  | nil => exact Nat.le_refl 0
  | cons c text ih =>
    have hpos : 0 < (String.utf8EncodeChar c).length := by
      rw [String.length_utf8EncodeChar]
      exact c.utf8Size_pos
    have hcons : utf8Bytes (c :: text) = String.utf8EncodeChar c ++ utf8Bytes text := rfl
    rw [hcons, List.length_append, List.length_cons]
    omega

/-- Lenient decoding undoes UTF-8 encoding. -/
lemma fromUtf8Lossy_utf8Bytes (text : List Char) : fromUtf8Lossy (utf8Bytes text) = text :=
  lossyFuel_utf8Bytes text _ (length_le_utf8Bytes text)

/-! ## Decoding and escapes -/

/-- An escape joins the pending bytes. -/
lemma decodeFrom_escape {rest : List Char} {b : UInt8} (h : escapedByte? rest = some b) (fuel : Nat)
    (pending : List UInt8) :
    decodeFrom (fuel + 1) pending ('%' :: rest) =
      decodeFrom fuel (pending ++ [b]) (rest.drop 2) := by
  simp [decodeFrom, h]

/-- A literal character ends the pending bytes. -/
lemma decodeFrom_literal {c : Char} {rest : List Char} (h : c = '%' → escapedByte? rest = none)
    (fuel : Nat) (pending : List UInt8) :
    decodeFrom (fuel + 1) pending (c :: rest) =
      fromUtf8Lossy pending ++ c :: decodeFrom fuel [] rest := by
  by_cases hc : c = '%'
  · simp [decodeFrom, hc, h hc]
  · simp [decodeFrom, hc]

/-- Decoding makes no more characters than it reads. -/
lemma length_decodeFrom (fuel : Nat) (pending : List UInt8) (text : List Char) :
    (decodeFrom fuel pending text).length ≤ pending.length + text.length := by
  induction fuel generalizing pending text with
  | zero =>
    have h := length_fromUtf8Lossy pending
    cases text <;> simp only [decodeFrom, List.length_nil, List.length_cons] <;> omega
  | succ fuel ih =>
    have hp := length_fromUtf8Lossy pending
    cases text with
    | nil => simpa [decodeFrom] using hp
    | cons c rest =>
      unfold decodeFrom
      split
      · case h_1 b _ =>
        have h := ih (pending ++ [b]) (rest.drop 2)
        simp only [List.length_append, List.length_drop, List.length_cons, List.length_nil] at h ⊢
        omega
      · have h := ih [] rest
        simp only [List.length_append, List.length_cons, List.length_nil] at h ⊢
        omega

/-- An escape is read as one byte, so decoding makes the text shorter. -/
lemma length_decodeFrom_lt {fuel : Nat} {text : List Char} (hfuel : text.length ≤ fuel)
    (h : ¬ NoEscape text) (pending : List UInt8) :
    (decodeFrom fuel pending text).length < pending.length + text.length := by
  induction fuel generalizing pending text with
  | zero =>
    cases text with
    | nil => exact absurd trivial h
    | cons c rest => exact absurd hfuel (by simp)
  | succ fuel ih =>
    have hp := length_fromUtf8Lossy pending
    cases text with
    | nil => exact absurd trivial h
    | cons c rest =>
      unfold decodeFrom
      split
      · case h_1 b hb =>
        have hle := length_decodeFrom fuel (pending ++ [b]) (rest.drop 2)
        have hlong : 2 ≤ rest.length := by
          split at hb
          · match rest, hb with
            | _ :: _ :: _, _ => simp
          · cases hb
        simp only [List.length_append, List.length_drop, List.length_cons, List.length_nil] at hle ⊢
        omega
      · case h_2 hnone =>
        have hrest : ¬ NoEscape rest := by
          intro hno
          refine h ⟨?_, hno⟩
          intro hc
          rwa [if_pos hc] at hnone
        have hlt := ih (by simpa using hfuel) hrest []
        simp only [List.length_append, List.length_cons, List.length_nil] at hlt ⊢
        omega

/-- Without escapes only the pending bytes are decoded. -/
lemma decodeFrom_of_noEscape {fuel : Nat} {text : List Char} (hfuel : text.length ≤ fuel)
    (h : NoEscape text) (pending : List UInt8) :
    decodeFrom fuel pending text = fromUtf8Lossy pending ++ text := by
  induction fuel generalizing pending text with
  | zero =>
    cases text with
    | nil => simp [decodeFrom]
    | cons c rest => exact absurd hfuel (by simp)
  | succ fuel ih =>
    cases text with
    | nil => simp [decodeFrom]
    | cons c rest =>
      rw [decodeFrom_literal h.1, ih (by simpa using hfuel) h.2 [], fromUtf8Lossy_nil,
        List.nil_append]

/-- A text is its own decoding just when it holds no escape. -/
theorem percentDecode_eq_self_iff {text : List Char} :
    percentDecode text = text ↔ NoEscape text := by
  constructor
  · intro h
    by_contra hno
    have hlt := length_decodeFrom_lt (Nat.le_refl _) hno []
    have heq := congrArg List.length h
    unfold percentDecode at heq
    simp only [List.length_nil] at hlt
    omega
  · intro h
    exact decodeFrom_of_noEscape (Nat.le_refl _) h []

/-- The parts of a text without escapes have none. -/
lemma NoEscape.of_append {text rest : List Char} (h : NoEscape (text ++ rest)) :
    NoEscape text ∧ NoEscape rest := by
  induction text with
  | nil => exact ⟨trivial, h⟩
  | cons c text ih =>
    obtain ⟨hc, htail⟩ := h
    obtain ⟨htext, hrest⟩ := ih htail
    refine ⟨⟨?_, htext⟩, hrest⟩
    intro hpc
    have hnone := hc hpc
    match text, hnone with
    | [], _ => rfl
    | [_], _ => rfl
    | _ :: _ :: _, hnone => exact hnone

/-! ## Encoding and back -/

/-- A digit is read as its value. -/
lemma hexValue_hexDigit : ∀ n, n < 16 → hexValue (hexDigit n) = some n := by
  decide

/-- The escape of a byte is read as that byte. -/
lemma escapedByte?_hexDigits (b : UInt8) (rest : List Char) :
    escapedByte? (hexDigit (b.toNat / 16) :: hexDigit (b.toNat % 16) :: rest) = some b := by
  have hb : b.toNat < 256 := b.toNat_lt
  have hval : 16 * (b.toNat / 16) + b.toNat % 16 = b.toNat := Nat.div_add_mod _ _
  simp only [escapedByte?, hexValue_hexDigit _ (show b.toNat / 16 < 16 by omega),
    hexValue_hexDigit _ (show b.toNat % 16 < 16 by omega), hval, UInt8.ofNat_toNat]

/-- What may be kept: ASCII characters other than `%`. -/
def KeepsAscii (keep : UInt8 → Bool) : Prop :=
  ∀ b, keep b = true → b.toNat < 128 ∧ b ≠ 37

lemma isUriUnescaped_keepsAscii : KeepsAscii isUriUnescaped := by
  intro b hb
  simp only [isUriUnescaped, isUnreserved, Bool.or_eq_true, Bool.and_eq_true, decide_eq_true_eq, beq_iff_eq,
    UInt8.le_iff_toNat_le, ← UInt8.toNat_inj, UInt8.reduceToNat] at hb
  refine ⟨by omega, fun h => ?_⟩
  rw [h] at hb
  revert hb
  decide

lemma isUnreserved_keepsAscii : KeepsAscii isUnreserved :=
  fun b hb => isUriUnescaped_keepsAscii b (by simp [isUriUnescaped, hb])

variable {keep : UInt8 → Bool}

/-- Escapes are read into the pending bytes. -/
lemma decodeFrom_escapes {bs : List UInt8} (hres : ∀ b ∈ bs, keep b = false)
    {rest : List Char} (fuel : Nat) (hfuel : (bs.flatMap (encodeByteBy keep) ++ rest).length ≤ fuel)
    (pending : List UInt8) :
    ∃ fuel', rest.length ≤ fuel' ∧
      decodeFrom fuel pending (bs.flatMap (encodeByteBy keep) ++ rest) =
        decodeFrom fuel' (pending ++ bs) rest := by
  induction bs generalizing fuel pending with
  | nil => exact ⟨fuel, hfuel, by simp⟩
  | cons b bs ih =>
    have henc : encodeByteBy keep b = ['%', hexDigit (b.toNat / 16), hexDigit (b.toNat % 16)] := by
      rw [encodeByteBy, hres b List.mem_cons_self]
      rfl
    simp only [List.flatMap_cons, henc, List.cons_append, List.nil_append, List.length_cons]
      at hfuel ⊢
    cases fuel with
    | zero => omega
    | succ fuel =>
      obtain ⟨fuel', hle, heq⟩ := ih (fun x hx => hres x (List.mem_cons_of_mem b hx)) fuel
        (by omega) (pending ++ [b])
      refine ⟨fuel', hle, ?_⟩
      rw [decodeFrom_escape (escapedByte?_hexDigits b _), List.drop_succ_cons, List.drop_succ_cons,
        List.drop_zero, heq, List.append_assoc]
      rfl

/-- The bytes of a character beyond ASCII are beyond ASCII. -/
lemma utf8EncodeChar_large {c : Char} (h : 127 < c.val.toNat) :
    ∀ b ∈ String.utf8EncodeChar c, 128 ≤ b.toNat := by
  intro b hb
  unfold String.utf8EncodeChar at hb
  simp only [Nat.not_le.mpr h, if_false] at hb
  split at hb
  · simp only [List.mem_cons, List.not_mem_nil, or_false] at hb
    rcases hb with rfl | rfl <;> simp only [UInt8.toNat_ofNat'] <;> omega
  · split at hb
    · simp only [List.mem_cons, List.not_mem_nil, or_false] at hb
      rcases hb with rfl | rfl | rfl <;> simp only [UInt8.toNat_ofNat'] <;> omega
    · simp only [List.mem_cons, List.not_mem_nil, or_false] at hb
      rcases hb with rfl | rfl | rfl | rfl <;> simp only [UInt8.toNat_ofNat'] <;> omega

/-- A character is encoded as itself, or all its bytes are escaped. -/
lemma encodeByteBy_utf8EncodeChar (hkeep : KeepsAscii keep) (c : Char) :
    (c ≠ '%' ∧ (String.utf8EncodeChar c).flatMap (encodeByteBy keep) = [c]) ∨
      ∀ b ∈ String.utf8EncodeChar c, keep b = false := by
  by_cases h : c.val.toNat ≤ 127
  · have henc : String.utf8EncodeChar c = [UInt8.ofNat c.val.toNat] := if_pos h
    have hval : (UInt8.ofNat c.val.toNat).toNat = c.val.toNat := by
      rw [UInt8.toNat_ofNat']
      omega
    cases hres : keep (UInt8.ofNat c.val.toNat) with
    | false =>
      right
      intro b hb
      rw [henc, List.mem_singleton] at hb
      rw [hb, hres]
    | true =>
      left
      constructor
      · rintro rfl
        exact (hkeep _ hres).2 rfl
      · rw [henc, List.flatMap_singleton, encodeByteBy, if_pos hres, hval]
        exact congrArg (fun x => [x]) (Char.ofNat_toNat c)
  · right
    intro b hb
    have hlarge := utf8EncodeChar_large (by omega) b hb
    refine Bool.eq_false_iff.mpr fun hb => ?_
    exact absurd (hkeep b hb).1 (Nat.not_lt.mpr hlarge)

/-- Decoding an encoded text, after some characters that are still pending. -/
lemma decodeFrom_encodeBy (hkeep : KeepsAscii keep) (text before : List Char) (fuel : Nat)
    (hfuel : ((utf8Bytes text).flatMap (encodeByteBy keep)).length ≤ fuel) :
    decodeFrom fuel (utf8Bytes before) ((utf8Bytes text).flatMap (encodeByteBy keep)) = before ++ text := by
  induction text generalizing before fuel with
  | nil =>
    have hnil : (utf8Bytes []).flatMap (encodeByteBy keep) = [] := rfl
    rw [hnil, List.append_nil]
    cases fuel <;> exact fromUtf8Lossy_utf8Bytes before
  | cons c text ih =>
    have hcons : (utf8Bytes (c :: text)).flatMap (encodeByteBy keep) =
        (String.utf8EncodeChar c).flatMap (encodeByteBy keep) ++
          (utf8Bytes text).flatMap (encodeByteBy keep) := by
      simp [utf8Bytes]
    rw [hcons] at hfuel ⊢
    rcases encodeByteBy_utf8EncodeChar hkeep c with ⟨hc, hlit⟩ | hres
    · rw [hlit] at hfuel ⊢
      cases fuel with
      | zero => exact absurd hfuel (by simp)
      | succ fuel =>
        have htail := ih [] fuel (by simpa using hfuel)
        rw [List.singleton_append, decodeFrom_literal fun h => absurd h hc,
          fromUtf8Lossy_utf8Bytes]
        exact congrArg (fun x => before ++ c :: x) htail
    · obtain ⟨fuel', hle, heq⟩ := decodeFrom_escapes hres fuel hfuel (utf8Bytes before)
      have hbytes : utf8Bytes before ++ String.utf8EncodeChar c = utf8Bytes (before ++ [c]) := by
        simp [utf8Bytes]
      rw [heq, hbytes, ih (before ++ [c]) fuel' hle, List.append_assoc]
      rfl

/-- Decoding undoes encoding. -/
theorem percentDecode_percentEncode (text : List Char) :
    percentDecode (percentEncode text) = text :=
  decodeFrom_encodeBy isUnreserved_keepsAscii text [] _ (Nat.le_refl _)

theorem percentDecode_encodeURIComponent (text : List Char) :
    percentDecode (encodeURIComponent text) = text :=
  decodeFrom_encodeBy isUriUnescaped_keepsAscii text [] _ (Nat.le_refl _)

/-- No separator stands in an encoded text. -/
lemma slash_not_mem_encodeURIComponent (text : List Char) : '/' ∉ encodeURIComponent text := by
  intro h
  obtain ⟨b, -, hb⟩ := List.mem_flatMap.mp h
  unfold encodeByteBy at hb
  split at hb
  · case isTrue hkeep =>
    have hascii : ∀ n, n < 128 → '/' = Char.ofNat n → n = 47 := by decide
    have hslash : isUriUnescaped 47 = false := by decide
    have hval := hascii _ (isUriUnescaped_keepsAscii b hkeep).1 (List.mem_singleton.mp hb)
    obtain rfl : b = 47 := UInt8.toNat_inj.mp hval
    rw [hslash] at hkeep
    cases hkeep
  · simp only [List.mem_cons, List.not_mem_nil, or_false] at hb
    have hdigit : ∀ n, n < 16 → hexDigit n ≠ '/' := by decide
    have hlt : b.toNat < 256 := b.toNat_lt
    rcases hb with hb | hb | hb
    · revert hb
      decide
    · exact hdigit _ (by omega) hb.symm
    · exact hdigit _ (by omega) hb.symm

/-! ## Decoding part by part -/

/-- Enough fuel is enough. -/
lemma decodeFrom_fuel {m n : Nat} {text : List Char} (hm : text.length ≤ m) (hn : text.length ≤ n)
    (pending : List UInt8) : decodeFrom m pending text = decodeFrom n pending text := by
  induction m generalizing n pending text with
  | zero =>
    have hnil : text = [] := List.length_eq_zero_iff.mp (Nat.le_zero.mp hm)
    subst hnil
    cases n <;> rfl
  | succ m ih =>
    cases text with
    | nil => cases n <;> rfl
    | cons c rest =>
      cases n with
      | zero => exact absurd hn (by simp)
      | succ n =>
        have hm' : rest.length ≤ m := by simpa using hm
        have hn' : rest.length ≤ n := by simpa using hn
        unfold decodeFrom
        split
        · have hdrop : (rest.drop 2).length ≤ rest.length := by simp
          exact ih (Nat.le_trans hdrop hm') (Nat.le_trans hdrop hn') _
        · rw [ih hm' hn' []]

/-- A separator that is no part of an escape divides the decoding. -/
lemma decodeFrom_append_sep {sep : Char} (hpc : sep ≠ '%') (hhex : hexValue sep = none)
    (text rest : List Char) (fuel : Nat) (hfuel : (text ++ sep :: rest).length ≤ fuel)
    (pending : List UInt8) :
    decodeFrom fuel pending (text ++ sep :: rest) =
      decodeFrom fuel pending text ++ sep :: percentDecode rest := by
  induction fuel generalizing text pending with
  | zero => exact absurd hfuel (by simp)
  | succ fuel ih =>
    cases text with
    | nil =>
      have hrest : rest.length ≤ fuel := by simpa using hfuel
      rw [List.nil_append, decodeFrom_literal fun h => absurd h hpc,
        decodeFrom_fuel hrest (Nat.le_refl _) []]
      rfl
    | cons c text =>
      have hlen : (text ++ sep :: rest).length ≤ fuel := by simpa using hfuel
      rw [List.cons_append]
      by_cases hc : c = '%' ∧ (escapedByte? (text ++ sep :: rest)).isSome
      · obtain ⟨rfl, hsome⟩ := hc
        obtain ⟨b, hb⟩ := Option.isSome_iff_exists.mp hsome
        -- the two digits stand before the separator, which is none
        match text, hb with
        | hi :: lo :: text, hb =>
          have hb' : escapedByte? (hi :: lo :: text) = some b := hb
          rw [decodeFrom_escape hb, decodeFrom_escape hb']
          exact ih text (by simp only [List.cons_append, List.length_cons] at hlen; omega) _
        | [hi], hb =>
          simp only [List.cons_append, List.nil_append, escapedByte?, hhex] at hb
          split at hb <;> simp_all
        | [], hb =>
          cases rest with
          | nil => cases hb
          | cons lo rest => simp [escapedByte?, hhex] at hb
      · have hlit : c = '%' → escapedByte? (text ++ sep :: rest) = none := by
          intro h
          by_contra hne
          exact hc ⟨h, Option.isSome_iff_ne_none.mpr hne⟩
        have hlit' : c = '%' → escapedByte? text = none := by
          intro h
          have hnone := hlit h
          match text, hnone with
          | [], _ => rfl
          | [_], _ => rfl
          | _ :: _ :: _, hnone => exact hnone
        rw [decodeFrom_literal hlit, decodeFrom_literal hlit', ih text hlen [], List.append_assoc]
        rfl

/-- Decoding texts joined by a separator that is no part of an escape decodes them one by one. -/
theorem percentDecode_intercalate {sep : Char} (hpc : sep ≠ '%') (hhex : hexValue sep = none)
    (texts : List (List Char)) :
    percentDecode ([sep].intercalate texts) = [sep].intercalate (texts.map percentDecode) := by
  induction texts with
  | nil => rfl
  | cons text texts ih =>
    cases texts with
    | nil => simp [List.intercalate]
    | cons text' texts =>
      have hjoin : ∀ (t u : List Char) (us : List (List Char)),
          [sep].intercalate (t :: u :: us) = t ++ sep :: [sep].intercalate (u :: us) := by
        intro t u us
        simp [List.intercalate, List.intersperse]
      rw [List.map_cons, List.map_cons, hjoin, hjoin, ← List.map_cons, ← ih]
      unfold percentDecode
      rw [decodeFrom_append_sep hpc hhex _ _ _ (Nat.le_refl _)]
      rw [decodeFrom_fuel (by simp) (Nat.le_refl text.length)]
      rfl

end Sarca.Lib
