import Mathlib.Data.List.Lex
import Mathlib.Data.Char

/-!
# Texts as bytes

A text is stored as the UTF-8 bytes of its characters and compared by these. The order is that of the code
points (`utf8_lt_utf8`): the first byte of a longer character is the larger one, and characters of one length
compare as their bytes do, for each holds the next six bits. `sliceBytes` cuts a text between two offsets in
bytes, where these are in bounds and between two characters (`sliceBytes_append`).
-/

namespace Sarca.Lib

/-- The UTF-8 bytes of a text. -/
def utf8 (text : List Char) : List UInt8 :=
  text.flatMap String.utf8EncodeChar

@[simp] lemma utf8_nil : utf8 [] = [] := rfl

@[simp] lemma utf8_cons (c : Char) (text : List Char) :
    utf8 (c :: text) = String.utf8EncodeChar c ++ utf8 text :=
  List.flatMap_cons

@[simp] lemma utf8_append (s t : List Char) : utf8 (s ++ t) = utf8 s ++ utf8 t :=
  List.flatMap_append

/-- A code point is at most U+10FFFF. -/
lemma toNat_le_max (c : Char) : c.val.toNat ≤ 1114111 := by
  obtain hsmall | ⟨-, hlarge⟩ := c.valid
  · exact Nat.le_of_lt (Nat.lt_trans hsmall (by decide))
  · exact Nat.le_of_lt_succ hlarge

/-- Two bytes that are written as numbers below 256 compare as these do. -/
lemma ofNat_lt_ofNat {a b : Nat} (ha : a < 256) (hb : b < 256) : UInt8.ofNat a < UInt8.ofNat b ↔ a < b := by
  rw [UInt8.lt_iff_toNat_lt, UInt8.toNat_ofNat', UInt8.toNat_ofNat', Nat.mod_eq_of_lt ha, Nat.mod_eq_of_lt hb]

lemma ofNat_inj {a b : Nat} (ha : a < 256) (hb : b < 256) : UInt8.ofNat a = UInt8.ofNat b ↔ a = b := by
  rw [← UInt8.toNat_inj, UInt8.toNat_ofNat', UInt8.toNat_ofNat', Nat.mod_eq_of_lt ha, Nat.mod_eq_of_lt hb]

/-- Numbers compare by their digits to the base 64, the last one last. -/
lemma digit_lt {m n : Nat} (h : m < n) : m / 64 < n / 64 ∨ m / 64 = n / 64 ∧ m % 64 < n % 64 := by
  omega

/-- A smaller character has the smaller bytes, whatever comes behind the two. -/
lemma utf8EncodeChar_lt {c d : Char} (h : c < d) (s t : List UInt8) :
    String.utf8EncodeChar c ++ s < String.utf8EncodeChar d ++ t := by
  have hlt : c.val.toNat < d.val.toNat := h
  have hc := toNat_le_max c
  have hd := toNat_le_max d
  unfold String.utf8EncodeChar
  generalize c.val.toNat = m at hlt hc
  generalize d.val.toNat = n at hlt hd
  have hlast := digit_lt hlt
  have hthird : m / 64 < n / 64 → _ := digit_lt
  have hsecond : m / 64 / 64 < n / 64 / 64 → _ := digit_lt
  simp only [Nat.div_div_eq_div_mul, Nat.reduceMul] at hlast hthird hsecond
  have hfirst (k : Nat) (hk : k ≤ 1114111) : k / 262144 % 8 = k / 262144 := Nat.mod_eq_of_lt (by omega)
  simp only [hfirst m hc, hfirst n hd]
  split_ifs <;>
    simp (disch := omega) only [List.cons_append, List.nil_append, List.cons_lt_cons_iff, ofNat_lt_ofNat,
      ofNat_inj] <;>
    omega

/-- What two texts start with in common does not count. -/
lemma append_lt_append_left {s t : List UInt8} (bytes : List UInt8) : bytes ++ s < bytes ++ t ↔ s < t := by
  induction bytes with
  | nil => rfl
  | cons b bytes ih => simp [ih]

/-- Texts compare by their bytes as they do by their code points. -/
theorem utf8_lt_utf8 {s t : List Char} : utf8 s < utf8 t ↔ s < t := by
  induction s generalizing t with
  | nil =>
    cases t with
    | nil => simp
    | cons d t =>
      have hne : String.utf8EncodeChar d ≠ [] := String.utf8EncodeChar_ne_nil
      cases hbytes : String.utf8EncodeChar d with
      | nil => exact absurd hbytes hne
      | cons b bytes => simp [hbytes]
  | cons c s ih =>
    cases t with
    | nil => simp
    | cons d t =>
      rw [utf8_cons, utf8_cons, List.cons_lt_cons_iff]
      obtain hlt | rfl | hgt := lt_trichotomy c d
      · exact iff_of_true (utf8EncodeChar_lt hlt _ _) (.inl hlt)
      · rw [append_lt_append_left, ih]
        simp
      · refine iff_of_false ?_ ?_
        · exact List.lt_asymm (utf8EncodeChar_lt hgt _ _)
        · rintro (hlt | ⟨rfl, _⟩)
          · exact lt_asymm hgt hlt
          · exact lt_irrefl _ hgt

/-! ## Cutting between bytes -/

@[simp] lemma length_utf8_cons (c : Char) (text : List Char) :
    (utf8 (c :: text)).length = c.utf8Size + (utf8 text).length := by
  rw [utf8_cons, List.length_append, String.length_utf8EncodeChar]

/-- The text behind its first bytes (Rust `&text[n..]`). -/
def dropBytes : Nat → List Char → Option (List Char)
  | 0, text => some text
  | _ + 1, [] => none
  | n + 1, c :: text => if c.utf8Size ≤ n + 1 then dropBytes (n + 1 - c.utf8Size) text else none

/-- The first bytes of a text (Rust `&text[..n]`). -/
def takeBytes : Nat → List Char → Option (List Char)
  | 0, _ => some []
  | _ + 1, [] => none
  | n + 1, c :: text =>
    if c.utf8Size ≤ n + 1 then (takeBytes (n + 1 - c.utf8Size) text).map (c :: ·) else none

/-- A text between two offsets, where these are in order, in bounds and no character is cut
    (Rust `&text[start..stop]`). -/
def sliceBytes (text : List Char) (start stop : Nat) : Option (List Char) :=
  if start ≤ stop then (dropBytes start text).bind (takeBytes (stop - start)) else none

lemma dropBytes_append (s t : List Char) : dropBytes (utf8 s).length (s ++ t) = some t := by
  induction s with
  | nil => simp [dropBytes]
  | cons c s ih =>
    have hpos := c.utf8Size_pos
    obtain ⟨n, hn⟩ : ∃ n, c.utf8Size + (utf8 s).length = n + 1 := Nat.exists_eq_succ_of_ne_zero (by omega)
    rw [length_utf8_cons, hn, List.cons_append, dropBytes, if_pos (by omega)]
    rwa [show n + 1 - c.utf8Size = (utf8 s).length from by omega]

lemma takeBytes_append (s t : List Char) : takeBytes (utf8 s).length (s ++ t) = some s := by
  induction s with
  | nil => simp [takeBytes]
  | cons c s ih =>
    have hpos := c.utf8Size_pos
    obtain ⟨n, hn⟩ : ∃ n, c.utf8Size + (utf8 s).length = n + 1 := Nat.exists_eq_succ_of_ne_zero (by omega)
    rw [length_utf8_cons, hn, List.cons_append, takeBytes, if_pos (by omega)]
    rw [show n + 1 - c.utf8Size = (utf8 s).length from by omega, ih]
    rfl

/-- Between two of its parts a text can be cut. -/
theorem sliceBytes_append (s m t : List Char) :
    sliceBytes (s ++ m ++ t) (utf8 s).length ((utf8 s).length + (utf8 m).length) = some m := by
  rw [sliceBytes, if_pos (Nat.le_add_right _ _), List.append_assoc, dropBytes_append, Nat.add_sub_cancel_left]
  exact takeBytes_append m t

end Sarca.Lib
