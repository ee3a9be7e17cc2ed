import Mathlib.Data.List.DropRight

/-!
# Trimming and splitting texts

`trimBy` takes the characters that satisfy a predicate off both ends of a text, and `trim` the Unicode
white space. A trimmed text is a fixed point (`trimBy_trimBy`) and uses characters of the text only
(`mem_trimBy`). `rsplitOnce` divides a text at the last occurrence of a character
(`rsplitOnce_some`, `rsplitOnce_none`), `splitOnce` at the first one, `findAfter` behind the first
occurrence of a text. `decimal` writes an integer, and no two in the same way (`decimal_injective`).
-/

namespace Sarca.Lib

/-- The Unicode property `White_Space` (Rust `char::is_whitespace`). -/
def isWhitespace (c : Char) : Bool :=
  let n := c.toNat
  (9 ≤ n && n ≤ 13) || n == 0x20 || n == 0x85 || n == 0xA0 || n == 0x1680 ||
    (0x2000 ≤ n && n ≤ 0x200A) || n == 0x2028 || n == 0x2029 || n == 0x202F || n == 0x205F ||
    n == 0x3000

/-- The text without the characters of `p` at its ends (Rust `trim_matches`). -/
def trimBy (p : Char → Bool) (text : List Char) : List Char :=
  (text.dropWhile p).rdropWhile p

/-- The text without white space at its ends (Rust `str::trim`). -/
def trim (text : List Char) : List Char :=
  trimBy isWhitespace text

/-- The text around the last occurrence of a character (Rust `rsplit_once`). -/
def rsplitOnce (sep : Char) : List Char → Option (List Char × List Char)
  | [] => none
  | c :: rest =>
    match rsplitOnce sep rest with
    | some (before, after) => some (c :: before, after)
    | none => if c = sep then some ([], rest) else none

/-- The text around the first occurrence of a character (Rust `split_once`). -/
def splitOnce (sep : Char) (text : List Char) : Option (List Char × List Char) :=
  match text.dropWhile (· ≠ sep) with
  | [] => none
  | _ :: after => some (text.takeWhile (· ≠ sep), after)

/-- What stands behind the first occurrence of a text (Rust `str::find`). -/
def findAfter (pattern : List Char) : List Char → Option (List Char)
  | [] => if pattern = [] then some [] else none
  | c :: rest =>
    if pattern.isPrefixOf (c :: rest) then some ((c :: rest).drop pattern.length)
    else findAfter pattern rest

/-- Two texts differ in the case of `ASCII` letters at most (Rust `eq_ignore_ascii_case`). -/
def eqIgnoreAsciiCase (text text' : List Char) : Prop :=
  text.map Char.toLower = text'.map Char.toLower

instance eqIgnoreAsciiCase.decidable (text text' : List Char) : Decidable (eqIgnoreAsciiCase text text') :=
  inferInstanceAs (Decidable (_ = _))

/-- An integer in decimal (Rust `to_string`). -/
def decimal : Int → List Char
  | .ofNat n => Nat.toDigits 10 n
  | .negSucc n => '-' :: Nat.toDigits 10 (n + 1)

/-- A `u64` in decimal, with or without a plus sign (Rust `str::parse`). -/
def parseU64 (text : List Char) : Option Nat :=
  let digits := (text.dropPrefix? ['+']).getD text
  let n := digits.foldl (fun n c => 10 * n + (c.toNat - '0'.toNat)) 0
  if digits ≠ [] ∧ digits.all Char.isDigit ∧ n < 18446744073709551616 then some n else none

variable {p : Char → Bool} {text : List Char}

@[simp] lemma trimBy_nil : trimBy p [] = [] := rfl

/-- A trimmed text uses the characters of the text. -/
lemma mem_trimBy {c : Char} (h : c ∈ trimBy p text) : c ∈ text :=
  (List.dropWhile_sublist p).mem ((List.rdropWhile_prefix p _).mem h)

/-- Trimming leaves a text alone whose ends do not satisfy the predicate. -/
lemma trimBy_eq_self (hhead : ∀ c ∈ text.head?, p c = false)
    (hlast : ∀ c ∈ text.getLast?, p c = false) : trimBy p text = text := by
  have hleft : text.dropWhile p = text := by
    cases text with
    | nil => rfl
    | cons c text => simp [hhead c rfl]
  rw [trimBy, hleft]
  apply List.rdropWhile_eq_self_iff.mpr
  intro hne
  rw [hlast _ (List.getLast?_eq_some_getLast hne)]
  exact Bool.false_ne_true

/-- The ends of a trimmed text do not satisfy the predicate. -/
lemma head_trimBy : ∀ c ∈ (trimBy p text).head?, p c = false := by
  intro c hc
  have hpre : trimBy p text <+: text.dropWhile p := List.rdropWhile_prefix p _
  cases htrim : trimBy p text with
  | nil =>
    rw [htrim] at hc
    cases hc
  | cons d rest =>
    rw [htrim] at hc hpre
    cases hc
    obtain ⟨suffix, hsuffix⟩ := hpre
    have hd := List.head?_dropWhile_not p text
    rw [← hsuffix] at hd
    simpa using hd

lemma getLast_trimBy : ∀ c ∈ (trimBy p text).getLast?, p c = false := by
  intro c hc
  have hne : trimBy p text ≠ [] := by
    intro h
    rw [h] at hc
    cases hc
  have hlast := List.rdropWhile_last_not p (text.dropWhile p) hne
  rw [List.getLast?_eq_some_getLast hne] at hc
  cases hc
  exact Bool.eq_false_iff.mpr hlast

/-- Trimming twice is trimming once. -/
lemma trimBy_trimBy : trimBy p (trimBy p text) = trimBy p text :=
  trimBy_eq_self head_trimBy getLast_trimBy

/-- A text that the character does not divide. -/
lemma rsplitOnce_none {sep : Char} (h : rsplitOnce sep text = none) : sep ∉ text := by
  intro hmem
  induction text with
  | nil => exact absurd hmem List.not_mem_nil
  | cons c rest ih =>
    unfold rsplitOnce at h
    cases hrest : rsplitOnce sep rest with
    | some found => simp [hrest] at h
    | none =>
      simp only [hrest] at h
      split at h
      · cases h
      · case isFalse hc =>
        cases List.mem_cons.mp hmem with
        | inl hm => exact hc hm.symm
        | inr hm => exact ih hrest hm

/-- What the last occurrence divides. -/
lemma rsplitOnce_some {sep : Char} {before after : List Char}
    (h : rsplitOnce sep text = some (before, after)) :
    text = before ++ sep :: after ∧ sep ∉ after := by
  induction text generalizing before with
  | nil => cases h
  | cons c rest ih =>
    unfold rsplitOnce at h
    cases hrest : rsplitOnce sep rest with
    | some found =>
      obtain ⟨before', after'⟩ := found
      simp only [hrest, Option.some.injEq, Prod.mk.injEq] at h
      obtain ⟨rfl, rfl⟩ := h
      obtain ⟨heq, hno⟩ := ih hrest
      exact ⟨congrArg (c :: ·) heq, hno⟩
    | none =>
      simp only [hrest] at h
      split at h
      · case isTrue hc =>
        cases h
        exact ⟨congrArg (· :: after) hc, rsplitOnce_none hrest⟩
      · cases h

/-- A text without the character is not divided. -/
lemma rsplitOnce_eq_none {sep : Char} (h : sep ∉ text) : rsplitOnce sep text = none := by
  cases hsplit : rsplitOnce sep text with
  | none => rfl
  | some found =>
    have htext := (rsplitOnce_some (hsplit.trans rfl : rsplitOnce sep text = some (found.1, found.2))).1
    exact absurd (htext ▸ List.mem_append_right _ List.mem_cons_self) h

/-- A text is divided where it was put together. -/
lemma rsplitOnce_append {sep : Char} {before after : List Char} (h : sep ∉ after) :
    rsplitOnce sep (before ++ sep :: after) = some (before, after) := by
  induction before with
  | nil => simp only [List.nil_append, rsplitOnce, rsplitOnce_eq_none h, if_true]
  | cons c before ih => simp only [List.cons_append, rsplitOnce, ih]

/-! ## Decimals -/

lemma toDigits_injective : Function.Injective (Nat.toDigits 10) := by
  intro m
  induction m using Nat.strong_induction_on with
  | _ m ih =>
    intro n h
    have hlast : ∀ k, (Nat.toDigits 10 k).getLast? = some (Nat.digitChar (k % 10)) := by
      intro k
      obtain hk | hk := Nat.lt_or_ge k 10
      · rw [Nat.toDigits_of_lt_base hk, Nat.mod_eq_of_lt hk]
        rfl
      · rw [Nat.toDigits_of_base_le (by decide) hk, List.getLast?_append]
        rfl
    have hdigit : m % 10 = n % 10 := by
      have heq : Nat.digitChar (m % 10) = Nat.digitChar (n % 10) :=
        Option.some.inj ((hlast m).symm.trans ((congrArg List.getLast? h).trans (hlast n)))
      have hm := Nat.toNat_digitChar_of_lt_ten (Nat.mod_lt m (by decide : 10 > 0))
      have hn := Nat.toNat_digitChar_of_lt_ten (Nat.mod_lt n (by decide : 10 > 0))
      rw [heq] at hm
      omega
    have hlen : ∀ k, 10 ≤ k → 1 < (Nat.toDigits 10 k).length := by
      intro k hk
      rw [Nat.toDigits_of_base_le (by decide) hk, List.length_append]
      exact Nat.lt_add_of_pos_left Nat.length_toDigits_pos
    obtain hm | hm := Nat.lt_or_ge m 10
    · obtain hn | hn := Nat.lt_or_ge n 10
      · omega
      · have hone := congrArg List.length (Nat.toDigits_of_lt_base hm)
        have hmore := hlen n hn
        rw [← h, hone] at hmore
        exact absurd hmore (Nat.lt_irrefl 1)
    · obtain hn | hn := Nat.lt_or_ge n 10
      · have hone := congrArg List.length (Nat.toDigits_of_lt_base hn)
        have hmore := hlen m hm
        rw [h, hone] at hmore
        exact absurd hmore (Nat.lt_irrefl 1)
      · rw [Nat.toDigits_of_base_le (by decide) hm, Nat.toDigits_of_base_le (by decide) hn] at h
        have hfront := (List.append_inj' h rfl).1
        have htenth := ih (m / 10) (by omega) hfront
        omega

lemma decimal_injective : Function.Injective decimal := by
  have hminus : ∀ n, '-' ∉ Nat.toDigits 10 n := fun n hmem =>
    absurd (Nat.isDigit_of_mem_toDigits (by decide) (by decide) hmem) (by decide)
  intro a b h
  cases a with
  | ofNat m =>
    cases b with
    | ofNat n => exact congrArg Int.ofNat (toDigits_injective h)
    | negSucc n => exact absurd (List.mem_of_mem_head? (congrArg List.head? h)) (hminus m)
  | negSucc m =>
    cases b with
    | ofNat n => exact absurd (List.mem_of_mem_head? (congrArg List.head? h.symm)) (hminus n)
    | negSucc n => exact congrArg Int.negSucc (Nat.succ.inj (toDigits_injective (List.cons.inj h).2))

/-- The characters of a decimal. -/
lemma mem_decimal {n : Int} {c : Char} (h : c ∈ decimal n) : c.isDigit = true ∨ c = '-' := by
  cases n with
  | ofNat n => exact .inl (Nat.isDigit_of_mem_toDigits (by decide) (by decide) h)
  | negSucc n =>
    obtain rfl | h := List.mem_cons.mp h
    · exact .inr rfl
    · exact .inl (Nat.isDigit_of_mem_toDigits (by decide) (by decide) h)

end Sarca.Lib
