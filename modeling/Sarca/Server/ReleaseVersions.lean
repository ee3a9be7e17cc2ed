import Sarca.Lib.Padded
import Sarca.Lib.Text

/-!
# The order of release versions

`isNewer` of `services/update.rs` decides whether a release is offered. It takes a tag apart at every `.`,
`-` and `+`, reads the numbers in front, and compares them padded with zeros. A `Release` is a version of
dotted numbers, of any length, and a `Tag` what a pre-release or a build writes behind one.

`isNewer_iff` gives the comparison the order of `Lib/Padded`. Two things get lost on the way to it: a number
from 2^64 on is passed over, and the numbers of a tag count as further numbers of the version.
`isNewer_sorts_iff` says for which versions and tags neither of them shows.
-/

namespace Sarca.Server
open Sarca.Lib

/-! ## The comparison -/

/-- A character at which a version is taken apart. -/
def isVersionSeparator (c : Char) : Bool :=
  c = '.' || c = '-' || c = '+'

def isNumeral (piece : List Char) : Bool :=
  piece.all Char.isDigit && !piece.isEmpty

/-- The pieces of a text up to the first that is no number. -/
def leadingNumerals (text : List Char) : List (List Char) :=
  (text.splitOnP isVersionSeparator).takeWhile isNumeral

/-- `trim_start_matches(['v', 'V'])` -/
def dropV (text : List Char) : List Char :=
  text.dropWhile fun c => c = 'v' || c = 'V'

/-- The numbers of a version, as far as a `u64` holds them. -/
def parts (raw : List Char) : List Nat :=
  (leadingNumerals (dropV (trim raw))).filterMap parseU64

def isNewer (latest current : List Char) : Bool :=
  let a := parts latest
  let b := parts current
  if a = [] then false else exceeds a b (List.range (max a.length b.length))

/-! ## Versions and tags -/

structure Number where
  digits : List Char
  numeral : isNumeral digits = true

def digitsValue (digits : List Char) : Nat :=
  digits.foldl (fun n c => 10 * n + (c.toNat - '0'.toNat)) 0

structure Release where
  numbers : List Number
  nonempty : numbers ≠ []

/-- What stands behind a version that is a pre-release or a build of it. -/
structure Tag where
  separator : Char
  text : List Char
  isTag : separator = '-' ∨ separator = '+'

/-- `1.2.3` -/
def Release.text (r : Release) : List Char :=
  ['.'].intercalate (r.numbers.map (·.digits))

def Release.values (r : Release) : List Nat :=
  r.numbers.map fun n => digitsValue n.digits

/-- `1.2.3-rc.1` -/
def Release.tagged (r : Release) (tag : Tag) : List Char :=
  r.text ++ tag.separator :: tag.text

/-- The second text is the first one with a `v` in front and blanks around it, or without. -/
def Decorates (text text' : List Char) : Prop :=
  trim text = text ∧ ∃ before v after, (∀ c ∈ before, isWhitespace c = true) ∧
    (∀ c ∈ v, (c = 'v' || c = 'V') = true) ∧ (∀ c ∈ after, isWhitespace c = true) ∧
    text' = before ++ (v ++ text) ++ after

/-- Every number of the version fits into a `u64`. -/
def Release.Fits (r : Release) : Prop :=
  ∀ n ∈ r.numbers, digitsValue n.digits < 18446744073709551616

/-- The version is above the other one as a sequence of numbers. -/
def Release.Above (r r' : Release) : Prop :=
  toLex (padded r'.values) < toLex (padded r.values)

/-- Each number at the front of the tag is zero or does not fit into a `u64`. -/
def Tag.Quiet (tag : Tag) : Prop :=
  ∀ piece ∈ leadingNumerals (tag.text.rdropWhile isWhitespace),
    digitsValue piece = 0 ∨ 18446744073709551616 ≤ digitsValue piece

/-- What the order of versions is to be, of a version and a tag. -/
structure Sorts (r : Release) (tag : Tag) : Prop where
  irrefl : ∀ text, isNewer text text = false
  asymm : ∀ text text', isNewer text text' = true → isNewer text' text = false
  trans : ∀ text text' text'', isNewer text text' = true → isNewer text' text'' = true →
    isNewer text text'' = true
  decorated : ∀ text text' other, Decorates text text' →
    isNewer text' other = isNewer text other ∧ isNewer other text' = isNewer other text
  /-- against a version whose numbers fit -/
  numeric : ∀ r' : Release, r'.Fits →
    (isNewer r.text r'.text = true ↔ r.Above r') ∧ (isNewer r'.text r.text = true ↔ r'.Above r)
  tagged : isNewer (r.tagged tag) r.text = false

/-! ## The order -/

/-- The comparison is the one of the padded numbers. -/
theorem isNewer_iff {latest current : List Char} :
    isNewer latest current = true ↔ toLex (padded (parts current)) < toLex (padded (parts latest)) := by
  unfold isNewer
  dsimp only
  split
  · case isTrue hnone =>
    rw [hnone]
    constructor
    · exact fun h => absurd h Bool.false_ne_true
    · rintro ⟨i, -, hlt⟩
      exact absurd hlt (Nat.not_lt_zero _)
  · exact exceeds_iff

lemma isNewer_congr {text text' : List Char} (h : parts text' = parts text) (other : List Char) :
    isNewer text' other = isNewer text other ∧ isNewer other text' = isNewer other text := by
  unfold isNewer
  rw [h]
  exact ⟨rfl, rfl⟩

lemma isNewer_eq_false {latest current : List Char} :
    isNewer latest current = false ↔
      ¬toLex (padded (parts current)) < toLex (padded (parts latest)) := by
  rw [← isNewer_iff, Bool.not_eq_true]

/-! ## Reading -/

lemma isWhitespace_v {c : Char} (h : (c = 'v' || c = 'V') = true) : isWhitespace c = false := by
  rcases Bool.or_eq_true_iff.mp h with h | h
  all_goals
    rw [of_decide_eq_true h]
    decide

lemma rdropWhile_append {p : Char → Bool} {text after : List Char} (h : ∀ c ∈ after, p c = true) :
    (text ++ after).rdropWhile p = text.rdropWhile p := by
  unfold List.rdropWhile
  rw [List.reverse_append, List.dropWhile_append_of_pos fun c hc => h c (List.mem_reverse.mp hc)]

lemma trim_around {before text after : List Char} (hbefore : ∀ c ∈ before, isWhitespace c = true)
    (hafter : ∀ c ∈ after, isWhitespace c = true) (htext : trim text = text) :
    trim (before ++ text ++ after) = text := by
  have hhead : ∀ c ∈ text.head?, isWhitespace c = false := htext ▸ head_trimBy
  have hlast : ∀ c ∈ text.getLast?, isWhitespace c = false := htext ▸ getLast_trimBy
  have hself : text.rdropWhile isWhitespace = text := by
    rw [List.rdropWhile_eq_self_iff]
    intro hne
    rw [hlast _ (List.getLast?_eq_some_getLast hne)]
    exact Bool.false_ne_true
  unfold trim trimBy
  rw [List.append_assoc, List.dropWhile_append_of_pos hbefore]
  cases text with
  | nil =>
    rw [List.nil_append, List.dropWhile_eq_nil_iff.mpr hafter]
    rfl
  | cons c text =>
    have hc : ¬isWhitespace c = true := by
      rw [hhead c rfl]
      exact Bool.false_ne_true
    rw [List.cons_append, List.dropWhile_cons_of_neg hc, ← List.cons_append, rdropWhile_append hafter, hself]

lemma trim_v {v text : List Char} (hv : ∀ c ∈ v, (c = 'v' || c = 'V') = true) (htext : trim text = text) :
    trim (v ++ text) = v ++ text := by
  have hhead : ∀ c ∈ text.head?, isWhitespace c = false := htext ▸ head_trimBy
  have hlast : ∀ c ∈ text.getLast?, isWhitespace c = false := htext ▸ getLast_trimBy
  apply trimBy_eq_self
  · intro c hc
    cases v with
    | nil => exact hhead c hc
    | cons d v =>
      obtain rfl : d = c := Option.some.inj hc
      exact isWhitespace_v (hv d List.mem_cons_self)
  · intro c hc
    rw [List.getLast?_append] at hc
    cases hl : text.getLast? with
    | none =>
      rw [hl, Option.none_or] at hc
      exact isWhitespace_v (hv c (List.mem_of_mem_getLast? hc))
    | some d =>
      rw [hl, Option.some_or] at hc
      obtain rfl : d = c := Option.some.inj hc
      exact hlast d hl

lemma parts_of_decorates {text text' : List Char} (h : Decorates text text') : parts text' = parts text := by
  obtain ⟨htext, before, v, after, hbefore, hv, hafter, rfl⟩ := h
  unfold parts
  rw [trim_around hbefore hafter (trim_v hv htext), htext]
  unfold dropV
  rw [List.dropWhile_append_of_pos hv]

lemma of_isDigit {c : Char} (h : c.isDigit = true) :
    isVersionSeparator c = false ∧ isWhitespace c = false ∧ (c = 'v' || c = 'V') = false ∧ c ≠ '+' := by
  unfold Char.isDigit at h
  rw [Bool.and_eq_true, decide_eq_true_iff, decide_eq_true_iff] at h
  have hlow : 48 ≤ c.toNat := h.1
  have hhigh : c.toNat ≤ 57 := h.2
  have hne : ∀ d : Char, d.toNat < 48 ∨ 57 < d.toNat → c ≠ d := by
    rintro d hd rfl
    omega
  refine ⟨?_, ?_, ?_, hne _ (by decide)⟩
  · unfold isVersionSeparator
    simp only [Bool.or_eq_false_iff, decide_eq_false_iff_not]
    exact ⟨⟨hne _ (by decide), hne _ (by decide)⟩, hne _ (by decide)⟩
  · unfold isWhitespace
    simp only [Bool.or_eq_false_iff, Bool.and_eq_false_iff, decide_eq_false_iff_not, beq_eq_false_iff_ne]
    omega
  · simp only [Bool.or_eq_false_iff, decide_eq_false_iff_not]
    exact ⟨hne _ (by decide), hne _ (by decide)⟩

lemma isNumeral_iff {piece : List Char} :
    isNumeral piece = true ↔ (∀ c ∈ piece, c.isDigit = true) ∧ piece ≠ [] := by
  unfold isNumeral
  rw [Bool.and_eq_true, List.all_eq_true, Bool.not_eq_true', List.isEmpty_eq_false_iff]

lemma parseU64_numeral {piece : List Char} (h : isNumeral piece = true) :
    parseU64 piece = if digitsValue piece < 18446744073709551616 then some (digitsValue piece) else none := by
  obtain ⟨hdigits, hne⟩ := isNumeral_iff.mp h
  have hplain : (piece.dropPrefix? ['+']).getD piece = piece := by
    cases piece with
    | nil => rfl
    | cons c piece =>
      have hc := (of_isDigit (hdigits c List.mem_cons_self)).2.2.2
      simp [List.dropPrefix?, hc]
  unfold parseU64
  dsimp only
  rw [hplain]
  have hall : piece.all Char.isDigit = true := List.all_eq_true.mpr hdigits
  split
  · case isTrue hfits => exact (if_pos hfits.2.2).symm
  · case isFalse hnot =>
    refine (if_neg fun hlt => hnot ⟨hne, hall, ?_⟩).symm
    exact hlt

lemma rdropWhile_append_cons {p : Char → Bool} {text rest : List Char} {c : Char} (hc : p c = false) :
    (text ++ c :: rest).rdropWhile p = text ++ c :: rest.rdropWhile p := by
  have hstop : ¬p c = true := by
    rw [hc]
    exact Bool.false_ne_true
  induction rest using List.reverseRecOn with
  | nil => rw [List.rdropWhile_concat_neg p _ c hstop, List.rdropWhile_nil]
  | append_singleton rest d ih =>
    rw [← List.cons_append, ← List.append_assoc]
    by_cases hd : p d = true
    · rw [List.rdropWhile_concat_pos p _ d hd, List.rdropWhile_concat_pos p _ d hd, ih]
    · rw [List.rdropWhile_concat_neg p _ d hd, List.rdropWhile_concat_neg p _ d hd, List.append_assoc,
        List.cons_append]

lemma leadingNumerals_append {text rest : List Char} {c : Char} (hc : isVersionSeparator c = true)
    (hall : leadingNumerals text = text.splitOnP isVersionSeparator) :
    leadingNumerals (text ++ c :: rest) = leadingNumerals text ++ leadingNumerals rest := by
  unfold leadingNumerals at hall ⊢
  rw [List.splitOnP_append_cons _ _ hc, List.takeWhile_append_of_pos, hall]
  exact List.takeWhile_eq_self_iff.mp hall

namespace Release

variable {r : Release}

lemma splitOnP_dotted {numbers : List Number} (hne : numbers ≠ []) :
    (['.'].intercalate (numbers.map (·.digits))).splitOnP isVersionSeparator = numbers.map (·.digits) := by
  have hplain : ∀ n : Number, ∀ c ∈ n.digits, isVersionSeparator c = false :=
    fun n c hc => (of_isDigit ((isNumeral_iff.mp n.numeral).1 c hc)).1
  induction numbers with
  | nil => exact absurd rfl hne
  | cons n numbers ih =>
    cases numbers with
    | nil =>
      rw [List.map_singleton, List.intercalate_singleton]
      exact List.splitOnP_eq_singleton (hplain n)
    | cons m numbers =>
      rw [List.map_cons, List.map_cons, List.intercalate_cons_cons, List.append_assoc, List.singleton_append,
        List.splitOnP_append_cons_of_forall_mem (hplain n) '.' rfl, ← List.map_cons, ih (List.cons_ne_nil _ _)]

lemma leadingNumerals_text : leadingNumerals r.text = r.numbers.map (·.digits) := by
  unfold leadingNumerals text
  rw [splitOnP_dotted r.nonempty, List.takeWhile_eq_self_iff]
  intro piece hpiece
  obtain ⟨n, -, rfl⟩ := List.mem_map.mp hpiece
  exact n.numeral

lemma mem_dotted {numbers : List Number} {c : Char} (hc : c ∈ ['.'].intercalate (numbers.map (·.digits))) :
    isWhitespace c = false ∧ (c = 'v' || c = 'V') = false := by
  have hdigit : ∀ n : Number, c ∈ n.digits → isWhitespace c = false ∧ (c = 'v' || c = 'V') = false := by
    intro n hn
    obtain ⟨-, hblank, hv, -⟩ := of_isDigit ((isNumeral_iff.mp n.numeral).1 c hn)
    exact ⟨hblank, hv⟩
  induction numbers with
  | nil => exact absurd hc List.not_mem_nil
  | cons n numbers ih =>
    cases numbers with
    | nil =>
      rw [List.map_singleton, List.intercalate_singleton] at hc
      exact hdigit n hc
    | cons m numbers =>
      rw [List.map_cons, List.map_cons, List.intercalate_cons_cons, List.append_assoc] at hc
      rcases List.mem_append.mp hc with hc | hc
      · exact hdigit n hc
      · rcases List.mem_cons.mp hc with rfl | hc
        · decide
        · exact ih hc

lemma text_ne_nil : r.text ≠ [] := by
  intro hnil
  have hsplit := splitOnP_dotted r.nonempty
  rw [show ['.'].intercalate (r.numbers.map (·.digits)) = [] from hnil, List.splitOnP_nil] at hsplit
  have hmem : [] ∈ r.numbers.map (·.digits) := hsplit ▸ List.mem_singleton_self []
  obtain ⟨n, -, hn⟩ := List.mem_map.mp hmem
  exact (isNumeral_iff.mp n.numeral).2 hn

lemma dropV_trim_append {rest : List Char}
    (hrest : (r.text ++ rest).rdropWhile isWhitespace = r.text ++ rest.rdropWhile isWhitespace) :
    dropV (trim (r.text ++ rest)) = r.text ++ rest.rdropWhile isWhitespace := by
  obtain ⟨c, text, htext⟩ := List.exists_cons_of_ne_nil (text_ne_nil (r := r))
  obtain ⟨hblank, hv⟩ : isWhitespace c = false ∧ (c = 'v' || c = 'V') = false := by
    refine @mem_dotted r.numbers c ?_
    rw [show ['.'].intercalate (r.numbers.map (·.digits)) = c :: text from htext]
    exact List.mem_cons_self
  have htrim : trim (r.text ++ rest) = r.text ++ rest.rdropWhile isWhitespace := by
    unfold trim trimBy
    rw [← hrest]
    congr 1
    rw [htext, List.cons_append, List.dropWhile_cons_of_neg]
    rw [hblank]
    exact Bool.false_ne_true
  rw [htrim]
  unfold dropV
  rw [htext, List.cons_append, List.dropWhile_cons_of_neg]
  rw [hv]
  exact Bool.false_ne_true

lemma parts_text : parts r.text = (r.numbers.map (·.digits)).filterMap parseU64 := by
  have hself : r.text.rdropWhile isWhitespace = r.text := by
    rw [List.rdropWhile_eq_self_iff]
    intro hne
    rw [(mem_dotted (List.getLast_mem hne)).1]
    exact Bool.false_ne_true
  have hread : dropV (trim r.text) = r.text := by
    have h := @dropV_trim_append r []
    rw [List.append_nil, List.rdropWhile_nil, List.append_nil] at h
    exact h hself
  unfold parts
  rw [hread, leadingNumerals_text]

lemma parts_tagged {tag : Tag} : parts (r.tagged tag) =
    parts r.text ++ (leadingNumerals (tag.text.rdropWhile isWhitespace)).filterMap parseU64 := by
  obtain ⟨hseparator, hblank⟩ : isVersionSeparator tag.separator = true ∧ isWhitespace tag.separator = false := by
    rcases tag.isTag with h | h
    all_goals
      rw [h]
      decide
  have hend : (tag.separator :: tag.text).rdropWhile isWhitespace =
      tag.separator :: tag.text.rdropWhile isWhitespace :=
    @rdropWhile_append_cons isWhitespace [] _ _ hblank
  have hread : dropV (trim (r.tagged tag)) =
      r.text ++ tag.separator :: tag.text.rdropWhile isWhitespace := by
    rw [← hend]
    apply dropV_trim_append
    rw [hend, rdropWhile_append_cons hblank]
  have hall : leadingNumerals r.text = r.text.splitOnP isVersionSeparator := by
    rw [leadingNumerals_text]
    exact (splitOnP_dotted r.nonempty).symm
  rw [parts, hread, leadingNumerals_append hseparator hall, List.filterMap_append, parts_text,
    leadingNumerals_text]

lemma parts_of_fits (h : r.Fits) : parts r.text = r.values := by
  rw [parts_text, values, List.filterMap_map]
  have hread : ∀ n ∈ r.numbers, (parseU64 ∘ fun n : Number => n.digits) n = some (digitsValue n.digits) := by
    intro n hn
    rw [Function.comp_apply, parseU64_numeral n.numeral, if_pos (h n hn)]
  rw [List.filterMap_congr hread]
  exact congrFun List.filterMap_eq_map' r.numbers

end Release

/-! ## Which versions are sorted -/

/-- The number fits into a `u64`. -/
def Number.fits (n : Number) : Bool :=
  digitsValue n.digits < 18446744073709551616

lemma filterMap_numbers (numbers : List Number) : (numbers.map (·.digits)).filterMap parseU64 =
    (numbers.filter Number.fits).map fun n => digitsValue n.digits := by
  induction numbers with
  | nil => rfl
  | cons n numbers ih =>
    rw [List.map_cons, List.filterMap_cons, parseU64_numeral n.numeral, List.filter_cons]
    unfold Number.fits at ih ⊢
    simp only [decide_eq_true_eq]
    split
    · case h_1 hnone =>
      have hbig : ¬digitsValue n.digits < 18446744073709551616 := by
        intro hlt
        rw [if_pos hlt] at hnone
        cases hnone
      rw [if_neg hbig, ih]
    · case h_2 value hsome =>
      have hlt : digitsValue n.digits < 18446744073709551616 := by
        by_contra hbig
        rw [if_neg hbig] at hsome
        cases hsome
      rw [if_pos hlt] at hsome
      obtain rfl := Option.some.inj hsome
      rw [if_pos hlt, List.map_cons, ih]

lemma hidden_lt {numbers : List Number} (h : ∃ n ∈ numbers, ¬n.fits = true) :
    toLex (padded ((numbers.filter Number.fits).map fun n => digitsValue n.digits)) <
      toLex (padded (numbers.map fun n => digitsValue n.digits)) := by
  induction numbers with
  | nil =>
    obtain ⟨n, hn, -⟩ := h
    exact absurd hn List.not_mem_nil
  | cons n numbers ih =>
    by_cases hfits : n.fits = true
    · rw [List.filter_cons_of_pos hfits, List.map_cons, List.map_cons]
      refine (@padded_append_lt _ _ [digitsValue n.digits]).mpr ?_
      apply ih
      obtain ⟨m, hm, hbig⟩ := h
      rcases List.mem_cons.mp hm with rfl | hm
      · exact absurd hfits hbig
      · exact ⟨m, hm, hbig⟩
    · rw [List.filter_cons_of_neg hfits, List.map_cons]
      -- what is read in its place is smaller
      refine ⟨0, fun j hj => absurd hj (Nat.not_lt_zero j), ?_⟩
      have hbig : 18446744073709551616 ≤ digitsValue n.digits := by
        unfold Number.fits at hfits
        rw [decide_eq_true_iff] at hfits
        exact Nat.not_lt.mp hfits
      show padded ((numbers.filter Number.fits).map fun n => digitsValue n.digits) 0 < digitsValue n.digits
      cases hkept : numbers.filter Number.fits with
      | nil => exact Nat.lt_of_lt_of_le (by decide) hbig
      | cons m kept =>
        have hm : m ∈ numbers.filter Number.fits := hkept ▸ List.mem_cons_self
        have hlt : digitsValue m.digits < 18446744073709551616 := by
          have hfit := (List.mem_filter.mp hm).2
          unfold Number.fits at hfit
          rw [decide_eq_true_iff] at hfit
          exact hfit
        exact Nat.lt_of_lt_of_le hlt hbig

lemma padded_concat_zero (xs : List Nat) : padded (xs ++ [0]) = padded xs := by
  funext i
  cases Nat.lt_or_ge i xs.length with
  | inl hin => exact padded_append_left hin
  | inr hout =>
    obtain ⟨k, rfl⟩ := Nat.exists_eq_add_of_le hout
    rw [padded_append_right, padded_of_le hout]
    cases k with
    | zero => rfl
    | succ k => rfl

/-- `0` -/
def zeroNumber : Number where
  digits := ['0']
  numeral := by decide

def Release.read (r : Release) : Release where
  numbers := r.numbers.filter Number.fits ++ [zeroNumber]
  nonempty := List.append_ne_nil_of_right_ne_nil _ (List.cons_ne_nil _ _)

/-- The version as it is read fits and is not told apart from the version, which is above it if one of its
    numbers does not fit. -/
lemma Release.read_spec (r : Release) : r.read.Fits ∧ isNewer r.text r.read.text = false ∧
    (¬r.Fits → r.Above r.read) := by
  have hvalues : r.read.values = ((r.numbers.filter Number.fits).map fun n => digitsValue n.digits) ++ [0] := by
    unfold values read
    rw [List.map_append]
    rfl
  have hfits : r.read.Fits := by
    intro n hn
    rcases List.mem_append.mp hn with hn | hn
    · have hfit := (List.mem_filter.mp hn).2
      unfold Number.fits at hfit
      rw [decide_eq_true_iff] at hfit
      exact hfit
    · rw [List.mem_singleton.mp hn]
      decide
  refine ⟨hfits, ?_, ?_⟩
  · rw [isNewer_eq_false, parts_of_fits hfits, hvalues, padded_concat_zero, parts_text, filterMap_numbers]
    exact lt_irrefl _
  · intro hbig
    unfold Above
    rw [hvalues, padded_concat_zero]
    apply hidden_lt
    unfold Fits at hbig
    push Not at hbig
    obtain ⟨n, hn, hle⟩ := hbig
    refine ⟨n, hn, ?_⟩
    unfold Number.fits
    rw [decide_eq_true_iff]
    exact Nat.not_lt.mpr hle

lemma isNewer_of_fits {r r' : Release} (h : r.Fits) (h' : r'.Fits) :
    isNewer r.text r'.text = true ↔ r.Above r' := by
  rw [isNewer_iff, Release.parts_of_fits h, Release.parts_of_fits h']
  rfl

lemma tagged_iff (r : Release) (tag : Tag) : isNewer (r.tagged tag) r.text = false ↔ tag.Quiet := by
  rw [isNewer_eq_false, Release.parts_tagged, padded_lt_append_iff]
  constructor
  · intro h piece hpiece
    have hnumeral : isNumeral piece = true := List.mem_takeWhile_imp hpiece
    by_contra hloud
    rw [not_or, Nat.not_le] at hloud
    refine h ⟨digitsValue piece, List.mem_filterMap.mpr ⟨piece, hpiece, ?_⟩, hloud.1⟩
    rw [parseU64_numeral hnumeral, if_pos hloud.2]
  · rintro h ⟨n, hn, hne⟩
    obtain ⟨piece, hpiece, hread⟩ := List.mem_filterMap.mp hn
    rw [parseU64_numeral (List.mem_takeWhile_imp hpiece)] at hread
    rcases h piece hpiece with hzero | hbig
    · rw [hzero, if_pos (by decide)] at hread
      exact hne (Option.some.inj hread).symm
    · rw [if_neg (Nat.not_lt.mpr hbig)] at hread
      cases hread

/-- The order of versions is right for a version and a tag of it exactly when the numbers of the version fit
    into a `u64` and no number at the front of the tag is between 1 and 2^64 - 1. -/
theorem isNewer_sorts_iff (r : Release) (tag : Tag) : Sorts r tag ↔ r.Fits ∧ tag.Quiet := by
  constructor
  · intro h
    refine ⟨?_, (tagged_iff r tag).mp h.tagged⟩
    by_contra hbig
    obtain ⟨hfits, hnot, habove⟩ := r.read_spec
    have hnewer := (h.numeric r.read hfits).1.mpr (habove hbig)
    rw [hnot] at hnewer
    exact Bool.false_ne_true hnewer
  · rintro ⟨hfits, hquiet⟩
    refine ⟨?_, ?_, ?_, ?_, ?_, (tagged_iff r tag).mpr hquiet⟩
    · intro text
      rw [isNewer_eq_false]
      exact lt_irrefl _
    · intro text text' h
      rw [isNewer_eq_false]
      exact lt_asymm (isNewer_iff.mp h)
    · intro text text' text'' h h'
      rw [isNewer_iff] at h h' ⊢
      exact lt_trans h' h
    · exact fun text text' other h => isNewer_congr (parts_of_decorates h) other
    · exact fun r' hfits' => ⟨isNewer_of_fits hfits hfits', isNewer_of_fits hfits' hfits⟩

/-- A numbered pre-release is offered as an update of its version, and a large number is not seen. -/
theorem numberedTag_newer : isNewer "1.2.0-1".toList "1.2.0".toList = true ∧
    isNewer "0.18446744073709551616".toList "0.1".toList = false := by
  decide +kernel

end Sarca.Server
