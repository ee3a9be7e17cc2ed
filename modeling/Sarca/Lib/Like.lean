import Mathlib.Data.List.Infix

/-!
# `LIKE`

The comparison that `SQLite` makes for `text LIKE pattern` without an `ESCAPE`: `%` stands for any text, `_`
for any character, and letters of ASCII match in either case. A text matches itself, and two patterns one
behind the other match what the two match.
-/

namespace Sarca.Lib

/-- The character as `LIKE` compares it: ASCII letters are folded, others are not. -/
def foldCase (c : Char) : Char :=
  c.toLower

/-- `text LIKE pattern` -/
def like : List Char → List Char → Bool
  | [], text => text.isEmpty
  | '%' :: pattern, text => text.tails.any (like pattern)
  | '_' :: pattern, text =>
    match text with
    | [] => false
    | _ :: text => like pattern text
  | c :: pattern, text =>
    match text with
    | [] => false
    | d :: text => foldCase c = foldCase d && like pattern text

/-- `lower(text)` -/
def lower (text : List Char) : List Char :=
  text.map foldCase

variable {c d : Char} {p q t u : List Char}

/-- The letters from `A` to `Z` are moved by the distance of the cases. -/
lemma toNat_foldCase (c : Char) :
    (foldCase c).toNat = if 65 ≤ c.toNat ∧ c.toNat ≤ 90 then c.toNat + 32 else c.toNat := by
  have hrange : (c.val ≥ 'A'.val ∧ c.val ≤ 'Z'.val) ↔ 65 ≤ c.toNat ∧ c.toNat ≤ 90 := by
    simp only [ge_iff_le, UInt32.le_iff_toNat_le]
    exact Iff.rfl
  unfold foldCase Char.toLower
  split
  · case isTrue h =>
    rw [if_pos (hrange.mp h)]
    show (c.val + ('a'.val - 'A'.val)).toNat = c.val.toNat + 32
    have hsmall : c.val.toNat ≤ 90 := (hrange.mp h).2
    have hdist : 'a'.val - 'A'.val = 32 := by decide
    rw [hdist, UInt32.toNat_add]
    exact Nat.mod_eq_of_lt (show c.val.toNat + 32 < 4294967296 by omega)
  · case isFalse h => rw [if_neg (mt hrange.mpr h)]

lemma foldCase_foldCase (c : Char) : foldCase (foldCase c) = foldCase c := by
  apply Char.toNat_inj.mp
  rw [toNat_foldCase (foldCase c)]
  have hc := toNat_foldCase c
  split at hc <;> split <;> omega

/-- What is no letter is folded from itself only. -/
lemma foldCase_eq_iff (hlower : ¬(97 ≤ d.toNat ∧ d.toNat ≤ 122)) (hupper : ¬(65 ≤ d.toNat ∧ d.toNat ≤ 90)) :
    foldCase c = d ↔ c = d := by
  rw [← Char.toNat_inj, ← Char.toNat_inj, toNat_foldCase]
  split <;> omega

lemma foldCase_eq_percent : foldCase c = '%' ↔ c = '%' :=
  foldCase_eq_iff (by decide) (by decide)

lemma foldCase_eq_underscore : foldCase c = '_' ↔ c = '_' :=
  foldCase_eq_iff (by decide) (by decide)

/-- The empty pattern matches the empty text. -/
lemma like_nil_iff : like [] t = true ↔ t = [] :=
  List.isEmpty_iff

/-- `%` stands for what comes before one of the tails. -/
lemma like_percent_iff : like ('%' :: p) t = true ↔ ∃ before rest, t = before ++ rest ∧ like p rest = true := by
  have hany : like ('%' :: p) t = t.tails.any (like p) := rfl
  rw [hany, List.any_eq_true]
  constructor
  · rintro ⟨rest, hrest, hmatch⟩
    obtain ⟨before, hbefore⟩ := (List.mem_tails _ _).mp hrest
    exact ⟨before, rest, hbefore.symm, hmatch⟩
  · rintro ⟨before, rest, rfl, hmatch⟩
    exact ⟨rest, (List.mem_tails _ _).mpr (List.suffix_append before rest), hmatch⟩

/-- `_` stands for one character. -/
lemma like_underscore_iff : like ('_' :: p) t = true ↔ ∃ d rest, t = d :: rest ∧ like p rest = true := by
  cases t with
  | nil => exact ⟨nofun, nofun⟩
  | cons d t =>
    constructor
    · intro h
      exact ⟨d, t, rfl, h⟩
    · rintro ⟨d', rest, heq, h⟩
      cases heq
      exact h

/-- Any other character stands for itself, in either case. -/
lemma like_cons_iff (hpercent : c ≠ '%') (hunderscore : c ≠ '_') :
    like (c :: p) t = true ↔ ∃ d rest, t = d :: rest ∧ foldCase c = foldCase d ∧ like p rest = true := by
  cases t <;> simp [like]

/-- Any text matches `%`. -/
lemma like_percent (text : List Char) : like ['%'] text = true :=
  like_percent_iff.mpr ⟨text, [], by simp, rfl⟩

/-- What two patterns match, one behind the other, the patterns one behind the other match. -/
theorem like_append (hp : like p t = true) (hq : like q u = true) : like (p ++ q) (t ++ u) = true := by
  induction p generalizing t with
  | nil =>
    rw [like_nil_iff] at hp
    rwa [hp]
  | cons c p ih =>
    by_cases hpercent : c = '%'
    · subst hpercent
      obtain ⟨before, rest, rfl, hmatch⟩ := like_percent_iff.mp hp
      exact like_percent_iff.mpr ⟨before, rest ++ u, List.append_assoc _ _ _, ih hmatch⟩
    · by_cases hunderscore : c = '_'
      · subst hunderscore
        obtain ⟨d, rest, rfl, hmatch⟩ := like_underscore_iff.mp hp
        exact like_underscore_iff.mpr ⟨d, rest ++ u, rfl, ih hmatch⟩
      · obtain ⟨d, rest, rfl, hfold, hmatch⟩ := (like_cons_iff hpercent hunderscore).mp hp
        exact (like_cons_iff hpercent hunderscore).mpr ⟨d, rest ++ u, rfl, hfold, ih hmatch⟩

/-- A text matches itself. -/
theorem like_self (text : List Char) : like text text = true := by
  induction text with
  | nil => rfl
  | cons c text ih =>
    by_cases hpercent : c = '%'
    · subst hpercent
      exact like_percent_iff.mpr ⟨['%'], text, rfl, ih⟩
    · by_cases hunderscore : c = '_'
      · subst hunderscore
        exact like_underscore_iff.mpr ⟨'_', text, rfl, ih⟩
      · exact (like_cons_iff hpercent hunderscore).mpr ⟨c, text, rfl, rfl, ih⟩

/-- What is folded before is matched as it was. -/
lemma like_lower : like (lower p) (lower t) = like p t := by
  unfold lower
  rw [Bool.eq_iff_iff]
  induction p generalizing t with
  | nil => rw [List.map_nil, like_nil_iff, like_nil_iff, List.map_eq_nil_iff]
  | cons c p ih =>
    rw [List.map_cons]
    by_cases hpercent : c = '%'
    · subst hpercent
      have hfold : foldCase '%' = '%' := by decide
      rw [hfold, like_percent_iff, like_percent_iff]
      constructor
      · rintro ⟨before, rest, heq, hmatch⟩
        obtain ⟨before', rest', rfl, rfl, rfl⟩ := List.map_eq_append_iff.mp heq
        exact ⟨before', rest', rfl, ih.mp hmatch⟩
      · rintro ⟨before, rest, rfl, hmatch⟩
        exact ⟨_, _, List.map_append, ih.mpr hmatch⟩
    · by_cases hunderscore : c = '_'
      · subst hunderscore
        have hfold : foldCase '_' = '_' := by decide
        rw [hfold, like_underscore_iff, like_underscore_iff]
        constructor
        · rintro ⟨d, rest, heq, hmatch⟩
          obtain ⟨d', rest', rfl, rfl, rfl⟩ := List.map_eq_cons_iff.mp heq
          exact ⟨d', rest', rfl, ih.mp hmatch⟩
        · rintro ⟨d, rest, rfl, hmatch⟩
          exact ⟨_, _, List.map_cons, ih.mpr hmatch⟩
      · rw [like_cons_iff (mt foldCase_eq_percent.mp hpercent) (mt foldCase_eq_underscore.mp hunderscore),
          like_cons_iff hpercent hunderscore]
        constructor
        · rintro ⟨d, rest, heq, hfold, hmatch⟩
          obtain ⟨d', rest', rfl, rfl, rfl⟩ := List.map_eq_cons_iff.mp heq
          rw [foldCase_foldCase, foldCase_foldCase] at hfold
          exact ⟨d', rest', rfl, hfold, ih.mp hmatch⟩
        · rintro ⟨d, rest, rfl, hfold, hmatch⟩
          exact ⟨_, _, List.map_cons, by rw [foldCase_foldCase, foldCase_foldCase, hfold], ih.mpr hmatch⟩

/-- What a pattern of two parts matches is what they match, one behind the other. -/
theorem like_append_iff :
    like (p ++ q) t = true ↔ ∃ u v, t = u ++ v ∧ like p u = true ∧ like q v = true := by
  refine ⟨fun h => ?_, fun ⟨u, v, heq, hp, hq⟩ => heq ▸ like_append hp hq⟩
  induction p generalizing t with
  | nil => exact ⟨[], t, rfl, rfl, h⟩
  | cons c p ih =>
    rw [List.cons_append] at h
    by_cases hpercent : c = '%'
    · subst hpercent
      obtain ⟨before, rest, rfl, hmatch⟩ := like_percent_iff.mp h
      obtain ⟨u, v, rfl, hp, hq⟩ := ih hmatch
      exact ⟨before ++ u, v, (List.append_assoc _ _ _).symm, like_percent_iff.mpr ⟨before, u, rfl, hp⟩, hq⟩
    · by_cases hunderscore : c = '_'
      · subst hunderscore
        obtain ⟨d, rest, rfl, hmatch⟩ := like_underscore_iff.mp h
        obtain ⟨u, v, rfl, hp, hq⟩ := ih hmatch
        exact ⟨d :: u, v, rfl, like_underscore_iff.mpr ⟨d, u, rfl, hp⟩, hq⟩
      · obtain ⟨d, rest, rfl, hfold, hmatch⟩ := (like_cons_iff hpercent hunderscore).mp h
        obtain ⟨u, v, rfl, hp, hq⟩ := ih hmatch
        exact ⟨d :: u, v, rfl, (like_cons_iff hpercent hunderscore).mpr ⟨d, u, rfl, hfold, hp⟩, hq⟩

/-- A pattern without wildcards matches what it is, case apart. -/
lemma like_plain_iff (hpercent : '%' ∉ p) (hunderscore : '_' ∉ p) : like p t = true ↔ lower t = lower p := by
  unfold lower
  induction p generalizing t with
  | nil => rw [like_nil_iff, List.map_nil, List.map_eq_nil_iff]
  | cons c p ih =>
    rw [List.mem_cons, not_or] at hpercent hunderscore
    rw [like_cons_iff (Ne.symm hpercent.1) (Ne.symm hunderscore.1), List.map_cons, List.map_eq_cons_iff]
    simp only [ih hpercent.2 hunderscore.2, eq_comm]

end Sarca.Lib
