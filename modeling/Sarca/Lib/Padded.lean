import Mathlib.Data.List.GetD
import Mathlib.Order.PiLex

/-!
# Lists padded with zeros

`padded` reads a list of numbers as a sequence that goes on with zeros, so that lists of different lengths
compare by their first difference: `toLex (padded b) < toLex (padded a)`, in the order that Mathlib has for
sequences. `exceeds` is the loop that decides it (`exceeds_iff`). Equal fronts do not matter
(`padded_append_lt`), and a list exceeds its front just when something behind it is not zero
(`padded_lt_append_iff`).
-/

namespace Sarca.Lib

/-- The numbers of a list, and zeros behind them. -/
def padded (xs : List Nat) : ℕ → ℕ := fun i => xs.getD i 0

/-- The indices in order: at the first difference the first list is the greater one. -/
def exceeds (a b : List Nat) : List Nat → Bool
  | [] => false
  | i :: indices => if padded a i ≠ padded b i then decide (padded b i < padded a i) else exceeds a b indices

variable {a b xs ys : List Nat}

/-- Behind its end a list is zero. -/
lemma padded_of_le {i : Nat} (h : xs.length ≤ i) : padded xs i = 0 :=
  List.getD_eq_default xs 0 h

lemma padded_append_left {i : Nat} (h : i < xs.length) : padded (xs ++ ys) i = padded xs i :=
  List.getD_append xs ys 0 i h

lemma padded_append_right (i : Nat) : padded (xs ++ ys) (xs.length + i) = padded ys i := by
  unfold padded
  rw [List.getD_append_right xs ys 0 _ (Nat.le_add_right _ _), Nat.add_sub_cancel_left]

/-- What the loop finds in a stretch of indices. -/
lemma exceeds_range' (k n : Nat) : exceeds a b (List.range' k n) = true ↔
    ∃ i, k ≤ i ∧ i < k + n ∧ (∀ j, k ≤ j → j < i → padded b j = padded a j) ∧ padded b i < padded a i := by
  induction n generalizing k with
  | zero =>
    constructor
    · exact fun h => absurd h Bool.false_ne_true
    · rintro ⟨i, hk, hi, -⟩
      exact absurd hi (Nat.not_lt.mpr hk)
  | succ n ih =>
    rw [List.range'_succ, exceeds]
    split
    · case isTrue hdiffers =>
      rw [decide_eq_true_iff]
      constructor
      · intro hlt
        refine ⟨k, Nat.le_refl k, Nat.lt_add_of_pos_right (Nat.succ_pos n), ?_, hlt⟩
        exact fun j hk hj => absurd hj (Nat.not_lt.mpr hk)
      · rintro ⟨i, hk, -, hsame, hlt⟩
        cases Nat.eq_or_lt_of_le hk with
        | inl heq => exact heq ▸ hlt
        | inr hki => exact absurd (hsame k (Nat.le_refl k) hki).symm hdiffers
    · case isFalse hsame =>
      rw [not_not] at hsame
      rw [ih (k + 1)]
      constructor
      · rintro ⟨i, hk, hi, hfront, hlt⟩
        refine ⟨i, Nat.le_of_succ_le hk, by omega, fun j hkj hj => ?_, hlt⟩
        cases Nat.eq_or_lt_of_le hkj with
        | inl heq => exact heq ▸ hsame.symm
        | inr hkj => exact hfront j hkj hj
      · rintro ⟨i, hk, hi, hfront, hlt⟩
        have hne : k ≠ i := by
          rintro rfl
          exact hlt.ne hsame.symm
        exact ⟨i, by omega, by omega, fun j hkj hj => hfront j (Nat.le_of_succ_le hkj) hj, hlt⟩

/-- The loop over both lists decides the order of the padded sequences. -/
theorem exceeds_iff : exceeds a b (List.range (max a.length b.length)) = true ↔
    toLex (padded b) < toLex (padded a) := by
  rw [List.range_eq_range', exceeds_range']
  constructor
  · rintro ⟨i, -, -, hfront, hlt⟩
    exact ⟨i, fun j hj => hfront j (Nat.zero_le j) hj, hlt⟩
  · rintro ⟨i, hfront, hlt⟩
    refine ⟨i, Nat.zero_le i, ?_, fun j _ hj => hfront j hj, hlt⟩
    by_contra hlong
    rw [Nat.zero_add, Nat.not_lt, Nat.max_le] at hlong
    have hpos : padded b i < padded a i := hlt
    rw [padded_of_le hlong.1] at hpos
    exact absurd hpos (Nat.not_lt_zero _)

/-- Behind the same front the rest decides. -/
lemma padded_append_lt : toLex (padded (xs ++ a)) < toLex (padded (xs ++ b)) ↔
    toLex (padded a) < toLex (padded b) := by
  constructor
  · rintro ⟨i, hfront, hlt⟩
    have hle : xs.length ≤ i := by
      by_contra hshort
      have hin := Nat.not_le.mp hshort
      have hsame : padded (xs ++ a) i = padded (xs ++ b) i :=
        (padded_append_left hin).trans (padded_append_left hin).symm
      exact absurd hsame hlt.ne
    obtain ⟨k, rfl⟩ := Nat.exists_eq_add_of_le hle
    refine ⟨k, fun j hj => ?_, ?_⟩
    · have hsame := hfront (xs.length + j) (Nat.add_lt_add_left hj _)
      exact (padded_append_right j).symm.trans (hsame.trans (padded_append_right j))
    · have hrest : padded (xs ++ a) (xs.length + k) < padded (xs ++ b) (xs.length + k) := hlt
      rw [padded_append_right, padded_append_right] at hrest
      exact hrest
  · rintro ⟨k, hfront, hlt⟩
    refine ⟨xs.length + k, fun j hj => ?_, ?_⟩
    · show padded (xs ++ a) j = padded (xs ++ b) j
      cases Nat.lt_or_ge j xs.length with
      | inl hin => exact (padded_append_left hin).trans (padded_append_left hin).symm
      | inr hle =>
        obtain ⟨m, rfl⟩ := Nat.exists_eq_add_of_le hle
        rw [padded_append_right, padded_append_right]
        exact hfront m (Nat.lt_of_add_lt_add_left hj)
    · show padded (xs ++ a) (xs.length + k) < padded (xs ++ b) (xs.length + k)
      rw [padded_append_right, padded_append_right]
      exact hlt

/-- A list is above its front just when something behind it is not zero. -/
lemma padded_lt_append_iff : toLex (padded xs) < toLex (padded (xs ++ ys)) ↔ ∃ y ∈ ys, y ≠ 0 := by
  have hrest := @padded_append_lt [] ys xs
  rw [List.append_nil] at hrest
  rw [hrest]
  constructor
  · rintro ⟨i, -, hlt⟩
    have hpos : 0 < padded ys i := hlt
    have hin : i < ys.length := by
      by_contra hout
      rw [padded_of_le (Nat.not_lt.mp hout)] at hpos
      exact absurd hpos (Nat.lt_irrefl 0)
    refine ⟨ys[i], List.getElem_mem hin, ?_⟩
    unfold padded at hpos
    rw [List.getD_eq_getElem ys 0 hin] at hpos
    exact hpos.ne'
  · rintro ⟨y, hy, hne⟩
    by_contra hnot
    have hle : toLex (padded ys) ≤ toLex (padded []) := not_lt.mp hnot
    have hsame : padded ys = padded [] := by
      cases hle.lt_or_eq with
      | inl hlt =>
        obtain ⟨i, -, hlt⟩ := hlt
        exact absurd hlt (Nat.not_lt_zero _)
      | inr heq => exact toLex_inj.mp heq
    obtain ⟨i, hin, rfl⟩ := List.getElem_of_mem hy
    have hzero : padded ys i = 0 := congrFun hsame i
    unfold padded at hzero
    rw [List.getD_eq_getElem ys 0 hin] at hzero
    exact hne hzero

end Sarca.Lib
