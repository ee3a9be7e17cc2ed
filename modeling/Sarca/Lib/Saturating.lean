import Mathlib.Algebra.BigOperators.Group.List.Basic
import Mathlib.Algebra.Order.Ring.Nat

/-!
# Saturating arithmetic of 64-bit words

`satAdd` and `satSub` stay at the ends of the range. A saturating sum of a list is the exact sum cut at
the greatest word, whatever the order of its terms.
-/

namespace Sarca.Lib

/-- The greatest 64-bit word. -/
def maxWord : Nat := 18446744073709551615

/-- The word nearest to a number. -/
def word (n : Nat) : UInt64 :=
  UInt64.ofNat (min n maxWord)

/-- Rust `u64::saturating_add`. -/
def satAdd (a b : UInt64) : UInt64 :=
  word (a.toNat + b.toNat)

/-- Rust `u64::saturating_sub`. -/
def satSub (a b : UInt64) : UInt64 :=
  word (a.toNat - b.toNat)

/-- The saturating sum of a list. -/
def satSum (l : List UInt64) : UInt64 :=
  l.foldl satAdd 0

variable {a b : UInt64}

lemma toNat_le_maxWord (a : UInt64) : a.toNat ≤ maxWord :=
  Nat.le_of_lt_succ a.toNat_lt

@[simp] lemma toNat_word (n : Nat) : (word n).toNat = min n maxWord := by
  apply UInt64.toNat_ofNat_of_lt'
  exact Nat.lt_succ_of_le (Nat.min_le_right n maxWord)

@[simp] lemma toNat_satAdd (a b : UInt64) : (satAdd a b).toNat = min (a.toNat + b.toNat) maxWord :=
  toNat_word _

@[simp] lemma toNat_satSub (a b : UInt64) : (satSub a b).toNat = a.toNat - b.toNat := by
  have := toNat_le_maxWord a
  rw [satSub, toNat_word]
  omega

/-- A sum from any start is the exact sum, cut. -/
lemma toNat_foldl_satAdd (l : List UInt64) (a : UInt64) :
    (l.foldl satAdd a).toNat = min (a.toNat + (l.map UInt64.toNat).sum) maxWord := by
  induction l generalizing a with
  | nil =>
    have := toNat_le_maxWord a
    simp only [List.foldl_nil, List.map_nil, List.sum_nil]
    omega
  | cons b l ih =>
    simp only [List.foldl_cons, ih, toNat_satAdd, List.map_cons, List.sum_cons]
    omega

lemma toNat_satSum (l : List UInt64) :
    (satSum l).toNat = min (l.map UInt64.toNat).sum maxWord := by
  rw [satSum, toNat_foldl_satAdd, UInt64.toNat_zero, Nat.zero_add]

end Sarca.Lib
