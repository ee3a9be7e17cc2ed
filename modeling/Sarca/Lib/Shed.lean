import Mathlib.Algebra.BigOperators.Group.List.Basic
import Mathlib.Algebra.Order.Ring.Nat
import Mathlib.Data.List.Infix
import Mathlib.Order.Defs.LinearOrder

/-!
# Shedding weight

Items are taken from the front of a list until what they leave of a total is within a target. They are the
shortest part of the list that brings it there (`shed_enough`, `shed_needed`, `shed_least`).
-/

namespace Sarca.Lib

variable {α : Type*} (w : α → Nat) {target total : Nat} {l : List α}

/-- The weight of a list. -/
def weight (l : List α) : Nat :=
  (l.map w).sum

@[simp] lemma weight_nil : weight w [] = 0 := rfl

@[simp] lemma weight_cons (x : α) (l : List α) : weight w (x :: l) = w x + weight w l :=
  List.sum_cons

/-- The order does not weigh. -/
lemma weight_perm {l l' : List α} (h : l.Perm l') : weight w l = weight w l' :=
  (h.map w).sum_eq

/-- A list weighs what the items with a property weigh and those without it. -/
lemma weight_filter_add (p : α → Bool) (l : List α) :
    weight w (l.filter p) + weight w (l.filter fun x => !p x) = weight w l := by
  induction l with
  | nil => rfl
  | cons x l ih =>
    rw [weight_cons, ← ih]
    cases hx : p x with
    | true =>
      rw [List.filter_cons_of_pos hx, List.filter_cons_of_neg (by rw [hx]; decide), weight_cons, Nat.add_assoc]
    | false =>
      rw [List.filter_cons_of_neg (by rw [hx]; decide), List.filter_cons_of_pos (by rw [hx]; rfl), weight_cons,
        Nat.add_left_comm]

/-- A front weighs no more than the list. -/
lemma weight_le_of_begins {l l' : List α} (h : l <+: l') : weight w l ≤ weight w l' := by
  obtain ⟨l, rfl⟩ := h
  rw [weight, weight, List.map_append, List.sum_append]
  exact Nat.le_add_right _ _

/-- In a sorted list the items up to a bound are the front. -/
lemma filter_begins {β : Type*} [LinearOrder β] {f : α → β} (h : l.Pairwise fun x y => f x ≤ f y) (bound : β) :
    l.filter (f · ≤ bound) <+: l := by
  induction h with
  | nil => exact List.prefix_rfl
  | @cons x l hx _ ih =>
    by_cases hle : f x ≤ bound
    · rw [List.filter_cons_of_pos (p := (f · ≤ bound)) (decide_eq_true hle)]
      exact List.cons_prefix_cons.mpr ⟨rfl, ih⟩
    · have hnone : (x :: l).filter (f · ≤ bound) = [] := by
        refine List.filter_eq_nil_iff.mpr fun y hy hle' => hle ?_
        obtain rfl | hy := List.mem_cons.mp hy
        · exact of_decide_eq_true hle'
        · exact (hx y hy).trans (of_decide_eq_true hle')
      rw [hnone]
      exact List.nil_prefix

/-- The items that are taken from a list. -/
def shed (target : Nat) : Nat → List α → List α
  | _, [] => []
  | total, x :: l => if total ≤ target then [] else x :: shed target (total - w x) l

/-- A total within the target sheds nothing. -/
lemma shed_of_le (h : total ≤ target) (l : List α) : shed w target total l = [] := by
  cases l with
  | nil => rfl
  | cons x l => exact if_pos h

/-- They are the front of the list. -/
lemma shed_begins (target total : Nat) (l : List α) : shed w target total l <+: l := by
  induction l generalizing total with
  | nil => exact List.prefix_rfl
  | cons x l ih =>
    unfold shed
    split
    · exact List.nil_prefix
    · exact List.cons_prefix_cons.mpr ⟨rfl, ih _⟩

/-- They bring the total to the target, or are all there are. -/
lemma shed_enough (target total : Nat) (l : List α) :
    total ≤ target + weight w (shed w target total l) ∨ shed w target total l = l := by
  induction l generalizing total with
  | nil => exact .inr rfl
  | cons x l ih =>
    unfold shed
    split
    · case isTrue hle => exact .inl hle
    · apply (ih (total - w x)).imp
      · intro hle
        rw [weight_cons]
        omega
      · exact congrArg (x :: ·)

/-- Each is taken at a total that is over the target. -/
lemma shed_needed {earlier : List α} {x : α} (h : earlier ++ [x] <+: shed w target total l) :
    target + weight w earlier < total := by
  induction l generalizing total earlier with
  | nil => exact absurd (List.prefix_nil.mp h) (List.append_ne_nil_of_right_ne_nil _ (List.cons_ne_nil x []))
  | cons y l ih =>
    unfold shed at h
    split at h
    · exact absurd (List.prefix_nil.mp h) (List.append_ne_nil_of_right_ne_nil _ (List.cons_ne_nil x []))
    · case isFalse hlt =>
      cases earlier with
      | nil => exact Nat.lt_of_not_le hlt
      | cons z earlier =>
        obtain ⟨rfl, h⟩ := List.cons_prefix_cons.mp h
        have hlater := ih h
        rw [weight_cons]
        omega

/-- A part of the front that suffices holds them all. -/
lemma shed_least {front : List α} (hfront : front <+: l) (h : total ≤ target + weight w front) :
    shed w target total l <+: front := by
  induction l generalizing total front with
  | nil => exact List.nil_prefix
  | cons y l ih =>
    unfold shed
    split
    · exact List.nil_prefix
    · case isFalse hlt =>
      cases front with
      | nil => exact absurd h hlt
      | cons z front =>
        obtain ⟨rfl, hrest⟩ := List.cons_prefix_cons.mp hfront
        rw [weight_cons] at h
        exact List.cons_prefix_cons.mpr ⟨rfl, ih hrest (by omega)⟩

end Sarca.Lib
