import Mathlib.Logic.Function.Basic
import Sarca.Lib.Run

/-!
# Machines side by side

A family has one machine for each key. A step is a step of one of them, or one that all of them take, such
as the passing of time. What a machine of the family does depends on its own steps only
(`run_stepFamily`).
-/

namespace Sarca.Lib

variable {κ σ α : Type*} [DecidableEq κ]

/-- A step of all machines, or of the one with a key. -/
inductive FamilyAct (κ α : Type*) where
  | all (a : α)
  | one (k : κ) (a : α)

/-- What a step is to the machine with a key. -/
def FamilyAct.at? (k : κ) : FamilyAct κ α → Option α
  | .all a => some a
  | .one k' a => if k' = k then some a else none

/-- The next states. -/
def stepFamily (step : σ → α → σ) (f : κ → σ) : FamilyAct κ α → κ → σ
  | .all a => fun k => step (f k) a
  | .one k a => Function.update f k (step (f k) a)

variable {step : σ → α → σ}

/-- A step of another machine changes nothing here. -/
lemma stepFamily_at (f : κ → σ) (a : FamilyAct κ α) (k : κ) :
    stepFamily step f a k = run step (f k) (a.at? k).toList := by
  cases a with
  | all a => rfl
  | one k' a =>
    obtain rfl | hne := eq_or_ne k' k
    · rw [FamilyAct.at?, if_pos rfl]
      exact Function.update_self k' _ f
    · rw [FamilyAct.at?, if_neg hne]
      exact Function.update_of_ne hne.symm _ f

/-- Each machine runs as if it were alone. -/
theorem run_stepFamily (f : κ → σ) (as : List (FamilyAct κ α)) (k : κ) :
    run (stepFamily step) f as k = run step (f k) (as.filterMap (FamilyAct.at? k)) := by
  induction as generalizing f with
  | nil => rfl
  | cons a as ih =>
    rw [run_cons, ih, stepFamily_at, List.filterMap_cons]
    cases a.at? k <;> rfl

end Sarca.Lib
