import Sarca.Lib.Run

/-!
# What a run has gone through

`states` are the states of a run before each of its actions. `run_history` is the invariant rule for what a state
says about the ones before it: each step adds the state it starts from.
-/

namespace Sarca.Lib

variable {σ α : Type*} {step : σ → α → σ}

/-- The states of a run before each action. -/
def states (step : σ → α → σ) : σ → List α → List σ
  | _, [] => []
  | s, a :: as => s :: states step (step s a) as

/-- What each step carries from the states before it to those with its own is true of a run. -/
lemma run_history {P : List σ → σ → Prop} (hstep : ∀ past s a, P past s → P (past ++ [s]) (step s a)) {s : σ}
    (hs : P [] s) (as : List α) : P (states step s as) (run step s as) := by
  have hfrom : ∀ past, P past s → P (past ++ states step s as) (run step s as) := by
    clear hs
    induction as generalizing s with
    | nil =>
      intro past hs
      rw [states, List.append_nil]
      exact hs
    | cons a as ih =>
      intro past hs
      have hnext := ih (past ++ [s]) (hstep past s a hs)
      rwa [List.append_assoc] at hnext
  exact hfrom [] hs

/-- States that were there in an order are there still. -/
lemma sublist_before {τs past : List σ} (h : τs.Sublist past) (s : σ) : τs.Sublist (past ++ [s]) :=
  h.trans (List.sublist_append_left past [s])

/-- And the state that a step starts from is behind them. -/
lemma sublist_after {τs past : List σ} (h : τs.Sublist past) (s : σ) : (τs ++ [s]).Sublist (past ++ [s]) :=
  h.append (List.Sublist.refl [s])

end Sarca.Lib
