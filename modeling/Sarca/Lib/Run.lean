import Mathlib.Data.List.Basic
import Mathlib.Data.List.Infix

/-!
# Runs of a step function

A system is a step function `step : σ → α → σ` over states `σ` and actions `α`; what the
environment decides (an answer, a visiting order, an instant) is part of the action. The file
provides:

* `run`: the state a list of actions leads to;
* `Always`: a property holds before the first action and after each one;
* `AllOk`: each action meets a side condition in the state it finds;
* `always_of_allOk`: the invariant rule, where each step that meets the side condition keeps the
  property;
* `always_iff_allOk`: the exact rule, where the property survives a step just when the step meets
  the side condition;
* `run_settles`: the progress rule, where each such step makes a measure smaller;
* `run_simulates`: two systems whose steps keep a relation between their states;
* `mem_modify`: what a step of one component of a list leaves.
-/

namespace Sarca.Lib

variable {σ α : Type*}

/-- The state a list of actions leads to. -/
def run (step : σ → α → σ) (s : σ) (as : List α) : σ :=
  as.foldl step s

/-- Each action meets `ok` in the state it finds. -/
def AllOk (step : σ → α → σ) (ok : σ → α → Prop) : σ → List α → Prop
  | _, [] => True
  | s, a :: as => ok s a ∧ AllOk step ok (step s a) as

/-- `P` holds before the first action and after each one. -/
def Always (step : σ → α → σ) (P : σ → Prop) : σ → List α → Prop
  | s, [] => P s
  | s, a :: as => P s ∧ Always step P (step s a) as

instance AllOk.decidable (step : σ → α → σ) (ok : σ → α → Prop)
    [∀ s a, Decidable (ok s a)] : ∀ s as, Decidable (AllOk step ok s as)
  | _, [] => inferInstanceAs (Decidable True)
  | s, a :: as =>
    @instDecidableAnd _ _ _ (AllOk.decidable step ok (step s a) as)

/-- A property of the element there may be can be decided. -/
def decideMem {α : Type*} (o : Option α) (p : α → Prop) [DecidablePred p] :
    Decidable (∀ x ∈ o, p x) :=
  match o with
  | none => isTrue fun _ hx => nomatch hx
  | some x => decidable_of_iff (p x) ⟨fun h _ hx => Option.some.inj hx ▸ h, fun h => h x rfl⟩

/-- The members of a list when one of them has changed. -/
lemma mem_modify {α : Type*} {l : List α} {n : Nat} {f : α → α} {x : α} (h : x ∈ l.modify n f) :
    x ∈ l ∨ ∃ y ∈ l[n]?, x = f y := by
  obtain ⟨i, hi⟩ := List.mem_iff_getElem?.mp h
  rw [List.getElem?_modify] at hi
  obtain ⟨y, hy, rfl⟩ := Option.map_eq_some_iff.mp hi
  obtain rfl | hne := eq_or_ne n i
  · rw [if_pos rfl]
    exact Or.inr ⟨y, hy, rfl⟩
  · rw [if_neg hne]
    exact Or.inl (List.mem_of_getElem? hy)

variable {step : σ → α → σ} {ok : σ → α → Prop} {P I : σ → Prop}

@[simp] lemma run_nil (s : σ) : run step s [] = s := rfl

@[simp] lemma run_cons (s : σ) (a : α) (as : List α) :
    run step s (a :: as) = run step (step s a) as := rfl

/-- A run over two lists is the second run from the end of the first. -/
lemma run_append (s : σ) (as bs : List α) :
    run step s (as ++ bs) = run step (run step s as) bs :=
  List.foldl_append

/-- `Always` speaks about the state after each prefix of the run. -/
lemma always_iff_prefixes {s : σ} {as : List α} :
    Always step P s as ↔ ∀ pre, pre <+: as → P (run step s pre) := by
  induction as generalizing s with
  | nil =>
    constructor
    · intro h pre hpre
      rw [List.prefix_nil.mp hpre]
      exact h
    · intro h
      exact h [] (List.prefix_refl [])
  | cons a as ih =>
    constructor
    · rintro ⟨h, hs⟩ pre hpre
      cases pre with
      | nil => exact h
      | cons b pre =>
        obtain ⟨rfl, htail⟩ := List.cons_prefix_cons.mp hpre
        exact ih.mp hs pre htail
    · intro h
      refine ⟨h [] List.nil_prefix, ih.mpr ?_⟩
      intro pre hpre
      exact h (a :: pre) (List.cons_prefix_cons.mpr ⟨rfl, hpre⟩)

/-- `Always` reaches the last state of the run. -/
lemma Always.last {s : σ} {as : List α} (h : Always step P s as) : P (run step s as) :=
  always_iff_prefixes.mp h as (List.prefix_refl as)

lemma Always.mono {Q : σ → Prop} (h : ∀ s, P s → Q s) {s : σ} {as : List α}
    (hP : Always step P s as) : Always step Q s as :=
  always_iff_prefixes.mpr fun pre hpre => h _ (always_iff_prefixes.mp hP pre hpre)

/-- An invariant that every step keeps holds at the end of every run. -/
lemma run_invariant (hI : ∀ s a, I s → I (step s a)) {s : σ} (hs : I s) (as : List α) :
    I (run step s as) := by
  induction as generalizing s with
  | nil => exact hs
  | cons a as ih => exact ih (hI s a hs)

/-- The invariant rule: each step that meets the side condition keeps the property. -/
lemma always_of_allOk (hP : ∀ s a, P s → ok s a → P (step s a))
    {s : σ} {as : List α} (hs : P s) (hok : AllOk step ok s as) : Always step P s as := by
  induction as generalizing s with
  | nil => exact hs
  | cons a as ih =>
    obtain ⟨ha, has⟩ := hok
    exact ⟨hs, ih (hP s a hs ha) has⟩

/-- An invariant that every step keeps holds before and after every step. -/
lemma always_of_invariant (hI : ∀ s a, I s → I (step s a)) {s : σ} (hs : I s) (as : List α) :
    Always step I s as :=
  always_iff_prefixes.mpr fun pre _ => run_invariant hI hs pre

/-- The exact rule: under an invariant that such steps keep, the property survives a step just when the
    step meets the side condition, so it holds throughout a run just when every step meets it. -/
theorem always_iff_allOk (hI : ∀ s a, I s → ok s a → I (step s a))
    (hP : ∀ s a, I s → P s → (P (step s a) ↔ ok s a))
    {s : σ} {as : List α} (hi : I s) (hs : P s) :
    Always step P s as ↔ AllOk step ok s as := by
  induction as generalizing s with
  | nil => exact ⟨fun _ => trivial, fun _ => hs⟩
  | cons a as ih =>
    constructor
    · rintro ⟨-, h⟩
      have ha : P (step s a) := by
        cases as with
        | nil => exact h
        | cons b bs => exact h.1
      have hok := (hP s a hi hs).mp ha
      exact ⟨hok, (ih (hI s a hi hok) ha).mp h⟩
    · rintro ⟨hok, h⟩
      exact ⟨hs, (ih (hI s a hi hok) ((hP s a hi hs).mpr hok)).mpr h⟩

/-- A property that always holds is a side condition of the steps. -/
lemma Always.allOk {s : σ} {as : List α} (h : Always step P s as) :
    AllOk step (fun s _ => P s) s as := by
  induction as generalizing s with
  | nil => trivial
  | cons a as ih => exact ⟨h.1, ih h.2⟩

/-- A side condition that implies another one does so along every run. -/
lemma AllOk.mono {ok' : σ → α → Prop} (h : ∀ s a, ok s a → ok' s a)
    {s : σ} {as : List α} (hok : AllOk step ok s as) : AllOk step ok' s as := by
  induction as generalizing s with
  | nil => trivial
  | cons a as ih => exact ⟨h s a hok.1, ih hok.2⟩

/-- A condition on the actions alone. -/
lemma allOk_of_forall {p : α → Prop} {s : σ} {as : List α} (h : ∀ a ∈ as, p a) :
    AllOk step (fun _ a => p a) s as := by
  induction as generalizing s with
  | nil => trivial
  | cons a as ih => exact ⟨h a List.mem_cons_self, ih fun b hb => h b (List.mem_cons_of_mem a hb)⟩

/-- Two conditions along a run. -/
lemma allOk_and {ok' : σ → α → Prop} {s : σ} {as : List α} (h : AllOk step ok s as)
    (h' : AllOk step ok' s as) : AllOk step (fun s a => ok s a ∧ ok' s a) s as := by
  induction as generalizing s with
  | nil => trivial
  | cons a as ih => exact ⟨⟨h.1, h'.1⟩, ih h.2 h'.2⟩

/-- The progress rule: each step that meets the side condition keeps the property and makes the measure smaller
    unless it is zero, so a run that is long enough ends where it is zero. -/
theorem run_settles {m : σ → Nat} (hstep : ∀ s a, P s → ok s a → P (step s a) ∧ m (step s a) ≤ m s - 1)
    {s : σ} {as : List α} (hs : P s) (hok : AllOk step ok s as) (hlen : m s ≤ as.length) :
    P (run step s as) ∧ m (run step s as) = 0 := by
  induction as generalizing s with
  | nil => exact ⟨hs, Nat.le_zero.mp hlen⟩
  | cons a as ih =>
    obtain ⟨ha, has⟩ := hok
    obtain ⟨hnext, hless⟩ := hstep s a hs ha
    rw [List.length_cons] at hlen
    exact ih hnext has (by omega)

section Simulation

variable {τ β : Type*} {step' : τ → β → τ} {ok' : τ → β → Prop} {R : σ → τ → Prop} {f : β → α}

/-- Related states stay related along runs whose actions correspond. -/
theorem run_simulates (hR : ∀ s t b, R s t → R (step s (f b)) (step' t b)) {s : σ} {t : τ} (h : R s t)
    (bs : List β) : R (run step s (bs.map f)) (run step' t bs) := by
  induction bs generalizing s t with
  | nil => exact h
  | cons b bs ih => exact ih (hR s t b h)

/-- So do the side conditions along them. -/
theorem allOk_simulates (hR : ∀ s t b, R s t → R (step s (f b)) (step' t b))
    (hok : ∀ s t b, R s t → ok s (f b) → ok' t b) {s : σ} {t : τ} (h : R s t) {bs : List β}
    (hs : AllOk step ok s (bs.map f)) : AllOk step' ok' t bs := by
  induction bs generalizing s t with
  | nil => trivial
  | cons b bs ih => exact ⟨hok s t b h hs.1, ih (hR s t b h) hs.2⟩

end Simulation

/-- A property of the states along a run over two lists. -/
lemma always_append {s : σ} {as bs : List α} :
    Always step P s (as ++ bs) ↔ Always step P s as ∧ Always step P (run step s as) bs := by
  induction as generalizing s with
  | nil =>
    refine ⟨fun h => ⟨?_, h⟩, fun h => h.2⟩
    exact always_iff_prefixes.mp h [] List.nil_prefix
  | cons a as ih =>
    rw [List.cons_append, Always, Always, ih, run_cons, and_assoc]

/-- The side condition along a run over two lists. -/
lemma allOk_append {s : σ} {as bs : List α} :
    AllOk step ok s (as ++ bs) ↔ AllOk step ok s as ∧ AllOk step ok (run step s as) bs := by
  induction as generalizing s with
  | nil => simp [AllOk]
  | cons a as ih =>
    rw [List.cons_append, AllOk, AllOk, ih, run_cons, and_assoc]

end Sarca.Lib
