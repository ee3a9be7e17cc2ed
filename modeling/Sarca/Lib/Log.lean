import Mathlib.Data.List.Basic
import Mathlib.Logic.Function.Basic

/-!
# Keyed logs

A log of assignments to keys, read from the oldest entry to the newest: `Entry.set k v` gives the key
`k` the value `v`, `Entry.del k` takes its value away. `replay` turns a log into the map it leaves.
The lemmas say how replaying composes over appended logs and that only the entries of a key decide
its value, in particular that its last entry does.
-/

namespace Sarca.Lib.Log

variable {κ ν : Type*} [DecidableEq κ]

/-- One assignment of a log. -/
inductive Entry (κ ν : Type*) where
  | set : κ → ν → Entry κ ν
  | del : κ → Entry κ ν

/-- The key an entry is about. -/
def Entry.key : Entry κ ν → κ
  | .set k _ => k
  | .del k => k

/-- What an entry leaves at its key. -/
def Entry.value : Entry κ ν → Option ν
  | .set _ v => some v
  | .del _ => none

/-- The map after one entry. -/
def apply (m : κ → Option ν) (e : Entry κ ν) : κ → Option ν :=
  Function.update m e.key e.value

/-- The map a log leaves, from the map `m`. -/
def replay (m : κ → Option ν) (es : List (Entry κ ν)) : κ → Option ν :=
  es.foldl apply m

@[simp] lemma replay_nil (m : κ → Option ν) : replay m [] = m := rfl

@[simp] lemma replay_cons (m : κ → Option ν) (e : Entry κ ν) (es : List (Entry κ ν)) :
    replay m (e :: es) = replay (apply m e) es := rfl

/-- Replaying two logs one after the other. -/
lemma replay_append (m : κ → Option ν) (es fs : List (Entry κ ν)) :
    replay m (es ++ fs) = replay (replay m es) fs :=
  List.foldl_append

/-- An entry decides its own key. -/
@[simp] lemma apply_same (m : κ → Option ν) (e : Entry κ ν) : apply m e e.key = e.value :=
  Function.update_self _ _ _

/-- An entry leaves the other keys alone. -/
lemma apply_other {m : κ → Option ν} {e : Entry κ ν} {k : κ} (h : k ≠ e.key) :
    apply m e k = m k :=
  Function.update_of_ne h _ _

/-- What one entry leaves at a key. -/
lemma apply_eq (m : κ → Option ν) (e : Entry κ ν) (k : κ) :
    apply m e k = if k = e.key then e.value else m k := by
  by_cases h : k = e.key
  · subst h
    simp
  · rw [apply_other h, if_neg h]

/-- A log that never names a key leaves it alone. -/
lemma replay_frame {m : κ → Option ν} {es : List (Entry κ ν)} {k : κ}
    (h : ∀ e ∈ es, e.key ≠ k) : replay m es k = m k := by
  induction es generalizing m with
  | nil => rfl
  | cons e es ih =>
    rw [replay_cons, ih fun f hf => h f (List.mem_cons_of_mem e hf)]
    exact apply_other fun hk => h e List.mem_cons_self hk.symm

/-- The value at a key depends on the start only through that key. -/
lemma replay_congr {m n : κ → Option ν} {es : List (Entry κ ν)} {k : κ} (h : m k = n k) :
    replay m es k = replay n es k := by
  induction es generalizing m n with
  | nil => exact h
  | cons e es ih =>
    apply ih
    rw [apply_eq, apply_eq, h]

/-- The last entry of a key decides its value. -/
lemma replay_last (m : κ → Option ν) (es fs : List (Entry κ ν)) (e : Entry κ ν)
    (h : ∀ f ∈ fs, f.key ≠ e.key) : replay m (es ++ e :: fs) e.key = e.value := by
  rw [replay_append, replay_cons, replay_frame h, apply_same]

end Sarca.Lib.Log
