import Mathlib.Data.List.Basic
import Mathlib.Logic.Function.Iterate

/-!
# Queues served in batches

A queue whose first `k` entries are looked at in one pass: those that can be served leave, the others stay
where they are. `drains_iff` says when passes serve every entry that can be served: just when fewer than `k`
entries that cannot be served stand before each of them.
-/

namespace Sarca.Lib

variable {α : Type*} (p : α → Bool) (k : Nat)

/-- One pass: the entries of the batch that can be served leave. -/
def passBatch (l : List α) : List α :=
  (l.take k).filter (!p ·) ++ l.drop k

variable {p k} {l : List α}

/-- What stands before an entry that cannot be served away. -/
lemma passBatch_append {pre post : List α} (h : k ≤ pre.length) :
    passBatch p k (pre ++ post) = passBatch p k pre ++ post := by
  unfold passBatch
  rw [List.take_append_of_le_length h, List.drop_append_of_le_length h, List.append_assoc]

/-- A pass keeps the entries that cannot be served. -/
lemma filter_passBatch (l : List α) : (passBatch p k l).filter (!p ·) = l.filter (!p ·) := by
  unfold passBatch
  rw [List.filter_append, List.filter_filter]
  simp only [Bool.and_self]
  rw [← List.filter_append, List.take_append_drop]

lemma filter_iterate_passBatch (l : List α) (n : Nat) :
    ((passBatch p k)^[n] l).filter (!p ·) = l.filter (!p ·) := by
  induction n generalizing l with
  | zero => rfl
  | succ n ih => rw [Function.iterate_succ_apply, ih, filter_passBatch]

/-- Passes bring no entries. -/
lemma mem_of_mem_iterate_passBatch {n : Nat} {x : α} (h : x ∈ (passBatch p k)^[n] l) : x ∈ l := by
  induction n with
  | zero => exact h
  | succ n ih =>
    rw [Function.iterate_succ_apply', passBatch, List.mem_append] at h
    apply ih
    cases h with
    | inl h => exact List.mem_of_mem_take (List.mem_filter.mp h).1
    | inr h => exact List.mem_of_mem_drop h

/-- Entries behind `k` others that cannot be served are never reached. -/
lemma iterate_passBatch_append {pre : List α} (post : List α)
    (h : k ≤ (pre.filter (!p ·)).length) (n : Nat) :
    (passBatch p k)^[n] (pre ++ post) = (passBatch p k)^[n] pre ++ post := by
  induction n generalizing pre with
  | zero => rfl
  | succ n ih =>
    have hlen : k ≤ pre.length := Nat.le_trans h (List.length_filter_le _ _)
    rw [Function.iterate_succ_apply, Function.iterate_succ_apply, passBatch_append hlen]
    apply ih
    rwa [filter_passBatch]

/-- Each entry that can be served has fewer than `k` before it that cannot. -/
def Flows (p : α → Bool) (k : Nat) (l : List α) : Prop :=
  ∀ pre x post, l = pre ++ x :: post → p x → (pre.filter (!p ·)).length < k

/-- The first entry that can be served. -/
lemma exists_first (h : ∃ x ∈ l, p x) :
    ∃ pre x post, l = pre ++ x :: post ∧ p x ∧ ∀ y ∈ pre, p y = false := by
  induction l with
  | nil =>
    obtain ⟨x, hx, -⟩ := h
    exact absurd hx List.not_mem_nil
  | cons y l ih =>
    by_cases hy : p y
    · exact ⟨[], y, l, rfl, hy, fun _ h => absurd h List.not_mem_nil⟩
    · have hrest : ∃ x ∈ l, p x := by
        obtain ⟨x, hx, hpx⟩ := h
        cases List.mem_cons.mp hx with
        | inl heq => exact absurd (heq ▸ hpx) hy
        | inr hmem => exact ⟨x, hmem, hpx⟩
      obtain ⟨pre, x, post, rfl, hpx, hpre⟩ := ih hrest
      refine ⟨y :: pre, x, post, rfl, hpx, ?_⟩
      intro z hz
      cases List.mem_cons.mp hz with
      | inl heq => exact heq ▸ Bool.eq_false_iff.mpr hy
      | inr hmem => exact hpre z hmem

/-- A pass keeps the order in which the queue flows. -/
lemma Flows.passBatch (h : Flows p k l) : Flows p k (passBatch p k l) := by
  intro pre x post heq hx
  unfold Sarca.Lib.passBatch at heq
  rcases List.append_eq_append_iff.mp heq with ⟨mid, hpre, hdrop⟩ | ⟨mid, hfilter, hpost⟩
  · have hl : l = (l.take k ++ mid) ++ x :: post := by
      rw [List.append_assoc, ← hdrop, List.take_append_drop]
    have hlt := h _ x post hl hx
    rw [hpre, List.filter_append, List.filter_filter]
    simp only [Bool.and_self]
    rwa [List.filter_append] at hlt
  · cases mid with
    | nil =>
      have hl : l = l.take k ++ x :: post := by
        rw [List.nil_append] at hpost
        rw [hpost, List.take_append_drop]
      have hlt := h _ x post hl hx
      rw [List.append_nil] at hfilter
      rw [← hfilter, List.filter_filter]
      simpa only [Bool.and_self] using hlt
    | cons y mid =>
      obtain ⟨rfl, -⟩ := List.cons.inj hpost
      have hmem : x ∈ (l.take k).filter (!p ·) := by
        rw [hfilter]
        exact List.mem_append_right _ List.mem_cons_self
      have hserved := (List.mem_filter.mp hmem).2
      rw [hx] at hserved
      cases hserved

/-- A pass serves something as long as there is something to serve. -/
lemma Flows.countP_lt (h : Flows p k l) (hx : ∃ x ∈ l, p x) :
    (Sarca.Lib.passBatch p k l).countP p < l.countP p := by
  obtain ⟨pre, x, post, rfl, hpx, hpre⟩ := exists_first hx
  have hlt := h pre x post rfl hpx
  have hall : pre.filter (!p ·) = pre := by
    apply List.filter_eq_self.mpr
    intro y hy
    rw [hpre y hy]
    rfl
  rw [hall] at hlt
  have hin : x ∈ (pre ++ x :: post).take k := by
    rw [List.mem_take_iff_getElem]
    refine ⟨pre.length, ?_, ?_⟩
    · rw [List.length_append, List.length_cons]
      omega
    · simp
  have hzero : ((List.take k (pre ++ x :: post)).filter (!p ·)).countP p = 0 := by
    apply List.countP_eq_zero.mpr
    intro y hy hpy
    have := (List.mem_filter.mp hy).2
    rw [hpy] at this
    cases this
  have hpos : 0 < ((pre ++ x :: post).take k).countP p := List.countP_pos_iff.mpr ⟨x, hin, hpx⟩
  have hsplit : (pre ++ x :: post).countP p =
      ((pre ++ x :: post).take k).countP p + ((pre ++ x :: post).drop k).countP p := by
    rw [← List.countP_append, List.take_append_drop]
  rw [Sarca.Lib.passBatch, List.countP_append, hzero, hsplit]
  omega

/-- Passes serve every entry that can be served just when fewer than `k` entries that cannot stand before
    each of them. -/
theorem drains_iff : (∃ n, ∀ x ∈ (passBatch p k)^[n] l, ¬ p x) ↔ Flows p k l := by
  constructor
  · rintro ⟨n, hn⟩ pre x post rfl hx
    by_contra hle
    have heq := iterate_passBatch_append (x :: post) (Nat.not_lt.mp hle) n
    refine hn x ?_ hx
    rw [heq]
    exact List.mem_append_right _ List.mem_cons_self
  · intro h
    generalize hc : l.countP p = c
    induction c using Nat.strongRecOn generalizing l with
    | ind c ih =>
      by_cases hx : ∃ x ∈ l, p x
      · obtain ⟨n, hn⟩ := ih _ (hc ▸ h.countP_lt hx) h.passBatch rfl
        exact ⟨n + 1, hn⟩
      · exact ⟨0, fun x hmem hpx => hx ⟨x, hmem, hpx⟩⟩

end Sarca.Lib
