import Mathlib.Data.List.Nodup
import Mathlib.Data.List.Perm.Basic
import Mathlib.Logic.Relation

/-!
# Exploring with a stack

Nodes are taken off a stack, and what is found at one is pushed. Nothing is remembered of the nodes that were
there before, so a node is taken once just when each find is fresh (`once_visit_iff`). A stack over a forest,
where a node is found at one other node at most, comes to every node that the root leads to, and to each of them
once (`Explored.visit`, `Explored.mem_taken`).
-/

namespace Sarca.Lib

variable {α : Type*}

/-- The nodes that were taken, in this order, and the stack, its top first. -/
structure Worklist (α : Type*) where
  taken : List α
  stack : List α

namespace Worklist

def start (root : α) : Worklist α :=
  ⟨[], [root]⟩

/-- The top is taken, and what is found there is pushed one by one. -/
def visit (w : Worklist α) (found : List α) : Worklist α :=
  match w.stack with
  | [] => w
  | x :: rest => ⟨w.taken ++ [x], found.reverse ++ rest⟩

/-- No node is taken twice, nor waits to be. -/
def Once (w : Worklist α) : Prop :=
  (w.taken ++ w.stack).Nodup

/-- What is found is found once, and was not there before. -/
def Fresh (w : Worklist α) (found : List α) : Prop :=
  w.stack ≠ [] → found.Nodup ∧ ∀ y ∈ found, y ∉ w.taken ++ w.stack

variable {w : Worklist α} {found : List α}

lemma once_start (root : α) : (start root).Once :=
  List.nodup_singleton root

/-- All that a visit leaves is what was there and what is found. -/
lemma visit_perm {x : α} {rest : List α} (h : w.stack = x :: rest) :
    ((w.visit found).taken ++ (w.visit found).stack).Perm (found ++ (w.taken ++ w.stack)) := by
  unfold visit
  rw [h]
  dsimp only
  rw [List.append_cons w.taken x rest]
  calc (w.taken ++ [x]) ++ (found.reverse ++ rest)
      _ |>.Perm ((found.reverse ++ rest) ++ (w.taken ++ [x])) := List.perm_append_comm
      _ |>.Perm (found ++ (rest ++ (w.taken ++ [x]))) := by
        rw [List.append_assoc]
        exact (List.reverse_perm found).append_right _
      _ |>.Perm (found ++ (w.taken ++ [x] ++ rest)) := List.perm_append_comm.append_left found

/-- A node is taken once just when each find is fresh. -/
lemma once_visit_iff (h : w.Once) : (w.visit found).Once ↔ w.Fresh found := by
  unfold Fresh
  cases hstack : w.stack with
  | nil =>
    have hsame : w.visit found = w := by rw [visit, hstack]
    rw [hsame]
    exact iff_of_true h fun hne => absurd rfl hne
  | cons x rest =>
    rw [Once, (visit_perm hstack).nodup_iff, List.nodup_append, hstack]
    constructor
    · exact fun hall _ => ⟨hall.1, fun y hy hmem => hall.2.2 y hy y hmem rfl⟩
    · intro hfresh
      obtain ⟨hnodup, hnew⟩ := hfresh (List.cons_ne_nil x rest)
      exact ⟨hnodup, hstack ▸ h, fun y hy z hz heq => hnew y hy (heq ▸ hz)⟩

/-- As many nodes have been taken as there were visits, while the stack holds something. -/
lemma length_taken_visit {x : α} {rest : List α} (h : w.stack = x :: rest) :
    (w.visit found).taken.length = w.taken.length + 1 := by
  rw [visit, h, List.length_append]
  rfl

/-! ## Forests -/

/-- Each node is found at one node at most, there once, and the root nowhere. -/
structure Forest (children : α → List α) (root : α) : Prop where
  once : ∀ x, (children x).Nodup
  one : ∀ x x' y, y ∈ children x → y ∈ children x' → x = x'
  notFound : ∀ x, root ∉ children x

/-- The stack has come through a forest from its root. -/
structure Explored (children : α → List α) (root : α) (w : Worklist α) : Prop where
  once : w.Once
  hasRoot : root ∈ w.taken ++ w.stack
  closed : ∀ x ∈ w.taken, ∀ y ∈ children x, y ∈ w.taken ++ w.stack
  found : ∀ y ∈ w.taken ++ w.stack, y = root ∨ ∃ x ∈ w.taken, y ∈ children x

variable {children : α → List α} {root : α}

lemma explored_start : Explored children root (start root) where
  once := once_start root
  hasRoot := List.mem_singleton.mpr rfl
  closed _ hx := absurd hx List.not_mem_nil
  found _ hy := .inl (List.mem_singleton.mp hy)

/-- In a forest a find is fresh, and the stack goes on through it. -/
lemma Explored.visit (h : Explored children root w) (hforest : Forest children root)
    (hfound : ∀ x rest, w.stack = x :: rest → found.Perm (children x)) :
    w.Fresh found ∧ Explored children root (w.visit found) := by
  cases hstack : w.stack with
  | nil =>
    have hsame : w.visit found = w := by rw [Worklist.visit, hstack]
    rw [hsame]
    exact ⟨fun hne => absurd hstack hne, h⟩
  | cons x rest =>
    have hperm := hfound x rest hstack
    have hx : x ∉ w.taken := fun hmem => by
      have honce := h.once
      rw [Once, hstack] at honce
      exact (List.nodup_append.mp honce).2.2 x hmem x List.mem_cons_self rfl
    have hfresh : w.Fresh found := fun _ => by
      refine ⟨hperm.nodup_iff.mpr (hforest.once x), fun y hy hmem => ?_⟩
      have hchild := hperm.mem_iff.mp hy
      obtain rfl | ⟨x', hx', hy'⟩ := h.found y hmem
      · exact hforest.notFound x hchild
      · exact hx (hforest.one x x' y hchild hy' ▸ hx')
    have hmem : ∀ y, y ∈ (w.visit found).taken ++ (w.visit found).stack ↔
        y ∈ found ∨ y ∈ w.taken ++ w.stack := fun y => by
      rw [(visit_perm hstack).mem_iff, List.mem_append]
    have htaken : (w.visit found).taken = w.taken ++ [x] := by rw [Worklist.visit, hstack]
    refine ⟨hfresh, (once_visit_iff h.once).mpr hfresh, (hmem root).mpr (.inr h.hasRoot), ?_, ?_⟩
    · intro x' hx' y hy
      rw [htaken, List.mem_append, List.mem_singleton] at hx'
      obtain hx' | rfl := hx'
      · exact (hmem y).mpr (.inr (h.closed x' hx' y hy))
      · exact (hmem y).mpr (.inl (hperm.mem_iff.mpr hy))
    · intro y hy
      rw [htaken]
      obtain hy | hy := (hmem y).mp hy
      · exact .inr ⟨x, List.mem_append_right _ (List.mem_singleton.mpr rfl), hperm.mem_iff.mp hy⟩
      · obtain hroot | ⟨x', hx', hy'⟩ := h.found y hy
        · exact .inl hroot
        · exact .inr ⟨x', List.mem_append_left _ hx', hy'⟩

/-- Behind the last node, all that the root leads to has been taken. -/
lemma Explored.mem_taken (h : Explored children root w) (hdone : w.stack = []) {y : α}
    (hy : Relation.ReflTransGen (fun x y => y ∈ children x) root y) : y ∈ w.taken := by
  induction hy with
  | refl =>
    have hroot := h.hasRoot
    rw [hdone, List.append_nil] at hroot
    exact hroot
  | tail _ hchild ih =>
    have hclosed := h.closed _ ih _ hchild
    rw [hdone, List.append_nil] at hclosed
    exact hclosed

end Worklist

end Sarca.Lib
