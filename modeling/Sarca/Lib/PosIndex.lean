import Mathlib.Data.List.AList
import Mathlib.Data.List.Induction
import Mathlib.Data.List.Nodup
import Mathlib.Data.List.Perm.Basic

/-!
# Lists with an index of positions

`swapRemove` takes an entry out of a list and puts the last one in its place. A table from keys to
positions `IsIndex` of a list when it is exactly the inverse of the list's keys; then no key occurs twice.
The table follows a removal by one erasure and at most one insertion (`IsIndex.swapRemove`), a new last
entry by one insertion (`IsIndex.push`), and `indexBy` builds it anew (`indexBy_isIndex`).
-/

namespace Sarca.Lib

variable {α κ : Type*} {f : α → κ} {l : List α} {pos : Nat} {x : α}

/-- The list without the entry at a position, the last entry moved there (Rust `Vec::swap_remove`). -/
def swapRemove (l : List α) (pos : Nat) : List α :=
  match l.getLast? with
  | none => l
  | some last => (l.set pos last).dropLast

lemma swapRemove_concat (l : List α) (last : α) (pos : Nat) :
    swapRemove (l ++ [last]) pos = ((l ++ [last]).set pos last).dropLast := by
  simp [swapRemove]

lemma swapRemove_last (l : List α) (last : α) : swapRemove (l ++ [last]) l.length = l := by
  rw [swapRemove_concat, List.set_append_right _ _ (Nat.le_refl _)]
  simp

lemma swapRemove_lt (last : α) (h : pos < l.length) :
    swapRemove (l ++ [last]) pos = l.set pos last := by
  rw [swapRemove_concat, List.set_append_left _ _ h, List.dropLast_concat]

/-- Where an entry of a list is: at the end, or before it. -/
lemma getElem?_cases (h : l[pos]? = some x) :
    ∃ init last, l = init ++ [last] ∧
      ((pos = init.length ∧ x = last) ∨ (pos < init.length ∧ init[pos]? = some x)) := by
  rcases List.eq_nil_or_concat l with rfl | ⟨init, last, rfl⟩
  · cases h
  · refine ⟨init, last, List.concat_eq_append, ?_⟩
    rw [List.concat_eq_append] at h
    have hlt := (List.getElem?_eq_some_iff.mp h).1
    rw [List.length_append, List.length_singleton] at hlt
    rcases Nat.lt_succ_iff_lt_or_eq.mp hlt with hpos | rfl
    · exact .inr ⟨hpos, by rwa [List.getElem?_append_left hpos] at h⟩
    · refine .inl ⟨rfl, ?_⟩
      rw [List.getElem?_concat_length] at h
      exact (Option.some.inj h).symm

lemma set_perm (y : α) (h : l[pos]? = some x) : (x :: l.set pos y).Perm (y :: l) := by
  obtain ⟨hlt, rfl⟩ := List.getElem?_eq_some_iff.mp h
  induction l generalizing pos with
  | nil => cases hlt
  | cons a l ih =>
    cases pos with
    | zero => exact List.Perm.swap y a l
    | succ pos =>
      have hlt' : pos < l.length := Nat.lt_of_succ_lt_succ hlt
      have hrest := ih hlt' (List.getElem?_eq_getElem hlt')
      exact (List.Perm.swap a _ _).trans ((hrest.cons a).trans (List.Perm.swap y a l))

/-- The entry and what its removal leaves are the list. -/
lemma swapRemove_perm (h : l[pos]? = some x) : (x :: swapRemove l pos).Perm l := by
  obtain ⟨init, last, rfl, ⟨rfl, rfl⟩ | ⟨hlt, hx⟩⟩ := getElem?_cases h
  · rw [swapRemove_last]
    exact (List.perm_append_singleton x init).symm
  · rw [swapRemove_lt last hlt]
    exact (set_perm last hx).trans (List.perm_append_singleton last init).symm

section Index

variable [DecidableEq κ] {m : AList fun _ : κ => Nat}

/-- The table says of each key where the entry with it is, and of no other key anything. -/
def IsIndex (f : α → κ) (l : List α) (m : AList fun _ : κ => Nat) : Prop :=
  ∀ key pos, m.lookup key = some pos ↔ ∃ x, l[pos]? = some x ∧ f x = key

lemma IsIndex.nil (f : α → κ) : IsIndex f [] ∅ := by
  intro key pos
  simp

lemma IsIndex.lookup (h : IsIndex f l m) (hx : l[pos]? = some x) : m.lookup (f x) = some pos :=
  (h _ _).mpr ⟨x, hx, rfl⟩

/-- Entries with one key are at one position. -/
lemma IsIndex.inj (h : IsIndex f l m) {pos' : Nat} {y : α} (hx : l[pos]? = some x)
    (hy : l[pos']? = some y) (hkey : f x = f y) : pos = pos' := by
  have hpos := h.lookup hx
  rw [hkey, h.lookup hy] at hpos
  exact (Option.some.inj hpos).symm

/-- A list with an index has distinct keys. -/
lemma IsIndex.nodup (h : IsIndex f l m) : (l.map f).Nodup := by
  rw [List.nodup_iff_getElem?_ne_getElem?]
  intro i j hij hj heq
  rw [List.length_map] at hj
  have hi := Nat.lt_trans hij hj
  rw [List.getElem?_map, List.getElem?_map, List.getElem?_eq_getElem hi,
    List.getElem?_eq_getElem hj] at heq
  have := h.inj (List.getElem?_eq_getElem hi) (List.getElem?_eq_getElem hj) (Option.some.inj heq)
  omega

/-- A key of no entry is not in the table. -/
lemma IsIndex.lookup_none {key : κ} (h : IsIndex f l m) (hkey : ∀ x ∈ l, f x ≠ key) :
    m.lookup key = none := by
  cases hpos : m.lookup key with
  | none => rfl
  | some pos =>
    obtain ⟨x, hx, hfx⟩ := (h key pos).mp hpos
    exact absurd hfx (hkey x (List.mem_of_getElem? hx))

lemma IsIndex.not_mem {key : κ} (h : IsIndex f l m) (hkey : m.lookup key = none) :
    ∀ x ∈ l, f x ≠ key := by
  rintro x hx rfl
  obtain ⟨pos, hpos⟩ := List.mem_iff_getElem?.mp hx
  rw [h.lookup hpos] at hkey
  cases hkey

/-- A new last entry with a key of its own. -/
lemma IsIndex.push (h : IsIndex f l m) (hkey : ∀ y ∈ l, f y ≠ f x) :
    IsIndex f (l ++ [x]) (m.insert (f x) l.length) := by
  intro key pos
  by_cases hk : key = f x
  · subst hk
    rw [AList.lookup_insert]
    constructor
    · rintro ⟨⟩
      exact ⟨x, List.getElem?_concat_length, rfl⟩
    · rintro ⟨y, hy, hfy⟩
      rw [List.getElem?_append] at hy
      split at hy
      · exact absurd hfy (hkey y (List.mem_of_getElem? hy))
      · have := (List.getElem?_eq_some_iff.mp hy).1
        simp only [List.length_singleton] at this
        rw [Option.some.injEq]
        omega
  · rw [AList.lookup_insert_ne hk, h key pos]
    constructor
    · rintro ⟨y, hy, hfy⟩
      exact ⟨y, by rw [List.getElem?_append_left (List.getElem?_eq_some_iff.mp hy).1, hy], hfy⟩
    · rintro ⟨y, hy, hfy⟩
      rw [List.getElem?_append] at hy
      split at hy
      · exact ⟨y, hy, hfy⟩
      · obtain rfl : x = y := List.mem_singleton.mp (List.mem_of_getElem? hy) ▸ rfl
        exact absurd hfy.symm hk

/-- The table without the last entry. -/
lemma IsIndex.pop {last : α} (h : IsIndex f (l ++ [last]) m) : IsIndex f l (m.erase (f last)) := by
  intro key pos
  have hlast : (l ++ [last])[l.length]? = some last := List.getElem?_concat_length
  constructor
  · intro hpos
    have hk : key ≠ f last := by
      rintro rfl
      rw [AList.lookup_erase] at hpos
      cases hpos
    rw [AList.lookup_erase_ne hk, h key pos] at hpos
    obtain ⟨x, hx, rfl⟩ := hpos
    rw [List.getElem?_append] at hx
    split at hx
    · exact ⟨x, hx, rfl⟩
    · exact absurd (List.mem_singleton.mp (List.mem_of_getElem? hx) ▸ rfl) hk
  · rintro ⟨x, hx, rfl⟩
    have hlt := (List.getElem?_eq_some_iff.mp hx).1
    have hx' : (l ++ [last])[pos]? = some x := by rw [List.getElem?_append_left hlt, hx]
    have hk : f x ≠ f last := fun hkey => absurd (h.inj hx' hlast hkey) (Nat.ne_of_lt hlt)
    rw [AList.lookup_erase_ne hk, h.lookup hx']

/-- Another entry at a position, with a key of its own. -/
lemma IsIndex.set {y : α} (h : IsIndex f l m) (hx : l[pos]? = some x) (hkey : ∀ z ∈ l, f z ≠ f y) :
    IsIndex f (l.set pos y) ((m.erase (f x)).insert (f y) pos) := by
  have hlt := (List.getElem?_eq_some_iff.mp hx).1
  intro key i
  by_cases hi : pos = i
  · subst hi
    constructor
    · intro hkeyi
      refine ⟨y, List.getElem?_set_self hlt, ?_⟩
      by_contra hne
      rw [AList.lookup_insert_ne (Ne.symm hne)] at hkeyi
      by_cases hk : key = f x
      · rw [hk, AList.lookup_erase] at hkeyi
        cases hkeyi
      · rw [AList.lookup_erase_ne hk, h key pos] at hkeyi
        obtain ⟨z, hz, hfz⟩ := hkeyi
        rw [hx] at hz
        cases hz
        exact hk hfz.symm
    · rintro ⟨z, hz, rfl⟩
      rw [List.getElem?_set_self hlt] at hz
      cases hz
      rw [AList.lookup_insert]
  · rw [List.getElem?_set_ne hi]
    by_cases hk : key = f y
    · subst hk
      rw [AList.lookup_insert]
      constructor
      · rintro ⟨⟩
        exact absurd rfl hi
      · rintro ⟨z, hz, hfz⟩
        exact absurd hfz (hkey z (List.mem_of_getElem? hz))
    · rw [AList.lookup_insert_ne hk]
      by_cases hkx : key = f x
      · subst hkx
        rw [AList.lookup_erase]
        constructor
        · rintro ⟨⟩
        · rintro ⟨z, hz, hfz⟩
          exact absurd (h.inj hx hz hfz.symm) hi
      · rw [AList.lookup_erase_ne hkx]
        exact h key i

/-- The table after a removal: the key goes, and the entry that was moved there is noted. -/
def patchIndex (f : α → κ) (m : AList fun _ : κ => Nat) (removed : α) (rest : List α) (pos : Nat) :
    AList fun _ : κ => Nat :=
  match rest[pos]? with
  | none => m.erase (f removed)
  | some moved => (m.erase (f removed)).insert (f moved) pos

/-- A removal by swap keeps the table the inverse of the list. -/
theorem IsIndex.swapRemove (h : IsIndex f l m) (hx : l[pos]? = some x) :
    IsIndex f (swapRemove l pos) (patchIndex f m x (swapRemove l pos) pos) := by
  obtain ⟨init, last, rfl, ⟨rfl, rfl⟩ | ⟨hlt, hx'⟩⟩ := getElem?_cases hx
  · rw [swapRemove_last, patchIndex, List.getElem?_eq_none (Nat.le_refl _)]
    exact h.pop
  · rw [swapRemove_lt last hlt, patchIndex, List.getElem?_set_self hlt]
    have hlast : (init ++ [last])[init.length]? = some last := List.getElem?_concat_length
    have hkey : ∀ z ∈ init, f z ≠ f last := by
      intro z hz hfz
      obtain ⟨i, hi⟩ := List.mem_iff_getElem?.mp hz
      have hilt := (List.getElem?_eq_some_iff.mp hi).1
      have hi' : (init ++ [last])[i]? = some z := by rw [List.getElem?_append_left hilt, hi]
      exact absurd (h.inj hi' hlast hfz) (Nat.ne_of_lt hilt)
    have hne : f x ≠ f last := hkey x (List.mem_of_getElem? hx')
    have hset := h.pop.set hx' hkey
    -- the key of the last entry is overwritten, so that its erasure does not show
    intro key i
    rw [← hset key i]
    by_cases hk : key = f last
    · rw [hk, AList.lookup_insert, AList.lookup_insert]
    · rw [AList.lookup_insert_ne hk, AList.lookup_insert_ne hk]
      by_cases hkx : key = f x
      · rw [hkx, AList.lookup_erase, AList.lookup_erase]
      · rw [AList.lookup_erase_ne hkx, AList.lookup_erase_ne hkx, AList.lookup_erase_ne hk]

/-- The table of a list, built entry by entry. -/
def indexBy (f : α → κ) (l : List α) : AList fun _ : κ => Nat :=
  l.zipIdx.foldl (fun m entry => m.insert (f entry.1) entry.2) ∅

/-- A list whose keys are distinct has its table. -/
theorem indexBy_isIndex (h : (l.map f).Nodup) : IsIndex f l (indexBy f l) := by
  induction l using List.reverseRecOn with
  | nil => exact IsIndex.nil f
  | append_singleton l x ih =>
    have hstep : indexBy f (l ++ [x]) = (indexBy f l).insert (f x) l.length := by
      rw [indexBy, List.zipIdx_append, List.foldl_append]
      simp [indexBy]
    rw [List.map_append, List.nodup_append] at h
    rw [hstep]
    apply (ih h.1).push
    intro y hy
    exact h.2.2 _ (List.mem_map_of_mem hy) _ (by simp)

end Index

end Sarca.Lib
