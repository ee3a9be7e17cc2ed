import Mathlib.Data.List.Infix

/-!
# Lines that arrive in pieces

A reader keeps what has arrived of a line, cuts off the lines that are complete, each with its end, and keeps
the rest. What it reads does not depend on the pieces (`cutLines_append`), and of a text that is written in lines
it has read the first ones and holds the beginning of the next (`cutLines_prefix`).
-/

namespace Sarca.Lib

section Text

variable {α : Type*} (nl : α)

/-- A text of lines, each with its end. -/
def joinLines (lines : List (List α)) : List α :=
  lines.flatMap (· ++ [nl])

lemma joinLines_cons (line : List α) (lines : List (List α)) :
    joinLines nl (line :: lines) = line ++ nl :: joinLines nl lines := by
  rw [joinLines, List.flatMap_cons, List.append_assoc]
  rfl

lemma joinLines_append (lines more : List (List α)) :
    joinLines nl (lines ++ more) = joinLines nl lines ++ joinLines nl more :=
  List.flatMap_append

end Text

section Reader

variable {α : Type*} [DecidableEq α] (nl : α)

/-- The lines that are complete, and the rest; `line` is what the first line has so far. -/
def cutLines : List α → List α → List (List α) × List α
  | line, [] => ([], line)
  | line, x :: xs =>
    if x = nl then
      let (lines, rest) := cutLines [] xs
      ((line ++ [x]) :: lines, rest)
    else cutLines (line ++ [x]) xs

variable {nl} {line xs ys text : List α} {lines : List (List α)}

lemma cutLines_append (line xs ys : List α) :
    cutLines nl line (xs ++ ys) =
      ((cutLines nl line xs).1 ++ (cutLines nl (cutLines nl line xs).2 ys).1,
        (cutLines nl (cutLines nl line xs).2 ys).2) := by
  induction xs generalizing line with
  | nil => rfl
  | cons x xs ih =>
    rw [List.cons_append, cutLines, cutLines]
    by_cases hx : x = nl
    · rw [if_pos hx, if_pos hx, ih]
      rfl
    · rw [if_neg hx, if_neg hx, ih]

/-- Without an end nothing is complete. -/
lemma cutLines_open (h : nl ∉ xs) : cutLines nl line xs = ([], line ++ xs) := by
  induction xs generalizing line with
  | nil => rw [cutLines, List.append_nil]
  | cons x xs ih =>
    have hx : x ≠ nl := fun heq => h (heq ▸ List.mem_cons_self)
    rw [cutLines, if_neg hx, ih fun hmem => h (List.mem_cons_of_mem x hmem), List.append_assoc]
    rfl

/-- What is left has no end. -/
lemma cutLines_rest (h : nl ∉ line) : nl ∉ (cutLines nl line xs).2 := by
  induction xs generalizing line with
  | nil => exact h
  | cons x xs ih =>
    rw [cutLines]
    by_cases hx : x = nl
    · rw [if_pos hx]
      exact ih List.not_mem_nil
    · rw [if_neg hx]
      refine ih fun hmem => ?_
      cases List.mem_append.mp hmem with
      | inl hold => exact h hold
      | inr hnew => exact hx (List.mem_singleton.mp hnew).symm

/-- A line that is complete. -/
lemma cutLines_line (h : nl ∉ line) : cutLines nl [] (line ++ nl :: xs) =
    ((line ++ [nl]) :: (cutLines nl [] xs).1, (cutLines nl [] xs).2) := by
  rw [cutLines_append, cutLines_open h, List.nil_append, List.nil_append, cutLines, if_pos rfl]

/-- A whole text leaves nothing. -/
lemma cutLines_joinLines (hlines : ∀ line ∈ lines, nl ∉ line) :
    cutLines nl [] (joinLines nl lines) = (lines.map (· ++ [nl]), []) := by
  induction lines with
  | nil => rfl
  | cons line lines ih =>
    rw [joinLines_cons, cutLines_line (hlines line List.mem_cons_self),
      ih fun l hl => hlines l (List.mem_cons_of_mem line hl)]
    rfl

/-- Of a text of lines the first ones were read, and what is held is the beginning of the next. -/
theorem cutLines_prefix (hlines : ∀ line ∈ lines, nl ∉ line) (h : text <+: joinLines nl lines) :
    ∃ read unread, lines = read ++ unread ∧ (cutLines nl [] text).1 = read.map (· ++ [nl]) ∧
      (cutLines nl [] text).2 <+: unread.headD [] := by
  induction lines generalizing text with
  | nil =>
    have hnil : text = [] := List.prefix_nil.mp h
    subst hnil
    exact ⟨[], [], rfl, rfl, List.prefix_refl []⟩
  | cons line lines ih =>
    have hline := hlines line List.mem_cons_self
    rw [joinLines_cons, ← List.singleton_append, ← List.append_assoc] at h
    cases List.prefix_or_prefix_of_prefix h (List.prefix_append (line ++ [nl]) (joinLines nl lines)) with
    | inl hwithin =>
      -- the first line is not complete, unless the text ends with it
      by_cases hend : text = line ++ [nl]
      · subst hend
        refine ⟨[line], lines, rfl, ?_, ?_⟩
        · rw [cutLines_line hline]
          rfl
        · rw [cutLines_line hline]
          exact List.nil_prefix
      · have hopen : text <+: line := by
          obtain ⟨tail, htail⟩ := hwithin
          cases List.eq_nil_or_concat tail with
          | inl hnil =>
            rw [hnil, List.append_nil] at htail
            exact absurd htail hend
          | inr hlast =>
            obtain ⟨tail', last, rfl⟩ := hlast
            rw [List.concat_eq_append, ← List.append_assoc] at htail
            exact ⟨tail', (List.append_inj' htail rfl).1⟩
        refine ⟨[], line :: lines, rfl, ?_, ?_⟩
        · rw [cutLines_open fun hmem => hline (hopen.subset hmem)]
          rfl
        · rw [cutLines_open fun hmem => hline (hopen.subset hmem)]
          exact hopen
    | inr hbeyond =>
      obtain ⟨tail, rfl⟩ := hbeyond
      have htail : tail <+: joinLines nl lines := (List.prefix_append_right_inj _).mp h
      obtain ⟨read, unread, rfl, hread, hrest⟩ := ih (fun l hl => hlines l (List.mem_cons_of_mem line hl)) htail
      rw [List.append_assoc, List.singleton_append, cutLines_line hline]
      refine ⟨line :: read, unread, rfl, ?_, hrest⟩
      rw [hread]
      rfl

end Reader

end Sarca.Lib
