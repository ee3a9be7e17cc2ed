import Sarca.Lib.Like
import Sarca.Server.Resume
import Sarca.Server.SqlPrefix

/-!
# Files under a free name

`create_file_anyway` puts a file beside the one that has its path: it lists the live siblings `stem (n)suffix`
with a statement, keeps those that are of this form, takes the numbers out of them and inserts the file under
the first number that is free (`pick_duplicate_path`). Paths are cut between bytes, and a slice that is out of
bounds or cuts a character panics: here it is `none`, and `anywayPath?_eq` says that there is none.

`firstGap` passes over the sorted numbers and takes a number that stands there twice for a gap, as it does
when `a (1)` and `a (01)` are both there. `freshName_iff` says when the name is free.
-/

namespace Sarca.Server
open Sarca.Lib

/-! ## The statement and the slices -/

/-- `Iterator::filter_map` with a closure that may panic, then `collect`. -/
def collect {α β : Type*} (f : α → Option (Option β)) : List α → Option (List β)
  | [] => some []
  | x :: l => do
    let y ← f x
    let ys ← collect f l
    pure (y.toList ++ ys)

/-- What `filter` keeps of the candidates: the path itself, and `stem (n)suffix`. -/
def keepDuplicate (stem suffix path : Path) : Option (Option Path) :=
  if path = stem ++ suffix then some (some path)
  else if ¬(stem <+: path ∧ suffix <:+ path) then some none
  else do
    let middle ← sliceBytes path (byteLen stem) (byteLen path - byteLen suffix)
    if " (".toList <+: middle ∧ [')'] <:+ middle then
      let digits ← sliceBytes middle 2 (byteLen middle - 1)
      pure (if digits.all Char.isDigit ∧ digits ≠ [] then some path else none)
    else pure none

/-- The number that `pick_duplicate_path` reads out of a path. -/
def duplicateIndex (stem suffix path : Path) : Option (Option Nat) :=
  let numberStart := byteLen stem + 2
  if byteLen path ≤ numberStart + byteLen suffix + 1 then some none
  else do
    let digits ← sliceBytes path numberStart (byteLen path - byteLen suffix - 1)
    pure (parseIndex digits)

/-- Rust `pick_duplicate_path`, where a slice may panic. -/
def pickDuplicatePath? (stem suffix : Path) (existing : List Path) : Option Path :=
  let base := stem ++ suffix
  if !existing.any (· = base) then some base
  else if existing.length = 1 then some (numbered stem suffix 1)
  else do
    let indices ← collect (duplicateIndex stem suffix) (existing.filter (· ≠ base))
    pure (numbered stem suffix (firstGap 0 (indices.insertionSort (· ≤ ·))))

namespace Db

/-- The live paths that `SELECT path … AND (path = $2 || $3 OR path LIKE $2 || ' (%)' || $3)` answers. -/
def duplicateCandidates (db : Db) (storageId : Uuid) (stem suffix : Path) : List Path :=
  (db.files.filter fun r => r.storageId = storageId ∧ r.Live ∧ startsWith r.path stem = true ∧
    (r.path = stem ++ suffix ∨ like (stem ++ " (%)".toList ++ suffix) r.path = true)).map (·.path)

/-- The path at which an attempt of `create_file_anyway` inserts the file, where a slice may panic. -/
def anywayPath? (db : Db) (storageId : Uuid) (path : Path) : Option Path := do
  let (stem, suffix) := stemAndSuffix path
  let existing ← collect (keepDuplicate stem suffix) (db.duplicateCandidates storageId stem suffix)
  pickDuplicatePath? stem suffix existing

end Db

lemma collect_eq {α β : Type*} {f : α → Option (Option β)} {g : α → Option β} {l : List α}
    (h : ∀ x ∈ l, f x = some (g x)) : collect f l = some (l.filterMap g) := by
  induction l with
  | nil => rfl
  | cons x l ih =>
    rw [List.forall_mem_cons] at h
    rw [collect, h.1, ih h.2]
    cases hx : g x <;> simp [hx]

lemma byteLen_eq (p : Path) : byteLen p = (utf8 p).length := by
  induction p with
  | nil => rfl
  | cons c p ih => rw [byteLen_cons, length_utf8_cons, ih]

lemma byteLen_append (p q : Path) : byteLen (p ++ q) = byteLen p + byteLen q := by
  simp [byteLen_eq]

lemma slice_middle (before middle after : Path) :
    sliceBytes (before ++ middle ++ after) (byteLen before) (byteLen before + byteLen middle) =
      some middle := by
  rw [byteLen_eq, byteLen_eq]
  exact sliceBytes_append before middle after

/-! ## What is in a path -/

/-- A path that is divided before the first dot of its name. -/
structure Divided (stem suffix : Path) : Prop where
  dot : suffix = [] ∨ ∃ rest, suffix = '.' :: rest
  plain : '/' ∉ suffix
  name : ∀ before after, stem = before ++ '.' :: after → '/' ∈ after

lemma divided_stemAndSuffix (path : Path) :
    (stemAndSuffix path).1 ++ (stemAndSuffix path).2 = path ∧
      Divided (stemAndSuffix path).1 (stemAndSuffix path).2 := by
  -- the name is divided at its first dot
  have hname (name : Path) (hplain : '/' ∉ name) :
      (name.dropWhile (· ≠ '.') = [] ∨ ∃ rest, name.dropWhile (· ≠ '.') = '.' :: rest) ∧
        '/' ∉ name.dropWhile (· ≠ '.') ∧ '.' ∉ name.takeWhile (· ≠ '.') := by
    refine ⟨?_, fun hmem => hplain ((List.dropWhile_suffix _).subset hmem), fun hmem => ?_⟩
    · cases hrest : name.dropWhile (· ≠ '.') with
      | nil => exact .inl rfl
      | cons c rest =>
        have hdot := List.head?_dropWhile_not (· ≠ '.') name
        rw [hrest] at hdot
        exact .inr ⟨rest, by rw [not_not.mp (of_decide_eq_false hdot)]⟩
    · have := List.mem_takeWhile_imp hmem
      simp at this
  unfold stemAndSuffix
  cases hsplit : rsplitOnce '/' path with
  | none =>
    obtain ⟨hdot, hplain, hstem⟩ := hname path (rsplitOnce_none hsplit)
    dsimp only
    refine ⟨List.takeWhile_append_dropWhile, hdot, hplain, fun before after heq => ?_⟩
    exact absurd (heq ▸ List.mem_append_right before List.mem_cons_self) hstem
  | some parts =>
    obtain ⟨folder, name⟩ := parts
    obtain ⟨rfl, hslash⟩ := rsplitOnce_some hsplit
    obtain ⟨hdot, hplain, hstem⟩ := hname name hslash
    refine ⟨?_, hdot, hplain, fun before after heq => ?_⟩
    · simp only [List.append_assoc, List.cons_append, List.takeWhile_append_dropWhile]
    · -- a dot of the stem is in its folder
      obtain ⟨c, hbefore, hafter⟩ | ⟨c, hfolder, hafter⟩ := List.append_eq_append_iff.mp heq
      · cases c with
        | nil => cases hafter
        | cons d c =>
          obtain ⟨rfl, hrest⟩ := List.cons_eq_cons.mp hafter
          exact absurd (hrest ▸ List.mem_append_right c List.mem_cons_self) hstem
      · cases c with
        | nil => cases hafter
        | cons d c =>
          obtain ⟨-, rfl⟩ := List.cons_eq_cons.mp hafter
          exact List.mem_append_right c List.mem_cons_self

variable {stem suffix path : Path}

lemma Divided.exists_middle (h : Divided stem suffix) (hstem : stem <+: path) (hsuffix : suffix <:+ path) :
    ∃ middle, path = stem ++ middle ++ suffix := by
  obtain ⟨after, hafter⟩ := hstem
  obtain ⟨before, hbefore⟩ := hsuffix
  obtain ⟨c, -, hc⟩ | ⟨c, hc, hsuffix⟩ := List.append_eq_append_iff.mp (hafter.trans hbefore.symm)
  · exact ⟨c, by rw [← hafter, hc, List.append_assoc]⟩
  · cases c with
    | nil => exact ⟨[], by rw [← hafter, hsuffix]; simp⟩
    | cons d c =>
      -- the dot of the suffix would be in the name
      obtain hnone | ⟨rest, hdot⟩ := h.dot
      · rw [hnone] at hsuffix
        cases hsuffix
      · obtain ⟨rfl, hrest⟩ := List.cons_eq_cons.mp (hdot.symm.trans hsuffix)
        have hslash := h.name before c hc
        refine absurd ?_ h.plain
        rw [hdot, hrest]
        exact List.mem_cons_of_mem _ (List.mem_append_left _ hslash)

lemma duplicateDigits_eq_some_iff {digits : Path} :
    duplicateDigits stem suffix path = some digits ↔
      path = stem ++ " (".toList ++ digits ++ ')' :: suffix ∧ digits ≠ [] ∧ digits.all Char.isDigit = true := by
  unfold duplicateDigits
  dsimp only
  constructor
  · intro h
    split at h
    · case isTrue hform =>
      cases h
      exact hform
    · cases h
  · rintro ⟨rfl, hne, hdigits⟩
    have hcut : ((stem ++ " (".toList ++ digits ++ ')' :: suffix).drop (stem ++ " (".toList).length).take
        ((stem ++ " (".toList ++ digits ++ ')' :: suffix).length - (stem ++ " (".toList).length -
          (')' :: suffix).length) = digits := by
      rw [List.append_assoc, List.drop_left, List.length_append, List.length_append,
        Nat.add_sub_cancel_left, List.length_append, Nat.add_sub_cancel, List.take_left]
    rw [hcut, if_pos ⟨rfl, hne, hdigits⟩]

lemma exists_bracketed {middle : Path} (hopens : " (".toList <+: middle) (hcloses : [')'] <:+ middle) :
    ∃ digits, middle = " (".toList ++ digits ++ [')'] := by
  obtain ⟨after, rfl⟩ := hopens
  obtain ⟨before, hbefore⟩ := hcloses
  obtain rfl | ⟨digits, last, rfl⟩ := List.eq_nil_or_concat after
  · exact absurd (congrArg List.getLast? hbefore) (by simp)
  · have hlast := congrArg List.getLast? hbefore
    simp only [List.getLast?_append, List.getLast?_singleton, Option.some_or, List.concat_eq_append] at hlast
    cases hlast
    exact ⟨digits, by simp⟩

/-- What is kept of the candidates. -/
lemma Divided.keepDuplicate (h : Divided stem suffix) :
    keepDuplicate stem suffix path =
      some (if path = stem ++ suffix ∨ (duplicateDigits stem suffix path).isSome then some path else none) := by
  unfold Sarca.Server.keepDuplicate
  by_cases hbase : path = stem ++ suffix
  · rw [if_pos hbase, if_pos (.inl hbase)]
  · rw [if_neg hbase]
    by_cases hends : stem <+: path ∧ suffix <:+ path
    · rw [if_neg (not_not.mpr hends)]
      obtain ⟨middle, rfl⟩ := h.exists_middle hends.1 hends.2
      have hlen : byteLen (stem ++ middle ++ suffix) - byteLen suffix = byteLen stem + byteLen middle := by
        rw [byteLen_append, byteLen_append, Nat.add_sub_cancel]
      rw [hlen, slice_middle]
      have hsome : stem ++ middle ++ suffix = stem ++ suffix ∨
          (duplicateDigits stem suffix (stem ++ middle ++ suffix)).isSome = true ↔
          ∃ digits, middle = " (".toList ++ digits ++ [')'] ∧ digits.all Char.isDigit = true ∧ digits ≠ [] := by
        rw [or_iff_right hbase, Option.isSome_iff_exists]
        refine exists_congr fun digits => ?_
        rw [duplicateDigits_eq_some_iff, and_comm (b := _ = true)]
        refine and_congr_left' ?_
        rw [show stem ++ " (".toList ++ digits ++ ')' :: suffix =
          stem ++ (" (".toList ++ digits ++ [')']) ++ suffix from by simp]
        rw [List.append_left_inj, List.append_right_inj]
      by_cases hmarked : " (".toList <+: middle ∧ [')'] <:+ middle
      · obtain ⟨digits, rfl⟩ := exists_bracketed hmarked.1 hmarked.2
        have hcut : byteLen (" (".toList ++ digits ++ [')']) - 1 = byteLen " (".toList + byteLen digits := by
          rw [byteLen_append, byteLen_append]
          rfl
        have hdigits := slice_middle " (".toList digits [')']
        simp only [Option.bind_eq_bind, Option.bind_some, if_pos hmarked, hcut]
        rw [show (2 : Nat) = byteLen " (".toList from rfl, hdigits, Option.bind_some]
        have hinj : (∃ digits', " (".toList ++ digits ++ [')'] = " (".toList ++ digits' ++ [')'] ∧
            digits'.all Char.isDigit = true ∧ digits' ≠ []) ↔ digits.all Char.isDigit = true ∧ digits ≠ [] := by
          simp only [List.append_left_inj, List.append_right_inj, exists_eq_left']
        rw [if_congr (hsome.trans hinj) rfl rfl]
        rfl
      · rw [if_neg]
        · simp only [Option.bind_eq_bind, Option.bind_some, if_neg hmarked]
          rfl
        · rw [hsome]
          rintro ⟨digits, rfl, -⟩
          exact hmarked ⟨⟨_, (List.append_assoc _ _ _).symm⟩, ⟨_, rfl⟩⟩
    · rw [if_pos hends, if_neg]
      rintro (hpath | hsome)
      · exact hbase hpath
      · obtain ⟨digits, hdigits⟩ := Option.isSome_iff_exists.mp hsome
        obtain ⟨rfl, -⟩ := duplicateDigits_eq_some_iff.mp hdigits
        refine hends ⟨⟨" (".toList ++ digits ++ ')' :: suffix, by simp⟩, ?_⟩
        exact ⟨stem ++ " (".toList ++ digits ++ [')'], by simp⟩

lemma duplicateIndex_eq {digits : Path} (h : duplicateDigits stem suffix path = some digits) :
    duplicateIndex stem suffix path = some (parseIndex digits) := by
  obtain ⟨rfl, hne, -⟩ := duplicateDigits_eq_some_iff.mp h
  have hlen : byteLen (stem ++ " (".toList ++ digits ++ ')' :: suffix) =
      byteLen stem + 2 + byteLen digits + 1 + byteLen suffix := by
    have hbrackets : byteLen " (".toList = 2 ∧ (')' : Char).utf8Size = 1 := ⟨rfl, rfl⟩
    rw [byteLen_append, byteLen_append, byteLen_append, byteLen_cons]
    omega
  have hpos : 0 < byteLen digits := Nat.lt_of_lt_of_le (List.length_pos_iff.mpr hne) (length_le_byteLen digits)
  have hbefore : byteLen stem + 2 = byteLen (stem ++ " (".toList) := by
    rw [byteLen_append]
    rfl
  unfold duplicateIndex
  dsimp only
  rw [if_neg (by omega), hlen]
  have hstop : byteLen stem + 2 + byteLen digits + 1 + byteLen suffix - byteLen suffix - 1 =
      byteLen (stem ++ " (".toList) + byteLen digits := by omega
  rw [hstop, hbefore, slice_middle]
  rfl

/-! ## No slice panics -/

variable {db : Db} {storageId : Uuid}

def siblingNumber (stem suffix path : Path) : Option Nat :=
  (duplicateDigits stem suffix path).bind parseIndex

lemma siblingNumber_base : siblingNumber stem suffix (stem ++ suffix) = none := by
  unfold siblingNumber
  cases h : duplicateDigits stem suffix (stem ++ suffix) with
  | none => rfl
  | some digits =>
    have hlen := congrArg List.length (duplicateDigits_eq_some_iff.mp h).1
    simp only [List.length_append, List.length_cons] at hlen
    omega

lemma Divided.selected (h : Divided stem suffix)
    (hform : path = stem ++ suffix ∨ (duplicateDigits stem suffix path).isSome) :
    startsWith path stem = true ∧
      (path = stem ++ suffix ∨ like (stem ++ " (%)".toList ++ suffix) path = true) := by
  obtain rfl | hsome := hform
  · refine ⟨(startsWith_append stem suffix).mpr ?_, .inl rfl⟩
    obtain hnone | ⟨rest, hdot⟩ := h.dot
    · simp [hnone]
    · rw [hdot]
      simp only [List.head?_cons, ne_eq, Option.some.injEq]
      decide
  · obtain ⟨digits, hdigits⟩ := Option.isSome_iff_exists.mp hsome
    obtain ⟨rfl, -⟩ := duplicateDigits_eq_some_iff.mp hdigits
    constructor
    · rw [List.append_assoc, List.append_assoc, startsWith_append]
      show some ' ' ≠ some maxChar
      decide
    · right
      have hbetween : like (" (".toList ++ ['%'] ++ [')']) (" (".toList ++ digits ++ [')']) = true :=
        like_append (like_append (like_self _) (like_percent digits)) (like_self _)
      have hwhole := like_append (like_append (like_self stem) hbetween) (like_self suffix)
      rwa [show stem ++ " (".toList ++ digits ++ ')' :: suffix =
        stem ++ (" (".toList ++ digits ++ [')']) ++ suffix from by simp]

lemma Divided.collect_keep (h : Divided stem suffix) :
    collect (Sarca.Server.keepDuplicate stem suffix) (db.duplicateCandidates storageId stem suffix) =
      some (((db.files.filter fun r => r.storageId = storageId ∧ r.Live).map (·.path)).filter fun candidate =>
        candidate = stem ++ suffix ∨ (duplicateDigits stem suffix candidate).isSome) := by
  rw [collect_eq fun path _ => h.keepDuplicate, Db.duplicateCandidates, Option.some.injEq]
  have hguard : (fun path => if path = stem ++ suffix ∨ (duplicateDigits stem suffix path).isSome = true
      then some path else none) = Option.guard fun candidate : Path =>
        decide (candidate = stem ++ suffix ∨ (duplicateDigits stem suffix candidate).isSome = true) := by
    funext path
    simp [Option.guard]
  rw [hguard, List.filterMap_eq_filter, List.filter_map, List.filter_map, List.filter_filter,
    List.filter_filter]
  refine congrArg _ (List.filter_congr fun r _ => ?_)
  rw [Bool.eq_iff_iff]
  simp only [Function.comp_apply, Bool.and_eq_true, decide_eq_true_eq]
  have hselected := @h.selected stem suffix r.path
  tauto

lemma pickDuplicatePath?_eq {existing : List Path}
    (hform : ∀ path ∈ existing, path = stem ++ suffix ∨ (duplicateDigits stem suffix path).isSome) :
    pickDuplicatePath? stem suffix existing = some (pickDuplicatePath stem suffix existing) := by
  have hread : ∀ path ∈ existing.filter (· ≠ stem ++ suffix),
      duplicateIndex stem suffix path = some (siblingNumber stem suffix path) := by
    intro path hpath
    obtain ⟨hmem, hne⟩ := List.mem_filter.mp hpath
    have hsome := (hform path hmem).resolve_left (of_decide_eq_true hne)
    obtain ⟨digits, hdigits⟩ := Option.isSome_iff_exists.mp hsome
    rw [duplicateIndex_eq hdigits, siblingNumber, hdigits]
    rfl
  have hany : (!existing.any (· = stem ++ suffix)) = true ↔ stem ++ suffix ∉ existing := by
    rw [Bool.not_eq_true', List.any_eq_false]
    constructor
    · exact fun h hmem => h _ hmem (decide_eq_true rfl)
    · exact fun h path hpath heq => h (of_decide_eq_true heq ▸ hpath)
  unfold pickDuplicatePath? pickDuplicatePath
  simp only [hany]
  split
  · rfl
  · split
    · rfl
    · rw [collect_eq hread]
      rfl

lemma anywayPath?_eq (path : Path) : db.anywayPath? storageId path = some (db.anywayPath storageId path) := by
  obtain ⟨-, h⟩ := divided_stemAndSuffix path
  unfold Db.anywayPath? Db.anywayPath
  dsimp only
  rw [h.collect_keep, Option.bind_eq_bind, Option.bind_some]
  exact pickDuplicatePath?_eq fun path hpath => of_decide_eq_true (List.mem_filter.mp hpath).2

/-! ## The first gap -/

/-- The numbers up to `n` are all there, and those before it once each. -/
structure Counted (numbers : List Nat) (n : Nat) : Prop where
  taken : ∀ m, 0 < m → m ≤ n → m ∈ numbers
  once : ∀ m < n, numbers.count m ≤ 1

/-- The scan stops where the next number is missing, or where one stands twice. -/
def Stops (numbers : List Nat) (n : Nat) : Prop :=
  n + 1 ∉ numbers ∨ 2 ≤ numbers.count n

lemma firstGap_scan {numbers : List Nat} {prev : Nat} (hsorted : numbers.Pairwise (· ≤ ·))
    (hprev : ∀ m ∈ numbers, prev ≤ m) :
    ∃ n, firstGap prev numbers = n + 1 ∧ prev ≤ n ∧ (∀ m, prev < m → m ≤ n → m ∈ numbers) ∧
      (∀ m, prev < m → m < n → numbers.count m ≤ 1) ∧ (prev < n → prev ∉ numbers ∧ Stops numbers n) ∧
      (prev = n → n + 1 ∉ numbers ∨ n ∈ numbers) := by
  induction numbers generalizing prev with
  | nil => exact ⟨prev, rfl, Nat.le_refl _, by omega, by omega, by omega, by simp⟩
  | cons index rest ih =>
    obtain ⟨hindex, hrest⟩ := List.pairwise_cons.mp hsorted
    have hle := hprev index List.mem_cons_self
    by_cases hnext : prev + 1 = index
    · subst hnext
      obtain ⟨n, hgap, hn, htaken, honce, hbehind, hat⟩ := ih hrest hindex
      have hout : prev ∉ (prev + 1) :: rest := by
        intro hmem
        obtain heq | hmem := List.mem_cons.mp hmem
        · omega
        · have := hindex prev hmem
          omega
      refine ⟨n, by rw [firstGap, if_neg (by simp), hgap], by omega, ?_, ?_, ?_, by omega⟩
      · intro m hm hmn
        obtain rfl | hlt := Nat.eq_or_lt_of_le (Nat.succ_le_of_lt hm)
        · exact List.mem_cons_self
        · exact List.mem_cons_of_mem _ (htaken m hlt hmn)
      · intro m hm hmn
        obtain rfl | hlt := Nat.eq_or_lt_of_le (Nat.succ_le_of_lt hm)
        · rw [List.count_cons_self, List.count_eq_zero_of_not_mem (hbehind hmn).1]
        · rw [List.count_cons_of_ne (by omega)]
          exact honce m hlt hmn
      · intro _
        refine ⟨hout, ?_⟩
        unfold Stops
        obtain rfl | hlt := Nat.eq_or_lt_of_le hn
        · obtain hmissing | htwice := hat rfl
          · left
            simpa using hmissing
          · right
            rw [List.count_cons_self]
            exact Nat.succ_le_succ (List.count_pos_iff.mpr htwice)
        · obtain hmissing | htwice := (hbehind hlt).2
          · left
            rw [List.mem_cons, not_or]
            exact ⟨by omega, hmissing⟩
          · right
            exact Nat.le_trans htwice (List.count_le_count_cons)
    · refine ⟨prev, by rw [firstGap, if_pos hnext], Nat.le_refl _, by omega, by omega, by omega, fun _ => ?_⟩
      obtain rfl | hlt := Nat.eq_or_lt_of_le hle
      · exact .inr List.mem_cons_self
      · left
        intro hmem
        obtain heq | hmem := List.mem_cons.mp hmem
        · exact hnext heq
        · have := hindex _ hmem
          omega

lemma firstGap_pos (prev : Nat) (numbers : List Nat) : 0 < firstGap prev numbers := by
  induction numbers generalizing prev with
  | nil => exact Nat.succ_pos prev
  | cons index rest ih =>
    rw [firstGap]
    split
    · exact Nat.succ_pos prev
    · exact ih index

lemma Counted.unique {numbers : List Nat} {n n' : Nat} (h : Counted numbers n) (hstops : Stops numbers n)
    (h' : Counted numbers n') (hstops' : Stops numbers n') : n = n' := by
  obtain hlt | heq | hgt := Nat.lt_trichotomy n n'
  · have hnext := h'.taken (n + 1) (Nat.succ_pos n) hlt
    have hone := h'.once n hlt
    obtain hmissing | htwice := hstops
    · exact absurd hnext hmissing
    · omega
  · exact heq
  · have hnext := h.taken (n' + 1) (Nat.succ_pos n') hgt
    have hone := h.once n' hgt
    obtain hmissing | htwice := hstops'
    · exact absurd hnext hmissing
    · omega

lemma firstGap_sorted {numbers : List Nat} (hpos : ∀ m ∈ numbers, 0 < m) :
    ∃ n, firstGap 0 (numbers.insertionSort (· ≤ ·)) = n + 1 ∧ Counted numbers n ∧ Stops numbers n := by
  have hperm := List.perm_insertionSort (· ≤ ·) numbers
  have hzero : 0 ∉ numbers := fun hmem => Nat.lt_irrefl 0 (hpos 0 hmem)
  obtain ⟨n, hgap, -, htaken, honce, hbehind, hat⟩ :=
    firstGap_scan (List.pairwise_insertionSort (· ≤ ·) numbers) fun m _ => Nat.zero_le m
  simp only [hperm.mem_iff, hperm.count_eq, Stops] at htaken honce hbehind hat
  refine ⟨n, hgap, ⟨htaken, fun m hm => ?_⟩, ?_⟩
  · obtain rfl | hmpos := Nat.eq_zero_or_pos m
    · rw [List.count_eq_zero_of_not_mem hzero]
      exact Nat.zero_le 1
    · exact honce m hmpos hm
  · obtain rfl | hnpos := Nat.eq_zero_or_pos n
    · exact .inl ((hat rfl).resolve_right hzero)
    · exact (hbehind hnpos).2

/-! ## The name -/

/-- The largest number of an `i64`. -/
abbrev maxIndex : Nat := 9223372036854775807

/-- The numbers that the live siblings of a path have. -/
def Db.siblingNumbers (db : Db) (storageId : Uuid) (path : Path) : List Nat :=
  ((db.files.filter fun r => r.storageId = storageId ∧ r.Live).map (·.path)).filterMap
    (siblingNumber (stemAndSuffix path).1 (stemAndSuffix path).2)

/-- The path has a live file, and so has the number behind the first one that stands twice among its siblings,
    or behind the last of all numbers, where those before are there once each. -/
def Db.Stumbles (db : Db) (storageId : Uuid) (path : Path) : Prop :=
  db.liveAt storageId path ≠ none ∧ ∃ n, 0 < n ∧ Counted (db.siblingNumbers storageId path) n ∧
    (2 ≤ (db.siblingNumbers storageId path).count n ∨ n = maxIndex) ∧
    db.liveAt storageId (numbered (stemAndSuffix path).1 (stemAndSuffix path).2 (n + 1)) ≠ none

/-- The path is the requested one, or has a number before the first dot of its name. -/
def Renumbers (path tried : Path) : Prop :=
  ∃ folder name suffix, path = folder ++ name ++ suffix ∧ (folder = [] ∨ isFolderPath folder = true) ∧
    '/' ∉ name ++ suffix ∧ '.' ∉ name ∧ (suffix = [] ∨ suffix.head? = some '.') ∧
    (tried = path ∨ ∃ n, 0 < n ∧ tried = numbered (folder ++ name) suffix n)

/-- The path that an attempt of `create_file_anyway` tries is free, the requested one when that is free, and
    the row is inserted there. -/
def Db.FreshName (db : Db) (inObj : InFile) : Prop :=
  ∃ tried, db.anywayPath? inObj.storageId inObj.path = some tried ∧
    db.liveAt inObj.storageId tried = none ∧ Renumbers inObj.path tried ∧
    (db.liveAt inObj.storageId inObj.path = none → tried = inObj.path) ∧
    ∀ id, db.fileById id = none → db.HasStorage inObj.storageId →
      ∃ db', db.createFileRow { inObj with path := tried } false id = .ok db'

lemma siblingNumber_numbered {n : Nat} (hpos : 0 < n) (hmax : n ≤ maxIndex) :
    siblingNumber stem suffix (numbered stem suffix n) = some n := by
  have hdigits : (toString n).toList = Nat.toDigits 10 n := Nat.toList_repr
  have hform : duplicateDigits stem suffix (numbered stem suffix n) = some (Nat.toDigits 10 n) := by
    refine duplicateDigits_eq_some_iff.mpr ⟨by rw [numbered, hdigits], Nat.toDigits_ne_nil, ?_⟩
    exact List.all_eq_true.mpr fun c hc => Nat.isDigit_of_mem_toDigits (by decide) (by decide) hc
  have hvalue : (Nat.toDigits 10 n).foldl (fun n c => 10 * n + (c.toNat - '0'.toNat)) 0 = n :=
    Nat.ofDigitChars_ten_toDigits
  rw [siblingNumber, hform, Option.bind_some, parseIndex, hvalue]
  exact if_pos ⟨hpos, hmax⟩

lemma siblingNumber_bounds {n : Nat} (h : siblingNumber stem suffix path = some n) : 0 < n ∧ n ≤ maxIndex := by
  obtain ⟨digits, -, hparse⟩ := Option.bind_eq_some_iff.mp h
  unfold parseIndex at hparse
  dsimp only at hparse
  split at hparse
  · case isTrue hbounds =>
    cases hparse
    exact hbounds
  · cases hparse

lemma bounds_of_mem_siblingNumbers {n : Nat} (h : n ∈ db.siblingNumbers storageId path) :
    0 < n ∧ n ≤ maxIndex := by
  obtain ⟨sibling, -, hnumber⟩ := List.mem_filterMap.mp h
  exact siblingNumber_bounds hnumber

lemma mem_siblingNumbers {n : Nat} (hpos : 0 < n) (hmax : n ≤ maxIndex)
    (hlive : db.liveAt storageId (numbered (stemAndSuffix path).1 (stemAndSuffix path).2 n) ≠ none) :
    n ∈ db.siblingNumbers storageId path := by
  obtain ⟨r, hr⟩ := Option.ne_none_iff_exists'.mp hlive
  obtain ⟨hmem, hs, hpath, hl⟩ := Db.liveAt_some hr
  refine List.mem_filterMap.mpr ⟨r.path, ?_, ?_⟩
  · exact List.mem_map.mpr ⟨r, List.mem_filter.mpr ⟨hmem, decide_eq_true ⟨hs, hl⟩⟩, rfl⟩
  · rw [hpath]
    exact siblingNumber_numbered hpos hmax

lemma anywayPath_taken (hlive : db.liveAt storageId path ≠ none) :
    db.anywayPath storageId path = numbered (stemAndSuffix path).1 (stemAndSuffix path).2
      (firstGap 0 ((db.siblingNumbers storageId path).insertionSort (· ≤ ·))) := by
  obtain ⟨hwhole, -⟩ := divided_stemAndSuffix path
  unfold Db.anywayPath pickDuplicatePath Db.siblingNumbers
  dsimp only
  generalize hstem : (stemAndSuffix path).1 = stem at *
  generalize hsuffix : (stemAndSuffix path).2 = suffix at *
  generalize hpaths : (db.files.filter fun r => r.storageId = storageId ∧ r.Live).map (·.path) = paths
  have hbase : stem ++ suffix ∈ paths.filter fun candidate =>
      decide (candidate = stem ++ suffix ∨ (duplicateDigits stem suffix candidate).isSome = true) := by
    refine List.mem_filter.mpr ⟨?_, by simp⟩
    obtain ⟨r, hr⟩ := Option.ne_none_iff_exists'.mp hlive
    obtain ⟨hmem, hs, hpath, hl⟩ := Db.liveAt_some hr
    rw [← hpaths, hwhole]
    exact List.mem_map.mpr ⟨r, List.mem_filter.mpr ⟨hmem, decide_eq_true ⟨hs, hl⟩⟩, hpath⟩
  -- what has a number is kept, and is not the path itself
  have hnumbers : (((paths.filter fun candidate =>
      decide (candidate = stem ++ suffix ∨ (duplicateDigits stem suffix candidate).isSome = true)).filter
        (· ≠ stem ++ suffix)).filterMap (siblingNumber stem suffix)) =
      paths.filterMap (siblingNumber stem suffix) := by
    rw [List.filter_filter, List.filterMap_filter]
    refine congrArg (fun f => paths.filterMap f) (funext fun sibling => ?_)
    split
    · rfl
    · case isFalse hout =>
      cases hnumber : siblingNumber stem suffix sibling with
      | none => rfl
      | some n =>
        have hdigits : (duplicateDigits stem suffix sibling).isSome = true := by
          obtain ⟨digits, hdigits, -⟩ := Option.bind_eq_some_iff.mp hnumber
          exact Option.isSome_iff_exists.mpr ⟨digits, hdigits⟩
        have hne : sibling ≠ stem ++ suffix := by
          rintro rfl
          rw [siblingNumber_base] at hnumber
          cases hnumber
        exact absurd (by simp [hdigits, hne]) hout
  rw [if_neg (not_not.mpr hbase), ← hnumbers]
  split
  · case isTrue hone =>
    obtain ⟨sole, hsole⟩ := List.length_eq_one_iff.mp hone
    rw [hsole] at hbase ⊢
    obtain rfl := List.mem_singleton.mp hbase
    simp [firstGap]
  · rfl

lemma exists_folder_name (path : Path) :
    ∃ folder name, (stemAndSuffix path).1 = folder ++ name ∧ (folder = [] ∨ isFolderPath folder = true) ∧
      '/' ∉ name ∧ '.' ∉ name := by
  have hname (name : Path) (hplain : '/' ∉ name) :
      '/' ∉ name.takeWhile (· ≠ '.') ∧ '.' ∉ name.takeWhile (· ≠ '.') := by
    refine ⟨fun hmem => hplain ((List.takeWhile_sublist _).subset hmem), fun hmem => ?_⟩
    have := List.mem_takeWhile_imp hmem
    simp at this
  obtain hplain | ⟨folder, name, rfl, hplain, hsplit⟩ := name_cases path
  · refine ⟨[], path.takeWhile (· ≠ '.'), ?_, .inl rfl, hname path hplain⟩
    rw [stemAndSuffix, rsplitOnce_eq_none hplain]
    rfl
  · refine ⟨folder ++ ['/'], name.takeWhile (· ≠ '.'), ?_, .inr (by simp [isFolderPath]), hname name hplain⟩
    rw [stemAndSuffix, hsplit]
    simp

lemma renumbers_anywayPath : Renumbers path (db.anywayPath storageId path) := by
  obtain ⟨hwhole, h⟩ := divided_stemAndSuffix path
  obtain ⟨folder, name, hstem, hfolder, hslash, hdot⟩ := exists_folder_name path
  rw [hstem] at hwhole
  have hsuffix : (stemAndSuffix path).2 = [] ∨ (stemAndSuffix path).2.head? = some '.' := by
    obtain hnone | ⟨rest, hrest⟩ := h.dot
    · exact .inl hnone
    · exact .inr (by rw [hrest]; rfl)
  refine ⟨folder, name, (stemAndSuffix path).2, hwhole.symm, hfolder, ?_, hdot, hsuffix, ?_⟩
  · rw [List.mem_append, not_or]
    exact ⟨hslash, h.plain⟩
  · by_cases hlive : db.liveAt storageId path = none
    · exact .inl (anywayPath_free hlive)
    · right
      rw [anywayPath_taken hlive, hstem]
      exact ⟨_, firstGap_pos _ _, rfl⟩

lemma createFileRow_free (inObj : InFile) {id : Uuid} (hfree : db.liveAt inObj.storageId inObj.path = none)
    (hid : db.fileById id = none) (hstorage : db.HasStorage inObj.storageId) :
    ∃ db', db.createFileRow inObj false id = .ok db' := by
  have hnew : db.fileById (inObj.toRow id false).id = none := hid
  have hopen : db.liveAt (inObj.toRow id false).storageId (inObj.toRow id false).path = none := hfree
  unfold Db.createFileRow Db.insertFile
  have hhere : db.HasStorage (inObj.toRow id false).storageId := hstorage
  rw [hnew, hopen, if_neg (by simp), if_neg (by simp), if_pos hhere]
  exact ⟨_, rfl⟩

lemma liveAt_anywayPath_iff : db.liveAt storageId (db.anywayPath storageId path) = none ↔
    ¬db.Stumbles storageId path := by
  by_cases hlive : db.liveAt storageId path = none
  · rw [anywayPath_free hlive]
    exact iff_of_true hlive fun h => h.1 hlive
  · have hpos : ∀ m ∈ db.siblingNumbers storageId path, 0 < m := fun m hm => (bounds_of_mem_siblingNumbers hm).1
    obtain ⟨n, hgap, hcounted, hstops⟩ := firstGap_sorted hpos
    rw [anywayPath_taken hlive, hgap, ← not_iff_not, not_not]
    constructor
    · intro htaken
      have hn : 0 < n ∧ (2 ≤ (db.siblingNumbers storageId path).count n ∨ n = maxIndex) := by
        obtain hmissing | htwice := hstops
        · -- the file behind the gap has no number that is read
          have hout : ¬n + 1 ≤ maxIndex := fun hle =>
            hmissing (mem_siblingNumbers (Nat.succ_pos n) hle htaken)
          have hlarge : 9223372036854775807 ≤ n := Nat.le_of_lt_succ (Nat.not_le.mp hout)
          have hpos : 0 < n := by omega
          have hlast := (bounds_of_mem_siblingNumbers (hcounted.taken n hpos (Nat.le_refl n))).2
          exact ⟨hpos, .inr (Nat.le_antisymm hlast hlarge)⟩
        · have hmem : n ∈ db.siblingNumbers storageId path :=
            List.count_pos_iff.mp (Nat.lt_of_lt_of_le Nat.zero_lt_two htwice)
          exact ⟨(bounds_of_mem_siblingNumbers hmem).1, .inl htwice⟩
      exact ⟨hlive, n, hn.1, hcounted, hn.2, htaken⟩
    · rintro ⟨-, n', hn', hcounted', hlast, htaken⟩
      have hstops' : Stops (db.siblingNumbers storageId path) n' := by
        obtain htwice | rfl := hlast
        · exact .inr htwice
        · left
          intro hmem
          have := (bounds_of_mem_siblingNumbers hmem).2
          omega
      rwa [hcounted.unique hstops hcounted' hstops']

/-- The name is free unless the scan stumbles. -/
theorem freshName_iff (inObj : InFile) :
    db.FreshName inObj ↔ ¬db.Stumbles inObj.storageId inObj.path := by
  rw [← liveAt_anywayPath_iff]
  constructor
  · rintro ⟨tried, htried, hfree, -⟩
    rw [anywayPath?_eq, Option.some.injEq] at htried
    rwa [htried]
  · intro hfree
    refine ⟨_, anywayPath?_eq _, hfree, renumbers_anywayPath, anywayPath_free, fun id hid hstorage => ?_⟩
    exact createFileRow_free { inObj with path := db.anywayPath inObj.storageId inObj.path } hfree hid hstorage

/-! ## A number with a leading zero -/

def plainFile (id : Uuid) (path : String) : FileRow :=
  (InFile.new path.toList 5 1).toRow id true

/-- Four files, of which two have the number one. -/
def fourSiblings : Db :=
  { Db.fresh [⟨1, 0⟩] with
    files := [plainFile 1 "a.txt", plainFile 2 "a (1).txt", plainFile 3 "a (01).txt", plainFile 4 "a (2).txt"] }

/-- The file that is put beside them is tried where the fourth one is. -/
theorem fourSiblings_not_fresh : ¬fourSiblings.FreshName (InFile.new "a.txt".toList 5 1) := by
  rintro ⟨tried, htried, hfree, -⟩
  have hpath : fourSiblings.anywayPath? 1 "a.txt".toList = some "a (2).txt".toList := by decide +kernel
  obtain rfl := Option.some.inj (htried.symm.trans hpath)
  revert hfree
  decide +kernel

end Sarca.Server
