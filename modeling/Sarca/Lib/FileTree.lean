import Mathlib.Data.List.AList

/-!
# Trees of files

A tree maps paths (lists of names) to directories and files; the root is a directory. The operations are
those of a POSIX file system without links: `createDirAll`, `removeDirAll`, `removeFile`, `write` (a
finished file renamed into place) and `rename`, each `none` where the call fails. `read` is the content of
a file, and every operation comes with what it does to `read`.
-/

namespace Sarca.Lib

/-- A directory, or a file with its content. -/
inductive Node (β : Type) where
  | dir
  | file (content : β)
deriving DecidableEq, Repr

/-- Nodes by their paths. -/
abbrev FileTree (ν β : Type) [DecidableEq ν] := AList fun _ : List ν => Node β

section Discard

variable {κ ν : Type} [DecidableEq κ]

/-- A table without the keys of a predicate. -/
def discard (p : κ → Bool) (t : AList fun _ : κ => ν) : AList fun _ : κ => ν where
  entries := t.entries.filter fun e => !p e.1
  nodupKeys := t.nodupKeys.sublist List.filter_sublist

lemma lookup_discard (p : κ → Bool) (t : AList fun _ : κ => ν) (k : κ) :
    (discard p t).lookup k = if p k then none else t.lookup k := by
  apply Option.ext
  intro v
  rw [← Option.mem_def, AList.mem_lookup_iff]
  show Sigma.mk k v ∈ t.entries.filter _ ↔ _
  rw [List.mem_filter, ← AList.mem_lookup_iff]
  cases hp : p k with
  | true => simp
  | false => simp

end Discard

namespace FileTree

variable {ν β : Type} [DecidableEq ν] {t t' : FileTree ν β} {p q r : List ν} {c : β}

/-- What is at a path. -/
def node (t : FileTree ν β) (p : List ν) : Option (Node β) :=
  if p = [] then some .dir else t.lookup p

/-- `Path::exists` -/
def has (t : FileTree ν β) (p : List ν) : Bool :=
  (t.node p).isSome

/-- `Path::is_dir` -/
def isDir (t : FileTree ν β) (p : List ν) : Bool :=
  match t.node p with
  | some .dir => true
  | _ => false

/-- The content of a file. -/
def read (t : FileTree ν β) (p : List ν) : Option β :=
  match t.node p with
  | some (.file c) => some c
  | _ => none

/-- The files with their contents. -/
def files (t : FileTree ν β) : List (List ν × β) :=
  t.entries.filterMap fun e =>
    match e.2 with
    | .file c => if e.1 = [] then none else some (e.1, c)
    | .dir => none

/-- `remove_dir_all`: the path and what is below it. -/
def removeDirAll (t : FileTree ν β) (p : List ν) : FileTree ν β :=
  discard p.isPrefixOf t

/-- `remove_file` -/
def removeFile (t : FileTree ν β) (p : List ν) : FileTree ν β :=
  t.erase p

/-- Makes a directory where nothing is. -/
def insertDir (t : FileTree ν β) (p : List ν) : FileTree ν β :=
  if t.has p then t else t.insert p .dir

/-- `create_dir_all`: nothing on the way may be a file. -/
def createDirAll (t : FileTree ν β) (p : List ν) : Option (FileTree ν β) :=
  if p.inits.all fun q => (t.read q).isNone then some (p.inits.foldl insertDir t) else none

/-- A finished file takes the place of the file at the path, if any. -/
def write (t : FileTree ν β) (p : List ν) (c : β) : Option (FileTree ν β) :=
  if t.isDir p || !t.isDir p.dropLast then none else some (t.insert p (.file c))

/-- The nodes at and below a path, at and below another one. -/
def moved (t : FileTree ν β) (p q : List ν) : FileTree ν β :=
  ((t.entries.filter fun e => p.isPrefixOf e.1).map fun e =>
    (⟨q ++ e.1.drop p.length, e.2⟩ : Sigma fun _ : List ν => Node β)).toAList

/-- `rename`: a file takes the place of a file, a directory that of an empty one. -/
def rename (t : FileTree ν β) (p q : List ν) : Option (FileTree ν β) :=
  match t.node p with
  | none => none
  | some (.file c) => (t.removeFile p).write q c
  | some .dir =>
    if p.isPrefixOf q || (t.read q).isSome || !t.isDir q.dropLast ||
        t.entries.any fun e => q.isPrefixOf e.1 && e.1 ≠ q then
      none
    else some (t.moved p q ∪ t.removeDirAll p)

/-! ## What the operations do to the contents -/

lemma read_eq_some : t.read p = some c ↔ p ≠ [] ∧ t.lookup p = some (.file c) := by
  unfold read node
  split
  · case h_1 c' h =>
    split at h
    · cases h
    · case isFalse hne => simp [hne, h, eq_comm]
  · case h_2 h =>
    refine ⟨fun hno => (Option.some_ne_none c hno.symm).elim, fun hfile => ?_⟩
    rw [if_neg hfile.1] at h
    exact absurd hfile.2 (h c)

lemma read_congr (h : t'.lookup p = t.lookup p) : t'.read p = t.read p := by
  unfold read node
  rw [h]

lemma mem_files {e : List ν × β} : e ∈ t.files ↔ t.read e.1 = some e.2 := by
  rw [read_eq_some, files, List.mem_filterMap]
  constructor
  · intro h
    obtain ⟨⟨q, n⟩, hmem, he⟩ := h
    cases n with
    | dir => cases he
    | file d =>
      dsimp only at he
      split at he
      · cases he
      · case isFalse hne =>
        cases he
        exact ⟨hne, AList.mem_lookup_iff.mpr hmem⟩
  · intro h
    obtain ⟨hne, hmem⟩ := h
    refine ⟨⟨e.1, .file e.2⟩, AList.mem_lookup_iff.mp hmem, ?_⟩
    exact if_neg hne

/-- A file is no directory. -/
lemma isDir_of_read (h : t.read p = some c) : t.isDir p = false := by
  obtain ⟨hne, hfile⟩ := read_eq_some.mp h
  unfold isDir node
  rw [if_neg hne, hfile]

lemma has_of_read (h : t.read p = some c) : t.has p = true := by
  obtain ⟨hne, hfile⟩ := read_eq_some.mp h
  unfold has node
  rw [if_neg hne, hfile]
  rfl

lemma read_none_of_has (h : t.has p = false) : t.read p = none := by
  cases hread : t.read p with
  | none => rfl
  | some c => exact absurd (has_of_read hread) (by rw [h]; exact Bool.false_ne_true)

lemma read_removeDirAll : (t.removeDirAll p).read q = if p <+: q then none else t.read q := by
  have hlookup := lookup_discard p.isPrefixOf t q
  split
  · case isTrue h =>
    cases hread : (t.removeDirAll p).read q with
    | none => rfl
    | some c =>
      have hfile := (read_eq_some.mp hread).2
      rw [removeDirAll, hlookup, if_pos (List.isPrefixOf_iff_prefix.mpr h)] at hfile
      cases hfile
  · case isFalse h =>
    apply read_congr
    rw [removeDirAll, hlookup, if_neg fun hpre => h (List.isPrefixOf_iff_prefix.mp hpre)]

lemma read_removeFile : (t.removeFile p).read q = if q = p then none else t.read q := by
  split
  · case isTrue h =>
    subst h
    cases hread : (t.removeFile q).read q with
    | none => rfl
    | some c =>
      have hfile := (read_eq_some.mp hread).2
      rw [removeFile, AList.lookup_erase] at hfile
      cases hfile
  · case isFalse h => exact read_congr (AList.lookup_erase_ne h)

lemma read_insertDir : (t.insertDir p).read q = t.read q := by
  unfold insertDir
  split
  · rfl
  · case isFalse h =>
    by_cases hq : q = p
    · subst hq
      rw [read_none_of_has (Bool.eq_false_iff.mpr h)]
      cases hread : FileTree.read (t.insert q Node.dir) q with
      | none => rfl
      | some c =>
        have hfile := (read_eq_some.mp hread).2
        rw [AList.lookup_insert] at hfile
        cases hfile
    · exact read_congr (AList.lookup_insert_ne hq)

lemma read_createDirAll (h : t.createDirAll p = some t') : t'.read q = t.read q := by
  have hdirs : ∀ (dirs : List (List ν)) (t : FileTree ν β), (dirs.foldl insertDir t).read q = t.read q := by
    intro dirs
    induction dirs with
    | nil => exact fun t => rfl
    | cons d dirs ih => exact fun t => (ih (t.insertDir d)).trans read_insertDir
  unfold createDirAll at h
  split at h
  · cases h
    exact hdirs p.inits t
  · cases h

lemma read_write (h : t.write p c = some t') : t'.read q = if q = p then some c else t.read q := by
  unfold write at h
  split at h
  · cases h
  · case isFalse hdir =>
    cases h
    split
    · case isTrue hq =>
      subst hq
      apply read_eq_some.mpr
      refine ⟨?_, AList.lookup_insert t⟩
      intro hnil
      subst hnil
      exact hdir rfl
    · case isFalse hq => exact read_congr (AList.lookup_insert_ne hq)

/-- What was at or below a path that is renamed. -/
lemma lookup_moved {n : Node β} (hp : p <+: r) (hr : t.lookup r = some n) :
    (t.moved p q).lookup (q ++ r.drop p.length) = some n := by
  rw [moved, AList.lookup_to_alist]
  have hkey : ∀ r', p <+: r' → q ++ r'.drop p.length = q ++ r.drop p.length → r' = r := by
    intro r' hp' heq
    obtain ⟨rest, rfl⟩ := hp
    obtain ⟨rest', rfl⟩ := hp'
    rw [List.drop_left, List.drop_left] at heq
    rw [List.append_cancel_left heq]
  have hmem := AList.mem_lookup_iff.mp hr
  have hnodup := t.nodupKeys
  generalize t.entries = entries at hmem hnodup
  induction entries with
  | nil => cases hmem
  | cons e entries ih =>
    obtain ⟨hnot, hnodup⟩ := List.nodupKeys_cons.mp hnodup
    rw [List.filter_cons]
    cases List.mem_cons.mp hmem with
    | inl he =>
      subst he
      rw [if_pos (List.isPrefixOf_iff_prefix.mpr hp), List.map_cons]
      exact List.dlookup_cons_eq _ _ _
    | inr hmem =>
      have hlater := ih hmem hnodup
      split
      · case isTrue hpre =>
        rw [List.map_cons]
        refine (List.dlookup_cons_ne _ _ ?_).trans hlater
        intro heq
        have her := hkey e.1 (List.isPrefixOf_iff_prefix.mp hpre) heq.symm
        exact hnot (her ▸ List.mem_keys_of_mem hmem)
      · exact hlater

/-- A rename to a free path keeps every content, in its place or in the new one. -/
lemma read_rename (h : t.rename p q = some t') (hfree : ∀ e ∈ t.files, ¬ q <+: e.1)
    (hr : t.read r = some c) :
    t'.read r = some c ∨ p <+: r ∧ t'.read (q ++ r.drop p.length) = some c := by
  have hrq : ¬ q <+: r := hfree (r, c) (mem_files.mpr hr)
  unfold rename at h
  split at h
  · cases h
  · case h_2 d hfile =>
    have hpd : t.read p = some d := by
      unfold read
      rw [hfile]
    have hne : r ≠ q := by
      intro heq
      subst heq
      exact hrq (List.prefix_refl r)
    cases Decidable.em (r = p) with
    | inl hrp =>
      subst hrp
      right
      refine ⟨List.prefix_refl r, ?_⟩
      rw [read_write h, List.drop_length, List.append_nil, if_pos rfl]
      exact hpd.symm.trans hr
    | inr hrp =>
      left
      rw [read_write h, if_neg hne, read_removeFile, if_neg hrp]
      exact hr
  · split at h
    · cases h
    · cases h
      obtain ⟨hne, hfile⟩ := read_eq_some.mp hr
      cases Decidable.em (p <+: r) with
      | inl hp =>
        right
        have hmoved := lookup_moved (q := q) hp hfile
        refine ⟨hp, read_eq_some.mpr ⟨?_, ?_⟩⟩
        · intro hnil
          exact hrq ((List.append_eq_nil_iff.mp hnil).1 ▸ List.nil_prefix)
        · rw [AList.lookup_union_left]
          · exact hmoved
          · apply AList.lookup_isSome.mp
            rw [hmoved]
            rfl
      | inr hp =>
        left
        apply (read_congr ?_).trans hr
        have hnot : r ∉ t.moved p q := by
          intro hmem
          obtain ⟨n, hn⟩ := Option.isSome_iff_exists.mp (AList.lookup_isSome.mpr hmem)
          rw [moved, AList.lookup_to_alist] at hn
          obtain ⟨e, -, he⟩ := List.mem_map.mp (List.of_mem_dlookup hn)
          cases he
          exact hrq (List.prefix_append _ _)
        rw [AList.lookup_union_right hnot, removeDirAll, lookup_discard,
          if_neg fun hpre => hp (List.isPrefixOf_iff_prefix.mp hpre)]

/-- A file that is renamed has its content at the new path. -/
lemma read_rename_file (hp : t.read p = some c) (h : t.rename p q = some t') : t'.read q = some c := by
  obtain ⟨hne, hfile⟩ := read_eq_some.mp hp
  have hnode : t.node p = some (.file c) := by
    rw [node, if_neg hne, hfile]
  unfold rename at h
  rw [hnode] at h
  rw [read_write h, if_pos rfl]

/-- What is no file is renamed only to where no file is, nor below. -/
lemma free_of_rename (hp : t.read p = none) (h : t.rename p q = some t') : ∀ e ∈ t.files, ¬ q <+: e.1 := by
  intro e he hq
  have hread := mem_files.mp he
  unfold rename at h
  split at h
  · cases h
  · case h_2 d hnode =>
    rw [read, hnode] at hp
    cases hp
  · split at h
    · cases h
    · case isFalse hok =>
      apply hok
      cases Decidable.em (e.1 = q) with
      | inl heq =>
        rw [← heq, hread]
        simp
      | inr hne =>
        have hentry : (⟨e.1, .file e.2⟩ : Sigma fun _ : List ν => Node β) ∈ t.entries :=
          AList.mem_lookup_iff.mp (read_eq_some.mp hread).2
        have hany : (t.entries.any fun e => q.isPrefixOf e.1 && e.1 ≠ q) = true :=
          List.any_eq_true.mpr ⟨_, hentry, by simp [List.isPrefixOf_iff_prefix.mpr hq, hne]⟩
        rw [hany, Bool.or_true]

end FileTree

end Sarca.Lib
