import Sarca.Server.Undelete

/-!
# Free names, and names in the trash

What `next_available_live_path` answers is free (`nextAvailable_free`), and has one of two forms
(`nextAvailable_cases`); `canonical_trashed_path` is the path of a folder when the trash has something under
it (`canonical_cases`), and the trash has the same rows at both (`listTrashedIds_canonical`).
-/

namespace Sarca.Server
open Sarca.Lib

variable {db : Db} {s : Uuid} {path p : Path}

/-! ## A free name -/

lemma isFolderPath_trimEndSlashes (path : Path) : isFolderPath (trimEndSlashes path) = false := by
  rw [Bool.eq_false_iff]
  intro h
  obtain ⟨front, hfront⟩ := isFolderPath_iff.mp h
  have hagain : trimEndSlashes (trimEndSlashes path) = trimEndSlashes path := List.rdropWhile_idempotent _ path
  have hle : (trimEndSlashes front).length ≤ front.length := (List.rdropWhile_prefix _ front).length_le
  rw [hfront, trimEndSlashes_concat] at hagain
  rw [hagain, List.length_append, List.length_singleton] at hle
  omega

lemma folder_cases (h : isFolderPath path = true) : ∃ rest, path = trimEndSlashes path ++ '/' :: rest := by
  obtain ⟨rest, hrest⟩ := List.rdropWhile_prefix (fun c : Char => decide (c = '/')) path
  have hrest : trimEndSlashes path ++ rest = path := hrest
  cases rest with
  | nil =>
    rw [List.append_nil] at hrest
    have hfile := isFolderPath_trimEndSlashes path
    rw [hrest, h] at hfile
    cases hfile
  | cons c rest =>
    have hall : ∀ x ∈ c :: rest, x = '/' := by
      have htake : trimEndSlashes path ++ path.rtakeWhile (fun c : Char => decide (c = '/')) = path :=
        List.rdropWhile_append_rtakeWhile
      have hsame : c :: rest = path.rtakeWhile fun c : Char => decide (c = '/') :=
        List.append_cancel_left (hrest.trans htake.symm)
      intro x hx
      rw [hsame] at hx
      have hslash : decide (x = '/') = true :=
        List.mem_rtakeWhile_imp (p := fun c : Char => decide (c = '/')) hx
      exact of_decide_eq_true hslash
    have hc := hall c List.mem_cons_self
    subst hc
    exact ⟨rest, hrest.symm⟩

lemma isFolderPath_numbered (stem suffix : Path) (i : Nat) (h : isFolderPath suffix = false) :
    isFolderPath (numbered stem suffix i) = false := by
  unfold numbered
  rw [isFolderPath_append (List.cons_ne_nil ')' suffix)]
  cases suffix with
  | nil => rfl
  | cons c suffix =>
    rw [show ')' :: c :: suffix = [')'] ++ c :: suffix from rfl,
      isFolderPath_append (List.cons_ne_nil c suffix)]
    exact h

lemma isFolderPath_suffix (h : isFolderPath path = false) : isFolderPath (Db.splitSuffix path).2 = false := by
  have hsplit : ∀ {text before after}, rsplitOnce '.' text = some (before, after) → isFolderPath text = false →
      isFolderPath ('.' :: after) = false := by
    intro text before after hsome hfile
    rw [(rsplitOnce_some hsome).1, isFolderPath_append (List.cons_ne_nil '.' after)] at hfile
    exact hfile
  unfold Db.splitSuffix
  split
  · case h_1 dir name hdir =>
    split
    · case h_1 stem ext hname =>
      have hpath := (rsplitOnce_some hdir).1
      have hne : name ≠ [] := by
        rintro rfl
        rw [hpath] at h
        exact absurd (isFolderPath_concat.symm.trans h) (by decide)
      rw [hpath, show dir ++ '/' :: name = (dir ++ ['/']) ++ name by simp, isFolderPath_append hne] at h
      exact hsplit hname h
    · rfl
  · split
    · case h_1 stem ext hname => exact hsplit hname h
    · rfl

/-- What a free name looks like: a folder's has one slash at the end, and is the old one or one with a blank
    behind it. -/
lemma nextAvailable_cases {q : Path} (h : db.nextAvailableLivePath s path = .ok q) :
    db.liveBasenameTaken s q = false ∧
      (isFolderPath q = false ∧ isFolderPath path = false ∨
        ∃ stem, q = stem ++ ['/'] ∧ isFolderPath stem = false ∧
          (stem = trimEndSlashes path ∨ ∃ rest, stem = trimEndSlashes path ++ ' ' :: rest)) := by
  unfold Db.nextAvailableLivePath at h
  dsimp only at h
  generalize hkind : (isFolderPath path || (decide (path ≠ []) &&
    db.livePathExists s (trimEndSlashes path ++ ['/']) && !db.livePathExists s (trimEndSlashes path))) =
      asFolder at h
  have htrim := isFolderPath_trimEndSlashes path
  cases asFolder with
  | true =>
    simp only [if_true] at h
    split at h
    · case isTrue hfree =>
      cases h
      rw [Bool.not_eq_true'] at hfree
      exact ⟨hfree, .inr ⟨_, rfl, htrim, .inl rfl⟩⟩
    · split at h
      · case h_1 i hi =>
        cases h
        have hfree := List.find?_some hi
        rw [Bool.not_eq_true'] at hfree
        refine ⟨hfree, .inr ⟨numbered (trimEndSlashes path) [] i, by simp [numbered], ?_, .inr ?_⟩⟩
        · exact isFolderPath_numbered _ [] i rfl
        · exact ⟨'(' :: ((toString i).toList ++ [')']), by simp [numbered]⟩
      · cases h
  | false =>
    have hfile : isFolderPath path = false := (Bool.or_eq_false_iff.mp hkind).1
    simp only [Bool.false_eq_true, if_false] at h
    split at h
    · case isTrue hfree =>
      cases h
      rw [Bool.not_eq_true'] at hfree
      exact ⟨hfree, .inl ⟨htrim, hfile⟩⟩
    · split at h
      · case h_1 i hi =>
        cases h
        have hfree := List.find?_some hi
        rw [Bool.not_eq_true'] at hfree
        exact ⟨hfree, .inl ⟨isFolderPath_numbered _ _ i (isFolderPath_suffix htrim), hfile⟩⟩
      · cases h

lemma nextAvailable_free {q : Path} (h : db.nextAvailableLivePath s path = .ok q) :
    db.liveConflictAt s q = false := by
  obtain ⟨hfree, hkind⟩ := nextAvailable_cases h
  rw [Db.liveBasenameTaken] at hfree
  rw [Bool.or_eq_false_iff] at hfree
  rw [Db.liveConflictAt]
  rcases hkind with ⟨hfile, -⟩ | ⟨stem, rfl, hstem, -⟩
  · rw [trimEndSlashes_file hfile] at hfree
    rw [hfree.1, hfree.2, Bool.and_false, Bool.or_false]
  · rw [trimEndSlashes_concat, trimEndSlashes_file hstem] at hfree
    rw [hfree.2, isFolderPath_concat]
    rfl

/-! ## Where the trashed rows are -/

/-- The folder of the trashed rows at a path's canonical form: the path is a folder's, or there are trashed rows
    under it, or there are none. -/
inductive CanonicalCase (db : Db) (s : Uuid) (p : Path) : Path → Path → Prop where
  | folder (h : isFolderPath p = true) : CanonicalCase db s p p p
  | under (h : isFolderPath p = false)
      (hsome : ∃ r ∈ db.files, r.storageId = s ∧ ¬ r.Live ∧ startsWith r.path (p ++ ['/']) = true) :
      CanonicalCase db s p (p ++ ['/']) (p ++ ['/'])
  | file (h : isFolderPath p = false)
      (hnone : ∀ r ∈ db.files, r.storageId = s → ¬ r.Live → startsWith r.path (p ++ ['/']) = false) :
      CanonicalCase db s p p []

lemma mem_listTrashedIds_folder (hfolder : isFolderPath p = true) : db.listTrashedIds s p = [] ↔
    ∀ r ∈ db.files, r.storageId = s → ¬ r.Live → startsWith r.path p = false := by
  have hne : p ≠ [] := by
    rintro rfl
    cases hfolder
  unfold Db.listTrashedIds Db.folderPrefix
  dsimp only
  rw [if_pos hfolder, List.eq_nil_iff_forall_not_mem]
  simp only [mem_idsWhere, not_exists, not_and]
  constructor
  · intro hnone r hr hst htrash
    rw [Bool.eq_false_iff]
    intro hunder
    refine hnone r.id r hr (decide_eq_true ⟨hst, decide_eq_true htrash, ?_⟩) rfl
    rw [if_neg hne]
    exact hunder
  · intro hnone i r hr hat _
    obtain ⟨hst, htrash, hunder⟩ := of_decide_eq_true hat
    rw [if_neg hne, hnone r hr hst (of_decide_eq_true htrash)] at hunder
    cases hunder

lemma canonical_cases (db : Db) (s : Uuid) (p : Path) : CanonicalCase db s p (db.canonicalTrashedPath s p)
    (db.folderPrefix s (db.canonicalTrashedPath s p) fun r => ¬ r.Live) := by
  unfold Db.canonicalTrashedPath
  split
  · case isTrue hfolder =>
    rw [Db.folderPrefix, if_pos hfolder]
    exact .folder hfolder
  · case isFalse hfile =>
    have hfile := Bool.eq_false_iff.mpr hfile
    split
    · case isTrue hnone =>
      have hnone := (mem_listTrashedIds_folder isFolderPath_concat).mp hnone
      have hany : ¬ (db.files.any fun r => r.storageId = s ∧ (decide ¬ r.Live) = true ∧
          startsWith r.path (p ++ ['/'])) = true := by
        intro hany
        obtain ⟨r, hr, hunder⟩ := List.any_eq_true.mp hany
        obtain ⟨hst, htrash, hunder⟩ := of_decide_eq_true hunder
        rw [hnone r hr hst (of_decide_eq_true htrash)] at hunder
        cases hunder
      rw [Db.folderPrefix, if_neg (Bool.eq_false_iff.mp hfile), if_neg hany]
      exact .file hfile hnone
    · case isFalse hsome =>
      rw [Db.folderPrefix, if_pos isFolderPath_concat]
      refine .under hfile ?_
      rw [mem_listTrashedIds_folder isFolderPath_concat] at hsome
      by_contra hno
      apply hsome
      intro r hr hst htrash
      rw [Bool.eq_false_iff]
      exact fun hunder => hno ⟨r, hr, hst, htrash, hunder⟩

lemma listTrashedIds_canonical (db : Db) (s : Uuid) (p : Path) :
    db.listTrashedIds s (db.canonicalTrashedPath s p) = db.listTrashedIds s p := by
  have hcase := canonical_cases db s p
  generalize hfold : (db.folderPrefix s (db.canonicalTrashedPath s p) fun r => ¬ r.Live) = folder at hcase
  unfold Db.listTrashedIds
  dsimp only
  rw [hfold]
  generalize db.canonicalTrashedPath s p = canonical at hcase
  cases hcase with
  | folder hfolder => rw [Db.folderPrefix, if_pos hfolder]
  | under hfile hsome =>
    obtain ⟨r, hr, hst, htrash, hunder⟩ := hsome
    have hany : (db.files.any fun r => r.storageId = s ∧ (decide ¬ r.Live) = true ∧
        startsWith r.path (p ++ ['/'])) = true :=
      List.any_eq_true.mpr ⟨r, hr, decide_eq_true ⟨hst, decide_eq_true htrash, hunder⟩⟩
    rw [Db.folderPrefix, if_neg (Bool.eq_false_iff.mp hfile), if_pos hany]
    have hne : p ++ ['/'] ≠ [] := List.append_ne_nil_of_right_ne_nil p (List.cons_ne_nil '/' [])
    unfold Db.atOrUnder
    simp only [if_neg hne]
  | file hfile hnone =>
    have hany : ¬ (db.files.any fun r => r.storageId = s ∧ (decide ¬ r.Live) = true ∧
        startsWith r.path (p ++ ['/'])) = true := by
      intro hany
      obtain ⟨r, hr, hunder⟩ := List.any_eq_true.mp hany
      obtain ⟨hst, htrash, hunder⟩ := of_decide_eq_true hunder
      rw [hnone r hr hst (of_decide_eq_true htrash)] at hunder
      cases hunder
    rw [Db.folderPrefix, if_neg (Bool.eq_false_iff.mp hfile), if_neg hany]

end Sarca.Server
