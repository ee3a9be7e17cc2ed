import Sarca.Server.FreeNames

/-!
# What the next free name is

`next_available_live_path` takes a path to be a folder's if it ends with a slash, or if only the folder of that
name is live. It answers the path, with one slash or none at its end, or puts a number into the name: behind a
folder's, and in front of the last dot of a file's (`nextAvailable_sound`). A name is taken by the live file or
folder marker that has it; rows under a folder without marker do not take it.
-/

namespace Sarca.Server
open Sarca.Lib

variable {db : Db} {s : Uuid} {path : Path}

/-! ## Folder and name -/

/-- The folder that a path is in, with its slash. -/
def folderOf (path : Path) : Path :=
  match rsplitOnce '/' (trimEndSlashes path) with
  | some (dir, _) => dir ++ ['/']
  | none => []

def extensionOf (name : Path) : Option Path :=
  (rsplitOnce '.' name).map (·.2)

/-- A name in front of its last dot, and the rest. -/
def splitName (name : Path) : Path × Path :=
  match rsplitOnce '.' name with
  | some (stem, ext) => (stem, '.' :: ext)
  | none => (name, [])

def numberedName (asFolder : Bool) (name : Path) (i : Nat) : Path :=
  if asFolder then numbered name [] i else numbered (splitName name).1 (splitName name).2 i

lemma folderOf_some {dir name : Path} (h : rsplitOnce '/' (trimEndSlashes path) = some (dir, name)) :
    folderOf path = dir ++ ['/'] ∧ lastName path = name := by
  unfold folderOf lastName
  simp only [h, and_self]

lemma folderOf_none (h : rsplitOnce '/' (trimEndSlashes path) = none) :
    folderOf path = [] ∧ lastName path = trimEndSlashes path := by
  unfold folderOf lastName
  simp only [h, and_self]

lemma trimEndSlashes_eq (path : Path) :
    trimEndSlashes path = folderOf path ++ lastName path ∧ '/' ∉ lastName path := by
  cases hsplit : rsplitOnce '/' (trimEndSlashes path) with
  | none =>
    obtain ⟨hfolder, hname⟩ := folderOf_none hsplit
    rw [hfolder, hname]
    exact ⟨rfl, rsplitOnce_none hsplit⟩
  | some found =>
    obtain ⟨hfolder, hname⟩ := folderOf_some hsplit
    obtain ⟨hpath, hno⟩ := rsplitOnce_some hsplit
    rw [hfolder, hname, hpath, List.append_assoc]
    exact ⟨rfl, hno⟩

lemma folderOf_congr {p q : Path} (h : trimEndSlashes p = trimEndSlashes q) :
    folderOf p = folderOf q ∧ lastName p = lastName q := by
  unfold folderOf lastName
  rw [h]
  exact ⟨rfl, rfl⟩

lemma folderOf_append {p name : Path} (h : trimEndSlashes p = folderOf path ++ name) (hname : '/' ∉ name) :
    folderOf p = folderOf path ∧ lastName p = name := by
  cases hsplit : rsplitOnce '/' (trimEndSlashes path) with
  | none =>
    rw [(folderOf_none hsplit).1, List.nil_append] at h
    rw [(folderOf_none hsplit).1, ← h]
    exact folderOf_none (h ▸ rsplitOnce_eq_none hname)
  | some found =>
    rw [(folderOf_some hsplit).1, List.append_assoc, List.singleton_append] at h
    rw [(folderOf_some hsplit).1]
    exact folderOf_some (h ▸ rsplitOnce_append hname)

lemma splitName_some {name stem ext : Path} (h : rsplitOnce '.' name = some (stem, ext)) :
    splitName name = (stem, '.' :: ext) := by
  unfold splitName
  simp only [h]

lemma splitName_none {name : Path} (h : rsplitOnce '.' name = none) : splitName name = (name, []) := by
  unfold splitName
  simp only [h]

lemma splitSuffix_eq (path : Path) (h : isFolderPath path = false) :
    Db.splitSuffix path = (folderOf path ++ (splitName (lastName path)).1, (splitName (lastName path)).2) := by
  have htrim := trimEndSlashes_file h
  unfold Db.splitSuffix
  split
  · case h_1 dir name hdir =>
    obtain ⟨hfolder, hname⟩ := folderOf_some (htrim.symm ▸ hdir)
    rw [hfolder, hname, List.append_assoc]
    split
    · case h_1 stem ext hext => rw [splitName_some hext, List.singleton_append]
    · case h_2 hext => rw [splitName_none hext, List.singleton_append, (rsplitOnce_some hdir).1]
  · case h_2 hdir =>
    obtain ⟨hfolder, hname⟩ := folderOf_none (htrim.symm ▸ hdir)
    rw [hfolder, hname, htrim, List.nil_append]
    split
    · case h_1 stem ext hext => rw [splitName_some hext]
    · case h_2 hext => rw [splitName_none hext]

lemma splitName_append (name : Path) : (splitName name).1 ++ (splitName name).2 = name := by
  cases hsplit : rsplitOnce '.' name with
  | none => rw [splitName_none hsplit, List.append_nil]
  | some found => rw [splitName_some hsplit, ← (rsplitOnce_some hsplit).1]

lemma numbered_append (folder stem suffix : Path) (i : Nat) :
    numbered (folder ++ stem) suffix i = folder ++ numbered stem suffix i := by
  simp only [numbered, List.append_assoc]

lemma slash_notMem_numbered {stem suffix : Path} (hstem : '/' ∉ stem) (hsuffix : '/' ∉ suffix) (i : Nat) :
    '/' ∉ numbered stem suffix i := by
  unfold numbered
  simp only [List.mem_append, List.mem_cons, not_or]
  exact ⟨⟨⟨hstem, by decide⟩, notMem_toString rfl i⟩, by decide, hsuffix⟩

lemma slash_notMem_numberedName {name : Path} (h : '/' ∉ name) (asFolder : Bool) (i : Nat) :
    '/' ∉ numberedName asFolder name i := by
  rw [← splitName_append name, List.mem_append, not_or] at h
  cases asFolder with
  | true =>
    refine slash_notMem_numbered ?_ List.not_mem_nil i
    rw [← splitName_append name, List.mem_append, not_or]
    exact h
  | false => exact slash_notMem_numbered h.1 h.2 i

lemma extensionOf_numberedName (name : Path) (i : Nat) :
    extensionOf (numberedName false name i) = extensionOf name := by
  unfold extensionOf
  cases hsplit : rsplitOnce '.' name with
  | none =>
    have hno : '.' ∉ numbered name [] i := by
      unfold numbered
      simp only [List.mem_append, List.mem_cons, not_or]
      exact ⟨⟨⟨rsplitOnce_none hsplit, by decide⟩, notMem_toString rfl i⟩, by decide, List.not_mem_nil⟩
    have hname : numberedName false name i = numbered name [] i := by
      unfold numberedName
      rw [splitName_none hsplit]
      rfl
    rw [hname, rsplitOnce_eq_none hno]
  | some found =>
    obtain ⟨stem, ext⟩ := found
    have hname : numberedName false name i =
        (stem ++ " (".toList ++ (toString i).toList ++ [')']) ++ '.' :: ext := by
      unfold numberedName
      rw [splitName_some hsplit]
      simp [numbered]
    rw [hname, rsplitOnce_append (rsplitOnce_some hsplit).2]
    rfl

/-! ## The answer -/

/-- A live file has the name of a path, or a live folder marker has. -/
def Db.NameTaken (db : Db) (s : Uuid) (path : Path) : Prop :=
  ∃ r ∈ db.files, r.storageId = s ∧ r.Live ∧
    (r.path = trimEndSlashes path ∨ r.path = trimEndSlashes path ++ ['/'])

def Db.OnlyFolder (db : Db) (s : Uuid) (path : Path) : Prop :=
  (∃ r ∈ db.files, r.storageId = s ∧ r.Live ∧ r.path = trimEndSlashes path ++ ['/']) ∧
    ¬∃ r ∈ db.files, r.storageId = s ∧ r.Live ∧ r.path = trimEndSlashes path

structure Db.NextName (db : Db) (s : Uuid) (path q : Path) : Prop where
  free : ¬db.NameTaken s q
  folder : folderOf q = folderOf path
  name : lastName q = lastName path ∨
    ∃ i, 1 ≤ i ∧ i < 10000 ∧ lastName q = numberedName (isFolderPath q) (lastName path) i
  extension : isFolderPath q = false → extensionOf (lastName q) = extensionOf (lastName path)
  kind : isFolderPath q = true ↔ isFolderPath path = true ∨ path ≠ [] ∧ db.OnlyFolder s path
  request : ¬db.NameTaken s path →
    q = if isFolderPath path then trimEndSlashes path ++ ['/'] else path

lemma livePathExists_iff : db.livePathExists s path = true ↔
    ∃ r ∈ db.files, r.storageId = s ∧ r.Live ∧ r.path = path := by
  constructor
  · intro h
    obtain ⟨r, hr, hst, hpath, hl⟩ := mem_of_livePathExists h
    exact ⟨r, hr, hst, hl, hpath⟩
  · rintro ⟨r, hr, hst, hl, rfl⟩
    exact livePathExists_of_mem hr hl hst

lemma liveBasenameTaken_iff : db.liveBasenameTaken s path = true ↔ db.NameTaken s path := by
  unfold Db.liveBasenameTaken Db.NameTaken
  rw [Bool.or_eq_true, livePathExists_iff, livePathExists_iff]
  constructor
  · rintro (⟨r, hr, hst, hl, hpath⟩ | ⟨r, hr, hst, hl, hpath⟩)
    · exact ⟨r, hr, hst, hl, .inl hpath⟩
    · exact ⟨r, hr, hst, hl, .inr hpath⟩
  · rintro ⟨r, hr, hst, hl, hpath | hpath⟩
    · exact .inl ⟨r, hr, hst, hl, hpath⟩
    · exact .inr ⟨r, hr, hst, hl, hpath⟩

lemma nameTaken_congr {p q : Path} (h : trimEndSlashes p = trimEndSlashes q) :
    db.NameTaken s p ↔ db.NameTaken s q := by
  unfold Db.NameTaken
  rw [h]

/-- The path as it is asked for, in one of its two forms. -/
def requested (asFolder : Bool) (path : Path) : Path :=
  if asFolder then trimEndSlashes path ++ ['/'] else trimEndSlashes path

/-- A name in the folder of a path, in one of its two forms. -/
def placed (asFolder : Bool) (path name : Path) : Path :=
  if asFolder then folderOf path ++ name ++ ['/'] else folderOf path ++ name

lemma numberedName_ne_nil (asFolder : Bool) (name : Path) (i : Nat) : numberedName asFolder name i ≠ [] := by
  intro h
  have hblank : ' ' ∈ numberedName asFolder name i := by
    cases asFolder <;> simp [numberedName, numbered]
  rw [h] at hblank
  exact List.not_mem_nil hblank

lemma isFolderPath_placed (asFolder : Bool) {name : Path} (hname : '/' ∉ name) (hne : name ≠ []) :
    isFolderPath (placed asFolder path name) = asFolder ∧
      trimEndSlashes (placed asFolder path name) = folderOf path ++ name := by
  have hfile : isFolderPath (folderOf path ++ name) = false := by
    rw [isFolderPath_append hne, Bool.eq_false_iff]
    intro h
    obtain ⟨front, hfront⟩ := isFolderPath_iff.mp h
    exact hname (hfront ▸ List.mem_append_right front List.mem_cons_self)
  cases asFolder with
  | true => exact ⟨isFolderPath_concat, trimEndSlashes_concat.trans (trimEndSlashes_file hfile)⟩
  | false => exact ⟨hfile, trimEndSlashes_file hfile⟩

lemma isFolderPath_requested (asFolder : Bool) (path : Path) :
    isFolderPath (requested asFolder path) = asFolder ∧
      trimEndSlashes (requested asFolder path) = trimEndSlashes path := by
  have hfile := isFolderPath_trimEndSlashes path
  cases asFolder with
  | true => exact ⟨isFolderPath_concat, trimEndSlashes_concat.trans (trimEndSlashes_file hfile)⟩
  | false => exact ⟨hfile, trimEndSlashes_file hfile⟩

lemma nextAvailable_form {q : Path} (h : db.nextAvailableLivePath s path = .ok q) :
    ∃ asFolder : Bool, (asFolder = true ↔ isFolderPath path = true ∨ path ≠ [] ∧ db.OnlyFolder s path) ∧
      ¬db.NameTaken s q ∧
      (q = requested asFolder path ∨ db.NameTaken s path ∧ ∃ i, 1 ≤ i ∧ i < 10000 ∧
        q = placed asFolder path (numberedName asFolder (lastName path) i)) := by
  unfold Db.nextAvailableLivePath at h
  dsimp only at h
  generalize hkind : (isFolderPath path || (decide (path ≠ []) &&
    db.livePathExists s (trimEndSlashes path ++ ['/']) && !db.livePathExists s (trimEndSlashes path))) =
      asFolder at h
  refine ⟨asFolder, ?_, ?_⟩
  · rw [← hkind, Bool.or_eq_true, Bool.and_eq_true, Bool.and_eq_true, decide_eq_true_iff, Bool.not_eq_true',
      ← Bool.not_eq_true, livePathExists_iff, livePathExists_iff, and_assoc]
    exact Iff.rfl
  · change (if (!db.liveBasenameTaken s (requested asFolder path)) = true then _ else _) = _ at h
    have htaken : db.NameTaken s (requested asFolder path) ↔ db.NameTaken s path :=
      nameTaken_congr (isFolderPath_requested asFolder path).2
    split at h
    · case isTrue hfree =>
      cases h
      rw [Bool.not_eq_true', ← Bool.not_eq_true, liveBasenameTaken_iff] at hfree
      exact ⟨hfree, .inl rfl⟩
    · case isFalse hnot =>
      rw [Bool.not_eq_true', Bool.not_eq_false, liveBasenameTaken_iff, htaken] at hnot
      split at h
      · case h_1 i hi =>
        cases h
        have hfree := List.find?_some hi
        rw [Bool.not_eq_true', ← Bool.not_eq_true, liveBasenameTaken_iff] at hfree
        have hrange := List.mem_range'_1.mp (List.mem_of_find?_eq_some hi)
        refine ⟨hfree, .inr ⟨hnot, i, hrange.1, by omega, ?_⟩⟩
        cases asFolder with
        | true =>
          show numbered (trimEndSlashes path) ['/'] i = folderOf path ++ numbered (lastName path) [] i ++ ['/']
          rw [(trimEndSlashes_eq path).1]
          simp [numbered]
        | false =>
          have hfile := (Bool.or_eq_false_iff.mp hkind).1
          show numbered (Db.splitSuffix (trimEndSlashes path)).1 (Db.splitSuffix (trimEndSlashes path)).2 i = _
          rw [trimEndSlashes_file hfile, splitSuffix_eq path hfile, numbered_append]
          rfl
      · cases h

/-- The next free name is not the name of a live file or folder marker, is in the folder of the request, keeps
    its name and a file's extension but for a number, and is the request where that is free. It is a folder's
    when the request is, or when of the two only the folder marker of that name is live. -/
theorem nextAvailable_sound (db : Db) (s : Uuid) (path : Path) {q : Path}
    (h : db.nextAvailableLivePath s path = .ok q) : db.NextName s path q := by
  obtain ⟨asFolder, hkind, hfree, hform⟩ := nextAvailable_form h
  have htrimmed : isFolderPath q = asFolder ∧ folderOf q = folderOf path ∧ (lastName q = lastName path ∨
      ∃ i, 1 ≤ i ∧ i < 10000 ∧ lastName q = numberedName asFolder (lastName path) i) := by
    rcases hform with rfl | ⟨-, i, hpos, hlt, rfl⟩
    · obtain ⟨hfolder, htrim⟩ := isFolderPath_requested asFolder path
      obtain ⟨hdir, hname⟩ := folderOf_congr htrim
      exact ⟨hfolder, hdir, .inl hname⟩
    · have hno := slash_notMem_numberedName (trimEndSlashes_eq path).2 asFolder i
      obtain ⟨hfolder, htrim⟩ := @isFolderPath_placed path asFolder _ hno (numberedName_ne_nil _ _ i)
      obtain ⟨hdir, hname⟩ := folderOf_append htrim hno
      exact ⟨hfolder, hdir, .inr ⟨i, hpos, hlt, hname⟩⟩
  obtain ⟨hfolder, hdir, hname⟩ := htrimmed
  refine ⟨hfree, hdir, hfolder ▸ hname, fun hfile => ?_, hfolder ▸ hkind, fun hnot => ?_⟩
  · obtain rfl : asFolder = false := hfolder.symm.trans hfile
    rcases hname with hsame | ⟨i, -, -, hnumbered⟩
    · rw [hsame]
    · rw [hnumbered, extensionOf_numberedName]
  · have hq := hform.resolve_right fun htaken => hnot htaken.1
    have hrequest : asFolder = isFolderPath path := by
      rw [Bool.eq_iff_iff, hkind]
      refine ⟨fun hor => hor.resolve_right fun honly => hnot ?_, Or.inl⟩
      obtain ⟨r, hr, hst, hl, hpath⟩ := honly.2.1
      exact ⟨r, hr, hst, hl, .inr hpath⟩
    rw [hq, hrequest, requested]
    split
    · rfl
    · case isFalse hfile => exact trimEndSlashes_file (Bool.eq_false_iff.mpr hfile)

def folderLive : Db :=
  { Db.fresh [⟨1, 0⟩] with files := [(InFile.new "x/".toList 0 1).toRow 7 true] }

theorem folderLive_next : folderLive.NextName 1 "y.txt".toList "y.txt".toList :=
  nextAvailable_sound folderLive 1 "y.txt".toList (by decide)

/-- A file of the folder's name gets a folder's name. -/
theorem folderLive_next_isFolder :
    ¬∀ (db : Db) s path q, db.nextAvailableLivePath s path = .ok q →
      (isFolderPath q = true ↔ isFolderPath path = true) := fun h =>
  absurd ((h folderLive 1 "x".toList "x (1)/".toList (by decide)).mp (by decide)) (by decide)

end Sarca.Server
