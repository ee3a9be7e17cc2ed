import Sarca.Server.Names

/-!
# Segments of stored paths

A stored path is `WellFormed` when none of its segments is blank, `.` or `..`; a folder's path has one more
slash behind them. Beside the definitions stand the lemmas about what the services do to a path: append to a
folder (`wellFormed_append`), mark the last segment (`PlainPath.mark`), which `numbered` and
`retiredVersionPath` do, put the last name into another folder (`wellFormed_pathInFolder`), and go up
(`parentDir_plain`, `mem_parentFolders`).
-/

namespace Sarca.Server
open Sarca.Lib

structure PlainSegment (seg : Path) : Prop where
  notBlank : trim seg ≠ []
  notDot : seg ≠ ['.']
  notDots : seg ≠ ['.', '.']

instance (seg : Path) : Decidable (PlainSegment seg) :=
  decidable_of_iff (trim seg ≠ [] ∧ seg ≠ ['.'] ∧ seg ≠ ['.', '.'])
    ⟨fun h => ⟨h.1, h.2.1, h.2.2⟩, fun h => ⟨h.notBlank, h.notDot, h.notDots⟩⟩

def PlainPath (path : Path) : Prop :=
  ∀ seg ∈ path.splitOn '/', PlainSegment seg

instance (path : Path) : Decidable (PlainPath path) :=
  inferInstanceAs (Decidable (∀ seg ∈ path.splitOn '/', PlainSegment seg))

def trimSlash (path : Path) : Path :=
  if isFolderPath path then path.dropLast else path

/-- A path as the files table should hold it: segments that name something, and behind those of a folder
    one slash. -/
def WellFormed (path : Path) : Prop :=
  PlainPath (trimSlash path)

instance (path : Path) : Decidable (WellFormed path) :=
  inferInstanceAs (Decidable (PlainPath (trimSlash path)))

/-! ## Plain paths -/

variable {path before after seg folder name rest : Path}

lemma isFolderPath_concat : isFolderPath (path ++ ['/']) = true := by
  show ((path ++ ['/']).getLast? == some '/') = true
  rw [List.getLast?_concat]
  rfl

lemma isFolderPath_append (h : after ≠ []) : isFolderPath (before ++ after) = isFolderPath after := by
  show ((before ++ after).getLast? == some '/') = (after.getLast? == some '/')
  rw [List.getLast?_append_of_ne_nil before h]

lemma isFolderPath_iff : isFolderPath path = true ↔ ∃ folder, path = folder ++ ['/'] := by
  constructor
  · intro h
    exact List.getLast?_eq_some_iff.mp (beq_iff_eq.mp h)
  · intro h
    obtain ⟨folder, rfl⟩ := h
    exact isFolderPath_concat

lemma plainPath_segment (h : '/' ∉ seg) : PlainPath seg ↔ PlainSegment seg := by
  unfold PlainPath
  rw [List.splitOn_eq_singleton h]
  exact List.forall_mem_singleton

lemma plainPath_append :
    PlainPath (before ++ '/' :: after) ↔ PlainPath before ∧ PlainPath after := by
  unfold PlainPath
  rw [List.splitOn_append_cons_self]
  exact List.forall_mem_append

lemma PlainPath.ne_nil (h : PlainPath path) : path ≠ [] := by
  intro he
  subst he
  exact (h [] (by simp)).notBlank rfl

lemma PlainPath.isFile (h : PlainPath path) : isFolderPath path = false := by
  cases hfolder : isFolderPath path with
  | false => rfl
  | true =>
    obtain ⟨folder, rfl⟩ := isFolderPath_iff.mp hfolder
    exact absurd rfl (plainPath_append.mp h).2.ne_nil

lemma trimSlash_concat : trimSlash (path ++ ['/']) = path := by
  rw [trimSlash, if_pos isFolderPath_concat, List.dropLast_concat]

lemma trimSlash_file (h : isFolderPath path = false) : trimSlash path = path := by
  rw [trimSlash, h]
  rfl

lemma PlainPath.wellFormed (h : PlainPath path) : WellFormed path := by
  unfold WellFormed
  rwa [trimSlash_file h.isFile]

lemma wellFormed_folder : WellFormed (path ++ ['/']) ↔ PlainPath path := by
  unfold WellFormed
  rw [trimSlash_concat]

lemma WellFormed.cases (h : WellFormed path) :
    isFolderPath path = false ∧ PlainPath path ∨
      ∃ folder, path = folder ++ ['/'] ∧ PlainPath folder := by
  cases hfolder : isFolderPath path with
  | false =>
    unfold WellFormed at h
    rw [trimSlash_file hfolder] at h
    exact Or.inl ⟨rfl, h⟩
  | true =>
    obtain ⟨folder, rfl⟩ := isFolderPath_iff.mp hfolder
    exact Or.inr ⟨folder, rfl, wellFormed_folder.mp h⟩

lemma WellFormed.plain (h : WellFormed path) (hfile : isFolderPath path = false) : PlainPath path := by
  unfold WellFormed at h
  rwa [trimSlash_file hfile] at h

lemma WellFormed.slashes (h : WellFormed path) :
    path ≠ [] ∧ path.head? ≠ some '/' ∧ ¬ ['/', '/'] <:+: path := by
  have hplain : ∀ {p : Path}, PlainPath p → p.head? ≠ some '/' ∧ ¬ ['/', '/'] <:+: p ++ ['/'] := by
    intro p hp
    constructor
    · intro hhead
      obtain ⟨rest, rfl⟩ := List.head?_eq_some_iff.mp hhead
      have hrest : PlainPath ([] ++ '/' :: rest) := hp
      exact absurd rfl (plainPath_append.mp hrest).1.ne_nil
    · intro hinfix
      obtain ⟨before, after, heq⟩ := hinfix
      rcases List.eq_nil_or_concat after with rfl | ⟨after, c, rfl⟩
      · have heq' : before ++ ['/'] = p := by
          have hlast : (before ++ ['/']) ++ ['/'] = p ++ ['/'] := by
            simpa using heq
          exact List.append_inj_left' hlast rfl
        exact absurd rfl (plainPath_append.mp (heq' ▸ hp)).2.ne_nil
      · have heq' : before ++ '/' :: '/' :: after = p := by
          have hlast : (before ++ '/' :: '/' :: after) ++ [c] = p ++ ['/'] := by
            simpa using heq
          exact List.append_inj_left' hlast rfl
        have hafter : PlainPath ([] ++ '/' :: after) := (plainPath_append.mp (heq' ▸ hp)).2
        exact absurd rfl (plainPath_append.mp hafter).1.ne_nil
  rcases h.cases with ⟨-, hp⟩ | ⟨folder, rfl, hp⟩
  · refine ⟨hp.ne_nil, (hplain hp).1, fun hinfix => (hplain hp).2 ?_⟩
    exact hinfix.trans (List.prefix_append _ _).isInfix
  · refine ⟨List.concat_ne_nil _ _, ?_, (hplain hp).2⟩
    rw [List.head?_append_of_ne_nil folder hp.ne_nil]
    exact (hplain hp).1

lemma wellFormed_append (h : rest ≠ []) :
    WellFormed (folder ++ '/' :: rest) ↔ PlainPath folder ∧ WellFormed rest := by
  unfold WellFormed
  have htrim : rest = ['/'] ∨ trimSlash (folder ++ '/' :: rest) = folder ++ '/' :: trimSlash rest := by
    rw [trimSlash, trimSlash]
    have hsame : isFolderPath (folder ++ '/' :: rest) = isFolderPath rest := by
      rw [List.append_cons]
      exact isFolderPath_append h
    rw [hsame]
    cases hfolder : isFolderPath rest with
    | false => exact Or.inr rfl
    | true =>
      right
      show (folder ++ '/' :: rest).dropLast = folder ++ '/' :: rest.dropLast
      rw [List.append_cons, List.dropLast_append_of_ne_nil h, ← List.append_cons]
  rcases htrim with rfl | htrim
  · constructor
    · intro hplain
      rw [List.append_cons, trimSlash_concat] at hplain
      exact absurd rfl (plainPath_append.mp hplain).2.ne_nil
    · intro hplain
      exact absurd rfl hplain.2.ne_nil
  · rw [htrim]
    exact plainPath_append

lemma WellFormed.of_folder (h : WellFormed path) (hfolder : isFolderPath folder = true)
    (hbegins : folder <+: path) :
    WellFormed folder ∧ ∃ rest, path = folder ++ rest ∧ (rest = [] ∨ WellFormed rest) := by
  obtain ⟨stem, rfl⟩ := isFolderPath_iff.mp hfolder
  obtain ⟨rest, rfl⟩ := hbegins
  cases rest with
  | nil =>
    rw [List.append_nil] at h
    exact ⟨h, [], rfl, Or.inl rfl⟩
  | cons c rest =>
    rw [← List.append_cons] at h
    obtain ⟨hstem, hrest⟩ := (wellFormed_append (List.cons_ne_nil c rest)).mp h
    exact ⟨wellFormed_folder.mpr hstem, c :: rest, rfl, Or.inr hrest⟩

lemma WellFormed.append (hfolder : isFolderPath folder = true) (h : WellFormed folder)
    (hrest : rest = [] ∨ WellFormed rest) : WellFormed (folder ++ rest) := by
  rcases hrest with rfl | hrest
  · rwa [List.append_nil]
  · obtain ⟨stem, rfl⟩ := isFolderPath_iff.mp hfolder
    rw [← List.append_cons]
    exact (wellFormed_append hrest.slashes.1).mpr ⟨wellFormed_folder.mp h, hrest⟩

lemma trimEndSlashes_concat : trimEndSlashes (path ++ ['/']) = trimEndSlashes path := by
  unfold trimEndSlashes
  rw [List.rdropWhile_concat_pos _ _ _ (by simp)]

lemma trimEndSlashes_file (h : isFolderPath path = false) : trimEndSlashes path = path := by
  refine List.rdropWhile_eq_self_iff.mpr fun hne hlast => ?_
  have hlast' : path.getLast hne = '/' := of_decide_eq_true hlast
  rw [isFolderPath_iff.mpr ⟨path.dropLast, by rw [← hlast', List.dropLast_append_getLast]⟩] at h
  cases h

lemma PlainPath.trimEndSlashes (h : PlainPath path) : trimEndSlashes path = path :=
  trimEndSlashes_file h.isFile

lemma WellFormed.trimEndSlashes (h : WellFormed path) : trimEndSlashes path = trimSlash path := by
  rcases h.cases with ⟨hfile, hp⟩ | ⟨folder, rfl, hp⟩
  · rw [trimSlash_file hfile, hp.trimEndSlashes]
  · rw [trimSlash_concat, trimEndSlashes_concat, hp.trimEndSlashes]

/-! ## Names -/

lemma name_cases (path : Path) :
    '/' ∉ path ∨ ∃ folder name, path = folder ++ '/' :: name ∧ '/' ∉ name ∧
      rsplitOnce '/' path = some (folder, name) := by
  cases hsplit : rsplitOnce '/' path with
  | none => exact Or.inl (rsplitOnce_none hsplit)
  | some parts =>
    obtain ⟨folder, name⟩ := parts
    obtain ⟨heq, hname⟩ := rsplitOnce_some hsplit
    exact Or.inr ⟨folder, name, heq, hname, rfl⟩

lemma trim_ne_nil {c : Char} (hc : c ∈ seg) (hblank : isWhitespace c = false) : trim seg ≠ [] := by
  intro h
  have hall : ∀ d ∈ (seg.dropWhile isWhitespace).reverse, isWhitespace d = true := by
    have hdrop : ((seg.dropWhile isWhitespace).reverse.dropWhile isWhitespace).reverse = [] := h
    exact List.dropWhile_eq_nil_iff.mp (List.reverse_eq_nil_iff.mp hdrop)
  have hmem : c ∈ seg.dropWhile isWhitespace := by
    rw [← List.takeWhile_append_dropWhile (p := isWhitespace) (l := seg)] at hc
    rcases List.mem_append.mp hc with hc | hc
    · rw [List.mem_takeWhile_imp hc] at hblank
      cases hblank
    · exact hc
  rw [hall c (List.mem_reverse.mpr hmem)] at hblank
  cases hblank

lemma plainSegment_of_mem (h : '(' ∈ seg) : PlainSegment seg where
  notBlank := trim_ne_nil h (by decide)
  notDot := by
    intro he
    subst he
    simp at h
  notDots := by
    intro he
    subst he
    simp at h

/-- The folder a path is in, with its slash; nothing at the root. -/
def above (path : Path) : Path :=
  match rsplitOnce '/' (trimSlash path) with
  | some (folder, _) => folder ++ ['/']
  | none => []

lemma above_prefix : above path <+: path := by
  have htrim : trimSlash path <+: path := by
    unfold trimSlash
    split
    · exact List.dropLast_prefix path
    · exact List.prefix_refl path
  unfold above
  split
  · case h_1 folder name hsplit =>
    obtain ⟨heq, -⟩ := rsplitOnce_some hsplit
    rw [heq] at htrim
    have hslash : folder ++ ['/'] <+: folder ++ '/' :: name :=
      (List.prefix_append_right_inj folder).mpr (List.cons_prefix_cons.mpr ⟨rfl, List.nil_prefix⟩)
    exact hslash.trans htrim
  · exact List.nil_prefix

lemma PlainPath.mark {text : Path} (h : PlainPath (before ++ after)) (hafter : '/' ∉ after)
    (htext : '/' ∉ text) (hmark : '(' ∈ text) :
    PlainPath (before ++ text ++ after) ∧ above (before ++ text ++ after) = above (before ++ after) := by
  rcases name_cases before with hbefore | ⟨folder, name, rfl, hname, -⟩
  · have hno : '/' ∉ before ++ text ++ after := by
      simp only [List.mem_append, not_or]
      exact ⟨⟨hbefore, htext⟩, hafter⟩
    have hold : '/' ∉ before ++ after := by
      simp only [List.mem_append, not_or]
      exact ⟨hbefore, hafter⟩
    have hplain : PlainPath (before ++ text ++ after) := by
      refine (plainPath_segment hno).mpr (plainSegment_of_mem ?_)
      exact List.mem_append_left after (List.mem_append_right before hmark)
    refine ⟨hplain, ?_⟩
    unfold above
    rw [trimSlash_file hplain.isFile, trimSlash_file h.isFile, rsplitOnce_eq_none hno,
      rsplitOnce_eq_none hold]
  · have hno : '/' ∉ name ++ text ++ after := by
      simp only [List.mem_append, not_or]
      exact ⟨⟨hname, htext⟩, hafter⟩
    have hold : '/' ∉ name ++ after := by
      simp only [List.mem_append, not_or]
      exact ⟨hname, hafter⟩
    have hmarked : folder ++ '/' :: name ++ text ++ after = folder ++ '/' :: (name ++ text ++ after) := by
      simp
    have hwhole : folder ++ '/' :: name ++ after = folder ++ '/' :: (name ++ after) := by
      simp
    rw [hwhole] at h
    have hplain : PlainPath (folder ++ '/' :: (name ++ text ++ after)) := by
      refine plainPath_append.mpr ⟨(plainPath_append.mp h).1, ?_⟩
      refine (plainPath_segment hno).mpr (plainSegment_of_mem ?_)
      exact List.mem_append_left after (List.mem_append_right name hmark)
    rw [hmarked, hwhole]
    refine ⟨hplain, ?_⟩
    unfold above
    rw [trimSlash_file hplain.isFile, trimSlash_file h.isFile, rsplitOnce_append hno,
      rsplitOnce_append hold]

lemma notMem_toString {c : Char} (hc : c.isDigit = false) (n : Nat) : c ∉ (toString n).toList := by
  intro h
  have hdigits : c ∈ Nat.toDigits 10 n := by
    simpa [Nat.toString_eq_repr, Nat.repr] using h
  have hdigit : c.isDigit = true := Nat.isDigit_of_mem_toDigits (by decide) (by decide) hdigits
  rw [hc] at hdigit
  cases hdigit

lemma PlainPath.numbered {stem suffix : Path} (h : PlainPath (stem ++ suffix)) (hsuffix : '/' ∉ suffix)
    (n : Nat) :
    PlainPath (numbered stem suffix n) ∧ above (numbered stem suffix n) = above (stem ++ suffix) := by
  have hnumber : Server.numbered stem suffix n =
      stem ++ (" (".toList ++ (toString n).toList ++ [')']) ++ suffix := by
    simp [Server.numbered]
  rw [hnumber]
  refine h.mark hsuffix ?_ ?_
  · simp only [List.mem_append, not_or]
    exact ⟨⟨by decide, notMem_toString rfl n⟩, by decide⟩
  · exact List.mem_append_left _ (List.mem_append_left _ (by decide))

lemma PlainPath.retired {stamp : Path} (h : PlainPath path) (hstamp : '/' ∉ stamp) :
    PlainPath (retiredVersionPath path stamp) := by
  have hstem : ∀ name : Path, '/' ∉ name → (splitStem name).1 ++ (splitStem name).2 = name ∧
      '/' ∉ (splitStem name).2 := by
    intro name hname
    cases name with
    | nil => exact ⟨rfl, List.not_mem_nil⟩
    | cons c rest =>
      have hrest : '/' ∉ rest := fun hmem => hname (List.mem_cons_of_mem c hmem)
      constructor
      · show c :: (rest.takeWhile (· ≠ '.') ++ rest.dropWhile (· ≠ '.')) = c :: rest
        rw [List.takeWhile_append_dropWhile]
      · exact fun hmem => hrest ((List.dropWhile_suffix _).subset hmem)
  have hmark : ∀ text : Path, text = " (replaced ".toList ++ stamp ++ [')'] →
      '/' ∉ text ∧ '(' ∈ text := by
    intro text htext
    subst htext
    constructor
    · simp only [List.mem_append, not_or]
      exact ⟨⟨by decide, hstamp⟩, by decide⟩
    · exact List.mem_append_left _ (List.mem_append_left _ (by decide))
  obtain ⟨htext, hbracket⟩ := hmark _ rfl
  rcases name_cases path with hno | ⟨folder, name, rfl, hname, hsplit⟩
  · obtain ⟨hwhole, hsuffix⟩ := hstem path hno
    have hretired : retiredVersionPath path stamp =
        (splitStem path).1 ++ (" (replaced ".toList ++ stamp ++ [')']) ++ (splitStem path).2 := by
      rw [retiredVersionPath, rsplitOnce_eq_none hno]
      simp [List.append_assoc]
    rw [hretired]
    exact (PlainPath.mark (hwhole.symm ▸ h) hsuffix htext hbracket).1
  · obtain ⟨hwhole, hsuffix⟩ := hstem name hname
    obtain ⟨hfolder, hplain⟩ := plainPath_append.mp h
    have hretired : retiredVersionPath (folder ++ '/' :: name) stamp = folder ++ '/' ::
        ((splitStem name).1 ++ (" (replaced ".toList ++ stamp ++ [')']) ++ (splitStem name).2) := by
      rw [retiredVersionPath, hsplit]
      simp [List.append_assoc, hfolder.ne_nil]
    rw [hretired]
    have hname := (PlainPath.mark (hwhole.symm ▸ hplain) hsuffix htext hbracket).1
    exact plainPath_append.mpr ⟨hfolder, hname⟩

lemma PlainPath.anywayPath {db : Db} {storageId : Uuid} (h : PlainPath path) :
    PlainPath (db.anywayPath storageId path) := by
  have hstem : (stemAndSuffix path).1 ++ (stemAndSuffix path).2 = path ∧ '/' ∉ (stemAndSuffix path).2 := by
    rcases name_cases path with hno | ⟨folder, name, rfl, hname, hsplit⟩
    · rw [stemAndSuffix, rsplitOnce_eq_none hno]
      exact ⟨List.takeWhile_append_dropWhile, fun hmem => hno ((List.dropWhile_suffix _).subset hmem)⟩
    · rw [stemAndSuffix, hsplit]
      refine ⟨?_, fun hmem => hname ((List.dropWhile_suffix _).subset hmem)⟩
      show folder ++ '/' :: name.takeWhile (· ≠ '.') ++ name.dropWhile (· ≠ '.') = folder ++ '/' :: name
      rw [List.append_assoc, List.cons_append, List.takeWhile_append_dropWhile]
  unfold Db.anywayPath pickDuplicatePath
  dsimp only
  split
  · rwa [hstem.1]
  · split
    · exact (PlainPath.numbered (hstem.1.symm ▸ h) hstem.2 1).1
    · exact (PlainPath.numbered (hstem.1.symm ▸ h) hstem.2 _).1

lemma splitSuffix_spec (path : Path) : (Db.splitSuffix path).1 ++ (Db.splitSuffix path).2 = path ∧
    '/' ∉ (Db.splitSuffix path).2 := by
  unfold Db.splitSuffix
  split
  · case h_1 folder name hsplit =>
    obtain ⟨rfl, hname⟩ := rsplitOnce_some hsplit
    split
    · case h_1 stem ext hdot =>
      obtain ⟨rfl, -⟩ := rsplitOnce_some hdot
      simp only [List.mem_append, List.mem_cons, not_or] at hname
      refine ⟨by simp, ?_⟩
      simp only [List.mem_cons, not_or]
      exact hname.2
    · exact ⟨List.append_nil _, List.not_mem_nil⟩
  · case h_2 hno =>
    have hpath := rsplitOnce_none hno
    split
    · case h_1 stem ext hdot =>
      obtain ⟨rfl, -⟩ := rsplitOnce_some hdot
      simp only [List.mem_append, List.mem_cons, not_or] at hpath
      refine ⟨rfl, ?_⟩
      simp only [List.mem_cons, not_or]
      exact hpath.2
    · exact ⟨List.append_nil _, List.not_mem_nil⟩

/-- At the name stands a live folder, and no live file. -/
def Db.OnlyFolderAt (db : Db) (storageId : Uuid) (path : Path) : Prop :=
  db.livePathExists storageId (trimEndSlashes path ++ ['/']) = true ∧
    db.livePathExists storageId (trimEndSlashes path) = false

instance (db : Db) (storageId : Uuid) (path : Path) : Decidable (db.OnlyFolderAt storageId path) :=
  instDecidableAnd

/-- A free name is well formed and in the same folder; it is a folder's where a folder was asked for, or
    where only a folder stands. -/
lemma nextAvailableLivePath_spec {db : Db} {storageId : Uuid} {p : Path} (h : WellFormed path)
    (hok : db.nextAvailableLivePath storageId path = .ok p) :
    WellFormed p ∧ above p = above path ∧
      (isFolderPath p = true ↔ isFolderPath path = true ∨ db.OnlyFolderAt storageId path) := by
  have hplain : PlainPath (trimSlash path) := h
  have habove : ∀ q, PlainPath q → above q = above (trimSlash path) → above (q ++ ['/']) = above path ∧
      above q = above path := by
    intro q hq heq
    have hpath : above (trimSlash path) = above path := by
      rw [above, above, trimSlash_file hplain.isFile]
    rw [hpath] at heq
    refine ⟨?_, heq⟩
    rw [← heq, above, above, trimSlash_concat, trimSlash_file hq.isFile]
  unfold Db.nextAvailableLivePath at hok
  rw [h.trimEndSlashes] at hok
  dsimp only at hok
  generalize hfolder : (isFolderPath path || (decide (path ≠ []) &&
    db.livePathExists storageId (trimSlash path ++ ['/']) &&
      !db.livePathExists storageId (trimSlash path))) = asFolder at hok
  have hkind : asFolder = true ↔ isFolderPath path = true ∨ db.OnlyFolderAt storageId path := by
    rw [← hfolder, Db.OnlyFolderAt, h.trimEndSlashes]
    simp [h.slashes.1]
  cases asFolder with
  | true =>
    simp only [if_true] at hok
    have hnumbered : ∀ i, ∃ q, numbered (trimSlash path) ['/'] i = q ++ ['/'] ∧ PlainPath q ∧
        above q = above (trimSlash path) := by
      intro i
      have hnil : PlainPath (trimSlash path ++ []) := by rwa [List.append_nil]
      obtain ⟨hq, hsame⟩ := PlainPath.numbered hnil List.not_mem_nil i
      rw [List.append_nil] at hsame
      exact ⟨numbered (trimSlash path) [] i, by simp [numbered], hq, hsame⟩
    have hspec : ∀ q, PlainPath q → above q = above (trimSlash path) →
        WellFormed (q ++ ['/']) ∧ above (q ++ ['/']) = above path ∧
          (isFolderPath (q ++ ['/']) = true ↔ isFolderPath path = true ∨ db.OnlyFolderAt storageId path) :=
      fun q hq hsame => ⟨wellFormed_folder.mpr hq, (habove q hq hsame).1,
        ⟨fun _ => hkind.mp rfl, fun _ => isFolderPath_concat⟩⟩
    split at hok
    · cases hok
      exact hspec _ hplain rfl
    · split at hok
      · case h_1 i hi =>
        cases hok
        obtain ⟨q, heq, hq, hsame⟩ := hnumbered i
        rw [heq]
        exact hspec q hq hsame
      · cases hok
  | false =>
    simp only [Bool.false_eq_true, if_false] at hok
    have hspec : ∀ q, PlainPath q → above q = above (trimSlash path) →
        WellFormed q ∧ above q = above path ∧
          (isFolderPath q = true ↔ isFolderPath path = true ∨ db.OnlyFolderAt storageId path) := by
      intro q hq hsame
      refine ⟨hq.wellFormed, (habove q hq hsame).2, ?_⟩
      rw [hq.isFile]
      exact hkind
    split at hok
    · cases hok
      exact hspec _ hplain rfl
    · split at hok
      · case h_1 i hi =>
        cases hok
        obtain ⟨hwhole, hsuffix⟩ := splitSuffix_spec (trimSlash path)
        obtain ⟨hq, hsame⟩ := PlainPath.numbered (hwhole.symm ▸ hplain) hsuffix i
        rw [hwhole] at hsame
        exact hspec _ hq hsame
      · cases hok

lemma WellFormed.lastName (h : WellFormed path) :
    PlainPath (lastName path) ∧ '/' ∉ lastName path := by
  have hplain : PlainPath (trimSlash path) := h
  unfold Server.lastName
  rw [h.trimEndSlashes]
  dsimp only
  rcases name_cases (trimSlash path) with hno | ⟨folder, name, heq, hname, hsplit⟩
  · rw [rsplitOnce_eq_none hno]
    exact ⟨hplain, hno⟩
  · rw [hsplit]
    rw [heq] at hplain
    exact ⟨(plainPath_append.mp hplain).2, hname⟩

lemma WellFormed.pathInFolder_kind (h : WellFormed path) (dest : Path) :
    isFolderPath (pathInFolder path dest) = isFolderPath path := by
  obtain ⟨hname, hslash⟩ := h.lastName
  unfold Server.pathInFolder
  dsimp only
  cases hfolder : isFolderPath path with
  | true => exact isFolderPath_concat
  | false =>
    rw [if_neg Bool.false_ne_true]
    split
    · exact hname.isFile
    · rw [List.append_cons, isFolderPath_append hname.ne_nil]
      exact hname.isFile

lemma WellFormed.pathInFolder {dest : Path} (h : WellFormed path) (hdest : dest = [] ∨ PlainPath dest) :
    WellFormed (pathInFolder path dest) := by
  have hplain : PlainPath (if dest = [] then Server.lastName path
      else dest ++ '/' :: Server.lastName path) := by
    rcases hdest with rfl | hdest
    · exact h.lastName.1
    · rw [if_neg hdest.ne_nil]
      exact plainPath_append.mpr ⟨hdest, h.lastName.1⟩
  unfold Server.pathInFolder
  dsimp only
  split
  · exact wellFormed_folder.mpr hplain
  · exact hplain.wellFormed

/-! ## Folders above -/

lemma slash_notMem_segment (h : seg ∈ path.splitOn '/') : '/' ∉ seg := by
  rw [List.splitOn_eq_splitOnP] at h
  intro hmem
  have hno := splitOnP_pieces seg h '/' hmem
  simp at hno

lemma dropTrailingEmpty_plain {segs : List Path} (h : ∀ seg ∈ segs, PlainSegment seg) :
    dropTrailingEmpty segs = segs := by
  unfold dropTrailingEmpty
  refine List.rdropWhile_eq_self_iff.mpr fun hne hlast => ?_
  have hplain := h _ (List.getLast_mem hne)
  rcases of_decide_eq_true hlast with hempty | hdot
  · exact hplain.notBlank (by rw [hempty]; rfl)
  · exact hplain.notDot hdot

lemma parentDir_plain (h : PlainPath path) : parentDir path = (rsplitOnce '/' path).map (·.1) := by
  unfold parentDir
  unfold PlainPath at h
  have hpath : ['/'].intercalate (path.splitOn '/') = path := List.intercalate_splitOn '/'
  have hslash : ∀ seg ∈ path.splitOn '/', '/' ∉ seg := fun seg hseg => slash_notMem_segment hseg
  split
  · case h_1 hnil => exact absurd hnil (List.splitOn_ne_nil '/' path)
  · case h_2 first rest hsplit =>
    rw [hsplit] at h hpath hslash
    have hfirst := h first List.mem_cons_self
    have hrest : ∀ seg ∈ rest, PlainSegment seg := fun seg hseg => h seg (List.mem_cons_of_mem first hseg)
    rw [dropTrailingEmpty_plain hrest]
    rcases List.eq_nil_or_concat rest with rfl | ⟨kept, last, rfl⟩
    · have hone : path = first := by
        simpa using hpath.symm
      rw [hone, rsplitOnce_eq_none (hslash first List.mem_cons_self)]
      rfl
    · rw [List.concat_eq_append] at hrest hslash hpath ⊢
      have hkept : ∀ seg ∈ kept, PlainSegment seg := fun seg hseg => hrest seg (List.mem_append_left _ hseg)
      have hlast : '/' ∉ last := hslash last (by simp)
      have hwhole : path = ['/'].intercalate (first :: kept) ++ '/' :: last := by
        rw [← hpath, ← List.cons_append,
          intercalate_append (List.cons_ne_nil first kept) (List.cons_ne_nil last [])]
        simp
      rw [hwhole, rsplitOnce_append hlast]
      have hne : first ≠ [] := by
        intro he
        exact hfirst.notBlank (by rw [he]; rfl)
      split
      · case h_1 hnil => exact absurd hnil (List.concat_ne_nil last kept)
      · dsimp only
        rw [List.dropLast_concat, dropTrailingEmpty_plain hkept, if_neg hne]
        rfl

lemma mem_parentFolders (h : WellFormed path) (hfolder : folder ∈ Db.parentFolders path) :
    WellFormed folder ∧ isFolderPath folder = true ∧ folder <+: above path := by
  have hplain : PlainPath (trimSlash path) := h
  unfold Db.parentFolders at hfolder
  rw [h.trimEndSlashes, parentDir_plain hplain] at hfolder
  unfold above
  cases hsplit : rsplitOnce '/' (trimSlash path) with
  | none =>
    rw [hsplit] at hfolder
    exact absurd hfolder List.not_mem_nil
  | some parts =>
    obtain ⟨parent, name⟩ := parts
    obtain ⟨heq, -⟩ := rsplitOnce_some hsplit
    rw [heq] at hplain
    have hparent := (plainPath_append.mp hplain).1
    rw [hsplit] at hfolder
    have hparts : (parent.splitOn '/').filter (fun seg => decide (seg ≠ [])) = parent.splitOn '/' := by
      refine List.filter_eq_self.mpr fun seg hseg => decide_eq_true fun hnil => ?_
      exact (hparent seg hseg).notBlank (by rw [hnil]; rfl)
    simp only [Option.map_some, hparts] at hfolder
    obtain ⟨front, hfront, rfl⟩ := List.mem_map.mp hfolder
    have hinit : front ∈ (parent.splitOn '/').inits := List.mem_of_mem_tail hfront
    obtain ⟨back, hback⟩ := (List.mem_inits _ _).mp hinit
    have hne : front ≠ [] := by
      intro hnil
      subst hnil
      cases hsegs : parent.splitOn '/' with
      | nil => exact List.splitOn_ne_nil '/' parent hsegs
      | cons first segs =>
        rw [hsegs, List.inits_cons, List.tail_cons] at hfront
        obtain ⟨segs', -, hcons⟩ := List.mem_map.mp hfront
        cases hcons
    have hsegs : ∀ seg ∈ front, seg ∈ parent.splitOn '/' := fun seg hseg =>
      hback ▸ List.mem_append_left back hseg
    have hsplitFront : (['/'].intercalate front).splitOn '/' = front :=
      List.splitOn_intercalate '/' (fun seg hseg => slash_notMem_segment (hsegs seg hseg)) hne
    refine ⟨wellFormed_folder.mpr ?_, isFolderPath_concat, ?_⟩
    · unfold PlainPath
      rw [hsplitFront]
      exact fun seg hseg => hparent seg (hsegs seg hseg)
    · have hwhole : ['/'].intercalate (parent.splitOn '/') = parent := List.intercalate_splitOn '/'
      cases back with
      | nil =>
        rw [List.append_nil] at hback
        rw [hback, hwhole]
      | cons seg back =>
        rw [← hback, intercalate_append hne (List.cons_ne_nil seg back)] at hwhole
        show _ <+: parent ++ ['/']
        rw [← hwhole]
        exact (List.prefix_append _ _).trans (List.prefix_append _ _)

end Sarca.Server
