import Sarca.Server.Listing

/-!
# What a deletion leaves to be seen

`delete` trashes a file, or a folder with all that is in it, and puts a marker into the folder above when no
live row is left there, so that the folder does not vanish from the listings. A row that is not uploaded yet
is live and is not listed: it keeps the marker away and shows nothing. `delete_keeps_iff` says when every
folder above that was listed still is.
-/

namespace Sarca.Server

variable {db db' : Db} {storageId : Uuid} {folder dir name : Path} {rows : List FileRow}

/-! ## Shown folders -/

/-- Every listing of the folder has an entry for a folder of the name. -/
def Db.ShowsFolder (db : Db) (storageId : Uuid) (folder name : Path) : Prop :=
  ∀ elements, db.ListDir storageId folder elements →
    ∃ e ∈ elements, e.path = dirPrefix folder ++ name ∧ e.name = name ∧ e.isFile = false

/-- A row is below the name, and none is the name itself. -/
def Above (rows : List FileRow) (dir name : Path) : Prop :=
  name ≠ [] ∧ '/' ∉ name ∧ (∃ r ∈ rows, dir ++ name ++ ['/'] <+: r.path) ∧ ∀ r ∈ rows, r.path ≠ dir ++ name

instance Above.decidable (rows : List FileRow) (dir name : Path) : Decidable (Above rows dir name) :=
  inferInstanceAs (Decidable (_ ∧ _ ∧ _ ∧ _))

lemma foldl_add_isFile {l : List FileRow} (acc : Acc) : (l.foldl (Acc.add dir name) acc).isFile = true ↔
    acc.isFile = true ∨ ∃ r ∈ l, dir ++ name = r.path := by
  induction l generalizing acc with
  | nil => simp
  | cons r l ih =>
    rw [List.foldl_cons, ih]
    by_cases hr : dir ++ name = r.path
    · have hadd : (acc.add dir name r).isFile = true := by rw [Acc.add, if_pos hr]
      simp [hadd, hr]
    · have hadd : (acc.add dir name r).isFile = acc.isFile := by rw [Acc.add, if_neg hr]
      simp [hadd, hr]

lemma shows_iff {elements : List FSElement} (helements : elements.Perm (aggregateDirListing rows dir)) :
    (∃ e ∈ elements, e.path = dir ++ name ∧ e.name = name ∧ e.isFile = false) ↔ Above rows dir name := by
  have hfile : (accOf rows dir name).isFile = false ↔ ∀ r ∈ collected rows dir name, dir ++ name ≠ r.path := by
    rw [← Bool.not_eq_true, accOf, foldl_add_isFile]
    simp [Acc.empty]
  constructor
  · rintro ⟨e, he, -, rfl, hfolder⟩
    obtain ⟨name, hsome, rfl⟩ := (mem_elements helements).mp he
    obtain ⟨r, hr⟩ := List.exists_mem_of_ne_nil _ hsome
    obtain ⟨hmem, hname, hslash, hat⟩ := mem_collected.mp hr
    have hno := hfile.mp hfolder
    refine ⟨hname, hslash, ⟨r, hmem, hat.resolve_left (Ne.symm (hno r hr))⟩, fun r' hr' hpath => ?_⟩
    exact hno r' (mem_collected.mpr ⟨hr', hname, hslash, .inl hpath⟩) hpath.symm
  · rintro ⟨hname, hslash, ⟨r, hr, hbelow⟩, hno⟩
    have hmem : r ∈ collected rows dir name := mem_collected.mpr ⟨hr, hname, hslash, .inr hbelow⟩
    refine ⟨_, (mem_elements helements).mpr ⟨name, List.ne_nil_of_mem hmem, rfl⟩, rfl, rfl, ?_⟩
    exact hfile.mpr fun r' hr' hpath => hno r' (mem_collected.mp hr').1 hpath.symm

lemma showsFolder_iff : db.ShowsFolder storageId folder name ↔
    Above (db.listedRows storageId (dirPrefix folder)) (dirPrefix folder) name := by
  constructor
  · intro h
    exact (shows_iff (.refl _)).mp (h _ ⟨_, .refl _, .refl _⟩)
  · rintro ⟨hname, hslash, ⟨r, hr, hbelow⟩, hno⟩ elements ⟨rows, hrows, helements⟩
    refine (shows_iff helements).mpr ⟨hname, hslash, ⟨r, hrows.mem_iff.mpr hr, hbelow⟩, fun r' hr' => ?_⟩
    exact hno r' (hrows.mem_iff.mp hr')

/-! ## What a deletion leaves -/

namespace Db

/-- What `delete` answers: the path, or the folder it names. -/
def deletedTarget (db : Db) (storageId : Uuid) (path : Path) : Path :=
  let folder := db.folderPrefix storageId path fun r => r.Live
  if folder = [] then path else folder

/-- A live row that the deletion does not trash. -/
def Stays (db : Db) (storageId : Uuid) (path : Path) (r : FileRow) : Prop :=
  r ∈ db.files ∧ r.Live ∧
    Db.atOrUnder storageId path (db.folderPrefix storageId path fun r => r.Live) (fun r => r.Live) r = false

/-- The folder above what is deleted, with the slash. -/
def ParentIs (db : Db) (storageId : Uuid) (path marker : Path) : Prop :=
  ∃ parent, parentDir (if db.folderPrefix storageId path (fun r => r.Live) = [] then path
    else trimEndSlashes (db.folderPrefix storageId path fun r => r.Live)) = some parent ∧
      marker = parent ++ ['/']

/-- A marker is put into the folder above, where no live row is left. -/
def Marks (db : Db) (storageId : Uuid) (path marker : Path) : Prop :=
  db.ParentIs storageId path marker ∧
    ∀ r, db.Stays storageId path r → r.storageId = storageId → startsWith r.path marker = false

end Db

lemma folderPrefix_isFolder {path : Path} {p : FileRow → Bool} (h : db.folderPrefix storageId path p ≠ []) :
    isFolderPath (db.folderPrefix storageId path p) = true := by
  unfold Db.folderPrefix at h ⊢
  split at h
  · case isTrue hfolder => rwa [if_pos hfolder]
  · case isFalse hfile =>
    rw [if_neg hfile]
    split at h
    · case isTrue hany =>
      rw [if_pos hany]
      simp [isFolderPath]
    · exact absurd rfl h

lemma delete_live (hwf : db.Wf) {path : Path} {now : Instant} {markerId : Uuid} {order : List Uuid}
    (hok : db.delete path storageId now markerId order = .ok db') (r : FileRow) :
    (r ∈ db'.files ∧ r.Live) ↔
      db.Stays storageId path r ∨
        ∃ marker, db.Marks storageId path marker ∧ r = folderMarker marker storageId markerId := by
  obtain ⟨db₁, hupd, -, hparent⟩ := Db.delete_inv hok
  have hkeeps : KeepsKey fun r : FileRow => r.withDeletedAt (some now) := fun _ => ⟨rfl, rfl⟩
  obtain ⟨-, hrows⟩ := updateFiles_rows hwf hkeeps hupd
  have hstays (r : FileRow) : (r ∈ db₁.files ∧ r.Live) ↔ db.Stays storageId path r := by
    rw [hrows]
    constructor
    · rintro ⟨⟨q, hq, hqr⟩, hl⟩
      split at hqr
      · rw [hqr] at hl
        cases hl
      · case isFalse hout =>
        subst hqr
        exact ⟨hq, hl, Bool.not_eq_true _ ▸ hout⟩
    · rintro ⟨hr, hl, hout⟩
      exact ⟨⟨r, hr, by rw [hout, if_neg Bool.false_ne_true]⟩, hl⟩
  have hmarks (marker : Path) : db.Marks storageId path marker ↔ db.ParentIs storageId path marker ∧
      ¬∃ r ∈ db₁.files, r.storageId = storageId ∧ r.Live ∧ startsWith r.path marker = true := by
    unfold Db.Marks
    refine and_congr_right fun _ => ?_
    simp only [← hstays, not_exists, not_and, Bool.not_eq_true]
    exact ⟨fun h r hr hs hl => h r ⟨hr, hl⟩ hs, fun h r ⟨hr, hl⟩ hs => h r hr hs hl⟩
  rw [← hstays]
  rcases Db.recreateParent_inv hparent with ⟨rfl, hany⟩ | ⟨parent, hparent, hany, hins⟩
  · -- no marker is missing
    rw [or_iff_left]
    rintro ⟨marker, hmark, -⟩
    obtain ⟨⟨parent, hsome, rfl⟩, hnone⟩ := (hmarks marker).mp hmark
    obtain ⟨r, hr, hin⟩ := List.any_eq_true.mp (hany parent hsome)
    exact hnone ⟨r, hr, of_decide_eq_true hin⟩
  · rw [Db.mem_insertFile hins]
    have hmark : db.Marks storageId path (parent ++ ['/']) := by
      refine (hmarks _).mpr ⟨⟨parent, hparent, rfl⟩, ?_⟩
      rintro ⟨r, hr, hin⟩
      exact hany (List.any_eq_true.mpr ⟨r, hr, decide_eq_true hin⟩)
    constructor
    · rintro ⟨hr | rfl, hl⟩
      · exact .inl ⟨hr, hl⟩
      · exact .inr ⟨_, hmark, rfl⟩
    · rintro (⟨hr, hl⟩ | ⟨marker, ⟨⟨found, hsome, rfl⟩, -⟩, rfl⟩)
      · exact ⟨.inl hr, hl⟩
      · obtain rfl : parent = found := Option.some.inj (hparent.symm.trans hsome)
        exact ⟨.inr rfl, rfl⟩

/-- Every folder above what is deleted that was shown still is, and the live rows outside are left alone. -/
structure KeepsAncestors (db db' : Db) (storageId : Uuid) (target : Path) : Prop where
  shown : ∀ folder name, dirPrefix folder ++ name ++ ['/'] <+: target →
    dirPrefix folder ++ name ++ ['/'] ≠ target →
    db.ShowsFolder storageId folder name → db'.ShowsFolder storageId folder name
  outside : ∀ r ∈ db.files, r.Live →
    ¬(r.storageId = storageId ∧ (r.path = target ∨ isFolderPath target = true ∧ target <+: r.path)) →
    r ∈ db'.files

/-- Each folder above what is deleted that is shown keeps an uploaded row below it, or the marker is put below
    it, as no live row stays in the folder right above. -/
def Db.KeepsFoldersShown (db : Db) (storageId : Uuid) (path : Path) : Prop :=
  ∀ folder name, dirPrefix folder ++ name ++ ['/'] <+: db.deletedTarget storageId path →
    dirPrefix folder ++ name ++ ['/'] ≠ db.deletedTarget storageId path → db.ShowsFolder storageId folder name →
    (∃ r, db.Stays storageId path r ∧ r.storageId = storageId ∧ r.isUploaded = true ∧
      dirPrefix folder ++ name ++ ['/'] <+: r.path) ∨
      ∃ marker, db.Marks storageId path marker ∧ dirPrefix folder ++ name ++ ['/'] <+: marker

section Deleted

variable {path : Path} {now : Instant} {markerId : Uuid} {order : List Uuid}

/-- A folder that was shown is so where an uploaded row stays below it or the marker is. -/
lemma showsFolder_deleted (hwf : db.Wf) (hok : db.delete path storageId now markerId order = .ok db')
    (hshown : db.ShowsFolder storageId folder name) : db'.ShowsFolder storageId folder name ↔
    (∃ r, db.Stays storageId path r ∧ r.storageId = storageId ∧ r.isUploaded = true ∧
      dirPrefix folder ++ name ++ ['/'] <+: r.path) ∨
      ∃ marker, db.Marks storageId path marker ∧ dirPrefix folder ++ name ++ ['/'] <+: marker := by
  rw [showsFolder_iff] at hshown ⊢
  generalize dirPrefix folder = dir at *
  obtain ⟨hname, hslash, ⟨q, hq, t, hqt⟩, hno⟩ := hshown
  -- what is below the name is in the range
  have hrange {p : Path} (hp : dir ++ name ++ ['/'] <+: p) : dir = [] ∨ startsWith p dir = true := by
    refine (of_decide_eq_true (List.mem_filter.mp hq).2).2.1.imp_right fun hin => ?_
    obtain ⟨rest, rfl⟩ := hp
    obtain ⟨c, seg, rfl⟩ := List.exists_cons_of_ne_nil hname
    rw [← hqt, List.append_assoc, List.append_assoc, startsWith_append] at hin
    rw [List.append_assoc, List.append_assoc, startsWith_append]
    exact hin
  have hmem {r : FileRow} : r ∈ db'.listedRows storageId dir ↔ (r ∈ db'.files ∧ r.Live) ∧
      r.storageId = storageId ∧ (dir = [] ∨ startsWith r.path dir = true) ∧ r.isUploaded = true := by
    unfold Db.listedRows
    rw [List.mem_filter, decide_eq_true_eq]
    tauto
  constructor
  · rintro ⟨-, -, ⟨r, hr, hbelow⟩, -⟩
    obtain ⟨hlive, hs, -, hup⟩ := hmem.mp hr
    obtain hstays | ⟨marker, hmarks, rfl⟩ := (delete_live hwf hok r).mp hlive
    · exact .inl ⟨r, hstays, hs, hup, hbelow⟩
    · exact .inr ⟨marker, hmarks, hbelow⟩
  · intro h
    refine ⟨hname, hslash, ?_, fun r hr hpath => ?_⟩
    · obtain ⟨r, hstays, hs, hup, hbelow⟩ | ⟨marker, hmarks, hbelow⟩ := h
      · exact ⟨r, hmem.mpr ⟨(delete_live hwf hok r).mpr (.inl hstays), hs, hrange hbelow, hup⟩, hbelow⟩
      · refine ⟨folderMarker marker storageId markerId, hmem.mpr ⟨?_, rfl, hrange hbelow, rfl⟩, hbelow⟩
        exact (delete_live hwf hok _).mpr (.inr ⟨marker, hmarks, rfl⟩)
    · obtain ⟨hlive, hs, hin, hup⟩ := hmem.mp hr
      obtain ⟨hr, hl, -⟩ | ⟨marker, ⟨⟨parent, -, rfl⟩, -⟩, rfl⟩ := (delete_live hwf hok r).mp hlive
      · exact hno r (List.mem_filter.mpr ⟨hr, decide_eq_true ⟨hs, hin, hup, hl⟩⟩) hpath
      · -- a marker ends with a slash, the name does not
        have hlast := congrArg List.getLast? hpath
        rw [List.getLast?_append_of_ne_nil _ hname] at hlast
        have hends : name.getLast? = some '/' :=
          hlast.symm.trans (by simp [folderMarker, InFile.new, InFile.toRow])
        exact hslash (List.mem_of_getLast? hends)

lemma delete_outside (hwf : db.Wf) (hok : db.delete path storageId now markerId order = .ok db') {r : FileRow}
    (hr : r ∈ db.files) (hl : r.Live)
    (hout : ¬(r.storageId = storageId ∧ (r.path = db.deletedTarget storageId path ∨
      isFolderPath (db.deletedTarget storageId path) = true ∧ db.deletedTarget storageId path <+: r.path))) :
    r ∈ db'.files := by
  refine ((delete_live hwf hok r).mpr (.inl ⟨hr, hl, ?_⟩)).1
  unfold Db.deletedTarget at hout
  unfold Db.atOrUnder
  dsimp only at hout
  rw [decide_eq_false_iff_not]
  rintro ⟨hs, -, hat⟩
  split at hat
  · case isTrue hnone =>
    rw [if_pos hnone] at hout
    exact hout ⟨hs, .inl hat⟩
  · case isFalse hsome =>
    rw [if_neg hsome] at hout
    exact hout ⟨hs, .inr ⟨folderPrefix_isFolder hsome, prefix_of_startsWith hat⟩⟩

/-- A deletion keeps the folders above exactly when each that was shown keeps something to show. -/
theorem delete_keeps_iff (hwf : db.Wf) (hok : db.delete path storageId now markerId order = .ok db') :
    KeepsAncestors db db' storageId (db.deletedTarget storageId path) ↔
      db.KeepsFoldersShown storageId path := by
  constructor
  · intro h folder name hin hne hshown
    exact (showsFolder_deleted hwf hok hshown).mp (h.shown folder name hin hne hshown)
  · intro h
    refine ⟨fun folder name hin hne hshown => ?_, fun r hr hl hout => delete_outside hwf hok hr hl hout⟩
    exact (showsFolder_deleted hwf hok hshown).mpr (h folder name hin hne hshown)

end Deleted

/-! ## A file beside an upload -/

def fileInFolder : Db :=
  { Db.fresh [⟨1, 0⟩] with files := [sevenBytes 1 "a/b"] }

/-- The file with another one that is still being uploaded. -/
def besideUpload : Db :=
  { Db.fresh [⟨1, 0⟩] with files := [sevenBytes 1 "a/b", { sevenBytes 2 "a/c" with isUploaded := false }] }

lemma fileInFolder_wf : fileInFolder.Wf where
  idUnique := by simp [fileInFolder]
  aliveUnique := by simp [fileInFolder]
  storageExists := by decide
  eventsGrow := List.Pairwise.nil
  eventsSeen := fun _ he => absurd he List.not_mem_nil

lemma fileInFolder_keepsFoldersShown : fileInFolder.KeepsFoldersShown 1 "a/b".toList := by
  intro folder name hin hne hshown
  refine .inr ⟨['a', '/'], ⟨⟨['a'], by decide, rfl⟩, ?_⟩, ?_⟩
  · rintro r ⟨hr, hl, hout⟩ hs
    obtain rfl := List.mem_singleton.mp hr
    revert hout
    decide
  · -- what ends with a slash before the file is its folder
    have htarget : fileInFolder.deletedTarget 1 "a/b".toList = "a/b".toList := by decide
    rw [htarget] at hin hne
    have hends : (dirPrefix folder ++ name ++ ['/']).getLast? = some '/' := by simp
    have hprefixes : ∀ p ∈ "a/b".toList.inits, p.getLast? = some '/' → p <+: ['a', '/'] := by decide
    exact hprefixes _ ((List.mem_inits _ _).mpr hin) hends

/-- Where the file is deleted its folder is still shown. -/
theorem fileInFolder_keeps : ∃ db', fileInFolder.delete "a/b".toList 1 100 7 [] = .ok db' ∧
    KeepsAncestors fileInFolder db' 1 (fileInFolder.deletedTarget 1 "a/b".toList) := by
  obtain ⟨db', hok⟩ : ∃ db', fileInFolder.delete "a/b".toList 1 100 7 [] = .ok db' := ⟨_, rfl⟩
  exact ⟨db', hok, (delete_keeps_iff fileInFolder_wf hok).mpr fileInFolder_keepsFoldersShown⟩

/-- Beside the upload the folder vanishes. -/
theorem besideUpload_vanishes : ∃ db', besideUpload.delete "a/b".toList 1 100 7 [] = .ok db' ∧
    ¬KeepsAncestors besideUpload db' 1 (besideUpload.deletedTarget 1 "a/b".toList) := by
  refine ⟨_, rfl, fun h => ?_⟩
  have hshown := h.shown [] ['a'] (by decide) (by decide) (showsFolder_iff.mpr (by decide))
  rw [showsFolder_iff] at hshown
  revert hshown
  decide

end Sarca.Server
