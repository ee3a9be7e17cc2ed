import Sarca.Server.Import

/-!
# Statements that keep the paths

`PathsCanonical` asks that every path in the files table is well formed, and that a row is a folder's or a
file's as it was made. `PathsSound` is what a statement has to bring for that: well-formed paths, each of the
kind of its row. `follows_attempt` says what such a statement leaves of the rows, one lemma for each kind of
statement before it, and `PathsCanonical.apply` is the step.
-/

namespace Sarca.Server
open Sarca.Lib

/-- A rename keeps the chosen rows well formed, and each a folder's or a file's. -/
def RewritesSound (db : Db) (storageId : Uuid) (liveOnly : Bool) (oldPath newPath : Path) : Prop :=
  ∀ r ∈ db.files, Db.renamed oldPath storageId liveOnly r = true →
    WellFormed (Db.rewrittenPath oldPath newPath r.path) ∧
      isFolderPath (Db.rewrittenPath oldPath newPath r.path) = isFolderPath r.path

/-- The paths a statement writes are well formed, and of the kind of their rows. -/
def PathsSound (db : Db) : Statement → Prop
  | .row (.createFile inObj _) => WellFormed inObj.path ∧ isFolderPath inObj.path = false
  | .row (.createFolder inObj _) => WellFormed inObj.path ∧ isFolderPath inObj.path = true
  | .row (.ensureLiveParentFolders path _ _ _) => WellFormed path
  | .row (.updatePath oldPath newPath storageId _) => RewritesSound db storageId true oldPath newPath
  | .row (.updateTrashedPath oldPath newPath storageId _) =>
    RewritesSound db storageId false oldPath newPath
  | .row (.replaceContent fileId _ retiredPath _ _ _) =>
    WellFormed retiredPath ∧
      ∀ r ∈ db.files, r.id = fileId → isFolderPath retiredPath = isFolderPath r.path
  | .insertClonedFile source destPath _ =>
    WellFormed destPath ∧ isFolderPath destPath = isFolderPath source.path
  | _ => True

/-- Whether the row a statement inserts stands for a folder, when `kinds` says it of the others. -/
def Statement.makesFolder (kinds : Uuid → Bool) : Statement → Bool
  | .row (.createFile _ _) => false
  | .row (.replaceContent fileId _ _ _ _ _) => kinds fileId
  | .insertClonedFile source _ _ => isFolderPath source.path
  -- a folder, or the marker of one
  | _ => true

/-- The database, with what each row was made as. -/
structure TrackedDb where
  db : Db
  isFolder : Uuid → Bool

/-- One statement: a row it inserts is what the statement makes. -/
def TrackedDb.apply (maxVariables : Nat) (t : TrackedDb) (st : Statement) : TrackedDb :=
  match st.attempt maxVariables t.db with
  | .ok db => ⟨db, fun id => if (t.db.fileById id).isSome then t.isFolder id else st.makesFolder t.isFolder⟩
  | .error _ => t

/-- Every path is well formed, and a row is a folder's or a file's as it was made. -/
structure PathsCanonical (t : TrackedDb) : Prop where
  wellFormed : ∀ r ∈ t.db.files, WellFormed r.path
  kind : ∀ r ∈ t.db.files, isFolderPath r.path = t.isFolder r.id

/-! ## What a statement leaves of the rows -/

/-- The rows after some of them were written: well formed, each of the kind it was, or new and a folder's as
    `makes` says. -/
def RowsFollow (makes : Bool) (db db' : Db) : Prop :=
  ∀ r' ∈ db'.files, WellFormed r'.path ∧
    ((∃ r ∈ db.files, r.id = r'.id ∧ isFolderPath r'.path = isFolderPath r.path) ∨
      (∀ r ∈ db.files, r.id ≠ r'.id) ∧ isFolderPath r'.path = makes)

def RowsStay (db db' : Db) : Prop :=
  ∀ r ∈ db.files, ∃ r' ∈ db'.files, r'.id = r.id

variable {m : Bool} {db db' db'' : Db}

lemma RowsFollow.of_sub (h : ∀ r ∈ db.files, WellFormed r.path) (hsub : ∀ r ∈ db'.files, r ∈ db.files) :
    RowsFollow m db db' :=
  fun r hr => ⟨h r (hsub r hr), Or.inl ⟨r, hsub r hr, rfl, rfl⟩⟩

lemma RowsFollow.wellFormed (h : RowsFollow m db db') : ∀ r ∈ db'.files, WellFormed r.path :=
  fun r hr => (h r hr).1

lemma RowsFollow.trans (h : RowsFollow m db db') (hstay : RowsStay db db') (h' : RowsFollow m db' db'') :
    RowsFollow m db db'' := by
  intro r'' hr''
  obtain ⟨hwell, hcase⟩ := h' r'' hr''
  refine ⟨hwell, ?_⟩
  rcases hcase with ⟨r', hr', hid', hkind'⟩ | ⟨hnew, hkind⟩
  · rcases (h r' hr').2 with ⟨r, hr, hid, hkind⟩ | ⟨hnew, hkind⟩
    · exact Or.inl ⟨r, hr, hid.trans hid', hkind'.trans hkind⟩
    · exact Or.inr ⟨fun r hr => hid' ▸ hnew r hr, hkind'.trans hkind⟩
  · refine Or.inr ⟨fun r hr hid => ?_, hkind⟩
    obtain ⟨r', hr', hsame⟩ := hstay r hr
    exact hnew r' hr' (hsame.trans hid)

lemma RowsStay.refl (db : Db) : RowsStay db db :=
  fun r hr => ⟨r, hr, rfl⟩

lemma RowsStay.trans (h : RowsStay db db') (h' : RowsStay db' db'') : RowsStay db db'' := by
  intro r hr
  obtain ⟨r', hr', hid⟩ := h r hr
  obtain ⟨r'', hr'', hid'⟩ := h' r' hr'
  exact ⟨r'', hr'', hid'.trans hid⟩

lemma follows_insertFile {row : FileRow} (h : ∀ r ∈ db.files, WellFormed r.path)
    (hok : db.insertFile row = .ok db') (hrow : WellFormed row.path) (hkind : isFolderPath row.path = m) :
    RowsFollow m db db' ∧ RowsStay db db' := by
  constructor
  · intro r hr
    cases (Db.mem_insertFile hok).mp hr with
    | inl hr => exact ⟨h r hr, Or.inl ⟨r, hr, rfl, rfl⟩⟩
    | inr hr =>
      subst hr
      obtain ⟨hnone, -, -, -⟩ := Db.insertFile_ok hok
      refine ⟨hrow, Or.inr ⟨fun q hq => ?_, hkind⟩⟩
      simpa using List.find?_eq_none.mp hnone q hq
  · intro r hr
    exact ⟨r, (Db.mem_insertFile hok).mpr (Or.inl hr), rfl⟩

lemma rowsStay_updateFiles (hwf : db.Wf) {order : List Uuid} {choose : FileRow → Bool}
    {f : FileRow → FileRow} (hf : KeepsKey f) (hok : db.updateFiles order choose f = .ok db') :
    RowsStay db db' := by
  refine (Db.updateEach_induct (P := fun _ d => d.Wf ∧ RowsStay db d) (fun _ _ _ _ h => h) ?_ hok
    ⟨hwf, RowsStay.refl db⟩).2
  intro id ids d d' old hsome hrep h
  obtain ⟨hold, -⟩ := Db.fileById_some hsome
  refine ⟨h.1.replaceFile hold hrep (hf old).1 (hf old).2, h.2.trans fun r hr => ?_⟩
  by_cases he : r = old
  · subst he
    exact ⟨f r, (Db.mem_replaceFile h.1 hold hrep).mpr (Or.inl rfl), (hf r).1⟩
  · exact ⟨r, (Db.mem_replaceFile h.1 hold hrep).mpr (Or.inr ⟨hr, he⟩), rfl⟩

lemma follows_updateFiles (hwf : db.Wf) (h : ∀ r ∈ db.files, WellFormed r.path) {order : List Uuid}
    {choose : FileRow → Bool} {f : FileRow → FileRow} (hok : db.updateFiles order choose f = .ok db')
    (hf : KeepsKey f) (hsound : ∀ r ∈ db.files, choose r = true →
      WellFormed (f r).path ∧ isFolderPath (f r).path = isFolderPath r.path) :
    RowsFollow m db db' ∧ RowsStay db db' := by
  refine ⟨fun r' hr' => ?_, rowsStay_updateFiles hwf hf hok⟩
  obtain ⟨r, hr, heq⟩ := Db.mem_updateFiles hwf hf hok r' hr'
  cases hchosen : choose r with
  | false =>
    rw [hchosen, if_neg Bool.false_ne_true] at heq
    subst heq
    exact ⟨h r' hr, Or.inl ⟨r', hr, rfl, rfl⟩⟩
  | true =>
    rw [hchosen, if_pos rfl] at heq
    subst heq
    obtain ⟨hwell, hkind⟩ := hsound r hr hchosen
    exact ⟨hwell, Or.inl ⟨r, hr, (hf r).1.symm, hkind⟩⟩

lemma follows_samePath (hwf : db.Wf) (h : ∀ r ∈ db.files, WellFormed r.path) {order : List Uuid}
    {choose : FileRow → Bool} {f : FileRow → FileRow} (hok : db.updateFiles order choose f = .ok db')
    (hf : KeepsKey f) (hpath : ∀ r, (f r).path = r.path) : RowsFollow m db db' ∧ RowsStay db db' := by
  refine follows_updateFiles hwf h hok hf fun r hr _ => ?_
  rw [hpath]
  exact ⟨h r hr, rfl⟩

lemma follows_updateById (hwf : db.Wf) (h : ∀ r ∈ db.files, WellFormed r.path) {id : Uuid}
    {f : FileRow → FileRow} (hok : db.updateById id f = .ok db') (hf : Db.InPlace f) :
    RowsFollow m db db' ∧ RowsStay db db' := by
  have hkeeps : KeepsKey f := fun r => ⟨(hf r).1, (hf r).2.1⟩
  exact follows_samePath hwf h (Db.updateById_inv hok) hkeeps fun r => (hf r).2.2.1

lemma RowsFollow.refl (h : ∀ r ∈ db.files, WellFormed r.path) : RowsFollow m db db :=
  .of_sub h fun _ hr => hr

lemma follows_recreateParent (h : ∀ r ∈ db.files, WellFormed r.path) {storageId markerId : Uuid}
    {path : Path} (hpath : PlainPath path) (hok : db.recreateParent storageId path markerId = .ok db') :
    RowsFollow true db db' ∧ RowsStay db db' := by
  rcases Db.recreateParent_inv hok with ⟨rfl, -⟩ | ⟨parent, hparent, -, hins⟩
  · exact ⟨.refl h, .refl _⟩
  · rw [parentDir_plain hpath] at hparent
    obtain ⟨⟨_, name⟩, hsplit, rfl⟩ := Option.map_eq_some_iff.mp hparent
    obtain ⟨rfl, -⟩ := rsplitOnce_some hsplit
    exact follows_insertFile h hins (wellFormed_folder.mpr (plainPath_append.mp hpath).1) isFolderPath_concat

lemma chosen_wellFormed (h : ∀ r ∈ db.files, WellFormed r.path) {storageId : Uuid} {path : Path}
    {p q : FileRow → Bool}
    (hsome : db.idsWhere (Db.atOrUnder storageId path (db.folderPrefix storageId path p) q) ≠ []) :
    db.folderPrefix storageId path p = [] ∧ PlainPath path ∨
      isFolderPath (db.folderPrefix storageId path p) = true ∧
        WellFormed (db.folderPrefix storageId path p) ∧
        (db.folderPrefix storageId path p = path ∨ db.folderPrefix storageId path p = path ++ ['/']) := by
  obtain ⟨id, hid⟩ := List.exists_mem_of_ne_nil _ hsome
  obtain ⟨r, hr, hhit, -⟩ := mem_idsWhere.mp hid
  obtain ⟨-, -, hat⟩ := of_decide_eq_true hhit
  have hform : db.folderPrefix storageId path p = [] ∧ isFolderPath path = false ∨
      isFolderPath (db.folderPrefix storageId path p) = true ∧
        (db.folderPrefix storageId path p = path ∨ db.folderPrefix storageId path p = path ++ ['/']) := by
    unfold Db.folderPrefix
    split
    · case isTrue hpath => exact Or.inr ⟨hpath, Or.inl rfl⟩
    · case isFalse hpath =>
      split
      · exact Or.inr ⟨isFolderPath_concat, Or.inr rfl⟩
      · exact Or.inl ⟨rfl, Bool.eq_false_iff.mpr hpath⟩
  rcases hform with ⟨hnil, hfile⟩ | ⟨hfolder, hform⟩
  · rw [if_pos hnil] at hat
    exact Or.inl ⟨hnil, (hat ▸ h r hr).plain (hat ▸ hfile)⟩
  · have hne : db.folderPrefix storageId path p ≠ [] := by
      intro hnil
      rw [hnil] at hfolder
      cases hfolder
    rw [if_neg hne] at hat
    exact Or.inr ⟨hfolder, ((h r hr).of_folder hfolder (prefix_of_startsWith hat)).1, hform⟩

lemma follows_delete (hwf : db.Wf) (h : ∀ r ∈ db.files, WellFormed r.path) {path : Path}
    {storageId markerId : Uuid} {now : Instant} {order : List Uuid}
    (hok : db.delete path storageId now markerId order = .ok db') : RowsFollow true db db' := by
  obtain ⟨db₁, hupd, hsome, hparent⟩ := Db.delete_inv hok
  obtain ⟨hfollows, hstay⟩ := follows_samePath (m := true) hwf h hupd (fun _ => ⟨rfl, rfl⟩) fun _ => rfl
  have hplain : PlainPath (if db.folderPrefix storageId path (fun r => r.Live) = [] then path
      else trimEndSlashes (db.folderPrefix storageId path fun r => r.Live)) := by
    rcases chosen_wellFormed h hsome with ⟨hnil, hpath⟩ | ⟨hfolder, hwell, -⟩
    · rwa [if_pos hnil]
    · rw [if_neg hwell.slashes.1, hwell.trimEndSlashes]
      exact hwell
  exact hfollows.trans hstay (follows_recreateParent hfollows.wellFormed hplain hparent).1

lemma follows_restore (hwf : db.Wf) (h : ∀ r ∈ db.files, WellFormed r.path) {path : Path}
    {storageId : Uuid} {order : List Uuid} (hok : db.restore path storageId order = .ok db') :
    RowsFollow m db db' := by
  rcases Db.restore_inv hok with rfl | hupd
  · exact .refl h
  · exact (follows_samePath hwf h hupd (fun _ => ⟨rfl, rfl⟩) fun _ => rfl).1

lemma follows_ensureLiveFolder (hwf : db.Wf) (h : ∀ r ∈ db.files, WellFormed r.path) {folder : Path}
    {storageId id : Uuid} {order : List Uuid} (hwell : WellFormed folder) (hfolder : isFolderPath folder = true)
    (hok : db.ensureLiveFolder folder storageId id order = .ok db') :
    RowsFollow true db db' ∧ RowsStay db db' := by
  rcases Db.ensureLiveFolder_inv hok with rfl | ⟨marker, -, hupd⟩ | hins
  · exact ⟨.refl h, .refl _⟩
  · exact follows_samePath hwf h hupd (fun _ => ⟨rfl, rfl⟩) fun _ => rfl
  · exact follows_insertFile h hins hwell hfolder

lemma follows_ensureFolders {storageId : Uuid} {order : List Uuid} (folders : List (Path × Uuid))
    (hfolders : ∀ folder ∈ folders, WellFormed folder.1 ∧ isFolderPath folder.1 = true) :
    ∀ {db : Db}, db.Wf → (∀ r ∈ db.files, WellFormed r.path) →
      RowsFollow true db (Db.ensureFolders storageId order folders db) := by
  induction folders with
  | nil => exact fun _ h => .refl h
  | cons folder folders ih =>
    intro db hwf h
    unfold Db.ensureFolders
    split
    · case h_1 db₁ hone =>
      obtain ⟨hwell, hfolder⟩ := hfolders folder List.mem_cons_self
      obtain ⟨hfollows, hstay⟩ := follows_ensureLiveFolder hwf h hwell hfolder hone
      have hwf₁ : db₁.Wf := (Truthful.ensureLiveFolder hone Mirror.empty 0 ⟨hwf, Nat.zero_le _⟩).1.wf
      exact hfollows.trans hstay
        (ih (fun folder hf => hfolders folder (List.mem_cons_of_mem _ hf)) hwf₁ hfollows.wellFormed)
    · exact .refl h

lemma follows_rewritePaths (hwf : db.Wf) (h : ∀ r ∈ db.files, WellFormed r.path) {oldPath newPath : Path}
    {storageId : Uuid} {liveOnly : Bool} {order : List Uuid}
    (hsound : RewritesSound db storageId liveOnly oldPath newPath)
    (hok : db.rewritePaths oldPath newPath storageId liveOnly order = .ok db') : RowsFollow m db db' :=
  (follows_updateFiles hwf h (Db.rewritePaths_inv hok) (fun _ => ⟨rfl, rfl⟩) hsound).1

lemma follows_replaceContent (hwf : db.Wf) (h : ∀ r ∈ db.files, WellFormed r.path)
    {fileId retiredId : Uuid} {expected : Option ContentHash} {retiredPath : Path} {incoming : InFile}
    {now : Instant} (hretired : WellFormed retiredPath)
    (hkind : ∀ r ∈ db.files, r.id = fileId → isFolderPath retiredPath = m)
    (hok : db.replaceContent fileId expected retiredPath incoming retiredId now = .ok db') :
    RowsFollow m db db' := by
  obtain ⟨current, hmem, hid, -, -, db₁, hret, hupd⟩ := Db.replaceContent_inv hok
  have hwf₁ : db₁.Wf := (Truthful.retire hret Mirror.empty 0 ⟨hwf, Nat.zero_le _⟩).1.wf
  have hmid : RowsFollow m db db₁ ∧ RowsStay db db₁ := by
    rcases Db.retire_inv hret with ⟨-, rfl⟩ | ⟨-, db₂, hins, rfl⟩
    · exact ⟨.refl h, .refl _⟩
    · have hrow : WellFormed (Db.retiredRow current retiredId retiredPath now).path ∧
          isFolderPath (Db.retiredRow current retiredId retiredPath now).path = m :=
        ⟨hretired, hkind current hmem hid⟩
      obtain ⟨hfollows, hstay⟩ := follows_insertFile h hins hrow.1 hrow.2
      exact ⟨hfollows, hstay⟩
  exact hmid.1.trans hmid.2 (follows_updateById hwf₁ hmid.1.wellFormed hupd (Db.inPlace_incoming incoming)).1

/-! ## One statement -/

lemma follows_row {kinds : Uuid → Bool} (hwf : db.Wf) (h : ∀ r ∈ db.files, WellFormed r.path)
    (hkinds : ∀ r ∈ db.files, isFolderPath r.path = kinds r.id) {op : RowOp}
    (hsound : PathsSound db (.row op))
    (hok : attempt db op = .ok db') : RowsFollow (Statement.makesFolder kinds (.row op)) db db' := by
  cases op with
  | createFile inObj newId => exact (follows_insertFile h (Db.createFileRow_ok hok) hsound.1 hsound.2).1
  | createFolder inObj newId => exact (follows_insertFile h (Db.createFileRow_ok hok) hsound.1 hsound.2).1
  | setAsUploaded fileId => exact (follows_updateById hwf h hok Db.inPlace_uploaded).1
  | setThumb fileId telegramFileId messageId =>
    exact (follows_updateById hwf h hok fun _ => ⟨rfl, rfl, rfl, rfl⟩).1
  | setPreview fileId telegramFileId messageId =>
    exact (follows_updateById hwf h hok fun _ => ⟨rfl, rfl, rfl, rfl⟩).1
  | delete path storageId now markerId order => exact follows_delete hwf h hok
  | restore path storageId order => exact follows_restore hwf h hok
  | ensureLiveParentFolders path storageId ids order =>
    cases hok
    refine follows_ensureFolders _ (fun folder hfolder => ?_) hwf h
    obtain ⟨hwell, hkind, -⟩ := mem_parentFolders hsound (List.of_mem_zip hfolder).1
    exact ⟨hwell, hkind⟩
  | updatePath oldPath newPath storageId order => exact follows_rewritePaths hwf h hsound hok
  | updateTrashedPath oldPath newPath storageId order => exact follows_rewritePaths hwf h hsound hok
  | replaceContent fileId expectedHash retiredPath incoming retiredId now =>
    refine follows_replaceContent hwf h hsound.1 (fun r hr hid => ?_) hok
    rw [hsound.2 r hr hid, hkinds r hr, hid]
    rfl
  | hardDeleteIds ids order =>
    cases hok
    exact .of_sub h fun r hr => (Mirror.mem_deleteEach.mp hr).1

lemma follows_attempt {kinds : Uuid → Bool} (hwf : db.Wf) (h : ∀ r ∈ db.files, WellFormed r.path)
    (hkinds : ∀ r ∈ db.files, isFolderPath r.path = kinds r.id) {maxVariables : Nat} {st : Statement}
    (hsound : PathsSound db st) (hok : st.attempt maxVariables db = .ok db') :
    RowsFollow (st.makesFolder kinds) db db' := by
  cases st with
  | row op => exact follows_row hwf h hkinds hsound hok
  | insertClonedFile source destPath id =>
    have hins : db.insertFile (Db.clonedRow source destPath id) = .ok db' := Db.insertClonedFile_ok hok
    have hrow : WellFormed (Db.clonedRow source destPath id).path ∧
        isFolderPath (Db.clonedRow source destPath id).path = isFolderPath source.path := hsound
    exact (follows_insertFile h hins hrow.1 hrow.2).1
  | createChunksBatch chunks =>
    obtain ⟨rows, rfl⟩ := createChunksBatch_rows hok
    exact .of_sub h fun _ hr => hr
  | insertBatch replicas =>
    obtain ⟨rows, rfl⟩ := insertBatch_rows hok
    exact .of_sub h fun _ hr => hr

/-- The schema holds, and every path is well formed. -/
structure Db.PathsFit (db : Db) : Prop where
  wf : db.Wf
  wellFormed : ∀ r ∈ db.files, WellFormed r.path

lemma Db.PathsFit.attempt (h : db.PathsFit) {maxVariables : Nat} {st : Statement} (hsound : PathsSound db st)
    (hok : st.attempt maxVariables db = .ok db') : db'.PathsFit := by
  let kinds : Uuid → Bool := fun id => (db.fileById id).any fun r => isFolderPath r.path
  have hkinds : ∀ r ∈ db.files, isFolderPath r.path = kinds r.id := by
    intro r hr
    show _ = (db.fileById r.id).any _
    rw [Db.fileById_of_mem h.wf hr]
    rfl
  have hfollows : RowsFollow (st.makesFolder kinds) db db' :=
    follows_attempt h.wf h.wellFormed hkinds hsound hok
  exact ⟨(livePaths_attempt (s := 0) h.wf hok).1, hfollows.wellFormed⟩

lemma PathsCanonical.apply {t : TrackedDb} (h : PathsCanonical t) (hwf : t.db.Wf) {maxVariables : Nat}
    {st : Statement} (hsound : PathsSound t.db st) : PathsCanonical (t.apply maxVariables st) := by
  cases hok : st.attempt maxVariables t.db with
  | error e =>
    rw [TrackedDb.apply, hok]
    exact h
  | ok db' =>
    have hfollows := follows_attempt hwf h.wellFormed h.kind hsound hok
    rw [TrackedDb.apply, hok]
    refine ⟨hfollows.wellFormed, fun r' hr' => ?_⟩
    show isFolderPath r'.path =
      if (t.db.fileById r'.id).isSome then t.isFolder r'.id else st.makesFolder t.isFolder
    rcases (hfollows r' hr').2 with ⟨r, hr, hid, hkind⟩ | ⟨hnew, hkind⟩
    · rw [← hid, Db.fileById_of_mem hwf hr, hkind, h.kind r hr]
      rfl
    · have hnone : t.db.fileById r'.id = none := by
        refine List.find?_eq_none.mpr fun r hr => ?_
        simpa using hnew r hr
      rw [hnone, hkind]
      rfl

lemma pathsCanonical_run {maxVariables : Nat} {t : TrackedDb} (h : PathsCanonical t) (hwf : t.db.Wf)
    {sts : List Statement} (hok : AllOk (Script.apply (Statement.attempt maxVariables)) PathsSound t.db sts) :
    Always (TrackedDb.apply maxVariables) PathsCanonical t sts := by
  induction sts generalizing t with
  | nil => exact h
  | cons st sts ih =>
    obtain ⟨hst, hrest⟩ := hok
    have hdb : (t.apply maxVariables st).db = Script.apply (Statement.attempt maxVariables) t.db st := by
      unfold TrackedDb.apply Script.apply
      cases st.attempt maxVariables t.db <;> rfl
    refine ⟨h, ih (h.apply hwf hst) ?_ (hdb ▸ hrest)⟩
    rw [hdb, Script.apply]
    cases hok : st.attempt maxVariables t.db with
    | error e => exact hwf
    | ok db' => exact (livePaths_attempt (s := 0) hwf hok).1

end Sarca.Server
