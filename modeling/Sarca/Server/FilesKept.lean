import Sarca.Server.StoragePurge
import Sarca.Server.TrashRestore

/-!
# Organising keeps the files

A call that makes a folder, renames, moves, copies, deletes or restores takes no row, no chunk and no replica
away, unless it is asked to replace what is in its way (`files_kept`). `Retains` is what a database keeps of an
earlier one; each statement such a call may run keeps it, also one behind which the call fails.
-/

namespace Sarca.Server
open Sarca.Lib

/-- The rows stand for one file, which may have moved, also into the trash or out of it. -/
def FileRow.SameFile (r r' : FileRow) : Prop :=
  { r' with path := r.path, deletedAt := r.deletedAt } = r

/-- All that is stored in the one database is in the other. -/
structure Db.Retains (db db' : Db) : Prop where
  files : ∀ r ∈ db.files, ∃ r' ∈ db'.files, r.SameFile r'
  chunks : db.chunks ⊆ db'.chunks
  replicas : db.replicas ⊆ db'.replicas

/-- Nothing that is stored changes, but for paths and the trash. -/
def Statement.Keeps : Statement → Prop
  | .row (.setAsUploaded _) | .row (.setThumb _ _ _) | .row (.setPreview _ _ _)
  | .row (.replaceContent _ _ _ _ _ _) | .row (.hardDeleteIds _ _) => False
  | _ => True

/-- An upload replaces an older version of its file, a call with `replace` what is in its way. -/
def Call.Keeps : Call → Prop
  | .upload _ _ => False
  | .moveTo _ _ onConflict | .copyTo _ _ onConflict | .restore _ onConflict => onConflict ≠ some "replace"
  | _ => True

instance : DecidablePred Call.Keeps := fun c => by
  unfold Call.Keeps
  split <;> infer_instance

/-! ## What a statement keeps -/

variable {db db' db'' : Db}

lemma FileRow.SameFile.trans {r r' r'' : FileRow} (h : r.SameFile r') (h' : r'.SameFile r'') :
    r.SameFile r'' := by
  have hsame := congrArg (fun q : FileRow => { q with path := r.path, deletedAt := r.deletedAt }) h'
  exact Eq.trans hsame h

lemma FileRow.SameFile.key {r r' : FileRow} (h : r.SameFile r') :
    r'.id = r.id ∧ r'.storageId = r.storageId := by
  unfold FileRow.SameFile at h
  rw [← h]
  exact ⟨rfl, rfl⟩

namespace Db.Retains

lemma refl (db : Db) : db.Retains db :=
  ⟨fun r hr => ⟨r, hr, rfl⟩, List.Subset.refl _, List.Subset.refl _⟩

lemma trans (h : db.Retains db') (h' : db'.Retains db'') : db.Retains db'' := by
  refine ⟨fun r hr => ?_, List.Subset.trans h.chunks h'.chunks, List.Subset.trans h.replicas h'.replicas⟩
  obtain ⟨r', hr', hsame⟩ := h.files r hr
  obtain ⟨r'', hr'', hsame'⟩ := h'.files r' hr'
  exact ⟨r'', hr'', hsame.trans hsame'⟩

lemma insertFile {row : FileRow} (hok : db.insertFile row = .ok db') : db.Retains db' := by
  have hrows : ∀ r ∈ db.files, ∃ r' ∈ db'.files, r.SameFile r' :=
    fun r hr => ⟨r, (Db.mem_insertFile hok).mpr (Or.inl hr), rfl⟩
  obtain ⟨-, -, -, rfl⟩ := Db.insertFile_ok hok
  exact ⟨hrows, List.Subset.refl _, List.Subset.refl _⟩

lemma replaceFile (hwf : db.Wf) {old new : FileRow} (hold : old ∈ db.files)
    (hok : db.replaceFile old new = .ok db') (hsame : old.SameFile new) : db.Retains db' := by
  have hrows : ∀ r ∈ db.files, ∃ r' ∈ db'.files, r.SameFile r' := by
    intro r hr
    obtain rfl | hne := eq_or_ne r old
    · exact ⟨new, (Db.mem_replaceFile hwf hold hok).mpr (Or.inl rfl), hsame⟩
    · exact ⟨r, (Db.mem_replaceFile hwf hold hok).mpr (Or.inr ⟨hr, hne⟩), rfl⟩
  obtain ⟨-, rfl⟩ := Db.replaceFile_ok hok
  exact ⟨hrows, List.Subset.refl _, List.Subset.refl _⟩

lemma updateFiles (hwf : db.Wf) {order : List Uuid} {choose : FileRow → Bool} {f : FileRow → FileRow}
    (hok : db.updateFiles order choose f = .ok db') (hf : ∀ r : FileRow, r.SameFile (f r)) :
    db.Retains db' := by
  refine (Db.updateEach_induct (P := fun _ d => d.Wf ∧ db.Retains d) (fun _ _ _ _ h => h) ?_ hok
    ⟨hwf, refl db⟩).2
  intro id ids d d' old hsome hrep h
  obtain ⟨hold, -⟩ := Db.fileById_some hsome
  obtain ⟨hid, hstorage⟩ := (hf old).key
  exact ⟨h.1.replaceFile hold hrep hid hstorage, h.2.trans (replaceFile h.1 hold hrep (hf old))⟩

lemma delete (hwf : db.Wf) {path : Path} {storageId markerId : Uuid} {now : Instant} {order : List Uuid}
    (hok : db.delete path storageId now markerId order = .ok db') : db.Retains db' := by
  obtain ⟨db₁, hupd, -, hparent⟩ := Db.delete_inv hok
  have hrows : db.Retains db₁ := updateFiles hwf hupd fun _ => rfl
  rcases Db.recreateParent_inv hparent with ⟨rfl, -⟩ | ⟨parent, -, -, hins⟩
  · exact hrows
  · exact hrows.trans (insertFile hins)

lemma restore (hwf : db.Wf) {path : Path} {storageId : Uuid} {order : List Uuid}
    (hok : db.restore path storageId order = .ok db') : db.Retains db' := by
  rcases Db.restore_inv hok with rfl | hupd
  · exact refl _
  · exact updateFiles hwf hupd fun _ => rfl

lemma ensureFolders {storageId : Uuid} {order : List Uuid} (folders : List (Path × Uuid)) :
    ∀ {db : Db}, db.Wf → db.Retains (Db.ensureFolders storageId order folders db) := by
  induction folders with
  | nil => exact fun _ => refl _
  | cons folder folders ih =>
    intro db hwf
    unfold Db.ensureFolders
    split
    · case h_1 db₁ hone =>
      have hwf₁ : db₁.Wf := (Truthful.ensureLiveFolder hone Mirror.empty 0 ⟨hwf, Nat.zero_le _⟩).1.wf
      have hfolder : db.Retains db₁ := by
        rcases Db.ensureLiveFolder_inv hone with rfl | ⟨marker, -, hupd⟩ | hins
        · exact refl _
        · exact updateFiles hwf hupd fun _ => rfl
        · exact insertFile hins
      exact hfolder.trans (ih hwf₁)
    · exact refl db

lemma createChunks (chunks : List FileChunk) : ∀ {db db' : Db}, db.createChunks chunks = .ok db' →
    db.Retains db' := by
  induction chunks with
  | nil =>
    intro db db' hok
    cases hok
    exact refl _
  | cons chunk chunks ih =>
    intro db db' hok
    unfold Db.createChunks at hok
    split at hok
    · cases hok
    · have hone : db.Retains { db with chunks := db.chunks ++ [chunk] } :=
        ⟨(refl db).files, List.subset_append_left _ _, List.Subset.refl _⟩
      exact hone.trans (ih hok)

lemma insertReplicas (replicas : List ChunkReplica) : ∀ {db db' : Db},
    db.insertReplicas replicas = .ok db' → db.Retains db' := by
  induction replicas with
  | nil =>
    intro db db' hok
    cases hok
    exact refl _
  | cons replica replicas ih =>
    intro db db' hok
    unfold Db.insertReplicas at hok
    split at hok
    · case h_1 db₁ hone =>
      refine trans ?_ (ih hok)
      rcases Db.insertReplica_ok hone with rfl | ⟨-, -, -, rfl⟩
      · exact refl _
      · exact ⟨(refl db).files, List.Subset.refl _, List.subset_append_left _ _⟩
    · cases hok

end Db.Retains

lemma Statement.Keeps.holds {maxVariables : Nat} {st : Statement} (h : st.Keeps) (hwf : db.Wf)
    (hok : st.attempt maxVariables db = .ok db') : db.Retains db' := by
  cases st with
  | row op =>
    cases op with
    | createFile inObj id => exact Db.Retains.insertFile (Db.createFileRow_ok hok)
    | createFolder inObj id => exact Db.Retains.insertFile (Db.createFileRow_ok hok)
    | delete path storageId now markerId order => exact Db.Retains.delete hwf hok
    | restore path storageId order => exact Db.Retains.restore hwf hok
    | ensureLiveParentFolders path storageId ids order =>
      cases hok
      exact Db.Retains.ensureFolders _ hwf
    | updatePath oldPath newPath storageId order =>
      exact Db.Retains.updateFiles hwf (Db.rewritePaths_inv hok) fun _ => rfl
    | updateTrashedPath oldPath newPath storageId order =>
      exact Db.Retains.updateFiles hwf (Db.rewritePaths_inv hok) fun _ => rfl
    | _ => cases h
  | insertClonedFile source destPath id => exact Db.Retains.insertFile (Db.insertClonedFile_ok hok)
  | createChunksBatch chunks =>
    change db.createChunksBatch maxVariables chunks = .ok db' at hok
    unfold Db.createChunksBatch at hok
    split at hok
    · cases hok
      exact Db.Retains.refl _
    · split at hok
      · cases hok
      · exact Db.Retains.createChunks chunks hok
  | insertBatch replicas =>
    change db.insertBatch maxVariables replicas = .ok db' at hok
    unfold Db.insertBatch at hok
    split at hok
    · cases hok
      exact Db.Retains.refl _
    · split at hok
      · cases hok
      · exact Db.Retains.insertReplicas replicas hok

/-! ## What a call runs -/

abbrev RunsKeeping {α : Type} (p : Service α) : Prop :=
  Script.Only Statement.Keeps p

variable {w : World} {storageId : Uuid} {path : Path} {onConflict : Option String}

lemma keeping_ensureParents : RunsKeeping (Service.ensureLiveParentFolders w storageId path) := by
  refine Script.Only.store fun _ => Script.Only.bind ⟨trivial, trivial⟩ fun _ => Script.Only.store fun _ => ?_
  split <;> trivial

lemma keeping_resolve {source dest : Path} (hkeep : onConflict ≠ some "replace") :
    RunsKeeping (FilesService.resolveDestConflict w storageId source dest onConflict) := by
  refine Script.Only.store fun _ => ?_
  split
  · trivial
  · split
    · trivial
    · split
      · trivial
      · exact absurd rfl hkeep
      · trivial
      · trivial

lemma keeping_moveTo {destinationFolder : Path} (hkeep : onConflict ≠ some "replace") :
    RunsKeeping (FilesService.moveTo w storageId path destinationFolder onConflict) := by
  refine Script.Only.refuse (Script.Only.refuse (Script.Only.store fun db => ?_))
  refine Script.Only.bind trivial fun source => Script.Only.refuse ?_
  split
  · trivial
  · split
    · trivial
    · refine Script.Only.bind (keeping_resolve hkeep) fun newPath => ?_
      exact Script.Only.bind keeping_ensureParents fun _ => Script.Only.store fun _ => ⟨trivial, trivial⟩

lemma keeping_cloneOneRow {file : FileRow} {destPath : Path} :
    RunsKeeping (FilesService.cloneOneRow w file destPath) := by
  refine Script.Only.store fun _ => Script.Only.bind ⟨trivial, trivial⟩ fun _ => ?_
  split
  · trivial
  · refine Script.Only.store fun _ => Script.Only.bind ⟨trivial, trivial⟩ fun _ => ?_
    exact Script.Only.store fun _ => ⟨trivial, trivial⟩

lemma keeping_cloneRows {source destRoot : Path} (rows : List FileRow) :
    RunsKeeping (FilesService.cloneRows w storageId source destRoot rows) := by
  induction rows with
  | nil => trivial
  | cons row rows ih =>
    exact Script.Only.bind keeping_ensureParents fun _ => Script.Only.bind keeping_cloneOneRow fun _ => ih

lemma keeping_copyTo {destinationFolder : Path} (hkeep : onConflict ≠ some "replace") :
    RunsKeeping (FilesService.copyTo w storageId path destinationFolder onConflict) := by
  refine Script.Only.refuse (Script.Only.refuse (Script.Only.store fun db => ?_))
  refine Script.Only.bind trivial fun source => Script.Only.refuse ?_
  refine Script.Only.bind (keeping_resolve hkeep) fun destRoot => ?_
  refine Script.Only.bind keeping_ensureParents fun _ => Script.Only.store fun db => ?_
  split
  · refine Script.Only.refuse ?_
    split
    · exact Script.Only.bind ⟨trivial, trivial⟩ fun _ => keeping_cloneRows _
    · exact keeping_cloneRows _
  · split
    · exact keeping_cloneOneRow
    · trivial

lemma keeping_restore (hkeep : onConflict ≠ some "replace") :
    RunsKeeping (TrashService.restore w storageId path onConflict) := by
  have hback : ∀ p, RunsKeeping (TrashService.restore.restoreAt w storageId p) :=
    fun _ => Script.Only.bind keeping_ensureParents fun _ => Script.Only.store fun _ => ⟨trivial, trivial⟩
  refine Script.Only.refuse (Script.Only.store fun db => Script.Only.refuse ?_)
  dsimp only
  split
  · exact hback _
  · split
    · trivial
    · exact absurd rfl hkeep
    · exact Script.Only.bind trivial fun _ => Script.Only.bind ⟨trivial, trivial⟩ fun _ => hback _
    · trivial

lemma Call.Keeps.only {c : Call} (h : c.Keeps) : RunsKeeping (c.script w storageId) := by
  cases c with
  | createFolder parentPath folderName =>
    exact Script.Only.refuse (Script.Only.refuse (Script.Only.store fun _ => ⟨trivial, trivial⟩))
  | upload fate r => exact h.elim
  | rename oldPath newPath =>
    exact Script.Only.refuse (Script.Only.refuse (Script.Only.store fun _ => ⟨trivial, trivial⟩))
  | moveTo path destinationFolder onConflict => exact keeping_moveTo h
  | copyTo path destinationFolder onConflict => exact keeping_copyTo h
  | restore path onConflict => exact keeping_restore h
  | delete path => exact Script.Only.refuse (Script.Only.store fun _ => ⟨trivial, trivial⟩)

def twoNotes : Db :=
  leftBy [uploadOf ['n'] rfl, uploadOf ['a', '/', 'n'] rfl]

/-- A file moves where another one is. -/
def moveOnto (onConflict : Option String) : List (Uuid × World × Call) :=
  [(1, smallWorld, .moveTo ['n'] ['a'] onConflict)]

/-- The other one is gone when it is replaced. -/
example : (run (Script.call (Statement.attempt 1000) fun c => storageCall c.1 c.2) twoNotes
    (moveOnto (some "replace"))).files.map (·.path) = [['a', '/', 'n'], ['a', '/']] := by
  decide +kernel

end Sarca.Server
