import Sarca.Server.Import
import Sarca.Server.SoundPaths

/-!
# Stored paths are canonical

The requests that write paths, with the strings a client sends. `create_folder` checks its parent and not the
name it puts behind it, `rename` and the destinations of a move or a copy may name blank segments, a free name
is sought for a folder where only a folder stands, and a folder whose name is longer in bytes than in
characters is renamed too far. `Request.Clean` leaves these requests out; `paths_canonical`: in a sequence of
the others every path stays canonical, after each of their statements.
-/

namespace Sarca.Server
open Sarca.Lib

/-- The fields of an upload form, with the bytes it spooled. -/
structure UploadForm where
  parentPath : Path
  filename : Path
  body : Bytes
  chunkSize : Nat
  sourceCreatedAt : Option Instant
  sourceMtime : Option Instant
  contentHash : Option ContentHash
  replace : Bool
  chunkSize_pos : 0 < chunkSize

lemma constructPath_plain {parent filename path : Path} (h : constructPath parent filename = .ok path) :
    PlainPath path := by
  obtain ⟨folder, -, -, -, hcanon⟩ := constructPath_ok h
  exact hcanon.plain

/-- The upload handlers, as far as they write rows. -/
def uploadForm (w : World) (fate : FilesService.UploadFate) (storageId : Uuid) (form : UploadForm) :
    Service Unit :=
  match h : constructPath form.parentPath form.filename with
  | .error e => Script.fail e
  | .ok path =>
    FilesService.upload w fate
      { storageId := storageId
        path := path
        body := form.body
        chunkSize := form.chunkSize
        sourceCreatedAt := form.sourceCreatedAt
        sourceMtime := form.sourceMtime
        contentHash := form.contentHash
        replace := form.replace
        isFile := (constructPath_plain h).isFile
        chunkSize_pos := form.chunkSize_pos }

/-- Build a new path when renaming by basename only (Rust `rename_with_new_name`). -/
def renameWithNewName (oldPath newName : Path) : Except SarcaError Path :=
  if newName = [] ∨ '/' ∈ newName then .error .invalidFolderName
  else
    let parent := match rsplitOnce '/' (trimEndSlashes oldPath) with
      | some (parent, _) => parent
      | none => []
    let newPath := if parent = [] then newName else parent ++ '/' :: newName
    .ok (if isFolderPath oldPath then newPath ++ ['/'] else newPath)

inductive PathCall where
  | createFolder (parentPath folderName : Path)
  | upload (fate : FilesService.UploadFate) (form : UploadForm)
  /-- `{old_path, new_path}` -/
  | rename (oldPath newPath : Path)
  /-- `{path, new_name}` -/
  | renameTo (path newName : Path)
  | moveTo (path destinationFolder : Path) (onConflict : Option String)
  | copyTo (path destinationFolder : Path) (onConflict : Option String)
  | restore (path : Path) (onConflict : Option String)
  | delete (path : Path)
  /-- the folders an import finds -/
  | importFolders (target : Path) (dirs : List Path)
  /-- one file of an import -/
  | importFile (target : Path) (fate : FilesService.UploadFate) (item : ImportItem)

/-- A request on a storage, with what it takes from elsewhere; the stamp of a displaced version is
    `%Y-%m-%d %H-%M-%S`. -/
structure Request where
  storageId : Uuid
  world : World
  stamp : ∀ db, '/' ∉ world.stamp db
  call : PathCall

def Request.script (r : Request) : Service Unit :=
  match r.call with
  | .createFolder parentPath folderName =>
    FilesService.createFolder r.world r.storageId parentPath folderName
  | .upload fate form => uploadForm r.world fate r.storageId form
  | .rename oldPath newPath => FilesService.rename r.world r.storageId oldPath newPath
  | .renameTo path newName =>
    match renameWithNewName path newName with
    | .error e => Script.fail e
    | .ok newPath => FilesService.rename r.world r.storageId path newPath
  | .moveTo path destinationFolder onConflict =>
    FilesService.moveTo r.world r.storageId path destinationFolder onConflict
  | .copyTo path destinationFolder onConflict =>
    FilesService.copyTo r.world r.storageId path destinationFolder onConflict
  | .restore path onConflict => TrashService.restore r.world r.storageId path onConflict
  | .delete path => FilesService.delete r.world r.storageId path
  | .importFolders target dirs =>
    match normalizeTarget target with
    | .error e => Script.fail e
    | .ok target => ImportRunner.scan r.world r.storageId target dirs
  | .importFile target fate item =>
    match normalizeTarget target with
    | .error e => Script.fail e
    | .ok target => ImportRunner.copyItem r.world fate r.storageId target item

/-! ## The requests that keep the paths canonical -/

/-- What is left of a row's path behind the bytes of the old folder names something; of a folder's path
    nothing may be left. -/
def CutClean (oldPath path : Path) : Prop :=
  if path.drop (byteLen oldPath) = [] then isFolderPath path = true
  else WellFormed (path.drop (byteLen oldPath))

instance (oldPath path : Path) : Decidable (CutClean oldPath path) :=
  inferInstanceAs (Decidable (if path.drop (byteLen oldPath) = [] then isFolderPath path = true
    else WellFormed (path.drop (byteLen oldPath))))

/-- A file that is to keep both does not meet a folder alone. -/
def MeetsNoFolder (db : Db) (storageId : Uuid) (path : Path) (onConflict : Option String) : Prop :=
  isFolderPath path = false → onConflict = some "rename" → ¬ db.OnlyFolderAt storageId path

instance (db : Db) (storageId : Uuid) (path : Path) (onConflict : Option String) :
    Decidable (MeetsNoFolder db storageId path onConflict) :=
  inferInstanceAs (Decidable (_ → _ → _))

/-- The root, or a folder whose segments name something. -/
def PlainFolder (path : Path) : Prop :=
  path = [] ∨ PlainPath path

instance (path : Path) : Decidable (PlainFolder path) :=
  instDecidableOr

/-- A new folder that is let through has a name, in a folder that has one. -/
def FolderClean (parentPath folderName : Path) : Prop :=
  validateFilepath parentPath = true → '/' ∉ folderName →
    PlainFolder parentPath ∧ PlainSegment folderName

instance (parentPath folderName : Path) : Decidable (FolderClean parentPath folderName) :=
  inferInstanceAs (Decidable (_ → _ → _))

def decideOk {ε α : Type} (answer : Except ε α) (P : α → Prop) [DecidablePred P] :
    Decidable (∀ a, answer = .ok a → P a) :=
  match answer with
  | .ok a => decidable_of_iff (P a) ⟨fun h _ heq => Except.ok.inj heq ▸ h, fun h => h a rfl⟩
  | .error _ => isTrue fun _ heq => nomatch heq

/-- A rename that is let through and finds a row has a new path that names something, and cuts the rows of a
    folder where they may be cut. -/
def RenameClean (db : Db) (storageId : Uuid) (oldPath newPath : Path) : Prop :=
  validatePath oldPath = true → validatePath newPath = true →
    isFolderPath oldPath = isFolderPath newPath →
      ∀ r ∈ db.files, Db.renamed oldPath storageId true r = true →
        WellFormed newPath ∧ (isFolderPath oldPath = true → CutClean oldPath r.path)

instance (db : Db) (storageId : Uuid) (oldPath newPath : Path) :
    Decidable (RenameClean db storageId oldPath newPath) :=
  inferInstanceAs (Decidable (_ → _ → _ → ∀ r ∈ db.files, _))

/-- The entry arrives onto itself or around itself. -/
def overlaps (source dest : Path) : Bool :=
  dest = source || (isFolderPath source && source.isPrefixOf dest) ||
    (isFolderPath dest && dest.isPrefixOf source)

/-- Nothing is in the way at the destination, or both may be kept, or what is there may go. -/
def Settled (db : Db) (storageId : Uuid) (source dest : Path) (onConflict : Option String) : Prop :=
  db.liveConflictAt storageId dest = true →
    overlaps source dest = true ∨ onConflict = some "replace" ∨ onConflict = some "rename"

instance (db : Db) (storageId : Uuid) (source dest : Path) (onConflict : Option String) :
    Decidable (Settled db storageId source dest onConflict) :=
  inferInstanceAs (Decidable (_ → _))

/-- A move or a copy to the folder `dest` is let through, and finds the entry `source`. -/
def Admitted (db : Db) (storageId : Uuid) (path dest : Path) (onConflict : Option String)
    (source : Path) : Prop :=
  validatePath path = true ∧ path ≠ [] ∧ (dest = [] ∨ validatePath dest = true) ∧
    db.canonicalizeLivePath storageId path = .ok source ∧
    Settled db storageId source (pathInFolder source dest) onConflict

instance (db : Db) (storageId : Uuid) (path dest : Path) (onConflict : Option String) (source : Path) :
    Decidable (Admitted db storageId path dest onConflict source) :=
  inferInstanceAs (Decidable (_ ∧ _ ∧ _ ∧ _ ∧ _))

lemma admitted_unique {db : Db} {storageId : Uuid} {path dest source source' : Path}
    {onConflict : Option String} (h : db.canonicalizeLivePath storageId path = .ok source)
    (ha : Admitted db storageId path dest onConflict source') : source = source' :=
  Except.ok.inj (h.symm.trans ha.2.2.2.1)

/-- What holds of the entry that is found can be decided. -/
instance decideAdmitted (db : Db) (storageId : Uuid) (path dest : Path) (onConflict : Option String)
    (P : Path → Prop) [DecidablePred P] :
    Decidable (∀ source, Admitted db storageId path dest onConflict source → P source) :=
  match hfound : db.canonicalizeLivePath storageId path with
  | .ok source => decidable_of_iff (Admitted db storageId path dest onConflict source → P source)
      ⟨fun h _ ha => admitted_unique hfound ha ▸ h (admitted_unique hfound ha ▸ ha),
        fun h => h source⟩
  | .error _ => isTrue fun _ ha => nomatch hfound.symm.trans ha.2.2.2.1

/-- The entry goes elsewhere, and not under itself. -/
def Leaving (source newPath : Path) : Prop :=
  source ≠ newPath ∧ (isFolderPath source && source.isPrefixOf newPath) = false

instance (source newPath : Path) : Decidable (Leaving source newPath) :=
  instDecidableAnd

/-- A move that is let through goes to a folder that has a name, cuts the rows of a folder where they may be
    cut, and does not keep a file beside a folder of its name. -/
def MoveClean (db : Db) (storageId : Uuid) (path dest : Path) (onConflict : Option String) : Prop :=
  ∀ source, Admitted db storageId path dest onConflict source →
    Leaving source (pathInFolder source dest) →
    PlainFolder dest ∧
      (isFolderPath source = true → ∀ p ∈ livePaths storageId db, source <+: p → CutClean source p) ∧
      MeetsNoFolder db storageId (pathInFolder source dest) onConflict

instance (db : Db) (storageId : Uuid) (path dest : Path) (onConflict : Option String) :
    Decidable (MoveClean db storageId path dest onConflict) :=
  inferInstanceAs (Decidable (∀ source, Admitted db storageId path dest onConflict source → _ → _))

/-- A copy that is let through goes to a folder that has a name, and does not keep a file beside a folder of
    its name. -/
def CopyClean (db : Db) (storageId : Uuid) (path dest : Path) (onConflict : Option String) : Prop :=
  ∀ source, Admitted db storageId path dest onConflict source →
    PlainFolder dest ∧ MeetsNoFolder db storageId (pathInFolder source dest) onConflict

instance (db : Db) (storageId : Uuid) (path dest : Path) (onConflict : Option String) :
    Decidable (CopyClean db storageId path dest onConflict) :=
  inferInstanceAs (Decidable (∀ source, Admitted db storageId path dest onConflict source → _))

/-- A restore that finds its name taken does not keep a file beside a folder of its name, and cuts the rows
    of a folder where they may be cut. -/
def RestoreClean (db : Db) (storageId : Uuid) (path : Path) (onConflict : Option String) : Prop :=
  let canonical := db.canonicalTrashedPath storageId path
  db.listTrashedIds storageId path ≠ [] → db.liveConflictAt storageId canonical = true →
    MeetsNoFolder db storageId canonical onConflict ∧
      (isFolderPath canonical = true → onConflict = some "rename" →
        ∀ q ∈ db.files, Db.renamed canonical storageId false q = true → CutClean canonical q.path)

instance (db : Db) (storageId : Uuid) (path : Path) (onConflict : Option String) :
    Decidable (RestoreClean db storageId path onConflict) :=
  inferInstanceAs (Decidable (_ → _ → _ ∧ (_ → _ → ∀ q ∈ db.files, _)))

/-- A request that brings no path but clean ones, in the database it finds. -/
def Request.Clean (db : Db) (r : Request) : Prop :=
  match r.call with
  | .createFolder parentPath folderName => FolderClean parentPath folderName
  | .rename oldPath newPath => RenameClean db r.storageId oldPath newPath
  | .renameTo path newName =>
    ∀ newPath, renameWithNewName path newName = .ok newPath → RenameClean db r.storageId path newPath
  | .moveTo path destinationFolder onConflict =>
    MoveClean db r.storageId path (trimEndSlashes destinationFolder) onConflict
  | .copyTo path destinationFolder onConflict =>
    CopyClean db r.storageId path (trimEndSlashes destinationFolder) onConflict
  | .restore path onConflict => RestoreClean db r.storageId (normalizeTrashPath path) onConflict
  | .upload _ _ | .delete _ | .importFolders _ _ | .importFile _ _ _ => True

instance (db : Db) : (r : Request) → Decidable (r.Clean db)
  | ⟨_, _, _, .createFolder parentPath folderName⟩ =>
    inferInstanceAs (Decidable (FolderClean parentPath folderName))
  | ⟨storageId, _, _, .rename oldPath newPath⟩ =>
    inferInstanceAs (Decidable (RenameClean db storageId oldPath newPath))
  | ⟨storageId, _, _, .renameTo path newName⟩ =>
    decideOk (renameWithNewName path newName) (RenameClean db storageId path)
  | ⟨storageId, _, _, .moveTo path destinationFolder onConflict⟩ =>
    inferInstanceAs (Decidable (MoveClean db storageId path (trimEndSlashes destinationFolder) onConflict))
  | ⟨storageId, _, _, .copyTo path destinationFolder onConflict⟩ =>
    inferInstanceAs (Decidable (CopyClean db storageId path (trimEndSlashes destinationFolder) onConflict))
  | ⟨storageId, _, _, .restore path onConflict⟩ =>
    inferInstanceAs (Decidable (RestoreClean db storageId (normalizeTrashPath path) onConflict))
  | ⟨_, _, _, .upload _ _⟩ | ⟨_, _, _, .delete _⟩ | ⟨_, _, _, .importFolders _ _⟩
  | ⟨_, _, _, .importFile _ _ _⟩ => instDecidableTrue

/-! ## What the services write -/

abbrev PathsAllow (maxVariables : Nat) {α : Type} (p : Service α) (db : Db) (Q : α → Db → Prop) : Prop :=
  Script.Allows (Statement.attempt maxVariables) PathsSound Db.PathsFit p db Q

variable {maxVariables : Nat} {w : World} {db : Db} {storageId : Uuid} {path source dest : Path}

lemma allows_row {op : RowOp} {Q : Unit → Db → Prop} (hsound : PathsSound db (.row op))
    (hQ : ∀ db', attempt db op = .ok db' → db'.PathsFit → Q () db') :
    PathsAllow maxVariables (Service.row op) db Q :=
  Script.Allows.exec fun db' hok => ⟨hsound, hQ db' hok⟩

lemma allows_purge {ids : List Uuid} {Q : Unit → Db → Prop} (h : db.PathsFit)
    (hQ : ∀ db', db'.PathsFit → (∀ r ∈ db'.files, r ∈ db.files) → Q () db') :
    PathsAllow maxVariables (Service.purgeFileIds w ids) db Q := by
  refine Script.Allows.store ?_
  split
  · exact Script.Allows.pure (hQ db h fun _ hr => hr)
  · refine allows_row trivial fun db' hok hfit => hQ db' hfit fun r hr => ?_
    cases hok
    exact (Mirror.mem_deleteEach.mp hr).1

lemma allows_ensureParents {Q : Unit → Db → Prop} (h : db.PathsFit) (hpath : WellFormed path)
    (hQ : ∀ db', db'.PathsFit → (∀ p ∈ livePaths storageId db', p ∈ livePaths storageId db ∨
      p <+: above path) → Q () db') :
    PathsAllow maxVariables (Service.ensureLiveParentFolders w storageId path) db Q := by
  refine Script.Allows.store (Script.Allows.bind (allows_row hpath fun db' hok hfit => ?_))
  refine Script.Allows.store ?_
  split
  · refine Script.Allows.pure (hQ db' hfit fun p hp => ?_)
    cases hok
    rcases (livePaths_ensureFolders (s := storageId) _ h.wf).2 p hp with hp | ⟨-, hmem⟩
    · exact Or.inl hp
    · obtain ⟨folder, hfolder, rfl⟩ := List.mem_map.mp hmem
      exact Or.inr (mem_parentFolders hpath (List.of_mem_zip hfolder).1).2.2
  · exact Script.Allows.fail

/-! ### Uploads -/

variable {fate : FilesService.UploadFate} {r : UploadRequest}

lemma allows_uploadFromPath {fileId : Uuid} (h : db.PathsFit) :
    PathsAllow maxVariables (FilesService.uploadFromPath w fate fileId) db fun _ _ => True := by
  unfold FilesService.uploadFromPath
  split
  · exact allows_row trivial fun _ _ _ => trivial
  · split
    · exact Script.Allows.bind (allows_purge h fun _ _ _ => Script.Allows.fail)
    · exact Script.Allows.fail

lemma allows_createFileAnyway (hpath : PlainPath r.path) :
    PathsAllow maxVariables (FilesService.createFileAnyway w fate r) db fun _ _ => True := by
  refine Script.Allows.store (Script.Allows.bind (allows_row ?_ fun db' _ hfit => ?_))
  · have hplain : PlainPath (db.anywayPath r.storageId r.path) := hpath.anywayPath
    exact ⟨hplain.wellFormed, hplain.isFile⟩
  · exact allows_uploadFromPath hfit

lemma allows_uploadVersion {inFlight : List Uuid} (h : db.PathsFit) (hstamp : ∀ db, '/' ∉ w.stamp db)
    (hpath : PlainPath r.path) :
    PathsAllow maxVariables (FilesService.uploadVersion w fate inFlight r) db fun _ _ => True := by
  refine Script.Allows.store ?_
  split
  · case h_1 existing hexisting =>
    split
    · exact allows_createFileAnyway hpath
    · split
      · exact Script.Allows.fail
      · refine Script.Allows.bind (allows_row ?_ fun db' _ hfit => ?_)
        · obtain ⟨hmem, -, hat, -⟩ := Db.liveAt_some hexisting
          have hplain : PlainPath existing.path := hat ▸ hpath
          have hretired := hplain.retired (hstamp db)
          refine ⟨hretired.wellFormed, fun q hq hid => ?_⟩
          rw [h.wf.idUnique q hq existing hmem hid, hretired.isFile, hplain.isFile]
        · exact allows_uploadFromPath hfit
  · exact allows_createFileAnyway hpath

lemma allows_resumeUpload {inFlight : List Uuid} {existing : FileRow} (h : db.PathsFit)
    (hstamp : ∀ db, '/' ∉ w.stamp db) (hpath : PlainPath r.path) :
    PathsAllow maxVariables (FilesService.resumeUpload w fate inFlight r existing) db fun _ _ => True := by
  unfold FilesService.resumeUpload
  split
  · exact allows_uploadFromPath h
  · dsimp only
    split
    · exact Script.Allows.bind (allows_purge h fun db' hfit _ => allows_uploadVersion hfit hstamp hpath)
    · exact allows_uploadVersion h hstamp hpath

lemma allows_upload (h : db.PathsFit) (hstamp : ∀ db, '/' ∉ w.stamp db) (hpath : PlainPath r.path) :
    PathsAllow maxVariables (FilesService.upload w fate r) db fun _ _ => True := by
  refine Script.Allows.store ?_
  dsimp only
  refine Script.Allows.refuse fun _ => ?_
  split
  · split
    · exact allows_uploadVersion h hstamp hpath
    · split
      · exact Script.Allows.pure trivial
      · split
        · exact allows_resumeUpload h hstamp hpath
        · split
          · exact Script.Allows.fail
          · refine Script.Allows.store ?_
            split
            · exact Script.Allows.pure trivial
            · exact allows_resumeUpload h hstamp hpath
  · exact allows_uploadVersion h hstamp hpath

/-! ### Folders, renames, moves and copies -/

lemma allows_createFolder {parentPath folderName : Path}
    (hclean : FolderClean parentPath folderName) :
    PathsAllow maxVariables (FilesService.createFolder w storageId parentPath folderName) db
      fun _ _ => True := by
  unfold FilesService.createFolder
  dsimp only
  refine Script.Allows.refuse fun hvalid => Script.Allows.refuse fun hslash => ?_
  obtain ⟨hparent, hname⟩ := hclean (by simpa using hvalid) hslash
  have hnamePath := (plainPath_segment hslash).mpr hname
  refine Script.Allows.store (allows_row ?_ fun _ _ _ => trivial)
  rcases hparent with rfl | hparent
  · exact ⟨wellFormed_folder.mpr hnamePath, isFolderPath_concat⟩
  · show WellFormed (if parentPath = [] then _ else _) ∧
      isFolderPath (if parentPath = [] then _ else _) = true
    rw [if_neg hparent.ne_nil]
    exact ⟨wellFormed_folder.mpr (plainPath_append.mpr ⟨hparent, hnamePath⟩), isFolderPath_concat⟩

lemma rewritesSound_of_clean {liveOnly : Bool} {oldPath newPath : Path}
    (h : ∀ r ∈ db.files, Db.renamed oldPath storageId liveOnly r = true →
      WellFormed newPath ∧ (isFolderPath oldPath = true → CutClean oldPath r.path))
    (hkind : isFolderPath oldPath = isFolderPath newPath) :
    RewritesSound db storageId liveOnly oldPath newPath := by
  intro r hr hchosen
  obtain ⟨hwell, hcut⟩ := h r hr hchosen
  obtain ⟨-, -, hat⟩ := of_decide_eq_true hchosen
  unfold Db.rewrittenPath
  cases hfolder : isFolderPath oldPath with
  | false =>
    rw [hfolder, if_neg Bool.false_ne_true] at hat
    have hpath : r.path = oldPath := of_decide_eq_true hat
    rw [if_neg Bool.false_ne_true, hpath, ← hkind]
    exact ⟨hwell, rfl⟩
  | true =>
    have hcut := hcut hfolder
    rw [hfolder] at hkind
    rw [if_pos rfl, if_pos hkind.symm]
    unfold CutClean at hcut
    split at hcut
    · case isTrue hnil =>
      rw [hnil, List.append_nil]
      exact ⟨hwell, hkind.symm.trans hcut.symm⟩
    · case isFalse hrest =>
      refine ⟨hwell.append hkind.symm (Or.inr hcut), ?_⟩
      rw [isFolderPath_append hrest]
      conv_rhs => rw [← List.take_append_drop (byteLen oldPath) r.path]
      rw [isFolderPath_append hrest]

lemma allows_rename {oldPath newPath : Path} (hclean : RenameClean db storageId oldPath newPath) :
    PathsAllow maxVariables (FilesService.rename w storageId oldPath newPath) db fun _ _ => True := by
  unfold FilesService.rename
  dsimp only
  refine Script.Allows.refuse fun hvalid => Script.Allows.refuse fun hkind => ?_
  have hvalid' : validatePath oldPath = true ∧ validatePath newPath = true := by
    simpa using hvalid
  have hkind' : isFolderPath oldPath = isFolderPath newPath := not_not.mp hkind
  refine Script.Allows.store (allows_row ?_ fun _ _ _ => trivial)
  exact rewritesSound_of_clean (hclean hvalid'.1 hvalid'.2 hkind') hkind'

lemma canonicalizeLivePath_spec (h : db.PathsFit) (hok : db.canonicalizeLivePath storageId path = .ok source) :
    WellFormed source ∧ (isFolderPath source = false → db.livePathExists storageId source = true) := by
  have hlive : ∀ {p : Path}, db.livePathExists storageId p = true → WellFormed p := by
    intro p hp
    obtain ⟨r, hr⟩ := Option.isSome_iff_exists.mp hp
    obtain ⟨hmem, -, hat, -⟩ := Db.liveAt_some hr
    exact hat ▸ h.wellFormed r hmem
  unfold Db.canonicalizeLivePath at hok
  split at hok
  · case isTrue hexists =>
    cases hok
    exact ⟨hlive hexists, fun _ => hexists⟩
  · split at hok
    · cases hok
    · dsimp only at hok
      split at hok
      · case isTrue hfolder =>
        cases hok
        refine ⟨?_, fun hfile => absurd (hfile.symm.trans isFolderPath_concat) Bool.false_ne_true⟩
        rcases Bool.or_eq_true_iff.mp hfolder with hfolder | hunder
        · exact hlive hfolder
        · have hchosen := chosen_wellFormed h.wellFormed (of_decide_eq_true hunder)
          rcases hchosen with ⟨-, hplain⟩ | ⟨-, hwell, hform⟩
          · exact hplain.wellFormed
          · have hbegins : db.folderPrefix storageId (path ++ ['/']) (fun r => r.Live) = path ++ ['/'] := by
              rw [Db.folderPrefix, if_pos isFolderPath_concat]
            rwa [hbegins] at hwell
      · cases hok

/-- Where a moved or copied entry arrives. -/
lemma allows_resolve {onConflict : Option String} {Q : Path → Db → Prop} (h : db.PathsFit)
    (hsource : WellFormed source)
    (hlive : isFolderPath source = false → db.livePathExists storageId source = true)
    (hkind : isFolderPath dest = isFolderPath source)
    (hdest : Settled db storageId source dest onConflict →
      WellFormed dest ∧ MeetsNoFolder db storageId dest onConflict)
    (hQ : Settled db storageId source dest onConflict → ∀ p db', db'.PathsFit →
      (∀ r ∈ db'.files, r ∈ db.files) → WellFormed p → above p = above dest →
        isFolderPath p = isFolderPath dest → Q p db') :
    PathsAllow maxVariables (FilesService.resolveDestConflict w storageId source dest onConflict) db Q := by
  have hnext : Settled db storageId source dest onConflict →
      (isFolderPath dest = false → ¬ db.OnlyFolderAt storageId dest) →
      PathsAllow maxVariables (Script.ofExcept (db.nextAvailableLivePath storageId dest)) db Q := by
    intro hsettled hmeets
    refine Script.Allows.ofExcept fun p hok => ?_
    obtain ⟨hp, habove, hfolder⟩ := nextAvailableLivePath_spec (hdest hsettled).1 hok
    refine hQ hsettled p db h (fun _ hr => hr) hp habove ?_
    cases hdest : isFolderPath dest with
    | true => exact hfolder.mpr (Or.inl hdest)
    | false =>
      refine Bool.eq_false_iff.mpr fun hp => ?_
      cases hfolder.mp hp with
      | inl hf => exact Bool.noConfusion (hdest.symm.trans hf)
      | inr hf => exact hmeets hdest hf
  refine Script.Allows.store ?_
  split
  · case isTrue hfree =>
    have hsettled : Settled db storageId source dest onConflict := by
      intro hconflict
      rw [hconflict] at hfree
      cases hfree
    exact Script.Allows.pure (hQ hsettled dest db h (fun _ hr => hr) (hdest hsettled).1 rfl rfl)
  · split
    · case isTrue hover =>
      refine hnext (fun _ => Or.inl hover) fun hfile honly => ?_
      -- a file that arrives onto itself stands there
      have hfile' : isFolderPath source = false := hkind.symm.trans hfile
      have hsame : dest = source := by
        simpa [hfile, hfile'] using hover
      have hstem : trimEndSlashes source = source := by
        rw [hsource.trimEndSlashes, trimSlash_file hfile']
      have habsent := honly.2
      rw [hsame, hstem, hlive hfile'] at habsent
      cases habsent
    · split
      · exact Script.Allows.fail
      · have hsettled : Settled db storageId source dest (some "replace") := fun _ => Or.inr (Or.inl rfl)
        refine Script.Allows.bind (allows_purge h fun db' hfit hsub => ?_)
        exact Script.Allows.pure (hQ hsettled dest db' hfit hsub (hdest hsettled).1 rfl rfl)
      · have hsettled : Settled db storageId source dest (some "rename") := fun _ => Or.inr (Or.inr rfl)
        exact hnext hsettled fun hfile => (hdest hsettled).2 hfile rfl
      · exact Script.Allows.fail

lemma allows_moveTo {destinationFolder : Path} {onConflict : Option String} (h : db.PathsFit)
    (hclean : MoveClean db storageId path (trimEndSlashes destinationFolder) onConflict) :
    PathsAllow maxVariables (FilesService.moveTo w storageId path destinationFolder onConflict) db
      fun _ _ => True := by
  unfold FilesService.moveTo
  dsimp only
  refine Script.Allows.refuse fun hpath => Script.Allows.refuse fun hdest => ?_
  refine Script.Allows.store (Script.Allows.bind (Script.Allows.ofExcept fun source hsource => ?_))
  refine Script.Allows.refuse fun _ => ?_
  generalize trimEndSlashes destinationFolder = dest at hclean hdest ⊢
  obtain ⟨hwell, hlive⟩ := canonicalizeLivePath_spec h hsource
  split
  · exact Script.Allows.pure trivial
  · case isFalse hne =>
    split
    · exact Script.Allows.fail
    · case isFalse hunder =>
      have hleaving : Leaving source (pathInFolder source dest) := ⟨hne, Bool.eq_false_iff.mpr hunder⟩
      have hpath' : validatePath path = true ∧ path ≠ [] := by
        simpa using hpath
      have hdest' : dest = [] ∨ validatePath dest = true := by
        simpa [← or_iff_not_imp_left] using hdest
      have hkind : isFolderPath (pathInFolder source dest) = isFolderPath source :=
        hwell.pathInFolder_kind dest
      have hall := fun hsettled => hclean source ⟨hpath'.1, hpath'.2, hdest', hsource, hsettled⟩ hleaving
      refine Script.Allows.bind (allows_resolve h hwell hlive hkind (fun hsettled => ?_) ?_)
      · obtain ⟨hplain, -, hmeets⟩ := hall hsettled
        exact ⟨hwell.pathInFolder hplain, hmeets⟩
      · intro hsettled p db' hfit hsub hp habove hpkind
        refine Script.Allows.bind (allows_ensureParents hfit hp fun db'' hfit' hpaths => ?_)
        refine Script.Allows.store (allows_row ?_ fun _ _ _ => trivial)
        refine rewritesSound_of_clean (fun r hr hchosen => ⟨hp, fun hfolder => ?_⟩)
          (hkind.symm.trans hpkind.symm)
        obtain ⟨hstorage, hl, hat⟩ := of_decide_eq_true hchosen
        rw [if_pos hfolder] at hat
        have hbegins := prefix_of_startsWith hat
        cases hpaths r.path (mem_livePaths.mpr ⟨r, hr, hstorage, hl, rfl⟩) with
        | inl hold =>
          obtain ⟨q, hq, hqs, hql, hqp⟩ := mem_livePaths.mp hold
          exact (hall hsettled).2.1 hfolder r.path
            (mem_livePaths.mpr ⟨q, hsub q hq, hqs, hql, hqp⟩) hbegins
        | inr hnew =>
          -- the folder would be above its own new path
          rw [habove] at hnew
          have hself := (hbegins.trans hnew).trans above_prefix
          have hnot := hleaving.2
          rw [hfolder, List.isPrefixOf_iff_prefix.mpr hself] at hnot
          cases hnot

lemma allows_cloneOneRow {file : FileRow} {destPath : Path} {Q : Unit → Db → Prop}
    (hdest : WellFormed destPath) (hkind : isFolderPath destPath = isFolderPath file.path)
    (hQ : ∀ db', db'.PathsFit → Q () db') :
    PathsAllow maxVariables (FilesService.cloneOneRow w file destPath) db Q := by
  refine Script.Allows.store (Script.Allows.bind ?_)
  refine Script.Allows.exec fun db₁ _ => ⟨⟨hdest, hkind⟩, fun h₁ => ?_⟩
  split
  · exact Script.Allows.pure (hQ db₁ h₁)
  · refine Script.Allows.store (Script.Allows.bind ?_)
    refine Script.Allows.exec fun db₂ _ => ⟨trivial, fun h₂ => ?_⟩
    exact Script.Allows.store (Script.Allows.exec fun db₃ _ => ⟨trivial, fun h₃ => hQ db₃ h₃⟩)

lemma allows_cloneRows {destRoot : Path} (hfolder : isFolderPath source = true)
    (hroot : isFolderPath destRoot = true ∧ WellFormed destRoot) (rows : List FileRow)
    (hrows : ∀ row ∈ rows, WellFormed row.path ∧ source <+: row.path) :
    ∀ {db : Db}, db.PathsFit →
      PathsAllow maxVariables (FilesService.cloneRows w storageId source destRoot rows) db fun _ _ => True := by
  induction rows with
  | nil => exact fun _ => Script.Allows.pure trivial
  | cons row rows ih =>
    intro db h
    obtain ⟨hwell, hbegins⟩ := hrows row List.mem_cons_self
    obtain ⟨-, rest, hrow, hrest⟩ := hwell.of_folder hfolder hbegins
    have hrelative : (if source.isPrefixOf row.path then row.path.drop source.length else row.path) = rest := by
      rw [if_pos (List.isPrefixOf_iff_prefix.mpr hbegins), hrow, List.drop_left]
    have hdest : WellFormed (destRoot ++ rest) := hroot.2.append hroot.1 hrest
    have hkind : isFolderPath (destRoot ++ rest) = isFolderPath row.path := by
      rw [hrow]
      by_cases hnil : rest = []
      · rw [hnil, List.append_nil, List.append_nil, hroot.1, hfolder]
      · rw [isFolderPath_append hnil, isFolderPath_append hnil]
    unfold FilesService.cloneRows
    dsimp only
    rw [hrelative]
    refine Script.Allows.bind (allows_ensureParents h hdest fun db₁ h₁ _ => ?_)
    refine Script.Allows.bind (allows_cloneOneRow hdest hkind fun db₂ h₂ => ?_)
    exact ih (fun row hmem => hrows row (List.mem_cons_of_mem _ hmem)) h₂

lemma allows_copyTo {destinationFolder : Path} {onConflict : Option String} (h : db.PathsFit)
    (hclean : CopyClean db storageId path (trimEndSlashes destinationFolder) onConflict) :
    PathsAllow maxVariables (FilesService.copyTo w storageId path destinationFolder onConflict) db
      fun _ _ => True := by
  unfold FilesService.copyTo
  dsimp only
  refine Script.Allows.refuse fun hpath => Script.Allows.refuse fun hdest => ?_
  refine Script.Allows.store (Script.Allows.bind (Script.Allows.ofExcept fun source hsource => ?_))
  refine Script.Allows.refuse fun _ => ?_
  generalize trimEndSlashes destinationFolder = dest at hclean hdest ⊢
  obtain ⟨hwell, hlive⟩ := canonicalizeLivePath_spec h hsource
  have hpath' : validatePath path = true ∧ path ≠ [] := by
    simpa using hpath
  have hdest' : dest = [] ∨ validatePath dest = true := by
    simpa [← or_iff_not_imp_left] using hdest
  have hkind := hwell.pathInFolder_kind dest
  have hall := fun hsettled => hclean source ⟨hpath'.1, hpath'.2, hdest', hsource, hsettled⟩
  refine Script.Allows.bind (allows_resolve h hwell hlive hkind (fun hsettled => ?_) ?_)
  · obtain ⟨hplain, hmeets⟩ := hall hsettled
    exact ⟨hwell.pathInFolder hplain, hmeets⟩
  · intro hsettled destRoot db₁ h₁ _ hroot _ hrootKind
    refine Script.Allows.bind (allows_ensureParents h₁ hroot fun db₂ h₂ _ => Script.Allows.store ?_)
    split
    · case isTrue hfolder =>
      have hroot' : isFolderPath destRoot = true ∧ WellFormed destRoot :=
        ⟨(hrootKind.trans hkind).trans hfolder, hroot⟩
      have hrows : ∀ row ∈ db₂.listLiveUnder storageId source,
          WellFormed row.path ∧ source <+: row.path := by
        intro row hrow
        obtain ⟨hmem, hchosen⟩ := List.mem_filter.mp (List.mem_insertionSort _ |>.mp hrow)
        exact ⟨h₂.wellFormed row hmem, prefix_of_startsWith (of_decide_eq_true hchosen).2.2⟩
      refine Script.Allows.refuse fun _ => ?_
      split
      · refine Script.Allows.bind (allows_row ⟨hroot'.2, hroot'.1⟩ fun db₃ _ h₃ => ?_)
        exact allows_cloneRows hfolder hroot' _ hrows h₃
      · exact allows_cloneRows hfolder hroot' _ hrows h₂
    · split
      · case h_1 file hfile =>
        obtain ⟨-, -, hat, -⟩ := Db.liveAt_some hfile
        refine allows_cloneOneRow hroot ?_ fun _ _ => trivial
        rw [hrootKind, hkind, hat]
      · exact Script.Allows.fail

/-! ### The trash -/

lemma allows_restoreAt (h : db.PathsFit) (hpath : WellFormed path) :
    PathsAllow maxVariables (TrashService.restore.restoreAt w storageId path) db fun _ _ => True := by
  refine Script.Allows.bind (allows_ensureParents h hpath fun db' h' _ => ?_)
  exact Script.Allows.store (allows_row trivial fun _ _ _ => trivial)

lemma canonicalTrashedPath_wellFormed (h : db.PathsFit) (hsome : db.listTrashedIds storageId path ≠ []) :
    WellFormed (db.canonicalTrashedPath storageId path) := by
  unfold Db.canonicalTrashedPath
  rcases chosen_wellFormed h.wellFormed hsome with ⟨-, hplain⟩ | ⟨hfolder, hwell, hform⟩
  · rw [if_neg (Bool.eq_false_iff.mp hplain.isFile)]
    split
    · exact hplain.wellFormed
    · exact wellFormed_folder.mpr hplain
  · split
    · case isTrue hpath =>
      rcases hform with hform | hform
      · rwa [hform] at hwell
      · rw [Db.folderPrefix, if_pos hpath] at hform
        exact absurd (congrArg List.length hform) (by simp)
    · case isFalse hpath =>
      have hplain : PlainPath path := by
        rcases hform with hform | hform
        · rw [hform] at hfolder
          exact absurd hfolder hpath
        · rw [hform] at hwell
          exact wellFormed_folder.mp hwell
      split
      · exact hplain.wellFormed
      · exact wellFormed_folder.mpr hplain

lemma allows_restore {onConflict : Option String} (h : db.PathsFit)
    (hclean : RestoreClean db storageId (normalizeTrashPath path) onConflict) :
    PathsAllow maxVariables (TrashService.restore w storageId path onConflict) db fun _ _ => True := by
  unfold TrashService.restore
  dsimp only
  refine Script.Allows.refuse fun _ => Script.Allows.store (Script.Allows.refuse fun hsome => ?_)
  have hwell := canonicalTrashedPath_wellFormed h hsome
  unfold RestoreClean at hclean
  dsimp only at hclean
  generalize db.canonicalTrashedPath storageId (normalizeTrashPath path) = canonical at hclean hwell ⊢
  split
  · exact allows_restoreAt h hwell
  · case isFalse hfree =>
    have hconflict : db.liveConflictAt storageId canonical = true := by
      simpa using hfree
    obtain ⟨hmeets, hcut⟩ := hclean hsome hconflict
    split
    · exact Script.Allows.fail
    · exact Script.Allows.bind (allows_purge h fun db' h' _ => allows_restoreAt h' hwell)
    · refine Script.Allows.bind (Script.Allows.ofExcept fun newPath hnext => ?_)
      obtain ⟨hnew, -, hkind⟩ := nextAvailableLivePath_spec hwell hnext
      refine Script.Allows.bind (allows_row ?_ fun db' _ h' => allows_restoreAt h' hnew)
      refine rewritesSound_of_clean (fun q hq hchosen => ⟨hnew, fun hf => hcut hf rfl q hq hchosen⟩) ?_
      cases hfile : isFolderPath canonical with
      | true => exact (hkind.mpr (Or.inl hfile)).symm
      | false =>
        refine (Bool.eq_false_iff.mpr fun hf => ?_).symm
        cases hkind.mp hf with
        | inl hf => exact Bool.noConfusion (hfile.symm.trans hf)
        | inr hf => exact hmeets hfile rfl hf
    · exact Script.Allows.fail

/-! ### Imports -/

lemma allows_tryCreateFolder {folder : Path} {Q : Unit → Db → Prop} (h : db.PathsFit)
    (hfolder : WellFormed folder ∧ isFolderPath folder = true) (hQ : ∀ db', db'.PathsFit → Q () db') :
    PathsAllow maxVariables (ImportRunner.tryCreateFolder w storageId folder) db Q := by
  refine Script.Allows.store ?_
  dsimp only
  split
  · exact allows_row hfolder fun db' _ h' => hQ db' h'
  · exact Script.Allows.pure (hQ db h)

lemma allows_ensureSegments {segments : List Path}
    (hsegs : ∀ seg ∈ segments, PlainSegment seg ∧ '/' ∉ seg)
    {Q : List Path → Db → Prop} (hQ : ∀ created db', db'.PathsFit → Q created db') :
    ∀ {db : Db} {before : Path} {created : List Path}, db.PathsFit →
      before = [] ∨ isFolderPath before = true ∧ WellFormed before →
        PathsAllow maxVariables (ImportRunner.ensureSegments w storageId before segments created) db Q := by
  induction segments with
  | nil => exact fun h _ => Script.Allows.pure (hQ _ _ h)
  | cons seg segments ih =>
    intro db before created h hbefore
    obtain ⟨hseg, hslash⟩ := hsegs seg List.mem_cons_self
    have hsegs' := fun seg' hmem => hsegs seg' (List.mem_cons_of_mem seg hmem)
    have hplain := (plainPath_segment hslash).mpr hseg
    have hfolder : WellFormed (before ++ seg ++ ['/']) ∧ isFolderPath (before ++ seg ++ ['/']) = true := by
      refine ⟨?_, isFolderPath_concat⟩
      rcases hbefore with rfl | ⟨hf, hwell⟩
      · exact wellFormed_folder.mpr hplain
      · rw [List.append_assoc]
        exact hwell.append hf (Or.inr (wellFormed_folder.mpr hplain))
    show PathsAllow maxVariables (if before ++ seg ++ ['/'] ∈ created then _ else _) db Q
    split
    · exact ih hsegs' h (Or.inr ⟨hfolder.2, hfolder.1⟩)
    · refine Script.Allows.bind (allows_tryCreateFolder h hfolder fun db' h' => ?_)
      exact ih hsegs' h' (Or.inr ⟨hfolder.2, hfolder.1⟩)

lemma allows_ensureFolder {created : List Path} {Q : List Path → Db → Prop} (h : db.PathsFit)
    (hpath : PlainFolder path) (hQ : ∀ created db', db'.PathsFit → Q created db') :
    PathsAllow maxVariables (ImportRunner.ensureFolder w storageId path created) db Q := by
  refine allows_ensureSegments (fun seg hseg => ?_) hQ h (Or.inl rfl)
  obtain ⟨hmem, hne⟩ := List.mem_filter.mp hseg
  refine ⟨?_, slash_notMem_segment hmem⟩
  rcases hpath with rfl | hplain
  · have hnil : seg = [] := by
      simpa using hmem
    exact absurd hnil (of_decide_eq_true hne)
  · exact hplain seg hmem

lemma allows_ensureDirs {targetPath : Path} (dirs : List Path) : ∀ {db : Db} {created : List Path},
    db.PathsFit →
      PathsAllow maxVariables (ImportRunner.ensureDirs w storageId targetPath dirs created) db
        fun _ _ => True := by
  induction dirs with
  | nil => exact fun _ => Script.Allows.pure trivial
  | cons rel rels ih =>
    intro db created h
    unfold ImportRunner.ensureDirs
    split
    · case h_1 folder hjoin =>
      exact Script.Allows.bind
        (allows_ensureFolder h (Or.inr (joinTarget_plain hjoin)) fun created' db' h' => ih h')
    · exact ih h

lemma allows_copyItem {targetPath : Path} {item : ImportItem} (h : db.PathsFit)
    (hstamp : ∀ db, '/' ∉ w.stamp db) :
    PathsAllow maxVariables (ImportRunner.copyItem w fate storageId targetPath item) db fun _ _ => True := by
  unfold ImportRunner.copyItem
  split
  · exact Script.Allows.pure trivial
  · case h_2 p hjoin =>
    refine Script.Allows.store ?_
    split
    · exact Script.Allows.pure trivial
    · exact allows_upload h hstamp (joinTarget_plain hjoin)

lemma Request.allows (r : Request) (h : db.PathsFit) (hclean : r.Clean db) :
    PathsAllow maxVariables r.script db fun _ _ => True := by
  unfold Request.script
  unfold Request.Clean at hclean
  obtain ⟨storageId, w, hstamp, call⟩ := r
  cases call with
  | createFolder parentPath folderName => exact allows_createFolder hclean
  | upload fate form =>
    show PathsAllow maxVariables (uploadForm w fate storageId form) db _
    unfold uploadForm
    split
    · exact Script.Allows.fail
    · case h_2 p hpath => exact allows_upload h hstamp (constructPath_plain hpath)
  | rename oldPath newPath => exact allows_rename hclean
  | renameTo path newName =>
    dsimp only at hclean ⊢
    split
    · exact Script.Allows.fail
    · case h_2 newPath hnew => exact allows_rename (hclean newPath hnew)
  | moveTo path destinationFolder onConflict => exact allows_moveTo h hclean
  | copyTo path destinationFolder onConflict => exact allows_copyTo h hclean
  | restore path onConflict => exact allows_restore h hclean
  | delete path =>
    exact Script.Allows.refuse fun _ => Script.Allows.store (allows_row trivial fun _ _ _ => trivial)
  | importFolders target dirs =>
    dsimp only
    split
    · exact Script.Allows.fail
    · case h_2 folder hfolder =>
      exact Script.Allows.bind
        (allows_ensureFolder h (normalizeTarget_plain hfolder) fun _ _ h' => allows_ensureDirs dirs h')
  | importFile target fate item =>
    dsimp only
    split
    · exact Script.Allows.fail
    · exact allows_copyItem h hstamp

/-- In every sequence of clean requests, after each of their statements, every path in the files table is
    well formed, folders' paths end with a slash and files' do not, and no row turns from one into the
    other. -/
theorem paths_canonical (maxVariables : Nat) (t : TrackedDb) (hwf : t.db.Wf) (h : PathsCanonical t)
    (requests : List Request)
    (hclean : AllOk (Script.call (Statement.attempt maxVariables) Request.script) Request.Clean t.db requests) :
    Always (TrackedDb.apply maxVariables) PathsCanonical t
      (Script.traces (Statement.attempt maxVariables) Request.script t.db requests) := by
  refine pathsCanonical_run h hwf ?_
  refine Script.allOk_traces (I := Db.PathsFit) ?_ ?_ ⟨hwf, h.wellFormed⟩ hclean
  · exact fun db st db' hfit hsound hok => hfit.attempt hsound hok
  · exact fun db r hfit hclean => r.allows hfit hclean

/-! ### A small storage -/

def smallRequest (call : PathCall) : Request :=
  ⟨1, smallWorld, fun _ => List.not_mem_nil, call⟩

def smallForm (parentPath filename : Path) : UploadForm :=
  ⟨parentPath, filename, [7], 1, none, none, none, true, Nat.zero_lt_one⟩

/-- Every kind of request, on names that name something. -/
def tidyRequests : List Request :=
  [.createFolder [] "docs".toList,
    .upload ⟨[], true, true, .ok ()⟩ (smallForm " docs\\x ".toList "a.b".toList),
    .copyTo "docs/x".toList [] none, .renameTo "x/a.b".toList "b".toList,
    .moveTo "x/b".toList "docs".toList (some "rename"), .rename "docs/".toList "new/".toList,
    .delete "new/x".toList, .restore "new/x".toList (some "rename"),
    .importFolders "/in ".toList [" é/é".toList],
    .importFile "in".toList ⟨[], true, true, .ok ()⟩
      ⟨"é/c".toList, 1, none, [7], "sha256:7", 1, Nat.zero_lt_one⟩].map smallRequest

theorem tidyRequests_canonical :
    Always (TrackedDb.apply 1000) PathsCanonical ⟨emptyStorage, fun _ => true⟩
      (Script.traces (Statement.attempt 1000) Request.script emptyStorage tidyRequests) :=
  paths_canonical 1000 ⟨emptyStorage, fun _ => true⟩ emptyStorage_wf
    ⟨by decide, by decide⟩ tidyRequests (by decide +kernel)

/-- A folder of the name `..` is stored. -/
theorem dotsFolder_stored :
    ¬ Always (TrackedDb.apply 1000) PathsCanonical ⟨emptyStorage, fun _ => true⟩
      (Script.traces (Statement.attempt 1000) Request.script emptyStorage
        [smallRequest (.createFolder [] "..".toList)]) := by
  intro h
  have hstored : ¬ ∀ r ∈ (run (TrackedDb.apply 1000) ⟨emptyStorage, fun _ => true⟩
      (Script.traces (Statement.attempt 1000) Request.script emptyStorage
        [smallRequest (.createFolder [] "..".toList)])).db.files, WellFormed r.path := by
    decide +kernel
  exact hstored h.last.wellFormed

end Sarca.Server
