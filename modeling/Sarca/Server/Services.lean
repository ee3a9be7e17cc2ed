import Sarca.Lib.Script
import Sarca.Server.Operations
import Sarca.Server.Paths
import Sarca.Server.Upload

/-!
# The services over files

The calls of `FilesService` and `TrashService` that change which names a storage has: `createFolder`,
`upload` (Rust `upload_anyway_from_path_with_progress`), `rename`, `moveTo`, `copyTo`, `delete` and
`restore`, as scripts that read the database and run one statement after the other. What a call takes
from elsewhere is in `World`: fresh ids, instants, visiting orders. The user has write access, and share
links and the media cache, which no path depends on, are left out; of a relay only its end is here.
-/

namespace Sarca.Server
open Sarca.Lib

/-- One statement of a service, or the statements of one repository function. -/
inductive Statement where
  | row (op : RowOp)
  /-- the `INSERT` of `insert_cloned_file` -/
  | insertClonedFile (source : FileRow) (destPath : Path) (id : Uuid)
  | createChunksBatch (chunks : List FileChunk)
  | insertBatch (replicas : List ChunkReplica)

namespace Db

/-- A row with size, flags, pictures, chunk size and times of another one. -/
def clonedRow (source : FileRow) (destPath : Path) (id : Uuid) : FileRow :=
  { source with id := id, path := destPath, deletedAt := none, contentHash := none }

/-- `INSERT INTO files` of `insert_cloned_file`. -/
def insertClonedFile (db : Db) (source : FileRow) (destPath : Path) (id : Uuid) :
    Except SarcaError Db :=
  match db.insertFile (clonedRow source destPath id) with
  | .ok db' => .ok db'
  | .error .uniqueViolation => .error (.alreadyExists "File with such name")
  | .error .foreignKeyViolation => .error .unknown

lemma insertClonedFile_ok {db db' : Db} {source : FileRow} {destPath : Path} {id : Uuid}
    (hok : db.insertClonedFile source destPath id = .ok db') :
    db.insertFile (clonedRow source destPath id) = .ok db' := by
  unfold insertClonedFile at hok
  split at hok
  · case h_1 db₁ hins =>
    cases hok
    exact hins
  · cases hok
  · cases hok

/-- The rows of `create_chunks_batch`, one after the other. -/
def createChunks (db : Db) : List FileChunk → Except SarcaError Db
  | [] => .ok db
  | chunk :: chunks =>
    if (∃ c ∈ db.chunks, c.id = chunk.id ∨ c.fileId = chunk.fileId ∧ c.position = chunk.position) ∨
        (db.fileById chunk.fileId).isNone then
      .error .unknown
    else createChunks { db with chunks := db.chunks ++ [chunk] } chunks

/-- Rust `create_chunks_batch`; each row binds three variables. -/
def createChunksBatch (db : Db) (maxVariables : Nat) (chunks : List FileChunk) :
    Except SarcaError Db :=
  if chunks = [] then .ok db
  else if maxVariables < 3 * chunks.length then .error .unknown
  else db.createChunks chunks

end Db

def Statement.attempt (maxVariables : Nat) (db : Db) : Statement → Except SarcaError Db
  | .row op => Server.attempt db op
  | .insertClonedFile source destPath id => db.insertClonedFile source destPath id
  | .createChunksBatch chunks => db.createChunksBatch maxVariables chunks
  | .insertBatch replicas => db.insertBatch maxVariables replicas

abbrev Service := Script Db Statement SarcaError

/-- What a call takes from elsewhere, for each database it may find: some fresh ids, the order in which a
    statement visits its rows, the instant and its text in a file name. -/
structure World where
  freshId : Db → Nat → Uuid
  order : Db → List Uuid
  now : Db → Instant
  stamp : Db → Path

/-! ## What the services read -/

/-- `path.starts_with('/')`, `//` and the segments `.` and `..` are refused. -/
def validatePath (path : Path) : Bool :=
  path.head? ≠ some '/' && !holdsPattern "//".toList path &&
    (path.splitOn '/').all fun seg => seg ≠ ['.', '.'] && seg ≠ ['.']

def validateFilepath (path : Path) : Bool :=
  validatePath path && !isFolderPath path

/-- `str::trim_start_matches('/')` -/
def normalizeTrashPath (path : Path) : Path :=
  path.dropWhile (· = '/')

/-- `path.trim_end_matches('/').rsplit('/').next()` -/
def lastName (path : Path) : Path :=
  let trimmed := trimEndSlashes path
  match rsplitOnce '/' trimmed with
  | some (_, name) => name
  | none => trimmed

def pathInFolder (path destFolder : Path) : Path :=
  let newPath := if destFolder = [] then lastName path else destFolder ++ '/' :: lastName path
  if isFolderPath path then newPath ++ ['/'] else newPath

namespace Db

/-- Rust `live_path_exists`. -/
def livePathExists (db : Db) (storageId : Uuid) (path : Path) : Bool :=
  (db.liveAt storageId path).isSome

/-- A live file `path` or folder `path/` occupies the name. -/
def liveBasenameTaken (db : Db) (storageId : Uuid) (path : Path) : Bool :=
  let filePath := trimEndSlashes path
  db.livePathExists storageId filePath || db.livePathExists storageId (filePath ++ ['/'])

/-- Rust `live_conflict_at`. -/
def liveConflictAt (db : Db) (storageId : Uuid) (path : Path) : Bool :=
  db.livePathExists storageId path ||
    (!isFolderPath path && db.livePathExists storageId (path ++ ['/']))

/-- The name in front of its last dot, and the rest, in the folder it is in. -/
def splitSuffix (path : Path) : Path × Path :=
  match rsplitOnce '/' path with
  | some (dir, name) =>
    match rsplitOnce '.' name with
    | some (stem, ext) => (dir ++ '/' :: stem, '.' :: ext)
    | none => (path, [])
  | none =>
    match rsplitOnce '.' path with
    | some (stem, ext) => (stem, '.' :: ext)
    | none => (path, [])

/-- The next free name for a copy, `name (n).ext` or `name (n)/`. -/
def nextAvailableLivePath (db : Db) (storageId : Uuid) (path : Path) : Except SarcaError Path :=
  let stem := trimEndSlashes path
  let asFolder := isFolderPath path || (path ≠ [] && db.livePathExists storageId (stem ++ ['/']) &&
    !db.livePathExists storageId stem)
  let normalized := if asFolder then stem ++ ['/'] else stem
  if !db.liveBasenameTaken storageId normalized then .ok normalized
  else
    let candidate := fun i : Nat =>
      if asFolder then numbered stem ['/'] i
      else numbered (splitSuffix normalized).1 (splitSuffix normalized).2 i
    match (List.range' 1 9999).find? fun i => !db.liveBasenameTaken storageId (candidate i) with
    | some i => .ok (candidate i)
    | none => .error .unknown

def listLiveIdsAtPath (db : Db) (storageId : Uuid) (path : Path) : List Uuid :=
  let folder := db.folderPrefix storageId path fun r => r.Live
  db.idsWhere (atOrUnder storageId path folder fun r => r.Live)

def canonicalizeLivePath (db : Db) (storageId : Uuid) (path : Path) : Except SarcaError Path :=
  if db.livePathExists storageId path then .ok path
  else if isFolderPath path then .error (.doesNotExist "file")
  else
    let folder := path ++ ['/']
    if db.livePathExists storageId folder || db.listLiveIdsAtPath storageId folder ≠ [] then .ok folder
    else .error (.doesNotExist "file")

/-- The form in which a trashed path is stored. -/
def canonicalTrashedPath (db : Db) (storageId : Uuid) (path : Path) : Path :=
  if isFolderPath path then path
  else if db.listTrashedIds storageId (path ++ ['/']) = [] then path
  else path ++ ['/']

def listLiveUnder (db : Db) (storageId : Uuid) (folder : Path) : List FileRow :=
  (db.files.filter fun r => r.storageId = storageId ∧ r.Live ∧ startsWith r.path folder).insertionSort
    fun a b => pathLt b.path a.path = false

def replicasOf (db : Db) (fileId : Uuid) : List ChunkReplica :=
  db.replicas.filter fun r => ∃ c ∈ db.chunks, c.fileId = fileId ∧ c.id = r.chunkId

end Db

/-! ## The calls -/

namespace Service

def row (op : RowOp) : Service Unit :=
  Script.exec (.row op)

/-- Rust `purge_file_ids`, as far as it writes rows. -/
def purgeFileIds (w : World) (ids : List Uuid) : Service Unit := do
  let db ← Script.store
  if ids = [] then pure () else row (.hardDeleteIds ids (w.order db))

/-- Rust `ensure_live_parent_folders`; a folder that is not live behind it made it fail. -/
def ensureLiveParentFolders (w : World) (storageId : Uuid) (path : Path) : Service Unit := do
  let db ← Script.store
  let ids := (List.range (Db.parentFolders path).length).map (w.freshId db)
  row (.ensureLiveParentFolders path storageId ids (w.order db))
  let after ← Script.store
  if ((Db.parentFolders path).all fun folder => after.livePathExists storageId folder) then pure ()
  else Script.fail .unknown

end Service

namespace FilesService
open Service

def createFolder (w : World) (storageId : Uuid) (parentPath folderName : Path) : Service Unit := do
  if !validateFilepath parentPath then Script.fail .invalidPath
  if '/' ∈ folderName then Script.fail .invalidFolderName
  let path := if parentPath = [] then folderName ++ ['/']
    else parentPath ++ '/' :: folderName ++ ['/']
  let db ← Script.store
  row (.createFolder (InFile.new path 0 storageId) (w.freshId db 0))

/-- What an upload meets: the rows with a running relay, whether the one it waits for ends in time,
    whether an abandoned row is purged, and how its own relay ends. -/
structure UploadFate where
  inFlight : List Uuid
  finished : Bool
  purged : Bool
  /-- an error comes with whether a chunk was stored before it -/
  relay : Except (SarcaError × Bool) Unit

/-- Rust `upload_from_path`. -/
def uploadFromPath (w : World) (fate : UploadFate) (fileId : Uuid) : Service Unit :=
  match fate.relay with
  | .ok () => row (.setAsUploaded fileId)
  | .error (e, stored) => do
    if !stored then purgeFileIds w [fileId]
    Script.fail e

/-- Rust `create_file_anyway`. Nothing else inserts a row meanwhile, so that its attempts are one. -/
def createFileAnyway (w : World) (fate : UploadFate) (r : UploadRequest) : Service Unit := do
  let db ← Script.store
  let path := db.anywayPath r.storageId r.path
  row (.createFile { r.inFile with path := path } (w.freshId db 0))
  uploadFromPath w fate (w.freshId db 0)

/-- A new version takes the place of the old one, or a new file is stored. -/
def uploadVersion (w : World) (fate : UploadFate) (inFlight : List Uuid) (r : UploadRequest) :
    Service Unit := do
  let db ← Script.store
  match db.liveAt r.storageId r.path with
  | some existing =>
    if !r.replace then createFileAnyway w fate r
    else if existing.id ∈ inFlight then Script.fail .uploadAlreadyInProgress
    else do
      row (.replaceContent existing.id existing.contentHash
        (retiredVersionPath existing.path (w.stamp db)) r.inFile (w.freshId db 0) (w.now db))
      uploadFromPath w fate existing.id
  | none => createFileAnyway w fate r

/-- An unfinished attempt at the same bytes is resumed or purged. -/
def resumeUpload (w : World) (fate : UploadFate) (inFlight : List Uuid) (r : UploadRequest)
    (existing : FileRow) : Service Unit :=
  if resumable existing r.inFile.size then uploadFromPath w fate existing.id
  else do
    if fate.purged then purgeFileIds w [existing.id]
    uploadVersion w fate inFlight r

/-- Rust `upload_anyway_from_path_with_progress`. -/
def upload (w : World) (fate : UploadFate) (r : UploadRequest) : Service Unit := do
  let db ← Script.store
  if ∀ worker ∈ db.workers, worker.storageId ≠ some r.storageId then
    Script.fail .storageDoesNotHaveWorkers
  match db.liveAt r.storageId r.path with
  | some existing =>
    if r.contentHash.isNone || existing.contentHash ≠ r.contentHash then
      uploadVersion w fate fate.inFlight r
    else if existing.isUploaded then pure ()
    else if existing.id ∉ fate.inFlight then resumeUpload w fate fate.inFlight r existing
    else if !fate.finished then Script.fail .uploadAlreadyInProgress
    else do
      let db ← Script.store
      if (db.fileById existing.id).any fun file => file.isUploaded then pure ()
      else resumeUpload w fate (fate.inFlight.filter (· ≠ existing.id)) r existing
  | none => uploadVersion w fate fate.inFlight r

def delete (w : World) (storageId : Uuid) (path : Path) : Service Unit := do
  if !validatePath path then Script.fail .invalidPath
  let db ← Script.store
  row (.delete path storageId (w.now db) (w.freshId db 0) (w.order db))

def rename (w : World) (storageId : Uuid) (oldPath newPath : Path) : Service Unit := do
  if !validatePath oldPath || !validatePath newPath then Script.fail .invalidPath
  if isFolderPath oldPath ≠ isFolderPath newPath then Script.fail .invalidPath
  let db ← Script.store
  row (.updatePath oldPath newPath storageId (w.order db))

/-- The path at which a moved or copied entry arrives, where it may be taken. -/
def resolveDestConflict (w : World) (storageId : Uuid) (source dest : Path)
    (onConflict : Option String) : Service Path := do
  let db ← Script.store
  if !db.liveConflictAt storageId dest then pure dest
  -- onto itself or around itself: always keep both
  else if dest = source || (isFolderPath source && source.isPrefixOf dest) ||
      (isFolderPath dest && dest.isPrefixOf source) then
    Script.ofExcept (db.nextAvailableLivePath storageId dest)
  else
    match onConflict with
    | none => Script.fail .trashPathConflict
    | some "replace" => do
      purgeFileIds w (db.listLiveIdsAtPath storageId dest)
      pure dest
    | some "rename" => Script.ofExcept (db.nextAvailableLivePath storageId dest)
    | some _ => Script.fail .invalidPath

def moveTo (w : World) (storageId : Uuid) (path destinationFolder : Path)
    (onConflict : Option String) : Service Unit := do
  if !validatePath path || path = [] then Script.fail .invalidPath
  let dest := trimEndSlashes destinationFolder
  if dest ≠ [] && !validatePath dest then Script.fail .invalidPath
  let db ← Script.store
  let source ← Script.ofExcept (db.canonicalizeLivePath storageId path)
  let newPath := pathInFolder source dest
  if !validatePath newPath then Script.fail .invalidPath
  if source = newPath then pure ()
  else if isFolderPath source && source.isPrefixOf newPath then Script.fail .invalidPath
  else do
    let newPath ← resolveDestConflict w storageId source newPath onConflict
    ensureLiveParentFolders w storageId newPath
    let db ← Script.store
    row (.updatePath source newPath storageId (w.order db))

/-- Rust `clone_one_row`. -/
def cloneOneRow (w : World) (source : FileRow) (destPath : Path) : Service Unit := do
  let db ← Script.store
  let newId := w.freshId db 0
  Script.exec (.insertClonedFile source destPath newId)
  -- folder markers have no chunks
  if isFolderPath destPath || isFolderPath source.path then pure ()
  else do
    let db ← Script.store
    let chunks := db.chunksOf source.id
    let newChunks := (chunks.zipIdx.map fun c => FileChunk.mk (w.freshId db c.2) newId c.1.position)
    Script.exec (.createChunksBatch newChunks)
    let db ← Script.store
    let replicas := (db.replicasOf source.id).zipIdx.filterMap fun r =>
      (chunks.zip newChunks).findSome? fun c =>
        if c.1.id = r.1.chunkId then some { r.1 with id := w.freshId db r.2, chunkId := c.2.id }
        else none
    Script.exec (.insertBatch replicas)

def cloneRows (w : World) (storageId : Uuid) (source destRoot : Path) : List FileRow → Service Unit
  | [] => pure ()
  | row :: rows => do
    let relative := if source.isPrefixOf row.path then row.path.drop source.length else row.path
    ensureLiveParentFolders w storageId (destRoot ++ relative)
    cloneOneRow w row (destRoot ++ relative)
    cloneRows w storageId source destRoot rows

def copyTo (w : World) (storageId : Uuid) (path destinationFolder : Path)
    (onConflict : Option String) : Service Unit := do
  if !validatePath path || path = [] then Script.fail .invalidPath
  let dest := trimEndSlashes destinationFolder
  if dest ≠ [] && !validatePath dest then Script.fail .invalidPath
  let db ← Script.store
  let source ← Script.ofExcept (db.canonicalizeLivePath storageId path)
  let destRoot := pathInFolder source dest
  if !validatePath destRoot then Script.fail .invalidPath
  let destRoot ← resolveDestConflict w storageId source destRoot onConflict
  ensureLiveParentFolders w storageId destRoot
  let db ← Script.store
  if isFolderPath source then
    let rows := db.listLiveUnder storageId source
    if rows = [] then Script.fail (.doesNotExist "file")
    if rows.all fun r => r.path ≠ source then
      row (.createFolder (InFile.new destRoot 0 storageId) (w.freshId db 0))
    cloneRows w storageId source destRoot rows
  else
    match db.liveAt storageId source with
    | some file => cloneOneRow w file destRoot
    | none => Script.fail (.doesNotExist "file")

end FilesService

namespace TrashService
open Service

def restore (w : World) (storageId : Uuid) (path : Path) (onConflict : Option String) :
    Service Unit := do
  if path = [] then Script.fail .invalidPath
  let restorePath := normalizeTrashPath path
  let db ← Script.store
  if db.listTrashedIds storageId restorePath = [] then Script.fail (.doesNotExist "file")
  let canonical := db.canonicalTrashedPath storageId restorePath
  if !db.liveConflictAt storageId canonical then restoreAt canonical
  else
    match onConflict with
    | none => Script.fail .trashPathConflict
    | some "replace" => do
      purgeFileIds w (db.listLiveIdsAtPath storageId canonical)
      restoreAt canonical
    | some "rename" => do
      let newPath ← Script.ofExcept (db.nextAvailableLivePath storageId canonical)
      row (.updateTrashedPath canonical newPath storageId (w.order db))
      restoreAt newPath
    | some _ => Script.fail .invalidPath
where
  /-- The folders above the path, and what is at or under it. -/
  restoreAt (path : Path) : Service Unit := do
    ensureLiveParentFolders w storageId path
    let db ← Script.store
    row (.restore path storageId (w.order db))

end TrashService

inductive Call where
  | createFolder (parentPath folderName : Path)
  | upload (fate : FilesService.UploadFate) (r : UploadRequest)
  | rename (oldPath newPath : Path)
  | moveTo (path destinationFolder : Path) (onConflict : Option String)
  | copyTo (path destinationFolder : Path) (onConflict : Option String)
  | restore (path : Path) (onConflict : Option String)
  | delete (path : Path)

/-- What a call on a storage does; an upload names its own storage. -/
def Call.script (w : World) (storageId : Uuid) : Call → Service Unit
  | .createFolder parentPath folderName => FilesService.createFolder w storageId parentPath folderName
  | .upload fate r => FilesService.upload w fate r
  | .rename oldPath newPath => FilesService.rename w storageId oldPath newPath
  | .moveTo path destinationFolder onConflict =>
    FilesService.moveTo w storageId path destinationFolder onConflict
  | .copyTo path destinationFolder onConflict =>
    FilesService.copyTo w storageId path destinationFolder onConflict
  | .restore path onConflict => TrashService.restore w storageId path onConflict
  | .delete path => FilesService.delete w storageId path

end Sarca.Server
