import Mathlib.Data.List.DropRight
import Sarca.Server.Triggers

/-!
# The files repository

The operations of `repositories/files.rs` that write rows of `files`: `createFileRow` (Rust
`create_file_row`, `create_folder` and the `INSERT` of `create_file_anyway`), `setAsUploaded`,
`setThumb`, `setPreview`, `replaceContent`, `delete`, `rewritePaths` (Rust `update_path`,
`update_trashed_path`), `restore`, `ensureLiveParentFolders` and `hardDeleteIds`. What the code takes
from elsewhere is an argument: the fresh ids of `Uuid::new_v4`, the instant of `datetime('now')`, the
order in which a statement visits its rows.
-/

namespace Sarca.Server

/-- The errors of `SarcaError` these operations answer. -/
inductive SarcaError where
  | alreadyExists (what : String)
  | doesNotExist (what : String)
  | trashPathConflict
  | uploadAlreadyInProgress
  | noActiveChannel
  | storageDoesNotHaveWorkers
  | invalidPath
  | invalidFolderName
  | unknown
deriving DecidableEq, Repr

def maxChar : Char := Char.ofNat 1114111

/-- `column >= param AND column < param || char(1114111)` (Rust `sql::starts_with`). -/
def startsWith (column param : Path) : Bool :=
  !pathLt column param && pathLt column (param ++ [maxChar])

/-- The length of a text in UTF-8 bytes (Rust `str::len`). -/
def byteLen (p : Path) : Nat :=
  p.foldl (fun n c => n + c.utf8Size) 0

/-- The trailing empty and `.` segments that `Components` passes over. -/
def dropTrailingEmpty (segments : List Path) : List Path :=
  segments.rdropWhile fun seg => seg = [] ∨ seg = ['.']

/-- `Path::new(path).parent()`, where an empty parent counts as none. -/
def parentDir (path : Path) : Option Path :=
  match path.splitOn '/' with
  | [] => none
  | first :: rest =>
    match dropTrailingEmpty rest with
    | [] => none
    | body =>
      let kept := dropTrailingEmpty body.dropLast
      let parent := ['/'].intercalate (first :: kept)
      if first = [] then some ('/' :: ['/'].intercalate kept) else some parent

/-- `str::trim_end_matches('/')` -/
def trimEndSlashes (path : Path) : Path :=
  path.rdropWhile (· = '/')

/-- A folder marker, as `delete` and `ensure_live_parent_folders` insert it. -/
def folderMarker (path : Path) (storageId id : Uuid) : FileRow :=
  (InFile.new path 0 storageId).toRow id true

namespace Db

/-- `INSERT INTO files` of `create_file_row`; `create_folder` passes `is_uploaded = true`, and
    `create_file_anyway` inserts the same row unuploaded at the path it picked. -/
def createFileRow (db : Db) (inObj : InFile) (isUploaded : Bool) (id : Uuid) :
    Except SarcaError Db :=
  match db.insertFile (inObj.toRow id isUploaded) with
  | .ok db' => .ok db'
  | .error .foreignKeyViolation => .error (.doesNotExist "such storage")
  | .error .uniqueViolation => .error (.alreadyExists "File with such name")

/-- An `UPDATE` of the row with an id, where any failure is `SarcaError::Unknown`. -/
def updateById (db : Db) (id : Uuid) (f : FileRow → FileRow) : Except SarcaError Db :=
  match db.updateFiles [] (fun r => r.id = id) f with
  | .ok db' => .ok db'
  | .error _ => .error .unknown

/-- `UPDATE files SET is_uploaded = true WHERE id = $1` -/
def setAsUploaded (db : Db) (fileId : Uuid) : Except SarcaError Db :=
  db.updateById fileId fun r => { r with isUploaded := true }

def setThumb (db : Db) (fileId : Uuid) (telegramFileId : String) (messageId : Int) :
    Except SarcaError Db :=
  db.updateById fileId fun r =>
    { r with thumbTelegramFileId := some telegramFileId, thumbTelegramMessageId := some messageId }

def setPreview (db : Db) (fileId : Uuid) (telegramFileId : String) (messageId : Int) :
    Except SarcaError Db :=
  db.updateById fileId fun r =>
    { r with
      previewTelegramFileId := some telegramFileId
      previewTelegramMessageId := some messageId }

def HasChunks (db : Db) (fileId : Uuid) : Prop :=
  ∃ c ∈ db.chunks, c.fileId = fileId

instance (db : Db) (fileId : Uuid) : Decidable (db.HasChunks fileId) :=
  inferInstanceAs (Decidable (∃ c ∈ db.chunks, c.fileId = fileId))

/-- The chunk rows of one file handed to another one. -/
def moveChunks (db : Db) (fileId retiredId : Uuid) : Db :=
  { db with chunks := db.chunks.map fun c =>
      if c.fileId = fileId then { c with fileId := retiredId } else c }

/-- The row that keeps a displaced version in the trash. -/
def retiredRow (current : FileRow) (retiredId : Uuid) (retiredPath : Path) (now : Instant) :
    FileRow :=
  { current with id := retiredId, path := retiredPath, deletedAt := some now }

/-- The row once it stands for the incoming version: unuploaded, without derived pictures. -/
def incomingRow (incoming : InFile) (r : FileRow) : FileRow :=
  { r with
    size := incoming.size
    isUploaded := false
    chunkSizeBytes := incoming.chunkSizeBytes
    sourceCreatedAt := incoming.sourceCreatedAt
    sourceMtime := incoming.sourceMtime
    contentHash := incoming.contentHash
    thumbTelegramFileId := none
    thumbTelegramMessageId := none
    previewTelegramFileId := none
    previewTelegramMessageId := none }

/-- The version a row holds, moved to the trash with its chunks if there is anything to keep. -/
def retire (db : Db) (current : FileRow) (retiredId : Uuid) (retiredPath : Path) (now : Instant) :
    Except SarcaError Db :=
  if current.isUploaded = true ∨ db.HasChunks current.id then
    match db.insertFile (retiredRow current retiredId retiredPath now) with
    | .ok db' => .ok (db'.moveChunks current.id retiredId)
    | .error _ => .error .unknown
  else
    .ok db

/-- The live row `file_id` turned to a new version (Rust `replace_content`), one transaction. -/
def replaceContent (db : Db) (fileId : Uuid) (expectedHash : Option ContentHash)
    (retiredPath : Path) (incoming : InFile) (retiredId : Uuid) (now : Instant) :
    Except SarcaError Db :=
  match db.files.find? fun r => r.id = fileId ∧ r.Live ∧ r.contentHash = expectedHash with
  | none => .error .uploadAlreadyInProgress
  | some current =>
    match db.retire current retiredId retiredPath now with
    | .error e => .error e
    | .ok db' => db'.updateById fileId (incomingRow incoming)

/-- The folder a path names: itself, or `path/` when a row that `p` chooses is under it. -/
def folderPrefix (db : Db) (storageId : Uuid) (path : Path) (p : FileRow → Bool) : Path :=
  if isFolderPath path then path
  else if db.files.any fun r => r.storageId = storageId ∧ p r ∧ startsWith r.path (path ++ ['/'])
    then path ++ ['/']
  else []

/-- The rows of a storage at `path`, or under `folder` when there is one. -/
def atOrUnder (storageId : Uuid) (path folder : Path) (p : FileRow → Bool) (r : FileRow) : Bool :=
  r.storageId = storageId ∧ p r ∧ (if folder = [] then r.path = path else startsWith r.path folder)

/-- Recreate the parent's folder marker when nothing live is left under it. -/
def recreateParent (db : Db) (storageId : Uuid) (deletedPath : Path) (markerId : Uuid) :
    Except SarcaError Db :=
  match parentDir deletedPath with
  | none => .ok db
  | some parent =>
    if db.files.any fun r =>
        r.storageId = storageId ∧ r.Live ∧ startsWith r.path (parent ++ ['/']) then
      .ok db
    else
      match db.insertFile (folderMarker (parent ++ ['/']) storageId markerId) with
      | .ok db' => .ok db'
      | .error _ => .error .unknown

/-- Soft-delete the live rows at or under `path` (Rust `delete`), one transaction. -/
def delete (db : Db) (path : Path) (storageId : Uuid) (now : Instant) (markerId : Uuid)
    (order : List Uuid) : Except SarcaError Db :=
  let folder := db.folderPrefix storageId path fun r => r.Live
  let hit := atOrUnder storageId path folder fun r => r.Live
  match db.updateFiles order hit fun r => r.withDeletedAt (some now) with
  | .error _ => .error .unknown
  | .ok db' =>
    if db.idsWhere hit = [] then
      .error (.doesNotExist "file")
    else
      db'.recreateParent storageId (if folder = [] then path else trimEndSlashes folder) markerId

/-- The path a rename gives to a row. `skip` counts bytes, `substr` counts characters. -/
def rewrittenPath (oldPath newPath path : Path) : Path :=
  if isFolderPath oldPath then
    (if isFolderPath newPath then newPath else newPath ++ ['/']) ++ path.drop (byteLen oldPath)
  else
    newPath

def renamed (oldPath : Path) (storageId : Uuid) (liveOnly : Bool) (r : FileRow) : Bool :=
  r.storageId = storageId ∧ (if liveOnly then r.Live else ¬ r.Live) ∧
    (if isFolderPath oldPath then startsWith r.path oldPath else r.path = oldPath)

/-- Rename or move of live rows, or of trashed ones before a restore (Rust `rewrite_paths`). -/
def rewritePaths (db : Db) (oldPath newPath : Path) (storageId : Uuid) (liveOnly : Bool)
    (order : List Uuid) : Except SarcaError Db :=
  match db.updateFiles order (renamed oldPath storageId liveOnly) fun r =>
      r.withPath (rewrittenPath oldPath newPath r.path) with
  | .ok db' => .ok db'
  | .error .uniqueViolation => .error (.alreadyExists "File with such name")
  | .error _ => .error .unknown

/-- The trashed rows at or under a path (Rust `list_trashed_ids`). -/
def listTrashedIds (db : Db) (storageId : Uuid) (path : Path) : List Uuid :=
  let folder := db.folderPrefix storageId path fun r => ¬ r.Live
  db.idsWhere (atOrUnder storageId path folder fun r => ¬ r.Live)

/-- Clear `deleted_at` of the trashed rows at or under `path` whose path is free
    (Rust `restore`). -/
def restore (db : Db) (path : Path) (storageId : Uuid) (order : List Uuid) :
    Except SarcaError Db :=
  let folder := db.folderPrefix storageId path fun r => ¬ r.Live
  let hit := atOrUnder storageId path folder fun r =>
    ¬ r.Live ∧ db.liveAt r.storageId r.path = none
  match db.updateFiles order hit fun r => r.withDeletedAt none with
  | .error .uniqueViolation => .error .trashPathConflict
  | .error _ => .error .unknown
  | .ok db' =>
    if db.idsWhere hit = [] then
      if db.listTrashedIds storageId path ≠ [] then .error .trashPathConflict
      -- idempotent: already fully restored
      else if (db.liveAt storageId path).isSome ∨
          (¬ isFolderPath path ∧ (db.liveAt storageId (path ++ ['/'])).isSome) then .ok db
      else .error (.doesNotExist "file")
    else
      .ok db'

/-- The trashed row at a path that was deleted last; `order` settles ties. -/
def latestTrashed (db : Db) (storageId : Uuid) (path : Path) (order : List Uuid) :
    Option FileRow :=
  let ids := visitOrder order
    (db.idsWhere fun r => r.storageId = storageId ∧ ¬ r.Live ∧ r.path = path)
  (ids.filterMap db.fileById).foldl (fun best r =>
    match best with
    | none => some r
    | some b => if b.deletedAt.getD 0 < r.deletedAt.getD 0 then some r else some b) none

/-- One folder of `ensure_live_parent_folders`: leave it, undelete its marker or insert one. -/
def ensureLiveFolder (db : Db) (folderPath : Path) (storageId : Uuid) (id : Uuid)
    (order : List Uuid) : Except SarcaError Db :=
  if (db.liveAt storageId folderPath).isSome then
    .ok db
  else
    match db.latestTrashed storageId folderPath order with
    | some marker =>
      match db.updateFiles [] (fun r => r.id = marker.id) fun r => r.withDeletedAt none with
      | .ok db' => .ok db'
      | .error .uniqueViolation => .error .trashPathConflict
      | .error _ => .error .unknown
    | none =>
      match db.insertFile (folderMarker folderPath storageId id) with
      | .ok db' => .ok db'
      | .error _ => .error .unknown

/-- The folder paths above `path`, outermost first, each ending with `/`. -/
def parentFolders (path : Path) : List Path :=
  match parentDir (trimEndSlashes path) with
  | none => []
  | some parent =>
    let parts := (parent.splitOn '/').filter (· ≠ [])
    parts.inits.tail.map fun prefixParts => ['/'].intercalate prefixParts ++ ['/']

/-- The folders above a path, one statement after the other: an error leaves the earlier ones done
    (Rust `ensure_live_parent_folders`). -/
def ensureFolders (storageId : Uuid) (order : List Uuid) : List (Path × Uuid) → Db → Db
  | [], db => db
  | (folderPath, id) :: rest, db =>
    match db.ensureLiveFolder folderPath storageId id order with
    | .ok db' => ensureFolders storageId order rest db'
    | .error _ => db

/-- Make the folders above `path` live; `ids` are the ids of the markers it may insert. -/
def ensureLiveParentFolders (db : Db) (path : Path) (storageId : Uuid) (ids : List Uuid)
    (order : List Uuid) : Db :=
  ensureFolders storageId order ((parentFolders path).zip ids) db

/-- `DELETE FROM files WHERE id IN (ids)` (Rust `hard_delete_ids`). -/
def hardDeleteIds (db : Db) (ids order : List Uuid) : Db :=
  db.deleteFiles order ids

lemma createFileRow_ok {db db' : Db} {inObj : InFile} {isUploaded : Bool} {id : Uuid}
    (hok : db.createFileRow inObj isUploaded id = .ok db') :
    db.insertFile (inObj.toRow id isUploaded) = .ok db' := by
  unfold createFileRow at hok
  split at hok
  · case h_1 db₁ hins =>
    cases hok
    exact hins
  · cases hok
  · cases hok

/-! ## What a statement that answers has done -/

lemma updateById_inv {db db' : Db} {id : Uuid} {f : FileRow → FileRow} (hok : db.updateById id f = .ok db') :
    db.updateFiles [] (fun r => r.id = id) f = .ok db' := by
  unfold updateById at hok
  split at hok
  · case h_1 db₁ hupd =>
    cases hok
    exact hupd
  · cases hok

lemma recreateParent_inv {db db' : Db} {storageId markerId : Uuid} {path : Path}
    (hok : db.recreateParent storageId path markerId = .ok db') :
    (db' = db ∧ ∀ parent, parentDir path = some parent → (db.files.any fun r =>
        r.storageId = storageId ∧ r.Live ∧ startsWith r.path (parent ++ ['/'])) = true) ∨
      ∃ parent, parentDir path = some parent ∧
        ¬(db.files.any fun r => r.storageId = storageId ∧ r.Live ∧ startsWith r.path (parent ++ ['/'])) = true ∧
        db.insertFile (folderMarker (parent ++ ['/']) storageId markerId) = .ok db' := by
  unfold recreateParent at hok
  split at hok
  · case h_1 hnone =>
    cases hok
    refine Or.inl ⟨rfl, fun parent hparent => ?_⟩
    rw [hnone] at hparent
    cases hparent
  · case h_2 parent hparent =>
    split at hok
    · case isTrue hany =>
      cases hok
      refine Or.inl ⟨rfl, fun parent' hparent' => ?_⟩
      cases hparent.symm.trans hparent'
      exact hany
    · case isFalse hnone =>
      split at hok
      · case h_1 db₁ hins =>
        cases hok
        exact Or.inr ⟨parent, hparent, hnone, hins⟩
      · cases hok

lemma delete_inv {db db' : Db} {path : Path} {storageId markerId : Uuid} {now : Instant} {order : List Uuid}
    (hok : db.delete path storageId now markerId order = .ok db') :
    ∃ db₁, db.updateFiles order
        (atOrUnder storageId path (db.folderPrefix storageId path fun r => r.Live) fun r => r.Live)
        (fun r => r.withDeletedAt (some now)) = .ok db₁ ∧
      db.idsWhere
        (atOrUnder storageId path (db.folderPrefix storageId path fun r => r.Live) fun r => r.Live) ≠ [] ∧
      db₁.recreateParent storageId (if db.folderPrefix storageId path (fun r => r.Live) = [] then path
        else trimEndSlashes (db.folderPrefix storageId path fun r => r.Live)) markerId = .ok db' := by
  unfold delete at hok
  dsimp only at hok
  split at hok
  · cases hok
  · case h_2 db₁ hupd =>
    split at hok
    · cases hok
    · case isFalse hsome => exact ⟨db₁, hupd, hsome, hok⟩

lemma restore_inv {db db' : Db} {path : Path} {storageId : Uuid} {order : List Uuid}
    (hok : db.restore path storageId order = .ok db') : db' = db ∨
      db.updateFiles order
        (atOrUnder storageId path (db.folderPrefix storageId path fun r => ¬ r.Live) fun r =>
          ¬ r.Live ∧ db.liveAt r.storageId r.path = none)
        (fun r => r.withDeletedAt none) = .ok db' := by
  unfold restore at hok
  dsimp only at hok
  split at hok
  · cases hok
  · cases hok
  · case h_3 db₁ hupd =>
    split at hok
    · split at hok
      · cases hok
      · split at hok
        · cases hok
          exact Or.inl rfl
        · cases hok
    · cases hok
      exact Or.inr hupd

lemma ensureLiveFolder_inv {db db' : Db} {folderPath : Path} {storageId id : Uuid} {order : List Uuid}
    (hok : db.ensureLiveFolder folderPath storageId id order = .ok db') : db' = db ∨
      (∃ marker, db.latestTrashed storageId folderPath order = some marker ∧
        db.updateFiles [] (fun r => r.id = marker.id) (fun r => r.withDeletedAt none) = .ok db') ∨
      db.insertFile (folderMarker folderPath storageId id) = .ok db' := by
  unfold ensureLiveFolder at hok
  split at hok
  · cases hok
    exact Or.inl rfl
  · split at hok
    · case h_1 marker hmarker =>
      split at hok
      · case h_1 db₁ hupd =>
        cases hok
        exact Or.inr (Or.inl ⟨marker, hmarker, hupd⟩)
      · cases hok
      · cases hok
    · split at hok
      · case h_1 db₁ hins =>
        cases hok
        exact Or.inr (Or.inr hins)
      · cases hok

lemma rewritePaths_inv {db db' : Db} {oldPath newPath : Path} {storageId : Uuid} {liveOnly : Bool}
    {order : List Uuid} (hok : db.rewritePaths oldPath newPath storageId liveOnly order = .ok db') :
    db.updateFiles order (renamed oldPath storageId liveOnly)
      (fun r => r.withPath (rewrittenPath oldPath newPath r.path)) = .ok db' := by
  unfold rewritePaths at hok
  split at hok
  · case h_1 db₁ hupd =>
    cases hok
    exact hupd
  · cases hok
  · cases hok

lemma retire_inv {db db' : Db} {current : FileRow} {retiredId : Uuid} {retiredPath : Path} {now : Instant}
    (hok : db.retire current retiredId retiredPath now = .ok db') :
    (¬(current.isUploaded = true ∨ db.HasChunks current.id) ∧ db' = db) ∨
      (current.isUploaded = true ∨ db.HasChunks current.id) ∧
        ∃ db₁, db.insertFile (retiredRow current retiredId retiredPath now) = .ok db₁ ∧
          db' = db₁.moveChunks current.id retiredId := by
  unfold retire at hok
  split at hok
  · case isTrue hany =>
    split at hok
    · case h_1 db₁ hins =>
      cases hok
      exact Or.inr ⟨hany, db₁, hins, rfl⟩
    · cases hok
  · case isFalse hnothing =>
    cases hok
    exact Or.inl ⟨hnothing, rfl⟩

lemma replaceContent_inv {db db' : Db} {fileId retiredId : Uuid} {expectedHash : Option ContentHash}
    {retiredPath : Path} {incoming : InFile} {now : Instant}
    (hok : db.replaceContent fileId expectedHash retiredPath incoming retiredId now = .ok db') :
    ∃ current ∈ db.files, current.id = fileId ∧ current.Live ∧ current.contentHash = expectedHash ∧
      ∃ db₁, db.retire current retiredId retiredPath now = .ok db₁ ∧
        db₁.updateById fileId (incomingRow incoming) = .ok db' := by
  unfold replaceContent at hok
  split at hok
  · cases hok
  · case h_2 current hcurrent =>
    have hchosen := List.find?_some hcurrent
    obtain ⟨hid, hlive, hhash⟩ := of_decide_eq_true hchosen
    split at hok
    · cases hok
    · case h_2 db₁ hret => exact ⟨current, List.mem_of_find?_eq_some hcurrent, hid, hlive, hhash, db₁, hret, hok⟩

end Db

end Sarca.Server
