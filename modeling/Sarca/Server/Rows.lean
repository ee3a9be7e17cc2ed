import Mathlib.Data.List.Basic

/-!
# Rows of the server database

The tables of `startup.rs` that the upload, trash and sync code reads and writes: `FileRow` (Rust
`models::files::File`), `FileChunk`, `ChunkReplica`, `StorageChannel`, `Storage`, `StorageWorker` and
`SyncEvent` (Rust `FileSyncEvent`), and `Db`, the database that holds them. A table is the list of its
rows. `Db.Wf` collects what the schema promises: `id` is a primary key, the partial unique index
`files_path_storage_id_alive_uidx` keeps one live row for a path, a file's storage exists, and the
`AUTOINCREMENT` ids of the events grow.

Paths are lists of code points, as `SQLite` counts them in `substr`.
-/

namespace Sarca.Server

/-- A `uuid::Uuid`, compared and never taken apart. -/
abbrev Uuid := Nat

/-- A `TEXT` path as its code points. -/
abbrev Path := List Char

/-- `BINARY` order of `TEXT`: by UTF-8 bytes, which is by code points. -/
def pathLt (p q : Path) : Bool :=
  p.lex q fun a b => a < b

/-- A client-provided content hash, `sha256:…`. -/
abbrev ContentHash := String

abbrev Instant := Int

/-- A row of `files` (Rust `models::files::File`). -/
structure FileRow where
  id : Uuid
  path : Path
  size : Int
  storageId : Uuid
  isUploaded : Bool
  thumbTelegramFileId : Option String
  thumbTelegramMessageId : Option Int
  previewTelegramFileId : Option String
  previewTelegramMessageId : Option Int
  chunkSizeBytes : Option Int
  deletedAt : Option Instant
  sourceCreatedAt : Option Instant
  sourceMtime : Option Instant
  contentHash : Option ContentHash
deriving DecidableEq, Repr

/-- What an upload says about its file (Rust `InFile`). -/
structure InFile where
  path : Path
  size : Int
  storageId : Uuid
  chunkSizeBytes : Option Int
  sourceCreatedAt : Option Instant
  sourceMtime : Option Instant
  contentHash : Option ContentHash
deriving DecidableEq, Repr

/-- A row of `file_chunks` (Rust `FileChunk`); `position` is an `i16`. -/
structure FileChunk where
  id : Uuid
  fileId : Uuid
  position : Int
deriving DecidableEq, Repr

/-- The `status` texts of a replica (Rust `REPLICA_STATUS_*`). -/
inductive ReplicaStatus where
  | pending
  | uploaded
  | failed
deriving DecidableEq, Repr

/-- A row of `chunk_replicas` (Rust `ChunkReplica`). -/
structure ChunkReplica where
  id : Uuid
  chunkId : Uuid
  channelId : Uuid
  telegramFileId : Option String
  telegramMessageId : Option Int
  status : ReplicaStatus
deriving DecidableEq, Repr

/-- The `status` texts of a channel (Rust `CHANNEL_STATUS_*`). -/
inductive ChannelStatus where
  | active
  | dead
deriving DecidableEq, Repr

/-- A row of `storage_channels` (Rust `StorageChannel`). -/
structure StorageChannel where
  id : Uuid
  storageId : Uuid
  position : Int
  chatId : Int
  status : ChannelStatus
deriving DecidableEq, Repr

/-- A row of `storages` (Rust `Storage`). -/
structure Storage where
  id : Uuid
  primaryPosition : Int
deriving DecidableEq, Repr

/-- A row of `storage_workers`: the bot of a storage (Rust `StorageWorker`). -/
structure StorageWorker where
  id : Uuid
  storageId : Option Uuid
deriving DecidableEq, Repr

/-- The `op` texts of a sync event. -/
inductive EventOp where
  | upsert
  | delete
deriving DecidableEq, Repr

/-- The columns a trigger writes into `file_sync_events`. -/
structure EventData where
  storageId : Uuid
  fileId : Uuid
  path : Path
  op : EventOp
  size : Int
  isFile : Bool
  contentHash : Option ContentHash
  sourceMtime : Option Instant
deriving DecidableEq, Repr

/-- A row of `file_sync_events` (Rust `FileSyncEvent`). -/
structure SyncEvent extends EventData where
  id : Nat
deriving DecidableEq, Repr

/-- The database; `eventSeq` is the last id `AUTOINCREMENT` handed out. -/
structure Db where
  storages : List Storage
  workers : List StorageWorker
  channels : List StorageChannel
  files : List FileRow
  chunks : List FileChunk
  replicas : List ChunkReplica
  events : List SyncEvent
  eventSeq : Nat
deriving DecidableEq, Repr

inductive DbError where
  | uniqueViolation
  | foreignKeyViolation
deriving DecidableEq, Repr

/-- `substr(path, -1, 1) = '/'`: the path of a folder marker. -/
def isFolderPath (path : Path) : Bool :=
  path.getLast? == some '/'

def FileRow.Live (r : FileRow) : Prop :=
  r.deletedAt = none

/-- The row is uploaded or a folder marker, which is what the sync triggers and the snapshot ask. -/
def FileRow.Listed (r : FileRow) : Prop :=
  r.isUploaded = true ∨ isFolderPath r.path = true

instance (r : FileRow) : Decidable r.Live := inferInstanceAs (Decidable (_ = _))

instance (r : FileRow) : Decidable r.Listed := inferInstanceAs (Decidable (_ ∨ _))

def FileRow.withPath (r : FileRow) (path : Path) : FileRow :=
  { r with path := path }

/-- The row moved to the trash at an instant, or out of it. -/
def FileRow.withDeletedAt (r : FileRow) (deletedAt : Option Instant) : FileRow :=
  { r with deletedAt := deletedAt }

@[simp] lemma FileRow.withPath_path (r : FileRow) (path : Path) :
    (r.withPath path).path = path := rfl

@[simp] lemma FileRow.withPath_live (r : FileRow) (path : Path) :
    (r.withPath path).Live ↔ r.Live := Iff.rfl

/-- The live row of an upload, without derived pictures. -/
def InFile.toRow (f : InFile) (id : Uuid) (isUploaded : Bool) : FileRow where
  id := id
  path := f.path
  size := f.size
  storageId := f.storageId
  isUploaded := isUploaded
  thumbTelegramFileId := none
  thumbTelegramMessageId := none
  previewTelegramFileId := none
  previewTelegramMessageId := none
  chunkSizeBytes := f.chunkSizeBytes
  deletedAt := none
  sourceCreatedAt := f.sourceCreatedAt
  sourceMtime := f.sourceMtime
  contentHash := f.contentHash

/-- A file of which only path, size and storage are known (Rust `InFile::new`). -/
def InFile.new (path : Path) (size : Int) (storageId : Uuid) : InFile where
  path := path
  size := size
  storageId := storageId
  chunkSizeBytes := none
  sourceCreatedAt := none
  sourceMtime := none
  contentHash := none

def Db.fresh (storages : List Storage) : Db where
  storages := storages
  workers := []
  channels := []
  files := []
  chunks := []
  replicas := []
  events := []
  eventSeq := 0

namespace Db

/-- The row with an id (Rust `get_by_id`). -/
def fileById (db : Db) (id : Uuid) : Option FileRow :=
  db.files.find? fun r => r.id = id

/-- The live row at a path (Rust `get_file_by_path`). -/
def liveAt (db : Db) (storageId : Uuid) (path : Path) : Option FileRow :=
  db.files.find? fun r => r.storageId = storageId ∧ r.path = path ∧ r.Live

def HasStorage (db : Db) (storageId : Uuid) : Prop :=
  ∃ s ∈ db.storages, s.id = storageId

instance (db : Db) (storageId : Uuid) : Decidable (db.HasStorage storageId) :=
  inferInstanceAs (Decidable (∃ s ∈ db.storages, s.id = storageId))

def eventsOf (db : Db) (storageId : Uuid) : List SyncEvent :=
  db.events.filter fun e => e.storageId = storageId

structure Wf (db : Db) : Prop where
  /-- `id` is the primary key of `files`. -/
  idUnique : ∀ r ∈ db.files, ∀ r' ∈ db.files, r.id = r'.id → r = r'
  /-- `files_path_storage_id_alive_uidx` -/
  aliveUnique : ∀ r ∈ db.files, ∀ r' ∈ db.files,
    r.Live → r'.Live → r.storageId = r'.storageId → r.path = r'.path → r = r'
  /-- `storage_id REFERENCES storages(id)` -/
  storageExists : ∀ r ∈ db.files, db.HasStorage r.storageId
  /-- `id INTEGER PRIMARY KEY AUTOINCREMENT` -/
  eventsGrow : db.events.Pairwise (·.id < ·.id)
  eventsSeen : ∀ e ∈ db.events, 0 < e.id ∧ e.id ≤ db.eventSeq

lemma fresh_wf (storages : List Storage) : (Db.fresh storages).Wf where
  idUnique := fun _ hr => absurd hr List.not_mem_nil
  aliveUnique := fun _ hr => absurd hr List.not_mem_nil
  storageExists := fun _ hr => absurd hr List.not_mem_nil
  eventsGrow := List.Pairwise.nil
  eventsSeen := fun _ he => absurd he List.not_mem_nil

lemma fileById_some {db : Db} {id : Uuid} {r : FileRow} (h : db.fileById id = some r) :
    r ∈ db.files ∧ r.id = id :=
  ⟨List.mem_of_find?_eq_some h, by simpa using List.find?_some h⟩

lemma fileById_of_mem {db : Db} (hwf : db.Wf) {r : FileRow} (hr : r ∈ db.files) :
    db.fileById r.id = some r := by
  cases h : db.fileById r.id with
  | none => exact absurd (List.find?_eq_none.mp h r hr) (by simp)
  | some r' =>
    obtain ⟨hr', hid⟩ := fileById_some h
    rw [hwf.idUnique r' hr' r hr hid]

lemma liveAt_some {db : Db} {s : Uuid} {p : Path} {r : FileRow} (h : db.liveAt s p = some r) :
    r ∈ db.files ∧ r.storageId = s ∧ r.path = p ∧ r.Live :=
  ⟨List.mem_of_find?_eq_some h, by simpa using List.find?_some h⟩

lemma liveAt_none {db : Db} {s : Uuid} {p : Path} :
    db.liveAt s p = none ↔ ∀ r ∈ db.files, r.storageId = s → r.Live → r.path ≠ p := by
  simp only [liveAt, List.find?_eq_none, decide_eq_true_eq, not_and]
  constructor
  · intro h r hr hs hl hp
    exact h r hr hs hp hl
  · intro h r hr hs hp hl
    exact h r hr hs hl hp

lemma liveAt_of_mem {db : Db} (hwf : db.Wf) {r : FileRow} (hr : r ∈ db.files) (hl : r.Live) :
    db.liveAt r.storageId r.path = some r := by
  cases h : db.liveAt r.storageId r.path with
  | none => exact absurd rfl (liveAt_none.mp h r hr rfl hl)
  | some r' =>
    obtain ⟨hr', hs, hp, hl'⟩ := liveAt_some h
    rw [hwf.aliveUnique r' hr' r hr hl' hl hs hp]

end Db

end Sarca.Server
