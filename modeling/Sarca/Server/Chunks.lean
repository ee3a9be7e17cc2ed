import Mathlib.Data.List.Sort
import Sarca.Server.Files

/-!
# Chunks, replicas and channels

The rows behind the bytes of a file: `createChunkWithReplica`, `listStoredChunkPositions` (Rust
`FilesRepository`), `insertBatch` and `enqueueForChannel` (Rust `ChunkReplicasRepository`),
`remainingChunkPlan` and `resolvePrimaryChannel` (Rust `StorageManagerService`), and the edits of a
storage's channels: `addChannel`, `updateChannel`, `removeChannel` (Rust `StoragesService`),
`channelDied` (Rust `ChannelHealthService`) and `replicate` (Rust `services/replication.rs`).

`maxVariables` is the number of parameters `SQLite` lets one statement bind; `insert_batch` and
`enqueue_for_channel` bind six for each replica and fail beyond it. A fresh id is the number `next`,
the first that no `Uuid::new_v4` gave out before.
-/

namespace Sarca.Server

/-- The content of a file or of a Telegram document. -/
abbrev Bytes := List UInt8

/-- A chunk still to send: position, offset and length. -/
abbrev ChunkSlice := Nat × Nat × Nat

/-- `total.div_ceil(chunk_size)` -/
def chunkCount (total chunkSize : Nat) : Nat :=
  (total + chunkSize - 1) / chunkSize

/-- The chunks that are not stored yet, and the bytes the stored ones account for
    (Rust `remaining_chunk_plan`). -/
def remainingChunkPlan (total chunkSize : Nat) (storedPositions : List Nat) :
    List ChunkSlice × Nat :=
  let chunkSize := max chunkSize 1
  let slices := (List.range (chunkCount total chunkSize)).map fun position =>
    (position, position * chunkSize, min chunkSize (total - position * chunkSize))
  let slices := slices.filter fun slice => ¬ (total ≤ slice.2.1 ∨ slice.2.2 = 0)
  (slices.filter fun slice => slice.1 ∉ storedPositions,
    (slices.filter fun slice => slice.1 ∈ storedPositions).foldl (fun n slice => n + slice.2.2) 0)

/-- `i16::try_from(position).unwrap_or(i16::MAX)` -/
def toPosition (position : Nat) : Int :=
  min position 32767

/-- `StorageChannel::is_active` -/
def StorageChannel.isActive (c : StorageChannel) : Bool :=
  c.status = .active

/-- `ChunkReplica::new_uploaded` -/
def ChunkReplica.newUploaded (id chunkId channelId : Uuid) (telegramFileId : String)
    (telegramMessageId : Int) : ChunkReplica where
  id := id
  chunkId := chunkId
  channelId := channelId
  telegramFileId := some telegramFileId
  telegramMessageId := some telegramMessageId
  status := .uploaded

/-- `ChunkReplica::new_pending` -/
def ChunkReplica.newPending (id chunkId channelId : Uuid) : ChunkReplica where
  id := id
  chunkId := chunkId
  channelId := channelId
  telegramFileId := none
  telegramMessageId := none
  status := .pending

/-- The replica holds bytes that somebody can read. -/
def ChunkReplica.Readable (r : ChunkReplica) : Prop :=
  r.status = .uploaded ∧ r.telegramFileId.isSome

instance (r : ChunkReplica) : Decidable r.Readable :=
  inferInstanceAs (Decidable (_ ∧ _))

/-- New pending replicas of chunks on channels, with ids from `next` on. -/
def newPendings (next : Uuid) : List (Uuid × Uuid) → List ChunkReplica
  | [] => []
  | (chunkId, channelId) :: rest => .newPending next chunkId channelId :: newPendings (next + 1) rest

/-- `ChannelHealthService::next_active_position`: cycling forward from `current`. -/
def nextActivePosition (channels : List StorageChannel) (current : Int) : Option Int :=
  let active := ((channels.filter fun c => c.isActive).map (·.position)).insertionSort (· ≤ ·)
  if current ∈ active then active[(active.idxOf current + 1) % active.length]? else active.head?

namespace Db

/-- The chunk rows of a file, in position order. -/
def chunksOf (db : Db) (fileId : Uuid) : List FileChunk :=
  (db.chunks.filter fun c => c.fileId = fileId).insertionSort fun c c' => c.position ≤ c'.position

/-- The chunk has a replica that reached Telegram. -/
def StoredChunk (db : Db) (c : FileChunk) : Prop :=
  ∃ r ∈ db.replicas, r.chunkId = c.id ∧ r.Readable

instance (db : Db) (c : FileChunk) : Decidable (db.StoredChunk c) :=
  inferInstanceAs (Decidable (∃ r ∈ db.replicas, _))

/-- The stored positions of a file with their chunk ids (Rust `list_stored_chunk_positions`). -/
def listStoredChunkPositions (db : Db) (fileId : Uuid) : List (Int × Uuid) :=
  ((db.chunksOf fileId).filter fun c => db.StoredChunk c).map fun c => (c.position, c.id)

def channelById (db : Db) (id : Uuid) : Option StorageChannel :=
  db.channels.find? fun c => c.id = id

/-- The two inserts of one stored chunk, in one transaction (Rust `create_chunk_with_replica`). -/
def createChunkWithReplica (db : Db) (chunk : FileChunk) (replica : ChunkReplica) :
    Except SarcaError Db :=
  if ∃ c ∈ db.chunks, c.id = chunk.id ∨ c.fileId = chunk.fileId ∧ c.position = chunk.position then
    .error .unknown
  else if (db.fileById chunk.fileId).isNone ∨ (db.channelById replica.channelId).isNone then
    .error .unknown
  else if ∃ r ∈ db.replicas,
      r.id = replica.id ∨ r.chunkId = replica.chunkId ∧ r.channelId = replica.channelId then
    .error .unknown
  else
    .ok { db with chunks := db.chunks ++ [chunk], replicas := db.replicas ++ [replica] }

/-- One row of an `INSERT OR IGNORE`: the unique index on chunk and channel lets it pass over, a
    missing chunk or channel fails the statement. -/
def insertReplica (db : Db) (replica : ChunkReplica) : Except SarcaError Db :=
  if ∃ r ∈ db.replicas,
      r.id = replica.id ∨ r.chunkId = replica.chunkId ∧ r.channelId = replica.channelId then
    .ok db
  else if (∀ c ∈ db.chunks, c.id ≠ replica.chunkId) ∨ (db.channelById replica.channelId).isNone then
    .error .unknown
  else
    .ok { db with replicas := db.replicas ++ [replica] }

/-- The rows of an `INSERT OR IGNORE`. -/
def insertReplicas (db : Db) : List ChunkReplica → Except SarcaError Db
  | [] => .ok db
  | replica :: replicas =>
    match db.insertReplica replica with
    | .ok db' => db'.insertReplicas replicas
    | .error e => .error e

/-- Insert replicas and leave those that exist (Rust `insert_batch`). -/
def insertBatch (db : Db) (maxVariables : Nat) (replicas : List ChunkReplica) :
    Except SarcaError Db :=
  if replicas = [] then .ok db
  else if maxVariables < 6 * replicas.length then .error .unknown
  else db.insertReplicas replicas

/-- The channels of a storage by position (Rust `list_by_storage`). -/
def listByStorage (db : Db) (storageId : Uuid) : List StorageChannel :=
  (db.channels.filter fun c => c.storageId = storageId).insertionSort
    fun c c' => c.position ≤ c'.position

def activeChannels (db : Db) (storageId : Uuid) : List StorageChannel :=
  (db.listByStorage storageId).filter fun c => c.isActive

/-- `UPDATE storages SET primary_position = $2 WHERE id = $1` -/
def setPrimaryPosition (db : Db) (storageId : Uuid) (position : Int) : Db :=
  { db with storages := db.storages.map fun s =>
      if s.id = storageId then { s with primaryPosition := position } else s }

/-- The channel to upload to first, and the database with a rotation persisted
    (Rust `resolve_primary_channel`). -/
def resolvePrimaryChannel (db : Db) (storage : Storage) :
    Except SarcaError (StorageChannel × List StorageChannel × Db) :=
  let active := db.activeChannels storage.id
  match (active.find? fun c => c.position = storage.primaryPosition).or active.head? with
  | none => .error .noActiveChannel
  | some primary =>
    .ok (primary, active,
      if primary.position ≠ storage.primaryPosition then
        db.setPrimaryPosition storage.id primary.position
      else db)

/-- Ask for a copy of every chunk of the storage on a channel; a failure is only logged
    (Rust `enqueue_for_channel`). -/
def enqueueForChannel (db : Db) (maxVariables : Nat) (next : Uuid) (storageId channelId : Uuid) :
    Db × Uuid :=
  let chunks := db.chunks.filter fun c =>
    db.files.any fun f => f.id = c.fileId ∧ f.storageId = storageId
  let replicas := newPendings next (chunks.map fun c => (c.id, channelId))
  match db.insertBatch maxVariables replicas with
  | .ok db' => (db', next + replicas.length)
  | .error _ => (db, next + replicas.length)

/-- Bind a chat to a free slot of the storage (Rust `add_channel`). -/
def addChannel (db : Db) (maxVariables : Nat) (next : Uuid) (storageId : Uuid) (chatId : Int) :
    Db × Uuid :=
  let channels := db.listByStorage storageId
  match [1, 2, 3].find? fun p => ∀ c ∈ channels, c.position ≠ p with
  | none => (db, next)
  | some position =>
    if (∃ c ∈ db.channels, c.chatId = chatId) ∨ ¬ db.HasStorage storageId then (db, next)
    else
      let channel := StorageChannel.mk next storageId position chatId .active
      let db' := { db with channels := db.channels ++ [channel] }
      db'.enqueueForChannel maxVariables (next + 1) storageId channel.id

def updateChannelRow (db : Db) (id : Uuid) (f : StorageChannel → StorageChannel) : Db :=
  { db with channels := db.channels.map fun c => if c.id = id then f c else c }

/-- Point a slot at another chat (Rust `update_channel` with a `chat_id`, `update_chat`). -/
def updateChannel (db : Db) (maxVariables : Nat) (next : Uuid) (storageId channelId : Uuid)
    (chatId : Int) : Db × Uuid :=
  match db.channelById channelId with
  | none => (db, next)
  | some channel =>
    if channel.storageId ≠ storageId ∨ ∃ c ∈ db.channels, c.id ≠ channelId ∧ c.chatId = chatId then
      (db, next)
    else
      let db' := db.updateChannelRow channelId fun c =>
        { c with chatId := chatId, status := .active }
      db'.enqueueForChannel maxVariables next storageId channelId

/-- `DELETE FROM storage_channels WHERE id = $1`, with the cascade into replicas. -/
def deleteChannel (db : Db) (channelId : Uuid) : Db :=
  { db with
    channels := db.channels.filter fun c => c.id ≠ channelId
    replicas := db.replicas.filter fun r => r.channelId ≠ channelId }

def rotateFrom (db : Db) (channel : StorageChannel) : Db :=
  match db.storages.find? fun s => s.id = channel.storageId with
  | none => db
  | some storage =>
    if storage.primaryPosition ≠ channel.position then db
    else
      match nextActivePosition (db.listByStorage storage.id) channel.position with
      | none => db
      | some next => db.setPrimaryPosition storage.id next

/-- Free a slot unless it is the last active one (Rust `remove_channel`). -/
def removeChannel (db : Db) (storageId channelId : Uuid) : Db :=
  match db.channelById channelId with
  | none => db
  | some channel =>
    if channel.storageId ≠ storageId then db
    else if channel.isActive ∧ (db.activeChannels storageId).length ≤ 1 then db
    else (db.rotateFrom channel).deleteChannel channelId

/-- The health check found a channel dead (Rust `ChannelHealthService::run_once`, `mark_dead`). -/
def channelDied (db : Db) (channelId : Uuid) : Db :=
  match db.channelById channelId with
  | none => db
  | some channel =>
    (db.updateChannelRow channelId fun c => { c with status := .dead }).rotateFrom channel

def updateReplica (db : Db) (id : Uuid) (f : ChunkReplica → ChunkReplica) : Db :=
  { db with replicas := db.replicas.map fun r => if r.id = id then f r else r }

/-- A readable replica of a chunk on another active channel (Rust `find_source_for_chunk`). -/
def IsSource (db : Db) (job source : ChunkReplica) : Prop :=
  source ∈ db.replicas ∧ source.chunkId = job.chunkId ∧ source.channelId ≠ job.channelId ∧
    source.status = .uploaded ∧ ∃ c ∈ db.channels, c.id = source.channelId ∧ c.isActive

instance (db : Db) (job source : ChunkReplica) : Decidable (db.IsSource job source) :=
  inferInstanceAs (Decidable (_ ∧ _))

/-- The replica is a job of the replicator (Rust `list_pending`). -/
def IsJob (db : Db) (job : ChunkReplica) : Prop :=
  job ∈ db.replicas ∧ job.status ≠ .uploaded ∧ ∃ c ∈ db.channels, c.id = job.channelId ∧ c.isActive

instance (db : Db) (job : ChunkReplica) : Decidable (db.IsJob job) :=
  inferInstanceAs (Decidable (_ ∧ _))

lemma mem_activeChannels_iff {db : Db} {storageId : Uuid} {ch : StorageChannel} :
    ch ∈ db.activeChannels storageId ↔
      ch ∈ db.channels ∧ ch.storageId = storageId ∧ ch.isActive = true := by
  rw [activeChannels, listByStorage, List.mem_filter, List.mem_insertionSort, List.mem_filter,
    and_assoc, decide_eq_true_iff]

end Db

lemma mem_chunksOf {db : Db} {fileId : Uuid} {c : FileChunk} :
    c ∈ db.chunksOf fileId ↔ c ∈ db.chunks ∧ c.fileId = fileId := by
  rw [Db.chunksOf, List.mem_insertionSort, List.mem_filter, decide_eq_true_iff]

/-! ## The plan -/

lemma offset_lt {total chunkSize position : Nat} (hsize : 0 < chunkSize)
    (h : position < chunkCount total chunkSize) : position * chunkSize < total := by
  unfold chunkCount at h
  have hle := (Nat.le_div_iff_mul_le hsize).mp (Nat.succ_le_of_lt h)
  rw [Nat.succ_mul] at hle
  omega

lemma plan_positions {total chunkSize : Nat} (hsize : 0 < chunkSize) (stored : List Nat) :
    (remainingChunkPlan total chunkSize stored).1.map (·.1) =
      (List.range (chunkCount total chunkSize)).filter (· ∉ stored) := by
  have hmax : max chunkSize 1 = chunkSize := Nat.max_eq_left hsize
  unfold remainingChunkPlan
  dsimp only
  rw [hmax, List.filter_map, List.filter_map, List.map_map]
  have hall : (List.range (chunkCount total chunkSize)).filter
      ((fun slice : ChunkSlice => decide (¬ (total ≤ slice.2.1 ∨ slice.2.2 = 0))) ∘
        fun position => (position, position * chunkSize,
          min chunkSize (total - position * chunkSize))) =
      List.range (chunkCount total chunkSize) := by
    rw [List.filter_eq_self]
    intro position hposition
    have hlt := offset_lt hsize (List.mem_range.mp hposition)
    simp only [Function.comp_apply, decide_eq_true_eq]
    omega
  rw [hall]
  exact List.map_id _

lemma mem_plan {total chunkSize : Nat} (hsize : 0 < chunkSize) {stored : List Nat}
    {position offset len : Nat}
    (h : (position, offset, len) ∈ (remainingChunkPlan total chunkSize stored).1) :
    offset = position * chunkSize ∧ len = min chunkSize (total - position * chunkSize) := by
  have hmax : max chunkSize 1 = chunkSize := Nat.max_eq_left hsize
  unfold remainingChunkPlan at h
  dsimp only at h
  rw [hmax] at h
  obtain ⟨position', -, heq⟩ := List.mem_map.mp (List.mem_of_mem_filter (List.mem_of_mem_filter h))
  simp only [Prod.mk.injEq] at heq
  obtain ⟨rfl, rfl, rfl⟩ := heq
  exact ⟨rfl, rfl⟩

end Sarca.Server
