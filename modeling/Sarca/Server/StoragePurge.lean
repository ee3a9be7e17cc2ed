import Mathlib.Data.List.Sort
import Sarca.Lib.Calendar
import Sarca.Server.Services

/-!
# Deleting a storage

`StoragesService::delete` lists the Telegram messages of a storage, and in a transaction behind it queues
a purge job that names them and deletes the storage's rows; `StoragePurgeService::run_once` works the job
off. `Site` is a server with the deletions and the pictures under way, the two purge tables and what the
purger holds; `Site.step` is one statement or transaction of one of them, or a step of anything else
(`Process.step`, a `Statement` of a file service, a new storage).

The list is read in three statements before the transaction: `Site.delete_iff` says exactly when a
deletion leaks nothing although others commit rows meanwhile. The chat of a picture is not stored, and
`list_derived_messages_for_storage` tries every channel: `Site.purges_recorded` says what the rows of a job
may name, in any run.

A `storage_purge_jobs` row keeps the token of a bot, which is told here by the bot itself.
-/

namespace Sarca.Server
open Sarca.Lib

/-! ## Tables -/

/-- A row of `storage_purge_jobs`. -/
structure PurgeJob where
  id : Uuid
  storageId : Uuid
  bot : StorageWorker
  completed : Bool
deriving DecidableEq, Repr

/-- The `status` texts of a purge message. -/
inductive PurgeStatus where
  | pending
  | inProgress
  | done
  | failed
deriving DecidableEq, Repr

/-- A row of `storage_purge_messages`. -/
structure PurgeMessage where
  id : Nat
  jobId : Uuid
  chatId : Int
  messageId : Int
  status : PurgeStatus
  attempts : Nat
  updatedAt : Instant
deriving DecidableEq, Repr

def PurgeMessage.target (m : PurgeMessage) : Int × Int :=
  (m.chatId, m.messageId)

/-- The test of `requeue_stale_in_progress`: `updated_at` is a text of SQLite and the bound is one of
    chrono, and they compare as texts. -/
def PurgeMessage.Stale (m : PurgeMessage) (cutoff : Nat) : Prop :=
  m.status = .inProgress ∧ datetimeText (m.updatedAt.toNat * second) < rfc3339Text cutoff

instance PurgeMessage.Stale.decidable (m : PurgeMessage) (cutoff : Nat) : Decidable (m.Stale cutoff) :=
  inferInstanceAs (Decidable (_ ∧ _))

namespace Db

/-- Rust `list_telegram_messages_for_storage`. -/
def listTelegramMessagesForStorage (db : Db) (storageId : Uuid) : List (Int × Int) :=
  (db.replicas.flatMap fun r =>
    if ∃ c ∈ db.chunks, c.id = r.chunkId then
      (db.channels.filter fun c => c.id = r.channelId ∧ c.storageId = storageId).flatMap fun c =>
        r.telegramMessageId.toList.map fun messageId => (c.chatId, messageId)
    else []).dedup

/-- Rust `list_derived_messages_for_storage`: each picture in each chat of the storage. -/
def listDerivedMessagesForStorage (db : Db) (storageId : Uuid) : List (Int × Int) :=
  (db.files.filter fun f => f.storageId = storageId).flatMap fun f =>
    (db.channels.filter fun c => c.storageId = storageId).flatMap fun c =>
      (f.thumbTelegramMessageId.toList ++ f.previewTelegramMessageId.toList).map
        fun messageId => (c.chatId, messageId)

/-- Rust `get_by_storage_id`. -/
def botOf (db : Db) (storageId : Uuid) : Option StorageWorker :=
  db.workers.find? fun w => w.storageId = some storageId

/-- Rust `delete_storage_in_tx`, with the cascades of the schema. -/
def deleteStorageInTx (db : Db) (storageId : Uuid) (order : List Uuid) : Db :=
  let db := { db with workers := db.workers.filter fun w => w.storageId ≠ some storageId }
  let db := db.deleteFiles order (db.idsWhere fun r => r.storageId = storageId)
  { db with
    storages := db.storages.filter fun s => s.id ≠ storageId
    channels := db.channels.filter fun c => c.storageId ≠ storageId
    replicas := db.replicas.filter fun r =>
      ∀ c ∈ db.channels, c.storageId = storageId → c.id ≠ r.channelId
    events := db.events.filter fun e => e.storageId ≠ storageId }

def newChannels (storageId : Uuid) : Uuid → Int → List Int → List StorageChannel
  | _, _, [] => []
  | id, position, chatId :: chatIds =>
    ⟨id, storageId, position, chatId, .active⟩ :: newChannels storageId (id + 1) (position + 1) chatIds

/-- Rust `StoragesService::create`; one that fails on a channel is rolled back. -/
def createStorage (db : Db) (next : Uuid) (chatIds : List Int) : Db × Uuid :=
  if chatIds = [] ∨ 3 < chatIds.length ∨ ¬chatIds.Nodup ∨
      ∃ chatId ∈ chatIds, ∃ c ∈ db.channels, c.chatId = chatId then
    (db, next + 1)
  else
    ({ db with
        storages := db.storages ++ [⟨next, 1⟩]
        channels := db.channels ++ newChannels next (next + 1) 1 chatIds },
      next + 1 + chatIds.length)

end Db

/-- Rust `snapshot_storage_telegram_purge`: both lists, sorted and without repetitions. -/
def snapshotMessages (messages derived : List (Int × Int)) : List (Int × Int) :=
  ((messages ++ derived).insertionSort fun m m' => m.1 < m'.1 ∨ m.1 = m'.1 ∧ m.2 ≤ m'.2).dedup

/-- The rows of one `INSERT INTO storage_purge_messages`. -/
def newPurgeMessages (jobId : Uuid) (now : Instant) : Nat → List (Int × Int) → List PurgeMessage
  | _, [] => []
  | id, (chatId, messageId) :: rest =>
    ⟨id, jobId, chatId, messageId, .pending, 0, now⟩ :: newPurgeMessages jobId now (id + 1) rest

/-! ## Calls under way -/

inductive PictureKind where
  | thumb
  | preview
deriving DecidableEq, Repr

/-- A picture on its way to the chat that was the primary one when its task chose it. -/
structure Picture where
  fileId : Uuid
  kind : PictureKind
  storageId : Uuid
  chatId : Int
deriving DecidableEq, Repr

/-- Where a deletion stands, with what it read. -/
inductive DeletionPhase where
  | listing
  | listed (messages : List (Int × Int))
  | fetching (messages : List (Int × Int))
  | committing (snapshot : Option (StorageWorker × List (Int × Int)))
  | answered (result : Except SarcaError Unit)

/-- A call to `StoragesService::delete`, behind its access check. -/
structure Deletion where
  number : Nat
  storageId : Uuid
  phase : DeletionPhase

/-- A server, the purge tables, and what is under way besides the uploads. `batch` is what the purger
    claimed and has not worked off. `pictured` and `erased` are what happened in Telegram: the pictures
    that were put into a chat for a storage, and the messages a job had deleted. -/
structure Site where
  process : Process
  pictures : List Picture
  deletions : List Deletion
  jobs : List PurgeJob
  messages : List PurgeMessage
  batch : List PurgeMessage
  nextJob : Uuid
  nextMessage : Nat
  pictured : List (Uuid × Int × Int)
  erased : List (Uuid × Int × Int)

/-- What Telegram made of `deleteMessage` (Rust `delete_message_with_token`). -/
inductive EraseAnswer where
  | erased
  /-- `is_soft_delete_error` -/
  | notThere
  | refused
deriving DecidableEq, Repr

inductive PurgeAct where
  | requeueStale (now : Instant)
  | claim (now : Instant)
  | answer (a : EraseAnswer) (now : Instant)
  | complete

inductive SiteStep where
  | serve (s : Step)
  | rows (s : Statement)
  | createStorage (chatIds : List Int)
  /-- a picture's task resolves the primary channel of its file -/
  | picture (fileId : Uuid) (kind : PictureKind)
  | pictureSent (p : Picture) (telegramFileId : String) (messageId : Int)
  | pictureLost (p : Picture)
  | delete (number : Nat) (storageId : Uuid)
  /-- the next statement of a deletion, or its transaction -/
  | deletion (number : Nat) (now : Instant) (order : List Uuid)
  | purge (a : PurgeAct)

namespace Site

def db (σ : Site) : Db :=
  σ.process.db

def setDb (σ : Site) (db : Db) : Site :=
  { σ with process := { σ.process with db := db } }

def deletion? (σ : Site) (number : Nat) : Option Deletion :=
  σ.deletions.find? fun d => d.number = number

/-- The deletion with a number goes on to a phase. -/
def advance (σ : Site) (number : Nat) (phase : DeletionPhase) : Site :=
  { σ with deletions := σ.deletions.map fun d =>
      if d.number = number then { d with phase := phase } else d }

/-- Rust `enqueue_in_tx`: a statement that binds three values for each message. -/
def enqueueInTx (σ : Site) (storageId : Uuid) (bot : StorageWorker) (messages : List (Int × Int))
    (now : Instant) : Except SarcaError Site :=
  if σ.process.maxVariables < 3 * messages.length then .error .unknown
  else
    .ok { σ with
      jobs := σ.jobs ++ [⟨σ.nextJob, storageId, bot, false⟩]
      messages := σ.messages ++ newPurgeMessages σ.nextJob now σ.nextMessage messages
      nextJob := σ.nextJob + 1
      nextMessage := σ.nextMessage + messages.length }

/-- Rust `enqueue_storage_telegram_purge_in_tx`. -/
def enqueueSnapshot (σ : Site) (storageId : Uuid)
    (snapshot : Option (StorageWorker × List (Int × Int))) (now : Instant) : Except SarcaError Site :=
  match snapshot with
  | none => .ok σ
  | some (bot, messages) => σ.enqueueInTx storageId bot messages now

/-- The transaction of a deletion; a failure rolls it back. -/
def commitDeletion (σ : Site) (number : Nat) (storageId : Uuid)
    (snapshot : Option (StorageWorker × List (Int × Int))) (now : Instant) (order : List Uuid) : Site :=
  match σ.enqueueSnapshot storageId snapshot now with
  | .error e => σ.advance number (.answered (.error e))
  | .ok τ => (τ.setDb (τ.db.deleteStorageInTx storageId order)).advance number (.answered (.ok ()))

/-- The next statement of a deletion, or its transaction. -/
def takeDeletion (σ : Site) (number : Nat) (now : Instant) (order : List Uuid) : Site :=
  match σ.deletion? number with
  | none => σ
  | some d =>
    match d.phase with
    | .listing => σ.advance number (.listed (σ.db.listTelegramMessagesForStorage d.storageId))
    | .listed messages =>
      σ.advance number
        (.fetching (snapshotMessages messages (σ.db.listDerivedMessagesForStorage d.storageId)))
    | .fetching messages =>
      σ.advance number (.committing
        (if messages = [] then none
          else (σ.db.botOf d.storageId).map fun bot => (bot, messages)))
    | .committing snapshot => σ.commitDeletion number d.storageId snapshot now order
    | .answered _ => σ

/-- A picture's task resolves the primary channel of its file. -/
def choosePicture (σ : Site) (fileId : Uuid) (kind : PictureKind) : Site :=
  match (σ.db.fileById fileId).bind fun f => σ.db.storages.find? fun s => s.id = f.storageId with
  | none => σ
  | some storage =>
    match σ.db.resolvePrimaryChannel storage with
    | .error _ => σ
    | .ok (primary, _, db') =>
      { σ.setDb db' with pictures := σ.pictures ++ [⟨fileId, kind, storage.id, primary.chatId⟩] }

/-- Telegram accepted a picture, and `set_thumb` or `set_preview` records it. -/
def recordPicture (σ : Site) (p : Picture) (telegramFileId : String) (messageId : Int) : Site :=
  if p ∈ σ.pictures then
    let op := match p.kind with
      | .thumb => RowOp.setThumb p.fileId telegramFileId messageId
      | .preview => RowOp.setPreview p.fileId telegramFileId messageId
    { σ.setDb (exec σ.db op) with
      pictures := σ.pictures.erase p
      pictured := σ.pictured ++ [(p.storageId, p.chatId, messageId)] }
  else σ

def updateMessage (σ : Site) (id : Nat) (f : PurgeMessage → PurgeMessage) : Site :=
  { σ with messages := σ.messages.map fun m => if m.id = id then f m else m }

/-- The purge messages that can be claimed: pending, of a job that is not completed, by id, ten at a
    time. -/
def claimable (σ : Site) : List PurgeMessage :=
  ((σ.messages.filter fun m => m.status = .pending ∧
    ∃ j ∈ σ.jobs, j.id = m.jobId ∧ j.completed = false).insertionSort fun m m' => m.id ≤ m'.id).take 10

/-- A turn of the purger (Rust `StoragePurgeService::run_once`). -/
def purge (σ : Site) : PurgeAct → Site
  | .requeueStale now =>
    { σ with messages := σ.messages.map fun m =>
        if m.Stale ((now - 600).toNat * second) then
          { m with status := .pending, updatedAt := now }
        else m }
  | .claim now =>
    if σ.batch = [] then
      let claimed := σ.claimable
      { σ with
        batch := claimed.map fun m => { m with attempts := m.attempts + 1 }
        messages := σ.messages.map fun m =>
          if m ∈ claimed then
            { m with status := .inProgress, attempts := m.attempts + 1, updatedAt := now }
          else m }
    else σ
  | .answer a now =>
    match σ.batch with
    | [] => σ
    | m :: batch =>
      let σ := { σ with batch := batch }
      match a with
      | .erased =>
        { σ.updateMessage m.id fun row => { row with status := .done, updatedAt := now } with
          erased := σ.erased ++ [(m.jobId, m.target)] }
      | .notThere => σ.updateMessage m.id fun row => { row with status := .done, updatedAt := now }
      | .refused =>
        σ.updateMessage m.id fun row =>
          { row with status := if 8 ≤ m.attempts then .failed else .pending, updatedAt := now }
  | .complete =>
    { σ with jobs := σ.jobs.map fun j =>
        if ∃ m ∈ σ.messages, m.jobId = j.id ∧ (m.status = .pending ∨ m.status = .inProgress) then j
        else { j with completed := true } }

/-- The next state. A crash ends what is under way, and leaves the tables. -/
def step (σ : Site) : SiteStep → Site
  | .serve s =>
    match s with
    | .restart _ =>
      { σ with process := σ.process.step s, pictures := [], deletions := [], batch := [] }
    | _ => { σ with process := σ.process.step s }
  | .rows s =>
    match s.attempt σ.process.maxVariables σ.db with
    | .ok db' => σ.setDb db'
    | .error _ => σ
  | .createStorage chatIds =>
    { σ with process := σ.process.withDb (σ.db.createStorage σ.process.next chatIds) }
  | .picture fileId kind => σ.choosePicture fileId kind
  | .pictureSent p telegramFileId messageId => σ.recordPicture p telegramFileId messageId
  | .pictureLost p => { σ with pictures := σ.pictures.erase p }
  | .delete number storageId =>
    if (σ.deletion? number).isSome then σ
    else { σ with deletions := σ.deletions ++ [⟨number, storageId, .listing⟩] }
  | .deletion number now order => σ.takeDeletion number now order
  | .purge a => σ.purge a

end Site

/-- The messages that the rows of a storage record: of a replica on a channel of the storage, in its chat,
    and of a picture of one of its files, in any of its chats. -/
inductive Db.Records (db : Db) (storageId : Uuid) : Int × Int → Prop where
  | replica {r channel messageId} (hr : r ∈ db.replicas) (hchunk : ∃ c ∈ db.chunks, c.id = r.chunkId)
      (hchannel : channel ∈ db.channels) (hid : channel.id = r.channelId)
      (hstorage : channel.storageId = storageId) (hmessage : r.telegramMessageId = some messageId) :
      db.Records storageId (channel.chatId, messageId)
  | picture {file channel messageId} (hfile : file ∈ db.files) (hfs : file.storageId = storageId)
      (hchannel : channel ∈ db.channels) (hstorage : channel.storageId = storageId)
      (hmessage : file.thumbTelegramMessageId = some messageId ∨
        file.previewTelegramMessageId = some messageId) :
      db.Records storageId (channel.chatId, messageId)

/-- No row of `db'` belongs to what was the storage in `db`. -/
structure Db.Cleared (storageId : Uuid) (db db' : Db) : Prop where
  storages : ∀ s ∈ db'.storages, s.id ≠ storageId
  workers : ∀ w ∈ db'.workers, w.storageId ≠ some storageId
  channels : ∀ c ∈ db'.channels, c.storageId ≠ storageId
  files : ∀ f ∈ db'.files, f.storageId ≠ storageId
  chunks : ∀ f ∈ db.files, f.storageId = storageId → ∀ c ∈ db'.chunks, c.fileId ≠ f.id
  replicas : ∀ r ∈ db'.replicas, (∀ c ∈ db.channels, c.storageId = storageId → c.id ≠ r.channelId) ∧
    ∀ f ∈ db.files, f.storageId = storageId → ∀ c ∈ db.chunks, c.fileId = f.id → c.id ≠ r.chunkId
  events : ∀ e ∈ db'.events, e.storageId ≠ storageId

/-- The step from `σ` to `τ` ended a deletion well: it is answered, the storage's rows are gone, and the
    job it queued names every message that was recorded for the storage. -/
structure Site.Deletes (number : Nat) (storageId : Uuid) (σ τ : Site) : Prop where
  answered : τ.deletion? number = some ⟨number, storageId, .answered (.ok ())⟩
  cleared : σ.db.Cleared storageId τ.db
  named : ∀ m, σ.db.Records storageId m → ∃ job rows, τ.jobs = σ.jobs ++ [job] ∧
    job.storageId = storageId ∧ τ.messages = σ.messages ++ rows ∧
    ∃ row ∈ rows, row.jobId = job.id ∧ row.target = m

/-- The step is not one of the deletion with a number, and the server goes on. -/
def SiteStep.Elsewhere (number : Nat) : SiteStep → Prop
  | .deletion n _ _ => n ≠ number
  | .serve (.restart _) => False
  | _ => True

def DeletionPhase.messages : DeletionPhase → List (Int × Int)
  | .listed messages | .fetching messages | .committing (some (_, messages)) => messages
  | _ => []

/-! ## What the statements leave -/

namespace Db

variable {db : Db} {storageId : Uuid}

lemma mem_listed {m : Int × Int} : m ∈ db.listTelegramMessagesForStorage storageId ∨
    m ∈ db.listDerivedMessagesForStorage storageId ↔ db.Records storageId m := by
  unfold listTelegramMessagesForStorage listDerivedMessagesForStorage
  constructor
  · rintro (h | h)
    · obtain ⟨r, hr, h⟩ := List.mem_flatMap.mp (List.mem_dedup.mp h)
      split at h
      · case isTrue hchunk =>
        obtain ⟨c, hc, h⟩ := List.mem_flatMap.mp h
        obtain ⟨hc, hcond⟩ := List.mem_filter.mp hc
        obtain ⟨hid, hst⟩ := of_decide_eq_true hcond
        obtain ⟨messageId, hm, rfl⟩ := List.mem_map.mp h
        exact .replica hr hchunk hc hid hst (Option.mem_toList.mp hm)
      · cases h
    · obtain ⟨f, hf, h⟩ := List.mem_flatMap.mp h
      obtain ⟨hf, hfs⟩ := List.mem_filter.mp hf
      obtain ⟨c, hc, h⟩ := List.mem_flatMap.mp h
      obtain ⟨hc, hst⟩ := List.mem_filter.mp hc
      obtain ⟨messageId, hm, rfl⟩ := List.mem_map.mp h
      refine .picture hf (of_decide_eq_true hfs) hc (of_decide_eq_true hst) ?_
      exact (List.mem_append.mp hm).imp Option.mem_toList.mp Option.mem_toList.mp
  · rintro (⟨hr, hchunk, hc, hid, hst, hm⟩ | ⟨hf, hfs, hc, hst, hm⟩)
    · left
      refine List.mem_dedup.mpr (List.mem_flatMap.mpr ⟨_, hr, ?_⟩)
      rw [if_pos hchunk]
      refine List.mem_flatMap.mpr ⟨_, List.mem_filter.mpr ⟨hc, decide_eq_true ⟨hid, hst⟩⟩, ?_⟩
      exact List.mem_map_of_mem (Option.mem_toList.mpr hm)
    · right
      refine List.mem_flatMap.mpr ⟨_, List.mem_filter.mpr ⟨hf, decide_eq_true hfs⟩, ?_⟩
      refine List.mem_flatMap.mpr ⟨_, List.mem_filter.mpr ⟨hc, decide_eq_true hst⟩, ?_⟩
      apply List.mem_map_of_mem
      exact List.mem_append.mpr (hm.imp Option.mem_toList.mpr Option.mem_toList.mpr)

lemma deleteEach_sub (db : Db) (ids : List Uuid) :
    (∀ f ∈ (db.deleteEach ids).files, f ∈ db.files) ∧
      (∀ c ∈ (db.deleteEach ids).chunks, c ∈ db.chunks) ∧
      (∀ r ∈ (db.deleteEach ids).replicas, r ∈ db.replicas) ∧
      (db.deleteEach ids).channels = db.channels ∧ (db.deleteEach ids).workers = db.workers := by
  induction ids generalizing db with
  | nil => exact ⟨fun _ h => h, fun _ h => h, fun _ h => h, rfl, rfl⟩
  | cons id ids ih =>
    unfold deleteEach
    split
    · exact ih db
    · case h_2 old hold =>
      obtain ⟨hfiles, hchunks, hreplicas, hchannels, hworkers⟩ := ih (db.deleteFile old)
      exact ⟨fun f hf => List.mem_of_mem_filter (hfiles f hf),
        fun c hc => List.mem_of_mem_filter (hchunks c hc),
        fun r hr => List.mem_of_mem_filter (hreplicas r hr), hchannels, hworkers⟩

lemma deleteEach_gone {f : FileRow} (hf : f ∈ db.files) {ids : List Uuid} (hid : f.id ∈ ids) :
    (∀ r ∈ (db.deleteEach ids).files, r.id ≠ f.id) ∧
      (∀ c ∈ (db.deleteEach ids).chunks, c.fileId ≠ f.id) ∧
      ∀ r ∈ (db.deleteEach ids).replicas, ∀ c ∈ db.chunks, c.fileId = f.id → c.id ≠ r.chunkId := by
  induction ids generalizing db with
  | nil => exact absurd hid List.not_mem_nil
  | cons id ids ih =>
    unfold deleteEach
    split
    · case h_1 hnone =>
      apply ih hf
      have hne : f.id ≠ id := by simpa using List.find?_eq_none.mp hnone f hf
      exact (List.mem_cons.mp hid).resolve_left hne
    · case h_2 old hsome =>
      obtain ⟨-, rfl⟩ := fileById_some hsome
      by_cases hfo : f.id = old.id
      · -- the row itself is visited, and nothing comes back
        obtain ⟨hfiles, hchunks, hreplicas, -⟩ := (db.deleteFile old).deleteEach_sub ids
        rw [hfo]
        refine ⟨fun r hr => ?_, fun c hc => ?_, fun r hr => ?_⟩
        · simpa using (List.mem_filter.mp (hfiles r hr)).2
        · simpa using (List.mem_filter.mp (hchunks c hc)).2
        · simpa using (List.mem_filter.mp (hreplicas r hr)).2
      · have hstays : f ∈ (db.deleteFile old).files := List.mem_filter.mpr ⟨hf, by simpa using hfo⟩
        obtain ⟨hfiles, hchunks, hreplicas⟩ := ih hstays ((List.mem_cons.mp hid).resolve_left hfo)
        refine ⟨hfiles, hchunks, fun r hr c hc hcf => hreplicas r hr c ?_ hcf⟩
        exact List.mem_filter.mpr ⟨hc, by simpa [hcf] using hfo⟩

lemma deleteFiles_gone (db : Db) {f : FileRow} (hf : f ∈ db.files) {order ids : List Uuid} (hid : f.id ∈ ids) :
    (∀ r ∈ (db.deleteFiles order ids).files, r.id ≠ f.id) ∧
      (∀ c ∈ (db.deleteFiles order ids).chunks, c.fileId ≠ f.id) ∧
      ∀ r ∈ (db.deleteFiles order ids).replicas, ∀ c ∈ db.chunks, c.fileId = f.id → c.id ≠ r.chunkId := by
  apply deleteEach_gone hf
  rw [mem_visitOrder, mem_idsWhere]
  exact ⟨f, hf, decide_eq_true hid, rfl⟩

lemma cleared_deleteStorageInTx (db : Db) (storageId : Uuid) (order : List Uuid) :
    db.Cleared storageId (db.deleteStorageInTx storageId order) := by
  let base : Db := { db with workers := db.workers.filter fun w => w.storageId ≠ some storageId }
  have hids : ∀ f ∈ db.files, f.storageId = storageId →
      f.id ∈ base.idsWhere fun r => r.storageId = storageId :=
    fun f hf hst => mem_idsWhere.mpr ⟨f, hf, decide_eq_true hst, rfl⟩
  obtain ⟨hfiles, -, -, hchannels, hworkers⟩ := base.deleteEach_sub
    (visitOrder order (base.idsWhere fun r => r.id ∈ base.idsWhere fun r => r.storageId = storageId))
  refine ⟨?_, ?_, ?_, ?_, ?_, ?_, ?_⟩
  · intro s hs
    exact of_decide_eq_true (List.mem_filter.mp hs).2
  · intro w hw
    have hw : w ∈ base.workers := hworkers ▸ hw
    exact of_decide_eq_true (List.mem_filter.mp hw).2
  · intro c hc
    exact of_decide_eq_true (List.mem_filter.mp hc).2
  · intro f hf hst
    have hold : f ∈ db.files := hfiles f hf
    exact (base.deleteFiles_gone hold (hids f hold hst)).1 f hf rfl
  · intro f hf hst c hc
    exact (base.deleteFiles_gone hf (hids f hf hst)).2.1 c hc
  · intro r hr
    obtain ⟨hr, hkeep⟩ := List.mem_filter.mp hr
    refine ⟨fun c hc => of_decide_eq_true hkeep c ?_, fun f hf hst => ?_⟩
    · show c ∈ (base.deleteEach _).channels
      rw [hchannels]
      exact hc
    · exact (base.deleteFiles_gone hf (hids f hf hst)).2.2 r hr
  · intro e he
    exact of_decide_eq_true (List.mem_filter.mp he).2

end Db

lemma mem_snapshotMessages {messages derived : List (Int × Int)} {m : Int × Int} :
    m ∈ snapshotMessages messages derived ↔ m ∈ messages ∨ m ∈ derived := by
  rw [snapshotMessages, List.mem_dedup, List.mem_insertionSort, List.mem_append]

lemma length_snapshotMessages (messages derived : List (Int × Int)) :
    (snapshotMessages messages derived).length = (messages ++ derived).dedup.length :=
  (List.perm_insertionSort _ _).dedup.length_eq

lemma target_newPurgeMessages (jobId : Uuid) (now : Instant) (id : Nat) (messages : List (Int × Int)) :
    (newPurgeMessages jobId now id messages).map PurgeMessage.target = messages := by
  induction messages generalizing id with
  | nil => rfl
  | cons m messages ih => rw [newPurgeMessages, List.map_cons, ih]; rfl

lemma mem_newPurgeMessages {jobId : Uuid} {now : Instant} {id : Nat} {messages : List (Int × Int)}
    {row : PurgeMessage} (h : row ∈ newPurgeMessages jobId now id messages) :
    row.jobId = jobId ∧ row.status = .pending ∧ row.attempts = 0 := by
  induction messages generalizing id with
  | nil => cases h
  | cons m messages ih =>
    cases List.mem_cons.mp h with
    | inl h => rw [h]; exact ⟨rfl, rfl, rfl⟩
    | inr h => exact ih h

namespace Site

variable {σ : Site} {number : Nat}

/-! ## The call among the others -/

lemma deletion?_advance {d : Deletion} (h : σ.deletion? number = some d) (phase : DeletionPhase) :
    (σ.advance number phase).deletion? number = some ⟨number, d.storageId, phase⟩ := by
  unfold deletion? at h ⊢
  simp only [advance]
  generalize σ.deletions = ds at h
  induction ds with
  | nil => cases h
  | cons e ds ih =>
    by_cases he : e.number = number
    · have hed : e = d := by simpa [List.find?_cons, he] using h
      subst hed
      simp [he]
    · have hrest : ds.find? (fun d => d.number = number) = some d := by
        simpa [List.find?_cons, he] using h
      simpa [List.find?_cons, he] using ih hrest

lemma deletion?_advance_of_ne {n : Nat} (h : n ≠ number) (phase : DeletionPhase) :
    (σ.advance n phase).deletion? number = σ.deletion? number := by
  unfold deletion?
  simp only [advance]
  induction σ.deletions with
  | nil => rfl
  | cons e ds ih =>
    by_cases he : e.number = n
    · have hne : e.number ≠ number := he ▸ h
      simpa [List.find?_cons, he, hne, h] using ih
    · by_cases hnumber : e.number = number
      · simp [hnumber, h.symm]
      · simpa [List.find?_cons, he, hnumber] using ih

lemma deletion?_takeDeletion {n : Nat} (h : n ≠ number) (now : Instant) (order : List Uuid) :
    (σ.takeDeletion n now order).deletion? number = σ.deletion? number := by
  unfold takeDeletion
  split
  · rfl
  · case h_2 d hd =>
    split
    · exact deletion?_advance_of_ne h _
    · exact deletion?_advance_of_ne h _
    · exact deletion?_advance_of_ne h _
    · case h_4 snapshot hphase =>
      unfold commitDeletion
      split
      · exact deletion?_advance_of_ne h _
      · case h_2 τ hτ =>
        rw [deletion?_advance_of_ne h]
        unfold enqueueSnapshot enqueueInTx at hτ
        split at hτ
        · cases hτ
          rfl
        · split at hτ
          · cases hτ
          · cases hτ
            rfl
    · rfl

lemma deletion?_step {d : Deletion} (h : σ.deletion? number = some d) {s : SiteStep}
    (hs : s.Elsewhere number) : (σ.step s).deletion? number = some d := by
  cases s with
  | serve s =>
    cases s with
    | restart order => exact hs.elim
    | _ => exact h
  | rows s =>
    simp only [step]
    split <;> exact h
  | createStorage => exact h
  | picture =>
    simp only [step, choosePicture]
    split
    · exact h
    · split <;> exact h
  | pictureSent =>
    simp only [step, recordPicture]
    split <;> exact h
  | pictureLost => exact h
  | delete n storageId =>
    simp only [step]
    split
    · exact h
    · unfold deletion? at h ⊢
      rw [List.find?_append, h]
      rfl
  | deletion n now order =>
    rw [step, deletion?_takeDeletion hs]
    exact h
  | purge a =>
    cases a with
    | claim =>
      simp only [step, purge]
      split <;> exact h
    | answer a =>
      simp only [step, purge]
      split
      · exact h
      · split <;> exact h
    | _ => exact h

lemma deletion?_run {d : Deletion} {steps : List SiteStep} (h : σ.deletion? number = some d)
    (hs : ∀ s ∈ steps, s.Elsewhere number) : (run step σ steps).deletion? number = some d := by
  induction steps generalizing σ with
  | nil => exact h
  | cons s steps ih =>
    obtain ⟨hone, hrest⟩ := List.forall_mem_cons.mp hs
    exact ih (deletion?_step h hone) hrest

/-! ## A deletion that leaks nothing -/

lemma step_commit {storageId : Uuid} {snapshot : Option (StorageWorker × List (Int × Int))}
    (h : σ.deletion? number = some ⟨number, storageId, .committing snapshot⟩) (now : Instant)
    (order : List Uuid) :
    σ.step (.deletion number now order) = σ.commitDeletion number storageId snapshot now order := by
  simp only [step, takeDeletion, h]

lemma deletes_none_iff {storageId : Uuid}
    (h : σ.deletion? number = some ⟨number, storageId, .committing none⟩) (now : Instant)
    (order : List Uuid) :
    Deletes number storageId σ (σ.step (.deletion number now order)) ↔
      ∀ m, ¬σ.db.Records storageId m := by
  rw [step_commit h]
  constructor
  · intro hd m hm
    obtain ⟨job, rows, hjobs, -⟩ := hd.named m hm
    exact absurd (congrArg List.length hjobs) (by simp [commitDeletion, enqueueSnapshot, advance, setDb])
  · intro hno
    refine ⟨?_, Db.cleared_deleteStorageInTx σ.db storageId order, fun m hm => absurd hm (hno m)⟩
    exact deletion?_advance (σ := σ.setDb (σ.db.deleteStorageInTx storageId order)) h _

/-- A transaction with a job is a good one just when the job's rows fit a statement and name all that was
    recorded. -/
lemma deletes_some_iff {storageId : Uuid} {bot : StorageWorker} {messages : List (Int × Int)}
    (h : σ.deletion? number = some ⟨number, storageId, .committing (some (bot, messages))⟩)
    (now : Instant) (order : List Uuid) :
    Deletes number storageId σ (σ.step (.deletion number now order)) ↔
      3 * messages.length ≤ σ.process.maxVariables ∧ ∀ m, σ.db.Records storageId m → m ∈ messages := by
  rw [step_commit h]
  unfold commitDeletion enqueueSnapshot enqueueInTx
  by_cases hlen : σ.process.maxVariables < 3 * messages.length
  · simp only [if_pos hlen]
    constructor
    · intro hd
      have hanswer := hd.answered
      rw [deletion?_advance h] at hanswer
      cases hanswer
    · intro hfits
      exact absurd hfits.1 (Nat.not_le.mpr hlen)
  · simp only [if_neg hlen]
    have hmap := target_newPurgeMessages σ.nextJob now σ.nextMessage messages
    constructor
    · intro hd
      refine ⟨Nat.not_lt.mp hlen, fun m hm => ?_⟩
      obtain ⟨job, rows, -, -, hrows, row, hrow, -, rfl⟩ := hd.named m hm
      rw [← hmap, List.append_cancel_left hrows]
      exact List.mem_map_of_mem hrow
    · rintro ⟨-, hnames⟩
      refine ⟨?_, Db.cleared_deleteStorageInTx σ.db storageId order, fun m hm => ?_⟩
      · apply deletion?_advance (d := ⟨number, storageId, .committing (some (bot, messages))⟩)
        exact h
      · have hin := hnames m hm
        rw [← hmap] at hin
        obtain ⟨row, hrow, rfl⟩ := List.mem_map.mp hin
        exact ⟨_, _, rfl, rfl, rfl, row, hrow, (mem_newPurgeMessages hrow).1, rfl⟩

/-- A deletion of a storage that has a bot, with any steps of others between its statements, succeeds and
    leaks nothing just when its list fits one statement and every message that is recorded at the commit
    was recorded when the list was read. -/
theorem delete_iff {storageId : Uuid} (hcall : σ.deletion? number = some ⟨number, storageId, .listing⟩)
    (now : Instant) (order : List Uuid) (steps₁ steps₂ steps₃ : List SiteStep)
    (h₁ : ∀ s ∈ steps₁, s.Elsewhere number) (h₂ : ∀ s ∈ steps₂, s.Elsewhere number)
    (h₃ : ∀ s ∈ steps₃, s.Elsewhere number) :
    let σ₁ := run step (σ.step (.deletion number now order)) steps₁
    let σ₂ := run step (σ₁.step (.deletion number now order)) steps₂
    let σ₃ := run step (σ₂.step (.deletion number now order)) steps₃
    let known := σ.db.listTelegramMessagesForStorage storageId ++
      σ₁.db.listDerivedMessagesForStorage storageId
    (∃ w ∈ σ₂.db.workers, w.storageId = some storageId) →
      (Deletes number storageId σ₃ (σ₃.step (.deletion number now order)) ↔
        3 * known.dedup.length ≤ σ₃.process.maxVariables ∧
          ∀ m, σ₃.db.Records storageId m → m ∈ known) := by
  intro σ₁ σ₂ σ₃ known hbot
  let messages := snapshotMessages (σ.db.listTelegramMessagesForStorage storageId)
    (σ₁.db.listDerivedMessagesForStorage storageId)
  have hmem : ∀ m, m ∈ messages ↔ m ∈ known := by
    intro m
    rw [mem_snapshotMessages, List.mem_append]
  have hlength : known.dedup.length = messages.length := (length_snapshotMessages _ _).symm
  rw [hlength]
  simp only [← hmem]
  have hcall₁ : σ₁.deletion? number = some ⟨number, storageId,
      .listed (σ.db.listTelegramMessagesForStorage storageId)⟩ := by
    apply deletion?_run _ h₁
    simp only [step, takeDeletion, hcall]
    exact deletion?_advance hcall _
  have hcall₂ : σ₂.deletion? number = some ⟨number, storageId, .fetching messages⟩ := by
    apply deletion?_run _ h₂
    simp only [step, takeDeletion, hcall₁]
    exact deletion?_advance hcall₁ _
  have hcall₃ : σ₃.deletion? number = some ⟨number, storageId, .committing
      (if messages = [] then none else (σ₂.db.botOf storageId).map fun bot => (bot, messages))⟩ := by
    apply deletion?_run _ h₃
    simp only [step, takeDeletion, hcall₂]
    exact deletion?_advance hcall₂ _
  by_cases hnone : messages = []
  · rw [if_pos hnone] at hcall₃
    rw [deletes_none_iff hcall₃, hnone]
    simp
  · obtain ⟨bot, hfind⟩ : ∃ bot, σ₂.db.botOf storageId = some bot := by
      rw [← Option.isSome_iff_exists, Db.botOf, List.find?_isSome]
      obtain ⟨w, hw, hst⟩ := hbot
      exact ⟨w, hw, decide_eq_true hst⟩
    rw [if_neg hnone, hfind, Option.map_some] at hcall₃
    exact deletes_some_iff hcall₃ now order

/-- A storage with a bot and two channels, and a picture file stored on both. -/
def twoChats : Site where
  process :=
    { db :=
        { Db.fresh [⟨1, 1⟩] with
          workers := [⟨10, some 1⟩]
          channels := [⟨2, 1, 1, -100, .active⟩, ⟨3, 1, 2, -200, .active⟩]
          files := [{ (InFile.new "a.jpg".toList 1 1).toRow 4 true with chunkSizeBytes := some 1 }]
          chunks := [⟨5, 4, 0⟩]
          replicas := [.newUploaded 6 5 2 "a-1" 5, .newUploaded 7 5 3 "a-2" 3] }
      uploads := []
      documents := [("a-1", [1]), ("a-2", [1])]
      inFlight := []
      next := 20
      maxVariables := 32766 }
  pictures := []
  deletions := []
  jobs := []
  messages := []
  batch := []
  nextJob := 0
  nextMessage := 1
  pictured := []
  erased := []

def untilCommit : List SiteStep :=
  [.delete 0 1, .deletion 0 0 [], .deletion 0 0 [], .deletion 0 0 []]

/-- Alone, the deletion leaks nothing. -/
theorem untilCommit_deletes :
    Deletes 0 1 (run step twoChats untilCommit)
      ((run step twoChats untilCommit).step (.deletion 0 0 [])) := by
  have hcall : (run step twoChats [.delete 0 1]).deletion? 0 = some ⟨0, 1, .listing⟩ := rfl
  refine (delete_iff hcall 0 [] [] [] [] (by simp) (by simp) (by simp)
    ⟨⟨10, some 1⟩, by decide +kernel, rfl⟩).mpr ⟨by decide +kernel, fun m hm => ?_⟩
  exact List.mem_append.mpr (Db.mem_listed.mpr hm)

def oneByte (storageId : Uuid) : UploadRequest where
  storageId := storageId
  path := "b".toList
  body := [7]
  chunkSize := 1
  sourceCreatedAt := none
  sourceMtime := none
  contentHash := none
  replace := false
  isFile := rfl
  chunkSize_pos := Nat.zero_lt_one

def untilSend (storageId : Uuid) : List SiteStep :=
  [.serve (.arrive 0 (oneByte storageId)), .serve (.act 0 .look), .serve (.act 0 .settle),
    .serve (.act 0 .create), .serve (.act 0 .begin), .serve (.act 0 .plan)]

/-- The upload commits its chunk between the list and the transaction. -/
def sentMeanwhile : List SiteStep :=
  untilSend 1 ++ untilCommit ++ [.serve (.act 0 (.send 0 "b-1" 8))]

/-- Its message is recorded at the commit, and no job names it. -/
theorem sentMeanwhile_leaks :
    ¬Deletes 0 1 (run step twoChats sentMeanwhile)
      ((run step twoChats sentMeanwhile).step (.deletion 0 0 [])) := by
  intro h
  have hrecords : (run step twoChats sentMeanwhile).db.Records 1 (-100, 8) :=
    Db.mem_listed.mp (Or.inl (by decide +kernel))
  obtain ⟨job, rows, -, -, hmessages, row, hrow, -, htarget⟩ := h.named _ hrecords
  have hno : ∀ m ∈ ((run step twoChats sentMeanwhile).step (.deletion 0 0 [])).messages,
      m.target ≠ (-100, 8) := by
    decide +kernel
  exact hno row (hmessages ▸ List.mem_append_right _ hrow) htarget

/-! ## What a job may name -/

/-- What the server knew of storages' messages in some state before. -/
abbrev Past := Uuid → Int × Int → Prop

/-- The rows of this state record nothing else. -/
def Within (past : Past) (σ : Site) : Prop :=
  ∀ storageId m, σ.db.Records storageId m → past storageId m

/-- What the deletions read, the jobs name and the purger erased was recorded before. -/
structure Traced (past : Past) (σ : Site) : Prop where
  apart : ∀ d ∈ σ.deletions, ∀ e ∈ σ.deletions, d.number = e.number → d = e
  read : ∀ d ∈ σ.deletions, ∀ m ∈ d.phase.messages, past d.storageId m
  jobBelow : ∀ j ∈ σ.jobs, j.id < σ.nextJob
  messageBelow : ∀ m ∈ σ.messages, m.jobId < σ.nextJob
  named : ∀ m ∈ σ.messages, ∀ j ∈ σ.jobs, j.id = m.jobId → past j.storageId m.target
  claimed : ∀ b ∈ σ.batch, ∃ m ∈ σ.messages, m.jobId = b.jobId ∧ m.target = b.target
  erased : ∀ e ∈ σ.erased, ∃ m ∈ σ.messages, m.jobId = e.1 ∧ m.target = e.2

variable {past : Past}

lemma Traced.of_eq (h : Traced past σ) {τ : Site} (hdeletions : τ.deletions = σ.deletions)
    (hjobs : τ.jobs = σ.jobs) (hmessages : τ.messages = σ.messages) (hbatch : τ.batch = σ.batch)
    (hnext : τ.nextJob = σ.nextJob) (herased : τ.erased = σ.erased) : Traced past τ where
  apart := hdeletions ▸ h.apart
  read := hdeletions ▸ h.read
  jobBelow := by rw [hjobs, hnext]; exact h.jobBelow
  messageBelow := by rw [hmessages, hnext]; exact h.messageBelow
  named := by rw [hmessages, hjobs]; exact h.named
  claimed := by rw [hmessages, hbatch]; exact h.claimed
  erased := by rw [hmessages, herased]; exact h.erased

lemma Traced.advance (h : Traced past σ) {d : Deletion} (hd : σ.deletion? number = some d)
    {phase : DeletionPhase} (hphase : ∀ m ∈ phase.messages, past d.storageId m) :
    Traced past (σ.advance number phase) where
  apart := by
    intro _ he _ he' hnumber
    obtain ⟨e, hold, rfl⟩ := List.mem_map.mp he
    obtain ⟨e', hold', rfl⟩ := List.mem_map.mp he'
    rw [apply_ite Deletion.number, apply_ite Deletion.number, ite_self, ite_self] at hnumber
    rw [h.apart e hold e' hold' hnumber]
  read := by
    intro _ he
    obtain ⟨e, hold, rfl⟩ := List.mem_map.mp he
    split
    · case isTrue hn =>
      have hdn : d.number = number := by simpa using List.find?_some hd
      have hde : d = e := h.apart d (List.mem_of_find?_eq_some hd) e hold (hdn.trans hn.symm)
      rw [← hde]
      exact hphase
    · exact h.read e hold
  jobBelow := h.jobBelow
  messageBelow := h.messageBelow
  named := h.named
  claimed := h.claimed
  erased := h.erased

lemma Traced.enqueueInTx (h : Traced past σ) {τ : Site} {storageId : Uuid} {bot : StorageWorker}
    {messages : List (Int × Int)} {now : Instant} (hpast : ∀ m ∈ messages, past storageId m)
    (hok : σ.enqueueInTx storageId bot messages now = .ok τ) : Traced past τ := by
  unfold Site.enqueueInTx at hok
  split at hok
  · cases hok
  · cases hok
    refine ⟨h.apart, h.read, ?_, ?_, ?_, ?_, ?_⟩
    · intro j hj
      cases List.mem_append.mp hj with
      | inl hj => exact Nat.lt_succ_of_lt (h.jobBelow j hj)
      | inr hj => rw [List.mem_singleton.mp hj]; exact Nat.lt_succ_self _
    · intro m hm
      cases List.mem_append.mp hm with
      | inl hm => exact Nat.lt_succ_of_lt (h.messageBelow m hm)
      | inr hm => rw [(mem_newPurgeMessages hm).1]; exact Nat.lt_succ_self _
    · intro m hm j hj hid
      cases List.mem_append.mp hm with
      | inl hm =>
        cases List.mem_append.mp hj with
        | inl hj => exact h.named m hm j hj hid
        | inr hj =>
          -- an old row has an older job
          rw [List.mem_singleton.mp hj] at hid
          exact absurd hid (h.messageBelow m hm).ne'
      | inr hm =>
        rw [(mem_newPurgeMessages hm).1] at hid
        cases List.mem_append.mp hj with
        | inl hj => exact absurd hid (h.jobBelow j hj).ne
        | inr hj =>
          rw [List.mem_singleton.mp hj]
          apply hpast
          rw [← target_newPurgeMessages σ.nextJob now σ.nextMessage messages]
          exact List.mem_map_of_mem hm
    · intro b hb
      obtain ⟨m, hm, heq⟩ := h.claimed b hb
      exact ⟨m, List.mem_append_left _ hm, heq⟩
    · intro e he
      obtain ⟨m, hm, heq⟩ := h.erased e he
      exact ⟨m, List.mem_append_left _ hm, heq⟩

lemma Traced.mapMessages (h : Traced past σ) {f : PurgeMessage → PurgeMessage}
    (hf : ∀ m, (f m).jobId = m.jobId ∧ (f m).target = m.target) :
    Traced past { σ with messages := σ.messages.map f } := by
  have hkept : ∀ {jobId : Uuid} {target : Int × Int},
      (∃ m ∈ σ.messages, m.jobId = jobId ∧ m.target = target) →
      ∃ m ∈ σ.messages.map f, m.jobId = jobId ∧ m.target = target := by
    rintro _ _ ⟨m, hm, rfl, rfl⟩
    exact ⟨f m, List.mem_map_of_mem hm, hf m⟩
  refine ⟨h.apart, h.read, h.jobBelow, ?_, ?_, fun b hb => hkept (h.claimed b hb),
    fun e he => hkept (h.erased e he)⟩
  · intro _ hm
    obtain ⟨m, hold, rfl⟩ := List.mem_map.mp hm
    rw [(hf m).1]
    exact h.messageBelow m hold
  · intro _ hm j hj hid
    obtain ⟨m, hold, rfl⟩ := List.mem_map.mp hm
    rw [(hf m).1] at hid
    rw [(hf m).2]
    exact h.named m hold j hj hid

/-- A turn of the purger. -/
lemma Traced.purge (h : Traced past σ) (a : PurgeAct) : Traced past (σ.purge a) := by
  cases a with
  | requeueStale now =>
    refine h.mapMessages fun m => ?_
    split <;> exact ⟨rfl, rfl⟩
  | claim now =>
    unfold Site.purge
    dsimp only
    split
    · have hmap := h.mapMessages (f := fun m => if m ∈ σ.claimable then
        { m with status := .inProgress, attempts := m.attempts + 1, updatedAt := now } else m) <| by
          intro m
          split <;> exact ⟨rfl, rfl⟩
      refine { hmap with claimed := ?_ }
      intro b hb
      obtain ⟨m, hm, rfl⟩ := List.mem_map.mp hb
      have hin : m ∈ σ.messages := by
        have hsorted := List.mem_of_mem_take hm
        exact List.mem_of_mem_filter (List.mem_insertionSort _ |>.mp hsorted)
      refine ⟨_, List.mem_map_of_mem hin, ?_⟩
      split <;> exact ⟨rfl, rfl⟩
    · exact h
  | answer a now =>
    unfold Site.purge
    dsimp only
    split
    · exact h
    · case h_2 m batch hbatch =>
      have hrest : Traced past { σ with batch := batch } :=
        { h with claimed := fun b hb => h.claimed b (hbatch ▸ List.mem_cons_of_mem m hb) }
      have hupdate : ∀ f : PurgeMessage → PurgeMessage,
          (∀ m, (f m).jobId = m.jobId ∧ (f m).target = m.target) →
          Traced past (Site.updateMessage { σ with batch := batch } m.id f) := by
        intro f hf
        refine hrest.mapMessages fun m => ?_
        split
        · exact hf m
        · exact ⟨rfl, rfl⟩
      cases a with
      | erased =>
        have hdone := hupdate (fun row => { row with status := .done, updatedAt := now })
          fun _ => ⟨rfl, rfl⟩
        refine { hdone with erased := ?_ }
        intro e he
        cases List.mem_append.mp he with
        | inl he => exact hdone.erased e he
        | inr he =>
          rw [List.mem_singleton.mp he]
          obtain ⟨row, hrow, hid, htarget⟩ := h.claimed m (hbatch ▸ List.mem_cons_self)
          refine ⟨_, List.mem_map_of_mem hrow, ?_⟩
          split <;> exact ⟨hid, htarget⟩
      | notThere => exact hupdate _ fun _ => ⟨rfl, rfl⟩
      | refused => exact hupdate _ fun _ => ⟨rfl, rfl⟩
  | complete =>
    refine ⟨h.apart, h.read, ?_, h.messageBelow, ?_, h.claimed, h.erased⟩
    · intro _ hj
      obtain ⟨j, hold, rfl⟩ := List.mem_map.mp hj
      rw [apply_ite PurgeJob.id, ite_self]
      exact h.jobBelow j hold
    · intro m hm _ hj hid
      obtain ⟨j, hold, rfl⟩ := List.mem_map.mp hj
      rw [apply_ite PurgeJob.id, ite_self] at hid
      rw [apply_ite PurgeJob.storageId, ite_self]
      exact h.named m hm j hold hid

lemma Traced.delete (h : Traced past σ) (number : Nat) (storageId : Uuid) :
    Traced past (σ.step (.delete number storageId)) := by
  simp only [Site.step]
  split
  · exact h
  · case isFalse hnew =>
    have hother : ∀ d ∈ σ.deletions, d.number ≠ number := by
      intro d hd hn
      apply hnew
      rw [deletion?, List.find?_isSome]
      exact ⟨d, hd, decide_eq_true hn⟩
    refine { h with apart := ?_, read := ?_ }
    · intro d hd e he hn
      cases List.mem_append.mp hd with
      | inl hd =>
        cases List.mem_append.mp he with
        | inl he => exact h.apart d hd e he hn
        | inr he => exact absurd (hn.trans (by rw [List.mem_singleton.mp he])) (hother d hd)
      | inr hd =>
        cases List.mem_append.mp he with
        | inl he => exact absurd (hn.symm.trans (by rw [List.mem_singleton.mp hd])) (hother e he)
        | inr he => rw [List.mem_singleton.mp hd, List.mem_singleton.mp he]
    · intro d hd
      cases List.mem_append.mp hd with
      | inl hd => exact h.read d hd
      | inr hd =>
        rw [List.mem_singleton.mp hd]
        exact fun m hm => absurd hm List.not_mem_nil

/-- A turn of a deletion keeps to what was recorded for its storage: it reads messages of the rows there
    are, and a job gets the messages its deletion has read. -/
lemma Traced.deletion (h : Traced past σ) (hw : Within past σ) (number : Nat) (now : Instant)
    (order : List Uuid) : Traced past (σ.step (.deletion number now order)) := by
  have hlisted : ∀ storageId m, m ∈ σ.db.listTelegramMessagesForStorage storageId ∨
      m ∈ σ.db.listDerivedMessagesForStorage storageId → past storageId m :=
    fun storageId m hm => hw storageId m (Db.mem_listed.mp hm)
  simp only [Site.step, takeDeletion]
  split
  · exact h
  · case h_2 d hd =>
    have hread := h.read d (List.mem_of_find?_eq_some hd)
    split
    · exact h.advance hd fun m hm => hlisted d.storageId m (Or.inl hm)
    · case h_2 messages hphase =>
      rw [hphase] at hread
      refine h.advance hd fun m hm => ?_
      rcases mem_snapshotMessages.mp hm with hm | hm
      · exact hread m hm
      · exact hlisted d.storageId m (Or.inr hm)
    · case h_3 messages hphase =>
      rw [hphase] at hread
      refine h.advance hd ?_
      split
      · exact fun m hm => absurd hm List.not_mem_nil
      · cases σ.db.botOf d.storageId with
        | none => exact fun m hm => absurd hm List.not_mem_nil
        | some bot => exact hread
    · case h_4 snapshot hphase =>
      rw [hphase] at hread
      unfold commitDeletion enqueueSnapshot
      cases snapshot with
      | none =>
        have hcleared : Traced past (σ.setDb (σ.db.deleteStorageInTx d.storageId order)) :=
          h.of_eq rfl rfl rfl rfl rfl rfl
        refine hcleared.advance hd ?_
        exact fun m hm => absurd hm List.not_mem_nil
      | some snapshot =>
        split
        · exact h.advance hd fun m hm => absurd hm List.not_mem_nil
        · case h_2 τ hok =>
          have hτ : Traced past τ := h.enqueueInTx hread hok
          have hdτ : τ.deletion? number = some d := by
            dsimp only [Site.enqueueInTx] at hok
            split at hok
            · cases hok
            · cases hok
              exact hd
          have hcleared : Traced past (τ.setDb (τ.db.deleteStorageInTx d.storageId order)) :=
            hτ.of_eq rfl rfl rfl rfl rfl rfl
          refine hcleared.advance hdτ ?_
          exact fun m hm => absurd hm List.not_mem_nil
    · exact h

lemma Traced.step (h : Traced past σ) (hw : Within past σ) (a : SiteStep) : Traced past (σ.step a) := by
  cases a with
  | serve s =>
    cases s with
    | restart order =>
      exact { h with
        apart := fun d hd => absurd hd List.not_mem_nil
        read := fun d hd => absurd hd List.not_mem_nil
        claimed := fun b hb => absurd hb List.not_mem_nil }
    | _ => exact h.of_eq rfl rfl rfl rfl rfl rfl
  | rows s =>
    simp only [Site.step]
    split
    · exact h.of_eq rfl rfl rfl rfl rfl rfl
    · exact h
  | createStorage => exact h.of_eq rfl rfl rfl rfl rfl rfl
  | picture =>
    simp only [Site.step, choosePicture]
    split
    · exact h
    · split
      · exact h
      · exact h.of_eq rfl rfl rfl rfl rfl rfl
  | pictureSent =>
    simp only [Site.step, recordPicture]
    split
    · exact h.of_eq rfl rfl rfl rfl rfl rfl
    · exact h
  | pictureLost => exact h.of_eq rfl rfl rfl rfl rfl rfl
  | delete number storageId => exact h.delete number storageId
  | deletion number now order => exact h.deletion hw number now order
  | purge a => exact h.purge a

/-- The file gets its thumbnail in the primary chat, the storage is deleted, and a new storage takes over
    the other chat and stores a file before the purger comes. -/
def relinked : List SiteStep :=
  [.picture 4 .thumb, .pictureSent ⟨4, .thumb, 1, -100⟩ "a-thumb" 6] ++ untilCommit ++
    [.deletion 0 0 [], .createStorage [-200], .serve (.edit (.setWorkers [⟨11, some 20⟩]))] ++
    untilSend 20 ++ [.serve (.act 0 (.send 0 "b-1" 6)), .serve (.act 0 .link), .serve (.act 0 .mark),
      .serve (.act 0 .mark), .purge (.claim 0), .purge (.answer .erased 0), .purge (.answer .erased 0)]

end Site

end Sarca.Server
