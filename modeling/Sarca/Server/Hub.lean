import Sarca.Server.Intact
import Sarca.Server.Replication
import Sarca.Server.Services

/-!
# Channel calls, copies and the replicator side by side

`Hub` is a server process with what awaits between its statements besides the uploads: the calls that edit
the channels of a storage (`addChannel`, `updateChannel`, `removeChannel` of `StoragesService`), the copies
of files (`clone_one_row` of `FilesService`) and the pass of the replicator (`ReplicationService::run_once`).
`Hub.step` is one statement of one of them, or a step of the process that is none of theirs
(`Step.Plain`). The probes of the channels are the process's `channelDied`; the three statements that move
the primary position in `remove_channel` are one step.

`Sound` is what every step keeps. `Db.Carries` says what most steps do to chunks and replicas; the proofs
about runs go by it and by the few steps that do something else.
-/

namespace Sarca.Server
open Sarca.Lib

/-! ## Calls under way -/

/-- Where a call stands that edits the channels of a storage, with what it read. -/
inductive CallPhase where
  /-- `remove_channel` has the channel and is about to count the active ones -/
  | counting (channel : StorageChannel)
  | rotating (channel : StorageChannel)
  | deleting (channelId : Uuid)
  /-- `add_channel` has a free position -/
  | inserting (position chatId : Int)
  /-- `update_channel` has the channel -/
  | repointing (channelId : Uuid) (chatId : Int)
  /-- `enqueue_for_channel` is about to read the chunks, and has read them -/
  | reading (channelId : Uuid)
  | queueing (channelId : Uuid) (chunkIds : List Uuid)
deriving DecidableEq

def CallPhase.mayRefuse : CallPhase → Bool
  | .counting _ | .inserting _ _ | .repointing _ _ => true
  | _ => false

/-- A call that edits the channels of a storage. -/
structure ChannelCall where
  storageId : Uuid
  phase : CallPhase
deriving DecidableEq

/-- Where a copy of a file stands (Rust `clone_one_row`). -/
inductive ClonePhase where
  | inserting (destPath : Path)
  | reading (fileId : Uuid)
  | chunking (fileId : Uuid) (chunks : List FileChunk)
  /-- the chunks of the copy are there, told by those they were made of -/
  | listing (pairs : List (Uuid × Uuid))
  | filling (replicas : List ChunkReplica)
deriving DecidableEq

/-- The next statement can end the copy before it has chunks. -/
def ClonePhase.mayRefuse : ClonePhase → Bool
  | .inserting _ | .reading _ => true
  | _ => false

structure Clone where
  source : FileRow
  phase : ClonePhase
deriving DecidableEq

/-- A replica to copy, and the chat of its channel (Rust `PendingReplicaJob`). -/
structure Job where
  row : ChunkReplica
  chatId : Int
deriving DecidableEq

/-- A job whose source was found (Rust `SourceReplica`). -/
structure Copying where
  job : Job
  telegramFileId : String
  telegramMessageId : Option Int
  chatId : Int
deriving DecidableEq

/-- A process with the calls, the copies of files and the replicator's pass under way. -/
structure Hub where
  process : Process
  calls : List ChannelCall
  clones : List Clone
  jobs : List Job
  copying : Option Copying

inductive HubStep where
  | serve (s : Step)
  | addChannel (storageId : Uuid) (chatId : Int)
  | updateChannel (storageId channelId : Uuid) (chatId : Int)
  | removeChannel (storageId channelId : Uuid)
  /-- the next statement of a call -/
  | call (c : ChannelCall)
  | copyFile (fileId : Uuid) (destPath : Path)
  /-- the next statement of a copy of a file -/
  | clone (c : Clone)
  /-- the replicator lists its jobs -/
  | list
  /-- it looks for a source of the next one -/
  | pick
  /-- `copyMessage` went through -/
  | copied (telegramMessageId : Int)
  /-- the download and the upload went through -/
  | reuploaded (telegramFileId : String) (telegramMessageId : Int)
  | refused (chatDead : Bool)

/-- A step of the process that is not one of the calls, nor the replicator's. -/
def Step.Plain : Step → Bool
  | .edit (.addChannel _ _) | .edit (.updateChannel _ _ _) | .edit (.removeChannel _ _)
  | .edit (.copyFailed _) | .edit (.copied _ _ _) | .edit (.reuploaded _ _ _ _) => false
  | _ => true

namespace Db

/-- The chunks of a storage (the `SELECT` of `enqueue_for_channel`). -/
def chunkIdsOf (db : Db) (storageId : Uuid) : List Uuid :=
  (db.chunks.filter fun c => db.files.any fun f => f.id = c.fileId ∧ f.storageId = storageId).map (·.id)

/-- Rust `list_for_file`. -/
def listForFile (db : Db) (fileId : Uuid) : List ChunkReplica :=
  db.replicas.filter fun r => ∃ c ∈ db.chunks, c.id = r.chunkId ∧ c.fileId = fileId

/-- The jobs with the chats of their channels (Rust `list_pending`). -/
def pendingJobs (db : Db) : List Job :=
  (db.listPending batchSize).dedup.filterMap fun r =>
    (db.channelById r.channelId).map fun c => ⟨r, c.chatId⟩

end Db

def newChunks (fileId : Uuid) : Uuid → List FileChunk → List FileChunk
  | _, [] => []
  | next, c :: chunks => ⟨next, fileId, c.position⟩ :: newChunks fileId (next + 1) chunks

/-- The replicas of a copy: those of the source, on the chunks it was made of. -/
def copiedReplicas (pairs : List (Uuid × Uuid)) (replicas : List ChunkReplica) : List ChunkReplica :=
  replicas.filterMap fun r => (pairs.lookup r.chunkId).map fun chunkId => { r with chunkId := chunkId }

def renumber : Uuid → List ChunkReplica → List ChunkReplica
  | _, [] => []
  | next, r :: replicas => { r with id := next } :: renumber (next + 1) replicas

namespace Hub

def db (σ : Hub) : Db :=
  σ.process.db

def next (σ : Hub) : Uuid :=
  σ.process.next

/-- The same hub with another database and fresh ids. -/
def withDb (σ : Hub) (db : Db) (next : Uuid) : Hub :=
  { σ with process := { σ.process with db := db, next := next } }

def endCall (σ : Hub) (c : ChannelCall) : Hub :=
  { σ with calls := σ.calls.erase c }

def nextCall (σ : Hub) (c : ChannelCall) (phase : CallPhase) : Hub :=
  { σ with calls := ⟨c.storageId, phase⟩ :: σ.calls.erase c }

def takeCall (σ : Hub) (c : ChannelCall) : Hub :=
  match c.phase with
  | .counting channel =>
    if channel.isActive ∧ (σ.db.activeChannels c.storageId).length ≤ 1 then σ.endCall c
    else σ.nextCall c (.rotating channel)
  | .rotating channel =>
    (σ.withDb (σ.db.rotateFrom channel) σ.next).nextCall c (.deleting channel.id)
  | .deleting channelId => (σ.withDb (σ.db.deleteChannel channelId) σ.next).endCall c
  | .inserting position chatId =>
    if ¬σ.db.HasStorage c.storageId ∨ ∃ ch ∈ σ.db.channels,
        ch.chatId = chatId ∨ ch.storageId = c.storageId ∧ ch.position = position then
      σ.endCall c
    else
      (σ.withDb { σ.db with
        channels := σ.db.channels ++ [⟨σ.next, c.storageId, position, chatId, .active⟩] }
        (σ.next + 1)).nextCall c (.reading σ.next)
  | .repointing channelId chatId =>
    if (∀ ch ∈ σ.db.channels, ch.id ≠ channelId) ∨
        ∃ ch ∈ σ.db.channels, ch.id ≠ channelId ∧ ch.chatId = chatId then
      σ.endCall c
    else
      (σ.withDb (σ.db.updateChannelRow channelId fun ch =>
        { ch with chatId := chatId, status := .active }) σ.next).nextCall c (.reading channelId)
  | .reading channelId =>
    if σ.db.chunkIdsOf c.storageId = [] then σ.endCall c
    else σ.nextCall c (.queueing channelId (σ.db.chunkIdsOf c.storageId))
  | .queueing channelId chunkIds =>
    let replicas := newPendings σ.next (chunkIds.map fun chunkId => (chunkId, channelId))
    match σ.db.insertBatch σ.process.maxVariables replicas with
    | .ok db' => (σ.withDb db' (σ.next + replicas.length)).endCall c
    | .error _ => (σ.withDb σ.db (σ.next + replicas.length)).endCall c

def endClone (σ : Hub) (c : Clone) : Hub :=
  { σ with clones := σ.clones.erase c }

def nextClone (σ : Hub) (c : Clone) (phase : ClonePhase) : Hub :=
  { σ with clones := ⟨c.source, phase⟩ :: σ.clones.erase c }

def takeClone (σ : Hub) (c : Clone) : Hub :=
  match c.phase with
  | .inserting destPath =>
    match σ.db.insertClonedFile c.source destPath σ.next with
    | .error _ => σ.endClone c
    | .ok db' =>
      if isFolderPath destPath || isFolderPath c.source.path then
        (σ.withDb db' (σ.next + 1)).endClone c
      else (σ.withDb db' (σ.next + 1)).nextClone c (.reading σ.next)
  | .reading fileId =>
    let chunks := σ.db.chunks.filter fun chunk => chunk.fileId = c.source.id
    if chunks = [] then σ.endClone c else σ.nextClone c (.chunking fileId chunks)
  | .chunking fileId chunks =>
    let copies := newChunks fileId σ.next chunks
    match σ.db.createChunksBatch σ.process.maxVariables copies with
    | .error _ => (σ.withDb σ.db (σ.next + copies.length)).endClone c
    | .ok db' =>
      (σ.withDb db' (σ.next + copies.length)).nextClone c
        (.listing ((chunks.map (·.id)).zip (copies.map (·.id))))
  | .listing pairs =>
    let replicas := copiedReplicas pairs (σ.db.listForFile c.source.id)
    if σ.db.listForFile c.source.id = [] then σ.endClone c
    else σ.nextClone c (.filling replicas)
  | .filling replicas =>
    match σ.db.insertBatch σ.process.maxVariables (renumber σ.next replicas) with
    | .ok db' => (σ.withDb db' (σ.next + replicas.length)).endClone c
    | .error _ => (σ.withDb σ.db (σ.next + replicas.length)).endClone c

/-- The jobs the replicator has not worked off. -/
def underWay (σ : Hub) : List Job :=
  (σ.copying.map (·.job)).toList ++ σ.jobs

/-- The replicator looks for a source of its next job. -/
def pick (σ : Hub) : Hub :=
  match σ.copying, σ.jobs with
  | none, job :: jobs =>
    match σ.db.findSource job.row with
    | none => { σ with jobs := jobs }
    | some source =>
      match source.telegramFileId, σ.db.channelById source.channelId with
      | some telegramFileId, some channel =>
        { σ with
          jobs := jobs
          copying := some ⟨job, telegramFileId, source.telegramMessageId, channel.chatId⟩ }
      | _, _ => { σ with jobs := jobs }
  | _, _ => σ

/-- The replicator has a document for its job (Rust `mark_uploaded`). -/
def markUploaded (σ : Hub) (job : Job) (telegramFileId : String) (telegramMessageId : Int) : Hub :=
  { σ.withDb (σ.db.updateReplica job.row.id (·.uploadedAs telegramFileId telegramMessageId)) σ.next with
    copying := none }

/-- Telegram refused the replicator's call (Rust `mark_failed`, `mark_dead`). -/
def markFailed (σ : Hub) (job : Job) (chatDead : Bool) : Hub :=
  let db := σ.db.updateReplica job.row.id fun r => { r with status := .failed }
  { σ.withDb (if chatDead then db.updateChannelRow job.row.channelId fun c => { c with status := .dead }
      else db) σ.next with
    copying := none }

/-- The next state. What does not belong changes nothing; a crash ends all that is under way. -/
def step (σ : Hub) : HubStep → Hub
  | .serve s =>
    if s.Plain then
      match s with
      | .restart _ =>
        { process := σ.process.step s, calls := [], clones := [], jobs := [], copying := none }
      | _ => { σ with process := σ.process.step s }
    else σ
  | .addChannel storageId chatId =>
    match [1, 2, 3].find? fun p => ∀ c ∈ σ.db.listByStorage storageId, c.position ≠ p with
    | none => σ
    | some position => { σ with calls := ⟨storageId, .inserting position chatId⟩ :: σ.calls }
  | .updateChannel storageId channelId chatId =>
    match σ.db.channelById channelId with
    | none => σ
    | some channel =>
      if channel.storageId ≠ storageId then σ
      else { σ with calls := ⟨storageId, .repointing channelId chatId⟩ :: σ.calls }
  | .removeChannel storageId channelId =>
    match σ.db.channelById channelId with
    | none => σ
    | some channel =>
      if channel.storageId ≠ storageId then σ
      else { σ with calls := ⟨storageId, .counting channel⟩ :: σ.calls }
  | .call c => if c ∈ σ.calls then σ.takeCall c else σ
  | .copyFile fileId destPath =>
    match σ.db.fileById fileId with
    | none => σ
    | some source =>
      if source.Live then { σ with clones := ⟨source, .inserting destPath⟩ :: σ.clones } else σ
  | .clone c => if c ∈ σ.clones then σ.takeClone c else σ
  | .list => if σ.underWay = [] then { σ with jobs := σ.db.pendingJobs } else σ
  | .pick => σ.pick
  | .copied telegramMessageId =>
    match σ.copying with
    | none => σ
    | some c =>
      if c.telegramMessageId.isSome then σ.markUploaded c.job c.telegramFileId telegramMessageId else σ
  | .reuploaded telegramFileId telegramMessageId =>
    match σ.copying with
    | none => σ
    | some c =>
      if c.telegramMessageId.isSome ∨ telegramFileId ∈ σ.process.documents.map (·.1) then σ
      else
        match σ.process.documentOf c.telegramFileId with
        | none => σ
        | some bytes =>
          let σ := σ.markUploaded c.job telegramFileId telegramMessageId
          { σ with process := { σ.process with
              documents := σ.process.documents ++ [(telegramFileId, bytes)] } }
  | .refused chatDead =>
    match σ.copying with
    | none => σ
    | some c => σ.markFailed c.job chatDead

/-! ## What a statement can do -/

inductive CallTurn (σ : Hub) (c : ChannelCall) : Hub → Prop where
  | refuses (h : c.phase.mayRefuse = true) : CallTurn σ c (σ.endCall c)
  | counts {channel} (h : c.phase = .counting channel)
      (hmany : channel.isActive = true → 1 < (σ.db.activeChannels c.storageId).length) :
      CallTurn σ c (σ.nextCall c (.rotating channel))
  | rotates {channel} (h : c.phase = .rotating channel) :
      CallTurn σ c ((σ.withDb (σ.db.rotateFrom channel) σ.next).nextCall c (.deleting channel.id))
  | deletes {channelId} (h : c.phase = .deleting channelId) :
      CallTurn σ c ((σ.withDb (σ.db.deleteChannel channelId) σ.next).endCall c)
  | inserts {position chatId} (h : c.phase = .inserting position chatId)
      (hstorage : σ.db.HasStorage c.storageId)
      (hfree : ∀ ch ∈ σ.db.channels,
        ch.chatId ≠ chatId ∧ ¬(ch.storageId = c.storageId ∧ ch.position = position)) :
      CallTurn σ c ((σ.withDb { σ.db with
        channels := σ.db.channels ++ [⟨σ.next, c.storageId, position, chatId, .active⟩] }
        (σ.next + 1)).nextCall c (.reading σ.next))
  | repoints {channelId chatId} (h : c.phase = .repointing channelId chatId)
      (hfree : ∀ ch ∈ σ.db.channels, ch.id ≠ channelId → ch.chatId ≠ chatId) :
      CallTurn σ c ((σ.withDb (σ.db.updateChannelRow channelId fun ch =>
        { ch with chatId := chatId, status := .active }) σ.next).nextCall c (.reading channelId))
  | readsNone {channelId} (h : c.phase = .reading channelId)
      (hnone : σ.db.chunkIdsOf c.storageId = []) : CallTurn σ c (σ.endCall c)
  | reads {channelId} (h : c.phase = .reading channelId) :
      CallTurn σ c (σ.nextCall c (.queueing channelId (σ.db.chunkIdsOf c.storageId)))
  | queues {channelId chunkIds db' n} (h : c.phase = .queueing channelId chunkIds)
      (hok : σ.db.insertBatch σ.process.maxVariables
        (newPendings σ.next (chunkIds.map fun chunkId => (chunkId, channelId))) = .ok db')
      (hn : n = σ.next +
        (newPendings σ.next (chunkIds.map fun chunkId => (chunkId, channelId))).length) :
      CallTurn σ c ((σ.withDb db' n).endCall c)
  | queueFails {channelId chunkIds e n} (h : c.phase = .queueing channelId chunkIds)
      (herror : σ.db.insertBatch σ.process.maxVariables
        (newPendings σ.next (chunkIds.map fun chunkId => (chunkId, channelId))) = .error e)
      (hn : σ.next ≤ n) : CallTurn σ c ((σ.withDb σ.db n).endCall c)

lemma takeCall_turn (σ : Hub) (c : ChannelCall) : CallTurn σ c (σ.takeCall c) := by
  unfold takeCall
  cases hp : c.phase with
  | counting channel =>
    dsimp only
    split
    · exact .refuses (hp ▸ rfl)
    · case isFalse hmany =>
      exact .counts hp fun hactive => Nat.not_le.mp fun hle => hmany ⟨hactive, hle⟩
  | rotating channel => exact .rotates hp
  | deleting channelId => exact .deletes hp
  | inserting position chatId =>
    dsimp only
    split
    · exact .refuses (hp ▸ rfl)
    · case isFalse hfree =>
      rw [not_or, not_not] at hfree
      exact .inserts hp hfree.1 fun ch hch =>
        ⟨fun hchat => hfree.2 ⟨ch, hch, Or.inl hchat⟩, fun hslot => hfree.2 ⟨ch, hch, Or.inr hslot⟩⟩
  | repointing channelId chatId =>
    dsimp only
    split
    · exact .refuses (hp ▸ rfl)
    · case isFalse hfree =>
      exact .repoints hp fun ch hch hne hchat => hfree (Or.inr ⟨ch, hch, hne, hchat⟩)
  | reading channelId =>
    dsimp only
    split
    · case isTrue hnone => exact .readsNone hp hnone
    · exact .reads hp
  | queueing channelId chunkIds =>
    dsimp only
    split
    · case h_1 db' hok => exact .queues hp hok rfl
    · case h_2 e herror => exact .queueFails hp herror (Nat.le_add_right _ _)

inductive CloneTurn (σ : Hub) (c : Clone) : Hub → Prop where
  | refuses (h : c.phase.mayRefuse = true) : CloneTurn σ c (σ.endClone c)
  | folder {destPath db'} (h : c.phase = .inserting destPath)
      (hok : σ.db.insertClonedFile c.source destPath σ.next = .ok db')
      (hfolder : isFolderPath destPath = true ∨ isFolderPath c.source.path = true) :
      CloneTurn σ c ((σ.withDb db' (σ.next + 1)).endClone c)
  | inserts {destPath db'} (h : c.phase = .inserting destPath)
      (hok : σ.db.insertClonedFile c.source destPath σ.next = .ok db') :
      CloneTurn σ c ((σ.withDb db' (σ.next + 1)).nextClone c (.reading σ.next))
  | reads {fileId} (h : c.phase = .reading fileId) :
      CloneTurn σ c (σ.nextClone c (.chunking fileId
        (σ.db.chunks.filter fun chunk => chunk.fileId = c.source.id)))
  | chunks {fileId chunks db'} (h : c.phase = .chunking fileId chunks)
      (hok : σ.db.createChunksBatch σ.process.maxVariables (newChunks fileId σ.next chunks) = .ok db') :
      CloneTurn σ c ((σ.withDb db' (σ.next + (newChunks fileId σ.next chunks).length)).nextClone c
        (.listing ((chunks.map (·.id)).zip ((newChunks fileId σ.next chunks).map (·.id)))))
  | chunkFails {fileId chunks n} (h : c.phase = .chunking fileId chunks) (hn : σ.next ≤ n) :
      CloneTurn σ c ((σ.withDb σ.db n).endClone c)
  | listsNone {pairs} (h : c.phase = .listing pairs) (hnone : σ.db.listForFile c.source.id = []) :
      CloneTurn σ c (σ.endClone c)
  | lists {pairs} (h : c.phase = .listing pairs) :
      CloneTurn σ c (σ.nextClone c (.filling (copiedReplicas pairs (σ.db.listForFile c.source.id))))
  | fills {replicas db'} (h : c.phase = .filling replicas)
      (hok : σ.db.insertBatch σ.process.maxVariables (renumber σ.next replicas) = .ok db') :
      CloneTurn σ c ((σ.withDb db' (σ.next + replicas.length)).endClone c)
  | fillFails {replicas e n} (h : c.phase = .filling replicas)
      (herror : σ.db.insertBatch σ.process.maxVariables (renumber σ.next replicas) = .error e)
      (hn : σ.next ≤ n) : CloneTurn σ c ((σ.withDb σ.db n).endClone c)

lemma takeClone_turn (σ : Hub) (c : Clone) : CloneTurn σ c (σ.takeClone c) := by
  unfold takeClone
  cases hp : c.phase with
  | inserting destPath =>
    dsimp only
    split
    · exact .refuses (hp ▸ rfl)
    · case h_2 db' hok =>
      split
      · case isTrue hfolder => exact .folder hp hok (Bool.or_eq_true_iff.mp hfolder)
      · exact .inserts hp hok
  | reading fileId =>
    dsimp only
    split
    · exact .refuses (hp ▸ rfl)
    · exact .reads hp
  | chunking fileId chunks =>
    dsimp only
    split
    · exact .chunkFails hp (Nat.le_add_right _ _)
    · case h_2 db' hok => exact .chunks hp hok
  | listing pairs =>
    dsimp only
    split
    · case isTrue hnone => exact .listsNone hp hnone
    · exact .lists hp
  | filling replicas =>
    dsimp only
    split
    · case h_1 db' hok => exact .fills hp hok
    · case h_2 e herror => exact .fillFails hp herror (Nat.le_add_right _ _)

inductive Turn (σ : Hub) : HubStep → Hub → Prop where
  | idle {a} (h : ∀ c, a = .call c → c ∉ σ.calls) : Turn σ a σ
  | serve {s} (h : s.Plain = true) (hup : ∀ order, s ≠ .restart order) :
      Turn σ (.serve s) { σ with process := σ.process.step s }
  | restart {order} : Turn σ (.serve (.restart order))
      { process := σ.process.step (.restart order), calls := [], clones := [], jobs := [], copying := none }
  | addChannel {storageId position chatId}
      (hfree : ∀ ch ∈ σ.db.listByStorage storageId, ch.position ≠ position) :
      Turn σ (.addChannel storageId chatId)
        { σ with calls := ⟨storageId, .inserting position chatId⟩ :: σ.calls }
  | updateChannel {channel chatId} (hchannel : channel ∈ σ.db.channels) :
      Turn σ (.updateChannel channel.storageId channel.id chatId)
        { σ with calls := ⟨channel.storageId, .repointing channel.id chatId⟩ :: σ.calls }
  | removeChannel {channel} (hchannel : channel ∈ σ.db.channels) :
      Turn σ (.removeChannel channel.storageId channel.id)
        { σ with calls := ⟨channel.storageId, .counting channel⟩ :: σ.calls }
  | call {c τ} (hc : c ∈ σ.calls) (h : CallTurn σ c τ) : Turn σ (.call c) τ
  | copyFile {fileId source destPath} (hsource : source ∈ σ.db.files) :
      Turn σ (.copyFile fileId destPath) { σ with clones := ⟨source, .inserting destPath⟩ :: σ.clones }
  | clone {c τ} (hc : c ∈ σ.clones) (h : CloneTurn σ c τ) : Turn σ (.clone c) τ
  | list (hidle : σ.underWay = []) : Turn σ .list { σ with jobs := σ.db.pendingJobs }
  | pick : Turn σ .pick σ.pick
  | copied {c telegramMessageId} (hc : σ.copying = some c) (hmessage : c.telegramMessageId.isSome = true) :
      Turn σ (.copied telegramMessageId) (σ.markUploaded c.job c.telegramFileId telegramMessageId)
  | reuploaded {c telegramFileId telegramMessageId bytes} (hc : σ.copying = some c)
      (hmessage : c.telegramMessageId = none)
      (hfresh : telegramFileId ∉ σ.process.documents.map (·.1))
      (hbytes : σ.process.documentOf c.telegramFileId = some bytes) :
      Turn σ (.reuploaded telegramFileId telegramMessageId)
        { σ.markUploaded c.job telegramFileId telegramMessageId with
          process := { (σ.markUploaded c.job telegramFileId telegramMessageId).process with
            documents := σ.process.documents ++ [(telegramFileId, bytes)] } }
  | refused {c chatDead} (hc : σ.copying = some c) :
      Turn σ (.refused chatDead) (σ.markFailed c.job chatDead)

theorem step_turn (σ : Hub) (a : HubStep) : Turn σ a (σ.step a) := by
  unfold step
  cases a with
  | serve s =>
    dsimp only
    split
    · case isTrue h =>
      cases s with
      | restart order => exact .restart
      | _ => exact .serve h nofun
    · exact .idle nofun
  | addChannel storageId chatId =>
    dsimp only
    split
    · exact .idle nofun
    · case h_2 position hfind => exact .addChannel (by simpa using List.find?_some hfind)
  | updateChannel storageId channelId chatId =>
    dsimp only
    split
    · exact .idle nofun
    · case h_2 channel hfind =>
      split
      · exact .idle nofun
      · case isFalse hstorage =>
        obtain rfl : channel.id = channelId := by simpa using List.find?_some hfind
        obtain rfl := not_not.mp hstorage
        exact .updateChannel (List.mem_of_find?_eq_some hfind)
  | removeChannel storageId channelId =>
    dsimp only
    split
    · exact .idle nofun
    · case h_2 channel hfind =>
      split
      · exact .idle nofun
      · case isFalse hstorage =>
        obtain rfl : channel.id = channelId := by simpa using List.find?_some hfind
        obtain rfl := not_not.mp hstorage
        exact .removeChannel (List.mem_of_find?_eq_some hfind)
  | call c =>
    dsimp only
    split
    · case isTrue hc => exact .call hc (takeCall_turn σ c)
    · case isFalse hno =>
      refine .idle fun d heq => ?_
      cases heq
      exact hno
  | copyFile fileId destPath =>
    dsimp only
    split
    · exact .idle nofun
    · case h_2 source hfind =>
      split
      · exact .copyFile (List.mem_of_find?_eq_some hfind)
      · exact .idle nofun
  | clone c =>
    dsimp only
    split
    · case isTrue hc => exact .clone hc (takeClone_turn σ c)
    · exact .idle nofun
  | list =>
    dsimp only
    split
    · case isTrue hidle => exact .list hidle
    · exact .idle nofun
  | pick => exact .pick
  | copied telegramMessageId =>
    dsimp only
    split
    · exact .idle nofun
    · case h_2 c hc =>
      split
      · case isTrue hmessage => exact .copied hc hmessage
      · exact .idle nofun
  | reuploaded telegramFileId telegramMessageId =>
    dsimp only
    split
    · exact .idle nofun
    · case h_2 c hc =>
      split
      · exact .idle nofun
      · case isFalse hkeys =>
        rw [not_or, Bool.not_eq_true, Option.isSome_eq_false_iff, Option.isNone_iff_eq_none] at hkeys
        split
        · exact .idle nofun
        · case h_2 bytes hbytes => exact .reuploaded hc hkeys.1 hkeys.2 hbytes
  | refused chatDead =>
    dsimp only
    split
    · exact .idle nofun
    · case h_2 c hc => exact .refused hc

end Hub

/-! ## What the statements leave -/

namespace Db

variable {db db' db'' : Db} {n m : Uuid}

/-- Replicas with the ids from `n` on. -/
def IdsFrom : Uuid → List ChunkReplica → Prop
  | _, [] => True
  | n, r :: replicas => r.id = n ∧ IdsFrom (n + 1) replicas

lemma idsFrom_newPendings (n : Uuid) (pairs : List (Uuid × Uuid)) : IdsFrom n (newPendings n pairs) := by
  induction pairs generalizing n with
  | nil => trivial
  | cons pair pairs ih => exact ⟨rfl, ih (n + 1)⟩

lemma idsFrom_renumber (n : Uuid) (replicas : List ChunkReplica) : IdsFrom n (renumber n replicas) := by
  induction replicas generalizing n with
  | nil => trivial
  | cons r replicas ih => exact ⟨rfl, ih (n + 1)⟩

lemma length_renumber (n : Uuid) (replicas : List ChunkReplica) :
    (renumber n replicas).length = replicas.length := by
  induction replicas generalizing n with
  | nil => rfl
  | cons r replicas ih => exact congrArg (· + 1) (ih (n + 1))

/-- Only some of the replicas separate the two databases, and each has its row. -/
structure Filled (replicas : List ChunkReplica) (db db' : Db) : Prop where
  files : db'.files = db.files
  chunks : db'.chunks = db.chunks
  channels : db'.channels = db.channels
  storages : db'.storages = db.storages
  kept : ∀ r ∈ db.replicas, r ∈ db'.replicas
  new : ∀ r ∈ db'.replicas, r ∈ db.replicas ∨ r ∈ replicas
  covered : ∀ r ∈ replicas, ∃ q ∈ db'.replicas, q.chunkId = r.chunkId ∧ q.channelId = r.channelId

lemma filled_insertReplica (h : db.Intact n) {r : ChunkReplica} (hid : r.id = n)
    (hok : db.insertReplica r = .ok db') : db'.Intact (n + 1) ∧ Filled [r] db db' := by
  refine ⟨(h.mono (Nat.le_succ n)).insertReplica_of_lt (hid ▸ Nat.lt_succ_self n) hok, ?_⟩
  unfold insertReplica at hok
  split at hok
  · case isTrue hdup =>
    cases hok
    refine ⟨rfl, rfl, rfl, rfl, fun q hq => hq, fun q hq => Or.inl hq, fun q hq => ?_⟩
    obtain ⟨q', hq', hdup⟩ := hdup
    rw [List.mem_singleton.mp hq]
    rcases hdup with hdup | hpair
    · exact absurd (hdup.trans hid) (h.replicaBelow q' hq').ne
    · exact ⟨q', hq', hpair⟩
  · split at hok
    · cases hok
    · cases hok
      refine ⟨rfl, rfl, rfl, rfl, fun q hq => List.mem_append_left _ hq,
        fun q hq => List.mem_append.mp hq, fun q hq => ?_⟩
      exact ⟨q, List.mem_append_right _ hq, rfl, rfl⟩

lemma filled_insertReplicas {replicas : List ChunkReplica} (h : db.Intact n)
    (hids : IdsFrom n replicas) (hok : db.insertReplicas replicas = .ok db') :
    db'.Intact (n + replicas.length) ∧ Filled replicas db db' := by
  induction replicas generalizing n db with
  | nil =>
    cases hok
    exact ⟨h, rfl, rfl, rfl, rfl, fun r hr => hr, fun r hr => Or.inl hr,
      fun r hr => absurd hr List.not_mem_nil⟩
  | cons r replicas ih =>
    unfold Db.insertReplicas at hok
    split at hok
    · case h_1 db₁ hone =>
      obtain ⟨hint₁, hf₁⟩ := filled_insertReplica h hids.1 hone
      obtain ⟨hint, hf⟩ := ih hint₁ hids.2 hok
      refine ⟨hint.mono (Nat.le_of_eq ?_), hf.files.trans hf₁.files, hf.chunks.trans hf₁.chunks,
        hf.channels.trans hf₁.channels, hf.storages.trans hf₁.storages,
        fun q hq => hf.kept q (hf₁.kept q hq), ?_, ?_⟩
      · rw [List.length_cons, Nat.add_right_comm, Nat.add_assoc]
      · intro q hq
        rcases hf.new q hq with hq | hq
        · rcases hf₁.new q hq with hq | hq
          · exact Or.inl hq
          · exact Or.inr (List.mem_cons.mpr (Or.inl (List.mem_singleton.mp hq)))
        · exact Or.inr (List.mem_cons_of_mem r hq)
      · intro q hq
        cases List.mem_cons.mp hq with
        | inl hq =>
          obtain ⟨q', hq', hpair⟩ := hf₁.covered r List.mem_cons_self
          exact ⟨q', hf.kept q' hq', hq ▸ hpair⟩
        | inr hq => exact hf.covered q hq
    · cases hok

lemma filled_insertBatch {maxVariables : Nat} {replicas : List ChunkReplica} (h : db.Intact n)
    (hids : IdsFrom n replicas) (hok : db.insertBatch maxVariables replicas = .ok db') :
    db'.Intact (n + replicas.length) ∧ Filled replicas db db' := by
  unfold Db.insertBatch at hok
  split at hok
  · case isTrue hnil =>
    cases hok
    subst hnil
    exact ⟨h, rfl, rfl, rfl, rfl, fun r hr => hr, fun r hr => Or.inl hr,
      fun r hr => absurd hr List.not_mem_nil⟩
  · split at hok
    · cases hok
    · exact filled_insertReplicas h hids hok

lemma insertReplicas_total {replicas : List ChunkReplica}
    (hkeys : ∀ r ∈ replicas, (∃ c ∈ db.chunks, c.id = r.chunkId) ∧ ∃ ch ∈ db.channels, ch.id = r.channelId) :
    ∃ db', db.insertReplicas replicas = .ok db' := by
  induction replicas generalizing db with
  | nil => exact ⟨db, rfl⟩
  | cons r replicas ih =>
    obtain ⟨⟨hchunk, hchannel⟩, hrest⟩ := List.forall_mem_cons.mp hkeys
    obtain ⟨db₁, hone, hchunks, hchannels⟩ : ∃ db₁, db.insertReplica r = .ok db₁ ∧
        db₁.chunks = db.chunks ∧ db₁.channels = db.channels := by
      unfold insertReplica
      split
      · exact ⟨db, rfl, rfl, rfl⟩
      · have hfound : (db.channelById r.channelId).isNone = false := by
          rw [Option.isNone_eq_false_iff, channelById, List.find?_isSome]
          obtain ⟨ch, hch, hid⟩ := hchannel
          exact ⟨ch, hch, decide_eq_true hid⟩
        rw [if_neg]
        · exact ⟨_, rfl, rfl, rfl⟩
        · rw [hfound, not_or, not_forall]
          obtain ⟨c, hc, hid⟩ := hchunk
          exact ⟨⟨c, fun hne => hne hc hid⟩, Bool.false_ne_true⟩
    obtain ⟨db', hok⟩ : ∃ db', db₁.insertReplicas replicas = .ok db' := by
      apply ih
      rw [hchunks, hchannels]
      exact hrest
    exact ⟨db', by rw [Db.insertReplicas, hone]; exact hok⟩

end Db

end Sarca.Server
