import Sarca.Server.CatchUp
import Sarca.Server.StoragePurge

/-!
# What the server put into the chats

`Ledger` is a hub with a history: the messages the server put into each chat with their bytes (`posts`), the
bytes of each chunk (`contents`), and the chunks that a catch-up has queued for a channel (`queued`). The
history decides nothing; it is there to say what the replica rows mean. Telegram gives every message of a
chat an id of its own, so a step that would use one again does not happen.

`Truthful` is what the rows are to mean, and `Faithful` what the statements do not look at: that the channel
they write to still points at the chat the bytes went to.
-/

namespace Sarca.Server
open Sarca.Lib

/-- A message the server put into a chat. Old rows may not know its id. -/
structure Post where
  chatId : Int
  telegramMessageId : Option Int
  bytes : Bytes
deriving DecidableEq

structure Ledger where
  hub : Hub
  posts : List Post
  contents : Uuid → Bytes
  queued : List (Uuid × Uuid)

/-- The channel that a relay sends the chunk at a position to, and the bytes. -/
def Process.sendTo (σ : Process) (number position : Nat) : Option (StorageChannel × Bytes) :=
  match σ.upload? number with
  | none => none
  | some u => match u.phase with
    | .sending _ channels plan _ =>
      match plan.find? (fun slice => slice.1 = position), channels[position % channels.length]? with
      | some (_, offset, len), some target => some (target, (u.request.body.drop offset).take len)
      | _, _ => none
    | _ => none

/-- The replica says that its bytes are in a chat. -/
def ChunkReplica.Speaks (r : ChunkReplica) : Prop :=
  r.status = .uploaded ∨ r.telegramMessageId.isSome = true

instance (r : ChunkReplica) : Decidable r.Speaks :=
  inferInstanceAs (Decidable (_ ∨ _))

/-- The replicas that a copy of a file has read and not written. -/
def ClonePhase.rows : ClonePhase → List ChunkReplica
  | .filling replicas => replicas
  | _ => []

/-- Rust `list_telegram_messages_for_files`. -/
def Db.listTelegramMessagesForFiles (db : Db) (fileIds : List Uuid) : List (Int × Int × Uuid) :=
  (db.replicas.flatMap fun r =>
    if ∃ c ∈ db.chunks, c.id = r.chunkId ∧ c.fileId ∈ fileIds then
      (db.channels.filter fun ch => ch.id = r.channelId).flatMap fun ch =>
        r.telegramMessageId.toList.map fun messageId => (ch.chatId, messageId, ch.storageId)
    else []).dedup

namespace Ledger

def db (Λ : Ledger) : Db :=
  Λ.hub.db

def next (Λ : Ledger) : Uuid :=
  Λ.hub.next

/-- The message that a step puts into a chat. `copyMessage` repeats the message it names. -/
def post (Λ : Ledger) : HubStep → Option Post
  | .serve (.act number (.send position telegramFileId telegramMessageId)) =>
    if telegramFileId ∈ Λ.hub.process.documents.map (·.1) then none
    else (Λ.hub.process.sendTo number position).map fun sent =>
      ⟨sent.1.chatId, some telegramMessageId, sent.2⟩
  | .copied telegramMessageId => Λ.hub.copying.bind fun c =>
    if c.telegramMessageId.isSome then
      (Λ.posts.find? fun p => p.chatId = c.chatId ∧ p.telegramMessageId = c.telegramMessageId).map fun p =>
        ⟨c.job.chatId, some telegramMessageId, p.bytes⟩
    else none
  | .reuploaded telegramFileId telegramMessageId => Λ.hub.copying.bind fun c =>
    if c.telegramMessageId.isSome ∨ telegramFileId ∈ Λ.hub.process.documents.map (·.1) then none
    else (Λ.hub.process.documentOf c.telegramFileId).map fun bytes =>
      ⟨c.job.chatId, some telegramMessageId, bytes⟩
  | _ => none

/-- The message has an id that the chat has given out. -/
def Taken (Λ : Ledger) (a : HubStep) : Prop :=
  ∃ post ∈ Λ.post a, ∃ p ∈ Λ.posts, p.chatId = post.chatId ∧ p.telegramMessageId = post.telegramMessageId

instance (Λ : Ledger) (a : HubStep) : Decidable (Λ.Taken a) :=
  inferInstanceAs (Decidable (∃ post ∈ Λ.post a, _))

/-- The bytes of the chunks behind a step: those of a new chunk are the ones it was sent with, or those of
    the chunk it was made of. -/
def contentsAfter (Λ : Ledger) : HubStep → Uuid → Bytes
  | .serve (.act number (.send position _ _)), id =>
    match Λ.hub.process.sendTo number position with
    | some (_, bytes) => if id = Λ.next then bytes else Λ.contents id
    | none => Λ.contents id
  | .clone c, id =>
    match c.phase with
    | .chunking fileId chunks =>
      match (((newChunks fileId Λ.next chunks).map (·.id)).zip (chunks.map (·.id))).lookup id with
      | some source => Λ.contents source
      | none => Λ.contents id
    | _ => Λ.contents id
  | _, id => Λ.contents id

/-- The channel and the chunks that a catch-up has dealt with. -/
def queuedBy (Λ : Ledger) : HubStep → List (Uuid × Uuid)
  | .call c =>
    match c.phase with
    | .queueing channelId chunkIds =>
      if c ∈ Λ.hub.calls then chunkIds.map fun chunkId => (channelId, chunkId) else []
    | _ => []
  | _ => []

def after (Λ : Ledger) (a : HubStep) (τ : Hub) : Ledger where
  hub := τ
  posts := Λ.posts ++ (Λ.post a).toList
  contents := Λ.contentsAfter a
  queued := Λ.queued ++ Λ.queuedBy a

def step (Λ : Ledger) (a : HubStep) : Ledger :=
  if Λ.Taken a then Λ else Λ.after a (Λ.hub.step a)

/-! ## What the rows are to mean -/

/-- The server put the bytes of the chunk as this message into the chat. -/
def Put (Λ : Ledger) (chatId : Int) (telegramMessageId : Option Int) (chunkId : Uuid) : Prop :=
  ⟨chatId, telegramMessageId, Λ.contents chunkId⟩ ∈ Λ.posts

instance (Λ : Ledger) (chatId : Int) (telegramMessageId : Option Int) (chunkId : Uuid) :
    Decidable (Λ.Put chatId telegramMessageId chunkId) :=
  inferInstanceAs (Decidable (_ ∈ _))

/-- An uploaded row with a message id names a message that the server put into the chat of its channel. -/
def RowsTrue (Λ : Ledger) : Prop :=
  ∀ r ∈ Λ.db.replicas, r.status = .uploaded → ∀ messageId ∈ r.telegramMessageId, ∀ ch ∈ Λ.db.channels,
    ch.id = r.channelId → Λ.Put ch.chatId (some messageId) r.chunkId

instance (Λ : Ledger) : Decidable Λ.RowsTrue :=
  inferInstanceAs (Decidable (∀ r ∈ Λ.db.replicas, _))

structure Truthful (Λ : Ledger) : Prop where
  rows : Λ.RowsTrue
  /-- a purge of files addresses messages of their chunks, in the chats they were put into -/
  files : ∀ fileIds, ∀ m ∈ Λ.db.listTelegramMessagesForFiles fileIds,
    ∃ c ∈ Λ.db.chunks, c.fileId ∈ fileIds ∧ Λ.Put m.1 (some m.2.1) c.id
  /-- so does the deletion of a storage -/
  storage : ∀ storageId, ∀ m ∈ Λ.db.listTelegramMessagesForStorage storageId,
    ∃ c ∈ Λ.db.chunks, Λ.Put m.1 (some m.2) c.id
  /-- a chunk that was queued for a channel waits for its copy, or is in the channel's chat -/
  queued : ∀ e ∈ Λ.queued, (∃ c ∈ Λ.db.chunks, c.id = e.2) → ∀ ch ∈ Λ.db.channels, ch.id = e.1 →
    ∃ r ∈ Λ.db.replicas, r.chunkId = e.2 ∧ r.channelId = ch.id ∧
      (r.status = .uploaded → Λ.Put ch.chatId r.telegramMessageId e.2)

/-! ## What the statements do not look at -/

/-- No row on the channel says that its bytes are in a chat, nor does one that a copy of a file has read. -/
def Silent (Λ : Ledger) (channelId : Uuid) : Prop :=
  (∀ r ∈ Λ.db.replicas, r.channelId = channelId → ¬r.Speaks) ∧
    ∀ c ∈ Λ.hub.clones, ∀ r ∈ c.phase.rows, r.channelId = channelId → ¬r.Speaks

instance (Λ : Ledger) (channelId : Uuid) : Decidable (Λ.Silent channelId) :=
  inferInstanceAs (Decidable (_ ∧ _))

/-- What a statement of a call needs to leave the rows true. -/
def FaithfulCall (Λ : Ledger) : CallPhase → Prop
  | .repointing channelId chatId => (∃ ch ∈ Λ.db.channels, ch.id ≠ channelId ∧ ch.chatId = chatId) ∨
    (∀ ch ∈ Λ.db.channels, ch.id = channelId → ch.chatId = chatId) ∨ Λ.Silent channelId
  | .queueing channelId chunkIds => Λ.db.Takes Λ.hub.process.maxVariables
    (newPendings Λ.next (chunkIds.map fun chunkId => (chunkId, channelId)))
  | _ => True

instance (Λ : Ledger) : DecidablePred Λ.FaithfulCall
  | .repointing _ _ => inferInstanceAs (Decidable (_ ∨ _))
  | .queueing _ _ => inferInstanceAs (Decidable (Λ.db.Takes _ _))
  | .counting _ | .rotating _ | .deleting _ | .inserting _ _ | .reading _ => isTrue trivial

end Ledger

def Faithful (Λ : Ledger) : HubStep → Prop
  | .serve (.act number (.send position _ _)) => ∀ sent ∈ Λ.hub.process.sendTo number position,
    ∀ ch ∈ Λ.db.channels, ch.id = sent.1.id → ch.chatId = sent.1.chatId
  | .copied _ | .reuploaded _ _ => ∀ c ∈ Λ.hub.copying, ∀ ch ∈ Λ.db.channels,
    ch.id = c.job.row.channelId → ch.chatId = c.job.chatId
  | .call c => c ∈ Λ.hub.calls → Λ.FaithfulCall c.phase
  | _ => True

end Sarca.Server
