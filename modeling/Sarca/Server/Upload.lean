import Sarca.Lib.Text
import Sarca.Server.Chunks

/-!
# The upload requests of a server

A server process with its database, the upload requests it is working on and the documents Telegram
keeps for it. `Process.step` is one statement or transaction of one request, an edit of the channels, a
turn of the replicator, or a crash with the start after it, in any order:

* `Process.look` … `Process.create` are `upload_anyway_from_path_with_progress`, cut where it awaits;
* `Process.begin`, `Process.mark` (its second turn), `Process.count` and `Process.drop` are
  `upload_from_path`;
* `Process.plan`, `Process.send`, `Process.link` and `Process.mark` are `StorageManagerService::upload`;
* `Process.restart` ends every request and runs `purge_interrupted_uploads`.

Derived pictures are left out: their failures are logged and they write columns of their own.
`Moves` says once what a turn of a request can do, and the proofs about runs go by its cases.
-/

namespace Sarca.Server
open Sarca.Lib

/-! ## Names -/

/-- The name up to its first dot behind the first character, and the rest. -/
def splitStem : Path → Path × Path
  | [] => ([], [])
  | c :: rest => (c :: rest.takeWhile (· ≠ '.'), rest.dropWhile (· ≠ '.'))

/-- Where a displaced version goes in the trash; `stamp` is the formatted time
    (Rust `retired_version_path`). -/
def retiredVersionPath (path stamp : Path) : Path :=
  let (folder, name) := (rsplitOnce '/' path).getD ([], path)
  let (stem, suffix) := splitStem name
  let marked := stem ++ " (replaced ".toList ++ stamp ++ [')'] ++ suffix
  if folder = [] then marked else folder ++ '/' :: marked

/-- The path before the first dot of its last component, and the rest. -/
def stemAndSuffix (path : Path) : Path × Path :=
  match rsplitOnce '/' path with
  | some (folder, name) => (folder ++ '/' :: name.takeWhile (· ≠ '.'), name.dropWhile (· ≠ '.'))
  | none => (path.takeWhile (· ≠ '.'), path.dropWhile (· ≠ '.'))

/-- The number in `stem (number)suffix`, as its digits. -/
def duplicateDigits (stem suffix path : Path) : Option Path :=
  let before := stem ++ " (".toList
  let after := ')' :: suffix
  let digits := (path.drop before.length).take (path.length - before.length - after.length)
  if path = before ++ digits ++ after ∧ digits ≠ [] ∧ digits.all Char.isDigit then some digits
  else none

/-- `str::parse::<i64>` of digits, when it is positive. -/
def parseIndex (digits : Path) : Option Nat :=
  let n := digits.foldl (fun n c => 10 * n + (c.toNat - '0'.toNat)) 0
  if 0 < n ∧ n ≤ 9223372036854775807 then some n else none

/-- The first number that the sorted ones leave out, after `prev`. -/
def firstGap (prev : Nat) : List Nat → Nat
  | [] => prev + 1
  | index :: rest => if prev + 1 ≠ index then prev + 1 else firstGap index rest

/-- `{stem} ({n}){suffix}` -/
def numbered (stem suffix : Path) (n : Nat) : Path :=
  stem ++ " (".toList ++ (toString n).toList ++ ')' :: suffix

/-- A free name among the existing ones (Rust `pick_duplicate_path`). -/
def pickDuplicatePath (stem suffix : Path) (existing : List Path) : Path :=
  let base := stem ++ suffix
  if base ∉ existing then base
  else if existing.length = 1 then numbered stem suffix 1
  else
    let indices := (existing.filter (· ≠ base)).filterMap fun path =>
      (duplicateDigits stem suffix path).bind parseIndex
    numbered stem suffix (firstGap 0 (indices.insertionSort (· ≤ ·)))

/-- The path at which `create_file_anyway` inserts a file. -/
def Db.anywayPath (db : Db) (storageId : Uuid) (path : Path) : Path :=
  let (stem, suffix) := stemAndSuffix path
  let candidates := (db.files.filter fun r => r.storageId = storageId ∧ r.Live).map (·.path)
  pickDuplicatePath stem suffix (candidates.filter fun candidate =>
    candidate = stem ++ suffix ∨ (duplicateDigits stem suffix candidate).isSome)

/-! ## Requests -/

/-- An upload request as the router hands it on: the spooled bytes, and the content hash the client
    sent or `hash_spooled_upload` computed. `construct_path` makes no folder path, and
    `default_chunk_size_bytes` is positive. -/
structure UploadRequest where
  storageId : Uuid
  path : Path
  body : Bytes
  chunkSize : Nat
  sourceCreatedAt : Option Instant
  sourceMtime : Option Instant
  contentHash : Option ContentHash
  replace : Bool
  isFile : isFolderPath path = false
  chunkSize_pos : 0 < chunkSize

/-- The `InFile` of a request. -/
def UploadRequest.inFile (r : UploadRequest) : InFile where
  path := r.path
  size := r.body.length
  storageId := r.storageId
  chunkSizeBytes := some r.chunkSize
  sourceCreatedAt := r.sourceCreatedAt
  sourceMtime := r.sourceMtime
  contentHash := r.contentHash

/-- Where a request stands, with the rows it read on the way. -/
inductive Phase where
  /-- about to look for an earlier attempt at the same bytes -/
  | looking
  /-- waiting for the relay of the row to end -/
  | waiting (existing : FileRow)
  /-- about to purge an abandoned row -/
  | purging (existing : FileRow)
  /-- about to look for a version to replace -/
  | settling
  /-- about to replace the version it found -/
  | replacing (existing : FileRow)
  /-- about to insert a row -/
  | creating
  /-- about to enter `upload_from_path` -/
  | starting (file : FileRow)
  /-- with the storage manager -/
  | queued (file : FileRow)
  /-- sending the chunks of the plan -/
  | sending (file : FileRow) (channels : List StorageChannel) (plan : List ChunkSlice)
      (chunkIds : List Uuid)
  /-- about to set the row uploaded, in the manager or `again` in `upload_from_path` -/
  | marking (file : FileRow) (again : Bool)
  /-- the relay ended with an error -/
  | failing (file : FileRow) (error : SarcaError)
  /-- about to purge the row of a relay that stored nothing -/
  | dropping (file : FileRow) (error : SarcaError)
  | answered (result : Except SarcaError Unit)

def Phase.relays : Phase → Option Uuid
  | .queued file | .sending file _ _ _ | .marking file _ | .failing file _ | .dropping file _ =>
    some file.id
  | _ => none

/-- The storage manager has the relay of the request, and goes on without the request's task. -/
def Phase.goesOn (handed : Bool) : Phase → Bool
  | .queued _ => handed
  | .sending _ _ _ _ | .marking _ false => true
  | _ => false

/-- One request under way. When its task is `gone`, a relay it handed to the storage manager goes on
    alone. -/
structure Upload where
  number : Nat
  request : UploadRequest
  phase : Phase
  gone : Bool

/-- Where a request stands, as far as anybody carries it on: behind the storage manager a task that is
    gone does nothing more. -/
def Upload.standing (u : Upload) : Phase :=
  match u.phase with
  | .marking _ true | .failing _ _ | .dropping _ _ =>
    if u.gone then .answered (.error .unknown) else u.phase
  | phase => phase

/-- A running server. `documents` are what Telegram keeps, by `telegram_file_id`; `inFlight` are the
    keys of `RELAYS_IN_FLIGHT`. -/
structure Process where
  db : Db
  uploads : List Upload
  documents : List (String × Bytes)
  inFlight : List Uuid
  next : Uuid
  maxVariables : Nat

/-- What a turn of a request leaves: its new phase, and what it wrote. -/
structure Outcome where
  phase : Phase
  db : Db
  documents : List (String × Bytes)
  next : Uuid

/-- Whether an unfinished row can be handed to a fresh attempt (Rust `resumable`). -/
def resumable (existing : FileRow) (incomingSize : Int) : Prop :=
  existing.isUploaded = false ∧ existing.deletedAt = none ∧ isFolderPath existing.path = false ∧
    existing.size = incomingSize ∧ ∃ n ∈ existing.chunkSizeBytes, 0 < n

instance (existing : FileRow) (incomingSize : Int) : Decidable (resumable existing incomingSize) :=
  inferInstanceAs (Decidable (_ ∧ _))

namespace Process

/-- A relay of the row is marked (Rust `relay_in_flight`). -/
def RelayInFlight (σ : Process) (fileId : Uuid) : Prop :=
  fileId ∈ σ.inFlight

instance (σ : Process) (fileId : Uuid) : Decidable (σ.RelayInFlight fileId) :=
  inferInstanceAs (Decidable (fileId ∈ σ.inFlight))

/-- A relay of the row is under way, marked or not. -/
def RelayRuns (σ : Process) (fileId : Uuid) : Prop :=
  ∃ u ∈ σ.uploads, u.standing.relays = some fileId

instance (σ : Process) (fileId : Uuid) : Decidable (σ.RelayRuns fileId) :=
  inferInstanceAs (Decidable (∃ u ∈ σ.uploads, u.standing.relays = some fileId))

def turn (σ : Process) (phase : Phase) : Outcome :=
  ⟨phase, σ.db, σ.documents, σ.next⟩

def resume (r : UploadRequest) (existing : FileRow) : Phase :=
  if resumable existing r.inFile.size then .starting existing else .purging existing

/-- Look for an earlier attempt at the same bytes. -/
def look (σ : Process) (r : UploadRequest) : Phase :=
  match r.contentHash, σ.db.liveAt r.storageId r.path with
  | some hash, some existing =>
    if existing.contentHash = some hash then
      if existing.isUploaded then .answered (.ok ())
      else if σ.RelayInFlight existing.id then .waiting existing
      else resume r existing
    else .settling
  | _, _ => .settling

/-- The relay that was waited for has ended, or the wait has. -/
def awake (σ : Process) (r : UploadRequest) (existing : FileRow) (timedOut : Bool) : Phase :=
  if σ.RelayInFlight existing.id then
    if timedOut then .answered (.error .uploadAlreadyInProgress) else .waiting existing
  else
    match σ.db.fileById existing.id with
    | some file => if file.isUploaded then .answered (.ok ()) else resume r existing
    | none => resume r existing

/-- `purge_file_ids` of one row; its failure is only logged. -/
def purge (σ : Process) (fileId : Uuid) (purged : Bool) (phase : Phase) : Outcome :=
  { σ.turn phase with db := if purged then σ.db.hardDeleteIds [fileId] [] else σ.db }

def settle (σ : Process) (r : UploadRequest) : Phase :=
  if r.replace then
    match σ.db.liveAt r.storageId r.path with
    | some existing =>
      if σ.RelayInFlight existing.id then .answered (.error .uploadAlreadyInProgress)
      else .replacing existing
    | none => .creating
  else .creating

/-- `replace_content` of the version that was found. -/
def replace (σ : Process) (r : UploadRequest) (existing : FileRow) (now : Instant) (stamp : Path) :
    Outcome :=
  match σ.db.replaceContent existing.id existing.contentHash
      (retiredVersionPath existing.path stamp) r.inFile σ.next now with
  | .error e => σ.turn (.answered (.error e))
  | .ok db' =>
    match db'.fileById existing.id with
    | none => σ.turn (.answered (.error .unknown))
    | some file => ⟨.starting file, db', σ.documents, σ.next + 1⟩

/-- `create_file_anyway` -/
def create (σ : Process) (r : UploadRequest) : Outcome :=
  let inObj := { r.inFile with path := σ.db.anywayPath r.storageId r.path }
  match σ.db.createFileRow inObj false σ.next with
  | .error e => σ.turn (.answered (.error e))
  | .ok db' => ⟨.starting (inObj.toRow σ.next false), db', σ.documents, σ.next + 1⟩

def begin (file : FileRow) : Phase :=
  if ∃ n ∈ file.chunkSizeBytes, 0 < n then .queued file else .answered (.error .unknown)

/-- The channels in the order in which chunks are dealt to them. -/
def uploadChannels (primary : StorageChannel) (active : List StorageChannel) :
    List StorageChannel :=
  primary :: active.filter fun c => c.id ≠ primary.id

lemma mem_uploadChannels {primary ch : StorageChannel} {active : List StorageChannel}
    (hprimary : primary ∈ active) (h : ch ∈ uploadChannels primary active) : ch ∈ active := by
  cases List.mem_cons.mp h with
  | inl h => exact h ▸ hprimary
  | inr h => exact List.mem_of_mem_filter h

/-- `chunk_size` of `UploadFileData`. -/
def chunkSizeOf (file : FileRow) : Nat :=
  (file.chunkSizeBytes.getD 0).toNat

/-- The storage manager picks channels and plans what is missing. -/
def plan (σ : Process) (r : UploadRequest) (file : FileRow) : Outcome :=
  match (σ.db.fileById file.id).bind fun f => σ.db.storages.find? fun s => s.id = f.storageId with
  | none => σ.turn (.failing file (.doesNotExist "storage"))
  | some storage =>
    match σ.db.resolvePrimaryChannel storage with
    | .error e => σ.turn (.failing file e)
    | .ok (primary, active, db') =>
      let stored := db'.listStoredChunkPositions file.id
      let storedPositions := stored.map fun s => s.1.toNat
      { σ.turn (.sending file (uploadChannels primary active)
          (remainingChunkPlan r.body.length (chunkSizeOf file) storedPositions).1
          (stored.map fun s => s.2)) with db := db' }

/-- Telegram accepts the chunk at a position (Rust `upload_chunk_from_file`). It gives every document
    an id of its own. -/
def send (σ : Process) (r : UploadRequest) (file : FileRow) (channels : List StorageChannel)
    (plan : List ChunkSlice) (chunkIds : List Uuid) (position : Nat) (telegramFileId : String)
    (messageId : Int) : Option Outcome :=
  match plan.find? (fun slice => slice.1 = position),
      channels[position % channels.length]? with
  | some (_, offset, len), some target =>
    if telegramFileId ∈ σ.documents.map (·.1) then none
    else
      let documents := σ.documents ++ [(telegramFileId, (r.body.drop offset).take len)]
      match σ.db.createChunkWithReplica ⟨σ.next, file.id, toPosition position⟩
          (.newUploaded (σ.next + 1) σ.next target.id telegramFileId messageId) with
      | .error e => some ⟨.failing file e, σ.db, documents, σ.next + 2⟩
      | .ok db' =>
        some ⟨.sending file channels (plan.filter fun slice => slice.1 ≠ position)
          (chunkIds ++ [σ.next]), db', documents, σ.next + 2⟩
  | _, _ => none

/-- Ask for a copy of each chunk on every channel, once the plan is through. -/
def link (σ : Process) (file : FileRow) (channels : List StorageChannel) (chunkIds : List Uuid) :
    Outcome :=
  let replicas := newPendings σ.next
    (chunkIds.flatMap fun chunkId => channels.map fun channel => (chunkId, channel.id))
  match σ.db.insertBatch σ.maxVariables replicas with
  | .error e => ⟨.failing file e, σ.db, σ.documents, σ.next + replicas.length⟩
  | .ok db' => ⟨.marking file false, db', σ.documents, σ.next + replicas.length⟩

/-- `set_as_uploaded`, in the manager and again in `upload_from_path`. -/
def mark (σ : Process) (file : FileRow) (again : Bool) : Outcome :=
  match σ.db.setAsUploaded file.id with
  | .error e => σ.turn (.failing file e)
  | .ok db' => { σ.turn (if again then .answered (.ok ()) else .marking file true) with db := db' }

/-- Count what the failed relay stored; an unreadable count is taken for one. -/
def count (σ : Process) (file : FileRow) (error : SarcaError) (readable : Bool) : Phase :=
  if readable ∧ σ.db.listStoredChunkPositions file.id = [] then .dropping file error
  else .answered (.error error)

end Process

lemma Upload.standing_cases (u : Upload) :
    u.standing = u.phase ∨ u.standing = .answered (.error .unknown) := by
  unfold standing
  split
  all_goals first | exact Or.inl rfl | (split <;> simp)

/-! ## Steps -/

inductive Act where
  | look
  | awake (timedOut : Bool)
  | purge (purged : Bool)
  | settle
  | replace (now : Instant) (stamp : Path)
  | create
  | begin
  | plan
  | send (position : Nat) (telegramFileId : String) (messageId : Int)
  /-- Telegram refuses a chunk or the process cannot send it -/
  | sendFails (error : SarcaError)
  | link
  | mark
  | count (readable : Bool)
  | drop (purged : Bool)

/-- An edit of the channels and bots, or a turn of the replicator. -/
inductive Edit where
  | addChannel (storageId : Uuid) (chatId : Int)
  | updateChannel (storageId channelId : Uuid) (chatId : Int)
  | removeChannel (storageId channelId : Uuid)
  | channelDied (channelId : Uuid)
  | setWorkers (workers : List StorageWorker)
  | retryFailed (storageId : Uuid)
  /-- the replicator's copy failed -/
  | copyFailed (job : ChunkReplica)
  /-- `copyMessage` put the source's document into the job's channel -/
  | copied (job source : ChunkReplica) (messageId : Int)
  /-- the source was downloaded and sent as a document of its own -/
  | reuploaded (job source : ChunkReplica) (telegramFileId : String) (messageId : Int)

inductive Step where
  | arrive (number : Nat) (request : UploadRequest)
  | act (number : Nat) (a : Act)
  /-- the client is gone before it heard `spooled`, and the request's task is aborted, maybe before a
  queued relay was handed over -/
  | disconnect (number : Nat) (handed : Bool)
  | edit (e : Edit)
  | restart (order : List Uuid)

namespace Process

/-- The turn a request takes, if it stands where the turn belongs. What comes behind the storage manager
    is the task's own, and is not done when the task is gone. -/
def act (σ : Process) (u : Upload) : Act → Option Outcome
  | .look => match u.phase with
    | .looking => some (σ.turn (σ.look u.request))
    | _ => none
  | .awake timedOut => match u.phase with
    | .waiting existing => some (σ.turn (σ.awake u.request existing timedOut))
    | _ => none
  | .purge purged => match u.phase with
    | .purging existing => some (σ.purge existing.id purged .settling)
    | _ => none
  | .settle => match u.phase with
    | .settling => some (σ.turn (σ.settle u.request))
    | _ => none
  | .replace now stamp => match u.phase with
    | .replacing existing => some (σ.replace u.request existing now stamp)
    | _ => none
  | .create => match u.phase with
    | .creating => some (σ.create u.request)
    | _ => none
  | .begin => match u.phase with
    | .starting file => some (σ.turn (begin file))
    | _ => none
  | .plan => match u.phase with
    | .queued file => some (σ.plan u.request file)
    | _ => none
  | .send position telegramFileId messageId => match u.phase with
    | .sending file channels plan chunkIds =>
      σ.send u.request file channels plan chunkIds position telegramFileId messageId
    | _ => none
  | .sendFails error => match u.phase with
    | .sending file _ _ _ => some (σ.turn (.failing file error))
    | _ => none
  | .link => match u.phase with
    | .sending file channels [] chunkIds => some (σ.link file channels chunkIds)
    | _ => none
  | .mark => match u.phase with
    | .marking file again => if again ∧ u.gone then none else some (σ.mark file again)
    | _ => none
  | .count readable => match u.phase with
    | .failing file error => if u.gone then none else some (σ.turn (σ.count file error readable))
    | _ => none
  | .drop purged => match u.phase with
    | .dropping file error =>
      if u.gone then none else some (σ.purge file.id purged (.answered (.error error)))
    | _ => none

def upload? (σ : Process) (number : Nat) : Option Upload :=
  σ.uploads.find? fun u => u.number = number

/-- The marks after a turn: `RelayGuard` marks the row on the way in, and takes the mark off when the
    request ends. -/
def remark (inFlight : List Uuid) (u : Upload) (phase : Phase) : List Uuid :=
  match u.phase, phase.relays with
  | .starting file, some _ => file.id :: inFlight.filter (· ≠ file.id)
  | .starting file, none => inFlight.filter (· ≠ file.id)
  | _, some _ => inFlight
  | before, none => match before.relays with
    | some fileId => if u.gone then inFlight else inFlight.filter (· ≠ fileId)
    | none => inFlight

def commit (σ : Process) (number : Nat) (o : Outcome) : Process :=
  { σ with
    db := o.db
    documents := o.documents
    inFlight := match σ.upload? number with
      | some u => remark σ.inFlight u o.phase
      | none => σ.inFlight
    next := o.next
    uploads := σ.uploads.map fun u => if u.number = number then { u with phase := o.phase } else u }

/-- The task of a request is aborted. Its guard is dropped; a relay that the storage manager has goes
    on. -/
def disconnect (σ : Process) (number : Nat) (handed : Bool) : Process :=
  match σ.upload? number with
  | none => σ
  | some u =>
    if u.gone then σ
    else
      { σ with
        inFlight := match u.phase.relays with
          | some fileId => σ.inFlight.filter (· ≠ fileId)
          | none => σ.inFlight
        uploads := σ.uploads.map fun v =>
          if v.number = number then
            { v with
              gone := true
              phase := if v.phase.goesOn handed then v.phase else .answered (.error .unknown) }
          else v }

/-- A request passes the checks, or is answered that the storage has no bot. -/
def arrive (σ : Process) (number : Nat) (r : UploadRequest) : Process :=
  if (σ.upload? number).isSome then σ
  else
    let phase := if ∃ w ∈ σ.db.workers, w.storageId = some r.storageId then .looking
      else .answered (.error .storageDoesNotHaveWorkers)
    { σ with uploads := σ.uploads ++ [⟨number, r, phase, false⟩] }

/-- The rows `purge_interrupted_uploads` chooses. -/
def interrupted (db : Db) : List Uuid :=
  db.idsWhere fun r => r.isUploaded = false ∧ r.Live ∧ ¬ db.HasChunks r.id

/-- A crash and the next start (Rust `purge_interrupted_uploads`). -/
def restart (σ : Process) (order : List Uuid) : Process :=
  { σ with uploads := [], inFlight := [], db := σ.db.hardDeleteIds (interrupted σ.db) order }

def documentOf (σ : Process) (telegramFileId : String) : Option Bytes :=
  σ.documents.lookup telegramFileId

def withDb (σ : Process) (edited : Db × Uuid) : Process :=
  { σ with db := edited.1, next := edited.2 }

/-- An edit of the channels and bots, or a turn of the replicator. -/
def edit (σ : Process) : Edit → Process
  | .addChannel storageId chatId =>
    σ.withDb (σ.db.addChannel σ.maxVariables σ.next storageId chatId)
  | .updateChannel storageId channelId chatId =>
    σ.withDb (σ.db.updateChannel σ.maxVariables σ.next storageId channelId chatId)
  | .removeChannel storageId channelId => σ.withDb (σ.db.removeChannel storageId channelId, σ.next)
  | .channelDied channelId => σ.withDb (σ.db.channelDied channelId, σ.next)
  | .setWorkers workers => { σ with db := { σ.db with workers := workers } }
  | .retryFailed storageId =>
    { σ with db := { σ.db with replicas := σ.db.replicas.map fun r =>
        if r.status = .failed ∧ ∃ c ∈ σ.db.channels, c.id = r.channelId ∧ c.storageId = storageId
        then { r with status := .pending } else r } }
  | .copyFailed job =>
    if σ.db.IsJob job then
      { σ with db := σ.db.updateReplica job.id fun r => { r with status := .failed } }
    else σ
  | .copied job source messageId =>
    if σ.db.IsJob job ∧ σ.db.IsSource job source ∧ source.telegramFileId.isSome ∧
        source.telegramMessageId.isSome then
      { σ with db := σ.db.updateReplica job.id fun r =>
          { r with
            telegramFileId := source.telegramFileId
            telegramMessageId := some messageId
            status := .uploaded } }
    else σ
  | .reuploaded job source telegramFileId messageId =>
    if σ.db.IsJob job ∧ σ.db.IsSource job source ∧ source.telegramMessageId = none ∧
        telegramFileId ∉ σ.documents.map (·.1) then
      match source.telegramFileId.bind σ.documentOf with
      | none => σ
      | some bytes =>
        { σ with
          documents := σ.documents ++ [(telegramFileId, bytes)]
          db := σ.db.updateReplica job.id fun r =>
            { r with
              telegramFileId := some telegramFileId
              telegramMessageId := some messageId
              status := .uploaded } }
    else σ

/-- The next state; a turn that does not belong changes nothing. -/
def step (σ : Process) : Step → Process
  | .arrive number r => σ.arrive number r
  | .act number a =>
    match σ.upload? number with
    | none => σ
    | some u =>
      match σ.act u a with
      | none => σ
      | some o => σ.commit number o
  | .disconnect number handed => σ.disconnect number handed
  | .edit e => σ.edit e
  | .restart order => σ.restart order

end Process

/-! ## What a turn can do -/

/-- The row is live at the request's path and names the hash of the request. -/
structure Found (σ : Process) (r : UploadRequest) (existing : FileRow) : Prop where
  live : σ.db.liveAt r.storageId r.path = some existing
  hash : existing.contentHash = r.contentHash
  some_hash : r.contentHash.isSome

inductive Turns (σ : Process) (r : UploadRequest) : Phase → Phase → Prop where
  | answer {p result} : Turns σ r p (.answered result)
  | pass : Turns σ r .looking .settling
  | wait {existing} (hfound : Found σ r existing) : Turns σ r .looking (.waiting existing)
  | resume {existing} (hfound : Found σ r existing) (hres : resumable existing r.inFile.size) :
      Turns σ r .looking (.starting existing)
  | abandon {existing} (hfound : Found σ r existing) (hidle : ¬ σ.RelayInFlight existing.id)
      (hunfinished : existing.isUploaded = false) (hres : ¬ resumable existing r.inFile.size) :
      Turns σ r .looking (.purging existing)
  | stay {existing} : Turns σ r (.waiting existing) (.waiting existing)
  | resumeLate {existing} (hres : resumable existing r.inFile.size) :
      Turns σ r (.waiting existing) (.starting existing)
  | abandonLate {existing} (hidle : ¬ σ.RelayInFlight existing.id)
      (hunfinished : ∀ file, σ.db.fileById existing.id = some file → file.isUploaded = false)
      (hres : ¬ resumable existing r.inFile.size) :
      Turns σ r (.waiting existing) (.purging existing)
  | displace {existing} (hlive : σ.db.liveAt r.storageId r.path = some existing)
      (hidle : ¬ σ.RelayInFlight existing.id) : Turns σ r .settling (.replacing existing)
  | insert : Turns σ r .settling .creating
  | queue {file} (hsize : ∃ n ∈ file.chunkSizeBytes, 0 < n) :
      Turns σ r (.starting file) (.queued file)
  | failQueued {file e} : Turns σ r (.queued file) (.failing file e)
  | failSending {file channels plan ids e} :
      Turns σ r (.sending file channels plan ids) (.failing file e)
  | failMarking {file again e} : Turns σ r (.marking file again) (.failing file e)
  | giveUp {file e} (hempty : σ.db.listStoredChunkPositions file.id = []) :
      Turns σ r (.failing file e) (.dropping file e)

inductive Moves (σ : Process) (u : Upload) : Outcome → Prop where
  | turn {phase} (h : Turns σ u.request u.phase phase) : Moves σ u (σ.turn phase)
  | purge {existing} (purged) (h : u.phase = .purging existing) :
      Moves σ u (σ.purge existing.id purged .settling)
  | drop {file e} (purged) (h : u.phase = .dropping file e) :
      Moves σ u (σ.purge file.id purged (.answered (.error e)))
  | replace {existing now stamp db' file} (h : u.phase = .replacing existing)
      (hok : σ.db.replaceContent existing.id existing.contentHash
        (retiredVersionPath existing.path stamp) u.request.inFile σ.next now = .ok db')
      (hfile : db'.fileById existing.id = some file) :
      Moves σ u ⟨.starting file, db', σ.documents, σ.next + 1⟩
  | create {path db'} (h : u.phase = .creating)
      (hok : σ.db.createFileRow { u.request.inFile with path := path } false σ.next = .ok db') :
      Moves σ u ⟨.starting (InFile.toRow { u.request.inFile with path := path } σ.next false), db',
        σ.documents, σ.next + 1⟩
  | plan {file storage primary active db'} (h : u.phase = .queued file)
      (hok : σ.db.resolvePrimaryChannel storage = .ok (primary, active, db')) :
      Moves σ u ⟨.sending file (Process.uploadChannels primary active)
        (remainingChunkPlan u.request.body.length (Process.chunkSizeOf file)
          ((db'.listStoredChunkPositions file.id).map fun s => s.1.toNat)).1
        ((db'.listStoredChunkPositions file.id).map fun s => s.2), db', σ.documents, σ.next⟩
  | send {file channels plan ids position offset len target telegramFileId messageId db'}
      (h : u.phase = .sending file channels plan ids) (hslice : (position, offset, len) ∈ plan)
      (htarget : target ∈ channels) (hfresh : telegramFileId ∉ σ.documents.map (·.1))
      (hok : σ.db.createChunkWithReplica ⟨σ.next, file.id, toPosition position⟩
        (.newUploaded (σ.next + 1) σ.next target.id telegramFileId messageId) = .ok db') :
      Moves σ u ⟨.sending file channels (plan.filter fun slice => slice.1 ≠ position)
          (ids ++ [σ.next]), db',
        σ.documents ++ [(telegramFileId, (u.request.body.drop offset).take len)], σ.next + 2⟩
  | refuse {file channels plan ids e telegramFileId bytes}
      (h : u.phase = .sending file channels plan ids)
      (hfresh : telegramFileId ∉ σ.documents.map (·.1)) :
      Moves σ u ⟨.failing file e, σ.db, σ.documents ++ [(telegramFileId, bytes)], σ.next + 2⟩
  | link {file channels ids replicas db'} (h : u.phase = .sending file channels [] ids)
      (hreplicas : replicas = newPendings σ.next
        (ids.flatMap fun chunkId => channels.map fun channel => (chunkId, channel.id)))
      (hok : σ.db.insertBatch σ.maxVariables replicas = .ok db') :
      Moves σ u ⟨.marking file false, db', σ.documents, σ.next + replicas.length⟩
  | linkFails {file channels ids e n} (h : u.phase = .sending file channels [] ids) :
      Moves σ u ⟨.failing file e, σ.db, σ.documents, σ.next + n⟩
  | mark {file again db'} (h : u.phase = .marking file again)
      (hok : σ.db.setAsUploaded file.id = .ok db') :
      Moves σ u ⟨if again then .answered (.ok ()) else .marking file true, db', σ.documents, σ.next⟩

namespace Process

lemma turns_look {σ : Process} {r : UploadRequest} : Turns σ r .looking (σ.look r) := by
  unfold look
  split
  · case h_1 hash existing hhash hlive =>
    split
    · case isTrue hsame =>
      have hfound : Found σ r existing := ⟨hlive, by rw [hsame, hhash], by rw [hhash]; rfl⟩
      split
      · exact .answer
      · case isFalse hunfinished =>
        split
        · exact .wait hfound
        · case isFalse hidle =>
          unfold resume
          split
          · case isTrue hres => exact .resume hfound hres
          · case isFalse hres => exact .abandon hfound hidle (Bool.not_eq_true _ ▸ hunfinished) hres
    · exact .pass
  · exact .pass

lemma turns_awake {σ : Process} {r : UploadRequest} {existing : FileRow} {timedOut : Bool} :
    Turns σ r (.waiting existing) (σ.awake r existing timedOut) := by
  have hlate : ¬ σ.RelayInFlight existing.id →
      (∀ file, σ.db.fileById existing.id = some file → file.isUploaded = false) →
      Turns σ r (.waiting existing) (resume r existing) := by
    intro hidle hunfinished
    unfold resume
    split
    · case isTrue hres => exact .resumeLate hres
    · case isFalse hres => exact .abandonLate hidle hunfinished hres
  unfold awake
  split
  · split
    · exact .answer
    · exact .stay
  · case isFalse hidle =>
    split
    · case h_1 file hfile =>
      split
      · exact .answer
      · case isFalse hunfinished =>
        apply hlate hidle
        intro file' hfile'
        rw [hfile] at hfile'
        cases hfile'
        exact Bool.not_eq_true _ ▸ hunfinished
    · case h_2 hnone =>
      apply hlate hidle
      intro file hfile
      rw [hnone] at hfile
      cases hfile

lemma turns_settle {σ : Process} {r : UploadRequest} : Turns σ r .settling (σ.settle r) := by
  unfold settle
  split
  · split
    · case h_1 existing hlive =>
      split
      · exact .answer
      · case isFalse hidle => exact .displace hlive hidle
    · exact .insert
  · exact .insert

lemma turns_begin {σ : Process} {r : UploadRequest} {file : FileRow} :
    Turns σ r (.starting file) (begin file) := by
  unfold begin
  split
  · case isTrue hsize => exact .queue hsize
  · exact .answer

lemma turns_count {σ : Process} {r : UploadRequest} {file : FileRow} {e : SarcaError}
    {readable : Bool} : Turns σ r (.failing file e) (σ.count file e readable) := by
  unfold count
  split
  · case isTrue hempty => exact .giveUp hempty.2
  · exact .answer

lemma send_cases {σ : Process} {r : UploadRequest} {file : FileRow} {channels : List StorageChannel}
    {plan : List ChunkSlice} {ids : List Uuid} {position : Nat} {telegramFileId : String}
    {messageId : Int} {o : Outcome}
    (h : σ.send r file channels plan ids position telegramFileId messageId = some o) :
    telegramFileId ∉ σ.documents.map (·.1) ∧ ∃ offset len, (position, offset, len) ∈ plan ∧
      ∃ target ∈ channels,
        (∃ e, o = ⟨.failing file e, σ.db,
          σ.documents ++ [(telegramFileId, (r.body.drop offset).take len)], σ.next + 2⟩) ∨
        ∃ db', σ.db.createChunkWithReplica ⟨σ.next, file.id, toPosition position⟩
            (.newUploaded (σ.next + 1) σ.next target.id telegramFileId messageId) = .ok db' ∧
          o = ⟨.sending file channels (plan.filter fun slice => slice.1 ≠ position)
            (ids ++ [σ.next]), db',
            σ.documents ++ [(telegramFileId, (r.body.drop offset).take len)], σ.next + 2⟩ := by
  unfold send at h
  split at h
  · case h_1 position' offset len target hslice htarget =>
    split at h
    · cases h
    · case isFalse hfresh =>
      have hposition := List.find?_some hslice
      simp only [decide_eq_true_eq] at hposition
      subst hposition
      refine ⟨hfresh, offset, len, List.mem_of_find?_eq_some hslice, target,
        List.mem_of_getElem? htarget, ?_⟩
      split at h
      · case h_1 e herr =>
        cases h
        exact Or.inl ⟨e, rfl⟩
      · case h_2 db' hok =>
        cases h
        exact Or.inr ⟨db', hok, rfl⟩
  · cases h

/-- The cases of a turn. -/
theorem act_moves {σ : Process} {u : Upload} {a : Act} {o : Outcome} (h : σ.act u a = some o) :
    Moves σ u o := by
  unfold act at h
  cases a with
  | look =>
    cases hp : u.phase <;> simp only [hp, reduceCtorEq, Option.some.injEq] at h
    subst h
    exact .turn (hp ▸ turns_look)
  | awake timedOut =>
    cases hp : u.phase <;> simp only [hp, reduceCtorEq, Option.some.injEq] at h
    subst h
    exact .turn (hp ▸ turns_awake)
  | purge purged =>
    cases hp : u.phase <;> simp only [hp, reduceCtorEq, Option.some.injEq] at h
    subst h
    exact .purge purged hp
  | settle =>
    cases hp : u.phase <;> simp only [hp, reduceCtorEq, Option.some.injEq] at h
    subst h
    exact .turn (hp ▸ turns_settle)
  | replace now stamp =>
    cases hp : u.phase <;> simp only [hp, reduceCtorEq, Option.some.injEq] at h
    subst h
    unfold replace
    split
    · exact .turn .answer
    · case h_2 db' hok =>
      split
      · exact .turn .answer
      · case h_2 file hfile => exact .replace hp hok hfile
  | create =>
    cases hp : u.phase <;> simp only [hp, reduceCtorEq, Option.some.injEq] at h
    subst h
    simp only [create]
    split
    · exact .turn .answer
    · case h_2 db' hok => exact .create hp hok
  | begin =>
    cases hp : u.phase <;> simp only [hp, reduceCtorEq, Option.some.injEq] at h
    subst h
    exact .turn (hp ▸ turns_begin)
  | plan =>
    cases hp : u.phase <;> simp only [hp, reduceCtorEq, Option.some.injEq] at h
    subst h
    unfold plan
    split
    · exact .turn (hp ▸ .failQueued)
    · split
      · exact .turn (hp ▸ .failQueued)
      · case h_2 primary active db' hok => exact .plan hp hok
  | send position telegramFileId messageId =>
    cases hp : u.phase with
    | sending file channels plan ids =>
      simp only [hp] at h
      obtain ⟨hfresh, offset, len, hslice, target, htarget, hcase⟩ := send_cases h
      rcases hcase with ⟨e, rfl⟩ | ⟨db', hok, rfl⟩
      · exact .refuse hp hfresh
      · exact .send hp hslice htarget hfresh hok
    | _ => simp only [hp, reduceCtorEq] at h
  | sendFails error =>
    cases hp : u.phase <;> simp only [hp, reduceCtorEq, Option.some.injEq] at h
    subst h
    exact .turn (hp ▸ .failSending)
  | link =>
    cases hp : u.phase with
    | sending file channels plan ids =>
      cases plan with
      | nil =>
        simp only [hp, Option.some.injEq] at h
        subst h
        simp only [link]
        split
        · exact .linkFails hp
        · case h_2 db' hok => exact .link hp rfl hok
      | cons slice plan => simp only [hp, reduceCtorEq] at h
    | _ => simp only [hp, reduceCtorEq] at h
  | mark =>
    cases hp : u.phase <;> simp only [hp, reduceCtorEq, Option.ite_none_left_eq_some] at h
    obtain ⟨-, h⟩ := h
    cases h
    unfold mark
    split
    · exact .turn (hp ▸ .failMarking)
    · case h_2 db' hok => exact .mark hp hok
  | count readable =>
    cases hp : u.phase <;> simp only [hp, reduceCtorEq, Option.ite_none_left_eq_some] at h
    obtain ⟨-, h⟩ := h
    cases h
    exact .turn (hp ▸ turns_count)
  | drop purged =>
    cases hp : u.phase <;> simp only [hp, reduceCtorEq, Option.ite_none_left_eq_some] at h
    obtain ⟨-, h⟩ := h
    cases h
    exact .drop purged hp

lemma standing_of_act {σ : Process} {u : Upload} {a : Act} {o : Outcome} (h : σ.act u a = some o) :
    u.standing = u.phase := by
  unfold Upload.standing
  cases hp : u.phase with
  | marking file again =>
    cases again with
    | false => rfl
    | true =>
      cases hgone : u.gone with
      | false => rfl
      | true => cases a <;> simp [act, hp, hgone] at h
  | failing file e =>
    cases hgone : u.gone with
    | false => rfl
    | true => cases a <;> simp [act, hp, hgone] at h
  | dropping file e =>
    cases hgone : u.gone with
    | false => rfl
    | true => cases a <;> simp [act, hp, hgone] at h
  | _ => rfl

lemma not_answered {σ : Process} {u : Upload} {a : Act} {o : Outcome} (ho : σ.act u a = some o) {result}
    (hp : u.phase = .answered result) : False := by
  cases a <;> simp only [act, hp, reduceCtorEq] at ho

lemma upload?_commit {σ : Process} {number : Nat} {u : Upload} {o : Outcome}
    (h : σ.upload? number = some u) :
    (σ.commit number o).upload? number = some { u with phase := o.phase } := by
  have hnumber : u.number = number := by simpa using List.find?_some h
  unfold upload? at h ⊢
  simp only [commit]
  generalize σ.uploads = us at h
  induction us with
  | nil => cases h
  | cons v us ih =>
    by_cases hv : v.number = number
    · have hvu : v = u := by simpa [List.find?_cons, hv] using h
      subst hvu
      simp [hv]
    · have hrest : us.find? (fun w => w.number = number) = some u := by
        simpa [List.find?_cons, hv] using h
      simpa [List.find?_cons, hv] using ih hrest

lemma step_act_eq {σ : Process} {number : Nat} {u : Upload} {a : Act} {o : Outcome}
    (hu : σ.upload? number = some u) (ho : σ.act u a = some o) :
    σ.step (.act number a) = σ.commit number o := by
  simp only [step, hu, ho]

end Process

end Sarca.Server
