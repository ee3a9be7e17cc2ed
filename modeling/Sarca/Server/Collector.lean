import Sarca.Lib.History
import Sarca.Server.Ledger

/-!
# Collecting messages behind a purge

`purge_file_ids` of `services/trash.rs` lists the messages of its files in two statements and deletes the rows,
and then a task of its own asks Telegram to delete each message that no row names any more
(`gc_telegram_messages`). `Collector` is a server with its purges, one statement a step; between the steps
stands anything else that writes the tables. The share links, which go with the files, are left out.

The chat of a picture is not stored, and a purge tries every chat of its storage. What it looks at before it
asks is the tables of that moment: a row that comes later, or a message that is on its way, is not among them.
`Collector.asks_warranted` says what is left of it in any run.
-/

namespace Sarca.Server
open Sarca.Lib

/-! ## What a purge reads -/

def FileRow.Pictures (f : FileRow) (messageId : Int) : Prop :=
  f.thumbTelegramMessageId = some messageId ∨ f.previewTelegramMessageId = some messageId

instance FileRow.Pictures.decidable (f : FileRow) (messageId : Int) : Decidable (f.Pictures messageId) :=
  inferInstanceAs (Decidable (_ ∨ _))

namespace Db

/-- Rust `list_derived_messages_for_files`: each picture in each chat of its storage. -/
def listDerivedMessagesForFiles (db : Db) (fileIds : List Uuid) : List (Int × Int × Uuid) :=
  (db.files.filter fun f => f.id ∈ fileIds).flatMap fun f =>
    (db.channels.filter fun ch => ch.storageId = f.storageId).flatMap fun ch =>
      (f.thumbTelegramMessageId.toList ++ f.previewTelegramMessageId.toList).map
        fun messageId => (ch.chatId, messageId, f.storageId)

/-- Rust `message_still_referenced`. -/
def messageStillReferenced (db : Db) (chatId messageId : Int) : Bool :=
  db.replicas.any fun r => r.telegramMessageId = some messageId ∧
    db.channels.any fun ch => ch.id = r.channelId ∧ ch.chatId = chatId

/-- Rust `derived_message_still_referenced`. -/
def derivedMessageStillReferenced (db : Db) (chatId messageId : Int) : Bool :=
  db.files.any fun f => f.Pictures messageId ∧
    db.channels.any fun ch => ch.storageId = f.storageId ∧ ch.chatId = chatId

end Db

/-- A message is taken up unless its pair is there. -/
def addMessage (unique : List (Int × Int × Uuid)) (m : Int × Int × Uuid) : List (Int × Int × Uuid) :=
  if unique.any fun u => u.1 = m.1 ∧ u.2.1 = m.2.1 then unique else unique ++ [m]

/-- The messages without repetitions of a pair; the first one stays. -/
def uniqueMessages (messages : List (Int × Int × Uuid)) : List (Int × Int × Uuid) :=
  messages.foldl addMessage []

/-! ## Purges -/

/-- Where a purge stands, with the messages it still has to look at. -/
inductive CollectPhase where
  | listing
  | listed (messages : List (Int × Int × Uuid))
  | deleting (messages : List (Int × Int × Uuid))
  | collecting (messages : List (Int × Int × Uuid))
  | looking (message : Int × Int × Uuid) (replicaRef : Bool) (messages : List (Int × Int × Uuid))
  | asking (message : Int × Int × Uuid) (messages : List (Int × Int × Uuid))
deriving DecidableEq, Repr

/-- A purge of files (Rust `purge_file_ids`). -/
structure FilePurge where
  fileIds : List Uuid
  phase : CollectPhase
deriving DecidableEq, Repr

structure AskedMessage where
  fileIds : List Uuid
  chatId : Int
  messageId : Int
deriving DecidableEq, Repr

/-- A server, and the pictures that were put into each chat. -/
structure Collector where
  db : Db
  purges : List FilePurge
  asked : List AskedMessage
  pictured : List (Int × Int)

inductive CollectorStep where
  | statement (st : Statement)
  /-- a picture that is in the chat is recorded -/
  | record (kind : PictureKind) (fileId : Uuid) (telegramFileId : String) (chatId messageId : Int)
  /-- the rest of the tables -/
  | elsewhere (channels : List StorageChannel) (chunks : List FileChunk) (replicas : List ChunkReplica)
  | purgeFileIds (fileIds : List Uuid)
  /-- the next statement of a purge, or its next request -/
  | go (p : FilePurge) (order : List Uuid) (ok : Bool)

namespace Collector

def advance (σ : Collector) (p : FilePurge) (phase : CollectPhase) : Collector :=
  { σ with purges := σ.purges.erase p ++ [{ p with phase := phase }] }

/-- The next statement of a purge; one that fails ends it. -/
def takePurge (σ : Collector) (p : FilePurge) (order : List Uuid) (ok : Bool) : Collector :=
  match p.phase with
  | .listing =>
    if p.fileIds = [] ∨ ok = false then { σ with purges := σ.purges.erase p }
    else σ.advance p (.listed (σ.db.listTelegramMessagesForFiles p.fileIds))
  | .listed messages =>
    if ok then σ.advance p (.deleting (messages ++ σ.db.listDerivedMessagesForFiles p.fileIds))
    else { σ with purges := σ.purges.erase p }
  | .deleting messages =>
    if ok then
      { σ.advance p (.collecting (uniqueMessages messages)) with db := σ.db.hardDeleteIds p.fileIds order }
    else { σ with purges := σ.purges.erase p }
  | .collecting [] => { σ with purges := σ.purges.erase p }
  | .collecting (m :: messages) =>
    if ok then σ.advance p (.looking m (σ.db.messageStillReferenced m.1 m.2.1) messages)
    else { σ with purges := σ.purges.erase p }
  | .looking m replicaRef messages =>
    if ok then
      if replicaRef || σ.db.derivedMessageStillReferenced m.1 m.2.1 then σ.advance p (.collecting messages)
      else σ.advance p (.asking m messages)
    else { σ with purges := σ.purges.erase p }
  -- whatever Telegram answers
  | .asking m messages =>
    { σ.advance p (.collecting messages) with asked := σ.asked ++ [⟨p.fileIds, m.1, m.2.1⟩] }

def step (maxVariables : Nat) (σ : Collector) : CollectorStep → Collector
  | .statement st =>
    match st.attempt maxVariables σ.db with
    | .ok db => { σ with db := db }
    | .error _ => σ
  | .record kind fileId telegramFileId chatId messageId =>
    { σ with
      db := exec σ.db (match kind with
        | .thumb => .setThumb fileId telegramFileId messageId
        | .preview => .setPreview fileId telegramFileId messageId)
      pictured := σ.pictured ++ [(chatId, messageId)] }
  | .elsewhere channels chunks replicas =>
    { σ with db := { σ.db with channels := channels, chunks := chunks, replicas := replicas } }
  | .purgeFileIds fileIds => { σ with purges := σ.purges ++ [⟨fileIds, .listing⟩] }
  | .go p order ok => if p ∈ σ.purges then σ.takePurge p order ok else σ

def start (db : Db) (pictured : List (Int × Int)) : Collector :=
  ⟨db, [], [], pictured⟩

end Collector

/-- A row of one of the files names the pair: a replica of its chunks on a channel of the chat, or the file
    itself, whose storage has the chat. -/
inductive Db.RecordsFor (db : Db) (fileIds : List Uuid) : Int → Int → Prop where
  | replica {r c ch messageId} (hr : r ∈ db.replicas) (hc : c ∈ db.chunks) (hchunk : c.id = r.chunkId)
      (hfile : c.fileId ∈ fileIds) (hch : ch ∈ db.channels) (hchannel : ch.id = r.channelId)
      (hmessage : r.telegramMessageId = some messageId) : db.RecordsFor fileIds ch.chatId messageId
  | picture {f ch messageId} (hf : f ∈ db.files) (hid : f.id ∈ fileIds) (hch : ch ∈ db.channels)
      (hstorage : ch.storageId = f.storageId) (hmessage : f.Pictures messageId) :
      db.RecordsFor fileIds ch.chatId messageId

namespace Collector

/-- A pair was listed for the files in a state before. -/
def Listed (past : List Collector) (fileIds : List Uuid) (m : Int × Int × Uuid) : Prop :=
  ∃ listed, [listed].Sublist past ∧ listed.db.RecordsFor fileIds m.1 m.2.1

/-- And in a later state no replica named it, unless the purge saw one. -/
def Looked (past : List Collector) (fileIds : List Uuid) (m : Int × Int × Uuid) (replicaRef : Bool) : Prop :=
  ∃ listed looked, [listed, looked].Sublist past ∧ listed.db.RecordsFor fileIds m.1 m.2.1 ∧
    looked.db.messageStillReferenced m.1 m.2.1 = replicaRef

/-- In three states, one after the other, rows of the files named the pair, then no replica did, and then no
    picture. -/
def Warranted (past : List Collector) (a : AskedMessage) : Prop :=
  ∃ listed looked cleared, [listed, looked, cleared].Sublist past ∧
    listed.db.RecordsFor a.fileIds a.chatId a.messageId ∧
    looked.db.messageStillReferenced a.chatId a.messageId = false ∧
    cleared.db.derivedMessageStillReferenced a.chatId a.messageId = false

end Collector

/-- The messages that a purge has not looked at yet. -/
def CollectPhase.messages : CollectPhase → List (Int × Int × Uuid)
  | .listing => []
  | .listed messages | .deleting messages | .collecting messages => messages
  | .looking _ _ messages | .asking _ messages => messages

namespace Collector

/-- What a purge has in hand comes from the states before. -/
structure Grounded (past : List Collector) (p : FilePurge) : Prop where
  listed : ∀ m ∈ p.phase.messages, Listed past p.fileIds m
  looked : ∀ m replicaRef messages, p.phase = .looking m replicaRef messages →
    Looked past p.fileIds m replicaRef
  warranted : ∀ m messages, p.phase = .asking m messages → Warranted past ⟨p.fileIds, m.1, m.2.1⟩

structure Sound (past : List Collector) (σ : Collector) : Prop where
  purges : ∀ p ∈ σ.purges, Grounded past p
  asked : ∀ a ∈ σ.asked, Warranted past a

/-! ## What is listed -/

lemma mem_listTelegramMessagesForFiles {db : Db} {fileIds : List Uuid} {m : Int × Int × Uuid}
    (h : m ∈ db.listTelegramMessagesForFiles fileIds) : db.RecordsFor fileIds m.1 m.2.1 := by
  obtain ⟨r, hr, h⟩ := List.mem_flatMap.mp (List.mem_dedup.mp h)
  split at h
  · case isTrue hchunk =>
    obtain ⟨c, hc, hid, hfile⟩ := hchunk
    obtain ⟨ch, hch, h⟩ := List.mem_flatMap.mp h
    obtain ⟨hch, hchannel⟩ := List.mem_filter.mp hch
    obtain ⟨messageId, hmessage, rfl⟩ := List.mem_map.mp h
    exact .replica hr hc hid hfile hch (of_decide_eq_true hchannel) (Option.mem_toList.mp hmessage)
  · cases h

lemma mem_listDerivedMessagesForFiles {db : Db} {fileIds : List Uuid} {m : Int × Int × Uuid}
    (h : m ∈ db.listDerivedMessagesForFiles fileIds) : db.RecordsFor fileIds m.1 m.2.1 := by
  obtain ⟨f, hf, h⟩ := List.mem_flatMap.mp h
  obtain ⟨hf, hid⟩ := List.mem_filter.mp hf
  obtain ⟨ch, hch, h⟩ := List.mem_flatMap.mp h
  obtain ⟨hch, hstorage⟩ := List.mem_filter.mp hch
  obtain ⟨messageId, hmessage, rfl⟩ := List.mem_map.mp h
  have hpicture : f.Pictures messageId :=
    (List.mem_append.mp hmessage).imp Option.mem_toList.mp Option.mem_toList.mp
  exact .picture hf (of_decide_eq_true hid) hch (of_decide_eq_true hstorage) hpicture

lemma mem_foldl_addMessage {messages unique : List (Int × Int × Uuid)} {m : Int × Int × Uuid}
    (h : m ∈ messages.foldl addMessage unique) : m ∈ unique ∨ m ∈ messages := by
  induction messages generalizing unique with
  | nil => exact Or.inl h
  | cons x messages ih =>
    rcases ih h with h | h
    · unfold addMessage at h
      split at h
      · exact Or.inl h
      · rcases List.mem_append.mp h with h | h
        · exact Or.inl h
        · exact Or.inr (List.mem_singleton.mp h ▸ List.mem_cons_self)
    · exact Or.inr (List.mem_cons_of_mem x h)

lemma mem_uniqueMessages {messages : List (Int × Int × Uuid)} {m : Int × Int × Uuid}
    (h : m ∈ uniqueMessages messages) : m ∈ messages :=
  (mem_foldl_addMessage h).resolve_left List.not_mem_nil

/-! ## One step -/

variable {past : List Collector} {σ : Collector} {maxVariables : Nat}

lemma Listed.mono {fileIds : List Uuid} {m : Int × Int × Uuid} (h : Listed past fileIds m) (σ : Collector) :
    Listed (past ++ [σ]) fileIds m := by
  obtain ⟨listed, hpast, hrecords⟩ := h
  exact ⟨listed, sublist_before hpast σ, hrecords⟩

lemma Listed.now {fileIds : List Uuid} {m : Int × Int × Uuid} (h : σ.db.RecordsFor fileIds m.1 m.2.1) :
    Listed (past ++ [σ]) fileIds m :=
  ⟨σ, sublist_after (List.nil_sublist past) σ, h⟩

lemma Warranted.mono {a : AskedMessage} (h : Warranted past a) (σ : Collector) : Warranted (past ++ [σ]) a := by
  obtain ⟨listed, looked, cleared, hpast, hwarrant⟩ := h
  exact ⟨listed, looked, cleared, sublist_before hpast σ, hwarrant⟩

lemma Grounded.mono {p : FilePurge} (h : Grounded past p) (σ : Collector) : Grounded (past ++ [σ]) p where
  listed := fun m hm => (h.listed m hm).mono σ
  looked := by
    intro m replicaRef messages hphase
    obtain ⟨listed, looked, hpast, hlook⟩ := h.looked m replicaRef messages hphase
    exact ⟨listed, looked, sublist_before hpast σ, hlook⟩
  warranted := fun m messages hphase => (h.warranted m messages hphase).mono σ

lemma Sound.mono (h : Sound past σ) : Sound (past ++ [σ]) σ where
  purges := fun p hp => (h.purges p hp).mono σ
  asked := fun a ha => (h.asked a ha).mono σ

lemma Grounded.of_listed {p : FilePurge} (hlisted : ∀ m ∈ p.phase.messages, Listed past p.fileIds m)
    (hlooking : ∀ m replicaRef messages, p.phase ≠ .looking m replicaRef messages)
    (hasking : ∀ m messages, p.phase ≠ .asking m messages) : Grounded past p where
  listed := hlisted
  looked := fun m replicaRef messages hphase => absurd hphase (hlooking m replicaRef messages)
  warranted := fun m messages hphase => absurd hphase (hasking m messages)

lemma Sound.advance (h : Sound past σ) (db : Db) {p : FilePurge} {phase : CollectPhase}
    (hphase : Grounded past { p with phase := phase }) : Sound past { σ.advance p phase with db := db } where
  purges := by
    intro q hq
    rcases List.mem_append.mp hq with hq | hq
    · exact h.purges q (List.mem_of_mem_erase hq)
    · exact List.mem_singleton.mp hq ▸ hphase
  asked := h.asked

lemma Sound.leave (h : Sound past σ) (p : FilePurge) : Sound past { σ with purges := σ.purges.erase p } where
  purges := fun q hq => h.purges q (List.mem_of_mem_erase hq)
  asked := h.asked

lemma Sound.takePurge (h : Sound past σ) {p : FilePurge} (hp : p ∈ σ.purges) (order : List Uuid) (ok : Bool) :
    Sound (past ++ [σ]) (σ.takePurge p order ok) := by
  have hnow := h.mono
  have hmine := hnow.purges p hp
  unfold Collector.takePurge
  split
  · split
    · exact hnow.leave p
    · refine hnow.advance σ.db (.of_listed (fun m hm => ?_) (by simp) (by simp))
      exact .now (mem_listTelegramMessagesForFiles hm)
  · case h_2 messages hphase =>
    split
    · refine hnow.advance σ.db (.of_listed (fun m hm => ?_) (by simp) (by simp))
      rcases List.mem_append.mp hm with hm | hm
      · exact hmine.listed m (by rw [hphase]; exact hm)
      · exact .now (mem_listDerivedMessagesForFiles hm)
    · exact hnow.leave p
  · case h_3 messages hphase =>
    split
    · refine hnow.advance _ (.of_listed (fun m hm => ?_) (by simp) (by simp))
      exact hmine.listed m (by rw [hphase]; exact mem_uniqueMessages hm)
    · exact hnow.leave p
  · exact hnow.leave p
  · case h_5 m messages hphase =>
    split
    · refine hnow.advance σ.db ⟨fun q hq => ?_, ?_, by simp⟩
      · exact hmine.listed q (by rw [hphase]; exact List.mem_cons_of_mem m hq)
      · intro m' replicaRef messages' heq
        cases heq
        obtain ⟨listed, hpast, hrecords⟩ := (h.purges p hp).listed m (by rw [hphase]; exact List.mem_cons_self)
        exact ⟨listed, σ, sublist_after hpast σ, hrecords, rfl⟩
    · exact hnow.leave p
  · case h_6 m replicaRef messages hphase =>
    have hrest : ∀ q ∈ messages, Listed (past ++ [σ]) p.fileIds q :=
      fun q hq => hmine.listed q (by rw [hphase]; exact hq)
    split
    · split
      · exact hnow.advance σ.db (.of_listed hrest (by simp) (by simp))
      · case isFalse hclear =>
        refine hnow.advance σ.db ⟨hrest, by simp, ?_⟩
        intro m' messages' heq
        cases heq
        rw [Bool.not_eq_true, Bool.or_eq_false_iff] at hclear
        obtain ⟨listed, looked, hpast, hrecords, hlooked⟩ := (h.purges p hp).looked m replicaRef messages hphase
        exact ⟨listed, looked, σ, sublist_after hpast σ, hrecords, hlooked.trans hclear.1, hclear.2⟩
    · exact hnow.leave p
  · case h_7 m messages hphase =>
    have hgoes : Sound (past ++ [σ]) { σ.advance p (.collecting messages) with db := σ.db } :=
      hnow.advance σ.db (.of_listed (fun q hq => hmine.listed q (by rw [hphase]; exact hq)) (by simp) (by simp))
    refine ⟨hgoes.purges, fun a ha => ?_⟩
    rcases List.mem_append.mp ha with ha | ha
    · exact hnow.asked a ha
    · exact List.mem_singleton.mp ha ▸ hmine.warranted m messages hphase

lemma Sound.step (h : Sound past σ) (a : CollectorStep) : Sound (past ++ [σ]) (σ.step maxVariables a) := by
  have hnow := h.mono
  cases a with
  | statement st =>
    rw [Collector.step]
    split
    · exact ⟨hnow.purges, hnow.asked⟩
    · exact hnow
  | record kind fileId telegramFileId chatId messageId => exact ⟨hnow.purges, hnow.asked⟩
  | elsewhere channels chunks replicas => exact ⟨hnow.purges, hnow.asked⟩
  | purgeFileIds fileIds =>
    refine ⟨fun p hp => ?_, hnow.asked⟩
    rcases List.mem_append.mp hp with hp | hp
    · exact hnow.purges p hp
    · obtain rfl := List.mem_singleton.mp hp
      exact .of_listed (fun m hm => absurd hm List.not_mem_nil) (by simp) (by simp)
  | go p order ok =>
    rw [Collector.step]
    split
    · case isTrue hp => exact h.takePurge hp order ok
    · exact hnow

def storedPhoto : FileRow where
  id := 10
  path := "a.jpg".toList
  size := 9
  storageId := 1
  isUploaded := true
  thumbTelegramFileId := none
  thumbTelegramMessageId := none
  previewTelegramFileId := none
  previewTelegramMessageId := none
  chunkSizeBytes := some 9
  deletedAt := none
  sourceCreatedAt := none
  sourceMtime := none
  contentHash := none

/-- Its only chunk is in the first of two chats. -/
def photoDb : Db :=
  { Db.fresh [⟨1, 1⟩] with
    channels := [⟨5, 1, 1, -100, .active⟩, ⟨6, 1, 2, -200, .active⟩]
    files := [storedPhoto]
    chunks := [⟨30, 10, 0⟩]
    replicas := [⟨40, 30, 5, some "chunk", some 6, .uploaded⟩] }

def purging (phases : List CollectPhase) : List CollectorStep :=
  .purgeFileIds [10] :: phases.map fun phase => .go ⟨[10], phase⟩ [] true

/-- A copy of the photo has read its replicas before the purge and inserts its own behind it. -/
def copyBehind : List CollectorStep :=
  [.statement (.insertClonedFile storedPhoto "b.jpg".toList 11),
    .statement (.createChunksBatch [⟨31, 11, 0⟩])] ++
    purging [.listing, .listed [(-100, 6, 1)], .deleting [(-100, 6, 1)], .collecting [(-100, 6, 1)],
      .looking (-100, 6, 1) false [], .asking (-100, 6, 1) []] ++
    [.statement (.insertBatch [⟨41, 31, 5, some "chunk", some 6, .uploaded⟩])]

/-- The photo has a thumbnail in the first chat. -/
def withThumb : List CollectorStep :=
  .record .thumb 10 "thumb" (-100) 7 ::
    purging [.listing, .listed [], .deleting [(-100, 7, 1), (-200, 7, 1)],
      .collecting [(-100, 7, 1), (-200, 7, 1)], .looking (-100, 7, 1) false [(-200, 7, 1)],
      .asking (-100, 7, 1) [(-200, 7, 1)], .collecting [(-200, 7, 1)], .looking (-200, 7, 1) false [],
      .asking (-200, 7, 1) []]

end Collector

end Sarca.Server
