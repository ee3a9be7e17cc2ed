import Sarca.Server.Members
import Sarca.Server.StoragePurge

/-!
# Deleting a user

Storages have no owner column. `delete_by_superuser` takes a storage for one that only the user owned when
nobody else has access to it but the superuser, and the user's row says `a`; such a storage is purged, and then
the user goes with its bots and grants.

`Estate` is a server with its accounts, and a step of it is one call of somebody, from end to end. `creators`
keeps who created which storage, which no row does, and is only there to say so. What happens to files,
channels and bots between the calls is anything that the keys of the schema allow. The main result says which
storages go, and that the rows of the others stay.
-/

namespace Sarca.Server
open Sarca.Lib

/-- What the unique columns say, and that ids of storages and channels are below the next fresh one. -/
structure Db.Keys (n : Uuid) (db : Db) : Prop where
  fileId : ∀ f ∈ db.files, ∀ f' ∈ db.files, f.id = f'.id → f = f'
  chunkId : ∀ c ∈ db.chunks, ∀ c' ∈ db.chunks, c.id = c'.id → c = c'
  channelId : ∀ c ∈ db.channels, ∀ c' ∈ db.channels, c.id = c'.id → c = c'
  chatId : ∀ c ∈ db.channels, ∀ c' ∈ db.channels, c.chatId = c'.chatId → c = c'
  channelBelow : ∀ c ∈ db.channels, c.id < n
  storageBelow : ∀ s ∈ db.storages, s.id < n

/-- Rust `snapshot_storage_telegram_purge`, when nothing comes between its statements. -/
def Db.snapshotStorage (db : Db) (storageId : Uuid) : Option (StorageWorker × List (Int × Int)) :=
  let messages := snapshotMessages (db.listTelegramMessagesForStorage storageId)
    (db.listDerivedMessagesForStorage storageId)
  if messages = [] then none else (db.botOf storageId).map fun bot => (bot, messages)

structure Estate where
  site : Site
  roster : Roster
  /-- `storages.name` -/
  names : AList fun _ : Uuid => List Char
  /-- `storage_workers.user_id` -/
  owners : AList fun _ : Uuid => Uuid
  creators : List (Uuid × Uuid)

/-- One call, from end to end, or what else may happen between the calls. -/
inductive EstateAct where
  | register (email : List Char)
  | create (actor : AuthUser) (name : List Char) (chatIds : List Int)
  | member (actor : AuthUser) (c : MemberCall)
  | deleteStorage (actor : AuthUser) (storageId : Uuid) (now : Instant) (order : List Uuid)
  | deleteUser (actor : AuthUser) (userId : Uuid) (now : Instant) (order : Uuid → List Uuid)
  /-- a turn of `grant_superuser_access_to_all_storages` -/
  | boot (storageId : Uuid)
  /-- files, channels and bots change -/
  | others (db : Db) (next : Uuid) (owners : AList fun _ : Uuid => Uuid) (keys : db.Keys next)

/-- The test of `delete_by_superuser` on the member list of a storage. -/
def Roster.Orphaned (superuserEmail : List Char) (ρ : Roster) (userId storageId : Uuid) : Prop :=
  (∀ m ∈ ρ.listUsersWithAccess storageId, ¬eqIgnoreAsciiCase m.email superuserEmail → m.id = userId) ∧
    ∃ m ∈ ρ.listUsersWithAccess storageId, m.id = userId ∧ m.accessType = .a

instance Roster.Orphaned.decidable (superuserEmail : List Char) (ρ : Roster) (userId storageId : Uuid) :
    Decidable (ρ.Orphaned superuserEmail userId storageId) :=
  inferInstanceAs (Decidable (_ ∧ _))

namespace Estate

variable (superuserEmail : List Char) (σ : Estate)

def fresh (maxVariables : Nat) : Estate where
  site :=
    { process :=
        { db := Db.fresh []
          uploads := []
          documents := []
          inFlight := []
          next := 1
          maxVariables := maxVariables }
      pictures := []
      deletions := []
      jobs := []
      messages := []
      batch := []
      nextJob := 0
      nextMessage := 1
      pictured := []
      erased := [] }
  roster := .empty
  names := ∅
  owners := ∅
  creators := []

def db : Db :=
  σ.site.db

def next : Uuid :=
  σ.site.process.next

def storages : List Uuid :=
  σ.db.storages.map (·.id)

/-- The same server with another database, and another next fresh id. -/
def withDb (edited : Db × Uuid) : Estate :=
  { σ with site := { σ.site with process := σ.site.process.withDb edited } }

/-- The members of a new storage: its creator, and the superuser, whose grant may fail. -/
def firstMembers (actor : AuthUser) : Except AccessError Roster :=
  match σ.roster.grantForUserId (σ.next :: σ.storages) σ.next actor.id .a with
  | .error e => .error e
  | .ok ρ =>
    if eqIgnoreAsciiCase actor.email superuserEmail then .ok ρ
    else
      match ρ.createOrUpdate (σ.next :: σ.storages) σ.next superuserEmail .a with
      | .ok ρ' => .ok ρ'
      | .error _ => .ok ρ

/-- Rust `StoragesService::create`; one that fails behind its first statement is rolled back. -/
def create (actor : AuthUser) (name : List Char) (chatIds : List Int) : Estate × Except AccessError Unit :=
  if chatIds = [] then (σ, .error .noActiveChannel)
  else if 3 < chatIds.length then (σ, .error .tooManyChannels)
  else if ∃ id ∈ σ.storages, σ.names.lookup id = some name ∧ σ.roster.level actor.id id ≠ none then
    (σ, .error .storageNameConflict)
  else
    match σ.firstMembers superuserEmail actor with
    | .error e => (σ.withDb (σ.db, σ.next + 1), .error e)
    | .ok ρ =>
      if ¬chatIds.Nodup ∨ ∃ chatId ∈ chatIds, ∃ c ∈ σ.db.channels, c.chatId = chatId then
        (σ.withDb (σ.db, σ.next + 1), .error .storageChatIdConflict)
      else
        ({ σ.withDb (σ.db.createStorage σ.next chatIds) with
            roster := ρ
            names := σ.names.insert σ.next name
            creators := (σ.next, actor.id) :: σ.creators }, .ok ())

/-- The transaction that queues the messages of a storage and deletes it, behind their snapshot. -/
def purgeStorage (storageId : Uuid) (now : Instant) (order : List Uuid) : Estate × Except AccessError Unit :=
  match σ.site.enqueueSnapshot storageId (σ.db.snapshotStorage storageId) now with
  | .error _ => (σ, .error .unknown)
  | .ok τ =>
    ({ σ with
        site := τ.setDb (τ.db.deleteStorageInTx storageId order)
        roster := σ.roster.dropStorage storageId }, .ok ())

/-- Rust `StoragesService::delete`. -/
def deleteStorage (actor : AuthUser) (storageId : Uuid) (now : Instant) (order : List Uuid) :
    Estate × Except AccessError Unit :=
  match σ.roster.checkAccess actor.id storageId .a with
  | .error e => (σ, .error e)
  | .ok () => σ.purgeStorage storageId now order

/-- The ids of Rust `list_by_user_id`, in its order. -/
def listByUserId (userId : Uuid) : List Uuid :=
  (σ.storages.filter fun id => σ.roster.level userId id ≠ none).insertionSort (· ≤ ·)

/-- The loop over `orphaned`, which stops at the first error. -/
def purgeOrphans (now : Instant) (order : Uuid → List Uuid) : Estate → List Uuid → Estate × Except AccessError Unit
  | σ, [] => (σ, .ok ())
  | σ, id :: ids =>
    match σ.purgeStorage id now (order id) with
    | (τ, .error e) => (τ, .error e)
    | (τ, .ok ()) => purgeOrphans now order τ ids

/-- Rust `UsersRepository::delete`, with its cascades. -/
def removeUser (userId : Uuid) : Estate :=
  { σ with
    site := σ.site.setDb
      { σ.db with workers := σ.db.workers.filter fun w => σ.owners.lookup w.id ≠ some userId }
    roster := σ.roster.removeUser userId }

/-- Rust `delete_by_superuser`. -/
def deleteBySuperuser (actor : AuthUser) (userId : Uuid) (now : Instant) (order : Uuid → List Uuid) :
    Estate × Except AccessError Unit :=
  if ¬eqIgnoreAsciiCase actor.email superuserEmail then (σ, .error .forbidden)
  else
    match σ.roster.users.lookup userId with
    | none => (σ, .error (.doesNotExist "user"))
    | some email =>
      if eqIgnoreAsciiCase email superuserEmail ∨ userId = actor.id then (σ, .error .cannotDeleteSuperuser)
      else
        let orphaned := (σ.listByUserId userId).filter fun id => σ.roster.Orphaned superuserEmail userId id
        match purgeOrphans now order σ orphaned with
        | (τ, .error e) => (τ, .error e)
        | (τ, .ok ()) => (τ.removeUser userId, .ok ())

/-- The same server with other members, unless the statement failed. -/
def settle : Except AccessError Roster → Estate
  | .ok ρ => { σ with roster := ρ }
  | .error _ => σ

def step : EstateAct → Estate
  | .register email => { σ with roster := σ.roster.register email }
  | .create actor name chatIds => (σ.create superuserEmail actor name chatIds).1
  | .member actor c => σ.settle (c.serve superuserEmail actor σ.roster σ.storages)
  | .deleteStorage actor storageId now order => (σ.deleteStorage actor storageId now order).1
  | .deleteUser actor userId now order => (σ.deleteBySuperuser superuserEmail actor userId now order).1
  | .boot storageId =>
    match σ.roster.byEmail? superuserEmail with
    | none => σ
    | some id =>
      if σ.roster.HasAccess id storageId .a then σ
      else σ.settle (σ.roster.grantForUserId σ.storages storageId id .a)
  | .others db next owners _ =>
    if db.storages.map (·.id) = σ.storages ∧ σ.next ≤ next then
      { σ.withDb (db, next) with owners := owners }
    else σ

end Estate

/-- The user holds `a`, and nobody else has a row whose address is not the superuser's. -/
structure Roster.SoleAdmin (superuserEmail : List Char) (ρ : Roster) (userId storageId : Uuid) : Prop where
  admin : ρ.level userId storageId = some .a
  alone : ∀ id email, ρ.users.lookup id = some email → ¬eqIgnoreAsciiCase email superuserEmail →
    ρ.level id storageId ≠ none → id = userId

/-- The rows of a storage in `σ` are those in `τ`, and what was queued since names none of its chats. -/
structure Site.Spares (storageId : Uuid) (σ τ : Site) : Prop where
  storage : ∀ s ∈ σ.db.storages, s.id = storageId → s ∈ τ.db.storages
  channels : ∀ c ∈ σ.db.channels, c.storageId = storageId → c ∈ τ.db.channels
  files : ∀ f ∈ σ.db.files, f.storageId = storageId → f ∈ τ.db.files
  chunks : ∀ f ∈ σ.db.files, f.storageId = storageId → ∀ c ∈ σ.db.chunks, c.fileId = f.id → c ∈ τ.db.chunks
  replicas : ∀ f ∈ σ.db.files, f.storageId = storageId → ∀ c ∈ σ.db.chunks, c.fileId = f.id →
    ∀ channel ∈ σ.db.channels, channel.storageId = storageId → ∀ r ∈ σ.db.replicas,
      r.chunkId = c.id → r.channelId = channel.id → r ∈ τ.db.replicas
  queue : ∀ m ∈ τ.messages, m ∈ σ.messages ∨
    ∀ c ∈ σ.db.channels, c.storageId = storageId → c.chatId ≠ m.chatId

/-! ## What deleting a storage leaves of the others -/

namespace Db

variable {db : Db} {n storageId : Uuid}

lemma Keys.mono {m : Uuid} (h : db.Keys n) (hle : n ≤ m) : db.Keys m where
  fileId := h.fileId
  chunkId := h.chunkId
  channelId := h.channelId
  chatId := h.chatId
  channelBelow c hc := (h.channelBelow c hc).trans_le hle
  storageBelow s hs := (h.storageBelow s hs).trans_le hle

lemma Keys.of_subset {db' : Db} (h : db.Keys n) (hfiles : db'.files ⊆ db.files) (hchunks : db'.chunks ⊆ db.chunks)
    (hchannels : db'.channels ⊆ db.channels) (hstorages : db'.storages ⊆ db.storages) : db'.Keys n where
  fileId f hf f' hf' := h.fileId f (hfiles hf) f' (hfiles hf')
  chunkId c hc c' hc' := h.chunkId c (hchunks hc) c' (hchunks hc')
  channelId c hc c' hc' := h.channelId c (hchannels hc) c' (hchannels hc')
  chatId c hc c' hc' := h.chatId c (hchannels hc) c' (hchannels hc')
  channelBelow c hc := h.channelBelow c (hchannels hc)
  storageBelow s hs := h.storageBelow s (hstorages hs)

lemma deleteEach_kept {f : FileRow} {ids : List Uuid} (hid : f.id ∉ ids)
    (hkeys : ∀ c ∈ db.chunks, ∀ c' ∈ db.chunks, c.id = c'.id → c = c') (hf : f ∈ db.files) :
    f ∈ (db.deleteEach ids).files ∧ ∀ c ∈ db.chunks, c.fileId = f.id → c ∈ (db.deleteEach ids).chunks ∧
      ∀ r ∈ db.replicas, r.chunkId = c.id → r ∈ (db.deleteEach ids).replicas := by
  induction ids generalizing db with
  | nil => exact ⟨hf, fun c hc _ => ⟨hc, fun r hr _ => hr⟩⟩
  | cons id ids ih =>
    obtain ⟨hne, hrest⟩ := not_or.mp (List.mem_cons.not.mp hid)
    unfold deleteEach
    split
    · exact ih hrest hkeys hf
    · next old hold =>
      obtain ⟨-, rfl⟩ := fileById_some hold
      have hsub : ∀ c ∈ (db.deleteFile old).chunks, c ∈ db.chunks := fun c hc => List.mem_of_mem_filter hc
      have hstays : f ∈ (db.deleteFile old).files := List.mem_filter.mpr ⟨hf, decide_eq_true hne⟩
      have hkeys' : ∀ c ∈ (db.deleteFile old).chunks, ∀ c' ∈ (db.deleteFile old).chunks, c.id = c'.id → c = c' :=
        fun c hc c' hc' => hkeys c (hsub c hc) c' (hsub c' hc')
      obtain ⟨hfile, hchunks⟩ := ih hrest hkeys' hstays
      refine ⟨hfile, fun c hc hcf => ?_⟩
      have hchunk : c ∈ (db.deleteFile old).chunks :=
        List.mem_filter.mpr ⟨hc, decide_eq_true (hcf ▸ hne)⟩
      obtain ⟨hkept, hreplicas⟩ := hchunks c hchunk hcf
      refine ⟨hkept, fun r hr hrc => hreplicas r ?_ hrc⟩
      refine List.mem_filter.mpr ⟨hr, decide_eq_true fun c' hc' hold' heq => ?_⟩
      obtain rfl := hkeys c' hc' c hc (heq.trans hrc)
      exact hne (hcf.symm.trans hold')

lemma deleteEach_storages (db : Db) (ids : List Uuid) : (db.deleteEach ids).storages = db.storages := by
  induction ids generalizing db with
  | nil => rfl
  | cons id ids ih =>
    unfold deleteEach
    split
    · exact ih db
    · exact ih _

lemma deleteStorageInTx_storages (storageId : Uuid) (order : List Uuid) :
    (db.deleteStorageInTx storageId order).storages = db.storages.filter fun s => s.id ≠ storageId := by
  unfold deleteStorageInTx deleteFiles
  exact congrArg _ (deleteEach_storages _ _)

lemma Keys.deleteStorageInTx (h : db.Keys n) (storageId : Uuid) (order : List Uuid) :
    (db.deleteStorageInTx storageId order).Keys n := by
  let base : Db := { db with workers := db.workers.filter fun w => w.storageId ≠ some storageId }
  obtain ⟨hfiles, hchunks, -, hchannels, -⟩ := base.deleteEach_sub
    (visitOrder order (base.idsWhere fun r => r.id ∈ base.idsWhere fun r => r.storageId = storageId))
  refine h.of_subset (fun f hf => hfiles f hf) (fun c hc => hchunks c hc) (fun c hc => ?_) ?_
  · have hold : c ∈ (base.deleteEach _).channels := (List.mem_filter.mp hc).1
    rw [hchannels] at hold
    exact hold
  · rw [deleteStorageInTx_storages]
    exact fun s hs => List.mem_of_mem_filter hs

lemma newChannels_keys (storageId id : Uuid) (position : Int) {chatIds : List Int} (hnodup : chatIds.Nodup) :
    (∀ c ∈ newChannels storageId id position chatIds,
        id ≤ c.id ∧ c.id < id + chatIds.length ∧ c.chatId ∈ chatIds) ∧
      ∀ c ∈ newChannels storageId id position chatIds, ∀ c' ∈ newChannels storageId id position chatIds,
        c.id = c'.id ∨ c.chatId = c'.chatId → c = c' := by
  induction chatIds generalizing id position with
  | nil => exact ⟨fun c hc => absurd hc List.not_mem_nil, fun c hc => absurd hc List.not_mem_nil⟩
  | cons chatId chatIds ih =>
    obtain ⟨hnew, hnodup⟩ := List.nodup_cons.mp hnodup
    obtain ⟨hbounds, hinj⟩ := ih (id + 1) (position + 1) hnodup
    have hother : ∀ c ∈ newChannels storageId (id + 1) (position + 1) chatIds, id ≠ c.id ∧ chatId ≠ c.chatId := by
      intro c hc
      obtain ⟨hlow, -, hchat⟩ := hbounds c hc
      exact ⟨Nat.ne_of_lt hlow, fun heq => hnew (heq ▸ hchat)⟩
    constructor
    · intro c hc
      obtain rfl | hc := List.mem_cons.mp hc
      · exact ⟨Nat.le_refl _, Nat.lt_add_of_pos_right (Nat.succ_pos _), List.mem_cons_self⟩
      · obtain ⟨hlow, hhigh, hchat⟩ := hbounds c hc
        refine ⟨Nat.le_of_succ_le hlow, ?_, List.mem_cons_of_mem _ hchat⟩
        rw [List.length_cons, Nat.add_comm chatIds.length 1, ← Nat.add_assoc]
        exact hhigh
    · intro c hc c' hc' hsame
      obtain rfl | hc := List.mem_cons.mp hc
      · obtain rfl | hc' := List.mem_cons.mp hc'
        · rfl
        · exact absurd hsame (not_or.mpr (hother c' hc'))
      · obtain rfl | hc' := List.mem_cons.mp hc'
        · exact absurd (hsame.imp Eq.symm Eq.symm) (not_or.mpr (hother c hc))
        · exact hinj c hc c' hc' hsame

lemma Keys.createStorage (h : db.Keys n) (chatIds : List Int) :
    (db.createStorage n chatIds).1.Keys (db.createStorage n chatIds).2 := by
  unfold Db.createStorage
  split
  · exact h.mono (Nat.le_succ n)
  · next hnot =>
    have hnodup : chatIds.Nodup := by
      by_contra hdup
      exact hnot (.inr (.inr (.inl hdup)))
    have hfree : ∀ chatId ∈ chatIds, ∀ c ∈ db.channels, c.chatId ≠ chatId :=
      fun chatId hin c hc heq => hnot (.inr (.inr (.inr ⟨chatId, hin, c, hc, heq⟩)))
    obtain ⟨hbounds, hinj⟩ := newChannels_keys n (n + 1) 1 hnodup
    have hapart : ∀ c ∈ db.channels, ∀ c' ∈ newChannels n (n + 1) 1 chatIds,
        c.id ≠ c'.id ∧ c.chatId ≠ c'.chatId := by
      intro c hc c' hc'
      have hold := h.channelBelow c hc
      obtain ⟨hlow, -, hchat⟩ := hbounds c' hc'
      exact ⟨Nat.ne_of_lt (Nat.lt_of_lt_of_le hold (Nat.le_of_succ_le hlow)), hfree c'.chatId hchat c hc⟩
    have hle : n ≤ n + 1 + chatIds.length := (Nat.le_succ n).trans (Nat.le_add_right _ _)
    refine ⟨h.fileId, h.chunkId, ?_, ?_, ?_, ?_⟩
    · intro c hc c' hc' heq
      obtain hc | hc := List.mem_append.mp hc
      · obtain hc' | hc' := List.mem_append.mp hc'
        · exact h.channelId c hc c' hc' heq
        · exact absurd heq (hapart c hc c' hc').1
      · obtain hc' | hc' := List.mem_append.mp hc'
        · exact absurd heq.symm (hapart c' hc' c hc).1
        · exact hinj c hc c' hc' (.inl heq)
    · intro c hc c' hc' heq
      obtain hc | hc := List.mem_append.mp hc
      · obtain hc' | hc' := List.mem_append.mp hc'
        · exact h.chatId c hc c' hc' heq
        · exact absurd heq (hapart c hc c' hc').2
      · obtain hc' | hc' := List.mem_append.mp hc'
        · exact absurd heq.symm (hapart c' hc' c hc).2
        · exact hinj c hc c' hc' (.inr heq)
    · intro c hc
      obtain hc | hc := List.mem_append.mp hc
      · exact Nat.lt_of_lt_of_le (h.channelBelow c hc) hle
      · exact (hbounds c hc).2.1
    · intro s hs
      obtain hs | hs := List.mem_append.mp hs
      · exact Nat.lt_of_lt_of_le (h.storageBelow s hs) hle
      · rw [List.mem_singleton.mp hs]
        exact Nat.lt_of_lt_of_le (Nat.lt_succ_self n) (Nat.le_add_right _ _)

lemma records_of_snapshotStorage {bot : StorageWorker} {messages : List (Int × Int)}
    (h : db.snapshotStorage storageId = some (bot, messages)) : ∀ m ∈ messages, db.Records storageId m := by
  intro m hm
  simp only [snapshotStorage] at h
  split at h
  · cases h
  · obtain ⟨bot', -, heq⟩ := Option.map_eq_some_iff.mp h
    cases heq
    exact mem_listed.mp (mem_snapshotMessages.mp hm)

end Db

namespace Site

variable {σ τ υ : Site} {n storageId : Uuid}

lemma Spares.refl (storageId : Uuid) (σ : Site) : σ.Spares storageId σ where
  storage _ hs _ := hs
  channels _ hc _ := hc
  files _ hf _ := hf
  chunks _ _ _ _ hc _ := hc
  replicas _ _ _ _ _ _ _ _ _ _ hr _ _ := hr
  queue _ hm := .inl hm

lemma Spares.trans (h : σ.Spares storageId τ) (h' : τ.Spares storageId υ) : σ.Spares storageId υ where
  storage s hs hid := h'.storage s (h.storage s hs hid) hid
  channels c hc hst := h'.channels c (h.channels c hc hst) hst
  files f hf hst := h'.files f (h.files f hf hst) hst
  chunks f hf hst c hc hcf := h'.chunks f (h.files f hf hst) hst c (h.chunks f hf hst c hc hcf) hcf
  replicas f hf hst c hc hcf channel hchannel hcst r hr hrc hrch :=
    h'.replicas f (h.files f hf hst) hst c (h.chunks f hf hst c hc hcf) hcf
      channel (h.channels channel hchannel hcst) hcst r
      (h.replicas f hf hst c hc hcf channel hchannel hcst r hr hrc hrch) hrc hrch
  queue m hm := by
    obtain hm | hother := h'.queue m hm
    · exact h.queue m hm
    · exact .inr fun c hc hst => hother c (h.channels c hc hst) hst

lemma spares_deleteStorageInTx (hkeys : σ.db.Keys n) {other : Uuid} (hne : storageId ≠ other)
    (order : List Uuid) : σ.Spares storageId (σ.setDb (σ.db.deleteStorageInTx other order)) := by
  let base : Db := { σ.db with workers := σ.db.workers.filter fun w => w.storageId ≠ some other }
  let visited := visitOrder order (base.idsWhere fun r => r.id ∈ base.idsWhere fun r => r.storageId = other)
  have hunvisited : ∀ f ∈ σ.db.files, f.storageId = storageId → f.id ∉ visited := by
    intro f hf hst hid
    rw [mem_visitOrder, mem_idsWhere] at hid
    obtain ⟨r, hr, hrid, heq⟩ := hid
    obtain ⟨r', hr', hrst, heq'⟩ := mem_idsWhere.mp (of_decide_eq_true hrid)
    have hrst : r'.storageId = other := of_decide_eq_true hrst
    obtain rfl := hkeys.fileId r' hr' f hf (heq'.trans heq)
    exact hne (hst.symm.trans hrst)
  have hkept := fun f hf hst => base.deleteEach_kept (hunvisited f hf hst) hkeys.chunkId hf
  refine ⟨?_, ?_, ?_, ?_, ?_, fun m hm => .inl hm⟩
  · intro s hs hid
    have hstays : s ∈ (base.deleteEach visited).storages := by
      rw [Db.deleteEach_storages]
      exact hs
    exact List.mem_filter.mpr ⟨hstays, decide_eq_true (hid ▸ hne)⟩
  · intro c hc hst
    have hstays : c ∈ (base.deleteEach visited).channels := by
      rw [(base.deleteEach_sub visited).2.2.2.1]
      exact hc
    exact List.mem_filter.mpr ⟨hstays, decide_eq_true (hst ▸ hne)⟩
  · exact fun f hf hst => (hkept f hf hst).1
  · exact fun f hf hst c hc hcf => ((hkept f hf hst).2 c hc hcf).1
  · intro f hf hst c hc hcf channel hchannel hcst r hr hrc hrch
    refine List.mem_filter.mpr ⟨((hkept f hf hst).2 c hc hcf).2 r hr hrc, decide_eq_true ?_⟩
    intro channel' hchannel' hcst' heq
    have hchannel' : channel' ∈ (base.deleteEach visited).channels := hchannel'
    rw [(base.deleteEach_sub visited).2.2.2.1] at hchannel'
    obtain rfl := hkeys.channelId channel' hchannel' channel hchannel (heq.trans hrch)
    exact hne (hcst.symm.trans hcst')

lemma process_enqueueSnapshot {snapshot : Option (StorageWorker × List (Int × Int))} {now : Instant}
    (hok : σ.enqueueSnapshot storageId snapshot now = .ok τ) : τ.process = σ.process := by
  unfold enqueueSnapshot enqueueInTx at hok
  split at hok
  · cases hok
    rfl
  · split at hok
    · cases hok
    · cases hok
      rfl

lemma spares_enqueueSnapshot (hkeys : σ.db.Keys n) {other : Uuid} (hne : storageId ≠ other) {now : Instant}
    {snapshot : Option (StorageWorker × List (Int × Int))}
    (hsnapshot : ∀ bot messages, snapshot = some (bot, messages) → ∀ m ∈ messages, σ.db.Records other m)
    (hok : σ.enqueueSnapshot other snapshot now = .ok τ) :
    σ.Spares storageId τ := by
  unfold enqueueSnapshot at hok
  split at hok
  · cases hok
    exact .refl storageId σ
  · next bot messages =>
    unfold enqueueInTx at hok
    split at hok
    · cases hok
    · cases hok
      refine { Spares.refl storageId σ with queue := fun m hm => ?_ }
      refine (List.mem_append.mp hm).imp_right fun hnew c hc hst heq => ?_
      have htarget : m.target ∈ messages := by
        rw [← target_newPurgeMessages σ.nextJob now σ.nextMessage messages]
        exact List.mem_map_of_mem hnew
      have hchannel : ∃ channel ∈ σ.db.channels, channel.storageId = other ∧ channel.chatId = m.chatId := by
        have hrecords := hsnapshot bot messages rfl m.target htarget
        generalize hm : m.target = target at hrecords
        have hchat : m.chatId = target.1 := congrArg Prod.fst hm
        rw [hchat]
        cases hrecords with
        | replica _ _ hchannel _ hst _ => exact ⟨_, hchannel, hst, rfl⟩
        | picture _ _ hchannel hst _ => exact ⟨_, hchannel, hst, rfl⟩
      obtain ⟨channel, hchannel, hother, hchat⟩ := hchannel
      obtain rfl := hkeys.chatId c hc channel hchannel (heq.trans hchat.symm)
      exact hne (hst.symm.trans hother)

end Site

namespace Estate

variable {superuserEmail : List Char} {σ τ : Estate} {n storageId : Uuid} {now : Instant}

/-- The keys, as they are when no call is under way. -/
def Sound (σ : Estate) : Prop :=
  σ.db.Keys σ.next

lemma Sound.fresh (maxVariables : Nat) : (fresh maxVariables).Sound where
  fileId _ hf := absurd hf List.not_mem_nil
  chunkId _ hc := absurd hc List.not_mem_nil
  channelId _ hc := absurd hc List.not_mem_nil
  chatId _ hc := absurd hc List.not_mem_nil
  channelBelow _ hc := absurd hc List.not_mem_nil
  storageBelow _ hs := absurd hs List.not_mem_nil

lemma Sound.settle (h : σ.Sound) (result : Except AccessError Roster) : (σ.settle result).Sound := by
  cases result <;> exact h

lemma Sound.removeUser (h : σ.Sound) (userId : Uuid) : (σ.removeUser userId).Sound :=
  Db.Keys.of_subset h (fun _ hf => hf) (fun _ hc => hc) (fun _ hc => hc) fun _ hs => hs

lemma Sound.create (h : σ.Sound) (actor : AuthUser) (name : List Char) (chatIds : List Int) :
    (σ.create superuserEmail actor name chatIds).1.Sound := by
  have hspent : (σ.withDb (σ.db, σ.next + 1)).Sound := h.mono (Nat.le_succ _)
  unfold Estate.create
  split
  · exact h
  · split
    · exact h
    · split
      · exact h
      · split
        · exact hspent
        · split
          · exact hspent
          · exact Db.Keys.createStorage h chatIds

lemma purgeStorage_cases (σ : Estate) (storageId : Uuid) (now : Instant) (order : List Uuid) :
    σ.purgeStorage storageId now order = (σ, .error .unknown) ∨
      ∃ site, σ.site.enqueueSnapshot storageId (σ.db.snapshotStorage storageId) now = .ok site ∧
        σ.purgeStorage storageId now order =
          ({ σ with
              site := site.setDb (site.db.deleteStorageInTx storageId order)
              roster := σ.roster.dropStorage storageId }, .ok ()) := by
  unfold purgeStorage
  cases σ.site.enqueueSnapshot storageId (σ.db.snapshotStorage storageId) now with
  | error e => exact .inl rfl
  | ok site => exact .inr ⟨site, rfl, rfl⟩

lemma Sound.purgeStorage (h : σ.Sound) (storageId : Uuid) (now : Instant) (order : List Uuid) :
    (σ.purgeStorage storageId now order).1.Sound ∧
      ∀ other, other ≠ storageId → σ.site.Spares other (σ.purgeStorage storageId now order).1.site := by
  obtain heq | ⟨site, hok, heq⟩ := σ.purgeStorage_cases storageId now order
  · rw [heq]
    exact ⟨h, fun other _ => .refl other σ.site⟩
  · rw [heq]
    have hqueued := fun other (hne : other ≠ storageId) =>
      Site.spares_enqueueSnapshot (σ := σ.site) h hne (fun _ _ => Db.records_of_snapshotStorage) hok
    have hprocess := Site.process_enqueueSnapshot hok
    have hkeys : site.db.Keys σ.site.process.next := by
      unfold Site.db
      rw [hprocess]
      exact h
    refine ⟨?_, fun other hne => (hqueued other hne).trans (Site.spares_deleteStorageInTx hkeys hne order)⟩
    have hnext : site.process.next = σ.site.process.next := congrArg _ hprocess
    unfold Sound
    show (site.db.deleteStorageInTx storageId order).Keys site.process.next
    rw [hnext]
    exact hkeys.deleteStorageInTx storageId order

lemma Sound.purgeOrphans (h : σ.Sound) (now : Instant) (order : Uuid → List Uuid) (ids : List Uuid) :
    (purgeOrphans now order σ ids).1.Sound ∧
      (∀ other, other ∉ ids → σ.site.Spares other (purgeOrphans now order σ ids).1.site) ∧
      ((purgeOrphans now order σ ids).2 = .ok () →
        (purgeOrphans now order σ ids).1.db.storages = σ.db.storages.filter fun s => s.id ∉ ids) := by
  induction ids generalizing σ with
  | nil =>
    refine ⟨h, fun other _ => .refl other σ.site, fun _ => ?_⟩
    exact (List.filter_eq_self.mpr fun s _ => decide_eq_true List.not_mem_nil).symm
  | cons id ids ih =>
    obtain ⟨hsound, hspares⟩ := h.purgeStorage id now (order id)
    obtain heq | ⟨site, hok, heq⟩ := σ.purgeStorage_cases id now (order id)
    · simp only [Estate.purgeOrphans, heq]
      exact ⟨h, fun other _ => .refl other σ.site, fun herr => by cases herr⟩
    · rw [heq] at hsound hspares
      obtain ⟨hsound', hspares', hstorages⟩ := ih hsound
      simp only [Estate.purgeOrphans, heq]
      refine ⟨hsound', fun other hother => ?_, fun hdone => ?_⟩
      · obtain ⟨hne, hrest⟩ := not_or.mp (List.mem_cons.not.mp hother)
        exact (hspares other hne).trans (hspares' other hrest)
      · rw [hstorages hdone]
        have hdb : site.db = σ.db := congrArg Process.db (Site.process_enqueueSnapshot hok)
        show (site.db.deleteStorageInTx id (order id)).storages.filter _ = _
        rw [Db.deleteStorageInTx_storages, hdb, List.filter_filter]
        refine List.filter_congr fun s _ => ?_
        simp only [List.mem_cons, not_or, ← Bool.decide_and]
        exact decide_eq_decide.mpr and_comm

lemma orphaned_iff {ρ : Roster} {userId : Uuid} :
    ρ.Orphaned superuserEmail userId storageId ↔ ρ.SoleAdmin superuserEmail userId storageId := by
  constructor
  · rintro ⟨halone, m, hm, rfl, hadmin⟩
    refine ⟨hadmin ▸ (Roster.mem_listUsersWithAccess.mp hm).2, fun id email hid hordinary hlevel => ?_⟩
    obtain ⟨t, ht⟩ := Option.ne_none_iff_exists'.mp hlevel
    exact halone ⟨id, email, t⟩ (Roster.mem_listUsersWithAccess.mpr ⟨hid, ht⟩) hordinary
  · intro h
    obtain ⟨email, hemail⟩ := Option.ne_none_iff_exists'.mp
      (Roster.level_ne_none (h.admin ▸ Option.some_ne_none AccessType.a))
    refine ⟨fun m hm hordinary => ?_, ⟨userId, email, .a⟩, ?_, rfl, rfl⟩
    · obtain ⟨hid, hlevel⟩ := Roster.mem_listUsersWithAccess.mp hm
      exact h.alone m.id m.email hid hordinary (hlevel ▸ Option.some_ne_none m.accessType)
    · exact Roster.mem_listUsersWithAccess.mpr ⟨hemail, h.admin⟩

lemma spares_removeUser (σ : Estate) (userId : Uuid) (storageId : Uuid) :
    σ.site.Spares storageId (σ.removeUser userId).site :=
  ⟨fun _ hs _ => hs, fun _ hc _ => hc, fun _ hf _ => hf, fun _ _ _ _ hc _ => hc,
    fun _ _ _ _ _ _ _ _ _ _ hr _ _ => hr, fun _ hm => .inl hm⟩

variable (superuserEmail) in
/-- What deleting a user leaves. -/
lemma Sound.deleteBySuperuser (h : σ.Sound) (actor : AuthUser) (userId : Uuid) (now : Instant)
    (order : Uuid → List Uuid) :
    (σ.deleteBySuperuser superuserEmail actor userId now order).1.Sound ∧
      (∀ storageId, ¬σ.roster.SoleAdmin superuserEmail userId storageId →
        σ.site.Spares storageId (σ.deleteBySuperuser superuserEmail actor userId now order).1.site) ∧
      ((σ.deleteBySuperuser superuserEmail actor userId now order).2 = .ok () → ∀ s ∈ σ.db.storages,
        s ∈ (σ.deleteBySuperuser superuserEmail actor userId now order).1.db.storages ↔
          ¬σ.roster.SoleAdmin superuserEmail userId s.id) := by
  unfold Estate.deleteBySuperuser
  split
  · exact ⟨h, fun storageId _ => .refl storageId σ.site, fun herr => by cases herr⟩
  · split
    · exact ⟨h, fun storageId _ => .refl storageId σ.site, fun herr => by cases herr⟩
    · split
      · exact ⟨h, fun storageId _ => .refl storageId σ.site, fun herr => by cases herr⟩
      · have hmem : ∀ id, id ∈ (σ.listByUserId userId).filter
              (fun id => σ.roster.Orphaned superuserEmail userId id) ↔
            id ∈ σ.storages ∧ σ.roster.SoleAdmin superuserEmail userId id := by
          intro id
          rw [List.mem_filter, decide_eq_true_eq, orphaned_iff, listByUserId, List.mem_insertionSort,
            List.mem_filter, decide_eq_true_eq]
          constructor
          · rintro ⟨⟨hid, -⟩, hsole⟩
            exact ⟨hid, hsole⟩
          · rintro ⟨hid, hsole⟩
            exact ⟨⟨hid, hsole.admin ▸ Option.some_ne_none AccessType.a⟩, hsole⟩
        generalize (σ.listByUserId userId).filter
          (fun id => σ.roster.Orphaned superuserEmail userId id) = orphaned at hmem
        obtain ⟨hsound, hspares, hstorages⟩ := h.purgeOrphans now order orphaned
        have hkept := fun storageId (hsole : ¬σ.roster.SoleAdmin superuserEmail userId storageId) =>
          hspares storageId fun hin => hsole ((hmem storageId).mp hin).2
        dsimp only
        split
        · next τ e heq =>
          rw [heq] at hsound hkept
          exact ⟨hsound, hkept, fun herr => by cases herr⟩
        · next τ heq =>
          rw [heq] at hsound hkept hstorages
          refine ⟨hsound.removeUser userId, fun storageId hsole => ?_, fun _ s hs => ?_⟩
          · exact (hkept storageId hsole).trans (τ.spares_removeUser userId storageId)
          · show s ∈ τ.db.storages ↔ _
            rw [hstorages rfl, List.mem_filter, decide_eq_true_eq, hmem]
            have hid : s.id ∈ σ.storages := List.mem_map_of_mem hs
            exact ⟨fun hnot hsole => hnot.2 ⟨hid, hsole⟩, fun hsole => ⟨hs, fun hin => hsole hin.2⟩⟩

lemma Sound.step (h : σ.Sound) (a : EstateAct) : (σ.step superuserEmail a).Sound := by
  cases a with
  | register email => exact h
  | create actor name chatIds => exact h.create actor name chatIds
  | member actor c => exact h.settle _
  | deleteStorage actor storageId now order =>
    simp only [Estate.step, Estate.deleteStorage]
    split
    · exact h
    · exact (h.purgeStorage storageId now order).1
  | deleteUser actor userId now order => exact (h.deleteBySuperuser superuserEmail actor userId now order).1
  | boot storageId =>
    simp only [Estate.step]
    split
    · exact h
    · split
      · exact h
      · exact h.settle _
  | others db next owners keys =>
    simp only [Estate.step]
    split
    · exact keys
    · exact h

/-- In any run, a user who is deleted takes along just the storages whose only admin it is, where nobody else
    has access but the superuser; every other storage keeps its rows, also where the deletion fails. -/
theorem deleteBySuperuser_takes (superuserEmail : List Char) (maxVariables : Nat) (acts : List EstateAct)
    (actor : AuthUser) (userId : Uuid) (now : Instant) (order : Uuid → List Uuid) :
    let σ := run (step superuserEmail) (fresh maxVariables) acts
    let deleted := σ.deleteBySuperuser superuserEmail actor userId now order
    (deleted.2 = .ok () → ∀ s ∈ σ.db.storages,
      s ∈ deleted.1.db.storages ↔ ¬σ.roster.SoleAdmin superuserEmail userId s.id) ∧
    ∀ storageId, ¬σ.roster.SoleAdmin superuserEmail userId storageId →
      σ.site.Spares storageId deleted.1.site := by
  intro σ deleted
  have hsound : σ.Sound := run_invariant (I := Sound) (fun _ a h => h.step a) (.fresh maxVariables) acts
  obtain ⟨-, hspares, hstorages⟩ := hsound.deleteBySuperuser superuserEmail actor userId now order
  exact ⟨hstorages, hspares⟩

open Members (root bob)

/-- The storage that Bob created goes with him. -/
theorem own_taken :
    let σ := run (step root.email) (fresh 32766)
      [.register root.email, .register bob.email, .create bob ['b'] [-100]]
    let deleted := σ.deleteBySuperuser root.email root bob.id 0 fun _ => []
    ∀ s ∈ σ.db.storages, s ∈ deleted.1.db.storages ↔ ¬σ.roster.SoleAdmin root.email bob.id s.id :=
  (deleteBySuperuser_takes root.email 32766 [.register root.email, .register bob.email, .create bob ['b'] [-100]]
    root bob.id 0 fun _ => []).1 (by decide +kernel)

def stocked : Db :=
  { Db.fresh [⟨1, 1⟩] with
    workers := [⟨3, some 1⟩]
    channels := [⟨2, 1, 1, -100, .active⟩]
    files := [(InFile.new "a.jpg".toList 1 1).toRow 4 true]
    chunks := [⟨5, 4, 0⟩]
    replicas := [.newUploaded 6 5 2 "a-1" 5] }

lemma stocked_keys : stocked.Keys 7 := by
  constructor <;> decide

/-- The superuser creates a storage and stores a file in it, and makes Bob an admin of it. -/
def shared : List EstateAct :=
  [.register root.email, .register bob.email, .create root ['s'] [-100],
    .others stocked 7 (AList.insert 3 root.id ∅) stocked_keys,
    .member root (.grantAccess 1 bob.email .a)]

/-- When Bob is deleted, the storage that the superuser created goes. -/
theorem shared_lost :
    let σ := run (step root.email) (fresh 32766) shared
    let deleted := σ.deleteBySuperuser root.email root bob.id 0 fun _ => []
    deleted.2 = .ok () ∧
      ¬∀ s ∈ σ.db.storages, ∀ creator, (s.id, creator) ∈ σ.creators → creator ≠ bob.id →
        σ.site.Spares s.id deleted.1.site := by
  intro σ deleted
  refine ⟨by decide +kernel, fun h => ?_⟩
  have hcreated : (1, root.id) ∈ σ.creators := by decide +kernel
  have hstorage : (⟨1, 1⟩ : Storage) ∈ σ.db.storages := by decide +kernel
  have hgone : (⟨1, 1⟩ : Storage) ∉ deleted.1.db.storages := by decide +kernel
  exact hgone ((h ⟨1, 1⟩ hstorage root.id hcreated (by decide)).storage ⟨1, 1⟩ hstorage rfl)

end Estate

end Sarca.Server
