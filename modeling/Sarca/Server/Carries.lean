import Sarca.Server.Hub

/-!
# What the steps carry over

`Db.Carries` is what most steps do to the rows: chunks come from old chunks, a replica stays with its chunk,
new replicas are pending, and a channel keeps its slot and its chat. `plain_cases` says that a step of the
process carries everything over or stores one chunk, and `markUploaded`, `markFailed` and the channels' calls
get one lemma each.
-/

namespace Sarca.Server
open Sarca.Lib

/-- A row stays in its storage, and is uploaded only if it was or is `marked`. -/
structure FileRow.Stays (marked : Option Uuid) (f f' : FileRow) : Prop where
  storage : f'.storageId = f.storageId
  uploaded : f'.isUploaded = true → f.isUploaded = true ∨ marked = some f.id

/-- A channel stays in its slot with its chat, and is active only if it was. -/
structure StorageChannel.Stays (ch ch' : StorageChannel) : Prop where
  id : ch'.id = ch.id
  storage : ch'.storageId = ch.storageId
  position : ch'.position = ch.position
  chat : ch'.chatId = ch.chatId
  active : ch'.isActive = true → ch.isActive = true

/-- A replica stays what it is; one that is not uploaded may change its status. -/
structure ChunkReplica.Stays (r r' : ChunkReplica) : Prop where
  id : r'.id = r.id
  chunk : r'.chunkId = r.chunkId
  channel : r'.channelId = r.channelId
  document : r'.telegramFileId = r.telegramFileId
  message : r'.telegramMessageId = r.telegramMessageId
  uploaded : r'.status = .uploaded ↔ r.status = .uploaded

lemma FileRow.Stays.refl (marked : Option Uuid) (f : FileRow) : f.Stays marked f :=
  ⟨rfl, Or.inl⟩

lemma StorageChannel.Stays.refl (ch : StorageChannel) : ch.Stays ch :=
  ⟨rfl, rfl, rfl, rfl, fun h => h⟩

lemma StorageChannel.Stays.trans {ch ch' ch'' : StorageChannel} (h : ch.Stays ch') (h' : ch'.Stays ch'') :
    ch.Stays ch'' :=
  ⟨h'.id.trans h.id, h'.storage.trans h.storage, h'.position.trans h.position, h'.chat.trans h.chat,
    fun hactive => h.active (h'.active hactive)⟩

lemma ChunkReplica.Stays.refl (r : ChunkReplica) : r.Stays r :=
  ⟨rfl, rfl, rfl, rfl, rfl, Iff.rfl⟩

namespace Db

def ChannelsStay (db db' : Db) : Prop :=
  ∃ f : StorageChannel → StorageChannel,
    db'.channels = db.channels.map f ∧ ∀ ch : StorageChannel, ch.Stays (f ch)

/-- The second database carries over what the first one holds, when `n` is the next fresh id and the row
    `marked` is set uploaded. -/
structure Carries (n : Uuid) (marked : Option Uuid) (db db' : Db) : Prop where
  files : ∀ f' ∈ db'.files, f'.id = n ∨ ∃ f ∈ db.files, f.id = f'.id ∧ f.Stays marked f'
  chunks : ∀ c' ∈ db'.chunks, ∃ c ∈ db.chunks, c.id = c'.id ∧ c.position = c'.position ∧
    (c'.fileId = c.fileId ∨ c'.fileId = n) ∧
    ∀ f' ∈ db'.files, f'.id = c'.fileId → ∃ f ∈ db.files, f.id = c.fileId ∧ f.Stays marked f'
  replicas : ∀ r' ∈ db'.replicas, (∃ r ∈ db.replicas, r.Stays r') ∨
    ∃ id chunkId channelId, n ≤ id ∧ r' = .newPending id chunkId channelId
  kept : ∀ r ∈ db.replicas, (∃ c' ∈ db'.chunks, c'.id = r.chunkId) →
    ∃ r' ∈ db'.replicas, r.Stays r'
  channels : ChannelsStay db db'

variable {db db' : Db} {n : Uuid} {marked : Option Uuid}

lemma chunks_carried (h : db.Intact n)
    (hfiles : ∀ f' ∈ db'.files, f'.id = n ∨ ∃ f ∈ db.files, f.id = f'.id ∧ f.Stays marked f')
    (hchunks : ∀ c ∈ db'.chunks, c ∈ db.chunks) :
    ∀ c' ∈ db'.chunks, ∃ c ∈ db.chunks, c.id = c'.id ∧ c.position = c'.position ∧
      (c'.fileId = c.fileId ∨ c'.fileId = n) ∧
      ∀ f' ∈ db'.files, f'.id = c'.fileId → ∃ f ∈ db.files, f.id = c.fileId ∧ f.Stays marked f' := by
  intro c hc
  refine ⟨c, hchunks c hc, rfl, rfl, Or.inl rfl, fun f' hf' hid => ?_⟩
  rcases hfiles f' hf' with hnew | ⟨f, hf, hfid, hstays⟩
  · obtain ⟨q, hq, hqid⟩ := h.chunkFile c (hchunks c hc)
    exact absurd (hqid.trans (hid.symm.trans hnew)) (h.fileBelow q hq).ne
  · exact ⟨f, hf, hfid.trans hid, hstays⟩

lemma channels_carried (heq : db'.channels = db.channels) : ChannelsStay db db' :=
  ⟨fun ch => ch, by rw [heq, List.map_id'], .refl⟩

lemma Carries.channel_of (h : Carries n marked db db') {ch' : StorageChannel} (hch : ch' ∈ db'.channels) :
    ∃ ch ∈ db.channels, ch.Stays ch' := by
  obtain ⟨f, heq, hf⟩ := h.channels
  rw [heq] at hch
  obtain ⟨ch, hold, rfl⟩ := List.mem_map.mp hch
  exact ⟨ch, hold, hf ch⟩

lemma Carries.channel (h : Carries n marked db db') {ch : StorageChannel} (hch : ch ∈ db.channels) :
    ∃ ch' ∈ db'.channels, ch.Stays ch' := by
  obtain ⟨f, heq, hf⟩ := h.channels
  exact ⟨f ch, heq ▸ List.mem_map_of_mem hch, hf ch⟩

lemma carries_same (h : db.Intact n) (hfiles : db'.files = db.files) (hchunks : db'.chunks = db.chunks)
    (hreplicas : db'.replicas = db.replicas) (hchannels : db'.channels = db.channels) :
    Carries n marked db db' := by
  have hrows : ∀ f' ∈ db'.files, f'.id = n ∨ ∃ f ∈ db.files, f.id = f'.id ∧ f.Stays marked f' :=
    fun f hf => Or.inr ⟨f, hfiles ▸ hf, rfl, .refl marked f⟩
  refine ⟨hrows, chunks_carried h hrows fun c hc => hchunks ▸ hc, ?_, ?_, ?_⟩
  · exact fun r hr => Or.inl ⟨r, hreplicas ▸ hr, .refl r⟩
  · exact fun r hr _ => ⟨r, hreplicas.symm ▸ hr, .refl r⟩
  · exact channels_carried hchannels

lemma Carries.refl (h : db.Intact n) : Carries n marked db db :=
  carries_same h rfl rfl rfl rfl

lemma Purged.carries (h : db.Intact n) {ids : List Uuid} (hp : Purged ids db db') :
    Carries n marked db db' := by
  have hrows : ∀ f' ∈ db'.files, f'.id = n ∨ ∃ f ∈ db.files, f.id = f'.id ∧ f.Stays marked f' :=
    fun f hf => Or.inr ⟨f, ((hp.files f).mp hf).1, rfl, .refl marked f⟩
  refine ⟨hrows, chunks_carried h hrows fun c hc => ((hp.chunks c).mp hc).1, ?_, ?_, ?_⟩
  · exact fun r hr => Or.inl ⟨r, ((hp.replicas r).mp hr).1, .refl r⟩
  · exact fun r hr hc => ⟨r, (hp.replicas r).mpr ⟨hr, hc⟩, .refl r⟩
  · exact channels_carried hp.channels

lemma carries_insertFile (h : db.Intact n) {row : FileRow} (hid : row.id = n)
    (hok : db.insertFile row = .ok db') : Carries n marked db db' := by
  have hrows : ∀ f' ∈ db'.files, f'.id = n ∨ ∃ f ∈ db.files, f.id = f'.id ∧ f.Stays marked f' := by
    intro f hf
    rcases (mem_insertFile hok).mp hf with hf | rfl
    · exact Or.inr ⟨f, hf, rfl, .refl marked f⟩
    · exact Or.inl hid
  obtain ⟨-, -, -, rfl⟩ := insertFile_ok hok
  refine ⟨hrows, chunks_carried h hrows fun c hc => hc, ?_, ?_, ?_⟩
  · exact fun r hr => Or.inl ⟨r, hr, .refl r⟩
  · exact fun r hr _ => ⟨r, hr, .refl r⟩
  · exact channels_carried rfl

lemma carries_replaceContent (h : db.Intact n) {fileId : Uuid} {expected : Option ContentHash}
    {retiredPath : Path} {incoming : InFile} {now : Instant}
    (hok : db.replaceContent fileId expected retiredPath incoming n now = .ok db') :
    Carries n marked db db' := by
  obtain ⟨current, hcur, hid, -, -, hint, hfiles, hchunks, hreplicas, hchannels, -⟩ :=
    replaceContent_ok h hok
  have hrows : ∀ f' ∈ db'.files, f'.id = n ∨ ∃ f ∈ db.files, f.id = f'.id ∧ f.Stays marked f' := by
    intro f hf
    rcases (hfiles f).mp hf with rfl | ⟨hf, -⟩ | ⟨-, rfl⟩
    · exact Or.inr ⟨current, hcur, rfl, rfl, fun hup => absurd hup Bool.false_ne_true⟩
    · exact Or.inr ⟨f, hf, rfl, .refl marked f⟩
    · exact Or.inl rfl
  refine ⟨hrows, ?_, ?_, ?_, ?_⟩
  · intro c' hc'
    rw [hchunks] at hc'
    obtain ⟨c, hc, rfl⟩ := List.mem_map.mp hc'
    refine ⟨c, hc, (movedChunk_id _ _ c).symm, (movedChunk_position _ _ c).symm, ?_, ?_⟩
    · unfold movedChunk
      split
      · exact Or.inr rfl
      · exact Or.inl rfl
    · intro f' hf' hfile
      unfold movedChunk at hfile
      split at hfile
      · case isTrue hmoved =>
        -- the row in the trash is the current one under the fresh id
        refine ⟨current, hcur, hid.trans hmoved.symm, ?_⟩
        rcases (hfiles f').mp hf' with rfl | ⟨hold, -⟩ | ⟨-, rfl⟩
        · exact absurd hfile (h.fileBelow current hcur).ne
        · exact absurd hfile (h.fileBelow f' hold).ne
        · exact ⟨rfl, Or.inl⟩
      · case isFalse hother =>
        rcases hrows f' hf' with hnew | ⟨f, hf, hfid, hstays⟩
        · obtain ⟨q, hq, hqid⟩ := h.chunkFile c hc
          exact absurd (hqid.trans (hfile.symm.trans hnew)) (h.fileBelow q hq).ne
        · exact ⟨f, hf, hfid.trans hfile, hstays⟩
  · exact fun r hr => Or.inl ⟨r, hreplicas ▸ hr, .refl r⟩
  · exact fun r hr _ => ⟨r, hreplicas.symm ▸ hr, .refl r⟩
  · exact channels_carried hchannels

lemma carries_setAsUploaded (h : db.Intact n) {fileId : Uuid} (hok : db.setAsUploaded fileId = .ok db') :
    Carries n (some fileId) db db' := by
  obtain ⟨db₁, hok₁, -, hfiles, hchunks, hreplicas, hchannels, -⟩ :=
    updateById_ok h.wf fileId inPlace_uploaded
  rw [setAsUploaded, hok₁] at hok
  cases hok
  have hrows : ∀ f' ∈ db'.files, f'.id = n ∨
      ∃ f ∈ db.files, f.id = f'.id ∧ f.Stays (some fileId) f' := by
    intro f hf
    obtain ⟨q, hq, rfl⟩ := (hfiles f).mp hf
    refine Or.inr ⟨q, hq, ?_⟩
    split
    · case isTrue hid => exact ⟨rfl, rfl, fun _ => Or.inr (congrArg some hid.symm)⟩
    · exact ⟨rfl, .refl _ q⟩
  refine ⟨hrows, chunks_carried h hrows fun c hc => hchunks ▸ hc, ?_, ?_, ?_⟩
  · exact fun r hr => Or.inl ⟨r, hreplicas ▸ hr, .refl r⟩
  · exact fun r hr _ => ⟨r, hreplicas.symm ▸ hr, .refl r⟩
  · exact channels_carried hchannels

lemma mem_newPendings {next : Uuid} {pairs : List (Uuid × Uuid)} {r : ChunkReplica}
    (h : r ∈ newPendings next pairs) :
    ∃ id chunkId channelId, next ≤ id ∧ (chunkId, channelId) ∈ pairs ∧
      r = .newPending id chunkId channelId := by
  induction pairs generalizing next with
  | nil => exact absurd h List.not_mem_nil
  | cons pair pairs ih =>
    obtain ⟨chunkId, channelId⟩ := pair
    cases List.mem_cons.mp h with
    | inl h => exact ⟨next, chunkId, channelId, Nat.le_refl next, List.mem_cons_self, h⟩
    | inr h =>
      obtain ⟨id, chunkId, channelId, hle, hpair, hr⟩ := ih h
      exact ⟨id, chunkId, channelId, Nat.le_of_succ_le hle, List.mem_cons_of_mem _ hpair, hr⟩

lemma Filled.carries (h : db.Intact n) {pairs : List (Uuid × Uuid)}
    (hf : Filled (newPendings n pairs) db db') : Carries n marked db db' := by
  have hrows : ∀ f' ∈ db'.files, f'.id = n ∨ ∃ f ∈ db.files, f.id = f'.id ∧ f.Stays marked f' :=
    fun f hfile => Or.inr ⟨f, hf.files ▸ hfile, rfl, .refl marked f⟩
  refine ⟨hrows, chunks_carried h hrows fun c hc => hf.chunks ▸ hc, ?_, ?_, ?_⟩
  · intro r hr
    rcases hf.new r hr with hr | hr
    · exact Or.inl ⟨r, hr, .refl r⟩
    · obtain ⟨id, chunkId, channelId, hle, -, heq⟩ := mem_newPendings hr
      exact Or.inr ⟨id, chunkId, channelId, hle, heq⟩
  · exact fun r hr _ => ⟨r, hf.kept r hr, .refl r⟩
  · exact channels_carried hf.channels

lemma carries_replicas (h : db.Intact n) {f : ChunkReplica → ChunkReplica}
    (hf : ∀ r ∈ db.replicas, r.Stays (f r)) :
    Carries n marked db { db with replicas := db.replicas.map f } := by
  refine { (Carries.refl h : Carries n marked db db) with replicas := ?_, kept := ?_ }
  · intro r' hr'
    obtain ⟨r, hr, rfl⟩ := List.mem_map.mp hr'
    exact Or.inl ⟨r, hr, hf r hr⟩
  · exact fun r hr _ => ⟨f r, List.mem_map_of_mem hr, hf r hr⟩

lemma Carries.dead (h : Carries n marked db db') (channelId : Uuid) :
    Carries n marked db (db'.updateChannelRow channelId fun c => { c with status := .dead }) := by
  have hdead : ∀ ch : StorageChannel,
      ch.Stays (if ch.id = channelId then { ch with status := .dead } else ch) := by
    intro ch
    split
    · exact ⟨rfl, rfl, rfl, rfl, fun hactive => absurd (of_decide_eq_true hactive) nofun⟩
    · exact .refl ch
  obtain ⟨f, heq, hf⟩ := h.channels
  refine ⟨h.files, h.chunks, h.replicas, h.kept, fun ch => _, ?_, fun ch => (hf ch).trans (hdead (f ch))⟩
  show db'.channels.map _ = _
  rw [heq, List.map_map]
  rfl

lemma Carries.withStorages (h : Carries n marked db db') (storages : List Storage) :
    Carries n marked db { db' with storages := storages } :=
  ⟨h.files, h.chunks, h.replicas, h.kept, h.channels⟩

lemma rotateFrom_eq (db : Db) (channel : StorageChannel) :
    ∃ storages, db.rotateFrom channel = { db with storages := storages } := by
  unfold rotateFrom
  split
  · exact ⟨_, rfl⟩
  · split
    · exact ⟨_, rfl⟩
    · split
      · exact ⟨_, rfl⟩
      · exact ⟨_, rfl⟩

lemma carries_rotateFrom (h : db.Intact n) (channel : StorageChannel) :
    Carries n marked db (db.rotateFrom channel) := by
  obtain ⟨storages, heq⟩ := rotateFrom_eq db channel
  rw [heq]
  exact carries_same h rfl rfl rfl rfl

lemma carries_channelDied (h : db.Intact n) (channelId : Uuid) :
    Carries n marked db (db.channelDied channelId) := by
  unfold channelDied
  split
  · exact .refl h
  · case h_2 channel hfind =>
    obtain ⟨storages, heq⟩ := rotateFrom_eq
      (db.updateChannelRow channelId fun c => { c with status := .dead }) channel
    rw [heq]
    exact ((Carries.refl h).dead channelId).withStorages storages

lemma resolvePrimaryChannel_inv {storage : Storage} {primary : StorageChannel}
    {active : List StorageChannel} (hok : db.resolvePrimaryChannel storage = .ok (primary, active, db')) :
    active = db.activeChannels storage.id ∧ primary ∈ active ∧
      ∃ storages, db' = { db with storages := storages } := by
  unfold resolvePrimaryChannel at hok
  dsimp only at hok
  split at hok
  · cases hok
  · case h_2 first hfirst =>
    simp only [Except.ok.injEq, Prod.mk.injEq] at hok
    obtain ⟨rfl, rfl, rfl⟩ := hok
    refine ⟨rfl, ?_, ?_⟩
    · rcases Option.or_eq_some_iff.mp hfirst with hfind | ⟨-, hhead⟩
      · exact List.mem_of_find?_eq_some hfind
      · exact List.mem_of_head? hhead
    · split
      · exact ⟨_, rfl⟩
      · exact ⟨_, rfl⟩

end Db

/-- The row that a request is about to set uploaded. -/
def Phase.marks : Phase → Option Uuid
  | .marking file _ => some file.id
  | _ => none

namespace Process

variable {σ : Process} {u : Upload} {o : Outcome}

/-- A turn of a request stores the chunk it sent. -/
inductive Stores (σ : Process) (u : Upload) : Db → Prop where
  | send {file channels plan ids position offset len target telegramFileId messageId db'}
      (h : u.phase = .sending file channels plan ids) (hslice : (position, offset, len) ∈ plan)
      (htarget : target ∈ channels)
      (hok : σ.db.createChunkWithReplica ⟨σ.next, file.id, toPosition position⟩
        (.newUploaded (σ.next + 1) σ.next target.id telegramFileId messageId) = .ok db') :
      Stores σ u db'

lemma carries_of_moves (h : σ.Intact) (hm : Moves σ u o) :
    Db.Carries σ.next u.phase.marks σ.db o.db ∨
      Stores σ u o.db ∧ ∃ file channels plan ids, o.phase = .sending file channels plan ids := by
  have hpurge : ∀ id purged phase,
      Db.Carries σ.next u.phase.marks σ.db (σ.purge id purged phase).db := by
    intro id purged phase
    cases purged with
    | false => exact .refl h.db
    | true => exact (Db.purged_hardDeleteIds h.db [id] []).2.carries h.db
  cases hm with
  | turn | refuse | linkFails => exact Or.inl (.refl h.db)
  | purge purged | drop purged => exact Or.inl (hpurge _ purged _)
  | replace hp hok => exact Or.inl (Db.carries_replaceContent h.db hok)
  | create hp hok => exact Or.inl (Db.carries_insertFile h.db rfl (Db.createFileRow_ok hok))
  | plan hp hok =>
    obtain ⟨-, -, storages, rfl⟩ := Db.resolvePrimaryChannel_inv hok
    exact Or.inl (Db.carries_same h.db rfl rfl rfl rfl)
  | send hp hslice htarget _ hok =>
    exact Or.inr ⟨.send hp hslice htarget hok, _, _, _, _, rfl⟩
  | link hp hreplicas hok =>
    subst hreplicas
    exact Or.inl ((Db.filled_insertBatch h.db (Db.idsFrom_newPendings _ _) hok).2.carries h.db)
  | mark hp hok =>
    rw [hp]
    exact Or.inl (Db.carries_setAsUploaded h.db hok)

lemma carries_edit (h : σ.Intact) {e : Edit} (he : (Step.edit e).Plain = true) :
    Db.Carries σ.next none σ.db (σ.edit e).db := by
  cases e with
  | channelDied channelId => exact Db.carries_channelDied h.db channelId
  | setWorkers workers => exact Db.carries_same h.db rfl rfl rfl rfl
  | retryFailed storageId =>
    refine Db.carries_replicas h.db fun r hr => ?_
    split
    · case isTrue hfailed =>
      refine ⟨rfl, rfl, rfl, rfl, rfl, fun hup => absurd hup nofun, fun hup => ?_⟩
      exact absurd (hfailed.1.symm.trans hup) nofun
    · exact .refl r
  | _ => cases he

lemma carries_of_other (h : σ.Intact) {s : Step} (hs : s.Plain = true) (hact : ∀ number a, s ≠ .act number a) :
    Db.Carries σ.next none σ.db (σ.step s).db := by
  cases s with
  | arrive number r =>
    rw [(σ.arrive_writes number r).1]
    exact .refl h.db
  | act number a => exact absurd rfl (hact number a)
  | disconnect number handed =>
    rw [step, (left_disconnect σ number handed).db]
    exact .refl h.db
  | edit e => exact carries_edit h hs
  | restart order => exact (Db.purged_hardDeleteIds h.db _ order).2.carries h.db

lemma carries_of_plain (h : σ.Intact) {s : Step} (hs : s.Plain = true) :
    (∃ marked, Db.Carries σ.next marked σ.db (σ.step s).db ∧
      ∀ id, marked = some id → ∃ u ∈ σ.uploads, u.standing.marks = some id) ∨
    ∃ u ∈ σ.uploads, Stores σ u (σ.step s).db := by
  cases s with
  | act number a =>
    rcases σ.step_act number a with heq | ⟨u, o, -, hu, ho, hm, heq⟩
    · rw [heq]
      exact Or.inl ⟨none, .refl h.db, nofun⟩
    · rw [heq]
      cases carries_of_moves h hm with
      | inl hc =>
        refine Or.inl ⟨u.phase.marks, hc, fun id hid => ⟨u, hu, ?_⟩⟩
        rw [standing_of_act ho]
        exact hid
      | inr hst => exact Or.inr ⟨u, hu, hst.1⟩
  | _ => exact Or.inl ⟨none, carries_of_other h hs nofun, nofun⟩

lemma next_le_step (h : σ.Intact) (s : Step) : σ.next ≤ (σ.step s).next :=
  (db_step h.db s).2

end Process

/-! ## What the rows of a later database come from -/

/-- `id` is the primary key of `storage_channels`. -/
def Db.ChannelKey (db : Db) : Prop :=
  ∀ ch ∈ db.channels, ∀ ch' ∈ db.channels, ch.id = ch'.id → ch = ch'

/-- Files, channels and uploaded replicas are new ones or were there before. -/
structure Db.Follows (n : Uuid) (db db' : Db) : Prop where
  key : db.ChannelKey → db'.ChannelKey
  files : ∀ f' ∈ db'.files, n ≤ f'.id ∨ ∃ f ∈ db.files, f.id = f'.id ∧ f.storageId = f'.storageId
  channels : ∀ ch' ∈ db'.channels,
    n ≤ ch'.id ∨ ∃ ch ∈ db.channels, ch.id = ch'.id ∧ ch.storageId = ch'.storageId
  uploaded : ∀ r' ∈ db'.replicas, r'.status = .uploaded →
    n ≤ r'.id ∨ ∃ r ∈ db.replicas, r.id = r'.id ∧ r.status = .uploaded

namespace Db

variable {db db' : Db} {n m : Uuid} {marked : Option Uuid}

lemma Follows.refl (n : Uuid) (db : Db) : Follows n db db :=
  ⟨fun h => h, fun f hf => Or.inr ⟨f, hf, rfl, rfl⟩, fun ch hch => Or.inr ⟨ch, hch, rfl, rfl⟩,
    fun r hr hup => Or.inr ⟨r, hr, rfl, hup⟩⟩

lemma ChannelKey.map (h : db.ChannelKey) {f : StorageChannel → StorageChannel}
    (hf : ∀ ch, (f ch).id = ch.id) (heq : db'.channels = db.channels.map f) : db'.ChannelKey := by
  unfold ChannelKey
  rw [heq]
  intro ch hch ch' hch' hid
  obtain ⟨q, hq, rfl⟩ := List.mem_map.mp hch
  obtain ⟨q', hq', rfl⟩ := List.mem_map.mp hch'
  rw [hf, hf] at hid
  rw [h q hq q' hq' hid]

lemma Carries.follows (h : Carries n marked db db') : Follows n db db' where
  key := by
    intro hkey
    obtain ⟨f, heq, hf⟩ := h.channels
    exact hkey.map (fun ch => (hf ch).id) heq
  files := by
    intro f' hf'
    rcases h.files f' hf' with hnew | ⟨f, hf, hid, hstays⟩
    · exact Or.inl hnew.ge
    · exact Or.inr ⟨f, hf, hid, hstays.storage.symm⟩
  channels := by
    intro ch' hch'
    obtain ⟨ch, hch, hstays⟩ := h.channel_of hch'
    exact Or.inr ⟨ch, hch, hstays.id.symm, hstays.storage.symm⟩
  uploaded := by
    intro r' hr' hup
    rcases h.replicas r' hr' with ⟨r, hr, hstays⟩ | ⟨id, chunkId, channelId, hle, rfl⟩
    · exact Or.inr ⟨r, hr, hstays.id.symm, hstays.uploaded.mp hup⟩
    · exact Or.inl hle

lemma follows_chunks (chunks : List FileChunk) : Follows n db { db with chunks := chunks } :=
  let h := Follows.refl n db
  ⟨h.key, h.files, h.channels, h.uploaded⟩

lemma follows_createChunkWithReplica {chunk : FileChunk} {replica : ChunkReplica} (hid : n ≤ replica.id)
    (hok : db.createChunkWithReplica chunk replica = .ok db') : Follows n db db' := by
  obtain ⟨-, -, -, rfl⟩ := createChunkWithReplica_ok hok
  refine { Follows.refl n db with uploaded := ?_ }
  intro r hr hup
  cases List.mem_append.mp hr with
  | inl hr => exact Or.inr ⟨r, hr, rfl, hup⟩
  | inr hr => exact Or.inl (List.mem_singleton.mp hr ▸ hid)

lemma follows_deleteChannel (channelId : Uuid) : Follows n db (db.deleteChannel channelId) :=
  ⟨fun hkey ch hch ch' hch' =>
      hkey ch (List.mem_of_mem_filter hch) ch' (List.mem_of_mem_filter hch'),
    fun f hf => Or.inr ⟨f, hf, rfl, rfl⟩,
    fun ch hch => Or.inr ⟨ch, List.mem_of_mem_filter hch, rfl, rfl⟩,
    fun r hr hup => Or.inr ⟨r, List.mem_of_mem_filter hr, rfl, hup⟩⟩

lemma follows_updateChannelRow (channelId : Uuid) {f : StorageChannel → StorageChannel}
    (hf : ∀ ch, (f ch).id = ch.id ∧ (f ch).storageId = ch.storageId) :
    Follows n db (db.updateChannelRow channelId f) := by
  have hsame : ∀ ch : StorageChannel,
      (if ch.id = channelId then f ch else ch).id = ch.id ∧
        (if ch.id = channelId then f ch else ch).storageId = ch.storageId := by
    intro ch
    split
    · exact hf ch
    · exact ⟨rfl, rfl⟩
  refine { Follows.refl n db with key := fun hkey => ?_, channels := ?_ }
  · exact hkey.map (fun ch => (hsame ch).1) rfl
  · intro ch' hch'
    obtain ⟨ch, hch, rfl⟩ := List.mem_map.mp hch'
    exact Or.inr ⟨ch, hch, (hsame ch).1.symm, (hsame ch).2.symm⟩

lemma follows_insertChannel (h : db.Intact n) {channel : StorageChannel} (hid : channel.id = n) :
    Follows n db { db with channels := db.channels ++ [channel] } := by
  refine { Follows.refl n db with key := fun hkey => ?_, channels := ?_ }
  · intro ch hch ch' hch' heq
    cases List.mem_append.mp hch with
    | inl hch =>
      cases List.mem_append.mp hch' with
      | inl hch' => exact hkey ch hch ch' hch' heq
      | inr hch' =>
        rw [List.mem_singleton.mp hch', hid] at heq
        exact absurd heq (h.channelBelow ch hch).ne
    | inr hch =>
      cases List.mem_append.mp hch' with
      | inl hch' =>
        rw [List.mem_singleton.mp hch, hid] at heq
        exact absurd heq (h.channelBelow ch' hch').ne'
      | inr hch' => rw [List.mem_singleton.mp hch, List.mem_singleton.mp hch']
  · intro ch hch
    cases List.mem_append.mp hch with
    | inl hch => exact Or.inr ⟨ch, hch, rfl, rfl⟩
    | inr hch => exact Or.inl (List.mem_singleton.mp hch ▸ hid.ge)

lemma Filled.follows {replicas : List ChunkReplica} (hf : Filled replicas db db')
    (hids : ∀ r ∈ replicas, n ≤ r.id) : Follows n db db' where
  key := fun hkey => hkey.map (fun _ => rfl) (hf.channels.trans (List.map_id' _).symm)
  files := fun f hfile => Or.inr ⟨f, hf.files ▸ hfile, rfl, rfl⟩
  channels := fun ch hch => Or.inr ⟨ch, hf.channels ▸ hch, rfl, rfl⟩
  uploaded := by
    intro r hr hup
    rcases hf.new r hr with hr | hr
    · exact Or.inr ⟨r, hr, rfl, hup⟩
    · exact Or.inl (hids r hr)

end Db

end Sarca.Server
