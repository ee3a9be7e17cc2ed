import Mathlib.Data.List.Zip
import Sarca.Server.Ledger
import Sarca.Server.Stored

/-!
# Replica rows tell the truth about their chats

`Ledger.Honest` is what faithful runs keep: every row that speaks names a message in its channel's chat with
its chunk's bytes, and so does what copies of files and the replicator have read. `Honest.write` is the rule
for all statements; it asks where the rows come from (`Db.Writes`) and what is new. `truthful_of_faithful`
draws from it what the rows mean in every state of a faithful run.
-/

namespace Sarca.Server
open Sarca.Lib

namespace Ledger

/-- A row that speaks names a message in its channel's chat, and a document, with its chunk's bytes. -/
def Tells (Λ : Ledger) (r : ChunkReplica) : Prop :=
  r.Speaks → (∀ ch ∈ Λ.db.channels, ch.id = r.channelId → Λ.Put ch.chatId r.telegramMessageId r.chunkId) ∧
    ∀ telegramFileId ∈ r.telegramFileId,
      Λ.hub.process.documentOf telegramFileId = some (Λ.contents r.chunkId)

def Reads (Λ : Ledger) : ClonePhase → Prop
  | .chunking _ chunks => ∀ chunk ∈ chunks, chunk.id < Λ.next
  | .listing pairs => ∀ pair ∈ pairs, pair.1 < Λ.next ∧ pair.2 < Λ.next ∧
    Λ.contents pair.2 = Λ.contents pair.1
  | .filling replicas => ∀ r ∈ replicas, r.chunkId < Λ.next ∧ r.channelId < Λ.next ∧ Λ.Tells r
  | _ => True

def Knows (Λ : Ledger) : CallPhase → Prop
  | .repointing channelId _ | .reading channelId => channelId < Λ.next
  | .queueing channelId chunkIds => channelId < Λ.next ∧ ∀ chunkId ∈ chunkIds, chunkId < Λ.next
  | _ => True

/-- The row of a job is still what it was when it was read. -/
def Names (Λ : Ledger) (j : Job) : Prop :=
  j.row.chunkId < Λ.next ∧ ∀ r ∈ Λ.db.replicas, r.id = j.row.id →
    r.chunkId = j.row.chunkId ∧ r.channelId = j.row.channelId

/-- The source of a job holds the bytes of its chunk. -/
def Backs (Λ : Ledger) (c : Copying) : Prop :=
  Λ.hub.process.documentOf c.telegramFileId = some (Λ.contents c.job.row.chunkId) ∧
    (c.telegramMessageId.isSome = true → Λ.Put c.chatId c.telegramMessageId c.job.row.chunkId)

def Has (Λ : Ledger) (e : Uuid × Uuid) : Prop :=
  (∃ c ∈ Λ.db.chunks, c.id = e.2) → (∃ ch ∈ Λ.db.channels, ch.id = e.1) →
    ∃ r ∈ Λ.db.replicas, r.chunkId = e.2 ∧ r.channelId = e.1

structure Honest (Λ : Ledger) : Prop where
  sound : Λ.hub.Sound
  apart : ∀ p ∈ Λ.posts, ∀ q ∈ Λ.posts, p.chatId = q.chatId → p.telegramMessageId = q.telegramMessageId →
    p.telegramMessageId.isSome = true → p.bytes = q.bytes
  rows : ∀ r ∈ Λ.db.replicas, Λ.Tells r
  clones : ∀ c ∈ Λ.hub.clones, Λ.Reads c.phase
  calls : ∀ c ∈ Λ.hub.calls, Λ.Knows c.phase
  jobs : ∀ j ∈ Λ.hub.underWay, Λ.Names j
  copying : ∀ c, Λ.hub.copying = some c → Λ.Backs c
  queued : ∀ e ∈ Λ.queued, e.1 < Λ.next ∧ e.2 < Λ.next ∧ Λ.Has e

end Ledger

/-! ## Frames -/

namespace Db

/-- What a statement writes: rows of chunks, channels and replicas that were there, fresh ones, and the
    replicas that are `New`. The channel `moved` may get another chat. -/
structure Writes (n : Uuid) (moved : Option Uuid) (New : ChunkReplica → Prop) (db db' : Db) : Prop where
  chunks : ∀ c' ∈ db'.chunks, n ≤ c'.id ∨ ∃ c ∈ db.chunks, c.id = c'.id
  channels : ∀ ch' ∈ db'.channels, n ≤ ch'.id ∨
    ∃ ch ∈ db.channels, ch.id = ch'.id ∧ (ch.chatId = ch'.chatId ∨ moved = some ch'.id)
  replicas : ∀ r' ∈ db'.replicas, (∃ r ∈ db.replicas, r.Stays r') ∨ New r'
  ids : ∀ r' ∈ db'.replicas, n ≤ r'.id ∨
    ∃ r ∈ db.replicas, r.id = r'.id ∧ r.chunkId = r'.chunkId ∧ r.channelId = r'.channelId
  kept : ∀ r ∈ db.replicas, (∃ c' ∈ db'.chunks, c'.id = r.chunkId) →
    (∃ ch' ∈ db'.channels, ch'.id = r.channelId) →
    ∃ r' ∈ db'.replicas, r'.chunkId = r.chunkId ∧ r'.channelId = r.channelId

variable {db db' : Db} {n : Uuid} {marked moved : Option Uuid} {New : ChunkReplica → Prop}

lemma Carries.writes (h : Carries n marked db db') : Writes n none (fun r => ¬r.Speaks) db db' where
  chunks := by
    intro c' hc'
    obtain ⟨c, hc, hid, -⟩ := h.chunks c' hc'
    exact Or.inr ⟨c, hc, hid⟩
  channels := by
    intro ch' hch'
    obtain ⟨ch, hch, hstays⟩ := h.channel_of hch'
    exact Or.inr ⟨ch, hch, hstays.id.symm, Or.inl hstays.chat.symm⟩
  replicas := by
    intro r' hr'
    rcases h.replicas r' hr' with hold | ⟨id, chunkId, channelId, -, rfl⟩
    · exact Or.inl hold
    · exact Or.inr fun hspeaks => hspeaks.elim nofun nofun
  ids := by
    intro r' hr'
    rcases h.replicas r' hr' with ⟨r, hr, hstays⟩ | ⟨id, chunkId, channelId, hle, rfl⟩
    · exact Or.inr ⟨r, hr, hstays.id.symm, hstays.chunk.symm, hstays.channel.symm⟩
    · exact Or.inl hle
  kept := by
    intro r hr hchunk _
    obtain ⟨r', hr', hstays⟩ := h.kept r hr hchunk
    exact ⟨r', hr', hstays.chunk, hstays.channel⟩

lemma Writes.refl (n : Uuid) (New : ChunkReplica → Prop) (db : Db) : Writes n none New db db where
  chunks := fun c hc => Or.inr ⟨c, hc, rfl⟩
  channels := fun ch hch => Or.inr ⟨ch, hch, rfl, Or.inl rfl⟩
  replicas := fun r hr => Or.inl ⟨r, hr, .refl r⟩
  ids := fun r hr => Or.inr ⟨r, hr, rfl, rfl, rfl⟩
  kept := fun r hr _ _ => ⟨r, hr, rfl, rfl⟩

lemma writes_chunks {chunks : List FileChunk} (hids : ∀ c ∈ chunks, n ≤ c.id) :
    Writes n none New db { db with chunks := db.chunks ++ chunks } := by
  have h := Writes.refl n New db
  refine ⟨fun c hc => ?_, h.channels, h.replicas, h.ids, fun r hr _ _ => ⟨r, hr, rfl, rfl⟩⟩
  cases List.mem_append.mp hc with
  | inl hc => exact Or.inr ⟨c, hc, rfl⟩
  | inr hc => exact Or.inl (hids c hc)

lemma writes_createChunkWithReplica {chunk : FileChunk} {replica : ChunkReplica} (hchunk : n ≤ chunk.id)
    (hreplica : n ≤ replica.id) (hok : db.createChunkWithReplica chunk replica = .ok db') :
    Writes n none (· = replica) db db' := by
  obtain ⟨-, -, -, rfl⟩ := createChunkWithReplica_ok hok
  have h := Writes.refl n (· = replica) db
  refine ⟨fun c hc => ?_, h.channels, fun r hr => ?_, fun r hr => ?_,
    fun r hr _ _ => ⟨r, List.mem_append_left _ hr, rfl, rfl⟩⟩
  · cases List.mem_append.mp hc with
    | inl hc => exact Or.inr ⟨c, hc, rfl⟩
    | inr hc => exact Or.inl (List.mem_singleton.mp hc ▸ hchunk)
  · exact (List.mem_append.mp hr).imp (fun hr => ⟨r, hr, .refl r⟩) List.mem_singleton.mp
  · cases List.mem_append.mp hr with
    | inl hr => exact Or.inr ⟨r, hr, rfl, rfl, rfl⟩
    | inr hr => exact Or.inl (List.mem_singleton.mp hr ▸ hreplica)

lemma writes_deleteChannel (channelId : Uuid) : Writes n none New db (db.deleteChannel channelId) where
  chunks := fun c hc => Or.inr ⟨c, hc, rfl⟩
  channels := fun ch hch => Or.inr ⟨ch, List.mem_of_mem_filter hch, rfl, Or.inl rfl⟩
  replicas := fun r hr => Or.inl ⟨r, List.mem_of_mem_filter hr, .refl r⟩
  ids := fun r hr => Or.inr ⟨r, List.mem_of_mem_filter hr, rfl, rfl, rfl⟩
  kept := by
    intro r hr _ ⟨ch, hch, hid⟩
    refine ⟨r, List.mem_filter.mpr ⟨hr, ?_⟩, rfl, rfl⟩
    exact hid ▸ (List.mem_filter.mp hch).2

lemma writes_insertChannel {channel : StorageChannel} (hid : n ≤ channel.id) :
    Writes n none New db { db with channels := db.channels ++ [channel] } := by
  have h := Writes.refl n New db
  refine ⟨h.chunks, fun ch hch => ?_, h.replicas, h.ids, fun r hr _ _ => ⟨r, hr, rfl, rfl⟩⟩
  cases List.mem_append.mp hch with
  | inl hch => exact Or.inr ⟨ch, hch, rfl, Or.inl rfl⟩
  | inr hch => exact Or.inl (List.mem_singleton.mp hch ▸ hid)

lemma writes_repoint (channelId : Uuid) (chatId : Int)
    (hmoved : moved = some channelId ∨ ∀ ch ∈ db.channels, ch.id = channelId → ch.chatId = chatId) :
    Writes n moved New db (db.updateChannelRow channelId fun ch =>
      { ch with chatId := chatId, status := .active }) := by
  have h := Writes.refl n New db
  refine ⟨h.chunks, fun ch' hch' => ?_, h.replicas, h.ids, fun r hr _ _ => ⟨r, hr, rfl, rfl⟩⟩
  obtain ⟨ch, hch, rfl⟩ := List.mem_map.mp hch'
  refine Or.inr ⟨ch, hch, ?_⟩
  split
  · case isTrue hid =>
    refine ⟨rfl, hmoved.symm.imp (fun hsame => hsame ch hch hid) fun hmoved => ?_⟩
    rw [hmoved, hid]
  · exact ⟨rfl, Or.inl rfl⟩

lemma Filled.writes {replicas : List ChunkReplica} (hf : Filled replicas db db')
    (hids : ∀ r ∈ replicas, n ≤ r.id) : Writes n none (· ∈ replicas) db db' where
  chunks := fun c hc => Or.inr ⟨c, hf.chunks ▸ hc, rfl⟩
  channels := fun ch hch => Or.inr ⟨ch, hf.channels ▸ hch, rfl, Or.inl rfl⟩
  replicas := fun r hr => (hf.new r hr).imp_left fun hr => ⟨r, hr, .refl r⟩
  ids := by
    intro r hr
    rcases hf.new r hr with hr | hr
    · exact Or.inr ⟨r, hr, rfl, rfl, rfl⟩
    · exact Or.inl (hids r hr)
  kept := fun r hr _ _ => ⟨r, hf.kept r hr, rfl, rfl⟩

lemma writes_updateReplica (id : Uuid) {f : ChunkReplica → ChunkReplica}
    (hf : ∀ r, (f r).id = r.id ∧ (f r).chunkId = r.chunkId ∧ (f r).channelId = r.channelId) :
    Writes n none (fun r' => ∃ r ∈ db.replicas, r.id = id ∧ r' = f r) db (db.updateReplica id f) := by
  have h := Writes.refl n (fun r' => ∃ r ∈ db.replicas, r.id = id ∧ r' = f r) db
  refine ⟨h.chunks, h.channels, fun r' hr' => ?_, fun r' hr' => ?_, fun r hr _ _ => ?_⟩
  · obtain ⟨r, hr, rfl⟩ := List.mem_map.mp hr'
    split
    · case isTrue hid => exact Or.inr ⟨r, hr, hid, rfl⟩
    · exact Or.inl ⟨r, hr, .refl r⟩
  · obtain ⟨r, hr, rfl⟩ := List.mem_map.mp hr'
    refine Or.inr ⟨r, hr, ?_⟩
    split
    · exact ⟨(hf r).1.symm, (hf r).2.1.symm, (hf r).2.2.symm⟩
    · exact ⟨rfl, rfl, rfl⟩
  · refine ⟨_, List.mem_map_of_mem hr, ?_⟩
    split
    · exact (hf r).2
    · exact ⟨rfl, rfl⟩

end Db

namespace Ledger

variable {Λ Λ' : Ledger} {moved : Option Uuid} {New : ChunkReplica → Prop}

structure Grows (Λ Λ' : Ledger) : Prop where
  next : Λ.next ≤ Λ'.next
  posts : ∀ p ∈ Λ.posts, p ∈ Λ'.posts
  apart : ∀ p ∈ Λ'.posts, ∀ q ∈ Λ'.posts, p.chatId = q.chatId →
    p.telegramMessageId = q.telegramMessageId → p.telegramMessageId.isSome = true → p.bytes = q.bytes
  contents : ∀ id, id < Λ.next → Λ'.contents id = Λ.contents id
  documents : ∀ telegramFileId bytes, Λ.hub.process.documentOf telegramFileId = some bytes →
    Λ'.hub.process.documentOf telegramFileId = some bytes

lemma Grows.put (hg : Grows Λ Λ') {chatId : Int} {telegramMessageId : Option Int} {chunkId : Uuid}
    (hchunk : chunkId < Λ.next) (h : Λ.Put chatId telegramMessageId chunkId) :
    Λ'.Put chatId telegramMessageId chunkId := by
  unfold Put
  rw [hg.contents chunkId hchunk]
  exact hg.posts _ h

lemma Tells.grows (hg : Grows Λ Λ') (hdb : Db.Writes Λ.next moved New Λ.db Λ'.db) {r : ChunkReplica}
    (hchunk : r.chunkId < Λ.next) (hchannel : r.channelId < Λ.next)
    (hmoved : moved = some r.channelId → ¬r.Speaks) (h : Λ.Tells r) : Λ'.Tells r := by
  intro hspeaks
  obtain ⟨hput, hdocument⟩ := h hspeaks
  constructor
  · intro ch' hch' hid
    rcases hdb.channels ch' hch' with hfresh | ⟨ch, hch, hchid, hchat | hmove⟩
    · exact absurd hchannel (Nat.not_lt.mpr (hid ▸ hfresh))
    · rw [← hchat]
      exact hg.put hchunk (hput ch hch (hchid.trans hid))
    · exact absurd hspeaks (hmoved (hid ▸ hmove))
  · intro telegramFileId hfile
    rw [hg.contents _ hchunk]
    exact hg.documents _ _ (hdocument telegramFileId hfile)

lemma Tells.stays {r r' : ChunkReplica} (hstays : r.Stays r') (h : Λ.Tells r) : Λ.Tells r' := by
  intro hspeaks
  have hspoke : r.Speaks := by
    unfold ChunkReplica.Speaks at hspeaks ⊢
    rw [← hstays.uploaded, ← hstays.message]
    exact hspeaks
  unfold Tells at h
  rw [hstays.channel, hstays.message, hstays.chunk, hstays.document]
  exact h hspoke

/-- The rule for every statement: rows that were there, and what is new. -/
lemma Honest.write (h : Λ.Honest) (hs : Λ'.hub.Sound) (hg : Grows Λ Λ')
    (hdb : Db.Writes Λ.next moved New Λ.db Λ'.db) (hmoved : ∀ id, moved = some id → Λ.Silent id)
    (hnew : ∀ r ∈ Λ'.db.replicas, New r → Λ'.Tells r)
    (hclones : ∀ c ∈ Λ'.hub.clones, c ∈ Λ.hub.clones ∨ Λ'.Reads c.phase)
    (hcalls : ∀ c ∈ Λ'.hub.calls, c ∈ Λ.hub.calls ∨ Λ'.Knows c.phase)
    (hjobs : ∀ j ∈ Λ'.hub.underWay, j ∈ Λ.hub.underWay ∨ Λ'.Names j)
    (hcopying : ∀ c, Λ'.hub.copying = some c → Λ.hub.copying = some c ∨ Λ'.Backs c)
    (hqueued : ∀ e ∈ Λ'.queued, e ∈ Λ.queued ∨ e.1 < Λ'.next ∧ e.2 < Λ'.next ∧ Λ'.Has e) : Λ'.Honest where
  sound := hs
  apart := hg.apart
  rows := by
    intro r' hr'
    rcases hdb.replicas r' hr' with ⟨r, hr, hstays⟩ | hfresh
    · refine Tells.stays hstays (Tells.grows hg hdb ?_ ?_ ?_ (h.rows r hr))
      · obtain ⟨c, hc, hid⟩ := h.sound.intact.db.replicaChunk r hr
        exact hid ▸ h.sound.intact.db.chunkBelow c hc
      · obtain ⟨ch, hch, hid⟩ := h.sound.intact.db.replicaChannel r hr
        exact hid ▸ h.sound.intact.db.channelBelow ch hch
      · exact fun hmove => (hmoved _ hmove).1 r hr rfl
    · exact hnew r' hr' hfresh
  clones := by
    intro c hc
    rcases hclones c hc with hold | hreads
    · have hread := h.clones c hold
      cases hp : c.phase with
      | chunking fileId chunks =>
        rw [hp] at hread
        exact fun chunk hchunk => Nat.lt_of_lt_of_le (hread chunk hchunk) hg.next
      | listing pairs =>
        rw [hp] at hread
        intro pair hpair
        obtain ⟨hfirst, hsecond, hsame⟩ := hread pair hpair
        refine ⟨Nat.lt_of_lt_of_le hfirst hg.next, Nat.lt_of_lt_of_le hsecond hg.next, ?_⟩
        rw [hg.contents _ hfirst, hg.contents _ hsecond]
        exact hsame
      | filling replicas =>
        rw [hp] at hread
        intro r hr
        obtain ⟨hchunk, hchannel, htells⟩ := hread r hr
        refine ⟨Nat.lt_of_lt_of_le hchunk hg.next, Nat.lt_of_lt_of_le hchannel hg.next,
          htells.grows hg hdb hchunk hchannel fun hmove => ?_⟩
        exact (hmoved _ hmove).2 c hold r (by rw [hp]; exact hr) rfl
      | _ => trivial
    · exact hreads
  calls := by
    intro c hc
    rcases hcalls c hc with hold | hknows
    · have hknow := h.calls c hold
      cases hp : c.phase with
      | repointing | reading =>
        rw [hp] at hknow
        exact Nat.lt_of_lt_of_le hknow hg.next
      | queueing channelId chunkIds =>
        rw [hp] at hknow
        exact ⟨Nat.lt_of_lt_of_le hknow.1 hg.next,
          fun chunkId hid => Nat.lt_of_lt_of_le (hknow.2 chunkId hid) hg.next⟩
      | _ => trivial
    · exact hknows
  jobs := by
    intro j hj
    rcases hjobs j hj with hold | hnames
    · obtain ⟨hchunk, hrow⟩ := h.jobs j hold
      refine ⟨Nat.lt_of_lt_of_le hchunk hg.next, fun r' hr' hid => ?_⟩
      rcases hdb.ids r' hr' with hfresh | ⟨r, hr, hrid, hrc, hrch⟩
      · exact absurd (h.sound.waiting j hold).1 (Nat.not_lt.mpr (hid ▸ hfresh))
      · obtain ⟨hc, hch⟩ := hrow r hr (hrid.trans hid)
        exact ⟨hrc.symm.trans hc, hrch.symm.trans hch⟩
    · exact hnames
  copying := by
    intro c hc
    rcases hcopying c hc with hold | hbacks
    · obtain ⟨hdocument, hput⟩ := h.copying c hold
      have hchunk : c.job.row.chunkId < Λ.next :=
        (h.jobs c.job (Hub.underWay_copying hold ▸ List.mem_cons_self)).1
      refine ⟨?_, fun hsome => hg.put hchunk (hput hsome)⟩
      rw [hg.contents _ hchunk]
      exact hg.documents _ _ hdocument
    · exact hbacks
  queued := by
    intro e he
    rcases hqueued e he with hold | hnew
    · obtain ⟨hchannel, hchunk, hhas⟩ := h.queued e hold
      refine ⟨Nat.lt_of_lt_of_le hchannel hg.next, Nat.lt_of_lt_of_le hchunk hg.next, ?_⟩
      rintro ⟨c', hc', hcid⟩ ⟨ch', hch', hchid⟩
      obtain ⟨r, hr, hrc, hrch⟩ : ∃ r ∈ Λ.db.replicas, r.chunkId = e.2 ∧ r.channelId = e.1 := by
        apply hhas
        · rcases hdb.chunks c' hc' with hfresh | ⟨c, hc, hid⟩
          · exact absurd hchunk (Nat.not_lt.mpr (hcid ▸ hfresh))
          · exact ⟨c, hc, hid.trans hcid⟩
        · rcases hdb.channels ch' hch' with hfresh | ⟨ch, hch, hid, -⟩
          · exact absurd hchannel (Nat.not_lt.mpr (hchid ▸ hfresh))
          · exact ⟨ch, hch, hid.trans hchid⟩
      obtain ⟨r', hr', hrc', hrch'⟩ :=
        hdb.kept r hr ⟨c', hc', hcid.trans hrc.symm⟩ ⟨ch', hch', hchid.trans hrch.symm⟩
      exact ⟨r', hr', hrc'.trans hrc, hrch'.trans hrch⟩
    · exact hnew

end Ledger

/-! ## The relays -/

namespace Process

variable {σ : Process}

lemma documents_step (σ : Process) (s : Step) : ∃ more, (σ.step s).documents = σ.documents ++ more := by
  have hsame : (σ.step s).documents = σ.documents → ∃ more, (σ.step s).documents = σ.documents ++ more :=
    fun heq => ⟨[], heq.trans (List.append_nil _).symm⟩
  cases s with
  | arrive number r =>
    exact hsame (σ.arrive_writes number r).2.1
  | act number a =>
    rcases σ.step_act number a with heq | ⟨u, o, -, -, -, hm, heq⟩
    · exact hsame (congrArg documents heq)
    · rw [heq]
      cases hm with
      | send | refuse => exact ⟨_, rfl⟩
      | purge purged | drop purged => cases purged <;> exact ⟨[], (List.append_nil _).symm⟩
      | _ => exact ⟨[], (List.append_nil _).symm⟩
  | disconnect number handed =>
    apply hsame
    unfold step disconnect
    dsimp only
    split
    · rfl
    · split <;> rfl
  | edit e =>
    cases e with
    | reuploaded job source telegramFileId messageId =>
      unfold step edit
      dsimp only
      split
      · split
        · exact ⟨[], (List.append_nil _).symm⟩
        · exact ⟨_, rfl⟩
      · exact ⟨[], (List.append_nil _).symm⟩
    | copyFailed | copied =>
      apply hsame
      unfold step edit
      dsimp only
      split <;> rfl
    | _ => exact hsame rfl
  | restart order => exact hsame rfl

lemma documentOf_append {telegramFileId : String} {bytes : Bytes} {τ : Process}
    (hgrow : ∃ more, τ.documents = σ.documents ++ more) (h : σ.documentOf telegramFileId = some bytes) :
    τ.documentOf telegramFileId = some bytes := by
  obtain ⟨more, heq⟩ := hgrow
  unfold documentOf at h ⊢
  rw [heq, List.lookup_append, h, Option.some_or]

lemma carries_unsent (h : σ.Intact) {s : Step} (hs : s.Plain = true)
    (hsend : ∀ number position telegramFileId telegramMessageId,
      s ≠ .act number (.send position telegramFileId telegramMessageId)) :
    ∃ marked, Db.Carries σ.next marked σ.db (σ.step s).db := by
  cases s with
  | act number a =>
    rcases σ.step_act number a with heq | ⟨u, o, -, -, ho, hm, heq⟩
    · rw [heq]
      exact ⟨none, .refl h.db⟩
    · rw [heq]
      rcases carries_of_moves h hm with hcarries | ⟨hst, hon⟩
      · exact ⟨_, hcarries⟩
      · obtain ⟨file, channels, plan, ids, hp⟩ : ∃ file channels plan ids,
            u.phase = .sending file channels plan ids := by
          cases hst with
          | send hp => exact ⟨_, _, _, _, hp⟩
        obtain ⟨position, telegramFileId, telegramMessageId, rfl⟩ := Hub.send_of_act hp ho hon
        exact absurd rfl (hsend number position telegramFileId telegramMessageId)
  | _ => exact ⟨none, carries_of_other h hs nofun⟩

/-- A relay sends a chunk, or nothing happens. -/
lemma step_send (σ : Process) (number position : Nat) (telegramFileId : String) (telegramMessageId : Int) :
    σ.step (.act number (.send position telegramFileId telegramMessageId)) = σ ∧
        (telegramFileId ∈ σ.documents.map (·.1) ∨ σ.sendTo number position = none) ∨
      ∃ target bytes fileId slot, σ.sendTo number position = some (target, bytes) ∧
        telegramFileId ∉ σ.documents.map (·.1) ∧
        (σ.step (.act number (.send position telegramFileId telegramMessageId))).documents =
          σ.documents ++ [(telegramFileId, bytes)] ∧
        ((σ.step (.act number (.send position telegramFileId telegramMessageId))).db = σ.db ∨
          σ.db.createChunkWithReplica ⟨σ.next, fileId, slot⟩
            (.newUploaded (σ.next + 1) σ.next target.id telegramFileId telegramMessageId) =
              .ok (σ.step (.act number (.send position telegramFileId telegramMessageId))).db) := by
  cases hu : σ.upload? number with
  | none => exact Or.inl ⟨by simp only [step, hu], Or.inr (by simp only [sendTo, hu])⟩
  | some u =>
    cases hp : u.phase with
    | sending file channels plan ids =>
      cases hslice : plan.find? (fun slice => slice.1 = position) with
      | none =>
        have hact : σ.act u (.send position telegramFileId telegramMessageId) = none := by
          simp only [act, hp, send, hslice]
        exact Or.inl ⟨by simp only [step, hu, hact], Or.inr (by simp only [sendTo, hu, hp, hslice])⟩
      | some slice =>
        obtain ⟨position', offset, len⟩ := slice
        cases htarget : channels[position % channels.length]? with
        | none =>
          have hact : σ.act u (.send position telegramFileId telegramMessageId) = none := by
            simp only [act, hp, send, hslice, htarget]
          exact Or.inl ⟨by simp only [step, hu, hact], Or.inr (by simp only [sendTo, hu, hp, hslice, htarget])⟩
        | some target =>
          have hto : σ.sendTo number position = some (target, (u.request.body.drop offset).take len) := by
            simp only [sendTo, hu, hp, hslice, htarget]
          have hact : σ.act u (.send position telegramFileId telegramMessageId) =
              σ.send u.request file channels plan ids position telegramFileId telegramMessageId := by
            simp only [act, hp]
          simp only [send, hslice, htarget] at hact
          split at hact
          · case isTrue hused => exact Or.inl ⟨by simp only [step, hu, hact], Or.inl hused⟩
          · case isFalse hfresh =>
            right
            split at hact
            · rw [step_act_eq hu hact]
              exact ⟨target, _, file.id, toPosition position, hto, hfresh, rfl, Or.inl rfl⟩
            · case h_2 db' hok =>
              rw [step_act_eq hu hact]
              exact ⟨target, _, file.id, toPosition position, hto, hfresh, rfl, Or.inr hok⟩
    | _ => exact Or.inl ⟨by simp only [step, hu, act, hp], Or.inr (by simp only [sendTo, hu, hp])⟩

end Process

/-! ## Steps -/

lemma ids_newChunks {fileId next : Uuid} {chunks : List FileChunk} {c : FileChunk}
    (hc : c ∈ newChunks fileId next chunks) : next ≤ c.id := by
  induction chunks generalizing next with
  | nil => exact absurd hc List.not_mem_nil
  | cons d chunks ih =>
    cases List.mem_cons.mp hc with
    | inl hc => exact hc ▸ Nat.le_refl next
    | inr hc => exact Nat.le_of_succ_le (ih hc)

lemma nodup_newChunks (fileId next : Uuid) (chunks : List FileChunk) :
    ((newChunks fileId next chunks).map (·.id)).Nodup := by
  induction chunks generalizing next with
  | nil => exact List.nodup_nil
  | cons c chunks ih =>
    refine List.nodup_cons.mpr ⟨fun hmem => ?_, ih (next + 1)⟩
    obtain ⟨d, hd, hid⟩ := List.mem_map.mp hmem
    exact absurd (ids_newChunks hd) (hid ▸ Nat.not_succ_le_self next)

namespace Ledger

variable {Λ : Ledger} {τ : Hub} {a : HubStep} {moved : Option Uuid} {New : ChunkReplica → Prop}

lemma contentsAfter_of_lt {id : Uuid} (hlt : id < Λ.next) (a : HubStep) :
    Λ.contentsAfter a id = Λ.contents id := by
  cases a with
  | serve s =>
    cases s with
    | act number a =>
      cases a with
      | send position telegramFileId telegramMessageId =>
        unfold contentsAfter
        dsimp only
        split
        · exact if_neg hlt.ne
        · rfl
      | _ => rfl
    | _ => rfl
  | clone c =>
    unfold contentsAfter
    dsimp only
    split
    · case h_1 fileId chunks hp =>
      split
      · case h_1 source hlookup =>
        obtain ⟨before, behind, heq, -⟩ := List.lookup_eq_some_iff.mp hlookup
        have hmem : (id, source) ∈
            ((newChunks fileId Λ.next chunks).map (·.id)).zip (chunks.map (·.id)) :=
          heq ▸ List.mem_append_right _ List.mem_cons_self
        obtain ⟨c, hc, hid⟩ := List.mem_map.mp (List.of_mem_zip hmem).1
        exact absurd (ids_newChunks hc) (Nat.not_le.mpr (hid ▸ hlt))
      · rfl
    · rfl
  | _ => rfl

lemma Honest.grows (h : Λ.Honest) (hfree : ¬Λ.Taken a) (hle : Λ.next ≤ τ.next)
    (hdocuments : ∃ more, τ.process.documents = Λ.hub.process.documents ++ more) :
    Grows Λ (Λ.after a τ) where
  next := hle
  posts := fun p hp => List.mem_append_left _ hp
  apart := by
    have hnew : ∀ p ∈ Λ.posts, ∀ q ∈ Λ.post a, p.chatId = q.chatId →
        p.telegramMessageId ≠ q.telegramMessageId :=
      fun p hp q hq hchat hmessage => hfree ⟨q, hq, p, hp, hchat, hmessage⟩
    intro p hp q hq hchat hmessage hsome
    cases List.mem_append.mp hp with
    | inl hp =>
      cases List.mem_append.mp hq with
      | inl hq => exact h.apart p hp q hq hchat hmessage hsome
      | inr hq => exact absurd hmessage (hnew p hp q (Option.mem_toList.mp hq) hchat)
    | inr hp =>
      cases List.mem_append.mp hq with
      | inl hq => exact absurd hmessage.symm (hnew q hq p (Option.mem_toList.mp hp) hchat.symm)
      | inr hq =>
        have heq := (Option.mem_toList.mp hp).symm.trans (Option.mem_toList.mp hq)
        rw [Option.some.inj heq]
  contents := fun id hlt => contentsAfter_of_lt hlt a
  documents := fun telegramFileId bytes hfound => Process.documentOf_append hdocuments hfound

lemma Honest.after (h : Λ.Honest) (hfree : ¬Λ.Taken a) (hs : τ.Sound) (hle : Λ.next ≤ τ.next)
    (hdocuments : ∃ more, τ.process.documents = Λ.hub.process.documents ++ more)
    (hdb : Db.Writes Λ.next moved New Λ.db τ.db) (hmoved : ∀ id, moved = some id → Λ.Silent id)
    (hnew : ∀ r ∈ τ.db.replicas, New r → (Λ.after a τ).Tells r)
    (hclones : ∀ c ∈ τ.clones, c ∈ Λ.hub.clones ∨ (Λ.after a τ).Reads c.phase)
    (hcalls : ∀ c ∈ τ.calls, c ∈ Λ.hub.calls ∨ (Λ.after a τ).Knows c.phase)
    (hjobs : ∀ j ∈ τ.underWay, j ∈ Λ.hub.underWay ∨ (Λ.after a τ).Names j)
    (hcopying : ∀ c, τ.copying = some c → Λ.hub.copying = some c ∨ (Λ.after a τ).Backs c)
    (hqueued : ∀ e ∈ Λ.queuedBy a, e.1 < Λ.next ∧ e.2 < Λ.next ∧ (Λ.after a τ).Has e) :
    (Λ.after a τ).Honest := by
  refine h.write hs (h.grows hfree hle hdocuments) hdb hmoved hnew hclones hcalls hjobs hcopying ?_
  intro e he
  refine (List.mem_append.mp he).imp_right fun he => ?_
  obtain ⟨hchannel, hchunk, hhas⟩ := hqueued e he
  exact ⟨Nat.lt_of_lt_of_le hchannel hle, Nat.lt_of_lt_of_le hchunk hle, hhas⟩

/-- A relay sends a chunk to the chat that its channel points at. -/
lemma Honest.send (h : Λ.Honest) {number position : Nat} {telegramFileId : String} {telegramMessageId : Int}
    (ha : a = .serve (.act number (.send position telegramFileId telegramMessageId)))
    (hfaithful : Faithful Λ a) (hfree : ¬Λ.Taken a) (hs : τ.Sound)
    (hτ : τ = Λ.hub.withProcess
      (Λ.hub.process.step (.act number (.send position telegramFileId telegramMessageId)))) :
    (Λ.after a τ).Honest := by
  have hle : Λ.next ≤ τ.next := by
    rw [hτ]
    exact Process.next_le_step h.sound.intact _
  have hdocuments : ∃ more, τ.process.documents = Λ.hub.process.documents ++ more := by
    rw [hτ]
    exact Process.documents_step Λ.hub.process _
  have hclones : τ.clones = Λ.hub.clones := by rw [hτ]; rfl
  have hcalls : τ.calls = Λ.hub.calls := by rw [hτ]; rfl
  have hjobs : τ.underWay = Λ.hub.underWay := by rw [hτ]; rfl
  have hcopying : τ.copying = Λ.hub.copying := by rw [hτ]; rfl
  have hqueued : Λ.queuedBy a = [] := by rw [ha]; rfl
  have hrule : ∀ {New : ChunkReplica → Prop}, Db.Writes Λ.next none New Λ.db τ.db →
      (∀ r ∈ τ.db.replicas, New r → (Λ.after a τ).Tells r) → (Λ.after a τ).Honest := by
    intro New hdb hnew
    exact h.after hfree hs hle hdocuments hdb nofun hnew (fun c hc => Or.inl (hclones ▸ hc))
      (fun c hc => Or.inl (hcalls ▸ hc)) (fun j hj => Or.inl (hjobs ▸ hj))
      (fun c hc => Or.inl (hcopying ▸ hc)) fun e he => absurd (hqueued ▸ he) List.not_mem_nil
  have hidle : τ.db = Λ.db → (Λ.after a τ).Honest := by
    intro hsame
    exact hrule (hsame.symm ▸ Db.Writes.refl Λ.next (fun _ => False) Λ.db) fun _ _ => False.elim
  rcases Λ.hub.process.step_send number position telegramFileId telegramMessageId with
    ⟨hsame, -⟩ | ⟨target, bytes, fileId, slot, hto, hfresh, hdocs, hsame | hok⟩
  · exact hidle (by rw [hτ]; exact congrArg Process.db hsame)
  · exact hidle (by rw [hτ]; exact hsame)
  · have hdb : Λ.db.createChunkWithReplica ⟨Λ.next, fileId, slot⟩
        (.newUploaded (Λ.next + 1) Λ.next target.id telegramFileId telegramMessageId) = .ok τ.db := by
      rw [hτ]
      exact hok
    refine hrule (Db.writes_createChunkWithReplica (Nat.le_refl _) (Nat.le_succ _) hdb) ?_
    -- the new row names the message that goes to the chat of its channel
    rintro r - rfl -
    have hcontents : (Λ.after a τ).contents Λ.next = bytes := by
      show Λ.contentsAfter a Λ.next = bytes
      rw [ha, contentsAfter, hto]
      exact if_pos rfl
    have hpost : Λ.post a = some ⟨target.chatId, some telegramMessageId, bytes⟩ := by
      rw [ha, post, if_neg hfresh, hto]
      rfl
    constructor
    · intro ch hch hid
      have hch' : ch ∈ Λ.db.channels := by
        have hchannels := congrArg Db.channels (Db.createChunkWithReplica_ok hdb).2.2.2
        exact hchannels ▸ hch
      have hchat : ch.chatId = target.chatId := by
        rw [ha] at hfaithful
        exact hfaithful _ hto ch hch' hid
      refine List.mem_append_right _ (Option.mem_toList.mpr (hpost.trans ?_))
      rw [hchat]
      exact congrArg (fun bytes => some (Post.mk target.chatId (some telegramMessageId) bytes)) hcontents.symm
    · intro found hfound
      obtain rfl := Option.some.inj hfound
      refine Eq.trans ?_ (congrArg some hcontents.symm)
      show τ.process.documentOf telegramFileId = some bytes
      have hprocess : τ.process.documents = Λ.hub.process.documents ++ [(telegramFileId, bytes)] := by
        rw [hτ]
        exact hdocs
      unfold Process.documentOf
      rw [hprocess, List.lookup_append, lookup_fresh hfresh, List.lookup_cons_self, Option.none_or]

lemma Honest.serve (h : Λ.Honest) {s : Step} (hplain : s.Plain = true) (hfaithful : Faithful Λ (.serve s))
    (hfree : ¬Λ.Taken (.serve s)) (hs : τ.Sound) (hτ : τ = Λ.hub.withProcess (Λ.hub.process.step s)) :
    (Λ.after (.serve s) τ).Honest := by
  by_cases hsend : ∃ number position telegramFileId telegramMessageId,
      s = .act number (.send position telegramFileId telegramMessageId)
  · obtain ⟨number, position, telegramFileId, telegramMessageId, rfl⟩ := hsend
    exact h.send rfl hfaithful hfree hs hτ
  · obtain ⟨marked, hcarries⟩ := Process.carries_unsent h.sound.intact hplain
      fun number position telegramFileId telegramMessageId heq => hsend ⟨_, _, _, _, heq⟩
    subst hτ
    exact h.after hfree hs (Process.next_le_step h.sound.intact s) (Process.documents_step _ s)
      hcarries.writes nofun (fun r _ hquiet hspeaks => absurd hspeaks hquiet)
      (fun c hc => Or.inl hc) (fun c hc => Or.inl hc) (fun j hj => Or.inl hj) (fun c hc => Or.inl hc) nofun

end Ledger

/-! ## The calls and the copies -/

namespace Ledger

variable {Λ : Ledger} {τ : Hub}

/-- A statement of a call. -/
lemma Honest.call (h : Λ.Honest) {c : ChannelCall} (hc : c ∈ Λ.hub.calls) (hfaithful : Λ.FaithfulCall c.phase)
    (hfree : ¬Λ.Taken (.call c)) (hs : τ.Sound) (ht : Hub.CallTurn Λ.hub c τ) :
    (Λ.after (.call c) τ).Honest := by
  have hdb : Λ.db.Intact Λ.next := h.sound.intact.db
  have hknows := h.calls c hc
  have hrule : ∀ {τ : Hub} {moved : Option Uuid}, τ.Sound → Λ.next ≤ τ.next →
      τ.process.documents = Λ.hub.process.documents →
      Db.Writes Λ.next moved (fun r => ¬r.Speaks) Λ.db τ.db → (∀ id, moved = some id → Λ.Silent id) →
      τ.clones = Λ.hub.clones → τ.underWay = Λ.hub.underWay → τ.copying = Λ.hub.copying →
      (∀ d ∈ τ.calls, d ∈ Λ.hub.calls ∨ (Λ.after (.call c) τ).Knows d.phase) →
      (∀ e ∈ Λ.queuedBy (.call c), e.1 < Λ.next ∧ e.2 < Λ.next ∧ (Λ.after (.call c) τ).Has e) →
      (Λ.after (.call c) τ).Honest := by
    intro τ moved hs hle hdocuments hdb hmoved hclones hwork hcopying hcalls hqueued
    exact h.after hfree hs hle ⟨[], hdocuments.trans (List.append_nil _).symm⟩ hdb hmoved
      (fun r _ hquiet hspeaks => absurd hspeaks hquiet) (fun d hd => Or.inl (hclones ▸ hd)) hcalls
      (fun j hj => Or.inl (hwork ▸ hj)) (fun d hd => Or.inl (hcopying ▸ hd)) hqueued
  have hquiet : (∀ channelId chunkIds, c.phase ≠ .queueing channelId chunkIds) →
      ∀ {τ : Hub}, ∀ e ∈ Λ.queuedBy (.call c), e.1 < Λ.next ∧ e.2 < Λ.next ∧ (Λ.after (.call c) τ).Has e := by
    intro hother τ e he
    have hnil : Λ.queuedBy (.call c) = [] := by
      unfold queuedBy
      dsimp only
      split
      · case h_1 channelId chunkIds hp => exact absurd hp (hother channelId chunkIds)
      · rfl
    exact absurd (hnil ▸ he) List.not_mem_nil
  have hend : ∀ {τ : Hub}, ∀ d ∈ Λ.hub.calls.erase c, d ∈ Λ.hub.calls ∨ (Λ.after (.call c) τ).Knows d.phase :=
    fun d hd => Or.inl (List.mem_of_mem_erase hd)
  have hon : ∀ {τ : Hub} {phase : CallPhase}, (Λ.after (.call c) τ).Knows phase →
      ∀ d ∈ (⟨c.storageId, phase⟩ :: Λ.hub.calls.erase c : List ChannelCall),
        d ∈ Λ.hub.calls ∨ (Λ.after (.call c) τ).Knows d.phase := by
    intro τ phase hphase d hd
    cases List.mem_cons.mp hd with
    | inl hd => exact Or.inr (hd ▸ hphase)
    | inr hd => exact Or.inl (List.mem_of_mem_erase hd)
  have hstays : Db.Writes Λ.next none (fun r => ¬r.Speaks) Λ.db Λ.db := .refl _ _ _
  -- what a catch-up leaves for the chunks on its list
  have hdealt : ∀ {τ : Hub} {channelId : Uuid} {chunkIds : List Uuid}, c.phase = .queueing channelId chunkIds →
      (∀ chunkId ∈ chunkIds, (Λ.after (.call c) τ).Has (channelId, chunkId)) →
      ∀ e ∈ Λ.queuedBy (.call c), e.1 < Λ.next ∧ e.2 < Λ.next ∧ (Λ.after (.call c) τ).Has e := by
    intro τ channelId chunkIds hp hhas e he
    rw [hp] at hknows
    simp only [queuedBy, hp, if_pos hc] at he
    obtain ⟨chunkId, hid, rfl⟩ := List.mem_map.mp he
    exact ⟨hknows.1, hknows.2 chunkId hid, hhas chunkId hid⟩
  cases ht with
  | refuses hp =>
    refine hrule hs (Nat.le_refl _) rfl hstays nofun rfl rfl rfl hend (hquiet fun _ _ heq => ?_)
    rw [heq] at hp
    cases hp
  | counts hp =>
    exact hrule hs (Nat.le_refl _) rfl hstays nofun rfl rfl rfl (hon trivial)
      (hquiet fun _ _ heq => by rw [hp] at heq; cases heq)
  | @rotates channel hp =>
    have hcarries : Db.Carries Λ.next none Λ.db (Λ.db.rotateFrom channel) := Db.carries_rotateFrom hdb channel
    exact hrule hs (Nat.le_refl _) rfl hcarries.writes nofun rfl rfl rfl (hon trivial)
      (hquiet fun _ _ heq => by rw [hp] at heq; cases heq)
  | deletes hp =>
    exact hrule hs (Nat.le_refl _) rfl (Db.writes_deleteChannel _) nofun rfl rfl rfl hend
      (hquiet fun _ _ heq => by rw [hp] at heq; cases heq)
  | inserts hp =>
    exact hrule hs (Nat.le_succ _) rfl (Db.writes_insertChannel (Nat.le_refl _)) nofun rfl rfl rfl
      (hon (Nat.lt_succ_self _)) (hquiet fun _ _ heq => by rw [hp] at heq; cases heq)
  | @repoints channelId chatId hp hother =>
    rw [hp] at hfaithful hknows
    have hnone : ∀ channelId chunkIds, c.phase ≠ .queueing channelId chunkIds :=
      fun _ _ heq => by rw [hp] at heq; cases heq
    rcases hfaithful with ⟨ch, hch, hne, hchat⟩ | hsame | hsilent
    · exact absurd hchat (hother ch hch hne)
    · have hwrites : Db.Writes Λ.next none (fun r => ¬r.Speaks) Λ.db
          (Λ.db.updateChannelRow channelId fun ch => { ch with chatId := chatId, status := .active }) :=
        Db.writes_repoint channelId chatId (Or.inr hsame)
      exact hrule hs (Nat.le_refl _) rfl hwrites nofun rfl rfl rfl (hon hknows) (hquiet hnone)
    · refine hrule hs (Nat.le_refl _) rfl (Db.writes_repoint channelId chatId (Or.inl rfl)) ?_ rfl rfl rfl
        (hon hknows) (hquiet hnone)
      intro id hid
      obtain rfl := Option.some.inj hid
      exact hsilent
  | readsNone hp =>
    exact hrule hs (Nat.le_refl _) rfl hstays nofun rfl rfl rfl hend
      (hquiet fun _ _ heq => by rw [hp] at heq; cases heq)
  | reads hp =>
    rw [hp] at hknows
    refine hrule hs (Nat.le_refl _) rfl hstays nofun rfl rfl rfl (hon ⟨hknows, fun chunkId hid => ?_⟩)
      (hquiet fun _ _ heq => by rw [hp] at heq; cases heq)
    obtain ⟨chunk, hchunk, rfl⟩ := List.mem_map.mp hid
    exact hdb.chunkBelow chunk (List.mem_of_mem_filter hchunk)
  | @queues channelId chunkIds db' n hp hok hn =>
    obtain ⟨-, hf⟩ := Db.filled_insertBatch hdb (Db.idsFrom_newPendings _ _) hok
    have hcarries : Db.Carries Λ.next none Λ.db db' := hf.carries hdb
    refine hrule hs (hn ▸ Nat.le_add_right _ _) rfl hcarries.writes nofun rfl rfl rfl hend (hdealt hp ?_)
    intro chunkId hid _ _
    obtain ⟨r, hr, hrc, hrch⟩ : ∃ r ∈ newPendings Λ.next (chunkIds.map fun chunkId => (chunkId, channelId)),
        r.chunkId = chunkId ∧ r.channelId = channelId :=
      exists_newPending (List.mem_map_of_mem hid)
    obtain ⟨q, hq, hqc, hqch⟩ := hf.covered r hr
    exact ⟨q, hq, hqc.trans hrc, hqch.trans hrch⟩
  | @queueFails channelId chunkIds e n hp herror hn =>
    rw [hp] at hfaithful
    refine hrule hs hn rfl hstays nofun rfl rfl rfl hend (hdealt hp ?_)
    rintro chunkId hid ⟨chunk, hchunk, hcid⟩
    obtain ⟨r, hr, hrc, -⟩ : ∃ r ∈ newPendings Λ.next (chunkIds.map fun chunkId => (chunkId, channelId)),
        r.chunkId = chunkId ∧ r.channelId = channelId :=
      exists_newPending (List.mem_map_of_mem hid)
    exact absurd (hcid.trans hrc.symm) (Hub.gone_of_error hfaithful herror r hr chunk hchunk)

end Ledger

namespace Ledger

variable {Λ : Ledger} {τ : Hub}

lemma of_mem_copiedReplicas {pairs : List (Uuid × Uuid)} {replicas : List ChunkReplica} {r : ChunkReplica}
    (hr : r ∈ copiedReplicas pairs replicas) :
    ∃ q ∈ replicas, (q.chunkId, r.chunkId) ∈ pairs ∧ r = { q with chunkId := r.chunkId } := by
  obtain ⟨q, hq, hmap⟩ := List.mem_filterMap.mp hr
  obtain ⟨chunkId, hlookup, rfl⟩ := Option.map_eq_some_iff.mp hmap
  obtain ⟨before, behind, heq, -⟩ := List.lookup_eq_some_iff.mp hlookup
  exact ⟨q, hq, heq ▸ List.mem_append_right _ List.mem_cons_self, rfl⟩

lemma of_mem_renumber {next : Uuid} {replicas : List ChunkReplica} {r : ChunkReplica}
    (hr : r ∈ renumber next replicas) : ∃ q ∈ replicas, r = { q with id := r.id } := by
  induction replicas generalizing next with
  | nil => exact absurd hr List.not_mem_nil
  | cons q replicas ih =>
    cases List.mem_cons.mp hr with
    | inl hr => exact ⟨q, List.mem_cons_self, hr ▸ rfl⟩
    | inr hr =>
      obtain ⟨q', hq', heq⟩ := ih hr
      exact ⟨q', List.mem_cons_of_mem _ hq', heq⟩

lemma contentsAfter_chunking {c : Clone} {fileId : Uuid} {chunks : List FileChunk}
    (hp : c.phase = .chunking fileId chunks) {pair : Uuid × Uuid}
    (hpair : pair ∈ (chunks.map (·.id)).zip ((newChunks fileId Λ.next chunks).map (·.id))) :
    Λ.contentsAfter (.clone c) pair.2 = Λ.contents pair.1 := by
  have hlength : ((newChunks fileId Λ.next chunks).map (·.id)).length ≤ (chunks.map (·.id)).length := by
    rw [List.length_map, List.length_map, Hub.length_newChunks]
  have hnodup : ((((newChunks fileId Λ.next chunks).map (·.id)).zip (chunks.map (·.id))).map (·.1)).Nodup := by
    rw [List.map_fst_zip hlength]
    exact nodup_newChunks fileId Λ.next chunks
  have hswap : (pair.2, pair.1) ∈
      ((newChunks fileId Λ.next chunks).map (·.id)).zip (chunks.map (·.id)) := by
    rw [← List.zip_swap]
    exact List.mem_map.mpr ⟨pair, hpair, rfl⟩
  simp only [contentsAfter, hp, Hub.lookup_of_nodup hnodup hswap]

/-- A statement of a copy. -/
lemma Honest.clone (h : Λ.Honest) {c : Clone} (hc : c ∈ Λ.hub.clones) (hfree : ¬Λ.Taken (.clone c))
    (hs : τ.Sound) (ht : Hub.CloneTurn Λ.hub c τ) : (Λ.after (.clone c) τ).Honest := by
  have hdb : Λ.db.Intact Λ.next := h.sound.intact.db
  have hreads := h.clones c hc
  have hrule : ∀ {τ : Hub} {New : ChunkReplica → Prop}, τ.Sound → Λ.next ≤ τ.next →
      τ.process.documents = Λ.hub.process.documents → Db.Writes Λ.next none New Λ.db τ.db →
      (∀ r ∈ τ.db.replicas, New r → (Λ.after (.clone c) τ).Tells r) → τ.calls = Λ.hub.calls →
      τ.underWay = Λ.hub.underWay → τ.copying = Λ.hub.copying →
      (∀ d ∈ τ.clones, d ∈ Λ.hub.clones ∨ (Λ.after (.clone c) τ).Reads d.phase) →
      (Λ.after (.clone c) τ).Honest := by
    intro τ New hs hle hdocuments hdb hnew hcalls hwork hcopying hclones
    exact h.after hfree hs hle ⟨[], hdocuments.trans (List.append_nil _).symm⟩ hdb nofun hnew hclones
      (fun d hd => Or.inl (hcalls ▸ hd)) (fun j hj => Or.inl (hwork ▸ hj)) (fun d hd => Or.inl (hcopying ▸ hd))
      nofun
  have hend : ∀ {τ : Hub}, ∀ d ∈ Λ.hub.clones.erase c, d ∈ Λ.hub.clones ∨ (Λ.after (.clone c) τ).Reads d.phase :=
    fun d hd => Or.inl (List.mem_of_mem_erase hd)
  have hon : ∀ {τ : Hub} {phase : ClonePhase}, (Λ.after (.clone c) τ).Reads phase →
      ∀ d ∈ (⟨c.source, phase⟩ :: Λ.hub.clones.erase c : List Clone),
        d ∈ Λ.hub.clones ∨ (Λ.after (.clone c) τ).Reads d.phase := by
    intro τ phase hphase d hd
    cases List.mem_cons.mp hd with
    | inl hd => exact Or.inr (hd ▸ hphase)
    | inr hd => exact Or.inl (List.mem_of_mem_erase hd)
  have hstays : Db.Writes Λ.next none (fun _ => False) Λ.db Λ.db := .refl _ _ _
  have hinserted : ∀ {destPath db'}, Λ.db.insertClonedFile c.source destPath Λ.next = .ok db' →
      Db.Carries Λ.next none Λ.db db' :=
    fun hok => Db.carries_insertFile hdb rfl (Db.insertClonedFile_ok hok)
  cases ht with
  | refuses | listsNone =>
    exact hrule hs (Nat.le_refl _) rfl hstays (fun _ _ => False.elim) rfl rfl rfl hend
  | folder hp hok =>
    exact hrule hs (Nat.le_succ _) rfl (hinserted hok).writes (fun r _ hquiet hspeaks => absurd hspeaks hquiet)
      rfl rfl rfl hend
  | inserts hp hok =>
    exact hrule hs (Nat.le_succ _) rfl (hinserted hok).writes (fun r _ hquiet hspeaks => absurd hspeaks hquiet)
      rfl rfl rfl (hon trivial)
  | reads hp =>
    refine hrule hs (Nat.le_refl _) rfl hstays (fun _ _ => False.elim) rfl rfl rfl (hon ?_)
    exact fun chunk hchunk => hdb.chunkBelow chunk (List.mem_of_mem_filter hchunk)
  | @chunks fileId chunks db' hp hok =>
    obtain ⟨hint, rfl⟩ := Db.createChunksBatch_ok hdb (h.sound.ranged c hc _ _ hp) hok
    rw [hp] at hreads
    refine hrule hs (Nat.le_add_right _ _) rfl (Db.writes_chunks fun _ => ids_newChunks)
      (fun _ _ => False.elim) rfl rfl rfl (hon ?_)
    intro pair hpair
    obtain ⟨hfirst, hsecond⟩ := List.of_mem_zip hpair
    obtain ⟨source, hsource, hsid⟩ := List.mem_map.mp hfirst
    obtain ⟨copy, hcopy, hcid⟩ := List.mem_map.mp hsecond
    have hold : pair.1 < Λ.next := hsid ▸ hreads source hsource
    refine ⟨Nat.lt_of_lt_of_le hold (Nat.le_add_right _ _), ?_, ?_⟩
    · exact hcid ▸ hint.chunkBelow copy (List.mem_append_right _ hcopy)
    · show Λ.contentsAfter (.clone c) pair.2 = Λ.contentsAfter (.clone c) pair.1
      rw [contentsAfter_of_lt hold]
      exact contentsAfter_chunking hp hpair
  | chunkFails hp hn => exact hrule hs hn rfl hstays (fun _ _ => False.elim) rfl rfl rfl hend
  | @lists pairs hp =>
    rw [hp] at hreads
    refine hrule hs (Nat.le_refl _) rfl hstays (fun _ _ => False.elim) rfl rfl rfl (hon ?_)
    intro r hr
    obtain ⟨q, hq, hpair, heq⟩ := of_mem_copiedReplicas hr
    obtain ⟨hfirst, hsecond, hsame⟩ := hreads _ hpair
    have hrow : q ∈ Λ.db.replicas := List.mem_of_mem_filter hq
    have hchannel : r.channelId = q.channelId := by rw [heq]
    have hmessage : r.telegramMessageId = q.telegramMessageId := by rw [heq]
    refine ⟨hsecond, ?_, ?_⟩
    · obtain ⟨ch, hch, hid⟩ := hdb.replicaChannel q hrow
      exact hchannel ▸ hid ▸ hdb.channelBelow ch hch
    · intro hspeaks
      have hspoke : q.Speaks := by
        rw [heq] at hspeaks
        exact hspeaks
      obtain ⟨hput, hdocument⟩ := h.rows q hrow hspoke
      have hcontents : (Λ.after (.clone c) (Λ.hub.nextClone c
          (.filling (copiedReplicas pairs (Λ.hub.db.listForFile c.source.id))))).contents r.chunkId =
            Λ.contents q.chunkId := by
        show Λ.contentsAfter (.clone c) r.chunkId = Λ.contents q.chunkId
        exact (contentsAfter_of_lt hsecond (.clone c)).trans hsame
      constructor
      · intro ch hch hid
        unfold Put
        rw [hcontents, hmessage]
        exact List.mem_append_left _ (hput ch hch (hid.trans hchannel))
      · intro telegramFileId hfile
        rw [hcontents]
        apply hdocument
        rw [heq] at hfile
        exact hfile
  | @fills replicas db' hp hok =>
    obtain ⟨-, hf⟩ := Db.filled_insertBatch hdb (Db.idsFrom_renumber _ _) hok
    rw [hp] at hreads
    have hwrites : Db.Writes Λ.next none (· ∈ renumber Λ.next replicas) Λ.db db' :=
      hf.writes fun r hr => Hub.ids_renumber hr
    refine hrule hs (Nat.le_add_right _ _) rfl hwrites ?_ rfl rfl rfl hend
    intro r _ hr
    obtain ⟨q, hq, heq⟩ := of_mem_renumber hr
    obtain ⟨hchunk, hchannel, htells⟩ := hreads q hq
    have hg := h.grows hfree (τ := (Λ.hub.withDb db' (Λ.next + replicas.length)).endClone c)
      (Nat.le_add_right _ _) ⟨[], (List.append_nil _).symm⟩
    rw [heq]
    exact htells.grows hg hwrites hchunk hchannel nofun
  | fillFails hp _ hn => exact hrule hs hn rfl hstays (fun _ _ => False.elim) rfl rfl rfl hend

end Ledger

/-! ## The replicator -/

namespace Ledger

variable {Λ : Ledger} {τ : Hub} {a : HubStep}

lemma Honest.done (h : Λ.Honest) {c : Copying} (hc : Λ.hub.copying = some c) {telegramFileId : String}
    {telegramMessageId : Int} (hfree : ¬Λ.Taken a) (hs : τ.Sound) (hnext : τ.next = Λ.next)
    (hdb : τ.db = Λ.db.updateReplica c.job.row.id (·.uploadedAs telegramFileId telegramMessageId))
    (hcalls : τ.calls = Λ.hub.calls) (hclones : τ.clones = Λ.hub.clones) (hjobs : τ.jobs = Λ.hub.jobs)
    (hcopying : τ.copying = none) (hqueued : Λ.queuedBy a = [])
    (hcontents : ∀ id, Λ.contentsAfter a id = Λ.contents id)
    (hdocuments : ∃ more, τ.process.documents = Λ.hub.process.documents ++ more)
    (hfound : τ.process.documentOf telegramFileId = some (Λ.contents c.job.row.chunkId))
    (hchat : ∀ ch ∈ Λ.db.channels, ch.id = c.job.row.channelId → ch.chatId = c.job.chatId)
    (hpost : Λ.post a = some ⟨c.job.chatId, some telegramMessageId, Λ.contents c.job.row.chunkId⟩) :
    (Λ.after a τ).Honest := by
  have hwork := Hub.underWay_copying hc
  have hwrites : Db.Writes Λ.next none _ Λ.db τ.db :=
    hdb ▸ Db.writes_updateReplica c.job.row.id (f := (·.uploadedAs telegramFileId telegramMessageId))
      fun _ => ⟨rfl, rfl, rfl⟩
  refine h.after hfree hs hnext.ge hdocuments hwrites nofun ?_ (fun d hd => Or.inl (hclones ▸ hd))
    (fun d hd => Or.inl (hcalls ▸ hd)) ?_ ?_ fun e he => absurd (hqueued ▸ he) List.not_mem_nil
  · rintro r - ⟨q, hq, hid, rfl⟩ -
    obtain ⟨hchunk, hchannel⟩ := (h.jobs c.job (hwork ▸ List.mem_cons_self)).2 q hq hid
    have hbytes : (Λ.after a τ).contents q.chunkId = Λ.contents c.job.row.chunkId := by
      rw [hchunk]
      exact hcontents _
    constructor
    · intro ch hch hchid
      have hch' : ch ∈ Λ.db.channels := by
        have hchannels : τ.db.channels = Λ.db.channels := by rw [hdb]; rfl
        exact hchannels ▸ hch
      refine List.mem_append_right _ (Option.mem_toList.mpr (hpost.trans ?_))
      rw [hchat ch hch' (hchid.trans hchannel)]
      exact congrArg (fun bytes => some (Post.mk c.job.chatId (some telegramMessageId) bytes)) hbytes.symm
    · intro found hfile
      obtain rfl := Option.some.inj hfile
      exact hfound.trans (congrArg some hbytes.symm)
  · intro j hj
    unfold Hub.underWay at hj
    rw [hcopying, hjobs] at hj
    exact Or.inl (hwork ▸ List.mem_cons_of_mem _ hj)
  · intro d hd
    rw [hcopying] at hd
    cases hd

lemma Honest.copied (h : Λ.Honest) {c : Copying} (hc : Λ.hub.copying = some c) {telegramMessageId : Int}
    (hmessage : c.telegramMessageId.isSome = true) (hfaithful : Faithful Λ (.copied telegramMessageId))
    (hfree : ¬Λ.Taken (.copied telegramMessageId))
    (hs : (Λ.hub.markUploaded c.job c.telegramFileId telegramMessageId).Sound) :
    (Λ.after (.copied telegramMessageId)
      (Λ.hub.markUploaded c.job c.telegramFileId telegramMessageId)).Honest := by
  obtain ⟨hdocument, hput⟩ := h.copying c hc
  refine h.done hc hfree hs rfl rfl rfl rfl rfl rfl rfl (fun _ => rfl) ⟨[], (List.append_nil _).symm⟩ hdocument
    (hfaithful c hc) ?_
  have hsource := hput hmessage
  show Λ.hub.copying.bind _ = _
  rw [hc, Option.bind_some, if_pos hmessage]
  cases hfind : Λ.posts.find? fun p => p.chatId = c.chatId ∧ p.telegramMessageId = c.telegramMessageId with
  | none =>
    have hno := List.find?_eq_none.mp hfind _ hsource
    exact absurd (decide_eq_true ⟨rfl, rfl⟩) hno
  | some p =>
    obtain ⟨hchat, hid⟩ : p.chatId = c.chatId ∧ p.telegramMessageId = c.telegramMessageId := by
      simpa using List.find?_some hfind
    have hbytes : p.bytes = Λ.contents c.job.row.chunkId :=
      h.apart p (List.mem_of_find?_eq_some hfind) _ hsource hchat hid (hid ▸ hmessage)
    rw [Option.map_some, hbytes]

lemma Honest.reuploaded (h : Λ.Honest) {c : Copying} (hc : Λ.hub.copying = some c) {telegramFileId : String}
    {telegramMessageId : Int} {bytes : Bytes} (hmessage : c.telegramMessageId = none)
    (hfresh : telegramFileId ∉ Λ.hub.process.documents.map (·.1))
    (hbytes : Λ.hub.process.documentOf c.telegramFileId = some bytes)
    (hfaithful : Faithful Λ (.reuploaded telegramFileId telegramMessageId))
    (hfree : ¬Λ.Taken (.reuploaded telegramFileId telegramMessageId)) (hs : τ.Sound)
    (hτ : τ = { Λ.hub.markUploaded c.job telegramFileId telegramMessageId with
      process := { (Λ.hub.markUploaded c.job telegramFileId telegramMessageId).process with
        documents := Λ.hub.process.documents ++ [(telegramFileId, bytes)] } }) :
    (Λ.after (.reuploaded telegramFileId telegramMessageId) τ).Honest := by
  obtain ⟨hdocument, -⟩ := h.copying c hc
  have hsame : bytes = Λ.contents c.job.row.chunkId := Option.some.inj (hbytes.symm.trans hdocument)
  subst hτ
  refine h.done hc hfree hs rfl rfl rfl rfl rfl rfl rfl (fun _ => rfl) ⟨_, rfl⟩ ?_ (hfaithful c hc) ?_
  · show (Λ.hub.process.documents ++ [(telegramFileId, bytes)]).lookup telegramFileId = _
    rw [List.lookup_append, lookup_fresh hfresh, List.lookup_cons_self, Option.none_or, hsame]
  · show Λ.hub.copying.bind _ = _
    rw [hc, Option.bind_some, if_neg, hbytes, Option.map_some, hsame]
    rintro (hsome | hused)
    · rw [hmessage] at hsome
      cases hsome
    · exact hfresh hused

lemma Honest.backs_pick (h : Λ.Honest) {c : Copying} (hc : Λ.hub.pick.copying = some c) :
    Λ.hub.copying = some c ∨ Λ.Backs c := by
  unfold Hub.pick at hc
  split at hc
  · case h_1 job jobs hnone hjobs =>
    split at hc
    · exact Or.inl hc
    · case h_2 source hsource =>
      split at hc
      · case h_1 telegramFileId channel hfile hchannel =>
        obtain rfl := Option.some.inj hc
        obtain ⟨hrow, hserves⟩ := Db.findSource_some hsource
        obtain ⟨hput, hdocument⟩ := h.rows source hrow (Or.inl hserves.2.2.1)
        right
        unfold Backs
        dsimp only
        rw [← hserves.1]
        refine ⟨hdocument telegramFileId hfile, fun _ => hput channel ?_ ?_⟩
        · exact List.mem_of_find?_eq_some hchannel
        · simpa using List.find?_some hchannel
      · exact Or.inl hc
  · exact Or.inl hc

end Ledger

/-! ## Runs -/

namespace Ledger

variable {Λ : Ledger} {a : HubStep}

/-- Every faithful step keeps the rows true. -/
theorem Honest.step (h : Λ.Honest) (hfaithful : Faithful Λ a) : (Λ.step a).Honest := by
  unfold Ledger.step
  split
  · exact h
  · case isFalse hfree =>
    have hdb : Λ.db.Intact Λ.next := h.sound.intact.db
    have hs := h.sound.step a
    have ht := Hub.step_turn Λ.hub a
    have hsame : ∃ more, Λ.hub.process.documents = Λ.hub.process.documents ++ more :=
      ⟨[], (List.append_nil _).symm⟩
    have hstays : Db.Writes Λ.next none (fun _ => False) Λ.db Λ.db := .refl _ _ _
    generalize Λ.hub.step a = τ at hs ht
    cases ht with
    | idle hidle =>
      refine h.after hfree hs (Nat.le_refl _) hsame hstays nofun (fun _ _ => False.elim)
        (fun d hd => Or.inl hd) (fun d hd => Or.inl hd) (fun j hj => Or.inl hj) (fun d hd => Or.inl hd) ?_
      cases a with
      | call c =>
        intro e he
        unfold queuedBy at he
        dsimp only at he
        split at he
        · rw [if_neg (hidle c rfl)] at he
          exact absurd he List.not_mem_nil
        · exact absurd he List.not_mem_nil
      | _ => exact fun e he => absurd he List.not_mem_nil
    | serve hplain => exact h.serve hplain hfaithful hfree hs rfl
    | @restart order =>
      have hcarries : Db.Carries Λ.next none Λ.db (Λ.hub.process.step (.restart order)).db :=
        Process.carries_of_other h.sound.intact rfl nofun
      exact h.after hfree hs (Nat.le_refl _) hsame hcarries.writes nofun
        (fun r _ hquiet hspeaks => absurd hspeaks hquiet) (fun d hd => absurd hd List.not_mem_nil)
        (fun d hd => absurd hd List.not_mem_nil) (fun j hj => absurd hj List.not_mem_nil) nofun nofun
    | addChannel | removeChannel =>
      refine h.after hfree hs (Nat.le_refl _) hsame hstays nofun (fun _ _ => False.elim)
        (fun d hd => Or.inl hd) ?_ (fun j hj => Or.inl hj) (fun d hd => Or.inl hd) nofun
      exact List.forall_mem_cons.mpr ⟨Or.inr trivial, fun d hd => Or.inl hd⟩
    | updateChannel hchannel =>
      refine h.after hfree hs (Nat.le_refl _) hsame hstays nofun (fun _ _ => False.elim)
        (fun d hd => Or.inl hd) ?_ (fun j hj => Or.inl hj) (fun d hd => Or.inl hd) nofun
      exact List.forall_mem_cons.mpr ⟨Or.inr (hdb.channelBelow _ hchannel), fun d hd => Or.inl hd⟩
    | call hc hcall => exact h.call hc (hfaithful hc) hfree hs hcall
    | copyFile =>
      refine h.after hfree hs (Nat.le_refl _) hsame hstays nofun (fun _ _ => False.elim) ?_
        (fun d hd => Or.inl hd) (fun j hj => Or.inl hj) (fun d hd => Or.inl hd) nofun
      exact List.forall_mem_cons.mpr ⟨Or.inr trivial, fun d hd => Or.inl hd⟩
    | clone hc hclone => exact h.clone hc hfree hs hclone
    | list hidle =>
      refine h.after hfree hs (Nat.le_refl _) hsame hstays nofun (fun _ _ => False.elim)
        (fun d hd => Or.inl hd) (fun d hd => Or.inl hd) ?_ (fun d hd => Or.inl hd) nofun
      intro j hj
      cases List.mem_append.mp hj with
      | inl hj => exact Or.inl (List.mem_append_left _ hj)
      | inr hj =>
        right
        obtain ⟨hrow, -⟩ := (Hub.pendingJobs_spec hdb).1 j hj
        obtain ⟨chunk, hchunk, hid⟩ := hdb.replicaChunk j.row hrow
        refine ⟨hid ▸ hdb.chunkBelow chunk hchunk, fun r hr hrid => ?_⟩
        rw [hdb.replicaId r hr j.row hrow hrid]
        exact ⟨rfl, rfl⟩
    | pick =>
      obtain ⟨hprocess, hcalls, hclones, hwork⟩ := Hub.pick_spec Λ.hub
      have hpicked : Λ.hub.pick.db = Λ.db := congrArg Process.db hprocess
      have hwrites : Db.Writes Λ.next none (fun _ => False) Λ.db Λ.hub.pick.db := by
        rw [hpicked]
        exact hstays
      refine h.after hfree hs ?_ (hprocess ▸ hsame) hwrites nofun (fun _ _ => False.elim)
        (fun d hd => Or.inl (hclones ▸ hd)) (fun d hd => Or.inl (hcalls ▸ hd))
        (fun j hj => Or.inl (hwork.subset hj)) ?_ nofun
      · exact (congrArg Process.next hprocess).ge
      · intro c hc
        refine (h.backs_pick hc).imp_right fun hbacks => ⟨?_, ?_⟩
        · show Λ.hub.pick.process.documentOf c.telegramFileId = _
          rw [hprocess]
          exact hbacks.1
        · exact fun hsome => List.mem_append_left _ (hbacks.2 hsome)
    | copied hc hmessage => exact h.copied hc hmessage hfaithful hfree hs
    | reuploaded hc hmessage hfresh hbytes =>
      exact h.reuploaded hc hmessage hfresh hbytes hfaithful hfree hs rfl
    | @refused c chatDead hc =>
      have hcarries := Hub.carries_markFailed h.sound hc chatDead
      refine h.after hfree hs (Nat.le_refl _) hsame hcarries.writes nofun
        (fun r _ hquiet hspeaks => absurd hspeaks hquiet) (fun d hd => Or.inl hd) (fun d hd => Or.inl hd)
        ?_ nofun nofun
      intro j hj
      rw [Hub.underWay_copying hc]
      exact Or.inl (List.mem_cons_of_mem _ hj)

/-- What the rows mean where they are true. -/
theorem Honest.truthful (h : Λ.Honest) : Λ.Truthful where
  rows := by
    intro r hr hup messageId hid ch hch hchid
    have hput := (h.rows r hr (Or.inl hup)).1 ch hch hchid
    rwa [show r.telegramMessageId = some messageId from hid] at hput
  files := by
    intro fileIds m hm
    obtain ⟨r, hr, hm⟩ := List.mem_flatMap.mp (List.mem_dedup.mp hm)
    split at hm
    · case isTrue hchunk =>
      obtain ⟨c, hc, hcid, hfile⟩ := hchunk
      obtain ⟨ch, hch, hm⟩ := List.mem_flatMap.mp hm
      obtain ⟨hch, hchid⟩ := List.mem_filter.mp hch
      obtain ⟨messageId, hid, rfl⟩ := List.mem_map.mp hm
      have hmessage : r.telegramMessageId = some messageId := Option.mem_toList.mp hid
      have hput := (h.rows r hr (Or.inr (by rw [hmessage]; rfl))).1 ch hch (of_decide_eq_true hchid)
      rw [hmessage, ← hcid] at hput
      exact ⟨c, hc, hfile, hput⟩
    · exact absurd hm List.not_mem_nil
  storage := by
    intro storageId m hm
    obtain ⟨r, hr, hm⟩ := List.mem_flatMap.mp (List.mem_dedup.mp hm)
    split at hm
    · case isTrue hchunk =>
      obtain ⟨c, hc, hcid⟩ := hchunk
      obtain ⟨ch, hch, hm⟩ := List.mem_flatMap.mp hm
      obtain ⟨hch, hslot⟩ := List.mem_filter.mp hch
      obtain ⟨messageId, hid, rfl⟩ := List.mem_map.mp hm
      have hmessage : r.telegramMessageId = some messageId := Option.mem_toList.mp hid
      have hput := (h.rows r hr (Or.inr (by rw [hmessage]; rfl))).1 ch hch (of_decide_eq_true hslot).1
      rw [hmessage, ← hcid] at hput
      exact ⟨c, hc, hput⟩
    · exact absurd hm List.not_mem_nil
  queued := by
    intro e he hchunk ch hch hid
    obtain ⟨r, hr, hrc, hrch⟩ := (h.queued e he).2.2 hchunk ⟨ch, hch, hid⟩
    refine ⟨r, hr, hrc, hrch.trans hid.symm, fun hup => ?_⟩
    have hput := (h.rows r hr (Or.inl hup)).1 ch hch (hid.trans hrch.symm)
    rwa [hrc] at hput

/-- A server with nothing under way whose rows are true. -/
structure Opens (Λ : Ledger) : Prop where
  rest : Λ.hub.AtRest
  apart : ∀ p ∈ Λ.posts, ∀ q ∈ Λ.posts, p.chatId = q.chatId → p.telegramMessageId = q.telegramMessageId →
    p.telegramMessageId.isSome = true → p.bytes = q.bytes
  rows : ∀ r ∈ Λ.db.replicas, Λ.Tells r
  queued : Λ.queued = []

lemma Opens.honest (h : Λ.Opens) : Λ.Honest where
  sound := h.rest.sound
  apart := h.apart
  rows := h.rows
  clones := fun _ hc => absurd (h.rest.clones ▸ hc) List.not_mem_nil
  calls := fun _ hc => absurd (h.rest.calls ▸ hc) List.not_mem_nil
  jobs := fun _ hj => absurd (h.rest.idle ▸ hj) List.not_mem_nil
  copying := by
    intro c hc
    have hwork := Hub.underWay_copying hc
    rw [h.rest.idle] at hwork
    cases hwork
  queued := fun _ he => absurd (h.queued ▸ he) List.not_mem_nil

end Ledger

/-- In a faithful run every uploaded row names a message that the server put into the chat its channel points
    at, with the bytes of its chunk; purges address only such messages, and what a catch-up has queued waits
    or is there. -/
theorem truthful_of_faithful {Λ : Ledger} (h : Λ.Opens) {as : List HubStep}
    (hfaithful : AllOk Ledger.step Faithful Λ as) : Always Ledger.step Ledger.Truthful Λ as :=
  (always_of_allOk (fun _ _ hτ hok => hτ.step hok) h.honest hfaithful).mono fun _ hτ => hτ.truthful

/-! ## A channel that gets another chat -/

def emptyChats : Ledger where
  hub := twoSlots
  posts := []
  contents := fun _ => []
  queued := []

def repointFirst : List HubStep :=
  [.updateChannel 0 2 (-900), .call ⟨0, .repointing 2 (-900)⟩, .call ⟨0, .reading 2⟩]

lemma emptyChats_opens : emptyChats.Opens where
  rest := twoSlots_atRest
  apart := fun _ hp => absurd hp List.not_mem_nil
  rows := fun _ hr => absurd hr List.not_mem_nil
  queued := rfl

/-- The row of a file that was sent to the old chat stays uploaded with its old message id: the catch-up
    passes over it, and a purge of the file would delete that message of the new chat, where the server has
    put nothing. -/
theorem repointedBehind_lies :
    let Λ := run Ledger.step emptyChats (sendOne ++ finishOne ++ repointFirst ++ [.call ⟨0, .queueing 2 [5]⟩])
    emptyChats.Opens ∧ (run Ledger.step emptyChats (sendOne ++ finishOne)).RowsTrue ∧ ¬Λ.RowsTrue ∧
      Λ.hub.calls = [] ∧ (∀ r ∈ Λ.db.replicas, r.channelId = 2 → r.status = .uploaded) ∧
      (-900, 10, 0) ∈ Λ.db.listTelegramMessagesForFiles [4] ∧ ∀ p ∈ Λ.posts, p.chatId ≠ -900 := by
  refine ⟨emptyChats_opens, ?_, ?_, ?_, ?_, ?_, ?_⟩
  all_goals decide +kernel

/-- A channel that gets its chat before the first file keeps its rows true. -/
theorem repointedBefore_tells :
    AllOk Ledger.step Faithful emptyChats (repointFirst ++ sendOne ++ finishOne ++ copyOne) ∧
      Always Ledger.step Ledger.Truthful emptyChats (repointFirst ++ sendOne ++ finishOne ++ copyOne) := by
  have hfaithful : AllOk Ledger.step Faithful emptyChats (repointFirst ++ sendOne ++ finishOne ++ copyOne) := by
    refine allOk_append.mpr ⟨⟨trivial, fun _ => ?_, fun _ => trivial, trivial, trivial, trivial, trivial, trivial,
      trivial, ?_, trivial, trivial, trivial, trivial⟩, trivial, trivial, ?_, trivial⟩
    · decide +kernel
    · show ∀ sent ∈ Process.sendTo _ 0 0, ∀ ch ∈ (Ledger.db _).channels,
        ch.id = sent.1.id → ch.chatId = sent.1.chatId
      decide +kernel
    · show ∀ c ∈ Hub.copying _, ∀ ch ∈ (Ledger.db _).channels, ch.id = c.job.row.channelId → ch.chatId = c.job.chatId
      decide +kernel
  exact ⟨hfaithful, truthful_of_faithful emptyChats_opens hfaithful⟩

end Sarca.Server
