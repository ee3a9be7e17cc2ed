import Sarca.Lib.Run
import Sarca.Server.HubSound

/-!
# Catching up a new channel

`add_channel` next to uploads and copies of files, in any order. While something is under way each chunk is
promised a row on each active channel (`Hub.Promises`): it has one, or the channel's call has still to read
the chunks or to queue this one, or a copy has its replicas still to write; and a relay that has chunks to
send knows every active channel whose call is past its reading. `Tidy` is what the statements do not look at,
and `caughtUp_of_tidy` shows that tidy runs leave no chunk out.
-/

namespace Sarca.Server
open Sarca.Lib

/-- Every chunk of an uploaded file has a row on each active channel of its storage. -/
def Db.CaughtUp (db : Db) : Prop :=
  ∀ f ∈ db.files, f.isUploaded = true → ∀ c ∈ db.chunks, c.fileId = f.id →
    ∀ ch ∈ db.activeChannels f.storageId, ∃ r ∈ db.replicas, r.chunkId = c.id ∧ r.channelId = ch.id

instance (db : Db) : Decidable db.CaughtUp :=
  inferInstanceAs (Decidable (∀ f ∈ db.files, _))

/-- The calls, the uploads and the copies have ended. -/
def Hub.Ended (σ : Hub) : Prop :=
  σ.calls = [] ∧ σ.clones = [] ∧ ∀ u ∈ σ.process.uploads, u.standing.relays = none

instance (σ : Hub) : Decidable σ.Ended :=
  inferInstanceAs (Decidable (_ ∧ _))

/-- The step neither repoints nor removes a channel. -/
def HubStep.AddsOnly : HubStep → Bool
  | .updateChannel _ _ _ | .removeChannel _ _ => false
  | _ => true

/-- The phases of `add_channel`. -/
def CallPhase.adds : CallPhase → Bool
  | .inserting _ _ | .reading _ | .queueing _ _ => true
  | _ => false

/-- The channel is bound, and its catch-up not through. -/
def CallPhase.catchesUp : CallPhase → Bool
  | .reading _ | .queueing _ _ => true
  | _ => false

/-- The chunks of the copy are there, their replicas not. -/
def ClonePhase.owes : ClonePhase → Bool
  | .listing _ | .filling _ => true
  | _ => false

/-- The row of a relay that has sent its last chunk. -/
def Phase.sent : Phase → Option Uuid
  | .sending file _ [] _ | .marking file _ => some file.id
  | _ => none

/-! ## What the statements do not look at -/

/-- `P` holds of a relay while it sends. -/
def Phase.WhileSending (P : FileRow → List StorageChannel → List ChunkSlice → List Uuid → Prop) :
    Phase → Prop
  | .sending file channels plan ids => P file channels plan ids
  | _ => True

instance (P : FileRow → List StorageChannel → List ChunkSlice → List Uuid → Prop)
    [∀ file channels plan ids, Decidable (P file channels plan ids)] : DecidablePred (Phase.WhileSending P)
  | .sending file channels plan ids => inferInstanceAs (Decidable (P file channels plan ids))
  | .looking | .waiting _ | .purging _ | .settling | .replacing _ | .creating | .starting _ | .queued _
  | .marking _ _ | .failing _ _ | .dropping _ _ | .answered _ => isTrue trivial

/-- The chunks of the row are those the relay counts. -/
def Phase.Counts (db : Db) : Phase → Prop :=
  Phase.WhileSending fun file _ _ ids => ∀ c ∈ db.chunks, c.fileId = file.id → c.id ∈ ids

instance (db : Db) (p : Phase) : Decidable (p.Counts db) :=
  inferInstanceAs (Decidable (Phase.WhileSending _ p))

/-- The relay has nothing more to send, or the channel on its list, or a file of another storage. -/
def Phase.Knows (db : Db) (storageId channelId : Uuid) : Phase → Prop :=
  Phase.WhileSending fun file channels plan _ => plan = [] ∨ channelId ∈ channels.map (·.id) ∨
    ∀ f ∈ db.files, f.id = file.id → f.storageId ≠ storageId

instance (db : Db) (storageId channelId : Uuid) (p : Phase) : Decidable (p.Knows db storageId channelId) :=
  inferInstanceAs (Decidable (Phase.WhileSending _ p))

/-- The rows fit one statement and name chunks and channels that exist; or their chunks are all gone. -/
def Db.Takes (db : Db) (maxVariables : Nat) (replicas : List ChunkReplica) : Prop :=
  (6 * replicas.length ≤ maxVariables ∧ ∀ r ∈ replicas,
    (∃ c ∈ db.chunks, c.id = r.chunkId) ∧ ∃ ch ∈ db.channels, ch.id = r.channelId) ∨
  ∀ r ∈ replicas, ∀ c ∈ db.chunks, c.id ≠ r.chunkId

instance (db : Db) (maxVariables : Nat) (replicas : List ChunkReplica) :
    Decidable (db.Takes maxVariables replicas) :=
  inferInstanceAs (Decidable (_ ∨ _))

namespace Hub

/-- The relay of the request sends to a row that is not uploaded, and nobody else is past its last chunk. -/
def MaySend (σ : Hub) (number : Nat) : Phase → Prop :=
  Phase.WhileSending fun file _ _ _ => (∀ f ∈ σ.db.files, f.id = file.id → f.isUploaded = false) ∧
    ∀ v ∈ σ.process.uploads, v.number ≠ number → v.standing.sent ≠ some file.id

instance (σ : Hub) (number : Nat) (p : Phase) : Decidable (σ.MaySend number p) :=
  inferInstanceAs (Decidable (Phase.WhileSending _ p))

/-- The call of the channel is about to read the chunks. -/
def IsRead (σ : Hub) (ch : StorageChannel) : Prop :=
  ⟨ch.storageId, .reading ch.id⟩ ∈ σ.calls

/-- The chunk has a row on the channel, or the channel's call has it still to come. -/
def Covers (σ : Hub) (chunkId : Uuid) (ch : StorageChannel) : Prop :=
  (∃ r ∈ σ.db.replicas, r.chunkId = chunkId ∧ r.channelId = ch.id) ∨ σ.IsRead ch ∨
    ∃ chunkIds, ⟨ch.storageId, .queueing ch.id chunkIds⟩ ∈ σ.calls ∧ chunkId ∈ chunkIds

/-- Each chunk of a copy of an uploaded file is covered on every active channel, or the one it was made of
    has a row there. -/
def HasSources (σ : Hub) (source : FileRow) (pairs : List (Uuid × Uuid)) : Prop :=
  ∀ pair ∈ pairs, ∀ c ∈ σ.db.chunks, c.id = pair.2 → ∀ f ∈ σ.db.files, f.id = c.fileId →
    f.isUploaded = true → ∀ ch ∈ σ.db.activeChannels f.storageId, σ.Covers c.id ch ∨
      ∃ r ∈ σ.db.listForFile source.id, r.chunkId = pair.1 ∧ r.channelId = ch.id

/-- What a statement of `add_channel` needs to leave no chunk out. -/
def TidyCall (σ : Hub) (c : ChannelCall) : CallPhase → Prop
  | .reading channelId => ∀ u ∈ σ.process.uploads, u.standing.Knows σ.db c.storageId channelId
  | .queueing channelId chunkIds => σ.db.Takes σ.process.maxVariables
    (newPendings σ.next (chunkIds.map fun chunkId => (chunkId, channelId)))
  | _ => True

instance (σ : Hub) (c : ChannelCall) : DecidablePred (σ.TidyCall c)
  | .reading _ => inferInstanceAs (Decidable (∀ u ∈ σ.process.uploads, _))
  | .queueing _ _ => inferInstanceAs (Decidable (σ.db.Takes _ _))
  | .counting _ | .rotating _ | .deleting _ | .inserting _ _ | .repointing _ _ => isTrue trivial

def TidyClone (σ : Hub) (c : Clone) : ClonePhase → Prop
  | .chunking fileId _ => ∀ v ∈ σ.process.uploads, v.standing.sent ≠ some fileId
  | .listing pairs => σ.HasSources c.source pairs
  | .filling replicas => σ.db.Takes σ.process.maxVariables (renumber σ.next replicas)
  | _ => True

end Hub

def Tidy (σ : Hub) : HubStep → Prop
  | .serve (.act number (.send _ _ _)) => ∀ u ∈ σ.process.upload? number, σ.MaySend number u.phase
  | .serve (.act number .link) => ∀ u ∈ σ.process.upload? number, u.phase.Counts σ.db
  | .serve (.restart _) =>
    (∀ c ∈ σ.calls, c.phase.catchesUp = false) ∧ ∀ c ∈ σ.clones, c.phase.owes = false
  | .call c => c ∈ σ.calls → σ.TidyCall c c.phase
  | .clone c => c ∈ σ.clones → σ.TidyClone c c.phase
  | _ => True

/-! ## What is promised -/

/-- A copy tells the chunks it is made of apart. -/
def ClonePhase.Paired : ClonePhase → Prop
  | .chunking _ chunks => (chunks.map (·.id)).Nodup
  | .listing pairs => (pairs.map (·.1)).Nodup
  | _ => True

namespace Hub

/-- A copy has the chunk's replicas still to write. -/
def Copies (σ : Hub) (chunkId : Uuid) (ch : StorageChannel) : Prop :=
  ∃ c ∈ σ.clones, (∃ pairs, c.phase = .listing pairs ∧ ∃ pair ∈ pairs, pair.2 = chunkId) ∨
    ∃ replicas, c.phase = .filling replicas ∧ ∃ r ∈ replicas, r.chunkId = chunkId ∧ r.channelId = ch.id

/-- What a relay keeps of the channels of its file's storage. -/
def Keeps (σ : Hub) : Phase → Prop
  | .marking file _ => ∀ f ∈ σ.db.files, f.id = file.id → ∀ ch ∈ σ.db.activeChannels f.storageId,
    ∀ c ∈ σ.db.chunks, c.fileId = file.id → σ.Covers c.id ch
  | .sending file channels plan _ => ∀ f ∈ σ.db.files, f.id = file.id →
    ∀ ch ∈ σ.db.activeChannels f.storageId, ch.id ∈ channels.map (·.id) ∨ σ.IsRead ch ∨
      plan = [] ∧ ∀ c ∈ σ.db.chunks, c.fileId = file.id → σ.Covers c.id ch
  | _ => True

/-- What is promised while calls, uploads and copies are under way. -/
structure Promises (σ : Hub) : Prop where
  adds : ∀ c ∈ σ.calls, c.phase.adds = true
  paired : ∀ c ∈ σ.clones, c.phase.Paired
  relays : ∀ u ∈ σ.process.uploads, σ.Keeps u.standing
  uploaded : ∀ f ∈ σ.db.files, f.isUploaded = true → ∀ c ∈ σ.db.chunks, c.fileId = f.id →
    ∀ ch ∈ σ.db.activeChannels f.storageId, σ.Covers c.id ch ∨ σ.Copies c.id ch

end Hub

/-! ## Frames -/

namespace Db

/-- Rows of chunks on channels stay with the chunks. `new` are the chunks that are new. -/
structure RowsStay (n : Uuid) (marked : Option Uuid) (new : List FileChunk) (db db' : Db) : Prop where
  files : ∀ f' ∈ db'.files, f'.id = n ∨ ∃ f ∈ db.files, f.id = f'.id ∧ f.Stays marked f'
  chunks : ∀ c' ∈ db'.chunks, c' ∈ new ∨ ∃ c ∈ db.chunks, c.id = c'.id ∧
    (c'.fileId = c.fileId ∨ c'.fileId = n) ∧
    ∀ f' ∈ db'.files, f'.id = c'.fileId → ∃ f ∈ db.files, f.id = c.fileId ∧ f.Stays marked f'
  rows : ∀ r ∈ db.replicas, (∃ c' ∈ db'.chunks, c'.id = r.chunkId) →
    ∃ r' ∈ db'.replicas, r'.chunkId = r.chunkId ∧ r'.channelId = r.channelId
  channels : ∀ ch' ∈ db'.channels, n ≤ ch'.id ∨ ∃ ch ∈ db.channels, ch.Stays ch'

variable {db db' : Db} {n : Uuid} {marked : Option Uuid} {new : List FileChunk}

lemma Carries.rowsStay (h : Carries n marked db db') : RowsStay n marked [] db db' where
  files := h.files
  chunks := by
    intro c' hc'
    obtain ⟨c, hc, hid, -, hfile, hrow⟩ := h.chunks c' hc'
    exact Or.inr ⟨c, hc, hid, hfile, hrow⟩
  rows := by
    intro r hr hchunk
    obtain ⟨r', hr', hstays⟩ := h.kept r hr hchunk
    exact ⟨r', hr', hstays.chunk, hstays.channel⟩
  channels := fun ch' hch' => Or.inr (h.channel_of hch')

lemma RowsStay.refl (h : db.Intact n) : RowsStay n none [] db db :=
  (Carries.refl h).rowsStay

lemma rowsStay_append (h : db.Intact n) (new : List FileChunk) (replicas : List ChunkReplica) :
    RowsStay n none new db
      { db with chunks := db.chunks ++ new, replicas := db.replicas ++ replicas } := by
  have hold := RowsStay.refl h
  refine ⟨hold.files, ?_, fun r hr _ => ⟨r, List.mem_append_left _ hr, rfl, rfl⟩, hold.channels⟩
  intro c' hc'
  cases List.mem_append.mp hc' with
  | inl hc' => exact (hold.chunks c' hc').imp_left fun hno => absurd hno List.not_mem_nil
  | inr hc' => exact Or.inl hc'

lemma rowsStay_updateReplica (h : db.Intact n) (id : Uuid) {f : ChunkReplica → ChunkReplica}
    (hf : ∀ r, (f r).chunkId = r.chunkId ∧ (f r).channelId = r.channelId) :
    RowsStay n none [] db (db.updateReplica id f) := by
  have hold := RowsStay.refl h
  refine ⟨hold.files, hold.chunks, fun r hr _ => ⟨_, List.mem_map_of_mem hr, ?_⟩, hold.channels⟩
  split
  · exact hf r
  · exact ⟨rfl, rfl⟩

lemma Filled.rowsStay (h : db.Intact n) {replicas : List ChunkReplica} (hf : Filled replicas db db') :
    RowsStay n none [] db db' := by
  have hold := RowsStay.refl h
  refine ⟨hf.files ▸ hold.files, ?_, fun r hr _ => ⟨r, hf.kept r hr, rfl, rfl⟩,
    hf.channels ▸ hold.channels⟩
  rw [hf.files, hf.chunks]
  exact hold.chunks

lemma RowsStay.active (h : RowsStay n marked new db db') {storageId : Uuid} {ch' : StorageChannel}
    (hch : ch' ∈ db'.activeChannels storageId) :
    n ≤ ch'.id ∨ ∃ ch ∈ db.activeChannels storageId, ch.Stays ch' := by
  obtain ⟨hmem, hst, hactive⟩ := mem_activeChannels_iff.mp hch
  refine (h.channels ch' hmem).imp_right fun ⟨ch, hold, hstays⟩ => ⟨ch, ?_, hstays⟩
  exact mem_activeChannels_iff.mpr ⟨hold, hstays.storage.symm.trans hst, hstays.active hactive⟩

end Db

lemma exists_newPending {next : Uuid} {pairs : List (Uuid × Uuid)} {chunkId channelId : Uuid}
    (h : (chunkId, channelId) ∈ pairs) :
    ∃ r ∈ newPendings next pairs, r.chunkId = chunkId ∧ r.channelId = channelId := by
  induction pairs generalizing next with
  | nil => exact absurd h List.not_mem_nil
  | cons pair pairs ih =>
    cases List.mem_cons.mp h with
    | inl h =>
      rw [← h]
      exact ⟨_, List.mem_cons_self, rfl, rfl⟩
    | inr h =>
      obtain ⟨r, hr, hpair⟩ : ∃ r ∈ newPendings (next + 1) pairs,
          r.chunkId = chunkId ∧ r.channelId = channelId := ih h
      exact ⟨r, List.mem_cons_of_mem _ hr, hpair⟩

namespace Hub

variable {σ τ : Hub} {marked : Option Uuid} {new : List FileChunk}

lemma IsRead.stays {ch ch' : StorageChannel} (h : σ.IsRead ch) (hstays : ch.Stays ch') : σ.IsRead ch' := by
  unfold IsRead
  rw [hstays.id, hstays.storage]
  exact h

lemma Covers.stays (hrows : Db.RowsStay σ.next marked new σ.db τ.db)
    (hcalls : ∀ c ∈ σ.calls, c.phase.catchesUp = true → c ∈ τ.calls) {chunkId : Uuid}
    (hchunk : ∃ c ∈ τ.db.chunks, c.id = chunkId) {ch ch' : StorageChannel} (hstays : ch.Stays ch')
    (h : σ.Covers chunkId ch) : τ.Covers chunkId ch' := by
  rcases h with ⟨r, hr, hrc, hrch⟩ | hread | ⟨chunkIds, hcall, hmem⟩
  · obtain ⟨c, hc, hid⟩ := hchunk
    obtain ⟨r', hr', hchunk', hchannel'⟩ := hrows.rows r hr ⟨c, hc, hid.trans hrc.symm⟩
    exact Or.inl ⟨r', hr', hchunk'.trans hrc, hchannel'.trans (hrch.trans hstays.id.symm)⟩
  · exact Or.inr (Or.inl (IsRead.stays (hcalls _ hread rfl) hstays))
  · refine Or.inr (Or.inr ⟨chunkIds, ?_, hmem⟩)
    rw [hstays.id, hstays.storage]
    exact hcalls _ hcall rfl

/-- What a relay keeps, it keeps where rows stay, calls go on and its row gets no chunk behind its last
    one. -/
lemma Keeps.stays (hrows : Db.RowsStay σ.next marked new σ.db τ.db)
    (hcalls : ∀ c ∈ σ.calls, c.phase.catchesUp = true → c ∈ τ.calls)
    (hnew : ∀ ch' ∈ τ.db.channels, σ.next ≤ ch'.id → τ.IsRead ch') {p : Phase}
    (hlt : ∀ f, p.row = some f → f.id < σ.next) (hsent : ∀ c ∈ new, p.sent ≠ some c.fileId)
    (h : σ.Keeps p) : τ.Keeps p := by
  -- a row, a channel and a chunk of the later state with those they come from
  have hfile : ∀ file, p.row = some file → ∀ f' ∈ τ.db.files, f'.id = file.id →
      ∃ f ∈ σ.db.files, f.id = file.id ∧ f'.storageId = f.storageId := by
    intro file hp f' hf' hid
    rcases hrows.files f' hf' with hfresh | ⟨f, hf, hfid, hstays⟩
    · exact absurd (hid.symm.trans hfresh) (hlt file hp).ne
    · exact ⟨f, hf, hfid.trans hid, hstays.storage⟩
  have hcover : ∀ file, p.row = some file → p.sent = some file.id → ∀ c' ∈ τ.db.chunks,
      c'.fileId = file.id → ∀ ch ch' : StorageChannel, ch.Stays ch' →
      (∀ c ∈ σ.db.chunks, c.fileId = file.id → σ.Covers c.id ch) → τ.Covers c'.id ch' := by
    intro file hp hlast c' hc' hfid ch ch' hstays hall
    rcases hrows.chunks c' hc' with hfresh | ⟨c, hc, hcid, hmoved, -⟩
    · exact absurd (hfid ▸ hlast) (hsent c' hfresh)
    · have hsame : c.fileId = file.id := by
        rcases hmoved with hsame | hmoved
        · exact hsame.symm.trans hfid
        · exact absurd (hfid.symm.trans hmoved) (hlt file hp).ne
      have hcovers := hall c hc hsame
      rw [hcid] at hcovers
      exact hcovers.stays hrows hcalls ⟨c', hc', rfl⟩ hstays
  cases p with
  | marking file again =>
    intro f' hf' hid ch' hch' c' hc' hfid
    obtain ⟨f, hf, hfid', hst⟩ := hfile file rfl f' hf' hid
    rw [hst] at hch'
    rcases hrows.active hch' with hfresh | ⟨ch, hch, hstays⟩
    · exact Or.inr (Or.inl (hnew ch' (Db.mem_activeChannels_iff.mp hch').1 hfresh))
    · exact hcover file rfl rfl c' hc' hfid ch ch' hstays (h f hf hfid' ch hch)
  | sending file channels plan ids =>
    intro f' hf' hid ch' hch'
    obtain ⟨f, hf, hfid', hst⟩ := hfile file rfl f' hf' hid
    rw [hst] at hch'
    rcases hrows.active hch' with hfresh | ⟨ch, hch, hstays⟩
    · exact Or.inr (Or.inl (hnew ch' (Db.mem_activeChannels_iff.mp hch').1 hfresh))
    · rcases h f hf hfid' ch hch with hlist | hread | ⟨rfl, hall⟩
      · exact Or.inl (hstays.id ▸ hlist)
      · exact Or.inr (Or.inl (IsRead.stays (hcalls _ hread rfl) hstays))
      · refine Or.inr (Or.inr ⟨rfl, fun c' hc' hfid => ?_⟩)
        exact hcover file rfl rfl c' hc' hfid ch ch' hstays hall
  | _ => trivial

/-- What is promised of uploaded files stays so where rows stay, and calls and copies go on; a new chunk has
    its own promise. -/
lemma Promises.uploaded_stays (h : σ.Promises) (hrows : Db.RowsStay σ.next marked new σ.db τ.db)
    (hcalls : ∀ c ∈ σ.calls, c.phase.catchesUp = true → c ∈ τ.calls)
    (hclones : ∀ c ∈ σ.clones, c.phase.owes = true → c ∈ τ.clones)
    (hnew : ∀ ch' ∈ τ.db.channels, σ.next ≤ ch'.id → τ.IsRead ch')
    (hmarked : ∀ id, marked = some id → ∃ u ∈ σ.process.uploads, u.standing.marks = some id)
    (hchunks : ∀ c ∈ new, ∀ f ∈ τ.db.files, f.id = c.fileId → f.isUploaded = true →
      ∀ ch, τ.Copies c.id ch) :
    ∀ f ∈ τ.db.files, f.isUploaded = true → ∀ c ∈ τ.db.chunks, c.fileId = f.id →
      ∀ ch ∈ τ.db.activeChannels f.storageId, τ.Covers c.id ch ∨ τ.Copies c.id ch := by
  intro f' hf' hup c' hc' hfid ch' hch'
  rcases hrows.chunks c' hc' with hfresh | ⟨c, hc, hcid, -, hfile⟩
  · exact Or.inr (hchunks c' hfresh f' hf' hfid.symm hup ch')
  · obtain ⟨f, hf, hfid', hstays⟩ := hfile f' hf' hfid.symm
    rw [hstays.storage] at hch'
    rcases hrows.active hch' with hfresh | ⟨ch, hch, hslot⟩
    · exact Or.inl (Or.inr (Or.inl (hnew ch' (Db.mem_activeChannels_iff.mp hch').1 hfresh)))
    · have hcovers : σ.Covers c.id ch ∨ σ.Copies c.id ch := by
        rcases hstays.uploaded hup with hup | hmark
        · exact h.uploaded f hf hup c hc hfid'.symm ch hch
        · -- the row is set uploaded now, by a relay that kept its chunks covered
          obtain ⟨u, hu, hmarks⟩ := hmarked f.id hmark
          have hkeeps := h.relays u hu
          cases hp : u.standing with
          | marking file again =>
            rw [hp] at hmarks hkeeps
            have hid : f.id = file.id := (Option.some.inj hmarks).symm
            exact Or.inl (hkeeps f hf hid ch hch c hc (hfid'.symm.trans hid))
          | _ => rw [hp] at hmarks; cases hmarks
      rw [hcid] at hcovers
      rcases hcovers with hcovers | ⟨d, hd, howes⟩
      · exact Or.inl (hcovers.stays hrows hcalls ⟨c', hc', rfl⟩ hslot)
      · right
        rcases howes with ⟨pairs, hp, hpair⟩ | ⟨replicas, hp, r, hr, hrc, hrch⟩
        · exact ⟨d, hclones d hd (by rw [hp]; rfl), Or.inl ⟨pairs, hp, hpair⟩⟩
        · exact ⟨d, hclones d hd (by rw [hp]; rfl),
            Or.inr ⟨replicas, hp, r, hr, hrc, hrch.trans hslot.id.symm⟩⟩

/-! ## The relays -/

lemma keeps_of_other {p : Phase} (hsending : ∀ file channels plan ids, p ≠ .sending file channels plan ids)
    (hmarking : ∀ file again, p ≠ .marking file again) : σ.Keeps p := by
  cases p with
  | sending file channels plan ids => exact absurd rfl (hsending file channels plan ids)
  | marking file again => exact absurd rfl (hmarking file again)
  | _ => trivial

lemma not_marking_of_turns {π : Process} {r : UploadRequest} {p q : Phase} (h : Turns π r p q)
    {file : FileRow} {again : Bool} : q ≠ .marking file again := by
  intro heq
  cases h <;> cases heq

lemma mem_uploadChannels_id {primary ch : StorageChannel} {active : List StorageChannel} (hch : ch ∈ active) :
    ch.id ∈ (Process.uploadChannels primary active).map (·.id) := by
  by_cases hid : ch.id = primary.id
  · exact List.mem_map.mpr ⟨primary, List.mem_cons_self, hid.symm⟩
  · exact List.mem_map.mpr ⟨ch, List.mem_cons_of_mem _ (List.mem_filter.mpr ⟨hch, decide_eq_true hid⟩), rfl⟩

def withProcess (σ : Hub) (π : Process) : Hub :=
  { σ with process := π }

variable {u : Upload} {o : Outcome} {a : Act} {number : Nat}

lemma link_of_act {π : Process} {file : FileRow} {channels : List StorageChannel} {ids : List Uuid}
    (hp : u.phase = .sending file channels [] ids) (ho : π.act u a = some o)
    (hmark : o.phase = .marking file false) : a = .link := by
  cases a with
  | link => rfl
  | send position telegramFileId messageId =>
    simp only [Process.act, hp] at ho
    obtain ⟨-, offset, len, hslice, -⟩ := Process.send_cases ho
    exact absurd hslice List.not_mem_nil
  | sendFails e =>
    simp only [Process.act, hp, Option.some.injEq] at ho
    subst ho
    cases hmark
  | _ => simp only [Process.act, hp, reduceCtorEq] at ho

lemma Sound.no_new_channel (hs : σ.Sound) (hchannels : ∀ ch' ∈ τ.db.channels, ∃ ch ∈ σ.db.channels, ch.Stays ch') :
    ∀ ch' ∈ τ.db.channels, σ.next ≤ ch'.id → τ.IsRead ch' := by
  intro ch' hch' hle
  obtain ⟨ch, hch, hstays⟩ := hchannels ch' hch'
  exact absurd (hs.intact.db.channelBelow ch hch) (Nat.not_lt.mpr (hstays.id ▸ hle))

/-- The phase of a relay that took a turn keeps its promise. -/
lemma keeps_act (hs : σ.Sound) (hu : u ∈ σ.process.uploads) (hkeeps : σ.Keeps u.phase)
    (ho : σ.process.act u a = some o) (hcounts : a = .link → u.phase.Counts σ.db)
    (hτ : τ = σ.withProcess (σ.process.commit number o)) : τ.Keeps o.phase := by
  have hdb : τ.db = o.db := by rw [hτ]; rfl
  have hread : ∀ ch, σ.IsRead ch → τ.IsRead ch := by rw [hτ]; exact fun _ h => h
  have hm := Process.act_moves ho
  cases hm with
  | turn ht =>
    exact keeps_of_other (fun _ _ _ _ => Process.not_sending_of_turns ht) fun _ _ => not_marking_of_turns ht
  | purge | drop | replace | create | refuse | linkFails => trivial
  | plan hp hok =>
    obtain ⟨-, f, hrow, hid, primary, hprimary, hchannels⟩ := Process.plan_inv hp ho rfl
    obtain ⟨-, -, storages, rfl⟩ := Db.resolvePrimaryChannel_inv hok
    intro f' hf' hid' ch hch
    rw [hdb] at hf' hch
    left
    rw [hchannels, ← hs.intact.db.wf.idUnique f' hf' f hrow (hid'.trans hid.symm)]
    exact mem_uploadChannels_id hch
  | send hp hslice htarget hfresh hok =>
    obtain ⟨-, -, -, rfl⟩ := Db.createChunkWithReplica_ok hok
    rw [hp] at hkeeps
    intro f hf hid ch hch
    rw [hdb] at hf hch
    rcases hkeeps f hf hid ch hch with hlist | hopen | ⟨rfl, -⟩
    · exact Or.inl hlist
    · exact Or.inr (Or.inl (hread ch hopen))
    · exact absurd hslice List.not_mem_nil
  | @link file channels ids replicas db' hp hreplicas hok =>
    subst hreplicas
    obtain ⟨-, hf⟩ := Db.filled_insertBatch hs.intact.db (Db.idsFrom_newPendings _ _) hok
    have hall := hcounts (link_of_act hp ho rfl)
    rw [hp] at hkeeps hall
    have hrows : Db.RowsStay σ.next none [] σ.db τ.db := hdb ▸ hf.rowsStay hs.intact.db
    intro f hfile hid ch hch c hc hfid
    rw [hdb] at hfile hch
    rw [Db.activeChannels, Db.listByStorage, hf.channels] at hch
    rcases hkeeps f (hf.files ▸ hfile) hid ch hch with hlist | hopen | ⟨-, hcovers⟩
    · -- the channel is on the list, and so is the chunk
      obtain ⟨listed, hlisted, hlid⟩ := List.mem_map.mp hlist
      have hc' : c ∈ σ.db.chunks := by
        rw [hdb] at hc
        exact hf.chunks ▸ hc
      obtain ⟨r, hr, hrc, hrch⟩ : ∃ r ∈ newPendings σ.next (ids.flatMap fun chunkId =>
          channels.map fun channel => (chunkId, channel.id)), r.chunkId = c.id ∧ r.channelId = ch.id := by
        apply exists_newPending
        rw [List.mem_flatMap]
        exact ⟨c.id, hall c hc' hfid, List.mem_map.mpr ⟨listed, hlisted, by rw [hlid]⟩⟩
      obtain ⟨q, hq, hqc, hqch⟩ := hf.covered r hr
      exact Or.inl ⟨q, hdb ▸ hq, hqc.trans hrc, hqch.trans hrch⟩
    · exact Or.inr (Or.inl (hread ch hopen))
    · have hc' : c ∈ σ.db.chunks := by
        rw [hdb] at hc
        exact hf.chunks ▸ hc
      refine (hcovers c hc' hfid).stays hrows ?_ ⟨c, hc, rfl⟩ (.refl ch)
      rw [hτ]
      exact fun d hd _ => hd
  | @mark file again db' hp hok =>
    cases again with
    | true => trivial
    | false =>
      rw [hp] at hkeeps
      have hcarries : Db.Carries σ.next (some file.id) σ.db τ.db :=
        hdb ▸ Db.carries_setAsUploaded hs.intact.db hok
      have hagain : σ.Keeps (.marking file true) := hkeeps
      refine hagain.stays hcarries.rowsStay ?_ (hs.no_new_channel fun _ => hcarries.channel_of) ?_
        fun c hc => absurd hc List.not_mem_nil
      · rw [hτ]
        exact fun d hd _ => hd
      · intro f hf
        cases hf
        exact hs.intact.rowBelow u hu file (by rw [hp]; rfl)

lemma rowsStay_stores (hs : σ.Sound) {db' : Db} (hst : Process.Stores σ.process u db') :
    ∃ c : FileChunk, Db.RowsStay σ.next none [c] σ.db db' ∧ db'.files = σ.db.files ∧
      db'.channels = σ.db.channels ∧
      ∃ file channels plan ids, u.phase = .sending file channels plan ids ∧ c.fileId = file.id ∧
        ∃ slice, slice ∈ plan := by
  cases hst with
  | @send file channels plan ids position offset len target telegramFileId messageId _ hp hslice
      htarget hok =>
    obtain ⟨-, -, -, rfl⟩ := Db.createChunkWithReplica_ok hok
    exact ⟨_, Db.rowsStay_append hs.intact.db _ _, rfl, rfl, file, channels, plan, ids, hp, rfl, _, hslice⟩

lemma send_of_act {π : Process} {file : FileRow} {channels : List StorageChannel} {plan : List ChunkSlice}
    {ids : List Uuid} (hp : u.phase = .sending file channels plan ids) (ho : π.act u a = some o)
    (hon : ∃ file channels plan ids, o.phase = .sending file channels plan ids) :
    ∃ position telegramFileId messageId, a = .send position telegramFileId messageId := by
  obtain ⟨file', channels', plan', ids', hon⟩ := hon
  cases a with
  | send position telegramFileId messageId => exact ⟨position, telegramFileId, messageId, rfl⟩
  | sendFails e =>
    simp only [Process.act, hp, Option.some.injEq] at ho
    subst ho
    cases hon
  | link =>
    cases plan with
    | nil =>
      simp only [Process.act, hp, Option.some.injEq] at ho
      subst ho
      simp only [Process.link] at hon
      split at hon <;> cases hon
    | cons slice plan => simp only [Process.act, hp, reduceCtorEq] at ho
  | _ => simp only [Process.act, hp, reduceCtorEq] at ho

/-- What a turn does to the rows: nothing is lost, and a chunk is stored by `send` alone, in the row of its
    relay. -/
lemma rows_act (hs : σ.Sound) (ho : σ.process.act u a = some o) :
    ∃ new : List FileChunk, Db.RowsStay σ.next u.phase.marks new σ.db o.db ∧
      (∀ ch' ∈ o.db.channels, ∃ ch ∈ σ.db.channels, ch.Stays ch') ∧
      ∀ c ∈ new, o.db.files = σ.db.files ∧
        (∃ position telegramFileId messageId, a = .send position telegramFileId messageId) ∧
        ∃ file channels plan ids, u.phase = .sending file channels plan ids ∧ c.fileId = file.id := by
  rcases Process.carries_of_moves hs.intact (Process.act_moves ho) with hcarries | ⟨hst, hon⟩
  · exact ⟨[], hcarries.rowsStay, fun _ => hcarries.channel_of, fun c hc => absurd hc List.not_mem_nil⟩
  · obtain ⟨c, hrows, hfiles, hchannels, file, channels, plan, ids, hp, hfile, -⟩ := rowsStay_stores hs hst
    refine ⟨[c], ?_, ?_, fun d hd => ⟨hfiles, send_of_act hp ho hon, file, channels, plan, ids, hp, ?_⟩⟩
    · rw [hp]
      exact hrows
    · exact fun ch hch => ⟨ch, hchannels ▸ hch, .refl ch⟩
    · rw [List.mem_singleton.mp hd]
      exact hfile

lemma Sound.standing_below (hs : σ.Sound) (hu : u ∈ σ.process.uploads) {f : FileRow}
    (hf : u.standing.row = some f) : f.id < σ.next := by
  rcases u.standing_cases with heq | heq
  · rw [heq] at hf
    exact hs.intact.rowBelow u hu f hf
  · rw [heq] at hf
    cases hf

lemma Promises.act (h : σ.Promises) (hs : σ.Sound) (hu : σ.process.upload? number = some u)
    (ho : σ.process.act u a = some o) (htidy : Tidy σ (.serve (.act number a)))
    (hτ : τ = σ.withProcess (σ.process.commit number o)) : τ.Promises := by
  have hmem : u ∈ σ.process.uploads := List.mem_of_find?_eq_some hu
  have hdb : τ.db = o.db := by rw [hτ]; rfl
  have hcalls : τ.calls = σ.calls := by rw [hτ]; rfl
  have hclones : τ.clones = σ.clones := by rw [hτ]; rfl
  obtain ⟨new, hrows, hchannels, hnew⟩ := rows_act hs ho
  rw [← hdb] at hrows hchannels
  have hfresh := hs.no_new_channel hchannels
  -- a chunk is stored where the relay is alone and the row not uploaded
  have hsend : ∀ c ∈ new, (∀ f ∈ σ.db.files, f.id = c.fileId → f.isUploaded = false) ∧
      ∀ v ∈ σ.process.uploads, v.number ≠ number → v.standing.sent ≠ some c.fileId := by
    intro c hc
    obtain ⟨-, ⟨position, telegramFileId, messageId, rfl⟩, file, channels, plan, ids, hp, hfile⟩ :=
      hnew c hc
    have hmay : σ.MaySend number u.phase := htidy u hu
    rw [hp] at hmay
    rw [hfile]
    exact hmay
  refine ⟨hcalls ▸ h.adds, hclones ▸ h.paired, ?_, ?_⟩
  · intro w hw
    rw [hτ] at hw
    rcases Process.mem_commit hw with ⟨hold, hother⟩ | ⟨v, hv, hvn, rfl⟩
    · exact (h.relays w hold).stays hrows (fun d hd _ => hcalls ▸ hd) hfresh
        (fun f hf => hs.standing_below hold hf) fun c hc => (hsend c hc).2 w hold hother
    · have hkeeps : σ.Keeps u.phase := Process.standing_of_act ho ▸ h.relays u hmem
      have hafter : τ.Keeps o.phase := by
        refine keeps_act hs hmem hkeeps ho (fun hlink => ?_) hτ
        subst hlink
        exact htidy u hu
      rcases (Upload.standing_cases { v with phase := o.phase }) with heq | heq
      · rw [heq]
        exact hafter
      · rw [heq]
        trivial
  · refine h.uploaded_stays hrows (fun d hd _ => hcalls ▸ hd) (fun d hd _ => hclones ▸ hd) hfresh ?_ ?_
    · intro id hid
      refine ⟨u, hmem, ?_⟩
      rw [Process.standing_of_act ho]
      exact hid
    · intro c hc f hf hid hup
      rw [hdb, (hnew c hc).1] at hf
      rw [(hsend c hc).1 f hf hid] at hup
      cases hup

lemma Promises.write (h : σ.Promises) (hs : σ.Sound) (hrows : Db.RowsStay σ.next none new σ.db τ.db)
    (hnew : ∀ ch' ∈ τ.db.channels, σ.next ≤ ch'.id → τ.IsRead ch')
    (hadds : ∀ c ∈ τ.calls, c.phase.adds = true) (hpaired : ∀ c ∈ τ.clones, c.phase.Paired)
    (hcalls : ∀ c ∈ σ.calls, c.phase.catchesUp = true → c ∈ τ.calls)
    (hclones : ∀ c ∈ σ.clones, c.phase.owes = true → c ∈ τ.clones)
    (huploads : ∀ w ∈ τ.process.uploads,
      (∃ u ∈ σ.process.uploads, w.standing = u.standing) ∨ ∀ σ : Hub, σ.Keeps w.standing)
    (hchunks : ∀ c ∈ new, (∀ u ∈ σ.process.uploads, u.standing.sent ≠ some c.fileId) ∧
      ∀ ch, τ.Copies c.id ch) : τ.Promises := by
  refine ⟨hadds, hpaired, fun w hw => ?_, ?_⟩
  · rcases huploads w hw with ⟨u, hu, heq⟩ | hkeeps
    · rw [heq]
      exact (h.relays u hu).stays hrows hcalls hnew (fun f hf => hs.standing_below hu hf)
        fun c hc => (hchunks c hc).1 u hu
    · exact hkeeps τ
  · exact h.uploaded_stays hrows hcalls hclones hnew (fun id hid => absurd hid nofun)
      fun c hc _ _ _ _ => (hchunks c hc).2

lemma Promises.carry (h : σ.Promises) (hs : σ.Sound) (hcarries : Db.Carries σ.next none σ.db τ.db)
    (hcalls : τ.calls = σ.calls) (hclones : τ.clones = σ.clones)
    (huploads : ∀ w ∈ τ.process.uploads, (∃ u ∈ σ.process.uploads, w.standing = u.standing) ∨
      ∀ σ : Hub, σ.Keeps w.standing) : τ.Promises :=
  h.write hs hcarries.rowsStay (hs.no_new_channel fun _ => hcarries.channel_of) (hcalls ▸ h.adds)
    (hclones ▸ h.paired) (fun _ hd _ => hcalls ▸ hd) (fun _ hd _ => hclones ▸ hd) huploads
    fun _ hc => absurd hc List.not_mem_nil

/-- A step of the process beside the calls and the copies keeps what is promised. -/
lemma Promises.serve (h : σ.Promises) (hs : σ.Sound) {s : Step} (hplain : s.Plain = true)
    (hup : ∀ order, s ≠ .restart order) (htidy : Tidy σ (.serve s))
    (hτ : τ = σ.withProcess (σ.process.step s)) : τ.Promises := by
  have hprocess : τ.process = σ.process.step s := by rw [hτ]; rfl
  have hcalls : τ.calls = σ.calls := by rw [hτ]; rfl
  have hclones : τ.clones = σ.clones := by rw [hτ]; rfl
  have hcarry : Db.Carries σ.next none σ.db (σ.process.step s).db →
      (∀ w ∈ (σ.process.step s).uploads, (∃ u ∈ σ.process.uploads, w.standing = u.standing) ∨
        ∀ σ : Hub, σ.Keeps w.standing) → τ.Promises := by
    rw [← hprocess]
    exact fun hcarries huploads => h.carry hs hcarries hcalls hclones huploads
  have hidle : σ.process.step s = σ.process → τ.Promises := by
    intro hsame
    apply hcarry
    · rw [hsame]
      exact .refl hs.intact.db
    · rw [hsame]
      exact fun w hw => Or.inl ⟨w, hw, rfl⟩
  cases s with
  | arrive number r =>
    apply hcarry
    · rw [(σ.process.arrive_writes number r).1]
      exact .refl hs.intact.db
    · intro w hw
      rcases σ.process.step_arrive number r with heq | ⟨-, phase, hphase, heq⟩
      · rw [heq] at hw
        exact Or.inl ⟨w, hw, rfl⟩
      · rw [heq] at hw
        cases List.mem_append.mp hw with
        | inl hw => exact Or.inl ⟨w, hw, rfl⟩
        | inr hw =>
          rw [List.mem_singleton.mp hw]
          right
          intro σ
          rcases hphase with rfl | rfl
          · exact trivial
          · exact trivial
  | act number a =>
    rcases hu : σ.process.upload? number with _ | u
    · exact hidle (by simp only [Process.step, hu])
    · rcases ho : σ.process.act u a with _ | o
      · exact hidle (by simp only [Process.step, hu, ho])
      · rw [Process.step_act_eq hu ho] at hτ
        exact h.act hs hu ho htidy hτ
  | disconnect number handed =>
    have hl := Process.left_disconnect σ.process number handed
    apply hcarry
    · show Db.Carries σ.next none σ.db (σ.process.disconnect number handed).db
      rw [hl.db]
      exact .refl hs.intact.db
    · intro w hw
      obtain ⟨u, hu, -, -, -, hst⟩ := hl.uploads w hw
      rcases hst with hst | hst
      · exact Or.inl ⟨u, hu, hst⟩
      · right
        intro σ
        rw [hst]
        trivial
  | edit e =>
    apply hcarry
    · exact Process.carries_edit hs.intact hplain
    · intro w hw
      rw [Process.step, (Process.edit_requests σ.process e).1] at hw
      exact Or.inl ⟨w, hw, rfl⟩
  | restart order => exact absurd rfl (hup order)

/-! ## The calls -/

lemma Promises.hand (h : σ.Promises) (hprocess : τ.process = σ.process) (hclones : τ.clones = σ.clones)
    (hadds : ∀ c ∈ τ.calls, c.phase.adds = true)
    (hcovers : ∀ f ∈ σ.db.files, ∀ c ∈ σ.db.chunks, c.fileId = f.id → ∀ ch ∈ σ.db.activeChannels f.storageId,
      σ.Covers c.id ch → τ.Covers c.id ch)
    (hread : ∀ ch, σ.IsRead ch → τ.IsRead ch ∨
      ∀ u ∈ σ.process.uploads, u.standing.Knows σ.db ch.storageId ch.id) : τ.Promises := by
  have hdb : τ.db = σ.db := congrArg Process.db hprocess
  refine ⟨hadds, hclones ▸ h.paired, fun u hu => ?_, ?_⟩
  · rw [hprocess] at hu
    have hkeeps := h.relays u hu
    cases hp : u.standing with
    | marking file again =>
      rw [hp] at hkeeps
      intro f hf hid ch hch c hc hfid
      rw [hdb] at hf hch hc
      exact hcovers f hf c hc (hfid.trans hid.symm) ch hch (hkeeps f hf hid ch hch c hc hfid)
    | sending file channels plan ids =>
      rw [hp] at hkeeps
      intro f hf hid ch hch
      rw [hdb] at hf hch ⊢
      have hall : (∀ c ∈ σ.db.chunks, c.fileId = file.id → σ.Covers c.id ch) →
          ∀ c ∈ σ.db.chunks, c.fileId = file.id → τ.Covers c.id ch :=
        fun hall c hc hfid => hcovers f hf c hc (hfid.trans hid.symm) ch hch (hall c hc hfid)
      rcases hkeeps f hf hid ch hch with hlist | hopen | ⟨hplan, hcov⟩
      · exact Or.inl hlist
      · rcases hread ch hopen with hopen' | hknows
        · exact Or.inr (Or.inl hopen')
        · have hknow := hknows u hu
          rw [hp] at hknow
          rcases hknow with hplan | hlist | hother
          · exact Or.inr (Or.inr ⟨hplan, hall fun c _ _ => Or.inr (Or.inl hopen)⟩)
          · exact Or.inl hlist
          · exact absurd (Db.mem_activeChannels_iff.mp hch).2.1.symm (hother f hf hid)
      · exact Or.inr (Or.inr ⟨hplan, hall hcov⟩)
    | _ => trivial
  · intro f hf hup c hc hfid ch hch
    rw [hdb] at hf hc hch
    rcases h.uploaded f hf hup c hc hfid ch hch with hcov | ⟨d, hd, howes⟩
    · exact Or.inl (hcovers f hf c hc hfid ch hch hcov)
    · exact Or.inr ⟨d, hclones ▸ hd, howes⟩

lemma mem_chunkIdsOf {db : Db} {f : FileRow} {c : FileChunk} (hf : f ∈ db.files) (hc : c ∈ db.chunks)
    (hfid : c.fileId = f.id) : c.id ∈ db.chunkIdsOf f.storageId := by
  refine List.mem_map.mpr ⟨c, List.mem_filter.mpr ⟨hc, List.any_eq_true.mpr ⟨f, hf, ?_⟩⟩, rfl⟩
  exact decide_eq_true ⟨hfid.symm, rfl⟩

lemma mem_nextCall {c d : ChannelCall} {phase : CallPhase} (hd : d ∈ (σ.nextCall c phase).calls) :
    d ∈ σ.calls ∨ d = ⟨c.storageId, phase⟩ := by
  cases List.mem_cons.mp hd with
  | inl hd => exact Or.inr hd
  | inr hd => exact Or.inl (List.mem_of_mem_erase hd)

lemma mem_erase_call {c d : ChannelCall} (hd : d ∈ σ.calls) (hne : d.phase ≠ c.phase) :
    d ∈ σ.calls.erase c :=
  (List.mem_erase_of_ne fun heq => hne (congrArg ChannelCall.phase heq)).mpr hd

lemma Promises.read (h : σ.Promises) {c : ChannelCall} {channelId : Uuid}
    (hp : c.phase = .reading channelId)
    (hknows : ∀ u ∈ σ.process.uploads, u.standing.Knows σ.db c.storageId channelId)
    (hprocess : τ.process = σ.process) (hclones : τ.clones = σ.clones)
    (hadds : ∀ d ∈ τ.calls, d.phase.adds = true) (hcalls : ∀ d ∈ σ.calls, d ≠ c → d ∈ τ.calls)
    (hread : ∀ chunkId ∈ σ.db.chunkIdsOf c.storageId,
      ⟨c.storageId, .queueing channelId (σ.db.chunkIdsOf c.storageId)⟩ ∈ τ.calls) : τ.Promises := by
  -- a channel whose chunks this call reads
  have hself : ∀ ch : StorageChannel, σ.IsRead ch → τ.IsRead ch ∨
      c.storageId = ch.storageId ∧ channelId = ch.id := by
    intro ch hopen
    by_cases heq : (⟨ch.storageId, .reading ch.id⟩ : ChannelCall) = c
    · rw [← heq] at hp ⊢
      exact Or.inr ⟨rfl, (CallPhase.reading.inj hp).symm⟩
    · exact Or.inl (hcalls _ hopen heq)
  refine h.hand hprocess hclones hadds ?_ fun ch hopen => ?_
  · intro f hf chunk hchunk hfid ch hch hcovers
    have hst := (Db.mem_activeChannels_iff.mp hch).2.1
    rcases hcovers with hrow | hopen | ⟨chunkIds, hcall, hmem⟩
    · left
      rw [show τ.db = σ.db from congrArg Process.db hprocess]
      exact hrow
    · rcases hself ch hopen with hopen' | ⟨hst', rfl⟩
      · exact Or.inr (Or.inl hopen')
      · have hid : chunk.id ∈ σ.db.chunkIdsOf c.storageId := by
          rw [hst', hst]
          exact mem_chunkIdsOf hf hchunk hfid
        refine Or.inr (Or.inr ⟨_, ?_, hid⟩)
        rw [← hst']
        exact hread _ hid
    · refine Or.inr (Or.inr ⟨chunkIds, hcalls _ hcall fun heq => ?_, hmem⟩)
      rw [← heq] at hp
      cases hp
  · rcases hself ch hopen with hopen' | ⟨hst, hid⟩
    · exact Or.inl hopen'
    · exact Or.inr (hst ▸ hid ▸ hknows)

lemma Promises.queued (h : σ.Promises) {c : ChannelCall} {channelId : Uuid} {chunkIds : List Uuid}
    (hp : c.phase = .queueing channelId chunkIds)
    (hrows : ∀ chunkId ∈ chunkIds, (∃ chunk ∈ σ.db.chunks, chunk.id = chunkId) →
      ∃ r ∈ σ.db.replicas, r.chunkId = chunkId ∧ r.channelId = channelId) : (σ.endCall c).Promises := by
  refine h.hand rfl rfl (fun d hd => h.adds d (List.mem_of_mem_erase hd)) ?_ fun ch hopen => ?_
  · intro f hf chunk hchunk hfid ch hch hcovers
    rcases hcovers with hrow | hopen | ⟨chunkIds', hcall, hmem⟩
    · exact Or.inl hrow
    · exact Or.inr (Or.inl (mem_erase_call hopen (hp ▸ CallPhase.noConfusion)))
    · by_cases heq : (⟨ch.storageId, .queueing ch.id chunkIds'⟩ : ChannelCall) = c
      · rw [← heq] at hp
        obtain ⟨rfl, rfl⟩ := CallPhase.queueing.inj hp
        exact Or.inl (hrows chunk.id hmem ⟨chunk, hchunk, rfl⟩)
      · exact Or.inr (Or.inr ⟨chunkIds', (List.mem_erase_of_ne heq).mpr hcall, hmem⟩)
  · exact Or.inl (mem_erase_call hopen (hp ▸ CallPhase.noConfusion))

lemma gone_of_error {db : Db} {maxVariables : Nat} {replicas : List ChunkReplica} {e : SarcaError}
    (htakes : db.Takes maxVariables replicas) (herror : db.insertBatch maxVariables replicas = .error e) :
    ∀ r ∈ replicas, ∀ c ∈ db.chunks, c.id ≠ r.chunkId := by
  rcases htakes with ⟨hfits, hkeys⟩ | hgone
  · obtain ⟨db', hok⟩ := Db.insertReplicas_total hkeys
    unfold Db.insertBatch at herror
    split at herror
    · cases herror
    · rw [if_neg (Nat.not_lt.mpr hfits), hok] at herror
      cases herror
  · exact hgone

/-- A statement of a call keeps what is promised. -/
lemma Promises.call (h : σ.Promises) (hs : σ.Sound) {c : ChannelCall} (hc : c ∈ σ.calls)
    (htidy : σ.TidyCall c c.phase) (ht : CallTurn σ c τ) : τ.Promises := by
  have hadds := h.adds c hc
  have hother : ∀ d ∈ σ.calls.erase c, d.phase.adds = true :=
    fun d hd => h.adds d (List.mem_of_mem_erase hd)
  have hon : ∀ {phase : CallPhase}, phase.adds = true →
      ∀ d ∈ (σ.nextCall c phase).calls, d.phase.adds = true := by
    intro phase hphase d hd
    rcases mem_nextCall hd with hd | rfl
    · exact h.adds d hd
    · exact hphase
  have hkept : ∀ w ∈ σ.process.uploads,
      (∃ u ∈ σ.process.uploads, w.standing = u.standing) ∨ ∀ σ : Hub, σ.Keeps w.standing :=
    fun w hw => Or.inl ⟨w, hw, rfl⟩
  have hdb : σ.db.Intact σ.next := hs.intact.db
  cases ht with
  | counts hp | rotates hp | deletes hp | repoints hp => rw [hp] at hadds; cases hadds
  | refuses hp =>
    have hidle : c.phase.catchesUp = false := by
      cases hphase : c.phase with
      | reading | queueing => rw [hphase] at hp; cases hp
      | _ => rfl
    refine h.write hs (.refl hdb) (hs.no_new_channel fun ch hch => ⟨ch, hch, .refl ch⟩) hother h.paired ?_
      (fun d hd _ => hd) hkept fun c hc => absurd hc List.not_mem_nil
    intro d hd hcatches
    refine (List.mem_erase_of_ne fun heq => ?_).mpr hd
    rw [heq, hidle] at hcatches
    cases hcatches
  | inserts hp hstorage hfree =>
    refine h.write hs ?_ ?_ (hon rfl) h.paired ?_ (fun d hd _ => hd) hkept
      fun c hc => absurd hc List.not_mem_nil
    · have hrows := Db.RowsStay.refl hdb
      refine ⟨hrows.files, hrows.chunks, hrows.rows, fun ch hch => ?_⟩
      cases List.mem_append.mp hch with
      | inl hch => exact Or.inr ⟨ch, hch, .refl ch⟩
      | inr hch => exact Or.inl (List.mem_singleton.mp hch ▸ Nat.le_refl _)
    · intro ch hch hle
      cases List.mem_append.mp hch with
      | inl hch => exact absurd (hdb.channelBelow ch hch) (Nat.not_lt.mpr hle)
      | inr hch =>
        rw [List.mem_singleton.mp hch]
        exact List.mem_cons_self
    · intro d hd hcatches
      refine List.mem_cons_of_mem _ (mem_erase_call hd fun heq => ?_)
      rw [heq, hp] at hcatches
      cases hcatches
  | readsNone hp hnone =>
    rw [hp] at htidy
    refine h.read hp htidy rfl rfl hother (fun d hd hne => (List.mem_erase_of_ne hne).mpr hd) ?_
    rw [hnone]
    exact fun chunkId hid => absurd hid List.not_mem_nil
  | reads hp =>
    rw [hp] at htidy
    exact h.read hp htidy rfl rfl (hon rfl)
      (fun d hd hne => List.mem_cons_of_mem _ ((List.mem_erase_of_ne hne).mpr hd))
      fun chunkId hid => List.mem_cons_self
  | @queues channelId chunkIds db' n hp hok hn =>
    obtain ⟨-, hf⟩ := Db.filled_insertBatch hdb (Db.idsFrom_newPendings _ _) hok
    have hcarries : Db.Carries σ.next none σ.db db' := hf.carries hdb
    have hwritten : (σ.withDb db' n).Promises := h.carry hs hcarries rfl rfl hkept
    refine hwritten.queued hp fun chunkId hid _ => ?_
    obtain ⟨r, hr, hrc, hrch⟩ : ∃ r ∈ newPendings σ.next (chunkIds.map fun chunkId => (chunkId, channelId)),
        r.chunkId = chunkId ∧ r.channelId = channelId :=
      exists_newPending (List.mem_map_of_mem hid)
    obtain ⟨q, hq, hqc, hqch⟩ := hf.covered r hr
    exact ⟨q, hq, hqc.trans hrc, hqch.trans hrch⟩
  | @queueFails channelId chunkIds e n hp herror hn =>
    rw [hp] at htidy
    have hwritten : (σ.withDb σ.db n).Promises := h.carry hs (.refl hdb) rfl rfl hkept
    refine hwritten.queued hp fun chunkId hid ⟨chunk, hchunk, hcid⟩ => ?_
    obtain ⟨r, hr, hrc, -⟩ : ∃ r ∈ newPendings σ.next (chunkIds.map fun chunkId => (chunkId, channelId)),
        r.chunkId = chunkId ∧ r.channelId = channelId :=
      exists_newPending (List.mem_map_of_mem hid)
    exact absurd (hcid.trans hrc.symm) (gone_of_error htidy herror r hr chunk hchunk)

/-! ## The copies -/

lemma Promises.settle (h : σ.Promises) (hprocess : τ.process = σ.process) (hcalls : τ.calls = σ.calls)
    (hpaired : ∀ c ∈ τ.clones, c.phase.Paired)
    (hcopies : ∀ f ∈ σ.db.files, f.isUploaded = true → ∀ c ∈ σ.db.chunks, c.fileId = f.id →
      ∀ ch ∈ σ.db.activeChannels f.storageId, σ.Copies c.id ch → σ.Covers c.id ch ∨ τ.Copies c.id ch) :
    τ.Promises := by
  have hdb : τ.db = σ.db := congrArg Process.db hprocess
  have hcovers : ∀ {chunkId : Uuid} {ch : StorageChannel}, σ.Covers chunkId ch → τ.Covers chunkId ch := by
    intro chunkId ch hcov
    unfold Covers IsRead at hcov ⊢
    rw [hdb, hcalls]
    exact hcov
  refine ⟨hcalls ▸ h.adds, hpaired, fun u hu => ?_, ?_⟩
  · rw [hprocess] at hu
    have hkeeps := h.relays u hu
    unfold Keeps Covers IsRead at hkeeps ⊢
    rw [hdb, hcalls]
    exact hkeeps
  · intro f hf hup c hc hfid ch hch
    rw [hdb] at hf hc hch
    rcases h.uploaded f hf hup c hc hfid ch hch with hcov | hcopy
    · exact Or.inl (hcovers hcov)
    · exact (hcopies f hf hup c hc hfid ch hch hcopy).imp_left hcovers

lemma lookup_of_nodup {pairs : List (Uuid × Uuid)} (hnodup : (pairs.map (·.1)).Nodup) {pair : Uuid × Uuid}
    (hpair : pair ∈ pairs) : pairs.lookup pair.1 = some pair.2 := by
  induction pairs with
  | nil => exact absurd hpair List.not_mem_nil
  | cons q pairs ih =>
    rw [List.map_cons, List.nodup_cons] at hnodup
    cases List.mem_cons.mp hpair with
    | inl heq => rw [heq, List.lookup_cons_self]
    | inr hpair =>
      have hne : (pair.1 == q.1) = false := by
        rw [beq_eq_false_iff_ne]
        exact fun heq => hnodup.1 (heq ▸ List.mem_map_of_mem hpair)
      rw [List.lookup_cons, hne]
      exact ih hnodup.2 hpair

lemma mem_copiedReplicas {pairs : List (Uuid × Uuid)} (hnodup : (pairs.map (·.1)).Nodup) {pair : Uuid × Uuid}
    (hpair : pair ∈ pairs) {replicas : List ChunkReplica} {r : ChunkReplica} (hr : r ∈ replicas)
    (hchunk : r.chunkId = pair.1) : { r with chunkId := pair.2 } ∈ copiedReplicas pairs replicas := by
  refine List.mem_filterMap.mpr ⟨r, hr, ?_⟩
  rw [hchunk, lookup_of_nodup hnodup hpair]
  rfl

lemma exists_renumber {next : Uuid} {replicas : List ChunkReplica} {r : ChunkReplica} (hr : r ∈ replicas) :
    ∃ q ∈ renumber next replicas, q.chunkId = r.chunkId ∧ q.channelId = r.channelId := by
  induction replicas generalizing next with
  | nil => exact absurd hr List.not_mem_nil
  | cons q replicas ih =>
    cases List.mem_cons.mp hr with
    | inl hr =>
      rw [hr]
      exact ⟨_, List.mem_cons_self, rfl, rfl⟩
    | inr hr =>
      obtain ⟨q', hq', hpair⟩ : ∃ q' ∈ renumber (next + 1) replicas,
          q'.chunkId = r.chunkId ∧ q'.channelId = r.channelId := ih hr
      exact ⟨q', List.mem_cons_of_mem _ hq', hpair⟩

lemma length_newChunks (fileId next : Uuid) (chunks : List FileChunk) :
    (newChunks fileId next chunks).length = chunks.length := by
  induction chunks generalizing next with
  | nil => rfl
  | cons c chunks ih => exact congrArg (· + 1) (ih (next + 1))

lemma fileId_newChunks {fileId next : Uuid} {chunks : List FileChunk} {c : FileChunk}
    (hc : c ∈ newChunks fileId next chunks) : c.fileId = fileId := by
  induction chunks generalizing next with
  | nil => exact absurd hc List.not_mem_nil
  | cons d chunks ih =>
    cases List.mem_cons.mp hc with
    | inl hc => exact hc ▸ rfl
    | inr hc => exact ih hc

lemma Promises.listed (h : σ.Promises) {c : Clone} {pairs : List (Uuid × Uuid)} (hc : c ∈ σ.clones)
    (hp : c.phase = .listing pairs) (hsources : σ.HasSources c.source pairs)
    (hprocess : τ.process = σ.process) (hcalls : τ.calls = σ.calls)
    (hpaired : ∀ d ∈ τ.clones, d.phase.Paired) (hclones : ∀ d ∈ σ.clones, d ≠ c → d ∈ τ.clones)
    (hlist : σ.db.listForFile c.source.id ≠ [] →
      ⟨c.source, .filling (copiedReplicas pairs (σ.db.listForFile c.source.id))⟩ ∈ τ.clones) :
    τ.Promises := by
  refine h.settle hprocess hcalls hpaired ?_
  intro f hf hup chunk hchunk hfid ch hch ⟨d, hd, howes⟩
  by_cases heq : d = c
  · rw [heq, hp] at howes
    rcases howes with ⟨pairs', hlisting, pair, hpair, hpid⟩ | ⟨replicas, hfilling, -⟩
    · obtain rfl := ClonePhase.listing.inj hlisting
      rcases hsources pair hpair chunk hchunk hpid.symm f hf hfid.symm hup ch hch with hcov | ⟨r, hr, hrc, hrch⟩
      · exact Or.inl hcov
      · -- the source's row goes into the rows of the copy
        have hnodup : (pairs.map (·.1)).Nodup := by
          have := h.paired c hc
          rwa [hp] at this
        have hcopied := mem_copiedReplicas hnodup hpair hr hrc
        exact Or.inr ⟨_, hlist (List.ne_nil_of_mem hr), Or.inr ⟨_, rfl, _, hcopied, hpid, hrch⟩⟩
    · cases hfilling
  · exact Or.inr ⟨d, hclones d hd heq, howes⟩

lemma Promises.filled (h : σ.Promises) {c : Clone} {replicas : List ChunkReplica}
    (hp : c.phase = .filling replicas)
    (hrows : ∀ r ∈ replicas, (∃ chunk ∈ σ.db.chunks, chunk.id = r.chunkId) →
      ∃ q ∈ σ.db.replicas, q.chunkId = r.chunkId ∧ q.channelId = r.channelId) :
    (σ.endClone c).Promises := by
  refine h.settle rfl rfl (fun d hd => h.paired d (List.mem_of_mem_erase hd)) ?_
  intro f hf hup chunk hchunk hfid ch hch ⟨d, hd, howes⟩
  by_cases heq : d = c
  · rw [heq, hp] at howes
    rcases howes with ⟨pairs, hlisting, -⟩ | ⟨replicas', hfilling, r, hr, hrc, hrch⟩
    · cases hlisting
    · obtain rfl := ClonePhase.filling.inj hfilling
      obtain ⟨q, hq, hqc, hqch⟩ := hrows r hr ⟨chunk, hchunk, hrc.symm⟩
      exact Or.inl (Or.inl ⟨q, hq, hqc.trans hrc, hqch.trans hrch⟩)
  · exact Or.inr ⟨d, (List.mem_erase_of_ne heq).mpr hd, howes⟩

/-- A statement of a copy keeps what is promised. -/
lemma Promises.clone (h : σ.Promises) (hs : σ.Sound) {c : Clone} (hc : c ∈ σ.clones)
    (htidy : σ.TidyClone c c.phase) (ht : CloneTurn σ c τ) : τ.Promises := by
  have hdb : σ.db.Intact σ.next := hs.intact.db
  have hkept : ∀ w ∈ σ.process.uploads,
      (∃ u ∈ σ.process.uploads, w.standing = u.standing) ∨ ∀ σ : Hub, σ.Keeps w.standing :=
    fun w hw => Or.inl ⟨w, hw, rfl⟩
  have hother : ∀ d ∈ σ.clones.erase c, d.phase.Paired :=
    fun d hd => h.paired d (List.mem_of_mem_erase hd)
  have hon : ∀ {phase : ClonePhase}, phase.Paired → ∀ d ∈ (σ.nextClone c phase).clones, d.phase.Paired := by
    intro phase hphase d hd
    rcases mem_nextClone hd with hd | rfl
    · exact h.paired d hd
    · exact hphase
  -- a copy that owes nothing yet
  have hstay : c.phase.owes = false → ∀ d ∈ σ.clones, d.phase.owes = true → d ∈ σ.clones.erase c := by
    intro hidle d hd howes
    refine (List.mem_erase_of_ne fun heq => ?_).mpr hd
    rw [heq, hidle] at howes
    cases howes
  have hold : ∀ {τ : Hub}, τ.db = σ.db → ∀ ch' ∈ τ.db.channels, σ.next ≤ ch'.id → τ.IsRead ch' :=
    fun heq => hs.no_new_channel fun ch hch => ⟨ch, heq ▸ hch, .refl ch⟩
  have hinserted : ∀ {destPath db'}, σ.db.insertClonedFile c.source destPath σ.next = .ok db' →
      Db.Carries σ.next none σ.db db' :=
    fun hok => Db.carries_insertFile hdb rfl (Db.insertClonedFile_ok hok)
  cases ht with
  | refuses hp =>
    have hidle : c.phase.owes = false := by
      cases hphase : c.phase with
      | listing | filling => rw [hphase] at hp; cases hp
      | _ => rfl
    exact h.write hs (.refl hdb) (hold rfl) h.adds hother (fun _ hd _ => hd) (hstay hidle) hkept
      fun _ hd => absurd hd List.not_mem_nil
  | folder hp hok =>
    have hcarries := hinserted hok
    exact h.write hs hcarries.rowsStay (hs.no_new_channel fun _ => hcarries.channel_of) h.adds hother
      (fun _ hd _ => hd) (hstay (hp ▸ rfl)) hkept fun _ hd => absurd hd List.not_mem_nil
  | inserts hp hok =>
    have hcarries := hinserted hok
    exact h.write hs hcarries.rowsStay (hs.no_new_channel fun _ => hcarries.channel_of) h.adds (hon trivial)
      (fun _ hd _ => hd) (fun d hd howes => List.mem_cons_of_mem _ (hstay (hp ▸ rfl) d hd howes)) hkept
      fun _ hd => absurd hd List.not_mem_nil
  | @reads fileId hp =>
    have hnodup : (ClonePhase.chunking fileId
        (σ.db.chunks.filter fun chunk => chunk.fileId = c.source.id)).Paired :=
      (List.filter_sublist.map _).nodup hdb.chunkNodup
    exact h.write hs (.refl hdb) (hold rfl) h.adds (hon hnodup) (fun _ hd _ => hd)
      (fun d hd howes => List.mem_cons_of_mem _ (hstay (hp ▸ rfl) d hd howes)) hkept
      fun _ hd => absurd hd List.not_mem_nil
  | @chunks fileId chunks db' hp hok =>
    obtain ⟨-, rfl⟩ := Db.createChunksBatch_ok hdb (hs.ranged c hc _ _ hp) hok
    rw [hp] at htidy
    have hlength : (chunks.map (·.id)).length = ((newChunks fileId σ.next chunks).map (·.id)).length := by
      rw [List.length_map, List.length_map, length_newChunks]
    have hnodup : (chunks.map (·.id)).Nodup := by
      have := h.paired c hc
      rwa [hp] at this
    have hpaired : (ClonePhase.listing
        ((chunks.map (·.id)).zip ((newChunks fileId σ.next chunks).map (·.id)))).Paired := by
      show (List.map (·.1) (List.zip _ _)).Nodup
      rw [List.map_fst_zip hlength.le]
      exact hnodup
    have hrows := Db.rowsStay_append hdb (newChunks fileId σ.next chunks) []
    rw [List.append_nil] at hrows
    refine h.write hs hrows (hs.no_new_channel fun ch hch => ⟨ch, hch, .refl ch⟩) h.adds (hon hpaired)
      (fun _ hd _ => hd) (fun d hd howes => List.mem_cons_of_mem _ (hstay (hp ▸ rfl) d hd howes)) hkept ?_
    intro chunk hchunk
    have hfile := fileId_newChunks hchunk
    refine ⟨fun u hu => hfile ▸ htidy u hu, fun ch => ⟨_, List.mem_cons_self, Or.inl ⟨_, rfl, ?_⟩⟩⟩
    -- the new chunk stands in the second place of a pair
    have hsecond : chunk.id ∈
        ((chunks.map (·.id)).zip ((newChunks fileId σ.next chunks).map (·.id))).map (·.2) := by
      rw [List.map_snd_zip hlength.ge]
      exact List.mem_map_of_mem hchunk
    obtain ⟨pair, hpair, hid⟩ := List.mem_map.mp hsecond
    exact ⟨pair, hpair, hid⟩
  | @chunkFails fileId chunks n hp hn =>
    exact h.write hs (.refl hdb) (hold rfl) h.adds hother (fun _ hd _ => hd) (hstay (hp ▸ rfl)) hkept
      fun _ hd => absurd hd List.not_mem_nil
  | listsNone hp hnone =>
    rw [hp] at htidy
    exact h.listed hc hp htidy rfl rfl hother (fun d hd hne => (List.mem_erase_of_ne hne).mpr hd)
      fun hsome => absurd hnone hsome
  | lists hp =>
    rw [hp] at htidy
    exact h.listed hc hp htidy rfl rfl (hon trivial)
      (fun d hd hne => List.mem_cons_of_mem _ ((List.mem_erase_of_ne hne).mpr hd))
      fun _ => List.mem_cons_self
  | @fills replicas db' hp hok =>
    obtain ⟨-, hf⟩ := Db.filled_insertBatch hdb (Db.idsFrom_renumber _ _) hok
    have hwritten : (σ.withDb db' (σ.next + replicas.length)).Promises :=
      h.write hs (hf.rowsStay hdb) (hs.no_new_channel fun ch hch => ⟨ch, hf.channels ▸ hch, .refl ch⟩) h.adds
        h.paired (fun _ hd _ => hd) (fun _ hd _ => hd) hkept fun _ hd => absurd hd List.not_mem_nil
    refine hwritten.filled hp fun r hr _ => ?_
    obtain ⟨q, hq, hqc, hqch⟩ : ∃ q ∈ renumber σ.next replicas,
        q.chunkId = r.chunkId ∧ q.channelId = r.channelId := exists_renumber hr
    obtain ⟨q', hq', hqc', hqch'⟩ := hf.covered q hq
    exact ⟨q', hq', hqc'.trans hqc, hqch'.trans hqch⟩
  | @fillFails replicas e n hp herror hn =>
    rw [hp] at htidy
    have hwritten : (σ.withDb σ.db n).Promises := h.carry hs (.refl hdb) rfl rfl hkept
    refine hwritten.filled hp fun r hr ⟨chunk, hchunk, hcid⟩ => ?_
    obtain ⟨q, hq, hqc, -⟩ : ∃ q ∈ renumber σ.next replicas,
        q.chunkId = r.chunkId ∧ q.channelId = r.channelId := exists_renumber hr
    exact absurd (hcid.trans hqc.symm) (gone_of_error htidy herror q hq chunk hchunk)

/-! ## The run -/

/-- Every tidy step that adds channels only keeps what is promised. -/
theorem Promises.step (h : σ.Promises) (hs : σ.Sound) {a : HubStep} (hscope : a.AddsOnly = true)
    (htidy : Tidy σ a) : (σ.step a).Promises := by
  have hkept : ∀ w ∈ σ.process.uploads,
      (∃ u ∈ σ.process.uploads, w.standing = u.standing) ∨ ∀ σ : Hub, σ.Keeps w.standing :=
    fun w hw => Or.inl ⟨w, hw, rfl⟩
  have hdb : σ.db.Intact σ.next := hs.intact.db
  -- a replica that is marked stays on its chunk and channel
  have hmarked : ∀ (job : Job) (telegramFileId : String) (telegramMessageId : Int),
      (σ.markUploaded job telegramFileId telegramMessageId).Promises := by
    intro job telegramFileId telegramMessageId
    have hrows := Db.rowsStay_updateReplica hdb job.row.id (f := (·.uploadedAs telegramFileId telegramMessageId))
      fun _ => ⟨rfl, rfl⟩
    exact h.write hs hrows (hs.no_new_channel fun ch hch => ⟨ch, hch, .refl ch⟩) h.adds h.paired
      (fun _ hd _ => hd) (fun _ hd _ => hd) hkept fun _ hd => absurd hd List.not_mem_nil
  have ht := step_turn σ a
  generalize σ.step a = τ at ht
  cases ht with
  | idle => exact h
  | serve hplain hup => exact h.serve hs hplain hup htidy rfl
  | @restart order =>
    have hcarries : Db.Carries σ.next none σ.db (σ.process.step (.restart order)).db :=
      (Db.purged_hardDeleteIds hdb _ order).2.carries hdb
    refine h.write hs hcarries.rowsStay (hs.no_new_channel fun _ => hcarries.channel_of)
      (fun _ hd => absurd hd List.not_mem_nil) (fun _ hd => absurd hd List.not_mem_nil) ?_ ?_
      (fun _ hw => absurd hw List.not_mem_nil) fun _ hd => absurd hd List.not_mem_nil
    · intro c hc hcatches
      exact absurd hcatches (Bool.eq_false_iff.mp (htidy.1 c hc))
    · intro c hc howes
      exact absurd howes (Bool.eq_false_iff.mp (htidy.2 c hc))
  | addChannel =>
    refine h.write hs (.refl hdb) (hs.no_new_channel fun ch hch => ⟨ch, hch, .refl ch⟩) ?_ h.paired
      (fun _ hd _ => List.mem_cons_of_mem _ hd) (fun _ hd _ => hd) hkept
      fun _ hd => absurd hd List.not_mem_nil
    exact List.forall_mem_cons.mpr ⟨rfl, h.adds⟩
  | updateChannel | removeChannel => cases hscope
  | call hc hcall => exact h.call hs hc (htidy hc) hcall
  | copyFile =>
    refine h.write hs (.refl hdb) (hs.no_new_channel fun ch hch => ⟨ch, hch, .refl ch⟩) h.adds ?_
      (fun _ hd _ => hd) (fun _ hd _ => List.mem_cons_of_mem _ hd) hkept
      fun _ hd => absurd hd List.not_mem_nil
    exact List.forall_mem_cons.mpr ⟨trivial, h.paired⟩
  | clone hc hclone => exact h.clone hs hc (htidy hc) hclone
  | list => exact h.carry hs (.refl hdb) rfl rfl hkept
  | pick =>
    obtain ⟨hprocess, hcalls, hclones, -⟩ := pick_spec σ
    refine h.carry hs ?_ hcalls hclones ?_
    · rw [show σ.pick.db = σ.db from congrArg Process.db hprocess]
      exact .refl hdb
    · rw [hprocess]
      exact hkept
  | copied hc => exact hmarked _ _ _
  | @reuploaded c telegramFileId telegramMessageId bytes hc =>
    -- the document that Telegram keeps is no part of what is promised
    obtain ⟨hadds, hpaired, hrelays, huploaded⟩ := hmarked c.job telegramFileId telegramMessageId
    exact ⟨hadds, hpaired, hrelays, huploaded⟩
  | refused hc => exact h.carry hs (carries_markFailed hs hc _) rfl rfl hkept

lemma AtRest.promises (h : σ.AtRest) (hcaught : σ.db.CaughtUp) : σ.Promises where
  adds := fun _ hc => absurd (h.calls ▸ hc) List.not_mem_nil
  paired := fun _ hc => absurd (h.clones ▸ hc) List.not_mem_nil
  relays := fun _ hu => absurd (h.uploads ▸ hu) List.not_mem_nil
  uploaded := fun f hf hup c hc hfid ch hch => Or.inl (Or.inl (hcaught f hf hup c hc hfid ch hch))

lemma Promises.caughtUp (h : σ.Promises) (hend : σ.Ended) : σ.db.CaughtUp := by
  obtain ⟨hcalls, hclones, -⟩ := hend
  intro f hf hup c hc hfid ch hch
  rcases h.uploaded f hf hup c hc hfid ch hch with hcov | ⟨d, hd, -⟩
  · rcases hcov with hrow | hopen | ⟨chunkIds, hcall, -⟩
    · exact hrow
    · unfold IsRead at hopen
      rw [hcalls] at hopen
      exact absurd hopen List.not_mem_nil
    · exact absurd (hcalls ▸ hcall) List.not_mem_nil
  · exact absurd (hclones ▸ hd) List.not_mem_nil

end Hub

/-- Tidy runs of uploads, copies of files and `add_channel` leave every chunk of an uploaded file with a row
    on each active channel, once the calls and the copies have ended. -/
theorem caughtUp_of_tidy {σ : Hub} (hrest : σ.AtRest) (hcaught : σ.db.CaughtUp) {as : List HubStep}
    (hscope : ∀ a ∈ as, a.AddsOnly = true) (htidy : AllOk Hub.step Tidy σ as) :
    Always Hub.step (fun τ => τ.Ended → τ.db.CaughtUp) σ as := by
  have hstep : ∀ (τ : Hub) (a : HubStep), τ.Sound ∧ τ.Promises → a.AddsOnly = true ∧ Tidy τ a →
      (τ.step a).Sound ∧ (τ.step a).Promises :=
    fun τ a hτ ha => ⟨hτ.1.step a, hτ.2.step hτ.1 ha.1 ha.2⟩
  have hkept : Always Hub.step (fun τ => τ.Sound ∧ τ.Promises) σ as :=
    always_of_allOk hstep ⟨hrest.sound, hrest.promises hcaught⟩ (allOk_and (allOk_of_forall hscope) htidy)
  exact hkept.mono fun _ hτ hend => hτ.2.caughtUp hend

/-! ## A channel that is added while an upload runs -/

def twoChunks : UploadRequest :=
  { oneChunk with body := [7, 8] }

/-- `add_channel`, whose catch-up reads the chunks `chunkIds`; the channel has the id `channelId`. -/
def addThird (channelId : Uuid) (chunkIds : List Uuid) : List HubStep :=
  [.addChannel 0 (-300), .call ⟨0, .inserting 3 (-300)⟩, .call ⟨0, .reading channelId⟩,
    .call ⟨0, .queueing channelId chunkIds⟩]

/-- The relay has read the channels before the third one is added and sends its second chunk behind the
    catch-up: nobody asks for that chunk on the new channel. -/
theorem addedBetween_misses :
    twoSlots.AtRest ∧ twoSlots.db.CaughtUp ∧
      let as := [HubStep.serve (.arrive 0 twoChunks), .serve (.act 0 .look), .serve (.act 0 .settle),
          .serve (.act 0 .create), .serve (.act 0 .begin), .serve (.act 0 .plan),
          .serve (.act 0 (.send 0 "one" 10))] ++ addThird 7 [5] ++
        [.serve (.act 0 (.send 1 "two" 11))] ++ finishOne
      (∀ a ∈ as, a.AddsOnly = true) ∧ (run Hub.step twoSlots as).Ended ∧
        ¬(run Hub.step twoSlots as).db.CaughtUp := by
  refine ⟨twoSlots_atRest, fun f hf => absurd hf List.not_mem_nil, ?_, ?_, ?_⟩
  all_goals decide +kernel

/-- Behind the relay's last chunk the catch-up misses nothing. -/
theorem addedBehind_catchesUp :
    AllOk Hub.step Tidy twoSlots (sendOne ++ addThird 7 [5] ++ finishOne) ∧
      Always Hub.step (fun τ => τ.Ended → τ.db.CaughtUp) twoSlots (sendOne ++ addThird 7 [5] ++ finishOne) := by
  have htidy : AllOk Hub.step Tidy twoSlots (sendOne ++ addThird 7 [5] ++ finishOne) := by
    refine ⟨trivial, trivial, trivial, trivial, trivial, trivial, ?_, trivial, fun _ => trivial, fun _ => ?_,
      fun _ => ?_, ?_, trivial, trivial, trivial⟩
    · show ∀ u ∈ Process.upload? _ 0, Hub.MaySend _ 0 u.phase
      decide +kernel
    · decide +kernel
    · decide +kernel
    · show ∀ u ∈ Process.upload? _ 0, u.phase.Counts _
      decide +kernel
  exact ⟨htidy, caughtUp_of_tidy twoSlots_atRest (fun f hf => absurd hf List.not_mem_nil) (by decide) htidy⟩

end Sarca.Server
