import Sarca.Lib.Run
import Sarca.Server.HubSound

/-!
# The last copy of a chunk

Uploads, the replicator, the probes and the calls that edit channels, in any order. `SparesCopies` is what
`remove_channel` does not look at: whether the chunks with an uploaded replica on the channel have another
one. `everyCopied_iff` shows that every chunk keeps an uploaded replica just when every removal spares the
last ones, and `uploaded_keep_copy` draws from it what holds of the uploaded files.
-/

namespace Sarca.Server
open Sarca.Lib

namespace Db

/-- The replica is an uploaded one of the chunk, on a channel of its file's storage. -/
def CopyOf (db : Db) (c : FileChunk) (r : ChunkReplica) : Prop :=
  r.chunkId = c.id ∧ r.status = .uploaded ∧
    ∃ ch ∈ db.channels, ch.id = r.channelId ∧ ∀ f ∈ db.files, f.id = c.fileId → f.storageId = ch.storageId

instance (db : Db) (c : FileChunk) (r : ChunkReplica) : Decidable (db.CopyOf c r) :=
  inferInstanceAs (Decidable (_ ∧ _))

def EveryCopied (db : Db) : Prop :=
  ∀ c ∈ db.chunks, ∃ r ∈ db.replicas, db.CopyOf c r

/-- Each chunk with an uploaded replica on the channel has one on another channel. -/
def CopiedElsewhere (db : Db) (channelId : Uuid) : Prop :=
  ∀ c ∈ db.chunks, (∃ r ∈ db.replicas, db.CopyOf c r ∧ r.channelId = channelId) →
    ∃ r ∈ db.replicas, db.CopyOf c r ∧ r.channelId ≠ channelId

instance (db : Db) (channelId : Uuid) : Decidable (db.CopiedElsewhere channelId) :=
  inferInstanceAs (Decidable (∀ c ∈ db.chunks, _))

/-- Every chunk of an uploaded file has an uploaded replica on a channel of its storage. -/
def UploadedCopied (db : Db) : Prop :=
  ∀ f ∈ db.files, f.isUploaded = true → ∀ c ∈ db.chunks, c.fileId = f.id →
    ∃ r ∈ db.replicas, r.chunkId = c.id ∧ r.status = .uploaded ∧
      ∃ ch ∈ db.channels, ch.id = r.channelId ∧ ch.storageId = f.storageId

instance (db : Db) : Decidable db.UploadedCopied :=
  inferInstanceAs (Decidable (∀ f ∈ db.files, _))

end Db

def HubStep.KeepsFiles : HubStep → Bool
  | .copyFile _ _ | .clone _ => false
  | _ => true

def ChannelCall.removes (c : ChannelCall) : Option Uuid :=
  match c.phase with
  | .deleting channelId => some channelId
  | _ => none

/-- A channel is removed only when each chunk with an uploaded replica on it has another one. -/
def SparesCopies (σ : Hub) : HubStep → Prop
  | .call c => c ∈ σ.calls → ∀ channelId ∈ c.removes, σ.db.CopiedElsewhere channelId
  | _ => True

instance SparesCopies.decidable (σ : Hub) (a : HubStep) : Decidable (SparesCopies σ a) :=
  match a with
  | .call c =>
    have := decideMem c.removes fun channelId => σ.db.CopiedElsewhere channelId
    inferInstanceAs (Decidable (c ∈ σ.calls → _))
  | .serve _ | .addChannel _ _ | .updateChannel _ _ _ | .removeChannel _ _ | .copyFile _ _ | .clone _
  | .list | .pick | .copied _ | .reuploaded _ _ | .refused _ => isTrue trivial

namespace Db

variable {db db' : Db} {n : Uuid} {marked : Option Uuid}

lemma EveryCopied.uploaded (h : db.EveryCopied) : db.UploadedCopied := by
  intro f hf _ c hc hfile
  obtain ⟨r, hr, hchunk, hup, ch, hch, hid, hst⟩ := h c hc
  exact ⟨r, hr, hchunk, hup, ch, hch, hid, (hst f hf hfile.symm).symm⟩

lemma EveryCopied.carries (h : db.EveryCopied) (hc : Carries n marked db db') : db'.EveryCopied := by
  intro c' hc'
  obtain ⟨c, hold, hid, -, -, hfile⟩ := hc.chunks c' hc'
  obtain ⟨r, hr, hchunk, hup, ch, hch, hchid, hst⟩ := h c hold
  obtain ⟨r', hr', hstays⟩ := hc.kept r hr ⟨c', hc', hid.symm.trans hchunk.symm⟩
  obtain ⟨ch', hch', hslot⟩ := hc.channel hch
  refine ⟨r', hr', hstays.chunk.trans (hchunk.trans hid), hstays.uploaded.mpr hup, ch', hch',
    hslot.id.trans (hchid.trans hstays.channel.symm), fun f' hf' hfid => ?_⟩
  obtain ⟨f, hf, hfid, hrow⟩ := hfile f' hf' hfid
  exact hrow.storage.trans ((hst f hf hfid).trans hslot.storage.symm)

lemma EveryCopied.channels (h : db.EveryCopied) {channels : List StorageChannel}
    (hchannels : ∀ ch ∈ db.channels, ∃ ch' ∈ channels, ch'.id = ch.id ∧ ch'.storageId = ch.storageId) :
    EveryCopied { db with channels := channels } := by
  intro c hc
  obtain ⟨r, hr, hchunk, hup, ch, hch, hid, hst⟩ := h c hc
  obtain ⟨ch', hch', hid', hst'⟩ := hchannels ch hch
  exact ⟨r, hr, hchunk, hup, ch', hch', hid'.trans hid, fun f hf hfid => (hst f hf hfid).trans hst'.symm⟩

lemma EveryCopied.markUploaded (h : db.EveryCopied) {job : ChunkReplica}
    (hjob : ∀ r ∈ db.replicas, r.id = job.id → r.status ≠ .uploaded) (f : ChunkReplica → ChunkReplica) :
    (db.updateReplica job.id f).EveryCopied := by
  intro c hc
  obtain ⟨r, hr, hchunk, hup, hslot⟩ := h c hc
  refine ⟨r, List.mem_map.mpr ⟨r, hr, if_neg ?_⟩, hchunk, hup, hslot⟩
  exact fun hid => hjob r hr hid hup

lemma EveryCopied.deleteChannel_iff (h : db.EveryCopied) (channelId : Uuid) :
    (db.deleteChannel channelId).EveryCopied ↔ db.CopiedElsewhere channelId := by
  have hcopy : ∀ c r, r.channelId ≠ channelId →
      ((db.deleteChannel channelId).CopyOf c r ↔ db.CopyOf c r) := by
    intro c r hne
    refine and_congr_right fun _ => and_congr_right fun _ => ⟨?_, ?_⟩
    · rintro ⟨ch, hch, hid, hst⟩
      exact ⟨ch, List.mem_of_mem_filter hch, hid, hst⟩
    · rintro ⟨ch, hch, hid, hst⟩
      refine ⟨ch, List.mem_filter.mpr ⟨hch, decide_eq_true ?_⟩, hid, hst⟩
      exact fun heq => hne (hid.symm.trans heq)
  constructor
  · intro hafter c hc _
    obtain ⟨r, hr, hcopied⟩ := hafter c hc
    obtain ⟨hr, hne⟩ := List.mem_filter.mp hr
    exact ⟨r, hr, (hcopy c r (of_decide_eq_true hne)).mp hcopied, of_decide_eq_true hne⟩
  · intro hspares c hc
    obtain ⟨r, hr, hcopied, hne⟩ : ∃ r ∈ db.replicas, db.CopyOf c r ∧ r.channelId ≠ channelId := by
      obtain ⟨r, hr, hcopied⟩ := h c hc
      by_cases hon : r.channelId = channelId
      · exact hspares c hc ⟨r, hr, hcopied, hon⟩
      · exact ⟨r, hr, hcopied, hon⟩
    exact ⟨r, List.mem_filter.mpr ⟨hr, decide_eq_true hne⟩, (hcopy c r hne).mpr hcopied⟩

end Db

lemma Process.everyCopied_stores {σ : Process} {u : Upload} {db' : Db}
    (haimed : u.phase.Aimed σ.db σ.next) (h : σ.db.EveryCopied) (hst : Stores σ u db') :
    db'.EveryCopied := by
  cases hst with
  | @send file channels plan ids position offset len target telegramFileId messageId _ hp hslice
      htarget hok =>
    obtain ⟨-, -, ⟨ch, hch, hchid⟩, rfl⟩ := Db.createChunkWithReplica_ok hok
    obtain ⟨-, hall⟩ := haimed _ _ _ _ hp
    obtain ⟨-, hslots, hfiles⟩ := hall target htarget
    intro c hc
    cases List.mem_append.mp hc with
    | inl hc =>
      obtain ⟨r, hr, hrest⟩ := h c hc
      exact ⟨r, List.mem_append_left _ hr, hrest⟩
    | inr hc =>
      rw [List.mem_singleton.mp hc]
      refine ⟨_, List.mem_append_right _ (List.mem_singleton_self _), rfl, rfl, ch, hch, hchid, ?_⟩
      exact fun f hf hid => (hfiles f hf hid).trans (hslots ch hch hchid).symm

namespace Hub

variable {σ τ : Hub}

lemma everyCopied_call (hs : σ.Sound) (h : σ.db.EveryCopied) {c : ChannelCall} (hc : c ∈ σ.calls)
    (ht : CallTurn σ c τ) : τ.db.EveryCopied ↔ SparesCopies σ (.call c) := by
  have hdb : σ.db.Intact σ.next := hs.intact.db
  have hother : ∀ {db' : Db}, c.removes = none → db'.EveryCopied →
      (db'.EveryCopied ↔ SparesCopies σ (.call c)) := by
    intro db' hnone hafter
    refine iff_of_true hafter fun _ channelId hid => ?_
    rw [hnone] at hid
    cases hid
  cases ht with
  | refuses hp =>
    refine hother ?_ h
    unfold ChannelCall.removes
    cases hphase : c.phase with
    | deleting => rw [hphase] at hp; cases hp
    | _ => rfl
  | counts hp | readsNone hp | reads hp | queueFails hp =>
    exact hother (by rw [ChannelCall.removes, hp]) h
  | @rotates channel hp =>
    have hcarries : Db.Carries σ.next none σ.db (σ.db.rotateFrom channel) :=
      Db.carries_rotateFrom hdb channel
    exact hother (by rw [ChannelCall.removes, hp]) (h.carries hcarries)
  | deletes hp =>
    refine (h.deleteChannel_iff _).trans ⟨fun hspares _ channelId hid => ?_, fun hspares => ?_⟩
    · rw [ChannelCall.removes, hp] at hid
      cases hid
      exact hspares
    · exact hspares hc _ (by rw [ChannelCall.removes, hp]; rfl)
  | inserts hp =>
    refine hother (by rw [ChannelCall.removes, hp]) (h.channels fun ch hch => ?_)
    exact ⟨ch, List.mem_append_left _ hch, rfl, rfl⟩
  | @repoints channelId chatId hp =>
    refine hother (by rw [ChannelCall.removes, hp]) (h.channels fun ch hch => ?_)
    refine ⟨_, List.mem_map_of_mem hch, ?_⟩
    split <;> exact ⟨rfl, rfl⟩
  | queues hp hok =>
    have hcarries : Db.Carries σ.next none σ.db _ :=
      (Db.filled_insertBatch hdb (Db.idsFrom_newPendings _ _) hok).2.carries hdb
    exact hother (by rw [ChannelCall.removes, hp]) (h.carries hcarries)

lemma everyCopied_step_iff (hs : σ.Sound) (hclones : σ.clones = []) (h : σ.db.EveryCopied) (a : HubStep) :
    (σ.step a).db.EveryCopied ↔ SparesCopies σ a := by
  have hserve : ∀ {s : Step}, s.Plain = true → (σ.process.step s).db.EveryCopied := by
    intro s hplain
    rcases Process.carries_of_plain hs.intact hplain with ⟨marked, hcarries, -⟩ | ⟨u, hu, hst⟩
    · exact h.carries hcarries
    · exact Process.everyCopied_stores (hs.aimed u hu) h hst
  have ht := step_turn σ a
  generalize σ.step a = τ at ht
  cases ht with
  | idle hidle =>
    refine iff_of_true h ?_
    cases a with
    | call c => exact fun hc => absurd hc (hidle c rfl)
    | _ => trivial
  | call hc hcall => exact everyCopied_call hs h hc hcall
  | serve hplain => exact iff_of_true (hserve hplain) trivial
  | @restart order => exact iff_of_true (hserve (s := .restart order) rfl) trivial
  | addChannel | updateChannel | removeChannel | copyFile | list => exact iff_of_true h trivial
  | clone hc => exact absurd (hclones ▸ hc) List.not_mem_nil
  | pick =>
    refine iff_of_true ?_ trivial
    rw [db, (pick_spec σ).1]
    exact h
  | copied hc | reuploaded hc => exact iff_of_true (h.markUploaded (hs.inHand hc).1.2 _) trivial
  | refused hc => exact iff_of_true (h.carries (carries_markFailed hs hc _)) trivial

lemma clones_step (hclones : σ.clones = []) {a : HubStep} (ha : a.KeepsFiles = true) :
    (σ.step a).clones = [] := by
  have ht := step_turn σ a
  generalize σ.step a = τ at ht
  cases ht with
  | call hc hcall => cases hcall <;> exact hclones
  | copyFile | clone => cases ha
  | restart => rfl
  | pick => rw [(pick_spec σ).2.2.1]; exact hclones
  | _ => exact hclones

end Hub

/-! ## Runs -/

/-- From a server at rest every chunk keeps an uploaded replica just when every removal spares the last
    ones. -/
theorem everyCopied_iff {σ : Hub} (hs : σ.Sound) (hclones : σ.clones = []) (h : σ.db.EveryCopied)
    {as : List HubStep} (hscope : ∀ a ∈ as, a.KeepsFiles = true) :
    Always Hub.step (fun τ => τ.db.EveryCopied) σ as ↔ AllOk Hub.step SparesCopies σ as := by
  induction as generalizing σ with
  | nil => exact iff_of_true h trivial
  | cons a as ih =>
    obtain ⟨ha, hrest⟩ := List.forall_mem_cons.mp hscope
    have hstep := Hub.everyCopied_step_iff hs hclones h a
    constructor
    · rintro ⟨-, hafter⟩
      have hnow : (σ.step a).db.EveryCopied := always_iff_prefixes.mp hafter [] List.nil_prefix
      exact ⟨hstep.mp hnow, (ih (hs.step a) (Hub.clones_step hclones ha) hnow hrest).mp hafter⟩
    · rintro ⟨hspares, hok⟩
      have hnow := hstep.mpr hspares
      exact ⟨h, (ih (hs.step a) (Hub.clones_step hclones ha) hnow hrest).mpr hok⟩

/-- Uploaded files stay readable as long as no removal takes the last copy of a chunk. -/
theorem uploaded_keep_copy {σ : Hub} (hrest : σ.AtRest) (h : σ.db.EveryCopied) {as : List HubStep}
    (hscope : ∀ a ∈ as, a.KeepsFiles = true) (hspares : AllOk Hub.step SparesCopies σ as) :
    Always Hub.step (fun τ => τ.db.UploadedCopied) σ as :=
  ((everyCopied_iff hrest.sound hrest.clones h hscope).mpr hspares).mono fun _ hτ => hτ.uploaded

/-! ## A removal before the replicator's turn -/

def removeFirst : List HubStep :=
  [.removeChannel 0 2, .call ⟨0, .counting ⟨2, 0, 1, -100, .active⟩⟩,
    .call ⟨0, .rotating ⟨2, 0, 1, -100, .active⟩⟩, .call ⟨0, .deleting 2⟩]

/-- The channel that a file was sent to is removed before the replicator comes to the file: two channels
    are active, so the call goes through, and the chunk has no uploaded replica any more. -/
theorem removedEarly_loses :
    twoSlots.AtRest ∧ twoSlots.db.EveryCopied ∧
      (∀ a ∈ sendOne ++ finishOne ++ removeFirst, a.KeepsFiles = true) ∧
      (run Hub.step twoSlots (sendOne ++ finishOne)).db.UploadedCopied ∧
      ¬(run Hub.step twoSlots (sendOne ++ finishOne ++ removeFirst)).db.UploadedCopied := by
  refine ⟨twoSlots_atRest, fun c hc => absurd hc List.not_mem_nil, ?_, ?_, ?_⟩
  all_goals decide +kernel

/-- Behind the replicator's turn it takes nothing that is not elsewhere. -/
theorem removedLate_keeps :
    AllOk Hub.step SparesCopies twoSlots (sendOne ++ finishOne ++ copyOne ++ removeFirst) ∧
      Always Hub.step (fun τ => τ.db.UploadedCopied) twoSlots
        (sendOne ++ finishOne ++ copyOne ++ removeFirst) := by
  have hspares : AllOk Hub.step SparesCopies twoSlots (sendOne ++ finishOne ++ copyOne ++ removeFirst) := by
    decide +kernel
  exact ⟨hspares, uploaded_keep_copy twoSlots_atRest (fun c hc => absurd hc List.not_mem_nil) (by decide)
    hspares⟩

end Sarca.Server
