import Sarca.Server.Carries

/-!
# What every step of the hub keeps

`Hub.Sound`: the promises of the process, relays that send to the channels of their file's storage, and jobs
of the replicator whose rows are not uploaded. `Hub.Sound.step` shows that every step keeps it.
-/

namespace Sarca.Server
open Sarca.Lib

/-- A relay sends to channels of its file's storage. -/
def Phase.Aimed (db : Db) (n : Uuid) (p : Phase) : Prop :=
  ∀ file channels plan ids, p = .sending file channels plan ids → file.id < n ∧ ∀ ch ∈ channels,
    ch.id < n ∧ (∀ q ∈ db.channels, q.id = ch.id → q.storageId = ch.storageId) ∧
      ∀ f ∈ db.files, f.id = file.id → f.storageId = ch.storageId

def Job.Waits (db : Db) (n : Uuid) (j : Job) : Prop :=
  j.row.id < n ∧ ∀ r ∈ db.replicas, r.id = j.row.id → r.status ≠ .uploaded

structure Hub.Sound (σ : Hub) : Prop where
  intact : σ.process.Intact
  channelKey : σ.db.ChannelKey
  aimed : ∀ u ∈ σ.process.uploads, u.phase.Aimed σ.db σ.next
  waiting : ∀ j ∈ σ.underWay, j.Waits σ.db σ.next
  apart : (σ.underWay.map (·.row.id)).Nodup
  /-- what a copy has read of the chunks -/
  ranged : ∀ c ∈ σ.clones, ∀ fileId chunks, c.phase = .chunking fileId chunks →
    ∀ chunk ∈ chunks, 0 ≤ chunk.position ∧ chunk.position ≤ 32767

/-! ## Frames -/

namespace Db

variable {db db' : Db} {n m : Uuid}

lemma Follows.aimed (h : Follows n db db') (hle : n ≤ m) {p : Phase} (ha : p.Aimed db n) :
    p.Aimed db' m := by
  intro file channels plan ids hp
  obtain ⟨hfile, hall⟩ := ha file channels plan ids hp
  refine ⟨Nat.lt_of_lt_of_le hfile hle, fun ch hch => ?_⟩
  obtain ⟨hlt, hslots, hfiles⟩ := hall ch hch
  refine ⟨Nat.lt_of_lt_of_le hlt hle, ?_, ?_⟩
  · intro q' hq' hid
    rcases h.channels q' hq' with hnew | ⟨q, hq, hqid, hst⟩
    · exact absurd (hid ▸ hnew) (Nat.not_le.mpr hlt)
    · exact hst.symm.trans (hslots q hq (hqid.trans hid))
  · intro f' hf' hid
    rcases h.files f' hf' with hnew | ⟨f, hf, hfid, hst⟩
    · exact absurd (hid ▸ hnew) (Nat.not_le.mpr hfile)
    · exact hst.symm.trans (hfiles f hf (hfid.trans hid))

lemma Follows.waits (h : Follows n db db') (hle : n ≤ m) {j : Job} (hj : j.Waits db n) :
    j.Waits db' m := by
  refine ⟨Nat.lt_of_lt_of_le hj.1 hle, fun r' hr' hid hup => ?_⟩
  rcases h.uploaded r' hr' hup with hnew | ⟨r, hr, hrid, hrup⟩
  · exact absurd (hid ▸ hnew) (Nat.not_le.mpr hj.1)
  · exact hj.2 r hr (hrid.trans hid) hrup

end Db

/-! ## The relays -/

namespace Process

variable {σ : Process} {u : Upload} {o : Outcome} {a : Act}

lemma not_sending_of_turns {r : UploadRequest} {p q : Phase} (h : Turns σ r p q) {file : FileRow}
    {channels : List StorageChannel} {plan : List ChunkSlice} {ids : List Uuid} :
    q ≠ .sending file channels plan ids := by
  intro heq
  cases h <;> cases heq

lemma plan_inv {file file' : FileRow} {channels : List StorageChannel} {plan : List ChunkSlice}
    {ids : List Uuid} (hp : u.phase = .queued file) (ho : σ.act u a = some o)
    (hs : o.phase = .sending file' channels plan ids) :
    file' = file ∧ ∃ f ∈ σ.db.files, f.id = file.id ∧ ∃ primary ∈ σ.db.activeChannels f.storageId,
      channels = uploadChannels primary (σ.db.activeChannels f.storageId) := by
  cases a <;> simp only [act, hp, reduceCtorEq, Option.some.injEq] at ho
  subst ho
  unfold Process.plan at hs
  split at hs
  · cases hs
  · case h_2 storage hstorage =>
    obtain ⟨f, hf, hst⟩ := Option.bind_eq_some_iff.mp hstorage
    obtain ⟨hrow, hid⟩ := Db.fileById_some hf
    have hsid : storage.id = f.storageId := by simpa using List.find?_some hst
    split at hs
    · cases hs
    · case h_2 primary active db' hok =>
      obtain ⟨rfl, hprimary, -⟩ := Db.resolvePrimaryChannel_inv hok
      cases hs
      rw [hsid] at hprimary ⊢
      exact ⟨rfl, f, hrow, hid, primary, hprimary, rfl⟩

lemma aimed_plan (h : σ.Intact) (hkey : σ.db.ChannelKey) {file : FileRow}
    (hfile : file.id < σ.next) (hp : u.phase = .queued file) (ho : σ.act u a = some o) :
    o.phase.Aimed σ.db σ.next := by
  intro file' channels plan ids hs
  obtain ⟨rfl, f, hrow, hid, primary, hprimary, rfl⟩ := plan_inv hp ho hs
  refine ⟨hfile, fun ch hch => ?_⟩
  obtain ⟨hmem, hchst, -⟩ := Db.mem_activeChannels_iff.mp (mem_uploadChannels hprimary hch)
  refine ⟨h.db.channelBelow ch hmem, ?_, ?_⟩
  · intro q hq hqid
    rw [hkey q hq ch hmem hqid]
  · intro q hq hqid
    rw [h.db.wf.idUnique q hq f hrow (hqid.trans hid.symm), hchst]

lemma aimed_act (h : σ.Intact) (hkey : σ.db.ChannelKey) (hu : u ∈ σ.uploads)
    (ha : u.phase.Aimed σ.db σ.next) (ho : σ.act u a = some o) : o.phase.Aimed σ.db σ.next := by
  cases act_moves ho with
  | turn ht => exact fun file channels plan ids heq => absurd heq (not_sending_of_turns ht)
  | purge | drop | replace | create | refuse | link | linkFails =>
    intro file channels plan ids heq
    cases heq
  | plan hp hok => exact aimed_plan h hkey (h.rowBelow u hu _ (by rw [hp]; rfl)) hp ho
  | send hp =>
    intro file channels plan ids heq
    cases heq
    exact ha _ _ _ _ hp
  | @mark file again =>
    intro file channels plan ids heq
    cases again <;> cases heq

lemma follows_of_plain (h : σ.Intact) {s : Step} (hs : s.Plain = true) :
    Db.Follows σ.next σ.db (σ.step s).db := by
  rcases carries_of_plain h hs with ⟨marked, hc, -⟩ | ⟨u, -, hst⟩
  · exact hc.follows
  · generalize hdb : (σ.step s).db = db' at hst
    cases hst with
    | send _ _ _ hok => exact Db.follows_createChunkWithReplica (Nat.le_succ σ.next) hok

lemma aimed_of_plain (h : σ.Intact) (hkey : σ.db.ChannelKey)
    (haimed : ∀ u ∈ σ.uploads, u.phase.Aimed σ.db σ.next) {s : Step} (hs : s.Plain = true) :
    ∀ u ∈ (σ.step s).uploads, u.phase.Aimed (σ.step s).db (σ.step s).next := by
  have hfollows := follows_of_plain h hs
  have hle := next_le_step h s
  suffices hphase : ∀ u ∈ (σ.step s).uploads, u.phase.Aimed σ.db σ.next from
    fun u hu => hfollows.aimed hle (hphase u hu)
  have hother : ∀ {p : Phase}, (∀ file channels plan ids, p ≠ .sending file channels plan ids) →
      p.Aimed σ.db σ.next := fun hp file channels plan ids heq => absurd heq (hp _ _ _ _)
  intro v hv
  cases s with
  | arrive number r =>
    rcases σ.step_arrive number r with heq | ⟨-, phase, hphase, heq⟩
    · rw [heq] at hv
      exact haimed v hv
    · rw [heq] at hv
      cases List.mem_append.mp hv with
      | inl hv => exact haimed v hv
      | inr hv =>
        rw [List.mem_singleton.mp hv]
        rcases hphase with rfl | rfl
        · exact hother fun _ _ _ _ => Phase.noConfusion
        · exact hother fun _ _ _ _ => Phase.noConfusion
  | act number a =>
    rcases σ.step_act number a with heq | ⟨u, o, -, hu, ho, -, heq⟩
    · rw [heq] at hv
      exact haimed v hv
    · rw [heq] at hv
      rcases mem_commit hv with ⟨hv, -⟩ | ⟨w, hw, hwn, rfl⟩
      · exact haimed v hv
      · exact aimed_act h hkey hu (haimed u hu) ho
  | disconnect number handed =>
    obtain ⟨u, hu, -, -, hphase | hphase, -⟩ := (left_disconnect σ number handed).uploads v hv
    · exact hphase ▸ haimed u hu
    · rw [hphase]
      exact hother fun _ _ _ _ => Phase.noConfusion
  | edit e =>
    rw [step, (edit_requests σ e).1] at hv
    exact haimed v hv
  | restart order => exact absurd hv List.not_mem_nil

end Process

/-! ## The copies -/

namespace Db

variable {db db' : Db} {n : Uuid}

lemma createChunks_ok {fileId : Uuid} {chunks : List FileChunk} (h : db.Intact n)
    (hrange : ∀ c ∈ chunks, 0 ≤ c.position ∧ c.position ≤ 32767)
    (hok : db.createChunks (newChunks fileId n chunks) = .ok db') :
    db'.Intact (n + (newChunks fileId n chunks).length) ∧
      db' = { db with chunks := db.chunks ++ newChunks fileId n chunks } := by
  induction chunks generalizing n db with
  | nil =>
    cases hok
    refine ⟨h, ?_⟩
    rw [newChunks, List.append_nil]
  | cons c chunks ih =>
    obtain ⟨hc, hrest⟩ := List.forall_mem_cons.mp hrange
    unfold newChunks createChunks at hok
    split at hok
    · cases hok
    · case isFalse hkeys =>
      rw [not_or, not_exists, Option.isNone_iff_eq_none] at hkeys
      obtain ⟨f, hf⟩ := Option.ne_none_iff_exists'.mp hkeys.2
      have hint₁ : Db.Intact (n + 1)
          { db with chunks := db.chunks ++ [FileChunk.mk n fileId c.position] } :=
        (h.mono (Nat.le_succ n)).insertChunk (Nat.lt_succ_self n)
          (fun q hq => not_or.mp fun hdup => hkeys.1 q ⟨hq, hdup⟩)
          ⟨f, (fileById_some hf).1, (fileById_some hf).2⟩ hc
      obtain ⟨hint, heq⟩ := ih hint₁ hrest hok
      refine ⟨hint.mono (Nat.le_of_eq ?_), ?_⟩
      · rw [newChunks, List.length_cons, Nat.add_right_comm, Nat.add_assoc]
      · rw [heq, newChunks, List.append_assoc]
        rfl

lemma createChunksBatch_ok {maxVariables : Nat} {fileId : Uuid} {chunks : List FileChunk}
    (h : db.Intact n) (hrange : ∀ c ∈ chunks, 0 ≤ c.position ∧ c.position ≤ 32767)
    (hok : db.createChunksBatch maxVariables (newChunks fileId n chunks) = .ok db') :
    db'.Intact (n + (newChunks fileId n chunks).length) ∧
      db' = { db with chunks := db.chunks ++ newChunks fileId n chunks } := by
  unfold createChunksBatch at hok
  split at hok
  · case isTrue hnil =>
    cases hok
    rw [hnil, List.append_nil]
    exact ⟨h, rfl⟩
  · split at hok
    · cases hok
    · exact createChunks_ok h hrange hok

end Db

/-! ## The hub -/

namespace Hub

variable {σ τ : Hub}

lemma Sound.write (h : σ.Sound) (hint : τ.db.Intact τ.next) (hle : σ.next ≤ τ.next)
    (hfollows : Db.Follows σ.next σ.db τ.db) (huploads : τ.process.uploads = σ.process.uploads)
    (hfiles : ∀ r ∈ τ.db.files, r.id = σ.next ∨ r ∈ σ.db.files) (hwork : τ.underWay = σ.underWay)
    (hranged : ∀ c ∈ τ.clones, c ∈ σ.clones ∨ ∀ fileId chunks, c.phase = .chunking fileId chunks →
      ∀ chunk ∈ chunks, 0 ≤ chunk.position ∧ chunk.position ≤ 32767) : τ.Sound where
  intact := h.intact.write hint hle huploads hfiles
  channelKey := hfollows.key h.channelKey
  aimed := fun u hu => hfollows.aimed hle (h.aimed u (huploads ▸ hu))
  waiting := fun j hj => hfollows.waits hle (h.waiting j (hwork ▸ hj))
  apart := hwork ▸ h.apart
  ranged := fun c hc => (hranged c hc).elim (h.ranged c) id

lemma intact_insertChannel {db : Db} {n : Uuid} (h : db.Intact n) {channel : StorageChannel}
    (hid : channel.id = n) : Db.Intact (n + 1) { db with channels := db.channels ++ [channel] } := by
  have h' := h.mono (Nat.le_succ n)
  refine h'.edit (fun s hs => hs) (fun r hr => ⟨r, hr, rfl, rfl⟩) h'.replicaId ?_ ?_
  · intro r hr
    obtain ⟨ch, hch, hid⟩ := h.replicaChannel r hr
    exact ⟨ch, List.mem_append_left _ hch, hid⟩
  · intro ch hch
    cases List.mem_append.mp hch with
    | inl hch => exact h'.channelBelow ch hch
    | inr hch =>
      rw [List.mem_singleton.mp hch, hid]
      exact Nat.lt_succ_self n

lemma Sound.call (h : σ.Sound) {c : ChannelCall} (ht : CallTurn σ c τ) : τ.Sound := by
  have hsame : ∀ r ∈ σ.db.files, r.id = σ.next ∨ r ∈ σ.db.files := fun r hr => Or.inr hr
  have hdb : σ.db.Intact σ.next := h.intact.db
  cases ht with
  | refuses | counts | readsNone | reads =>
    exact ⟨h.intact, h.channelKey, h.aimed, h.waiting, h.apart, h.ranged⟩
  | @rotates channel hp =>
    obtain ⟨hint, hed, -⟩ := Db.rotateFrom_spec hdb channel
    have hcarries : Db.Carries σ.next none σ.db (σ.db.rotateFrom channel) :=
      Db.carries_rotateFrom hdb channel
    exact h.write hint (Nat.le_refl _) hcarries.follows rfl (fun r hr => Or.inr (hed.files ▸ hr)) rfl
      fun c hc => Or.inl hc
  | deletes hp =>
    exact h.write (Db.deleteChannel_spec hdb _).1 (Nat.le_refl _) (Db.follows_deleteChannel _) rfl hsame
      rfl fun c hc => Or.inl hc
  | inserts hp hstorage hfree =>
    exact h.write (intact_insertChannel hdb rfl) (Nat.le_succ _) (Db.follows_insertChannel hdb rfl) rfl
      hsame rfl fun c hc => Or.inl hc
  | repoints hp hfree =>
    refine h.write (Db.updateChannelRow_spec hdb _ ?_).1 (Nat.le_refl _)
      (Db.follows_updateChannelRow _ ?_) rfl hsame rfl fun c hc => Or.inl hc
    · exact fun _ => rfl
    · exact fun _ => ⟨rfl, rfl⟩
  | queues hp hok hn =>
    obtain ⟨hint, hf⟩ := Db.filled_insertBatch hdb (Db.idsFrom_newPendings _ _) hok
    have hcarries : Db.Carries σ.next none σ.db _ := hf.carries hdb
    exact h.write (hn ▸ hint) (hn ▸ Nat.le_add_right _ _) hcarries.follows rfl
      (fun r hr => Or.inr (hf.files ▸ hr)) rfl fun c hc => Or.inl hc
  | queueFails hp _ hn =>
    exact h.write (hdb.mono hn) hn (.refl _ _) rfl hsame rfl fun c hc => Or.inl hc

lemma mem_nextClone {c d : Clone} {phase : ClonePhase} (hd : d ∈ (σ.nextClone c phase).clones) :
    d ∈ σ.clones ∨ d = ⟨c.source, phase⟩ := by
  cases List.mem_cons.mp hd with
  | inl hd => exact Or.inr hd
  | inr hd => exact Or.inl (List.mem_of_mem_erase hd)

lemma ids_renumber {next : Uuid} {replicas : List ChunkReplica} {r : ChunkReplica}
    (hr : r ∈ renumber next replicas) : next ≤ r.id := by
  induction replicas generalizing next with
  | nil => exact absurd hr List.not_mem_nil
  | cons q replicas ih =>
    cases List.mem_cons.mp hr with
    | inl hr => exact hr ▸ Nat.le_refl next
    | inr hr => exact Nat.le_of_succ_le (ih hr)

/-- A statement of a copy. -/
lemma Sound.clone (h : σ.Sound) {c : Clone} (hc : c ∈ σ.clones) (ht : CloneTurn σ c τ) : τ.Sound := by
  have hsame : ∀ r ∈ σ.db.files, r.id = σ.next ∨ r ∈ σ.db.files := fun r hr => Or.inr hr
  have hdb : σ.db.Intact σ.next := h.intact.db
  have hstay : ∀ d ∈ σ.clones.erase c, d ∈ σ.clones ∨ ∀ fileId chunks, d.phase = .chunking fileId chunks →
      ∀ chunk ∈ chunks, 0 ≤ chunk.position ∧ chunk.position ≤ 32767 :=
    fun d hd => Or.inl (List.mem_of_mem_erase hd)
  have hon : ∀ {phase : ClonePhase}, (∀ fileId chunks, phase = .chunking fileId chunks →
      ∀ chunk ∈ chunks, 0 ≤ chunk.position ∧ chunk.position ≤ 32767) →
      ∀ d ∈ (σ.nextClone c phase).clones, d ∈ σ.clones ∨ ∀ fileId chunks,
        d.phase = .chunking fileId chunks → ∀ chunk ∈ chunks, 0 ≤ chunk.position ∧ chunk.position ≤ 32767 := by
    intro phase hphase d hd
    rcases mem_nextClone hd with hd | rfl
    · exact Or.inl hd
    · exact Or.inr hphase
  have hinserted : ∀ {destPath db'}, σ.db.insertClonedFile c.source destPath σ.next = .ok db' →
      db'.Intact (σ.next + 1) ∧ Db.Follows σ.next σ.db db' ∧
        ∀ r ∈ db'.files, r.id = σ.next ∨ r ∈ σ.db.files := by
    intro destPath db' hok
    have hins := Db.insertClonedFile_ok hok
    have hcarries : Db.Carries σ.next none σ.db db' := Db.carries_insertFile hdb rfl hins
    refine ⟨hdb.insertFile hins rfl, hcarries.follows, fun r hr => ?_⟩
    rcases (Db.mem_insertFile hins).mp hr with hr | rfl
    · exact Or.inr hr
    · exact Or.inl rfl
  cases ht with
  | refuses | listsNone =>
    exact h.write hdb (Nat.le_refl _) (.refl _ _) rfl hsame rfl hstay
  | folder hp hok =>
    obtain ⟨hint, hfollows, hrows⟩ := hinserted hok
    exact h.write hint (Nat.le_succ _) hfollows rfl hrows rfl hstay
  | inserts hp hok =>
    obtain ⟨hint, hfollows, hrows⟩ := hinserted hok
    exact h.write hint (Nat.le_succ _) hfollows rfl hrows rfl (hon fun _ _ h => by cases h)
  | reads hp =>
    refine h.write hdb (Nat.le_refl _) (.refl _ _) rfl hsame rfl (hon ?_)
    intro fileId chunks heq chunk hchunk
    cases heq
    exact hdb.chunkRange chunk (List.mem_of_mem_filter hchunk)
  | chunks hp hok =>
    obtain ⟨hint, rfl⟩ := Db.createChunksBatch_ok hdb (h.ranged c hc _ _ hp) hok
    exact h.write hint (Nat.le_add_right _ _) (Db.follows_chunks _) rfl hsame rfl
      (hon fun _ _ h => by cases h)
  | chunkFails hp hn => exact h.write (hdb.mono hn) hn (.refl _ _) rfl hsame rfl hstay
  | lists hp =>
    exact h.write hdb (Nat.le_refl _) (.refl _ _) rfl hsame rfl (hon fun _ _ h => by cases h)
  | fills hp hok =>
    obtain ⟨hint, hf⟩ := Db.filled_insertBatch hdb (Db.idsFrom_renumber _ _) hok
    rw [Db.length_renumber] at hint
    refine h.write hint (Nat.le_add_right _ _) (hf.follows fun r hr => ids_renumber hr) rfl ?_ rfl hstay
    exact fun r hr => Or.inr (hf.files ▸ hr)
  | fillFails hp _ hn => exact h.write (hdb.mono hn) hn (.refl _ _) rfl hsame rfl hstay

/-! ## The replicator -/

lemma underWay_copying {c : Copying} (hc : σ.copying = some c) : σ.underWay = c.job :: σ.jobs := by
  rw [underWay, hc]
  rfl

lemma Sound.inHand (h : σ.Sound) {c : Copying} (hc : σ.copying = some c) :
    c.job.Waits σ.db σ.next ∧ ∀ j ∈ σ.jobs, j.row.id ≠ c.job.row.id := by
  have hwork := underWay_copying hc
  refine ⟨h.waiting c.job (hwork ▸ List.mem_cons_self), fun j hj hid => ?_⟩
  have hapart := h.apart
  rw [hwork, List.map_cons, List.nodup_cons] at hapart
  exact hapart.1 (List.mem_map.mpr ⟨j, hj, hid⟩)

lemma carries_markFailed (h : σ.Sound) {c : Copying} (hc : σ.copying = some c) (chatDead : Bool) :
    Db.Carries σ.next none σ.db (σ.markFailed c.job chatDead).db := by
  obtain ⟨⟨-, hwaits⟩, -⟩ := h.inHand hc
  have hfailed : Db.Carries σ.next none σ.db
      (σ.db.updateReplica c.job.row.id fun r => { r with status := .failed }) := by
    refine Db.carries_replicas h.intact.db fun r hr => ?_
    split
    · case isTrue hid =>
      exact ⟨rfl, rfl, rfl, rfl, rfl, fun hup => absurd hup nofun, fun hup => absurd hup (hwaits r hr hid)⟩
    · exact .refl r
  cases chatDead with
  | false => exact hfailed
  | true => exact hfailed.dead c.job.row.channelId

lemma Sound.markFailed (h : σ.Sound) {c : Copying} (hc : σ.copying = some c) (chatDead : Bool) :
    (σ.markFailed c.job chatDead).Sound := by
  have hcarries := carries_markFailed h hc chatDead
  have hfailed : Db.Intact σ.next
      (σ.db.updateReplica c.job.row.id fun r => { r with status := .failed }) := by
    refine h.intact.db.updateReplicas fun r => ?_
    split <;> exact ⟨rfl, rfl, rfl⟩
  have hint : (σ.markFailed c.job chatDead).db.Intact σ.next := by
    cases chatDead with
    | false => exact hfailed
    | true => exact (Db.updateChannelRow_spec hfailed c.job.row.channelId
        (f := fun ch => { ch with status := .dead }) fun _ => rfl).1
  have hwork := underWay_copying hc
  have hfiles : (σ.markFailed c.job chatDead).db.files = σ.db.files := by cases chatDead <;> rfl
  refine ⟨h.intact.write hint (Nat.le_refl _) rfl fun r hr => Or.inr (hfiles ▸ hr),
    hcarries.follows.key h.channelKey,
    fun u hu => hcarries.follows.aimed (Nat.le_refl _) (h.aimed u hu), ?_, ?_, h.ranged⟩
  · intro j hj
    exact hcarries.follows.waits (Nat.le_refl _)
      (h.waiting j (hwork ▸ List.mem_cons_of_mem _ hj))
  · have hapart := h.apart
    rw [hwork, List.map_cons, List.nodup_cons] at hapart
    exact hapart.2

lemma Sound.markUploaded (h : σ.Sound) {c : Copying} (hc : σ.copying = some c) (telegramFileId : String)
    (telegramMessageId : Int) : (σ.markUploaded c.job telegramFileId telegramMessageId).Sound := by
  obtain ⟨-, hother⟩ := h.inHand hc
  have hwork := underWay_copying hc
  have hint : Db.Intact σ.next
      (σ.db.updateReplica c.job.row.id (·.uploadedAs telegramFileId telegramMessageId)) := by
    refine h.intact.db.updateReplicas fun r => ?_
    split <;> exact ⟨rfl, rfl, rfl⟩
  refine ⟨h.intact.write hint (Nat.le_refl _) rfl fun r hr => Or.inr hr, h.channelKey, h.aimed, ?_, ?_,
    h.ranged⟩
  · intro j hj
    have hj' : j ∈ σ.jobs := hj
    obtain ⟨hlt, hwaits⟩ := h.waiting j (hwork ▸ List.mem_cons_of_mem _ hj')
    refine ⟨hlt, fun r' hr' hid => ?_⟩
    obtain ⟨r, hr, rfl⟩ := List.mem_map.mp hr'
    split at hid
    · case isTrue hsame => exact absurd (hid.symm.trans hsame) (hother j hj')
    · case isFalse hne =>
      rw [if_neg hne]
      exact hwaits r hr hid
  · have hapart := h.apart
    rw [hwork, List.map_cons, List.nodup_cons] at hapart
    exact hapart.2

lemma pendingJobs_spec {db : Db} {n : Uuid} (h : db.Intact n) :
    (∀ j ∈ db.pendingJobs, j.row ∈ db.replicas ∧ j.row.status ≠ .uploaded) ∧
      (db.pendingJobs.map (·.row.id)).Nodup := by
  have hrow : ∀ r ∈ (db.listPending batchSize).dedup, r ∈ db.replicas ∧ r.status ≠ .uploaded := by
    intro r hr
    have hjob := List.mem_of_mem_take (List.mem_dedup.mp hr)
    obtain ⟨hmem, hwaits⟩ := List.mem_filter.mp ((List.mem_insertionSort _).mp hjob)
    exact ⟨hmem, (of_decide_eq_true hwaits).1⟩
  constructor
  · intro j hj
    obtain ⟨r, hr, hmap⟩ := List.mem_filterMap.mp hj
    obtain ⟨ch, -, rfl⟩ := Option.map_eq_some_iff.mp hmap
    exact hrow r hr
  · have hsub : (db.pendingJobs.map (·.row)).Sublist (db.listPending batchSize).dedup := by
      unfold Db.pendingJobs
      generalize (db.listPending batchSize).dedup = rows
      induction rows with
      | nil => exact List.Sublist.refl []
      | cons r rows ih =>
        rw [List.filterMap_cons]
        cases db.channelById r.channelId with
        | none => exact ih.cons r
        | some ch => exact ih.cons_cons r
    have hnodup : (db.pendingJobs.map (·.row)).Nodup := hsub.nodup (List.nodup_dedup _)
    have heq : db.pendingJobs.map (·.row.id) = (db.pendingJobs.map (·.row)).map (·.id) :=
      (List.map_map).symm
    rw [heq]
    refine List.Nodup.map_on ?_ hnodup
    intro r hr r' hr' hid
    exact h.replicaId r (hrow r (hsub.subset hr)).1 r' (hrow r' (hsub.subset hr')).1 hid

lemma pick_spec (σ : Hub) : σ.pick.process = σ.process ∧ σ.pick.calls = σ.calls ∧
    σ.pick.clones = σ.clones ∧ σ.pick.underWay.Sublist σ.underWay := by
  unfold pick
  split
  · case h_1 job jobs hcopying hjobs =>
    have hwork : σ.underWay = job :: jobs := by rw [underWay, hcopying, hjobs]; rfl
    have hdrop : List.Sublist jobs σ.underWay := hwork ▸ List.sublist_cons_self job jobs
    split
    · refine ⟨rfl, rfl, rfl, ?_⟩
      unfold underWay at hdrop ⊢
      rw [hcopying] at hdrop ⊢
      exact hdrop
    · split
      · exact ⟨rfl, rfl, rfl, hwork ▸ List.Sublist.refl _⟩
      · refine ⟨rfl, rfl, rfl, ?_⟩
        unfold underWay at hdrop ⊢
        rw [hcopying] at hdrop ⊢
        exact hdrop
  · exact ⟨rfl, rfl, rfl, List.Sublist.refl _⟩

/-- Every step keeps it. -/
theorem Sound.step (h : σ.Sound) (a : HubStep) : (σ.step a).Sound := by
  have ht := step_turn σ a
  generalize σ.step a = τ at ht
  cases ht with
  | idle => exact h
  | @serve s hplain hup =>
    have hfollows := Process.follows_of_plain h.intact hplain
    have hle := Process.next_le_step h.intact s
    exact ⟨h.intact.step s, hfollows.key h.channelKey,
      Process.aimed_of_plain h.intact h.channelKey h.aimed hplain,
      fun j hj => hfollows.waits hle (h.waiting j hj), h.apart, h.ranged⟩
  | @restart order =>
    have hfollows : Db.Follows σ.next σ.db _ := Process.follows_of_plain h.intact (s := .restart order) rfl
    exact ⟨h.intact.step (.restart order), hfollows.key h.channelKey,
      fun u hu => absurd hu List.not_mem_nil,
      fun j hj => absurd hj List.not_mem_nil, List.nodup_nil, fun c hc => absurd hc List.not_mem_nil⟩
  | addChannel | updateChannel | removeChannel =>
    exact ⟨h.intact, h.channelKey, h.aimed, h.waiting, h.apart, h.ranged⟩
  | call hc hcall => exact h.call hcall
  | copyFile hsource =>
    refine ⟨h.intact, h.channelKey, h.aimed, h.waiting, h.apart, fun c hc => ?_⟩
    cases List.mem_cons.mp hc with
    | inl hc =>
      rw [hc]
      exact fun _ _ heq => by cases heq
    | inr hc => exact h.ranged c hc
  | clone hc hclone => exact h.clone hc hclone
  | list hidle =>
    obtain ⟨hrows, hnodup⟩ := pendingJobs_spec h.intact.db
    have hcopying : σ.copying = none := by
      cases hc : σ.copying with
      | none => rfl
      | some c => rw [underWay_copying hc] at hidle; cases hidle
    have hwork : ({ σ with jobs := σ.db.pendingJobs } : Hub).underWay = σ.db.pendingJobs := by
      unfold underWay
      rw [hcopying]
      rfl
    refine ⟨h.intact, h.channelKey, h.aimed, ?_, by rw [hwork]; exact hnodup, h.ranged⟩
    intro j hj
    rw [hwork] at hj
    obtain ⟨hmem, hstatus⟩ := hrows j hj
    refine ⟨h.intact.db.replicaBelow _ hmem, fun r hr hid => ?_⟩
    rw [h.intact.db.replicaId r hr j.row hmem hid]
    exact hstatus
  | pick =>
    obtain ⟨hprocess, -, hclones, hsub⟩ := pick_spec σ
    have hdb : σ.pick.db = σ.db := congrArg Process.db hprocess
    have hnext : σ.pick.next = σ.next := congrArg Process.next hprocess
    refine ⟨hprocess ▸ h.intact, hdb ▸ h.channelKey, ?_, ?_, (hsub.map _).nodup h.apart, hclones ▸ h.ranged⟩
    · rw [hdb, hnext, hprocess]
      exact h.aimed
    · rw [hdb, hnext]
      exact fun j hj => h.waiting j (hsub.subset hj)
  | copied hc => exact h.markUploaded hc _ _
  | @reuploaded c telegramFileId telegramMessageId bytes hc =>
    -- the document that Telegram keeps is no part of what is kept
    obtain ⟨hint, hkey, haimed, hwaiting, hapart, hranged⟩ :=
      h.markUploaded hc telegramFileId telegramMessageId
    exact ⟨⟨hint.db, hint.rowBelow, hint.rowLive⟩, hkey, haimed, hwaiting, hapart, hranged⟩
  | refused hc => exact h.markFailed hc _

structure AtRest (σ : Hub) : Prop where
  intact : σ.process.Intact
  channelKey : σ.db.ChannelKey
  uploads : σ.process.uploads = []
  calls : σ.calls = []
  clones : σ.clones = []
  idle : σ.underWay = []

lemma AtRest.sound (h : σ.AtRest) : σ.Sound where
  intact := h.intact
  channelKey := h.channelKey
  aimed := fun _ hu => absurd (h.uploads ▸ hu) List.not_mem_nil
  waiting := fun _ hj => absurd (h.idle ▸ hj) List.not_mem_nil
  apart := h.idle.symm ▸ List.nodup_nil
  ranged := fun _ hc => absurd (h.clones ▸ hc) List.not_mem_nil

end Hub

/-! ## A storage with two slots -/

/-- A storage with a bot and two active channels. -/
def twoSlots : Hub where
  process := {
    db := { Db.fresh [⟨0, 1⟩] with
      workers := [⟨1, some 0⟩]
      channels := [⟨2, 0, 1, -100, .active⟩, ⟨3, 0, 2, -200, .active⟩] }
    uploads := []
    documents := []
    inFlight := []
    next := 4
    maxVariables := 32766 }
  calls := []
  clones := []
  jobs := []
  copying := none

lemma isFolderPath_aTxt : isFolderPath "a.txt".toList = false := rfl

def oneChunk : UploadRequest where
  storageId := 0
  path := "a.txt".toList
  body := [7]
  chunkSize := 1
  sourceCreatedAt := none
  sourceMtime := none
  contentHash := none
  replace := false
  isFile := isFolderPath_aTxt
  chunkSize_pos := Nat.one_pos

def sendOne : List HubStep :=
  [.serve (.arrive 0 oneChunk), .serve (.act 0 .look), .serve (.act 0 .settle), .serve (.act 0 .create),
    .serve (.act 0 .begin), .serve (.act 0 .plan), .serve (.act 0 (.send 0 "one" 10))]

def finishOne : List HubStep :=
  [.serve (.act 0 .link), .serve (.act 0 .mark), .serve (.act 0 .mark)]

def copyOne : List HubStep :=
  [.list, .pick, .copied 20]

lemma twoSlots_atRest : twoSlots.AtRest where
  intact := by
    refine ⟨?_, fun u hu => absurd hu List.not_mem_nil, fun u hu => absurd hu List.not_mem_nil⟩
    refine ⟨⟨?_, ?_, ?_, ?_, ?_⟩, ?_, ?_, ?_, ?_, ?_, ?_, ?_, ?_, ?_, ?_, ?_⟩ <;> decide +kernel
  channelKey := by unfold Db.ChannelKey; decide +kernel
  uploads := rfl
  calls := rfl
  clones := rfl
  idle := rfl

end Sarca.Server
