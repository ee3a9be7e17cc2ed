import Sarca.Server.Replace

/-!
# Finishing an interrupted upload

Attempts at one file, stored by any number of relays and interleaved with restarts and edits of the
channels, and then one attempt that nothing disturbs (`finalAttempt`): the storage has a bot and an
active channel and Telegram accepts every chunk. `finishes_iff` says when that attempt ends with the
row uploaded and every position readable from an active channel: a chunk row whose only copies are gone
or on inactive channels blocks its position for ever, and so does a file with more chunks than an `i16`
counts or than one `INSERT` can name.
-/

namespace Sarca.Server
open Sarca.Lib

structure IsAttempt (storageId : Uuid) (path : Path) (hash : ContentHash) (size : Nat)
    (r : UploadRequest) : Prop where
  storage : r.storageId = storageId
  path : r.path = path
  hash : r.contentHash = some hash
  size : r.body.length = size

/-- The step starts no other request than an attempt at the file. -/
def Attempts (storageId : Uuid) (path : Path) (hash : ContentHash) (size : Nat) : Step → Prop
  | .arrive _ r => IsAttempt storageId path hash size r
  | _ => True

/-- The chunk has a readable replica on an active channel. -/
def Db.ServedChunk (db : Db) (c : FileChunk) : Prop :=
  ∃ r ∈ db.replicas, r.chunkId = c.id ∧ r.Readable ∧
    ∃ ch ∈ db.channels, ch.id = r.channelId ∧ ch.isActive = true

instance (db : Db) (c : FileChunk) : Decidable (db.ServedChunk c) :=
  inferInstanceAs (Decidable (∃ r ∈ db.replicas, _))

/-- The position of a file can be read from an active channel. -/
def Db.Served (db : Db) (fileId : Uuid) (position : Nat) : Prop :=
  ∃ c ∈ db.chunks, c.fileId = fileId ∧ c.position = position ∧ db.ServedChunk c

def FileRow.chunkTotal (r : FileRow) : Nat :=
  chunkCount r.size.toNat (Process.chunkSizeOf r)

/-- The turns of a relay; Telegram accepts the chunks in the order of `sends`. -/
def relayActs (sends : List (Nat × String × Int)) : List Act :=
  [.begin, .plan] ++ (sends.map (fun send => .send send.1 send.2.1 send.2.2) ++
    [.link, .mark, .mark])

/-- One attempt that nothing disturbs. A turn that does not belong to the way it goes changes
    nothing. -/
def finalAttempt (number : Nat) (r : UploadRequest) (now : Instant) (stamp : Path)
    (sends : List (Nat × String × Int)) : List Step :=
  .arrive number r ::
    (.look :: .settle :: .replace now stamp :: .create :: relayActs sends).map (.act number)

/-- The attempt was answered `Ok`, the row at its path is an uploaded one of its bytes and every
    position is readable. -/
def Finished (storageId : Uuid) (path : Path) (hash : ContentHash) (number : Nat)
    (σ : Process) : Prop :=
  (∃ u, σ.upload? number = some u ∧ u.phase = .answered (.ok ())) ∧
    ∃ row, σ.db.liveAt storageId path = some row ∧ row.contentHash = some hash ∧
      row.isUploaded = true ∧ ∀ position < row.chunkTotal, σ.db.Served row.id position

/-- The channels an upload deals its chunks to. -/
def Db.dealtTo (db : Db) (storageId : Uuid) : List StorageChannel :=
  match db.storages.find? fun s => s.id = storageId with
  | none => []
  | some storage =>
    match db.resolvePrimaryChannel storage with
    | .ok (primary, active, _) => Process.uploadChannels primary active
    | .error _ => []

/-- The positions of a file of `total` chunks that a relay still sends. -/
def Db.missing (db : Db) (fileId : Uuid) (total : Nat) : List Nat :=
  (List.range total).filter fun position =>
    position ∉ (db.listStoredChunkPositions fileId).map fun s => s.1.toNat

/-- What an attempt needs of the chunk rows it finds: no position but one an `i16` counts, an active
    copy of every chunk row, and replica rows that one `INSERT` can name. -/
structure Finishable (db : Db) (maxVariables : Nat) (storageId fileId : Uuid) (total : Nat) :
    Prop where
  counted : total ≤ 32768
  served : ∀ c ∈ db.chunks, c.fileId = fileId → c.position < total → db.ServedChunk c
  linkable : 6 * (((db.listStoredChunkPositions fileId).length +
    (db.missing fileId total).length) * (db.dealtTo storageId).length) ≤ maxVariables

/-- What an attempt needs that starts a file from its first chunk. -/
def Fits (db : Db) (maxVariables : Nat) (storageId : Uuid) (total : Nat) : Prop :=
  total ≤ 32768 ∧ 6 * (total * (db.dealtTo storageId).length) ≤ maxVariables

/-- The row at the path of a request that holds the same bytes, as far as the hash tells. -/
def Process.sameRow (σ : Process) (r : UploadRequest) : Option FileRow :=
  (σ.db.liveAt r.storageId r.path).filter fun row => row.contentHash = r.contentHash

/-- The number of chunks the relay of a request counts. -/
def Process.relayTotal (σ : Process) (r : UploadRequest) : Nat :=
  match σ.sameRow r with
  | some row => row.chunkTotal
  | none => chunkCount r.body.length r.chunkSize

def CanFinish (σ : Process) (r : UploadRequest) : Prop :=
  match σ.sameRow r with
  | some row =>
    if row.isUploaded then ∀ position < row.chunkTotal, σ.db.Served row.id position
    else Finishable σ.db σ.maxVariables r.storageId row.id row.chunkTotal
  | none => Fits σ.db σ.maxVariables r.storageId (chunkCount r.body.length r.chunkSize)

/-! ## One request on its way -/

def Stands (σ : Process) (number : Nat) (r : UploadRequest) (phase : Phase) : Prop :=
  σ.upload? number = some ⟨number, r, phase, false⟩

namespace Stands

variable {σ : Process} {number : Nat} {r : UploadRequest} {phase : Phase}

lemma act (h : Stands σ number r phase) {a : Act} {o : Outcome}
    (ho : σ.act ⟨number, r, phase, false⟩ a = some o) :
    σ.step (.act number a) = σ.commit number o ∧ Stands (σ.commit number o) number r o.phase :=
  ⟨Process.step_act_eq h ho, Process.upload?_commit h⟩

lemma idle (h : Stands σ number r phase) (as : List Act)
    (hnone : ∀ a ∈ as, σ.act ⟨number, r, phase, false⟩ a = none) :
    run Process.step σ (as.map (.act number)) = σ := by
  induction as with
  | nil => rfl
  | cons a as ih =>
    have ha : σ.step (.act number a) = σ := by
      have hu : σ.upload? number = some ⟨number, r, phase, false⟩ := h
      simp only [Process.step, hu, hnone a List.mem_cons_self]
    rw [List.map_cons, run_cons, ha]
    exact ih fun b hb => hnone b (List.mem_cons_of_mem a hb)

end Stands

lemma stands_arrive {σ : Process} {number : Nat} {r : UploadRequest}
    (hnew : σ.upload? number = none) (hbot : ∃ w ∈ σ.db.workers, w.storageId = some r.storageId) :
    σ.step (.arrive number r) = { σ with uploads := σ.uploads ++ [⟨number, r, .looking, false⟩] } ∧
      Stands (σ.step (.arrive number r)) number r .looking := by
  have heq : σ.step (.arrive number r) =
      { σ with uploads := σ.uploads ++ [⟨number, r, .looking, false⟩] } := by
    simp only [Process.step, Process.arrive, hnew, Option.isSome_none, Bool.false_eq_true, if_false,
      if_pos hbot]
  refine ⟨heq, ?_⟩
  rw [heq]
  have hnone : σ.uploads.find? (fun u => u.number = number) = none := hnew
  simp [Stands, Process.upload?, List.find?_append, hnone]

/-! ## The chunks -/

lemma createChunk_ok_or_taken {db : Db} {n : Uuid} (h : db.Intact n) {fileId channelId : Uuid}
    (hrow : ∃ f ∈ db.files, f.id = fileId) (hch : ∃ ch ∈ db.channels, ch.id = channelId)
    (position : Int) (telegramFileId : String) (messageId : Int) :
    (∃ db', db.createChunkWithReplica ⟨n, fileId, position⟩
      (.newUploaded (n + 1) n channelId telegramFileId messageId) = .ok db') ∨
    (∃ e, db.createChunkWithReplica ⟨n, fileId, position⟩
      (.newUploaded (n + 1) n channelId telegramFileId messageId) = .error e) ∧
      ∃ c ∈ db.chunks, c.fileId = fileId ∧ c.position = position := by
  by_cases htaken : ∃ c ∈ db.chunks, c.fileId = fileId ∧ c.position = position
  · obtain ⟨c, hc, htaken'⟩ := htaken
    refine Or.inr ⟨⟨.unknown, if_pos ⟨c, hc, Or.inr htaken'⟩⟩, c, hc, htaken'⟩
  · left
    have hchunk : ¬ ∃ c ∈ db.chunks, c.id = n ∨ c.fileId = fileId ∧ c.position = position := by
      rintro ⟨c, hc, hid | hpos⟩
      · exact absurd hid (h.chunkBelow c hc).ne
      · exact htaken ⟨c, hc, hpos⟩
    have hkeys : ¬ ((db.fileById fileId).isNone ∨ (db.channelById channelId).isNone) := by
      obtain ⟨f, hf, rfl⟩ := hrow
      obtain ⟨ch, hm, rfl⟩ := hch
      rintro (hnone | hnone)
      · rw [Db.fileById_of_mem h.wf hf] at hnone
        cases hnone
      · have hno := List.find?_eq_none.mp (Option.isNone_iff_eq_none.mp hnone) ch hm
        simp at hno
    have hreplica : ¬ ∃ q ∈ db.replicas, q.id = n + 1 ∨ q.chunkId = n ∧ q.channelId = channelId := by
      rintro ⟨q, hq, hid | ⟨hid, -⟩⟩
      · exact absurd (h.replicaBelow q hq) (by rw [hid]; exact Nat.not_lt.mpr (Nat.le_succ n))
      · obtain ⟨c, hc, hcid⟩ := h.replicaChunk q hq
        exact absurd (hcid.trans hid) (h.chunkBelow c hc).ne
    exact ⟨_, (if_neg hchunk).trans ((if_neg hkeys).trans (if_neg hreplica))⟩

/-- What sending the chunks at `positions` adds to a file. -/
structure Sent (fileId : Uuid) (dealt : List StorageChannel) (db db' : Db)
    (positions : List Nat) : Prop where
  files : db'.files = db.files
  channels : db'.channels = db.channels
  chunks : ∀ c ∈ db.chunks, c ∈ db'.chunks
  replicas : ∀ r ∈ db.replicas, r ∈ db'.replicas
  added : ∀ r ∈ db'.replicas, r ∈ db.replicas ∨ ∀ c ∈ db.chunks, c.id ≠ r.chunkId
  own : ∀ c ∈ db'.chunks, c ∈ db.chunks ∨ c.fileId = fileId
  sent : ∀ q ∈ positions, ∃ c ∈ db'.chunks, c.fileId = fileId ∧ c.position = toPosition q ∧
    ∃ r ∈ db'.replicas, r.chunkId = c.id ∧ r.Readable ∧ ∃ ch ∈ dealt, ch.id = r.channelId

/-- Nothing stands in the way of the chunks at `positions`. -/
structure Clear (fileId : Uuid) (db : Db) (positions : List Nat) : Prop where
  free : ∀ q ∈ positions, ∀ c ∈ db.chunks, c.fileId = fileId → c.position ≠ toPosition q
  apart : ∀ q ∈ positions, ∀ q' ∈ positions, toPosition q = toPosition q' → q = q'

/-- Nothing stands in the way of a relay: no chunk row is where a missing chunk goes, the positions are
    told apart, and one `INSERT` can name the replica rows. -/
structure Relayable (db : Db) (maxVariables : Nat) (storageId fileId : Uuid) (total : Nat) : Prop where
  clear : Clear fileId db (db.missing fileId total)
  linkable : 6 * (((db.listStoredChunkPositions fileId).length +
    (db.missing fileId total).length) * (db.dealtTo storageId).length) ≤ maxVariables

lemma filter_planned_cons {plan : List ChunkSlice} {q : Nat} {qs : List Nat}
    (hq : q ∈ plan.map (·.1)) (hrest : q ∉ qs) :
    (q :: qs).filter (· ∈ plan.map (·.1)) =
      q :: qs.filter (· ∈ (plan.filter fun slice => slice.1 ≠ q).map (·.1)) := by
  rw [List.filter_cons_of_pos (by simpa using hq)]
  refine congrArg (q :: ·) (List.filter_congr fun q' hq' => ?_)
  have hne : q' ≠ q := fun heq => hrest (heq ▸ hq')
  simp only [List.mem_map, List.mem_filter, decide_eq_true_eq, decide_eq_decide]
  constructor
  · rintro ⟨slice, hslice, rfl⟩
    exact ⟨slice, ⟨hslice, hne⟩, rfl⟩
  · rintro ⟨slice, ⟨hslice, -⟩, rfl⟩
    exact ⟨slice, hslice, rfl⟩

lemma filter_plan_cons (plan : List ChunkSlice) (q : Nat) (qs : List Nat) :
    (plan.filter fun slice => slice.1 ∉ q :: qs) =
      (plan.filter fun slice => slice.1 ≠ q).filter fun slice => slice.1 ∉ qs := by
  rw [List.filter_filter]
  refine List.filter_congr fun slice _ => ?_
  simp only [List.mem_cons, not_or, ne_eq, Bool.decide_and, decide_not, Bool.and_comm]

section Recorded

variable {db db₁ db' : Db} {n fileId : Uuid} {target : StorageChannel} {telegramFileId : String}
  {messageId : Int} {q : Nat} {qs : List Nat}

lemma Sent.cons {dealt : List StorageChannel} (h : Sent fileId dealt db₁ db' qs)
    (hok : db.createChunkWithReplica ⟨n, fileId, toPosition q⟩
      (.newUploaded (n + 1) n target.id telegramFileId messageId) = .ok db₁)
    (htarget : target ∈ dealt) : Sent fileId dealt db db' (q :: qs) := by
  obtain ⟨hfree, -, -, rfl⟩ := Db.createChunkWithReplica_ok hok
  refine ⟨h.files, h.channels, fun c hc => h.chunks c (List.mem_append_left _ hc),
    fun r hr => h.replicas r (List.mem_append_left _ hr), ?_, ?_, ?_⟩
  · intro r hr
    rcases h.added r hr with hr | hr
    · cases List.mem_append.mp hr with
      | inl hr => exact Or.inl hr
      | inr hr =>
        right
        rw [List.mem_singleton.mp hr]
        exact fun c hc => (hfree c hc).1
    · exact Or.inr fun c hc => hr c (List.mem_append_left _ hc)
  · intro c hc
    rcases h.own c hc with hc | hc
    · cases List.mem_append.mp hc with
      | inl hc => exact Or.inl hc
      | inr hc =>
        right
        rw [List.mem_singleton.mp hc]
    · exact Or.inr hc
  · intro q' hq'
    cases List.mem_cons.mp hq' with
    | inr hq' => exact h.sent q' hq'
    | inl hq' =>
      subst hq'
      exact ⟨_, h.chunks _ (List.mem_append_right _ (List.mem_singleton_self _)), rfl, rfl, _,
        h.replicas _ (List.mem_append_right _ (List.mem_singleton_self _)), rfl, ⟨rfl, rfl⟩, _,
        htarget, rfl⟩

/-- Nothing stands in the way of a chunk and others just when, with the chunk recorded, nothing stands in
    the way of the others. -/
lemma clear_cons_iff
    (hok : db.createChunkWithReplica ⟨n, fileId, toPosition q⟩
      (.newUploaded (n + 1) n target.id telegramFileId messageId) = .ok db₁) (hrest : q ∉ qs) :
    Clear fileId db (q :: qs) ↔ Clear fileId db₁ qs := by
  obtain ⟨hfree, -, -, rfl⟩ := Db.createChunkWithReplica_ok hok
  constructor
  · intro h
    refine ⟨fun q' hq' c hc hcf => ?_, fun q₁ hq₁ q₂ hq₂ =>
      h.apart q₁ (List.mem_cons_of_mem q hq₁) q₂ (List.mem_cons_of_mem q hq₂)⟩
    cases List.mem_append.mp hc with
    | inl hc => exact h.free q' (List.mem_cons_of_mem q hq') c hc hcf
    | inr hc =>
      rw [List.mem_singleton.mp hc]
      intro hpos
      have heq := h.apart q List.mem_cons_self q' (List.mem_cons_of_mem q hq') hpos
      exact hrest (heq ▸ hq')
  · intro h
    -- the chunk that was just recorded stands in the way of a later one at its position
    have hapart : ∀ q' ∈ qs, toPosition q ≠ toPosition q' := fun q' hq' =>
      h.free q' hq' _ (List.mem_append_right _ (List.mem_singleton_self _)) rfl
    constructor
    · intro q' hq' c hc hcf
      cases List.mem_cons.mp hq' with
      | inl hq' => exact fun hpos => (hfree c hc).2 ⟨hcf, hq' ▸ hpos⟩
      | inr hq' => exact h.free q' hq' c (List.mem_append_left _ hc) hcf
    · intro q₁ hq₁ q₂ hq₂ heq
      rcases List.mem_cons.mp hq₁ with h₁ | h₁ <;> rcases List.mem_cons.mp hq₂ with h₂ | h₂
      · rw [h₁, h₂]
      · exact absurd (h₁ ▸ heq) (hapart q₂ h₂)
      · exact absurd (h₂ ▸ heq).symm (hapart q₁ h₁)
      · exact h.apart q₁ h₁ q₂ h₂ heq

end Recorded

variable {σ : Process} {number : Nat} {r : UploadRequest} {file : FileRow}
  {channels : List StorageChannel} {plan : List ChunkSlice} {ids : List Uuid}

lemma send_unplanned (hst : Stands σ number r (.sending file channels plan ids)) {position : Nat}
    (hnot : position ∉ plan.map (·.1)) (telegramFileId : String) (messageId : Int) :
    σ.step (.act number (.send position telegramFileId messageId)) = σ := by
  have hnone : plan.find? (fun slice => slice.1 = position) = none := by
    rw [List.find?_eq_none]
    intro slice hslice
    simp only [decide_eq_true_eq]
    rintro rfl
    exact hnot (List.mem_map.mpr ⟨slice, hslice, rfl⟩)
  have hu : σ.upload? number = some ⟨number, r, .sending file channels plan ids, false⟩ := hst
  simp only [Process.step, hu, Process.act, Process.send, hnone]

/-- A planned chunk that Telegram accepts is recorded, or the relay fails because its position is
    taken. -/
lemma send_planned (h : σ.db.Intact σ.next)
    (hst : Stands σ number r (.sending file channels plan ids))
    (hrow : ∃ f ∈ σ.db.files, f.id = file.id) (hne : channels ≠ [])
    (hch : ∀ ch ∈ channels, ∃ c ∈ σ.db.channels, c.id = ch.id) {q : Nat}
    (hq : q ∈ plan.map (·.1)) {telegramFileId : String} {messageId : Int}
    (hnot : telegramFileId ∉ σ.documents.map (·.1)) :
    ∃ bytes, (∃ target ∈ channels, ∃ db',
      σ.db.createChunkWithReplica ⟨σ.next, file.id, toPosition q⟩
        (.newUploaded (σ.next + 1) σ.next target.id telegramFileId messageId) = .ok db' ∧
      σ.step (.act number (.send q telegramFileId messageId)) =
        σ.commit number ⟨.sending file channels (plan.filter fun slice => slice.1 ≠ q)
          (ids ++ [σ.next]), db', σ.documents ++ [(telegramFileId, bytes)], σ.next + 2⟩ ∧
      Stands (σ.step (.act number (.send q telegramFileId messageId))) number r
        (.sending file channels (plan.filter fun slice => slice.1 ≠ q) (ids ++ [σ.next]))) ∨
    (∃ e, Stands (σ.step (.act number (.send q telegramFileId messageId))) number r
        (.failing file e)) ∧
      ∃ c ∈ σ.db.chunks, c.fileId = file.id ∧ c.position = toPosition q := by
  obtain ⟨slice, hfind⟩ : ∃ slice, plan.find? (fun slice => slice.1 = q) = some slice := by
    obtain ⟨slice, hslice, rfl⟩ := List.mem_map.mp hq
    apply Option.isSome_iff_exists.mp
    rw [List.find?_isSome]
    exact ⟨slice, hslice, by simp⟩
  have hlen : q % channels.length < channels.length :=
    Nat.mod_lt _ (List.length_pos_iff.mpr hne)
  have htarget := List.getElem?_eq_getElem hlen
  have htm := List.getElem_mem hlen
  refine ⟨(r.body.drop slice.2.1).take slice.2.2, ?_⟩
  rcases createChunk_ok_or_taken h hrow (hch _ htm) (toPosition q) telegramFileId messageId
    with ⟨db', hok⟩ | ⟨⟨e, herr⟩, htaken⟩
  · left
    obtain ⟨hstep, hst₁⟩ := hst.act (a := .send q telegramFileId messageId)
      (o := ⟨.sending file channels (plan.filter fun slice => slice.1 ≠ q) (ids ++ [σ.next]), db',
        σ.documents ++ [(telegramFileId, (r.body.drop slice.2.1).take slice.2.2)], σ.next + 2⟩)
      (by simp only [Process.act, Process.send, hfind, htarget, if_neg hnot, hok])
    exact ⟨_, htm, db', hok, hstep, hstep ▸ hst₁⟩
  · right
    obtain ⟨hstep, hst₁⟩ := hst.act (a := .send q telegramFileId messageId)
      (o := ⟨.failing file e, σ.db,
        σ.documents ++ [(telegramFileId, (r.body.drop slice.2.1).take slice.2.2)], σ.next + 2⟩)
      (by simp only [Process.act, Process.send, hfind, htarget, if_neg hnot, herr])
    exact ⟨⟨e, hstep ▸ hst₁⟩, htaken⟩

/-- The chunks of a relay that Telegram accepts: they are all recorded, or the relay fails where one
    stands in the way. -/
lemma sends_spec (sends : List (Nat × String × Int)) {plan : List ChunkSlice} {ids : List Uuid}
    (h : σ.db.Intact σ.next) (hst : Stands σ number r (.sending file channels plan ids))
    (hrow : ∃ f ∈ σ.db.files, f.id = file.id) (hne : channels ≠ [])
    (hch : ∀ ch ∈ channels, ∃ c ∈ σ.db.channels, c.id = ch.id)
    (hids : ∀ id ∈ ids, ∃ c ∈ σ.db.chunks, c.id = id)
    (honce : (sends.map (·.1)).Nodup) (hnames : (sends.map (·.2.1)).Nodup)
    (hfresh : ∀ send ∈ sends, send.2.1 ∉ σ.documents.map (·.1)) :
    let qs := (sends.map (·.1)).filter (· ∈ plan.map (·.1))
    let τ := run Process.step σ ((sends.map fun send =>
      Act.send send.1 send.2.1 send.2.2).map (.act number))
    (∃ ids', Stands τ number r
        (.sending file channels (plan.filter fun slice => slice.1 ∉ sends.map (·.1)) ids') ∧
      ids'.length = ids.length + qs.length ∧ (∀ id ∈ ids', ∃ c ∈ τ.db.chunks, c.id = id) ∧
      τ.db.Intact τ.next ∧ τ.maxVariables = σ.maxVariables ∧ Sent file.id channels σ.db τ.db qs ∧
      Clear file.id σ.db qs) ∨
    ((∃ e, Stands τ number r (.failing file e)) ∧ ¬ Clear file.id σ.db qs) := by
  induction sends generalizing σ plan ids with
  | nil =>
    refine Or.inl ⟨ids, ?_, rfl, hids, h, rfl, ⟨rfl, rfl, fun _ hc => hc, fun _ hr => hr,
      fun _ hr => Or.inl hr, fun _ hc => Or.inl hc, fun q hq => absurd hq List.not_mem_nil⟩,
      fun q hq => absurd hq List.not_mem_nil, fun q hq => absurd hq List.not_mem_nil⟩
    have hall : plan.filter (fun slice => slice.1 ∉ ([] : List (Nat × String × Int)).map (·.1)) =
        plan := by simp
    rw [hall]
    exact hst
  | cons send sends ih =>
    obtain ⟨q, telegramFileId, messageId⟩ := send
    simp only [List.map_cons, List.nodup_cons] at honce hnames
    simp only [List.map_cons, run_cons, filter_plan_cons]
    by_cases hq : q ∈ plan.map (·.1)
    · rw [filter_planned_cons hq honce.1]
      have hrest : q ∉ (sends.map (·.1)).filter
          (· ∈ (plan.filter fun slice => slice.1 ≠ q).map (·.1)) :=
        fun hmem => honce.1 (List.mem_of_mem_filter hmem)
      have h₁ := (Process.db_step h (.act number (.send q telegramFileId messageId))).1
      obtain ⟨bytes, ⟨target, htm, db', hok, hstep, hst₁⟩ | ⟨⟨e, hst₁⟩, c, hc, hcf, hcp⟩⟩ :=
        send_planned h hst hrow hne hch hq (hfresh _ List.mem_cons_self)
      · -- the chunk is recorded, and the rest is sent from there
        have hfresh₁ : ∀ send ∈ sends, send.2.1 ∉
            (σ.documents ++ [(telegramFileId, bytes)]).map (·.1) := by
          intro send hsend hmem
          rw [List.map_append, List.mem_append, List.map_singleton, List.mem_singleton] at hmem
          rcases hmem with hmem | heq
          · exact hfresh send (List.mem_cons_of_mem _ hsend) hmem
          · exact hnames.1 (List.mem_map.mpr ⟨send, hsend, heq⟩)
        have hids₁ : ∀ id ∈ ids ++ [σ.next], ∃ c ∈ db'.chunks, c.id = id := by
          obtain ⟨-, -, -, rfl⟩ := Db.createChunkWithReplica_ok hok
          intro id hid
          cases List.mem_append.mp hid with
          | inl hid =>
            obtain ⟨c, hc, hcid⟩ := hids id hid
            exact ⟨c, List.mem_append_left _ hc, hcid⟩
          | inr hid =>
            exact ⟨_, List.mem_append_right _ (List.mem_singleton_self _),
              (List.mem_singleton.mp hid).symm⟩
        have hfiles : db'.files = σ.db.files ∧ db'.channels = σ.db.channels := by
          obtain ⟨-, -, -, rfl⟩ := Db.createChunkWithReplica_ok hok
          exact ⟨rfl, rfl⟩
        rw [hstep] at h₁ hst₁ ⊢
        rcases ih h₁ hst₁ (hfiles.1.symm ▸ hrow) (hfiles.2.symm ▸ hch) hids₁ honce.2 hnames.2 hfresh₁
          with ⟨ids', hst', hlen', hids', h', hmax, hsent, hclear⟩ | ⟨hfail, hclear⟩
        · refine Or.inl ⟨ids', hst', ?_, hids', h', hmax, hsent.cons hok htm,
            (clear_cons_iff hok hrest).mpr hclear⟩
          simp only [hlen', List.length_append, List.length_cons, List.length_nil]
          omega
        · exact Or.inr ⟨hfail, fun hall => hclear ((clear_cons_iff hok hrest).mp hall)⟩
      · -- the position is taken, and the relay fails
        right
        rw [hst₁.idle]
        · exact ⟨⟨e, hst₁⟩, fun hall => hall.free q List.mem_cons_self c hc hcf hcp⟩
        · intro a ha
          obtain ⟨send, -, rfl⟩ := List.mem_map.mp ha
          rfl
    · -- nothing is sent, and nothing is taken off the plan
      have hplan : (plan.filter fun slice => slice.1 ≠ q) = plan := by
        rw [List.filter_eq_self]
        intro slice hslice
        exact decide_eq_true fun heq => hq (List.mem_map.mpr ⟨slice, hslice, heq⟩)
      rw [send_unplanned hst hq, List.filter_cons_of_neg (by simpa using hq), hplan]
      exact ih h hst hrow hch hids honce.2 hnames.2
        fun send hsend => hfresh send (List.mem_cons_of_mem _ hsend)

/-! ## Channels and replica rows -/

lemma resolvePrimaryChannel_ok {db : Db} {storage : Storage}
    (h : db.activeChannels storage.id ≠ []) :
    ∃ primary db', db.resolvePrimaryChannel storage =
        .ok (primary, db.activeChannels storage.id, db') ∧
      primary ∈ db.activeChannels storage.id ∧ (db' = db ∨
        ∃ position, db' = db.setPrimaryPosition storage.id position) := by
  obtain ⟨primary, hprimary⟩ : ∃ primary, ((db.activeChannels storage.id).find? fun c =>
      c.position = storage.primaryPosition).or (db.activeChannels storage.id).head? =
        some primary := by
    obtain ⟨first, rest, heq⟩ := List.exists_cons_of_ne_nil h
    apply Option.isSome_iff_exists.mp
    rw [Option.isSome_or, heq, List.head?_cons, Option.isSome_some, Bool.or_true]
  have hmem : primary ∈ db.activeChannels storage.id := by
    rcases Option.or_eq_some_iff.mp hprimary with hfind | ⟨-, hhead⟩
    · exact List.mem_of_find?_eq_some hfind
    · exact List.mem_of_head? hhead
  refine ⟨primary, if primary.position ≠ storage.primaryPosition then
      db.setPrimaryPosition storage.id primary.position else db, ?_, hmem, ?_⟩
  · unfold Db.resolvePrimaryChannel
    simp only [hprimary]
  · split
    · exact Or.inr ⟨_, rfl⟩
    · exact Or.inl rfl

lemma mem_dealtTo {db : Db} {storageId : Uuid} {ch : StorageChannel} (h : ch ∈ db.dealtTo storageId) :
    ch ∈ db.activeChannels storageId := by
  unfold Db.dealtTo at h
  split at h
  · exact absurd h List.not_mem_nil
  · case h_2 storage hstorage =>
    have hid : storage.id = storageId := by simpa using List.find?_some hstorage
    by_cases hactive : db.activeChannels storage.id = []
    · have herror : db.resolvePrimaryChannel storage = .error .noActiveChannel := by
        unfold Db.resolvePrimaryChannel
        simp [hactive]
      rw [herror] at h
      exact absurd h List.not_mem_nil
    · obtain ⟨primary, db', hok, hprimary, -⟩ := resolvePrimaryChannel_ok hactive
      rw [hok] at h
      exact hid ▸ Process.mem_uploadChannels hprimary h

lemma insertReplicas_ok {db : Db} {n : Uuid} {pairs : List (Uuid × Uuid)}
    (hpairs : ∀ pair ∈ pairs, (∃ c ∈ db.chunks, c.id = pair.1) ∧
      ∃ ch ∈ db.channels, ch.id = pair.2) :
    ∃ db', db.insertReplicas (newPendings n pairs) = .ok db' := by
  induction pairs generalizing n db with
  | nil => exact ⟨db, rfl⟩
  | cons pair pairs ih =>
    obtain ⟨chunkId, channelId⟩ := pair
    obtain ⟨⟨c, hc, hcid⟩, ch, hch, hchid⟩ := hpairs _ List.mem_cons_self
    have hone : ∃ db₁, db.insertReplica (.newPending n chunkId channelId) = .ok db₁ ∧
        db₁.chunks = db.chunks ∧ db₁.channels = db.channels := by
      unfold Db.insertReplica
      split
      · exact ⟨db, rfl, rfl, rfl⟩
      · rw [if_neg]
        · exact ⟨_, rfl, rfl, rfl⟩
        · rintro (hno | hno)
          · exact hno c hc hcid
          · have hnone := List.find?_eq_none.mp (Option.isNone_iff_eq_none.mp hno) ch hch
            exact hnone (decide_eq_true_iff.mpr hchid)
    obtain ⟨db₁, hok, hchunks, hchannels⟩ := hone
    obtain ⟨db', hok'⟩ : ∃ db', db₁.insertReplicas (newPendings (n + 1) pairs) = .ok db' := by
      apply ih
      rw [hchunks, hchannels]
      exact fun pair hpair => hpairs pair (List.mem_cons_of_mem _ hpair)
    refine ⟨db', ?_⟩
    unfold Db.insertReplicas newPendings
    simp only [hok, hok']

lemma insertBatch_ok_iff {db : Db} (n : Uuid) (maxVariables : Nat) {pairs : List (Uuid × Uuid)}
    (hpairs : ∀ pair ∈ pairs, (∃ c ∈ db.chunks, c.id = pair.1) ∧
      ∃ ch ∈ db.channels, ch.id = pair.2) :
    (∃ db', db.insertBatch maxVariables (newPendings n pairs) = .ok db') ↔
      6 * pairs.length ≤ maxVariables := by
  unfold Db.insertBatch
  rw [Db.length_newPendings]
  constructor
  · rintro ⟨db', hok⟩
    split at hok
    · case isTrue hnil =>
      have hlen := congrArg List.length hnil
      rw [Db.length_newPendings, List.length_nil] at hlen
      omega
    · split at hok
      · cases hok
      · case isFalse hle => exact Nat.not_lt.mp hle
  · intro hle
    split
    · exact ⟨db, rfl⟩
    · rw [if_neg (Nat.not_lt.mpr hle)]
      exact insertReplicas_ok hpairs

/-! ## A relay that nothing disturbs -/

/-- What the last turns of a relay leave: the row is uploaded, and copies of its chunks are pending. -/
structure Linked (fileId : Uuid) (db db' : Db) : Prop where
  files : ∀ f, f ∈ db'.files ↔
    ∃ q ∈ db.files, f = if q.id = fileId then { q with isUploaded := true } else q
  chunks : db'.chunks = db.chunks
  channels : db'.channels = db.channels
  kept : ∀ q ∈ db.replicas, q ∈ db'.replicas
  pending : ∀ q ∈ db'.replicas, q ∈ db.replicas ∨ q.status = .pending

lemma Linked.servedChunk {db db' : Db} {fileId : Uuid} (h : Linked fileId db db') (c : FileChunk) :
    db'.ServedChunk c ↔ db.ServedChunk c := by
  unfold Db.ServedChunk
  rw [h.channels]
  constructor
  · rintro ⟨q, hq, hqc, hread, hactive⟩
    cases h.pending q hq with
    | inl hq => exact ⟨q, hq, hqc, hread, hactive⟩
    | inr hpending => exact absurd (hread.1.symm.trans hpending) (by decide)
  · rintro ⟨q, hq, hserves⟩
    exact ⟨q, h.kept q hq, hserves⟩

lemma Linked.served {db db' : Db} {fileId : Uuid} (h : Linked fileId db db') (position : Nat) :
    db'.Served fileId position ↔ db.Served fileId position := by
  simp only [Db.Served, h.chunks, h.servedChunk]

lemma mark_spec (h : σ.db.Intact σ.next) {again : Bool} (hst : Stands σ number r (.marking file again)) :
    let τ := σ.step (.act number .mark)
    Stands τ number r (if again then .answered (.ok ()) else .marking file true) ∧
      Linked file.id σ.db τ.db := by
  obtain ⟨db', hok, -, hfiles, hchunks, hreplicas, hchannels, -⟩ :=
    Db.updateById_ok h.wf file.id Db.inPlace_uploaded
  obtain ⟨hstep, hst₁⟩ := hst.act (a := .mark)
    (o := ⟨if again then .answered (.ok ()) else .marking file true, db', σ.documents, σ.next⟩)
    (by simp only [Process.act, Process.mark, Db.setAsUploaded, hok, Process.turn,
      Bool.false_eq_true, and_false, if_false])
  rw [hstep]
  exact ⟨hst₁, hfiles, hchunks, hchannels, fun q hq => hreplicas ▸ hq,
    fun q hq => Or.inl (hreplicas ▸ hq)⟩

/-- A relay whose plan is through ends `Ok` just when one statement can ask for the copies. -/
lemma linked_spec {ids : List Uuid} (h : σ.db.Intact σ.next)
    (hst : Stands σ number r (.sending file channels [] ids))
    (hids : ∀ id ∈ ids, ∃ c ∈ σ.db.chunks, c.id = id)
    (hch : ∀ ch ∈ channels, ∃ c ∈ σ.db.channels, c.id = ch.id) :
    let τ := run Process.step σ ([.link, .mark, .mark].map (.act number))
    (6 * (ids.length * channels.length) ≤ σ.maxVariables →
      τ.db.Intact τ.next ∧ Stands τ number r (.answered (.ok ())) ∧ Linked file.id σ.db τ.db) ∧
    (¬ 6 * (ids.length * channels.length) ≤ σ.maxVariables →
      ∃ e, Stands τ number r (.failing file e)) := by
  let pairs := ids.flatMap fun chunkId => channels.map fun channel => (chunkId, channel.id)
  have hpairs : ∀ pair ∈ pairs, (∃ c ∈ σ.db.chunks, c.id = pair.1) ∧
      ∃ ch ∈ σ.db.channels, ch.id = pair.2 := by
    intro pair hpair
    obtain ⟨id, hid, hpair⟩ := List.mem_flatMap.mp hpair
    obtain ⟨ch, hmem, rfl⟩ := List.mem_map.mp hpair
    exact ⟨hids id hid, hch ch hmem⟩
  have hlen : pairs.length = ids.length * channels.length := by
    simp only [pairs, List.length_flatMap, List.length_map, List.map_const', List.sum_replicate_nat]
  have hiff := insertBatch_ok_iff σ.next σ.maxVariables hpairs
  rw [hlen] at hiff
  constructor
  · intro hle
    obtain ⟨db₁, hok⟩ := hiff.mpr hle
    obtain ⟨-, hreq⟩ := h.insertBatch hok
    obtain ⟨hstep₁, hst₁⟩ := hst.act (a := .link)
      (o := ⟨.marking file false, db₁, σ.documents, σ.next + (newPendings σ.next pairs).length⟩)
      (by simp only [Process.act, Process.link, hok, pairs])
    rw [← hstep₁] at hst₁
    have h₁ := (Process.db_step h (.act number .link)).1
    have hdb₁ : (σ.step (.act number .link)).db = db₁ := by rw [hstep₁]; rfl
    obtain ⟨hst₂, hl₂⟩ := mark_spec h₁ hst₁
    have h₂ := (Process.db_step h₁ (.act number .mark)).1
    obtain ⟨hst₃, hl₃⟩ := mark_spec h₂ hst₂
    refine ⟨(Process.db_step h₂ (.act number .mark)).1, hst₃, ?_, ?_, ?_, ?_, ?_⟩
    · intro f
      simp only [List.map_cons, List.map_nil, run_cons, run_nil, hl₃.files, hl₂.files, hdb₁,
        hreq.files]
      constructor
      · rintro ⟨q, ⟨q', hq', rfl⟩, rfl⟩
        refine ⟨q', hq', ?_⟩
        by_cases hid : q'.id = file.id <;> simp [hid]
      · rintro ⟨q, hq, rfl⟩
        refine ⟨_, ⟨q, hq, rfl⟩, ?_⟩
        by_cases hid : q.id = file.id <;> simp [hid]
    · exact hl₃.chunks.trans (hl₂.chunks.trans ((congrArg Db.chunks hdb₁).trans hreq.chunks))
    · exact hl₃.channels.trans (hl₂.channels.trans ((congrArg Db.channels hdb₁).trans hreq.channels))
    · intro q hq
      exact hl₃.kept q (hl₂.kept q (hdb₁ ▸ hreq.kept q hq))
    · intro q hq
      rcases hl₃.pending q hq with hq | hpending
      · rcases hl₂.pending q hq with hq | hpending
        · exact hreq.pending q (hdb₁ ▸ hq)
        · exact Or.inr hpending
      · exact Or.inr hpending
  · intro hlt
    cases hins : σ.db.insertBatch σ.maxVariables (newPendings σ.next pairs) with
    | ok db₁ => exact absurd (hiff.mp ⟨db₁, hins⟩) hlt
    | error e =>
      obtain ⟨hstep₁, hst₁⟩ := hst.act (a := .link)
        (o := ⟨.failing file e, σ.db, σ.documents, σ.next + (newPendings σ.next pairs).length⟩)
        (by simp only [Process.act, Process.link, hins, pairs])
      refine ⟨e, ?_⟩
      rw [List.map_cons, run_cons, hstep₁, hst₁.idle]
      · exact hst₁
      · intro a ha
        simp only [List.mem_cons, List.not_mem_nil, or_false, or_self] at ha
        rw [ha]
        rfl

structure Rotated (db db' : Db) : Prop where
  files : db'.files = db.files
  chunks : db'.chunks = db.chunks
  replicas : db'.replicas = db.replicas
  channels : db'.channels = db.channels

/-- A queued relay plans what is missing. -/
lemma queued_spec (h : σ.db.Intact σ.next) (hst : Stands σ number r (.queued file)) {row : FileRow}
    (hrow : row ∈ σ.db.files) (hid : row.id = file.id) (hplace : row.storageId = file.storageId)
    (hactive : σ.db.activeChannels file.storageId ≠ []) :
    let τ := σ.step (.act number .plan)
    τ.db.Intact τ.next ∧ Rotated σ.db τ.db ∧ τ.documents = σ.documents ∧ τ.maxVariables = σ.maxVariables ∧
      Stands τ number r (.sending file (σ.db.dealtTo file.storageId)
        (remainingChunkPlan r.body.length (Process.chunkSizeOf file)
          ((σ.db.listStoredChunkPositions file.id).map fun s => s.1.toNat)).1
        ((σ.db.listStoredChunkPositions file.id).map fun s => s.2)) ∧
      σ.db.dealtTo file.storageId ≠ [] ∧
      ∀ ch ∈ σ.db.dealtTo file.storageId, ch ∈ σ.db.activeChannels file.storageId := by
  obtain ⟨storage, hstorage⟩ : ∃ storage, σ.db.storages.find? (fun s => s.id = file.storageId) =
      some storage := by
    apply Option.isSome_iff_exists.mp
    rw [List.find?_isSome]
    obtain ⟨storage, hm, hsid⟩ := h.wf.storageExists row hrow
    exact ⟨storage, hm, decide_eq_true_iff.mpr (hsid.trans hplace)⟩
  have hsid : storage.id = file.storageId := by simpa using List.find?_some hstorage
  obtain ⟨primary, db', hok, hprimary, hdb'⟩ := resolvePrimaryChannel_ok (hsid ▸ hactive)
  have hrot : Rotated σ.db db' := by
    rcases hdb' with rfl | ⟨position, rfl⟩
    · exact ⟨rfl, rfl, rfl, rfl⟩
    · exact ⟨rfl, rfl, rfl, rfl⟩
  have hdealt : σ.db.dealtTo file.storageId =
      Process.uploadChannels primary (σ.db.activeChannels storage.id) := by
    simp only [Db.dealtTo, hstorage, hok]
  have hlist : db'.listStoredChunkPositions file.id = σ.db.listStoredChunkPositions file.id := by
    rcases hdb' with rfl | ⟨position, rfl⟩ <;> rfl
  have hby : σ.db.fileById file.id = some row := hid ▸ Db.fileById_of_mem h.wf hrow
  obtain ⟨hstep, hst'⟩ := hst.act (a := .plan)
    (o := ⟨.sending file (σ.db.dealtTo file.storageId)
      (remainingChunkPlan r.body.length (Process.chunkSizeOf file)
        ((σ.db.listStoredChunkPositions file.id).map fun s => s.1.toNat)).1
      ((σ.db.listStoredChunkPositions file.id).map fun s => s.2), db', σ.documents, σ.next⟩) (by
    simp only [Process.act, Process.plan, Process.turn,
      hby, Option.bind_some, hplace, hstorage, hok, hlist, hdealt])
  have hint := (Process.db_step h (.act number .plan)).1
  dsimp only
  rw [hstep] at hint ⊢
  refine ⟨hint, hrot, rfl, rfl, hst', ?_, ?_⟩
  · rw [hdealt]
    exact List.cons_ne_nil _ _
  · intro ch hch
    rw [hdealt] at hch
    exact hsid ▸ Process.mem_uploadChannels hprimary hch

lemma plan_spec (h : σ.db.Intact σ.next) (hst : Stands σ number r (.starting file)) {row : FileRow}
    (hrow : row ∈ σ.db.files) (hid : row.id = file.id) (hplace : row.storageId = file.storageId)
    (hchunk : ∃ n ∈ file.chunkSizeBytes, 0 < n)
    (hactive : σ.db.activeChannels file.storageId ≠ []) :
    let τ := run Process.step σ ([.begin, .plan].map (.act number))
    τ.db.Intact τ.next ∧ Rotated σ.db τ.db ∧ τ.documents = σ.documents ∧ τ.maxVariables = σ.maxVariables ∧
      Stands τ number r (.sending file (σ.db.dealtTo file.storageId)
        (remainingChunkPlan r.body.length (Process.chunkSizeOf file)
          ((σ.db.listStoredChunkPositions file.id).map fun s => s.1.toNat)).1
        ((σ.db.listStoredChunkPositions file.id).map fun s => s.2)) ∧
      σ.db.dealtTo file.storageId ≠ [] ∧
      ∀ ch ∈ σ.db.dealtTo file.storageId, ch ∈ σ.db.activeChannels file.storageId := by
  obtain ⟨hstep, hst'⟩ := hst.act (a := .begin) (o := σ.turn (.queued file))
    (by simp only [Process.act, Process.begin, if_pos hchunk])
  have hint := (Process.db_step h (.act number .begin)).1
  simp only [List.map_cons, List.map_nil, run_cons, run_nil, hstep]
  rw [hstep] at hint
  exact queued_spec hint hst' hrow hid hplace hactive

lemma Finishable.clear {storageId fileId : Uuid} {total : Nat}
    (hfin : Finishable σ.db σ.maxVariables storageId fileId total) {qs : List Nat}
    (hqs : ∀ q ∈ qs, q ∈ σ.db.missing fileId total) : Clear fileId σ.db qs := by
  have hlt : ∀ q ∈ qs, toPosition q = q := by
    intro q hq
    have := List.mem_range.mp (List.mem_of_mem_filter (hqs q hq))
    have := hfin.counted
    unfold toPosition
    omega
  constructor
  · intro q hq c hc hfile hpos
    rw [hlt q hq] at hpos
    obtain ⟨hrange, hfree⟩ := List.mem_filter.mp (hqs q hq)
    have hbelow : c.position < total := by
      rw [hpos]
      exact Int.ofNat_lt.mpr (List.mem_range.mp hrange)
    obtain ⟨p, hp, hpc, hread, -⟩ := hfin.served c hc hfile hbelow
    refine of_decide_eq_true hfree (List.mem_map.mpr ⟨(c.position, c.id), ?_, ?_⟩)
    · refine List.mem_map.mpr ⟨c, List.mem_filter.mpr ⟨?_, ?_⟩, rfl⟩
      · exact (List.mem_insertionSort _).mpr (List.mem_filter.mpr ⟨hc, decide_eq_true hfile⟩)
      · exact decide_eq_true ⟨p, hp, hpc, hread⟩
    · show c.position.toNat = q
      rw [hpos]
      rfl
  · intro q hq q' hq' heq
    rw [hlt q hq, hlt q' hq'] at heq
    exact Int.ofNat.inj heq

lemma Sent.servedChunk {fileId : Uuid} {dealt : List StorageChannel} {db db' : Db} {qs : List Nat}
    (h : Sent fileId dealt db db' qs) {c : FileChunk} (hc : db.ServedChunk c) :
    db'.ServedChunk c := by
  obtain ⟨q, hq, hqc, hread, hactive⟩ := hc
  exact ⟨q, h.replicas q hq, hqc, hread, h.channels ▸ hactive⟩

lemma Finishable.served_sent (hσ : σ.db.Intact σ.next) {storageId fileId : Uuid} {total : Nat}
    (hfin : Finishable σ.db σ.maxVariables storageId fileId total) {dealt : List StorageChannel} {db' : Db}
    {qs : List Nat} (h : Sent fileId dealt σ.db db' qs)
    (hqs : ∀ q ∈ σ.db.missing fileId total, q ∈ qs)
    (hdealt : ∀ ch ∈ dealt, ch ∈ σ.db.channels ∧ ch.isActive = true) :
    ∀ position < total, db'.Served fileId position := by
  intro position hlt
  by_cases hmissing : position ∈ σ.db.missing fileId total
  · obtain ⟨c, hc, hfile, hpos, q, hq, hqc, hread, ch, hch, hid⟩ := h.sent position (hqs _ hmissing)
    refine ⟨c, hc, hfile, ?_, q, hq, hqc, hread, ch, ?_, hid, (hdealt ch hch).2⟩
    · have := hfin.counted
      rw [hpos]
      unfold toPosition
      omega
    · rw [h.channels]
      exact (hdealt ch hch).1
  · have hstored : position ∈ (σ.db.listStoredChunkPositions fileId).map fun s => s.1.toNat := by
      by_contra hno
      exact hmissing (List.mem_filter.mpr ⟨List.mem_range.mpr hlt, decide_eq_true hno⟩)
    obtain ⟨s, hs, hsp⟩ := List.mem_map.mp hstored
    obtain ⟨c, hc, rfl⟩ := List.mem_map.mp hs
    have hcf := (List.mem_insertionSort _).mp (List.mem_of_mem_filter hc)
    obtain ⟨hmem, hfile⟩ := List.mem_filter.mp hcf
    have hnat : c.position.toNat = position := hsp
    have hpos : c.position = position := by
      have := (hσ.chunkRange c hmem).1
      omega
    have hserved := hfin.served c hmem (of_decide_eq_true hfile) (by omega)
    exact ⟨c, h.chunks c hmem, of_decide_eq_true hfile, hpos, h.servedChunk hserved⟩

lemma Sent.finishable {fileId : Uuid} {dealt : List StorageChannel} {db' : Db} {n : Uuid}
    {total : Nat} {qs : List Nat} (h : Sent fileId dealt σ.db db' qs) (hint : db'.Intact n)
    (hserved : ∀ position < total, db'.Served fileId position) :
    total ≤ 32768 ∧
      ∀ c ∈ σ.db.chunks, c.fileId = fileId → c.position < total → σ.db.ServedChunk c := by
  constructor
  · by_contra hlt
    obtain ⟨c, hc, -, hpos, -⟩ := hserved 32768 (by omega)
    have := (hint.chunkRange c hc).2
    omega
  · intro c hc hfile hlt
    have hrange := hint.chunkRange c (h.chunks c hc)
    obtain ⟨c', hc', hfile', hpos', q, hq, hqc, hread, hactive⟩ :=
      hserved c.position.toNat (by omega)
    have heq : c' = c := hint.chunkPosition c' hc' c (h.chunks c hc) (hfile'.trans hfile.symm)
      (by rw [hpos']; omega)
    subst heq
    refine ⟨q, ?_, hqc, hread, h.channels ▸ hactive⟩
    cases h.added q hq with
    | inl hq => exact hq
    | inr hnew => exact absurd hqc.symm (hnew c' hc)

/-- A relay that nothing disturbs, of a row that is there: it records what is missing, asks for the copies
    and is answered `Ok`, or something stands in its way and it fails. -/
lemma relay_cases (h : σ.db.Intact σ.next) (hst : Stands σ number r (.starting file)) {row : FileRow}
    (hrow : row ∈ σ.db.files) (hid : row.id = file.id) (hplace : row.storageId = file.storageId)
    (hsize : file.size = r.body.length) (hchunk : ∃ n ∈ file.chunkSizeBytes, 0 < n)
    (hactive : σ.db.activeChannels file.storageId ≠ []) (sends : List (Nat × String × Int))
    (honce : (sends.map (·.1)).Nodup) (hall : ∀ q < file.chunkTotal, q ∈ sends.map (·.1))
    (hnames : (sends.map (·.2.1)).Nodup)
    (hfresh : ∀ send ∈ sends, send.2.1 ∉ σ.documents.map (·.1)) :
    let τ := run Process.step σ ((relayActs sends).map (.act number))
    let missing := σ.db.missing file.id file.chunkTotal
    (Relayable σ.db σ.maxVariables file.storageId file.id file.chunkTotal ∧
      Stands τ number r (.answered (.ok ())) ∧ τ.db.Intact τ.next ∧ ∃ db' n, db'.Intact n ∧
        Sent file.id (σ.db.dealtTo file.storageId) σ.db db' missing ∧ Linked file.id db' τ.db) ∨
    (¬ Relayable σ.db σ.maxVariables file.storageId file.id file.chunkTotal ∧
      ∃ e, Stands τ number r (.failing file e)) := by
  obtain ⟨h₂, hrot, hdocs, hmax, hst₂, hne, hdealt⟩ := plan_spec h hst hrow hid hplace hchunk hactive
  unfold relayActs
  rw [List.map_append, run_append, List.map_append, run_append]
  generalize run Process.step σ ([.begin, .plan].map (.act number)) = σ₂ at *
  have hmem : ∀ ch ∈ σ.db.dealtTo file.storageId, ch ∈ σ.db.channels ∧ ch.isActive = true := by
    intro ch hch
    obtain ⟨hmem, -, hon⟩ := Db.mem_activeChannels_iff.mp (hdealt ch hch)
    exact ⟨hmem, hon⟩
  have hpos : 0 < Process.chunkSizeOf file := by
    obtain ⟨n, hn, hn0⟩ := hchunk
    simp only [Process.chunkSizeOf, Option.mem_def.mp hn, Option.getD_some]
    omega
  -- the plan is what is missing
  have hplan : (remainingChunkPlan r.body.length (Process.chunkSizeOf file)
      ((σ.db.listStoredChunkPositions file.id).map fun s => s.1.toNat)).1.map (·.1) =
        σ.db.missing file.id file.chunkTotal := by
    rw [plan_positions hpos, Db.missing, FileRow.chunkTotal, hsize, Int.toNat_natCast]
  generalize (remainingChunkPlan r.body.length (Process.chunkSizeOf file)
      ((σ.db.listStoredChunkPositions file.id).map fun s => s.1.toNat)).1 = plan at *
  have hmissing : ∀ q, q ∈ σ.db.missing file.id file.chunkTotal → q ∈ sends.map (·.1) :=
    fun q hq => hall q (List.mem_range.mp (List.mem_of_mem_filter hq))
  have hqs : ∀ q, q ∈ (sends.map (·.1)).filter (· ∈ plan.map (·.1)) ↔
      q ∈ σ.db.missing file.id file.chunkTotal := by
    intro q
    rw [List.mem_filter, hplan, decide_eq_true_iff]
    exact ⟨fun hq => hq.2, fun hq => ⟨hmissing q hq, hq⟩⟩
  have hlen : ((sends.map (·.1)).filter (· ∈ plan.map (·.1))).length =
      (σ.db.missing file.id file.chunkTotal).length := by
    refine List.Perm.length_eq ((List.perm_ext_iff_of_nodup (honce.filter _) ?_).mpr hqs)
    exact (List.nodup_range).filter _
  have hclear : Clear file.id σ₂.db ((sends.map (·.1)).filter (· ∈ plan.map (·.1))) ↔
      Clear file.id σ.db (σ.db.missing file.id file.chunkTotal) := by
    constructor
    · exact fun hc => ⟨fun q hq => hrot.chunks ▸ hc.free q ((hqs q).mpr hq),
        fun q hq q' hq' => hc.apart q ((hqs q).mpr hq) q' ((hqs q').mpr hq')⟩
    · exact fun hc => ⟨fun q hq => hrot.chunks ▸ hc.free q ((hqs q).mp hq),
        fun q hq q' hq' => hc.apart q ((hqs q).mp hq) q' ((hqs q').mp hq')⟩
  have hids : ∀ id ∈ (σ.db.listStoredChunkPositions file.id).map (fun s => s.2),
      ∃ c ∈ σ₂.db.chunks, c.id = id := by
    intro id hid
    obtain ⟨s, hs, rfl⟩ := List.mem_map.mp hid
    obtain ⟨c, hc, rfl⟩ := List.mem_map.mp hs
    have hcf := (List.mem_insertionSort _).mp (List.mem_of_mem_filter hc)
    exact ⟨c, hrot.chunks ▸ List.mem_of_mem_filter hcf, rfl⟩
  rcases sends_spec sends h₂ hst₂ ⟨row, hrot.files ▸ hrow, hid⟩ hne
      (fun ch hch => ⟨ch, hrot.channels ▸ (hmem ch hch).1, rfl⟩) hids honce hnames
      (fun send hsend => hdocs ▸ hfresh send hsend) with
    ⟨ids, hst₃, hlen₃, hids₃, h₃, hmax₃, hsent, hfree⟩ | ⟨⟨e, hst₃⟩, hblocked⟩
  · have hnil : plan.filter (fun slice => slice.1 ∉ sends.map (·.1)) = [] := by
      rw [List.filter_eq_nil_iff]
      intro slice hslice
      have hmem' := hmissing slice.1 (hplan ▸ List.mem_map.mpr ⟨slice, hslice, rfl⟩)
      simpa using hmem'
    rw [hnil] at hst₃
    have hsent' : Sent file.id (σ.db.dealtTo file.storageId) σ.db _
        (σ.db.missing file.id file.chunkTotal) :=
      ⟨hsent.files.trans hrot.files, hsent.channels.trans hrot.channels, hrot.chunks ▸ hsent.chunks,
        hrot.replicas ▸ hsent.replicas, hrot.replicas ▸ hrot.chunks ▸ hsent.added,
        hrot.chunks ▸ hsent.own, fun q hq => hsent.sent q ((hqs q).mpr hq)⟩
    generalize run Process.step σ₂ _ = τ at *
    obtain ⟨hok, herr⟩ := linked_spec h₃ hst₃ hids₃
      (fun ch hch => ⟨ch, hsent'.channels ▸ (hmem ch hch).1, rfl⟩)
    rw [hlen₃, hlen, List.length_map, hmax₃, hmax] at hok herr
    by_cases hle : 6 * (((σ.db.listStoredChunkPositions file.id).length +
        (σ.db.missing file.id file.chunkTotal).length) *
          (σ.db.dealtTo file.storageId).length) ≤ σ.maxVariables
    · obtain ⟨h₄, hst₄, hlinked⟩ := hok hle
      exact Or.inl ⟨⟨hclear.mp hfree, hle⟩, hst₄, h₄, _, _, h₃, hsent', hlinked⟩
    · exact Or.inr ⟨fun hrelay => hle hrelay.linkable, herr hle⟩
  · right
    refine ⟨fun hrelay => hblocked (hclear.mpr hrelay.clear), e, ?_⟩
    rw [hst₃.idle]
    · exact hst₃
    · intro a ha
      simp only [List.mem_cons, List.not_mem_nil, or_false, or_self] at ha
      rcases ha with rfl | rfl <;> rfl

/-- A relay of an unfinished row that nothing disturbs finishes the file just when nothing it finds
    stands in its way. -/
lemma relay_iff (h : σ.db.Intact σ.next) (hst : Stands σ number r (.starting file))
    (hfile : file ∈ σ.db.files) (hlive : file.Live) {hash : ContentHash}
    (hhash : file.contentHash = some hash) (hsize : file.size = r.body.length)
    (hchunk : ∃ n ∈ file.chunkSizeBytes, 0 < n)
    (hactive : σ.db.activeChannels file.storageId ≠ []) (sends : List (Nat × String × Int))
    (honce : (sends.map (·.1)).Nodup) (hall : ∀ q < file.chunkTotal, q ∈ sends.map (·.1))
    (hnames : (sends.map (·.2.1)).Nodup)
    (hfresh : ∀ send ∈ sends, send.2.1 ∉ σ.documents.map (·.1)) :
    Finished file.storageId file.path hash number
        (run Process.step σ ((relayActs sends).map (.act number))) ↔
      Finishable σ.db σ.maxVariables file.storageId file.id file.chunkTotal := by
  rcases relay_cases h hst hfile rfl rfl hsize hchunk hactive sends honce hall hnames hfresh with
    ⟨hrelay, hst₄, h₄, db', n, h₃, hsent, hlinked⟩ | ⟨hblocked, e, hst₃⟩
  · generalize run Process.step σ _ = ρ at *
    have hrow : { file with isUploaded := true } ∈ ρ.db.files :=
      (hlinked.files _).mpr ⟨file, hsent.files ▸ hfile, (if_pos rfl).symm⟩
    have hat : ρ.db.liveAt file.storageId file.path = some { file with isUploaded := true } :=
      Db.liveAt_of_mem h₄.wf hrow hlive
    constructor
    · rintro ⟨-, row, hrow', -, -, hserved⟩
      rw [hat] at hrow'
      cases hrow'
      obtain ⟨hcounted, hservedChunk⟩ := hsent.finishable h₃
        fun position hlt => (hlinked.served position).mp (hserved position hlt)
      exact ⟨hcounted, hservedChunk, hrelay.linkable⟩
    · intro hfin
      refine ⟨⟨_, hst₄, rfl⟩, _, hat, hhash, rfl, fun position hlt => (hlinked.served position).mpr ?_⟩
      refine hfin.served_sent h hsent (fun q hq => hq) (fun ch hch => ?_) position hlt
      obtain ⟨hmem, -, hon⟩ := Db.mem_activeChannels_iff.mp (mem_dealtTo hch)
      exact ⟨hmem, hon⟩
  · constructor
    · rintro ⟨⟨u, hu, hphase⟩, -⟩
      rw [← Option.some.inj (hst₃.symm.trans hu)] at hphase
      cases hphase
    · exact fun hfin => absurd ⟨hfin.clear fun q hq => hq, hfin.linkable⟩ hblocked

/-! ## The last attempt -/

lemma finishable_of_fresh {storageId fileId : Uuid} {total : Nat}
    (hnone : ∀ c ∈ σ.db.chunks, c.fileId ≠ fileId) :
    Finishable σ.db σ.maxVariables storageId fileId total ↔ Fits σ.db σ.maxVariables storageId total := by
  have hlist : σ.db.listStoredChunkPositions fileId = [] := by
    have hrows : σ.db.chunks.filter (fun c => c.fileId = fileId) = [] :=
      List.filter_eq_nil_iff.mpr fun c hc => by simpa using hnone c hc
    rw [Db.listStoredChunkPositions, Db.chunksOf, hrows]
    rfl
  have hmissing : (σ.db.missing fileId total).length = total := by
    rw [Db.missing, hlist, List.filter_eq_self.mpr, List.length_range]
    intro position _
    simp
  constructor
  · intro h
    have hle := h.linkable
    rw [hlist, hmissing, List.length_nil, Nat.zero_add] at hle
    exact ⟨h.counted, hle⟩
  · rintro ⟨hcounted, hle⟩
    refine ⟨hcounted, fun c hc hfile => absurd hfile (hnone c hc), ?_⟩
    rw [hlist, hmissing, List.length_nil, Nat.zero_add]
    exact hle

lemma dealtTo_congr {db db' : Db} (hstorages : db'.storages = db.storages)
    (hchannels : db'.channels = db.channels) (storageId : Uuid) :
    db'.dealtTo storageId = db.dealtTo storageId := by
  have hactive : ∀ s, db'.activeChannels s = db.activeChannels s := by
    intro s
    rw [Db.activeChannels, Db.activeChannels, Db.listByStorage, Db.listByStorage, hchannels]
  unfold Db.dealtTo Db.resolvePrimaryChannel
  rw [hstorages]
  split
  · rfl
  · case h_2 storage _ =>
    dsimp only
    rw [hactive]
    split <;> split at * <;> simp_all

lemma anywayPath_free {db : Db} {storageId : Uuid} {path : Path}
    (h : db.liveAt storageId path = none) : db.anywayPath storageId path = path := by
  have hbase : (stemAndSuffix path).1 ++ (stemAndSuffix path).2 = path := by
    unfold stemAndSuffix
    split
    · case h_1 folder name hsplit =>
      rw [(rsplitOnce_some hsplit).1, List.append_assoc, List.cons_append,
        List.takeWhile_append_dropWhile]
    · exact List.takeWhile_append_dropWhile
  unfold Db.anywayPath pickDuplicatePath
  dsimp only
  rw [hbase, if_pos]
  intro hmem
  obtain ⟨row, hrow, hpath⟩ := List.mem_map.mp (List.mem_of_mem_filter hmem)
  obtain ⟨hrow, hstands⟩ := List.mem_filter.mp hrow
  obtain ⟨hs, hl⟩ := of_decide_eq_true hstands
  exact Db.liveAt_none.mp h row hrow hs hl hpath

lemma insertFile_free {db : Db} {n : Uuid} (h : db.Intact n) (row : FileRow) (hid : row.id = n)
    (hfree : row.Live → db.liveAt row.storageId row.path = none)
    (hstorage : db.HasStorage row.storageId) :
    ∃ db', db.insertFile row = .ok db' := by
  have hnew : db.fileById row.id = none := by
    refine List.find?_eq_none.mpr fun f hf => ?_
    rw [hid]
    simpa using (h.fileBelow f hf).ne
  unfold Db.insertFile
  rw [hnew, if_neg (by simp), if_neg, if_pos hstorage]
  · exact ⟨_, rfl⟩
  · rintro ⟨hl, hsome⟩
    rw [hfree hl] at hsome
    cases hsome

lemma replaceContent_live {db : Db} {n : Uuid} (h : db.Intact n) (hrow : file ∈ db.files)
    (hlive : file.Live) (retiredPath : Path) (incoming : InFile) (now : Instant) :
    ∃ db', db.replaceContent file.id file.contentHash retiredPath incoming n now = .ok db' := by
  have hfind : db.files.find? (fun q => q.id = file.id ∧ q.Live ∧
      q.contentHash = file.contentHash) = some file := by
    obtain ⟨q, hq⟩ : ∃ q, db.files.find? (fun q => q.id = file.id ∧ q.Live ∧
        q.contentHash = file.contentHash) = some q := by
      apply Option.isSome_iff_exists.mp
      rw [List.find?_isSome]
      exact ⟨file, hrow, decide_eq_true ⟨rfl, hlive, rfl⟩⟩
    have hprops := List.find?_some hq
    simp only [decide_eq_true_eq] at hprops
    rw [hq, h.wf.idUnique q (List.mem_of_find?_eq_some hq) file hrow hprops.1]
  have hretire : ∃ db₁, db.retire file n retiredPath now = .ok db₁ := by
    unfold Db.retire
    split
    · obtain ⟨db₁, hok⟩ := insertFile_free h (Db.retiredRow file n retiredPath now) rfl
        (fun hl => absurd hl (Option.some_ne_none now)) (h.wf.storageExists file hrow)
      rw [hok]
      exact ⟨_, rfl⟩
    · exact ⟨db, rfl⟩
  obtain ⟨db₁, hok₁⟩ := hretire
  obtain ⟨hint₁, -⟩ := Db.retire_ok h hok₁
  obtain ⟨db₂, hok₂, -⟩ := Db.updateById_ok hint₁.wf file.id (Db.inPlace_incoming incoming)
  refine ⟨db₂, ?_⟩
  unfold Db.replaceContent
  simp only [hfind, hok₁, hok₂]

/-- What the last attempt finds besides the rows: a bot, a channel that is active, no relay of an
    earlier attempt, and a Telegram that accepts each chunk it sends. -/
structure Undisturbed (σ : Process) (number : Nat) (r : UploadRequest)
    (sends : List (Nat × String × Int)) : Prop where
  intact : σ.Intact
  new : σ.upload? number = none
  quiet : σ.inFlight = []
  storage : σ.db.HasStorage r.storageId
  bot : ∃ w ∈ σ.db.workers, w.storageId = some r.storageId
  active : σ.db.activeChannels r.storageId ≠ []
  once : (sends.map (·.1)).Nodup
  all : ∀ position < σ.relayTotal r, position ∈ sends.map (·.1)
  names : (sends.map (·.2.1)).Nodup
  fresh : ∀ send ∈ sends, send.2.1 ∉ σ.documents.map (·.1)

/-- Two states that differ in their requests at most. -/
structure Same (σ τ : Process) : Prop where
  db : τ.db = σ.db
  documents : τ.documents = σ.documents
  maxVariables : τ.maxVariables = σ.maxVariables

lemma Stands.turns {phase : Phase} (h : Stands σ number r phase) (hint : σ.Intact) (p : Phase)
    {a : Act} (ho : σ.act ⟨number, r, phase, false⟩ a = some (σ.turn p)) :
    ∃ τ, σ.step (.act number a) = τ ∧ τ.Intact ∧ Stands τ number r p ∧ Same σ τ := by
  obtain ⟨hstep, hst⟩ := h.act ho
  have hint' := hint.step (.act number a)
  rw [hstep] at hint'
  exact ⟨_, hstep, hint', hst, rfl, rfl, rfl⟩

/-- The row holds an attempt at the bytes of a request. -/
structure HoldsAttempt (r : UploadRequest) (row : FileRow) : Prop where
  hash : row.contentHash = r.contentHash
  size : row.size = r.body.length
  chunk : ∃ n ∈ row.chunkSizeBytes, 0 < n

namespace Undisturbed

variable {sends : List (Nat × String × Int)} {now : Instant} {stamp : Path} {hash : ContentHash}
  {row : FileRow}

lemma arrived (hσ : Undisturbed σ number r sends) :
    ∃ τ, σ.step (.arrive number r) = τ ∧ τ.Intact ∧ Stands τ number r .looking ∧ Same σ τ ∧
      ∀ id, ¬ τ.RelayInFlight id := by
  obtain ⟨hstep, hst⟩ := stands_arrive hσ.new hσ.bot
  refine ⟨_, rfl, hσ.intact.step _, hst, ?_⟩
  rw [hstep]
  refine ⟨⟨rfl, rfl, rfl⟩, fun id hmark => ?_⟩
  rw [Process.RelayInFlight, hσ.quiet] at hmark
  exact List.not_mem_nil hmark

lemma uploaded_iff (hσ : Undisturbed σ number r sends) (hhash : r.contentHash = some hash)
    (hlive : σ.db.liveAt r.storageId r.path = some row) (hsame : row.contentHash = some hash)
    (hup : row.isUploaded = true) :
    Finished r.storageId r.path hash number
        (run Process.step σ (finalAttempt number r now stamp sends)) ↔
      ∀ position < row.chunkTotal, σ.db.Served row.id position := by
  obtain ⟨τ, hstep, h, hst, hτ, -⟩ := hσ.arrived
  have hlook : τ.look r = .answered (.ok ()) := by
    simp only [Process.look, hhash, hτ.db, hlive, hsame, if_true, hup]
  obtain ⟨τ₁, hstep₁, -, hst₁, hτ₁⟩ := hst.turns h (.answered (.ok ())) (a := .look)
    (by simp only [Process.act, hlook])
  have hdb : τ₁.db = σ.db := hτ₁.db.trans hτ.db
  unfold finalAttempt
  rw [run_cons, hstep, List.map_cons, run_cons, hstep₁, hst₁.idle]
  · constructor
    · rintro ⟨-, row', hrow', -, -, hserved⟩
      rw [hdb, hlive] at hrow'
      cases hrow'
      exact fun position hlt => hdb ▸ hserved position hlt
    · intro hserved
      exact ⟨⟨_, hst₁, rfl⟩, row, hdb.symm ▸ hlive, hsame, hup,
        fun position hlt => hdb.symm ▸ hserved position hlt⟩
  · intro a ha
    simp only [relayActs, List.mem_cons, List.mem_append, List.mem_map, List.not_mem_nil,
      or_false] at ha
    rcases ha with rfl | rfl | rfl | (rfl | rfl) | ⟨send, -, rfl⟩ | rfl | rfl | rfl <;> rfl

lemma resumed_iff (hσ : Undisturbed σ number r sends) (hhash : r.contentHash = some hash)
    (hlive : σ.db.liveAt r.storageId r.path = some row) (hrow : HoldsAttempt r row)
    (hup : row.isUploaded = false) :
    Finished r.storageId r.path hash number
        (run Process.step σ (finalAttempt number r now stamp sends)) ↔
      Finishable σ.db σ.maxVariables r.storageId row.id row.chunkTotal := by
  obtain ⟨τ, hstep, h, hst, hτ, hidle⟩ := hσ.arrived
  obtain ⟨hmem, hs, hp, hl⟩ := Db.liveAt_some hlive
  have hsame : row.contentHash = some hash := hrow.hash.trans hhash
  have hfolder : isFolderPath row.path = false := hp ▸ r.isFile
  have hres : resumable row r.inFile.size := ⟨hup, hl, hfolder, hrow.size, hrow.chunk⟩
  have hlook : τ.look r = .starting row := by
    simp only [Process.look, hhash, hτ.db, hlive, hsame, if_true, hup, Bool.false_eq_true, if_false,
      if_neg (hidle row.id), Process.resume, if_pos hres]
  obtain ⟨τ₁, hstep₁, h₁, hst₁, hτ₁⟩ := hst.turns h (.starting row) (a := .look)
    (by simp only [Process.act, hlook])
  have hskip := hst₁.idle [.settle, .replace now stamp, .create] (by
    intro a ha
    simp only [List.mem_cons, List.not_mem_nil, or_false] at ha
    rcases ha with rfl | rfl | rfl <;> rfl)
  have hdb : τ₁.db = σ.db := hτ₁.db.trans hτ.db
  have hdocs : τ₁.documents = σ.documents := hτ₁.documents.trans hτ.documents
  have hmax : τ₁.maxVariables = σ.maxVariables := hτ₁.maxVariables.trans hτ.maxVariables
  have htotal : σ.relayTotal r = row.chunkTotal := by
    simp only [Process.relayTotal, Process.sameRow, hlive, Option.filter_some, hrow.hash,
      decide_true, if_true]
  have hiff := relay_iff h₁.db hst₁ (hdb ▸ hmem) hl hsame hrow.size hrow.chunk
    (by rw [hdb, hs]; exact hσ.active) sends hσ.once (htotal ▸ hσ.all) hσ.names
    (fun send hsend => hdocs ▸ hσ.fresh send hsend)
  have hrun : run Process.step σ (finalAttempt number r now stamp sends) =
      run Process.step τ₁ ((relayActs sends).map (.act number)) := by
    have hsplit : (Act.settle :: .replace now stamp :: .create :: relayActs sends) =
        [.settle, .replace now stamp, .create] ++ relayActs sends := rfl
    rw [finalAttempt, run_cons, hstep, List.map_cons, run_cons, hstep₁, hsplit, List.map_append,
      run_append, hskip]
  rw [hrun, ← hs, ← hp, hiff, hdb, hmax]

lemma started_iff (hσ : Undisturbed σ number r sends) (hhash : r.contentHash = some hash)
    {τ : Process} (h : τ.Intact) (hst : Stands τ number r (.starting file))
    (hfile : file ∈ τ.db.files) (hlive : file.Live) (hs : file.storageId = r.storageId)
    (hp : file.path = r.path) (hsame : file.contentHash = r.contentHash)
    (hsize : file.size = r.body.length) (hchunk : file.chunkSizeBytes = some (r.chunkSize : Int))
    (hnone : ∀ c ∈ τ.db.chunks, c.fileId ≠ file.id) (hstorages : τ.db.storages = σ.db.storages)
    (hchannels : τ.db.channels = σ.db.channels) (hdocs : τ.documents = σ.documents)
    (hmax : τ.maxVariables = σ.maxVariables)
    (htotal : σ.relayTotal r = chunkCount r.body.length r.chunkSize) :
    Finished r.storageId r.path hash number
        (run Process.step τ ((relayActs sends).map (.act number))) ↔
      Fits σ.db σ.maxVariables r.storageId (chunkCount r.body.length r.chunkSize) := by
  have hcount : file.chunkTotal = chunkCount r.body.length r.chunkSize := by
    rw [FileRow.chunkTotal, Process.chunkSizeOf, hsize, hchunk, Int.toNat_natCast, Option.getD_some,
      Int.toNat_natCast]
  have hactive : τ.db.activeChannels r.storageId ≠ [] := by
    rw [Db.activeChannels, Db.listByStorage, hchannels]
    exact hσ.active
  have hiff := relay_iff h.db hst hfile hlive (hsame.trans hhash) hsize
    ⟨_, hchunk, Int.natCast_pos.mpr r.chunkSize_pos⟩ (hs ▸ hactive) sends hσ.once
    (by rw [hcount, ← htotal]; exact hσ.all) hσ.names
    (fun send hsend => hdocs ▸ hσ.fresh send hsend)
  rw [hs, hp, hcount, finishable_of_fresh hnone] at hiff
  rw [hiff, Fits, Fits, dealtTo_congr hstorages hchannels, hmax]

/-- A free path gets a row of its own. -/
lemma created_iff (hσ : Undisturbed σ number r sends) (hhash : r.contentHash = some hash)
    (hlive : σ.db.liveAt r.storageId r.path = none) :
    Finished r.storageId r.path hash number
        (run Process.step σ (finalAttempt number r now stamp sends)) ↔
      Fits σ.db σ.maxVariables r.storageId (chunkCount r.body.length r.chunkSize) := by
  obtain ⟨τ, hstep, h, hst, hτ, -⟩ := hσ.arrived
  have hlook : τ.look r = .settling := by simp only [Process.look, hhash, hτ.db, hlive]
  obtain ⟨τ₁, hstep₁, h₁, hst₁, hτ₁⟩ := hst.turns h .settling (a := .look)
    (by simp only [Process.act, hlook])
  have hsettle : τ₁.settle r = .creating := by
    simp only [Process.settle, hτ₁.db, hτ.db, hlive, ite_self]
  obtain ⟨τ₂, hstep₂, h₂, hst₂, hτ₂⟩ := hst₁.turns h₁ .creating (a := .settle)
    (by simp only [Process.act, hsettle])
  have hdb : τ₂.db = σ.db := hτ₂.db.trans (hτ₁.db.trans hτ.db)
  have hdocs : τ₂.documents = σ.documents :=
    hτ₂.documents.trans (hτ₁.documents.trans hτ.documents)
  have hmax : τ₂.maxVariables = σ.maxVariables :=
    hτ₂.maxVariables.trans (hτ₁.maxVariables.trans hτ.maxVariables)
  -- the row is inserted at the path as it is
  have hpath : τ₂.db.anywayPath r.storageId r.path = r.path :=
    anywayPath_free (by rw [hdb, hlive])
  obtain ⟨db', hok⟩ := insertFile_free h₂.db (r.inFile.toRow τ₂.next false) rfl
    (fun _ => (by rw [hdb, hlive] : τ₂.db.liveAt r.storageId r.path = none))
    (by rw [hdb]; exact hσ.storage)
  have hcreate : τ₂.create r =
      ⟨.starting (r.inFile.toRow τ₂.next false), db', τ₂.documents, τ₂.next + 1⟩ := by
    have hin : { r.inFile with path := r.path } = r.inFile := rfl
    simp only [Process.create, hpath, hin, Db.createFileRow, hok]
  have hskip := hst₂.idle [.replace now stamp] (by
    intro a ha
    rw [List.mem_singleton.mp ha]
    rfl)
  obtain ⟨hstep₃, hst₃⟩ := hst₂.act (a := .create) (by simp only [Process.act, hcreate]; rfl)
  have h₃ := h₂.step (.act number .create)
  rw [hstep₃] at h₃
  have hrow : ∀ q, q ∈ db'.files ↔ q ∈ τ₂.db.files ∨ q = r.inFile.toRow τ₂.next false :=
    fun q => Db.mem_insertFile hok
  obtain ⟨-, -, -, hdb'⟩ := Db.insertFile_ok hok
  have hstorages : db'.storages = σ.db.storages := by
    rw [hdb']
    show τ₂.db.storages = _
    rw [hdb]
  have hchannels : db'.channels = σ.db.channels := by
    rw [hdb']
    show τ₂.db.channels = _
    rw [hdb]
  have hnone : ∀ c ∈ db'.chunks, c.fileId ≠ τ₂.next := by
    intro c hc
    rw [hdb'] at hc
    obtain ⟨f, hf, hid⟩ := h₂.db.chunkFile c hc
    exact hid ▸ (h₂.db.fileBelow f hf).ne
  have htotal : σ.relayTotal r = chunkCount r.body.length r.chunkSize := by
    simp only [Process.relayTotal, Process.sameRow, hlive, Option.filter_none]
  rw [← started_iff hσ hhash h₃ hst₃ ((hrow _).mpr (Or.inr rfl)) rfl rfl rfl rfl rfl rfl hnone
    hstorages hchannels hdocs hmax htotal]
  have hsplit : (Act.replace now stamp :: .create :: relayActs sends) =
      [.replace now stamp] ++ .create :: relayActs sends := rfl
  rw [finalAttempt, run_cons, hstep, List.map_cons, run_cons, hstep₁, List.map_cons, run_cons,
    hstep₂, hsplit, List.map_append, run_append, hskip, List.map_cons, run_cons, hstep₃]

/-- A version with another hash is displaced. -/
lemma replaced_iff (hσ : Undisturbed σ number r sends) (hhash : r.contentHash = some hash)
    (hlive : σ.db.liveAt r.storageId r.path = some row) (hother : row.contentHash ≠ some hash)
    (hreplace : r.replace = true) :
    Finished r.storageId r.path hash number
        (run Process.step σ (finalAttempt number r now stamp sends)) ↔
      Fits σ.db σ.maxVariables r.storageId (chunkCount r.body.length r.chunkSize) := by
  obtain ⟨τ, hstep, h, hst, hτ, hidle⟩ := hσ.arrived
  obtain ⟨hmem, hs, hp, hl⟩ := Db.liveAt_some hlive
  have hlook : τ.look r = .settling := by
    simp only [Process.look, hhash, hτ.db, hlive, if_neg hother]
  obtain ⟨τ₁, hstep₁, h₁, hst₁, hτ₁⟩ := hst.turns h .settling (a := .look)
    (by simp only [Process.act, hlook])
  have hquiet : ¬ τ₁.RelayInFlight row.id := by
    intro hmark
    have hu : τ.upload? number = some ⟨number, r, .looking, false⟩ := hst
    rw [← hstep₁, (hst.act (a := .look) (o := τ.turn .settling)
      (by simp only [Process.act, hlook])).1] at hmark
    simp only [Process.RelayInFlight, Process.commit, hu] at hmark
    exact hidle row.id hmark
  have hsettle : τ₁.settle r = .replacing row := by
    simp only [Process.settle, hreplace, if_true, hτ₁.db, hτ.db, hlive, if_neg hquiet]
  obtain ⟨τ₂, hstep₂, h₂, hst₂, hτ₂⟩ := hst₁.turns h₁ (.replacing row) (a := .settle)
    (by simp only [Process.act, hsettle])
  have hdb : τ₂.db = σ.db := hτ₂.db.trans (hτ₁.db.trans hτ.db)
  have hdocs : τ₂.documents = σ.documents :=
    hτ₂.documents.trans (hτ₁.documents.trans hτ.documents)
  have hmax : τ₂.maxVariables = σ.maxVariables :=
    hτ₂.maxVariables.trans (hτ₁.maxVariables.trans hτ.maxVariables)
  obtain ⟨db', hok⟩ := replaceContent_live h₂.db (hdb ▸ hmem) hl
    (retiredVersionPath row.path stamp) r.inFile now
  obtain ⟨current, hcur, hid, -, -, hint, hfiles, hchunks, -, hchannels, hstorages, -, -⟩ :=
    Db.replaceContent_ok h₂.db hok
  obtain rfl := h₂.db.wf.idUnique current hcur row (hdb ▸ hmem) hid
  have hfile : Db.incomingRow r.inFile current ∈ db'.files := (hfiles _).mpr (Or.inl rfl)
  have hreplaced : τ₂.replace r current now stamp =
      ⟨.starting (Db.incomingRow r.inFile current), db', τ₂.documents, τ₂.next + 1⟩ := by
    have hby : db'.fileById current.id = some (Db.incomingRow r.inFile current) :=
      Db.fileById_of_mem hint.wf hfile
    simp only [Process.replace, hok, hby]
  obtain ⟨hstep₃, hst₃⟩ := hst₂.act (a := .replace now stamp)
    (by simp only [Process.act, hreplaced]; rfl)
  have h₃ := h₂.step (.act number (.replace now stamp))
  rw [hstep₃] at h₃
  have hskip := hst₃.idle [.create] (by
    intro a ha
    rw [List.mem_singleton.mp ha]
    rfl)
  have hnone : ∀ c ∈ db'.chunks, c.fileId ≠ current.id := by
    intro c hc
    rw [hchunks] at hc
    obtain ⟨c', hc', rfl⟩ := List.mem_map.mp hc
    unfold Db.movedChunk
    split
    · exact (h₂.db.fileBelow current hcur).ne'
    · case isFalse hne => exact hne
  have htotal : σ.relayTotal r = chunkCount r.body.length r.chunkSize := by
    simp only [Process.relayTotal, Process.sameRow, hlive, Option.filter_some, hhash, hother,
      decide_false, Bool.false_eq_true, if_false]
  rw [← started_iff hσ hhash h₃ hst₃ hfile hl hs hp rfl rfl rfl hnone
    (hstorages.trans (congrArg Db.storages hdb)) (hchannels.trans (congrArg Db.channels hdb))
    hdocs hmax htotal]
  have hsplit : (Act.create :: relayActs sends) = [.create] ++ relayActs sends := rfl
  rw [finalAttempt, run_cons, hstep, List.map_cons, run_cons, hstep₁, List.map_cons, run_cons,
    hstep₂, List.map_cons, run_cons, hstep₃, hsplit, List.map_append, run_append, hskip]

end Undisturbed

/-! ## Runs of attempts -/

/-- Every live row at the path with the hash holds an attempt, and so does every request. -/
structure OnlyAttempts (storageId : Uuid) (path : Path) (hash : ContentHash) (size : Nat)
    (σ : Process) : Prop where
  rows : ∀ row ∈ σ.db.files, row.Live → row.storageId = storageId → row.path = path →
    row.contentHash = some hash → row.size = size ∧ ∃ n ∈ row.chunkSizeBytes, 0 < n
  requests : ∀ u ∈ σ.uploads, IsAttempt storageId path hash size u.request

lemma OnlyAttempts.step {storageId : Uuid} {path : Path} {hash : ContentHash} {size : Nat}
    (h : σ.Intact) (ho : OnlyAttempts storageId path hash size σ) {a : Step}
    (ha : Attempts storageId path hash size a) : OnlyAttempts storageId path hash size (σ.step a) := by
  cases a with
  | arrive number r =>
    rcases σ.step_arrive number r with heq | ⟨-, phase, -, heq⟩
    · rw [heq]
      exact ho
    · rw [heq]
      refine ⟨ho.rows, fun u hu => ?_⟩
      cases List.mem_append.mp hu with
      | inl hu => exact ho.requests u hu
      | inr hu =>
        rw [List.mem_singleton.mp hu]
        exact ha
  | act number a =>
    rcases σ.step_act number a with heq | ⟨u, o, -, hu, -, hm, heq⟩
    · rw [heq]
      exact ho
    · rw [heq]
      have hr := ho.requests u hu
      have hin : u.request.inFile.size = size := congrArg Int.ofNat hr.size
      have hchunk : ∃ n ∈ u.request.inFile.chunkSizeBytes, 0 < n :=
        ⟨_, rfl, Int.natCast_pos.mpr u.request.chunkSize_pos⟩
      constructor
      · intro row hrow hl hs hp hhash
        cases Process.rows_of_moves h.db hm row hrow with
        | old hq => exact ho.rows row hq hl hs hp hhash
        | @uploaded q hq => exact ho.rows q hq hl hs hp hhash
        | incoming hrow => exact ⟨hin, hchunk⟩
        | retired retiredPath now hrow => exact absurd hl (Option.some_ne_none now)
        | created path' => exact ⟨hin, hchunk⟩
      · intro v hv
        rcases Process.mem_commit hv with ⟨hv, -⟩ | ⟨w, hw, -, rfl⟩
        · exact ho.requests v hv
        · exact ho.requests w hw
  | disconnect number handed =>
    have hl := Process.left_disconnect σ number handed
    constructor
    · rw [Process.step, hl.db]
      exact ho.rows
    · intro v hv
      obtain ⟨u, hu, -, hr, -⟩ := hl.uploads v hv
      exact hr ▸ ho.requests u hu
  | edit e =>
    have ht := Process.tuned_edit h.db e
    refine ⟨?_, ?_⟩
    · rw [Process.step, ht.files]
      exact ho.rows
    · rw [Process.step, ht.uploads]
      exact ho.requests
  | restart order =>
    refine ⟨fun row hrow => ?_, fun u hu => absurd hu List.not_mem_nil⟩
    exact ho.rows row (((Db.purged_hardDeleteIds h.db _ order).2.files row).mp hrow).1

/-- After any run of attempts at a file, restarts and edits of the channels, one further attempt that
    nothing disturbs finishes the file just when nothing the earlier ones left stands in its way. -/
theorem finishes_iff {σ₀ σ : Process} (h : σ₀.Intact) {storageId : Uuid} {path : Path}
    {hash : ContentHash} {size : Nat} (hstart : OnlyAttempts storageId path hash size σ₀)
    {steps : List Step} (hsteps : ∀ a ∈ steps, Attempts storageId path hash size a)
    (hrun : run Process.step σ₀ steps = σ) {number : Nat} {r : UploadRequest}
    (hr : IsAttempt storageId path hash size r) {sends : List (Nat × String × Int)}
    (hσ : Undisturbed σ number r sends)
    (hreplace : r.replace = true ∨ ∀ row ∈ σ.db.liveAt storageId path, row.contentHash = some hash)
    (now : Instant) (stamp : Path) :
    Finished storageId path hash number
        (run Process.step σ (finalAttempt number r now stamp sends)) ↔ CanFinish σ r := by
  have honly : OnlyAttempts storageId path hash size σ := by
    subst hrun
    clear hσ hreplace
    induction steps generalizing σ₀ with
    | nil => exact hstart
    | cons a steps ih =>
      exact ih (h.step a) (hstart.step h (hsteps a List.mem_cons_self))
        fun b hb => hsteps b (List.mem_cons_of_mem a hb)
  obtain ⟨rfl, rfl, hhash, rfl⟩ := hr
  unfold CanFinish
  cases hlive : σ.db.liveAt r.storageId r.path with
  | none =>
    rw [hσ.created_iff hhash hlive, Process.sameRow, hlive]
    rfl
  | some row =>
    by_cases hsame : row.contentHash = some hash
    · have hrow : σ.sameRow r = some row := by
        simp only [Process.sameRow, hlive, Option.filter_some, hhash, hsame, decide_true, if_true]
      rw [hrow]
      dsimp only
      split
      · case isTrue hup => exact hσ.uploaded_iff hhash hlive hsame hup
      · case isFalse hup =>
        obtain ⟨hm, hs, hp, hl⟩ := Db.liveAt_some hlive
        obtain ⟨hsize, hchunk⟩ := honly.rows row hm hl hs hp hsame
        exact hσ.resumed_iff hhash hlive ⟨hsame.trans hhash.symm, hsize, hchunk⟩
          (Bool.not_eq_true _ ▸ hup)
    · have hrow : σ.sameRow r = none := by
        simp only [Process.sameRow, hlive, Option.filter_some, hhash, hsame, decide_false,
          Bool.false_eq_true, if_false]
      rw [hrow]
      cases hreplace with
      | inl hreplace => exact hσ.replaced_iff hhash hlive hsame hreplace
      | inr hno => exact absurd (hno row hlive) hsame

/-! ## A channel that is removed between two attempts -/

/-- A storage with a bot and two active channels. -/
def twoChannels : Process where
  db := { Db.fresh [⟨0, 1⟩] with
    workers := [⟨1, some 0⟩]
    channels := [⟨2, 0, 1, -100, .active⟩, ⟨3, 0, 2, -200, .active⟩] }
  uploads := []
  documents := []
  inFlight := []
  next := 4
  maxVariables := 32766

/-- An upload of two chunks that fails behind its first one. -/
def halfUpload : List Step :=
  [.arrive 0 newVersion, .act 0 .look, .act 0 .settle, .act 0 .create, .act 0 .begin, .act 0 .plan,
    .act 0 (.send 0 "new-0" 10), .act 0 (.sendFails .unknown), .act 0 (.count true)]

/-- Telegram accepts both chunks of the next attempt. -/
def bothChunks : List (Nat × String × Int) :=
  [(0, "again-0", 11), (1, "again-1", 12)]

lemma twoChannels_intact : twoChannels.Intact where
  db := by
    refine ⟨⟨?_, ?_, ?_, ?_, ?_⟩, ?_, ?_, ?_, ?_, ?_, ?_, ?_, ?_, ?_, ?_, ?_⟩ <;> decide +kernel
  rowBelow := fun u hu => absurd hu List.not_mem_nil
  rowLive := fun u hu => absurd hu List.not_mem_nil

/-- An upload that fails behind its first chunk cannot be finished once the channel of that chunk is
    removed. -/
theorem removedChannel_blocks :
    Undisturbed (run Process.step twoChannels (halfUpload ++ [.edit (.removeChannel 0 2)])) 1
      newVersion bothChunks ∧
    ¬ Finished 0 "a.txt".toList "sha256:new" 1
      (run Process.step twoChannels (halfUpload ++ .edit (.removeChannel 0 2) ::
        finalAttempt 1 newVersion 0 "1970-01-01 00-00-00".toList bothChunks)) := by
  constructor
  · refine ⟨run_invariant (fun σ a hσ => hσ.step a) twoChannels_intact _, ?_, ?_, ?_, ?_, ?_, ?_, ?_,
      ?_, ?_⟩
    all_goals decide +kernel
  · rintro ⟨-, row, hrow, -, hup, -⟩
    have hunfinished : (run Process.step twoChannels (halfUpload ++ .edit (.removeChannel 0 2) ::
        finalAttempt 1 newVersion 0 "1970-01-01 00-00-00".toList bothChunks)).db.liveAt 0
          "a.txt".toList |>.all fun row => row.isUploaded = false := by
      decide +kernel
    rw [hrow, Option.all_some, hup] at hunfinished
    cases hunfinished

/-- With its channel in place the upload is finished. -/
theorem halfUpload_finishes :
    Finished 0 "a.txt".toList "sha256:new" 1
      (run Process.step (run Process.step twoChannels halfUpload)
        (finalAttempt 1 newVersion 0 "1970-01-01 00-00-00".toList bothChunks)) := by
  have hσ : Undisturbed (run Process.step twoChannels halfUpload) 1 newVersion bothChunks := by
    refine ⟨run_invariant (fun σ a hσ => hσ.step a) twoChannels_intact _, ?_, ?_, ?_, ?_, ?_, ?_, ?_,
      ?_, ?_⟩
    all_goals decide +kernel
  have hstart : OnlyAttempts 0 "a.txt".toList "sha256:new" 2 twoChannels :=
    ⟨fun row hrow => absurd hrow List.not_mem_nil, fun u hu => absurd hu List.not_mem_nil⟩
  have hr : IsAttempt 0 "a.txt".toList "sha256:new" 2 newVersion := ⟨rfl, rfl, rfl, rfl⟩
  have hsteps : ∀ a ∈ halfUpload, Attempts 0 "a.txt".toList "sha256:new" 2 a := by
    simp only [halfUpload, List.forall_mem_cons, Attempts, true_and, hr, List.not_mem_nil]
    exact fun _ hno => absurd hno id
  have hrow : (run Process.step twoChannels halfUpload).sameRow newVersion =
      some (newVersion.inFile.toRow 4 false) := by
    decide +kernel
  refine (finishes_iff twoChannels_intact hstart hsteps rfl hr hσ (Or.inl rfl) 0 _).mpr ?_
  rw [CanFinish, hrow]
  exact ⟨by decide +kernel, by decide +kernel, by decide +kernel⟩

end Sarca.Server
