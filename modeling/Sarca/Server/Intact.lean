import Sarca.Server.Upload

/-!
# What every step keeps

`Db.Intact` collects what the schema promises about files, chunks, replicas and channels, and that all
ids are below the next fresh one; `Process.Intact` adds that a request under way holds rows that are
still live when they are there. Every step keeps it (`Process.Intact.step`). On the way each statement
gets one lemma that says what it leaves (`updateById_ok`, `deleteFile` and `deleteEach` lemmas,
`replaceContent_ok`, `createChunkWithReplica_ok`, `insertBatch_ok`).
-/

namespace Sarca.Server
open Sarca.Lib

/-- What the schema and `Uuid::new_v4` promise about the rows when `n` is the next fresh id. -/
structure Db.Intact (n : Uuid) (db : Db) : Prop where
  wf : db.Wf
  chunkNodup : (db.chunks.map (·.id)).Nodup
  /-- `file_chunks_file_id_position_uidx` -/
  chunkPosition : ∀ c ∈ db.chunks, ∀ c' ∈ db.chunks,
    c.fileId = c'.fileId → c.position = c'.position → c = c'
  /-- A position is an `i16`, and none is negative. -/
  chunkRange : ∀ c ∈ db.chunks, 0 ≤ c.position ∧ c.position ≤ 32767
  chunkFile : ∀ c ∈ db.chunks, ∃ f ∈ db.files, f.id = c.fileId
  replicaId : ∀ r ∈ db.replicas, ∀ r' ∈ db.replicas, r.id = r'.id → r = r'
  replicaChunk : ∀ r ∈ db.replicas, ∃ c ∈ db.chunks, c.id = r.chunkId
  replicaChannel : ∀ r ∈ db.replicas, ∃ ch ∈ db.channels, ch.id = r.channelId
  fileBelow : ∀ f ∈ db.files, f.id < n
  chunkBelow : ∀ c ∈ db.chunks, c.id < n
  replicaBelow : ∀ r ∈ db.replicas, r.id < n
  channelBelow : ∀ ch ∈ db.channels, ch.id < n

namespace Db

variable {db db' : Db} {n m : Uuid}

lemma Intact.chunkId (h : db.Intact n) {c c' : FileChunk} (hc : c ∈ db.chunks)
    (hc' : c' ∈ db.chunks) (hid : c.id = c'.id) : c = c' :=
  List.inj_on_of_nodup_map h.chunkNodup hc hc' hid

lemma Intact.mono (h : db.Intact n) (hle : n ≤ m) : db.Intact m where
  wf := h.wf
  chunkNodup := h.chunkNodup
  chunkPosition := h.chunkPosition
  chunkRange := h.chunkRange
  chunkFile := h.chunkFile
  replicaId := h.replicaId
  replicaChunk := h.replicaChunk
  replicaChannel := h.replicaChannel
  fileBelow := fun f hf => Nat.lt_of_lt_of_le (h.fileBelow f hf) hle
  chunkBelow := fun c hc => Nat.lt_of_lt_of_le (h.chunkBelow c hc) hle
  replicaBelow := fun r hr => Nat.lt_of_lt_of_le (h.replicaBelow r hr) hle
  channelBelow := fun ch hch => Nat.lt_of_lt_of_le (h.channelBelow ch hch) hle

lemma number_data {seq : Nat} {evs : List EventData} {e : SyncEvent} (h : e ∈ number seq evs) :
    e.toEventData ∈ evs := by
  induction evs generalizing seq with
  | nil => exact absurd h List.not_mem_nil
  | cons d evs ih =>
    cases List.mem_cons.mp h with
    | inl he => subst he; exact List.mem_cons_self
    | inr he => exact List.mem_cons_of_mem d (ih he)

lemma mem_emit {evs : List EventData} {e : SyncEvent} (h : e ∈ (db.emit evs).events) :
    e ∈ db.events ∨ e.toEventData ∈ evs := by
  cases List.mem_append.mp h with
  | inl h => exact Or.inl h
  | inr h => exact Or.inr (number_data h)

/-! ## Statements on files -/

/-- A row change that keeps the row where it is. -/
def InPlace (f : FileRow → FileRow) : Prop :=
  ∀ r, (f r).id = r.id ∧ (f r).storageId = r.storageId ∧ (f r).path = r.path ∧
    (f r).deletedAt = r.deletedAt

lemma visitOrder_byId (h : db.Wf) (id : Uuid) {p : FileRow → Bool}
    (hp : ∀ r, p r = true ↔ r.id = id) :
    visitOrder [] (db.idsWhere p) = if (db.fileById id).isSome then [id] else [] := by
  have hmem : ∀ i, i ∈ visitOrder [] (db.idsWhere p) ↔ i = id ∧ (db.fileById id).isSome := by
    intro i
    rw [mem_visitOrder, mem_idsWhere]
    constructor
    · rintro ⟨r, hr, hpr, rfl⟩
      have hid := (hp r).mp hpr
      exact ⟨hid, by rw [← hid, fileById_of_mem h hr]; rfl⟩
    · rintro ⟨rfl, hsome⟩
      obtain ⟨r, hr⟩ := Option.isSome_iff_exists.mp hsome
      obtain ⟨hm, hid⟩ := fileById_some hr
      exact ⟨r, hm, (hp r).mpr hid, hid⟩
  have hnodup := visitOrder_nodup [] (db.idsWhere p)
  cases hv : visitOrder [] (db.idsWhere p) with
  | nil =>
    rw [hv] at hmem
    split
    · case isTrue hsome => exact absurd ((hmem id).mpr ⟨rfl, hsome⟩) List.not_mem_nil
    · rfl
  | cons i rest =>
    rw [hv] at hmem hnodup
    obtain ⟨rfl, hsome⟩ := (hmem i).mp List.mem_cons_self
    rw [if_pos hsome]
    cases rest with
    | nil => rfl
    | cons j rest =>
      obtain ⟨rfl, -⟩ := (hmem j).mp (List.mem_cons_of_mem i List.mem_cons_self)
      exact absurd List.mem_cons_self (List.nodup_cons.mp hnodup).1

/-- An update in place of the row with an id succeeds, and what it leaves. -/
lemma updateById_ok (h : db.Wf) (id : Uuid) {f : FileRow → FileRow} (hf : InPlace f) :
    ∃ db', db.updateById id f = .ok db' ∧ db'.Wf ∧
      (∀ r, r ∈ db'.files ↔ ∃ q ∈ db.files, r = if q.id = id then f q else q) ∧
      db'.chunks = db.chunks ∧ db'.replicas = db.replicas ∧ db'.channels = db.channels ∧
      db'.storages = db.storages ∧ db'.workers = db.workers ∧
      ∀ e ∈ db'.events, e ∈ db.events ∨ e.op = .upsert := by
  unfold updateById updateFiles
  rw [visitOrder_byId h id fun r => decide_eq_true_iff]
  cases hfile : db.fileById id with
  | none =>
    refine ⟨db, rfl, h, ?_, rfl, rfl, rfl, rfl, rfl, fun e he => Or.inl he⟩
    intro r
    have hno : ∀ q ∈ db.files, q.id ≠ id := by
      intro q hq
      simpa using List.find?_eq_none.mp hfile q hq
    constructor
    · intro hr
      exact ⟨r, hr, (if_neg (hno r hr)).symm⟩
    · rintro ⟨q, hq, rfl⟩
      rwa [if_neg (hno q hq)]
  | some old =>
    obtain ⟨hold, rfl⟩ := fileById_some hfile
    obtain ⟨hid, hst, hpath, hdel⟩ := hf old
    have hfree : ¬ db.Occupied (f old) := by
      rintro ⟨hl, q, hq, hne, hql, hqs, hqp⟩
      have hlold : old.Live := by rwa [FileRow.Live, ← hdel]
      exact hne ((congrArg FileRow.id (h.aliveUnique q hq old hold hql hlold (hqs.trans hst)
        (hqp.trans hpath))).trans hid.symm)
    have hrep : ∃ db', db.replaceFile old (f old) = .ok db' := ⟨_, if_neg hfree⟩
    obtain ⟨db', hrep⟩ := hrep
    refine ⟨db', ?_, h.replaceFile hold hrep hid hst, ?_⟩
    · simp only [Option.isSome_some, if_true, updateEach, hfile, hrep]
    · obtain ⟨-, rfl⟩ := replaceFile_ok hrep
      refine ⟨?_, rfl, rfl, rfl, rfl, rfl, ?_⟩
      · intro r
        simp only [emit_files, List.mem_map]
        constructor
        · rintro ⟨q, hq, rfl⟩
          refine ⟨q, hq, ?_⟩
          by_cases hqid : q.id = old.id
          · rw [if_pos hqid, if_pos hqid, h.idUnique q hq old hold hqid]
          · rw [if_neg hqid, if_neg hqid]
        · rintro ⟨q, hq, rfl⟩
          refine ⟨q, hq, ?_⟩
          by_cases hqid : q.id = old.id
          · rw [if_pos hqid, if_pos hqid, h.idUnique q hq old hold hqid]
          · rw [if_neg hqid, if_neg hqid]
      · intro e he
        cases mem_emit he with
        | inl he => exact Or.inl he
        | inr he =>
          right
          have hlive : old.Live ↔ (f old).Live := by rw [FileRow.Live, FileRow.Live, hdel]
          simp only [filesSyncEventUpdate, hpath, ne_eq, not_true_eq_false, if_false, false_and,
            true_and, List.nil_append, List.mem_append, List.mem_ite_nil_right] at he
          rcases he with ⟨hgone, -⟩ | ⟨-, he⟩
          · exact absurd (hlive.mp hgone.2) hgone.1
          · rw [List.mem_singleton.mp he]
            rfl

structure Purged (ids : List Uuid) (db db' : Db) : Prop where
  files : ∀ r, r ∈ db'.files ↔ r ∈ db.files ∧ r.id ∉ ids
  chunks : ∀ c, c ∈ db'.chunks ↔ c ∈ db.chunks ∧ c.fileId ∉ ids
  replicas : ∀ r, r ∈ db'.replicas ↔ r ∈ db.replicas ∧ ∃ c ∈ db'.chunks, c.id = r.chunkId
  channels : db'.channels = db.channels
  storages : db'.storages = db.storages
  workers : db'.workers = db.workers
  events : ∀ e ∈ db'.events, e ∈ db.events ∨
    ∃ r ∈ db.files, r.id ∈ ids ∧ e.toEventData = eventOf .delete r

lemma purged_deleteFile (h : db.Intact n) {old : FileRow} (hold : old ∈ db.files) :
    Purged [old.id] db (db.deleteFile old) where
  files := by
    intro r
    rw [mem_deleteFile, List.mem_singleton]
  chunks := by
    intro c
    show c ∈ db.chunks.filter _ ↔ _
    simp
  replicas := by
    intro r
    show r ∈ db.replicas.filter _ ↔ _ ∧ ∃ c ∈ db.chunks.filter _, _
    simp only [List.mem_filter, decide_eq_true_eq]
    constructor
    · rintro ⟨hr, hkeep⟩
      obtain ⟨c, hc, hid⟩ := h.replicaChunk r hr
      exact ⟨hr, c, ⟨hc, fun he => hkeep c hc he hid⟩, hid⟩
    · rintro ⟨hr, c, ⟨hc, hne⟩, hid⟩
      refine ⟨hr, fun c' hc' he hid' => hne ?_⟩
      rw [h.chunkId hc hc' (hid.trans hid'.symm), he]
  channels := rfl
  storages := rfl
  workers := rfl
  events := by
    intro e he
    cases mem_emit he with
    | inl he => exact Or.inl he
    | inr he =>
      simp only [filesSyncEventDelete, List.mem_ite_nil_right, List.mem_singleton] at he
      exact Or.inr ⟨old, hold, List.mem_singleton_self _, he.2⟩

lemma Intact.deleteFile (h : db.Intact n) {old : FileRow} (hold : old ∈ db.files) :
    (db.deleteFile old).Intact n where
  wf := h.wf.deleteFile old
  chunkNodup := (List.filter_sublist.map _).nodup h.chunkNodup
  chunkPosition := by
    intro c hc c' hc'
    exact h.chunkPosition c (List.mem_of_mem_filter hc) c' (List.mem_of_mem_filter hc')
  chunkRange := fun c hc => h.chunkRange c (List.mem_of_mem_filter hc)
  chunkFile := by
    intro c hc
    obtain ⟨hm, hne⟩ := ((purged_deleteFile h hold).chunks c).mp hc
    obtain ⟨f, hf, hid⟩ := h.chunkFile c hm
    exact ⟨f, ((purged_deleteFile h hold).files f).mpr ⟨hf, by rwa [hid]⟩, hid⟩
  replicaId := by
    intro r hr r' hr'
    exact h.replicaId r (List.mem_of_mem_filter hr) r' (List.mem_of_mem_filter hr')
  replicaChunk := fun r hr => (((purged_deleteFile h hold).replicas r).mp hr).2
  replicaChannel := fun r hr => h.replicaChannel r (List.mem_of_mem_filter hr)
  fileBelow := fun f hf => h.fileBelow f (List.mem_of_mem_filter hf)
  chunkBelow := fun c hc => h.chunkBelow c (List.mem_of_mem_filter hc)
  replicaBelow := fun r hr => h.replicaBelow r (List.mem_of_mem_filter hr)
  channelBelow := h.channelBelow

lemma purged_deleteEach (h : db.Intact n) (ids : List Uuid) :
    (db.deleteEach ids).Intact n ∧ Purged ids db (db.deleteEach ids) := by
  induction ids generalizing db with
  | nil =>
    refine ⟨h, ⟨by simp [deleteEach], by simp [deleteEach], ?_, rfl, rfl, rfl, fun e he => Or.inl he⟩⟩
    intro r
    exact ⟨fun hr => ⟨hr, h.replicaChunk r hr⟩, fun hr => hr.1⟩
  | cons id ids ih =>
    unfold deleteEach
    split
    · case h_1 hnone =>
      obtain ⟨hint, hp⟩ := ih h
      have hno : ∀ f ∈ db.files, f.id ≠ id := by
        intro f hf
        simpa using List.find?_eq_none.mp hnone f hf
      refine ⟨hint, ⟨?_, ?_, hp.replicas, hp.channels, hp.storages, hp.workers, ?_⟩⟩
      · intro r
        rw [hp.files, List.mem_cons]
        exact and_congr_right fun hr => by simp [hno r hr]
      · intro c
        rw [hp.chunks, List.mem_cons]
        refine and_congr_right fun hc => ?_
        obtain ⟨f, hf, hid⟩ := h.chunkFile c hc
        simp [hid ▸ hno f hf]
      · intro e he
        rcases hp.events e he with he | ⟨r, hr, hid, he⟩
        · exact Or.inl he
        · exact Or.inr ⟨r, hr, List.mem_cons_of_mem id hid, he⟩
    · case h_2 old hsome =>
      obtain ⟨hold, rfl⟩ := fileById_some hsome
      have hone := purged_deleteFile h hold
      obtain ⟨hint, hp⟩ := ih (h.deleteFile hold)
      refine ⟨hint, ⟨?_, ?_, ?_, hp.channels.trans hone.channels, hp.storages.trans hone.storages,
        hp.workers.trans hone.workers, ?_⟩⟩
      · intro r
        rw [hp.files, hone.files, List.mem_singleton, List.mem_cons, not_or, and_assoc]
      · intro c
        rw [hp.chunks, hone.chunks, List.mem_singleton, List.mem_cons, not_or, and_assoc]
      · intro r
        rw [hp.replicas, hone.replicas, and_assoc]
        refine and_congr_right fun hr => ⟨fun hh => hh.2, ?_⟩
        rintro ⟨c, hc, hid⟩
        exact ⟨⟨c, ((hp.chunks c).mp hc).1, hid⟩, c, hc, hid⟩
      · intro e he
        rcases hp.events e he with he | ⟨r, hr, hid, he⟩
        · rcases hone.events e he with he | ⟨r, hr, hid, he⟩
          · exact Or.inl he
          · exact Or.inr ⟨r, hr, List.mem_cons.mpr (Or.inl (List.mem_singleton.mp hid)), he⟩
        · exact Or.inr ⟨r, ((hone.files r).mp hr).1, List.mem_cons_of_mem _ hid, he⟩

lemma purged_hardDeleteIds (h : db.Intact n) (ids order : List Uuid) :
    (db.hardDeleteIds ids order).Intact n ∧ Purged ids db (db.hardDeleteIds ids order) := by
  obtain ⟨hint, hp⟩ := purged_deleteEach h (visitOrder order (db.idsWhere fun r => r.id ∈ ids))
  have hvisit : ∀ f ∈ db.files,
      (f.id ∈ visitOrder order (db.idsWhere fun r => r.id ∈ ids) ↔ f.id ∈ ids) := by
    intro f hf
    rw [mem_visitOrder, mem_idsWhere]
    constructor
    · rintro ⟨q, -, hq, hid⟩
      rw [← hid]
      exact decide_eq_true_iff.mp hq
    · intro hid
      exact ⟨f, hf, decide_eq_true_iff.mpr hid, rfl⟩
  refine ⟨hint, ⟨?_, ?_, hp.replicas, hp.channels, hp.storages, hp.workers, ?_⟩⟩
  · intro r
    rw [hardDeleteIds, deleteFiles, hp.files]
    exact and_congr_right fun hr => not_congr (hvisit r hr)
  · intro c
    rw [hardDeleteIds, deleteFiles, hp.chunks]
    refine and_congr_right fun hc => not_congr ?_
    obtain ⟨f, hf, hid⟩ := h.chunkFile c hc
    rw [← hid]
    exact hvisit f hf
  · intro e he
    rcases hp.events e he with he | ⟨r, hr, hid, he⟩
    · exact Or.inl he
    · exact Or.inr ⟨r, hr, (hvisit r hr).mp hid, he⟩

lemma Intact.insertFile (h : db.Intact n) {row : FileRow} (hok : db.insertFile row = .ok db')
    (hid : row.id = n) : db'.Intact (n + 1) := by
  have hwf := h.wf.insertFile hok
  obtain ⟨-, -, -, rfl⟩ := insertFile_ok hok
  have h' := h.mono (Nat.le_succ n)
  exact {
    wf := hwf
    chunkNodup := h.chunkNodup
    chunkPosition := h.chunkPosition
    chunkRange := h.chunkRange
    chunkFile := by
      intro c hc
      obtain ⟨f, hf, hfid⟩ := h.chunkFile c hc
      exact ⟨f, List.mem_append_left _ hf, hfid⟩
    replicaId := h.replicaId
    replicaChunk := h.replicaChunk
    replicaChannel := h.replicaChannel
    fileBelow := by
      intro f hf
      cases List.mem_append.mp hf with
      | inl hf => exact h'.fileBelow f hf
      | inr hf => rw [List.mem_singleton.mp hf, hid]; exact Nat.lt_succ_self n
    chunkBelow := h'.chunkBelow
    replicaBelow := h'.replicaBelow
    channelBelow := h'.channelBelow }

lemma insertFile_events {row : FileRow} (hok : db.insertFile row = .ok db') :
    ∀ e ∈ db'.events, e ∈ db.events ∨ e.op = .upsert := by
  obtain ⟨-, -, -, rfl⟩ := insertFile_ok hok
  intro e he
  cases mem_emit he with
  | inl he => exact Or.inl he
  | inr he =>
    simp only [filesSyncEventInsert, List.mem_ite_nil_right, List.mem_singleton] at he
    exact Or.inr (by rw [he.2]; rfl)

lemma Intact.updateById (h : db.Intact n) {id : Uuid} {f : FileRow → FileRow} (hf : InPlace f)
    (hok : db.updateById id f = .ok db') : db'.Intact n := by
  obtain ⟨db₁, hok₁, hwf, hfiles, hchunks, hreplicas, hchannels, -, -, -⟩ := updateById_ok h.wf id hf
  rw [hok] at hok₁
  cases hok₁
  exact {
    wf := hwf
    chunkNodup := hchunks ▸ h.chunkNodup
    chunkPosition := hchunks ▸ h.chunkPosition
    chunkRange := hchunks ▸ h.chunkRange
    chunkFile := by
      intro c hc
      obtain ⟨q, hq, hid⟩ := h.chunkFile c (hchunks ▸ hc)
      refine ⟨_, (hfiles _).mpr ⟨q, hq, rfl⟩, ?_⟩
      rw [← hid]
      split
      · exact (hf q).1
      · rfl
    replicaId := hreplicas ▸ h.replicaId
    replicaChunk := by rw [hreplicas, hchunks]; exact h.replicaChunk
    replicaChannel := by rw [hreplicas, hchannels]; exact h.replicaChannel
    fileBelow := by
      intro r hr
      obtain ⟨q, hq, rfl⟩ := (hfiles r).mp hr
      split
      · rw [(hf q).1]; exact h.fileBelow q hq
      · exact h.fileBelow q hq
    chunkBelow := hchunks ▸ h.chunkBelow
    replicaBelow := hreplicas ▸ h.replicaBelow
    channelBelow := hchannels ▸ h.channelBelow }

lemma inPlace_uploaded : InPlace fun r => { r with isUploaded := true } :=
  fun _ => ⟨rfl, rfl, rfl, rfl⟩

lemma inPlace_incoming (incoming : InFile) : InPlace (incomingRow incoming) :=
  fun _ => ⟨rfl, rfl, rfl, rfl⟩

def movedChunk (fileId retiredId : Uuid) (c : FileChunk) : FileChunk :=
  if c.fileId = fileId then { c with fileId := retiredId } else c

lemma movedChunk_id (fileId retiredId : Uuid) (c : FileChunk) :
    (movedChunk fileId retiredId c).id = c.id := by
  unfold movedChunk
  split <;> rfl

lemma movedChunk_position (fileId retiredId : Uuid) (c : FileChunk) :
    (movedChunk fileId retiredId c).position = c.position := by
  unfold movedChunk
  split <;> rfl

lemma Intact.moveChunks (h : db.Intact n) {fileId retiredId : Uuid}
    (hrow : ∃ f ∈ db.files, f.id = retiredId) (hempty : ∀ c ∈ db.chunks, c.fileId ≠ retiredId) :
    (db.moveChunks fileId retiredId).Intact n := by
  have hmem : ∀ c, c ∈ (db.moveChunks fileId retiredId).chunks ↔
      ∃ q ∈ db.chunks, movedChunk fileId retiredId q = c := fun c => List.mem_map
  exact {
    wf := ⟨h.wf.idUnique, h.wf.aliveUnique, h.wf.storageExists, h.wf.eventsGrow, h.wf.eventsSeen⟩
    chunkNodup := by
      have hids : (db.moveChunks fileId retiredId).chunks.map (·.id) = db.chunks.map (·.id) := by
        show (db.chunks.map (movedChunk fileId retiredId)).map (·.id) = _
        rw [List.map_map]
        exact List.map_congr_left fun c _ => movedChunk_id _ _ c
      rw [hids]
      exact h.chunkNodup
    chunkPosition := by
      intro c hc c' hc' hfile hpos
      obtain ⟨q, hq, rfl⟩ := (hmem c).mp hc
      obtain ⟨q', hq', rfl⟩ := (hmem c').mp hc'
      rw [movedChunk_position, movedChunk_position] at hpos
      suffices hqq : q = q' by rw [hqq]
      apply h.chunkPosition q hq q' hq' _ hpos
      unfold movedChunk at hfile
      split at hfile <;> split at hfile
      · case isTrue.isTrue hq1 hq2 => rw [hq1, hq2]
      · exact absurd hfile.symm (hempty q' hq')
      · exact absurd hfile (hempty q hq)
      · exact hfile
    chunkRange := by
      intro c hc
      obtain ⟨q, hq, rfl⟩ := (hmem c).mp hc
      rw [movedChunk_position]
      exact h.chunkRange q hq
    chunkFile := by
      intro c hc
      obtain ⟨q, hq, rfl⟩ := (hmem c).mp hc
      unfold movedChunk
      split
      · exact hrow
      · exact h.chunkFile q hq
    replicaId := h.replicaId
    replicaChunk := by
      intro r hr
      obtain ⟨q, hq, hid⟩ := h.replicaChunk r hr
      exact ⟨_, (hmem _).mpr ⟨q, hq, rfl⟩, (movedChunk_id _ _ q).trans hid⟩
    replicaChannel := h.replicaChannel
    fileBelow := h.fileBelow
    chunkBelow := by
      intro c hc
      obtain ⟨q, hq, rfl⟩ := (hmem c).mp hc
      rw [movedChunk_id]
      exact h.chunkBelow q hq
    replicaBelow := h.replicaBelow
    channelBelow := h.channelBelow }

lemma retire_ok (h : db.Intact n) {current : FileRow} {retiredPath : Path} {now : Instant}
    (hok : db.retire current n retiredPath now = .ok db') :
    db'.Intact (n + 1) ∧
      (∀ r, r ∈ db'.files ↔ r ∈ db.files ∨ (current.isUploaded = true ∨ db.HasChunks current.id) ∧
        r = retiredRow current n retiredPath now) ∧
      db'.chunks = db.chunks.map (movedChunk current.id n) ∧ db'.replicas = db.replicas ∧
      db'.channels = db.channels ∧ db'.storages = db.storages ∧ db'.workers = db.workers ∧
      ∀ e ∈ db'.events, e ∈ db.events ∨ e.op = .upsert := by
  have hbelow : ∀ c ∈ db.chunks, c.fileId ≠ n := by
    intro c hc hfile
    obtain ⟨f, hf, hid⟩ := h.chunkFile c hc
    exact absurd (h.fileBelow f hf) (by rw [hid, hfile]; exact lt_irrefl n)
  rcases retire_inv hok with ⟨hkeep, rfl⟩ | ⟨hkeep, db₁, hins, rfl⟩
  · refine ⟨h.mono (Nat.le_succ n), ?_, ?_, rfl, rfl, rfl, rfl, fun e he => Or.inl he⟩
    · intro r
      exact ⟨Or.inl, fun hr => hr.resolve_right fun hr => hkeep hr.1⟩
    · refine (List.map_id _).symm.trans (List.map_congr_left fun c hc => ?_)
      exact (if_neg fun hfile => hkeep (Or.inr ⟨c, hc, hfile⟩)).symm
  · have hfiles := fun r => mem_insertFile (r := r) hins
    have hevents := insertFile_events hins
    have hint := h.insertFile hins rfl
    obtain ⟨-, -, -, rfl⟩ := insertFile_ok hins
    refine ⟨hint.moveChunks ⟨_, (hfiles _).mpr (Or.inr rfl), rfl⟩ hbelow, ?_, rfl, rfl, rfl, rfl, rfl, hevents⟩
    intro r
    refine (hfiles r).trans (or_congr_right ?_)
    exact ⟨fun hr => ⟨hkeep, hr⟩, fun hr => hr.2⟩

lemma replaceContent_ok (h : db.Intact n) {fileId : Uuid} {expected : Option ContentHash}
    {retiredPath : Path} {incoming : InFile} {now : Instant}
    (hok : db.replaceContent fileId expected retiredPath incoming n now = .ok db') :
    ∃ current ∈ db.files, current.id = fileId ∧ current.Live ∧ current.contentHash = expected ∧
      db'.Intact (n + 1) ∧
      (∀ r, r ∈ db'.files ↔ r = incomingRow incoming current ∨ r ∈ db.files ∧ r.id ≠ fileId ∨
        (current.isUploaded = true ∨ db.HasChunks fileId) ∧
          r = retiredRow current n retiredPath now) ∧
      db'.chunks = db.chunks.map (movedChunk fileId n) ∧ db'.replicas = db.replicas ∧
      db'.channels = db.channels ∧ db'.storages = db.storages ∧ db'.workers = db.workers ∧
      ∀ e ∈ db'.events, e ∈ db.events ∨ e.op = .upsert := by
  obtain ⟨current, hcur, rfl, hlive, hhash, db₁, hret, hupd⟩ := replaceContent_inv hok
  obtain ⟨hint, hfiles₁, hchunks₁, hreplicas₁, hchannels₁, hst₁, hw₁, hev₁⟩ := retire_ok h hret
  obtain ⟨db₂, hok₂, -, hfiles₂, hchunks₂, hreplicas₂, hchannels₂, hst₂, hw₂, hev₂⟩ :=
    updateById_ok hint.wf current.id (inPlace_incoming incoming)
  rw [hupd] at hok₂
  cases hok₂
  refine ⟨current, hcur, rfl, hlive, hhash, hint.updateById (inPlace_incoming incoming) hupd, ?_,
    hchunks₂.trans hchunks₁, hreplicas₂.trans hreplicas₁, hchannels₂.trans hchannels₁,
    hst₂.trans hst₁, hw₂.trans hw₁, ?_⟩
  · intro r
    rw [hfiles₂]
    have hne : n ≠ current.id := (h.fileBelow current hcur).ne'
    constructor
    · rintro ⟨q, hq, rfl⟩
      rcases (hfiles₁ q).mp hq with hq | ⟨hkeep, rfl⟩
      · by_cases hid : q.id = current.id
        · rw [if_pos hid, h.wf.idUnique q hq current hcur hid]
          exact Or.inl rfl
        · rw [if_neg hid]
          exact Or.inr (Or.inl ⟨hq, hid⟩)
      · exact Or.inr (Or.inr ⟨hkeep, if_neg hne⟩)
    · rintro (rfl | ⟨hr, hid⟩ | ⟨hkeep, rfl⟩)
      · exact ⟨current, (hfiles₁ _).mpr (Or.inl hcur), (if_pos rfl).symm⟩
      · exact ⟨r, (hfiles₁ r).mpr (Or.inl hr), (if_neg hid).symm⟩
      · exact ⟨_, (hfiles₁ _).mpr (Or.inr ⟨hkeep, rfl⟩), (if_neg hne).symm⟩
  · intro e he
    rcases hev₂ e he with he | he
    · exact hev₁ e he
    · exact Or.inr he

/-! ## Statements on chunks and replicas -/

lemma createChunkWithReplica_ok {chunk : FileChunk} {replica : ChunkReplica}
    (hok : db.createChunkWithReplica chunk replica = .ok db') :
    (∀ c ∈ db.chunks, c.id ≠ chunk.id ∧
      ¬ (c.fileId = chunk.fileId ∧ c.position = chunk.position)) ∧
    (∃ f ∈ db.files, f.id = chunk.fileId) ∧ (∃ ch ∈ db.channels, ch.id = replica.channelId) ∧
    db' = { db with chunks := db.chunks ++ [chunk], replicas := db.replicas ++ [replica] } := by
  unfold createChunkWithReplica at hok
  split at hok
  · cases hok
  · case isFalse hfree =>
    split at hok
    · cases hok
    · case isFalse hkeys =>
      split at hok
      · cases hok
      · cases hok
        simp only [not_or, Option.isNone_iff_eq_none] at hkeys
        obtain ⟨f, hf⟩ := Option.ne_none_iff_exists'.mp hkeys.1
        obtain ⟨ch, hch⟩ := Option.ne_none_iff_exists'.mp hkeys.2
        refine ⟨?_, ⟨f, (fileById_some hf).1, (fileById_some hf).2⟩,
          ⟨ch, List.mem_of_find?_eq_some hch, by simpa using List.find?_some hch⟩, rfl⟩
        intro c hc
        exact ⟨fun hid => hfree ⟨c, hc, Or.inl hid⟩, fun hpos => hfree ⟨c, hc, Or.inr hpos⟩⟩

lemma toPosition_range (position : Nat) : 0 ≤ toPosition position ∧ toPosition position ≤ 32767 := by
  unfold toPosition
  omega

lemma Intact.insertChunk (h : db.Intact n) {chunk : FileChunk} (hid : chunk.id < n)
    (hfree : ∀ c ∈ db.chunks, c.id ≠ chunk.id ∧
      ¬ (c.fileId = chunk.fileId ∧ c.position = chunk.position))
    (hfile : ∃ f ∈ db.files, f.id = chunk.fileId)
    (hrange : 0 ≤ chunk.position ∧ chunk.position ≤ 32767) :
    Db.Intact n { db with chunks := db.chunks ++ [chunk] } where
  wf := ⟨h.wf.idUnique, h.wf.aliveUnique, h.wf.storageExists, h.wf.eventsGrow, h.wf.eventsSeen⟩
  chunkNodup := by
    rw [List.map_append]
    refine List.Nodup.append h.chunkNodup (List.nodup_singleton chunk.id) ?_
    intro i hi hi'
    obtain ⟨c, hc, rfl⟩ := List.mem_map.mp hi
    exact (hfree c hc).1 (List.mem_singleton.mp hi')
  chunkPosition := by
    intro c hc c' hc' hf hp
    cases List.mem_append.mp hc with
    | inl hc =>
      cases List.mem_append.mp hc' with
      | inl hc' => exact h.chunkPosition c hc c' hc' hf hp
      | inr hc' =>
        rw [List.mem_singleton.mp hc'] at hf hp
        exact absurd ⟨hf, hp⟩ (hfree c hc).2
    | inr hc =>
      cases List.mem_append.mp hc' with
      | inl hc' =>
        rw [List.mem_singleton.mp hc] at hf hp
        exact absurd ⟨hf.symm, hp.symm⟩ (hfree c' hc').2
      | inr hc' => rw [List.mem_singleton.mp hc, List.mem_singleton.mp hc']
  chunkRange := by
    intro c hc
    cases List.mem_append.mp hc with
    | inl hc => exact h.chunkRange c hc
    | inr hc => rw [List.mem_singleton.mp hc]; exact hrange
  chunkFile := by
    intro c hc
    cases List.mem_append.mp hc with
    | inl hc => exact h.chunkFile c hc
    | inr hc => rw [List.mem_singleton.mp hc]; exact hfile
  replicaId := h.replicaId
  replicaChunk := by
    intro r hr
    obtain ⟨c, hc, hcid⟩ := h.replicaChunk r hr
    exact ⟨c, List.mem_append_left _ hc, hcid⟩
  replicaChannel := h.replicaChannel
  fileBelow := h.fileBelow
  chunkBelow := by
    intro c hc
    cases List.mem_append.mp hc with
    | inl hc => exact h.chunkBelow c hc
    | inr hc => rw [List.mem_singleton.mp hc]; exact hid
  replicaBelow := h.replicaBelow
  channelBelow := h.channelBelow

lemma Intact.appendReplica (h : db.Intact n) {replica : ChunkReplica} (hid : replica.id < n)
    (hfree : ∀ r ∈ db.replicas, r.id ≠ replica.id) (hchunk : ∃ c ∈ db.chunks, c.id = replica.chunkId)
    (hchannel : ∃ ch ∈ db.channels, ch.id = replica.channelId) :
    Db.Intact n { db with replicas := db.replicas ++ [replica] } where
  wf := ⟨h.wf.idUnique, h.wf.aliveUnique, h.wf.storageExists, h.wf.eventsGrow, h.wf.eventsSeen⟩
  chunkNodup := h.chunkNodup
  chunkPosition := h.chunkPosition
  chunkRange := h.chunkRange
  chunkFile := h.chunkFile
  replicaId := by
    intro r hr r' hr' heq
    cases List.mem_append.mp hr with
    | inl hr =>
      cases List.mem_append.mp hr' with
      | inl hr' => exact h.replicaId r hr r' hr' heq
      | inr hr' => exact absurd (heq.trans (congrArg _ (List.mem_singleton.mp hr'))) (hfree r hr)
    | inr hr =>
      cases List.mem_append.mp hr' with
      | inl hr' =>
        exact absurd (heq.symm.trans (congrArg _ (List.mem_singleton.mp hr))) (hfree r' hr')
      | inr hr' => rw [List.mem_singleton.mp hr, List.mem_singleton.mp hr']
  replicaChunk := by
    intro r hr
    cases List.mem_append.mp hr with
    | inl hr => exact h.replicaChunk r hr
    | inr hr => rw [List.mem_singleton.mp hr]; exact hchunk
  replicaChannel := by
    intro r hr
    cases List.mem_append.mp hr with
    | inl hr => exact h.replicaChannel r hr
    | inr hr => rw [List.mem_singleton.mp hr]; exact hchannel
  fileBelow := h.fileBelow
  chunkBelow := h.chunkBelow
  replicaBelow := by
    intro r hr
    cases List.mem_append.mp hr with
    | inl hr => exact h.replicaBelow r hr
    | inr hr => rw [List.mem_singleton.mp hr]; exact hid
  channelBelow := h.channelBelow

lemma Intact.createChunkWithReplica (h : db.Intact n) {fileId channelId : Uuid} {position : Int}
    {telegramFileId : String} {messageId : Int} (hrange : 0 ≤ position ∧ position ≤ 32767)
    (hok : db.createChunkWithReplica ⟨n, fileId, position⟩
      (.newUploaded (n + 1) n channelId telegramFileId messageId) = .ok db') :
    db'.Intact (n + 2) := by
  obtain ⟨hfree, hfile, hchannel, rfl⟩ := createChunkWithReplica_ok hok
  have hchunk := (h.mono (Nat.le_add_right n 2)).insertChunk (Nat.lt_add_of_pos_right (by decide))
    hfree hfile hrange
  refine hchunk.appendReplica (Nat.lt_succ_self (n + 1)) ?_ ?_ hchannel
  · exact fun r hr => (Nat.lt_succ_of_lt (h.replicaBelow r hr)).ne
  · exact ⟨_, List.mem_append_right _ (List.mem_singleton_self _), rfl⟩

lemma length_newPendings (next : Uuid) (pairs : List (Uuid × Uuid)) :
    (newPendings next pairs).length = pairs.length := by
  induction pairs generalizing next with
  | nil => rfl
  | cons pair pairs ih => exact congrArg (· + 1) (ih (next + 1))

lemma insertReplica_ok {replica : ChunkReplica} (hok : db.insertReplica replica = .ok db') :
    db' = db ∨ (∀ r ∈ db.replicas, r.id ≠ replica.id) ∧ (∃ c ∈ db.chunks, c.id = replica.chunkId) ∧
      (∃ ch ∈ db.channels, ch.id = replica.channelId) ∧
      db' = { db with replicas := db.replicas ++ [replica] } := by
  unfold insertReplica at hok
  split at hok
  · cases hok
    exact Or.inl rfl
  · case isFalse hfree =>
    split at hok
    · cases hok
    · case isFalse hkeys =>
      cases hok
      simp only [not_or, Option.isNone_iff_eq_none, not_forall, not_not] at hkeys
      obtain ⟨⟨c, hc, hid⟩, hch⟩ := hkeys
      obtain ⟨ch, hch⟩ := Option.ne_none_iff_exists'.mp hch
      exact Or.inr ⟨fun r hr he => hfree ⟨r, hr, Or.inl he⟩, ⟨c, hc, hid⟩,
        ⟨ch, List.mem_of_find?_eq_some hch, by simpa using List.find?_some hch⟩, rfl⟩

/-- Only new pending replicas separate the two databases. -/
structure Requested (db db' : Db) : Prop where
  files : db'.files = db.files
  chunks : db'.chunks = db.chunks
  channels : db'.channels = db.channels
  storages : db'.storages = db.storages
  events : db'.events = db.events
  kept : ∀ r ∈ db.replicas, r ∈ db'.replicas
  pending : ∀ r ∈ db'.replicas, r ∈ db.replicas ∨ r.status = .pending

lemma Requested.refl (db : Db) : Requested db db :=
  ⟨rfl, rfl, rfl, rfl, rfl, fun _ h => h, fun _ h => Or.inl h⟩

lemma Intact.insertReplica_of_lt (h : db.Intact n) {replica : ChunkReplica} (hid : replica.id < n)
    (hok : db.insertReplica replica = .ok db') : db'.Intact n := by
  rcases insertReplica_ok hok with rfl | ⟨hfree, hchunk, hchannel, rfl⟩
  · exact h
  · exact h.appendReplica hid hfree hchunk hchannel

lemma Intact.insertReplica (h : db.Intact n) {chunkId channelId : Uuid}
    (hok : db.insertReplica (.newPending n chunkId channelId) = .ok db') :
    db'.Intact (n + 1) ∧ Requested db db' := by
  refine ⟨(h.mono (Nat.le_succ n)).insertReplica_of_lt (Nat.lt_succ_self n) hok, ?_⟩
  rcases insertReplica_ok hok with rfl | ⟨-, -, -, rfl⟩
  · exact Requested.refl db'
  · refine ⟨rfl, rfl, rfl, rfl, rfl, fun r hr => List.mem_append_left _ hr, ?_⟩
    intro r hr
    cases List.mem_append.mp hr with
    | inl hr => exact Or.inl hr
    | inr hr => rw [List.mem_singleton.mp hr]; exact Or.inr rfl

lemma Intact.insertReplicas (h : db.Intact n) {pairs : List (Uuid × Uuid)}
    (hok : db.insertReplicas (newPendings n pairs) = .ok db') :
    db'.Intact (n + pairs.length) ∧ Requested db db' := by
  induction pairs generalizing n db with
  | nil =>
    cases hok
    exact ⟨h, Requested.refl db'⟩
  | cons pair pairs ih =>
    obtain ⟨chunkId, channelId⟩ := pair
    unfold Db.insertReplicas newPendings at hok
    dsimp only at hok
    split at hok
    · case h_1 db₁ hone =>
      obtain ⟨hint₁, hreq₁⟩ := h.insertReplica hone
      obtain ⟨hint, hreq⟩ := ih hint₁ hok
      refine ⟨hint.mono (Nat.le_of_eq ?_), ?_⟩
      · rw [List.length_cons, Nat.add_right_comm, Nat.add_assoc]
      refine ⟨hreq.files.trans hreq₁.files, hreq.chunks.trans hreq₁.chunks,
        hreq.channels.trans hreq₁.channels, hreq.storages.trans hreq₁.storages,
        hreq.events.trans hreq₁.events, fun r hr => hreq.kept r (hreq₁.kept r hr), ?_⟩
      intro r hr
      rcases hreq.pending r hr with hr | hr
      · exact hreq₁.pending r hr
      · exact Or.inr hr
    · cases hok

lemma Intact.insertBatch (h : db.Intact n) {maxVariables : Nat} {pairs : List (Uuid × Uuid)}
    (hok : db.insertBatch maxVariables (newPendings n pairs) = .ok db') :
    db'.Intact (n + pairs.length) ∧ Requested db db' := by
  unfold Db.insertBatch at hok
  split at hok
  · cases hok
    exact ⟨h.mono (Nat.le_add_right n _), Requested.refl db⟩
  · split at hok
    · cases hok
    · exact h.insertReplicas hok

lemma Intact.enqueueForChannel (h : db.Intact n) (maxVariables : Nat) (storageId channelId : Uuid) :
    (db.enqueueForChannel maxVariables n storageId channelId).1.Intact
        (db.enqueueForChannel maxVariables n storageId channelId).2 ∧
      n ≤ (db.enqueueForChannel maxVariables n storageId channelId).2 ∧
      Requested db (db.enqueueForChannel maxVariables n storageId channelId).1 := by
  simp only [Db.enqueueForChannel, length_newPendings]
  split
  · case h_1 db' hok =>
    obtain ⟨hint, hreq⟩ := h.insertBatch hok
    exact ⟨hint, Nat.le_add_right n _, hreq⟩
  · exact ⟨h.mono (Nat.le_add_right n _), Nat.le_add_right n _, Requested.refl db⟩

/-! ## Edits of the channels -/

/-- What an edit of the channels leaves: the files, and every uploaded replica whose channel is still
    there. A new channel has an id from `n` on. -/
structure Edited (n : Uuid) (db db' : Db) : Prop where
  files : db'.files = db.files
  chunks : db'.chunks = db.chunks
  events : db'.events = db.events
  storages : ∀ s, db'.HasStorage s ↔ db.HasStorage s
  kept : ∀ r ∈ db.replicas, r.status = .uploaded →
    r ∈ db'.replicas ∨ ∀ ch ∈ db'.channels, ch.id ≠ r.channelId
  channels : ∀ ch ∈ db'.channels, (∃ ch' ∈ db.channels, ch'.id = ch.id) ∨ n ≤ ch.id
  uploaded : ∀ r ∈ db'.replicas, r.status = .uploaded → r ∈ db.replicas

lemma Edited.refl (n : Uuid) (db : Db) : Edited n db db :=
  ⟨rfl, rfl, rfl, fun _ => Iff.rfl, fun _ hr _ => Or.inl hr, fun ch hch => Or.inl ⟨ch, hch, rfl⟩,
    fun _ hr _ => hr⟩

lemma Edited.request {db'' : Db} (h : Edited n db db') (hreq : Requested db' db'') : Edited n db db'' where
  files := hreq.files.trans h.files
  chunks := hreq.chunks.trans h.chunks
  events := hreq.events.trans h.events
  storages := by
    intro s
    rw [← h.storages s, HasStorage, HasStorage, hreq.storages]
  kept := by
    intro r hr hup
    rcases h.kept r hr hup with hk | hk
    · exact Or.inl (hreq.kept r hk)
    · exact Or.inr (hreq.channels ▸ hk)
  channels := hreq.channels ▸ h.channels
  uploaded := by
    intro r hr hup
    rcases hreq.pending r hr with hr | hpend
    · exact h.uploaded r hr hup
    · rw [hup] at hpend
      cases hpend

lemma Intact.edit (h : db.Intact n) {storages : List Storage} {workers : List StorageWorker}
    {channels : List StorageChannel} {replicas : List ChunkReplica}
    (hst : ∀ s, db.HasStorage s → ∃ q ∈ storages, q.id = s)
    (hrep : ∀ r ∈ replicas, ∃ q ∈ db.replicas, q.id = r.id ∧ q.chunkId = r.chunkId)
    (hone : ∀ r ∈ replicas, ∀ r' ∈ replicas, r.id = r'.id → r = r')
    (hch : ∀ r ∈ replicas, ∃ ch ∈ channels, ch.id = r.channelId)
    (hbelow : ∀ ch ∈ channels, ch.id < n) :
    Db.Intact n { db with
      storages := storages, workers := workers, channels := channels, replicas := replicas } where
  wf := ⟨h.wf.idUnique, h.wf.aliveUnique, fun r hr => hst _ (h.wf.storageExists r hr),
    h.wf.eventsGrow, h.wf.eventsSeen⟩
  chunkNodup := h.chunkNodup
  chunkPosition := h.chunkPosition
  chunkRange := h.chunkRange
  chunkFile := h.chunkFile
  replicaId := hone
  replicaChunk := by
    intro r hr
    obtain ⟨q, hq, -, hchunk⟩ := hrep r hr
    rw [← hchunk]
    exact h.replicaChunk q hq
  replicaChannel := hch
  fileBelow := h.fileBelow
  chunkBelow := h.chunkBelow
  replicaBelow := by
    intro r hr
    obtain ⟨q, hq, hid, -⟩ := hrep r hr
    rw [← hid]
    exact h.replicaBelow q hq
  channelBelow := hbelow

lemma setPrimaryPosition_spec (h : db.Intact n) (storageId : Uuid) (position : Int) :
    (db.setPrimaryPosition storageId position).Intact n ∧
      Edited n db (db.setPrimaryPosition storageId position) ∧
      (db.setPrimaryPosition storageId position).channels = db.channels := by
  have hst : ∀ s, (db.setPrimaryPosition storageId position).HasStorage s ↔ db.HasStorage s := by
    intro s
    simp only [HasStorage, setPrimaryPosition, List.mem_map]
    constructor
    · rintro ⟨q, ⟨q', hq', rfl⟩, rfl⟩
      exact ⟨q', hq', by split <;> rfl⟩
    · rintro ⟨q, hq, rfl⟩
      exact ⟨_, ⟨q, hq, rfl⟩, by split <;> rfl⟩
  refine ⟨?_, ⟨rfl, rfl, rfl, hst, fun r hr _ => Or.inl hr, fun ch hch => Or.inl ⟨ch, hch, rfl⟩,
    fun r hr _ => hr⟩, rfl⟩
  exact h.edit (fun s hs => (hst s).mpr hs) (fun r hr => ⟨r, hr, rfl, rfl⟩) h.replicaId
    h.replicaChannel h.channelBelow

lemma rotateFrom_spec (h : db.Intact n) (channel : StorageChannel) :
    (db.rotateFrom channel).Intact n ∧ Edited n db (db.rotateFrom channel) ∧
      (db.rotateFrom channel).channels = db.channels := by
  unfold rotateFrom
  split
  · exact ⟨h, Edited.refl _ db, rfl⟩
  · split
    · exact ⟨h, Edited.refl _ db, rfl⟩
    · split
      · exact ⟨h, Edited.refl _ db, rfl⟩
      · exact setPrimaryPosition_spec h _ _

lemma updateChannelRow_spec (h : db.Intact n) (id : Uuid) {f : StorageChannel → StorageChannel}
    (hf : ∀ c, (f c).id = c.id) :
    (db.updateChannelRow id f).Intact n ∧ Edited n db (db.updateChannelRow id f) := by
  have hids : ∀ i, (∃ ch ∈ (db.updateChannelRow id f).channels, ch.id = i) ↔
      ∃ ch ∈ db.channels, ch.id = i := by
    intro i
    simp only [updateChannelRow, List.mem_map]
    constructor
    · rintro ⟨ch, ⟨q, hq, rfl⟩, rfl⟩
      exact ⟨q, hq, by split <;> simp [hf]⟩
    · rintro ⟨ch, hch, rfl⟩
      exact ⟨_, ⟨ch, hch, rfl⟩, by split <;> simp [hf]⟩
  refine ⟨?_, ⟨rfl, rfl, rfl, fun _ => Iff.rfl, fun r hr _ => Or.inl hr,
    fun ch hch => Or.inl ((hids ch.id).mp ⟨ch, hch, rfl⟩), fun r hr _ => hr⟩⟩
  refine h.edit (fun s hs => hs) (fun r hr => ⟨r, hr, rfl, rfl⟩) h.replicaId
    (fun r hr => (hids _).mpr (h.replicaChannel r hr)) ?_
  intro ch hch
  obtain ⟨q, hq, hid⟩ := (hids ch.id).mp ⟨ch, hch, rfl⟩
  rw [← hid]
  exact h.channelBelow q hq

lemma deleteChannel_spec (h : db.Intact n) (id : Uuid) :
    (db.deleteChannel id).Intact n ∧ Edited n db (db.deleteChannel id) := by
  refine ⟨?_, ⟨rfl, rfl, rfl, fun _ => Iff.rfl, ?_,
    fun ch hch => Or.inl ⟨ch, List.mem_of_mem_filter hch, rfl⟩,
    fun r hr _ => List.mem_of_mem_filter hr⟩⟩
  · refine h.edit (fun s hs => hs) (fun r hr => ⟨r, List.mem_of_mem_filter hr, rfl, rfl⟩) ?_ ?_
      (fun ch hch => h.channelBelow ch (List.mem_of_mem_filter hch))
    · intro r hr r' hr'
      exact h.replicaId r (List.mem_of_mem_filter hr) r' (List.mem_of_mem_filter hr')
    · intro r hr
      obtain ⟨hr, hne⟩ := List.mem_filter.mp hr
      obtain ⟨ch, hch, hid⟩ := h.replicaChannel r hr
      refine ⟨ch, List.mem_filter.mpr ⟨hch, ?_⟩, hid⟩
      rwa [hid]
  · intro r hr _
    by_cases hid : r.channelId = id
    · right
      intro ch hch
      have hne := (List.mem_filter.mp hch).2
      simp only [decide_not, Bool.not_eq_true', decide_eq_false_iff_not] at hne
      rw [hid]
      exact hne
    · exact Or.inl (List.mem_filter.mpr ⟨hr, by simpa using hid⟩)

lemma Edited.trans {db'' : Db} (h : Edited n db db') (h' : Edited n db' db'')
    (hgone : ∀ ch ∈ db''.channels, ∃ ch' ∈ db'.channels, ch'.id = ch.id) : Edited n db db'' where
  channels := by
    intro ch hch
    obtain ⟨ch', hch', hid⟩ := hgone ch hch
    rw [← hid]
    exact h.channels ch' hch'
  files := h'.files.trans h.files
  chunks := h'.chunks.trans h.chunks
  events := h'.events.trans h.events
  storages := fun s => (h'.storages s).trans (h.storages s)
  kept := by
    intro r hr hup
    rcases h.kept r hr hup with hk | hk
    · exact h'.kept r hk hup
    · right
      intro ch hch
      obtain ⟨ch', hch', hid⟩ := hgone ch hch
      rw [← hid]
      exact hk ch' hch'
  uploaded := fun r hr hup => h.uploaded r (h'.uploaded r hr hup) hup

lemma removeChannel_spec (h : db.Intact n) (storageId channelId : Uuid) :
    (db.removeChannel storageId channelId).Intact n ∧
      Edited n db (db.removeChannel storageId channelId) := by
  unfold removeChannel
  split
  · exact ⟨h, Edited.refl _ db⟩
  · case h_2 channel hfind =>
    split
    · exact ⟨h, Edited.refl _ db⟩
    · split
      · exact ⟨h, Edited.refl _ db⟩
      · obtain ⟨hint₁, hed₁, -⟩ := rotateFrom_spec h channel
        obtain ⟨hint, hed⟩ := deleteChannel_spec hint₁ channelId
        refine ⟨hint, hed₁.trans hed ?_⟩
        intro ch hch
        exact ⟨ch, List.mem_of_mem_filter hch, rfl⟩

lemma channelDied_spec (h : db.Intact n) (channelId : Uuid) :
    (db.channelDied channelId).Intact n ∧ Edited n db (db.channelDied channelId) := by
  unfold channelDied
  split
  · exact ⟨h, Edited.refl _ db⟩
  · case h_2 channel hfind =>
    obtain ⟨hint₁, hed₁⟩ := updateChannelRow_spec h channelId
      (f := fun c => { c with status := .dead }) fun _ => rfl
    obtain ⟨hint, hed, hch⟩ := rotateFrom_spec hint₁ channel
    refine ⟨hint, hed₁.trans hed ?_⟩
    intro ch hm
    rw [hch] at hm
    exact ⟨ch, hm, rfl⟩

lemma addChannel_spec (h : db.Intact n) (maxVariables : Nat) (storageId : Uuid) (chatId : Int) :
    (db.addChannel maxVariables n storageId chatId).1.Intact
        (db.addChannel maxVariables n storageId chatId).2 ∧
      n ≤ (db.addChannel maxVariables n storageId chatId).2 ∧
      Edited n db (db.addChannel maxVariables n storageId chatId).1 := by
  unfold addChannel
  dsimp only
  split
  · exact ⟨h, Nat.le_refl n, Edited.refl _ db⟩
  · case h_2 position hposition =>
    split
    · exact ⟨h, Nat.le_refl n, Edited.refl _ db⟩
    · have h' := h.mono (Nat.le_succ n)
      have hint₁ : Db.Intact (n + 1) { db with
          channels := db.channels ++ [StorageChannel.mk n storageId position chatId .active] } := by
        refine h'.edit (fun s hs => hs) (fun r hr => ⟨r, hr, rfl, rfl⟩) h'.replicaId ?_ ?_
        · intro r hr
          obtain ⟨ch, hch, hid⟩ := h.replicaChannel r hr
          exact ⟨ch, List.mem_append_left _ hch, hid⟩
        · intro ch hch
          cases List.mem_append.mp hch with
          | inl hch => exact h'.channelBelow ch hch
          | inr hch => rw [List.mem_singleton.mp hch]; exact Nat.lt_succ_self n
      have hed₁ : Edited n db { db with
          channels := db.channels ++ [StorageChannel.mk n storageId position chatId .active] } :=
        ⟨rfl, rfl, rfl, fun _ => Iff.rfl, fun r hr _ => Or.inl hr, by
          intro ch hch
          cases List.mem_append.mp hch with
          | inl hch => exact Or.inl ⟨ch, hch, rfl⟩
          | inr hch => rw [List.mem_singleton.mp hch]; exact Or.inr (Nat.le_refl n),
          fun r hr _ => hr⟩
      obtain ⟨hint, hle, hreq⟩ := hint₁.enqueueForChannel maxVariables storageId n
      exact ⟨hint, Nat.le_of_succ_le hle, hed₁.request hreq⟩

lemma updateChannel_spec (h : db.Intact n) (maxVariables : Nat) (storageId channelId : Uuid)
    (chatId : Int) :
    (db.updateChannel maxVariables n storageId channelId chatId).1.Intact
        (db.updateChannel maxVariables n storageId channelId chatId).2 ∧
      n ≤ (db.updateChannel maxVariables n storageId channelId chatId).2 ∧
      Edited n db (db.updateChannel maxVariables n storageId channelId chatId).1 := by
  unfold updateChannel
  dsimp only
  split
  · exact ⟨h, Nat.le_refl n, Edited.refl _ db⟩
  · split
    · exact ⟨h, Nat.le_refl n, Edited.refl _ db⟩
    · obtain ⟨hint₁, hed₁⟩ := updateChannelRow_spec h channelId
        (f := fun c => { c with chatId := chatId, status := .active }) fun _ => rfl
      obtain ⟨hint, hle, hreq⟩ := hint₁.enqueueForChannel maxVariables storageId channelId
      exact ⟨hint, hle, hed₁.request hreq⟩

lemma Intact.updateReplicas (h : db.Intact n) {f : ChunkReplica → ChunkReplica}
    (hf : ∀ r, (f r).id = r.id ∧ (f r).chunkId = r.chunkId ∧ (f r).channelId = r.channelId) :
    Db.Intact n { db with replicas := db.replicas.map f } := by
  refine h.edit (fun s hs => hs) ?_ ?_ ?_ h.channelBelow
  · intro r hr
    obtain ⟨q, hq, rfl⟩ := List.mem_map.mp hr
    exact ⟨q, hq, (hf q).1.symm, (hf q).2.1.symm⟩
  · intro r hr r' hr' hid
    obtain ⟨q, hq, rfl⟩ := List.mem_map.mp hr
    obtain ⟨q', hq', rfl⟩ := List.mem_map.mp hr'
    rw [(hf q).1, (hf q').1] at hid
    rw [h.replicaId q hq q' hq' hid]
  · intro r hr
    obtain ⟨q, hq, rfl⟩ := List.mem_map.mp hr
    rw [(hf q).2.2]
    exact h.replicaChannel q hq

end Db

/-! ## Steps of the process -/

def Phase.row : Phase → Option FileRow
  | .waiting row | .purging row | .replacing row | .starting row | .queued row | .sending row _ _ _
  | .marking row _ | .failing row _ | .dropping row _ => some row
  | .looking | .settling | .creating | .answered _ => none

/-- The promises about the database, and the rows under way are live when they are there. -/
structure Process.Intact (σ : Process) : Prop where
  db : σ.db.Intact σ.next
  rowBelow : ∀ u ∈ σ.uploads, ∀ f, u.phase.row = some f → f.id < σ.next
  rowLive : ∀ u ∈ σ.uploads, ∀ f, u.phase.row = some f → ∀ r ∈ σ.db.files, r.id = f.id → r.Live

lemma Turns.row {σ : Process} {r : UploadRequest} {p q : Phase} (h : Turns σ r p q) {f : FileRow}
    (hf : q.row = some f) : p.row = some f ∨ σ.db.liveAt r.storageId r.path = some f := by
  cases h with
  | answer | pass | insert => cases hf
  | wait hfound | resume hfound _ | abandon hfound _ _ _ =>
    cases hf
    exact Or.inr hfound.live
  | displace hlive _ =>
    cases hf
    exact Or.inr hlive
  | stay | resumeLate | abandonLate | queue | failQueued | failSending | failMarking | giveUp =>
    exact Or.inl hf

lemma Phase.row_of_relays {p : Phase} {id : Uuid} (h : p.relays = some id) :
    ∃ f, p.row = some f ∧ f.id = id := by
  cases p <;> simp only [Phase.relays, reduceCtorEq, Option.some.injEq] at h
  all_goals exact ⟨_, rfl, h⟩

namespace Process

variable {σ : Process} {u : Upload} {o : Outcome}

lemma Intact.liveAt (h : σ.Intact) {s : Uuid} {p : Path} {f : FileRow}
    (hf : σ.db.liveAt s p = some f) : f.id < σ.next ∧ ∀ r ∈ σ.db.files, r.id = f.id → r.Live := by
  obtain ⟨hm, -, -, hl⟩ := Db.liveAt_some hf
  refine ⟨h.db.fileBelow f hm, fun r hr hid => ?_⟩
  rw [h.db.wf.idUnique r hr f hm hid]
  exact hl

lemma resolvePrimaryChannel_spec {db db' : Db} {n : Uuid} (h : db.Intact n) {storage : Storage}
    {primary : StorageChannel} {active : List StorageChannel}
    (hok : db.resolvePrimaryChannel storage = .ok (primary, active, db')) :
    db'.Intact n ∧ Db.Edited n db db' ∧ db'.channels = db.channels := by
  unfold Db.resolvePrimaryChannel at hok
  dsimp only at hok
  split at hok
  · cases hok
  · case h_2 primary' hprimary =>
    simp only [Except.ok.injEq, Prod.mk.injEq] at hok
    obtain ⟨-, -, rfl⟩ := hok
    split
    · exact Db.setPrimaryPosition_spec h _ _
    · exact ⟨h, Db.Edited.refl _ db, rfl⟩

lemma db_moves (h : σ.db.Intact σ.next) (hm : Moves σ u o) :
    o.db.Intact o.next ∧ σ.next ≤ o.next := by
  have hpurge : ∀ id purged phase, (σ.purge id purged phase).db.Intact σ.next := by
    intro id purged phase
    cases purged with
    | false => exact h
    | true => exact (Db.purged_hardDeleteIds h [id] []).1
  cases hm with
  | turn ht => exact ⟨h, Nat.le_refl _⟩
  | purge purged | drop purged => exact ⟨hpurge _ purged _, Nat.le_refl _⟩
  | replace hp hok hfile =>
    obtain ⟨current, -, -, -, -, hint, -⟩ := Db.replaceContent_ok h hok
    exact ⟨hint, Nat.le_succ _⟩
  | create hp hok => exact ⟨h.insertFile (Db.createFileRow_ok hok) rfl, Nat.le_succ _⟩
  | plan hp hok => exact ⟨(resolvePrimaryChannel_spec h hok).1, Nat.le_refl _⟩
  | send hp hslice htarget hfresh hok =>
    exact ⟨h.createChunkWithReplica (Db.toPosition_range _) hok, Nat.le_add_right _ 2⟩
  | refuse hp hfresh => exact ⟨h.mono (Nat.le_add_right _ 2), Nat.le_add_right _ 2⟩
  | link hp hreplicas hok =>
    subst hreplicas
    obtain ⟨hint, -⟩ := h.insertBatch hok
    rw [← Db.length_newPendings σ.next] at hint
    exact ⟨hint, Nat.le_add_right _ _⟩
  | linkFails hp => exact ⟨h.mono (Nat.le_add_right _ _), Nat.le_add_right _ _⟩
  | @mark file again db' hp hok =>
    exact ⟨h.updateById Db.inPlace_uploaded hok, Nat.le_refl _⟩

/-- What a turn does to the rows: old ones stay live, the one the request holds is live. -/
lemma Intact.moves (h : σ.Intact) (hu : u ∈ σ.uploads) (hm : Moves σ u o) :
    (∀ r ∈ o.db.files, r.id = σ.next ∨ ∃ q ∈ σ.db.files, q.id = r.id ∧ (q.Live → r.Live)) ∧
      ∀ f, o.phase.row = some f → f.id < o.next ∧ ∀ r ∈ o.db.files, r.id = f.id → r.Live := by
  have hsame : ∀ r ∈ σ.db.files, r.id = σ.next ∨ ∃ q ∈ σ.db.files, q.id = r.id ∧ (q.Live → r.Live) :=
    fun r hr => Or.inr ⟨r, hr, rfl, id⟩
  have hheld : ∀ f, u.phase.row = some f →
      f.id < σ.next ∧ ∀ r ∈ σ.db.files, r.id = f.id → r.Live :=
    fun f hf => ⟨h.rowBelow u hu f hf, h.rowLive u hu f hf⟩
  have hpurge : ∀ id purged phase, ∀ r ∈ (σ.purge id purged phase).db.files, r ∈ σ.db.files := by
    intro id purged phase
    cases purged with
    | false => exact fun r hr => hr
    | true => exact fun r hr => (((Db.purged_hardDeleteIds h.db [id] []).2.files r).mp hr).1
  cases hm with
  | turn ht =>
    refine ⟨hsame, ?_⟩
    intro f hf
    cases ht.row hf with
    | inl hf => exact hheld f hf
    | inr hlive => exact h.liveAt hlive
  | purge purged hp =>
    exact ⟨fun r hr => hsame r (hpurge _ purged .settling r hr), fun f hf => by cases hf⟩
  | @drop file e purged hp =>
    exact ⟨fun r hr => hsame r (hpurge file.id purged (.answered (.error e)) r hr),
      fun f hf => by cases hf⟩
  | @replace existing now stamp db' file hp hok hfile =>
    obtain ⟨current, hcur, hid, hlive, -, hint, hfiles, -⟩ := Db.replaceContent_ok h.db hok
    constructor
    · intro r hr
      rcases (hfiles r).mp hr with rfl | ⟨hr, -⟩ | ⟨-, rfl⟩
      · exact Or.inr ⟨current, hcur, rfl, fun _ => hlive⟩
      · exact hsame r hr
      · exact Or.inl rfl
    · intro f hf
      cases hf
      obtain ⟨-, hfid⟩ := Db.fileById_some hfile
      rw [hfid]
      refine ⟨Nat.lt_succ_of_lt (hheld existing (by rw [hp]; rfl)).1, ?_⟩
      intro r hr hrid
      rcases (hfiles r).mp hr with rfl | ⟨-, hne⟩ | ⟨-, rfl⟩
      · exact hlive
      · exact absurd hrid hne
      · exact absurd hrid (by rw [← hid]; exact (h.db.fileBelow current hcur).ne')
  | @create path db' hp hok =>
    have hins := Db.createFileRow_ok hok
    constructor
    · intro r hr
      rcases (Db.mem_insertFile hins).mp hr with hr | rfl
      · exact hsame r hr
      · exact Or.inl rfl
    · intro f hf
      cases hf
      refine ⟨Nat.lt_succ_self _, ?_⟩
      intro r hr hrid
      rcases (Db.mem_insertFile hins).mp hr with hr | rfl
      · exact absurd hrid (h.db.fileBelow r hr).ne
      · rfl
  | @plan file storage primary active db' hp hok =>
    obtain ⟨-, hed, -⟩ := resolvePrimaryChannel_spec h.db hok
    constructor
    · intro r hr
      exact hsame r (hed.files ▸ hr)
    · intro f hf
      cases hf
      rw [hed.files]
      exact hheld _ (by rw [hp]; rfl)
  | send hp hslice htarget hfresh hok =>
    obtain ⟨-, -, -, rfl⟩ := Db.createChunkWithReplica_ok hok
    refine ⟨hsame, ?_⟩
    intro f hf
    cases hf
    obtain ⟨hlt, hlive⟩ := hheld _ (by rw [hp]; rfl)
    exact ⟨Nat.lt_add_right 2 hlt, hlive⟩
  | refuse hp hfresh =>
    refine ⟨hsame, ?_⟩
    intro f hf
    cases hf
    obtain ⟨hlt, hlive⟩ := hheld _ (by rw [hp]; rfl)
    exact ⟨Nat.lt_add_right 2 hlt, hlive⟩
  | link hp hreplicas hok =>
    subst hreplicas
    obtain ⟨-, hreq⟩ := h.db.insertBatch hok
    constructor
    · intro r hr
      exact hsame r (hreq.files ▸ hr)
    · intro f hf
      cases hf
      obtain ⟨hlt, hlive⟩ := hheld _ (by rw [hp]; rfl)
      rw [hreq.files]
      exact ⟨Nat.lt_add_right _ hlt, hlive⟩
  | linkFails hp =>
    refine ⟨hsame, ?_⟩
    intro f hf
    cases hf
    obtain ⟨hlt, hlive⟩ := hheld _ (by rw [hp]; rfl)
    exact ⟨Nat.lt_add_right _ hlt, hlive⟩
  | @mark file again db' hp hok =>
    obtain ⟨db₁, hok₁, -, hfiles, -⟩ := Db.updateById_ok h.db.wf file.id Db.inPlace_uploaded
    rw [Db.setAsUploaded, hok₁] at hok
    cases hok
    constructor
    · intro r hr
      obtain ⟨q, hq, rfl⟩ := (hfiles r).mp hr
      refine Or.inr ⟨q, hq, ?_, ?_⟩ <;> split <;> first | rfl | exact id
    · intro f hf
      have hff : f = file := by
        cases again <;> cases hf
        rfl
      subst hff
      obtain ⟨hlt, hlive⟩ := hheld f (by rw [hp]; rfl)
      refine ⟨hlt, ?_⟩
      intro r hr hrid
      obtain ⟨q, hq, rfl⟩ := (hfiles r).mp hr
      split at hrid
      · case isTrue hqid =>
        rw [if_pos hqid]
        exact hlive q hq hqid
      · case isFalse hqid => exact absurd hrid hqid

/-- Where a row comes from that a turn of a request leaves. -/
inductive RowFrom (σ : Process) (r : UploadRequest) : FileRow → Prop where
  | old {row} (h : row ∈ σ.db.files) : RowFrom σ r row
  | uploaded {row} (h : row ∈ σ.db.files) : RowFrom σ r { row with isUploaded := true }
  | incoming {row} (h : row ∈ σ.db.files) : RowFrom σ r (Db.incomingRow r.inFile row)
  | retired {row} (retiredPath now) (h : row ∈ σ.db.files) :
      RowFrom σ r (Db.retiredRow row σ.next retiredPath now)
  | created (path) : RowFrom σ r (InFile.toRow { r.inFile with path := path } σ.next false)

lemma rows_of_moves (h : σ.db.Intact σ.next) (hm : Moves σ u o) : ∀ row ∈ o.db.files,
    RowFrom σ u.request row := by
  have hpurge : ∀ id purged phase, ∀ row ∈ (σ.purge id purged phase).db.files,
      RowFrom σ u.request row := by
    intro id purged phase row hrow
    cases purged with
    | false => exact .old hrow
    | true => exact .old (((Db.purged_hardDeleteIds h [id] []).2.files row).mp hrow).1
  cases hm with
  | turn | refuse | linkFails => exact fun row hrow => .old hrow
  | send _ _ _ _ hok =>
    obtain ⟨-, -, -, rfl⟩ := Db.createChunkWithReplica_ok hok
    exact fun row hrow => .old hrow
  | purge purged | drop purged => exact hpurge _ purged _
  | replace hp hok =>
    obtain ⟨current, hcur, -, -, -, -, hfiles, -⟩ := Db.replaceContent_ok h hok
    intro row hrow
    rcases (hfiles row).mp hrow with rfl | ⟨hrow, -⟩ | ⟨-, rfl⟩
    · exact .incoming hcur
    · exact .old hrow
    · exact .retired _ _ hcur
  | create hp hok =>
    intro row hrow
    rcases (Db.mem_insertFile (Db.createFileRow_ok hok)).mp hrow with hrow | rfl
    · exact .old hrow
    · exact .created _
  | plan hp hok =>
    obtain ⟨-, hed, -⟩ := resolvePrimaryChannel_spec h hok
    exact fun row hrow => .old (hed.files ▸ hrow)
  | link hp hreplicas hok =>
    subst hreplicas
    exact fun row hrow => .old ((h.insertBatch hok).2.files ▸ hrow)
  | @mark file again db' hp hok =>
    obtain ⟨db₁, hok₁, -, hfiles, -⟩ := Db.updateById_ok h.wf file.id Db.inPlace_uploaded
    rw [Db.setAsUploaded, hok₁] at hok
    cases hok
    intro row hrow
    obtain ⟨q, hq, rfl⟩ := (hfiles row).mp hrow
    split
    · exact .uploaded hq
    · exact .old hq

lemma mem_commit {number : Nat} {v : Upload} (h : v ∈ (σ.commit number o).uploads) :
    v ∈ σ.uploads ∧ v.number ≠ number ∨
      ∃ u ∈ σ.uploads, u.number = number ∧ v = { u with phase := o.phase } := by
  obtain ⟨u, hu, rfl⟩ := List.mem_map.mp h
  by_cases hn : u.number = number
  · exact Or.inr ⟨u, hu, hn, if_pos hn⟩
  · rw [if_neg hn]
    exact Or.inl ⟨hu, hn⟩

lemma step_act (σ : Process) (number : Nat) (a : Act) :
    σ.step (.act number a) = σ ∨ ∃ u o, σ.upload? number = some u ∧ u ∈ σ.uploads ∧
      σ.act u a = some o ∧ Moves σ u o ∧ σ.step (.act number a) = σ.commit number o := by
  cases hu : σ.upload? number with
  | none =>
    left
    simp only [step, hu]
  | some u =>
    cases ho : σ.act u a with
    | none =>
      left
      simp only [step, hu, ho]
    | some o =>
      right
      refine ⟨u, o, rfl, List.mem_of_find?_eq_some hu, ho, act_moves ho, ?_⟩
      simp only [step, hu, ho]

lemma step_arrive (σ : Process) (number : Nat) (r : UploadRequest) :
    σ.step (.arrive number r) = σ ∨ σ.upload? number = none ∧ ∃ phase : Phase,
      (phase = .looking ∨ phase = .answered (.error .storageDoesNotHaveWorkers)) ∧
      σ.step (.arrive number r) = { σ with uploads := σ.uploads ++ [⟨number, r, phase, false⟩] } := by
  simp only [Process.step, arrive]
  cases hold : σ.upload? number with
  | some u => exact Or.inl (if_pos rfl)
  | none =>
    refine Or.inr ⟨rfl, _, ?_, if_neg Bool.false_ne_true⟩
    split
    · exact Or.inl rfl
    · exact Or.inr rfl

lemma arrive_writes (σ : Process) (number : Nat) (r : UploadRequest) :
    (σ.step (.arrive number r)).db = σ.db ∧ (σ.step (.arrive number r)).documents = σ.documents ∧
      (σ.step (.arrive number r)).next = σ.next := by
  rcases σ.step_arrive number r with heq | ⟨-, phase, -, heq⟩
  · rw [heq]
    exact ⟨rfl, rfl, rfl⟩
  · rw [heq]
    exact ⟨rfl, rfl, rfl⟩

/-- A task that is aborted writes nothing, and its request goes on in its phase or ends. -/
structure Left (σ τ : Process) : Prop where
  db : τ.db = σ.db
  documents : τ.documents = σ.documents
  next : τ.next = σ.next
  uploads : ∀ v ∈ τ.uploads, ∃ u ∈ σ.uploads, u.number = v.number ∧ u.request = v.request ∧
    (v.phase = u.phase ∨ v.phase = .answered (.error .unknown)) ∧
    (v.standing = u.standing ∨ v.standing = .answered (.error .unknown))

lemma standing_gone (number : Nat) (r : UploadRequest) (phase : Phase) (gone : Bool) :
    (Upload.mk number r phase true).standing = (Upload.mk number r phase gone).standing ∨
      (Upload.mk number r phase true).standing = .answered (.error .unknown) := by
  cases phase with
  | marking file again =>
    cases again with
    | true => exact Or.inr rfl
    | false => exact Or.inl rfl
  | failing | dropping => exact Or.inr rfl
  | _ => exact Or.inl rfl

lemma left_disconnect (σ : Process) (number : Nat) (handed : Bool) :
    Left σ (σ.disconnect number handed) := by
  have hrefl : Left σ σ := ⟨rfl, rfl, rfl, fun v hv => ⟨v, hv, rfl, rfl, Or.inl rfl, Or.inl rfl⟩⟩
  unfold disconnect
  split
  · exact hrefl
  · split
    · exact hrefl
    · refine ⟨rfl, rfl, rfl, fun v hv => ?_⟩
      obtain ⟨u, hu, rfl⟩ := List.mem_map.mp hv
      refine ⟨u, hu, ?_⟩
      split
      · refine ⟨rfl, rfl, ?_⟩
        dsimp only
        split
        · exact ⟨Or.inl rfl, standing_gone u.number u.request u.phase u.gone⟩
        · exact ⟨Or.inr rfl, Or.inr rfl⟩
      · exact ⟨rfl, rfl, Or.inl rfl, Or.inl rfl⟩

def Numbered (σ : Process) : Prop :=
  ∀ u ∈ σ.uploads, ∀ v ∈ σ.uploads, u.number = v.number → u = v

lemma edit_requests (σ : Process) (e : Edit) :
    (σ.edit e).uploads = σ.uploads ∧ (σ.edit e).inFlight = σ.inFlight := by
  cases e with
  | copyFailed | copied =>
    unfold edit
    dsimp only
    split <;> exact ⟨rfl, rfl⟩
  | reuploaded =>
    unfold edit
    dsimp only
    split
    · split <;> exact ⟨rfl, rfl⟩
    · exact ⟨rfl, rfl⟩
  | _ => exact ⟨rfl, rfl⟩

lemma numbered_step (h : σ.Numbered) (a : Step) : (σ.step a).Numbered := by
  unfold Numbered at h ⊢
  cases a with
  | arrive number r =>
    rcases σ.step_arrive number r with heq | ⟨hnew, phase, -, heq⟩
    · rw [heq]
      exact h
    · have hother : ∀ u ∈ σ.uploads, u.number ≠ number := by
        intro u hu
        simpa using List.find?_eq_none.mp hnew u hu
      rw [heq]
      intro u hu v hv heq
      cases List.mem_append.mp hu with
      | inl hu =>
        cases List.mem_append.mp hv with
        | inl hv => exact h u hu v hv heq
        | inr hv => exact absurd (heq.trans (by rw [List.mem_singleton.mp hv])) (hother u hu)
      | inr hu =>
        cases List.mem_append.mp hv with
        | inl hv => exact absurd (heq.symm.trans (by rw [List.mem_singleton.mp hu])) (hother v hv)
        | inr hv => rw [List.mem_singleton.mp hu, List.mem_singleton.mp hv]
  | act number a =>
    rcases σ.step_act number a with heq | ⟨u, o, -, hu, -, -, heq⟩
    · rw [heq]
      exact h
    · rw [heq]
      intro v hv w hw hvw
      rcases mem_commit hv with ⟨hv, hvn⟩ | ⟨v', hv', hvn, rfl⟩
      · rcases mem_commit hw with ⟨hw, -⟩ | ⟨w', -, hwn, rfl⟩
        · exact h v hv w hw hvw
        · exact absurd (hvw.trans hwn) hvn
      · rcases mem_commit hw with ⟨hw, hwn⟩ | ⟨w', hw', -, rfl⟩
        · exact absurd (hvw.symm.trans hvn) hwn
        · rw [h v' hv' w' hw' hvw]
  | disconnect number handed =>
    unfold step disconnect
    dsimp only
    split
    · exact h
    · split
      · exact h
      · intro u hu v hv heq
        obtain ⟨u', hu', rfl⟩ := List.mem_map.mp hu
        obtain ⟨v', hv', rfl⟩ := List.mem_map.mp hv
        rw [apply_ite Upload.number, apply_ite Upload.number, ite_self, ite_self] at heq
        rw [h u' hu' v' hv' heq]
  | edit e =>
    rw [step, (edit_requests σ e).1]
    exact h
  | restart order => exact fun u hu => absurd hu List.not_mem_nil

/-- What an edit of the channels keeps: the files, and every readable replica whose channel stays. -/
structure Tuned (σ τ : Process) : Prop where
  intact : τ.db.Intact τ.next
  next_le : σ.next ≤ τ.next
  uploads : τ.uploads = σ.uploads
  files : τ.db.files = σ.db.files
  chunks : τ.db.chunks = σ.db.chunks
  events : τ.db.events = σ.db.events
  kept : ∀ r ∈ σ.db.replicas, r.status = .uploaded →
    r ∈ τ.db.replicas ∨ ∀ ch ∈ τ.db.channels, ch.id ≠ r.channelId
  channels : ∀ ch ∈ τ.db.channels, (∃ ch' ∈ σ.db.channels, ch'.id = ch.id) ∨ σ.next ≤ ch.id

lemma tuned_withDb {edited : Db × Uuid} (hint : edited.1.Intact edited.2)
    (hle : σ.next ≤ edited.2) (hed : Db.Edited σ.next σ.db edited.1) : Tuned σ (σ.withDb edited) where
  intact := hint
  next_le := hle
  uploads := rfl
  files := hed.files
  chunks := hed.chunks
  events := hed.events
  kept := hed.kept
  channels := hed.channels

lemma tuned_updateReplica (h : σ.db.Intact σ.next) {job : ChunkReplica} (hjob : σ.db.IsJob job)
    {f : ChunkReplica → ChunkReplica}
    (hf : ∀ r, (f r).id = r.id ∧ (f r).chunkId = r.chunkId ∧ (f r).channelId = r.channelId)
    (documents : List (String × Bytes)) :
    Tuned σ { σ with documents := documents, db := σ.db.updateReplica job.id f } where
  intact := by
    refine h.updateReplicas fun r => ?_
    split
    · exact hf r
    · exact ⟨rfl, rfl, rfl⟩
  next_le := Nat.le_refl _
  uploads := rfl
  files := rfl
  chunks := rfl
  events := rfl
  kept := by
    intro r hr hup
    left
    refine List.mem_map.mpr ⟨r, hr, if_neg ?_⟩
    intro hid
    rw [h.replicaId r hr job hjob.1 hid] at hup
    exact hjob.2.1 hup
  channels := fun ch hch => Or.inl ⟨ch, hch, rfl⟩

lemma tuned_refl (h : σ.db.Intact σ.next) : Tuned σ σ :=
  ⟨h, Nat.le_refl _, rfl, rfl, rfl, rfl, fun _ hr _ => Or.inl hr,
    fun ch hch => Or.inl ⟨ch, hch, rfl⟩⟩

lemma tuned_edit (h : σ.db.Intact σ.next) (e : Edit) : Tuned σ (σ.edit e) := by
  cases e with
  | addChannel storageId chatId =>
    obtain ⟨hint, hle, hed⟩ := Db.addChannel_spec h σ.maxVariables storageId chatId
    exact tuned_withDb hint hle hed
  | updateChannel storageId channelId chatId =>
    obtain ⟨hint, hle, hed⟩ := Db.updateChannel_spec h σ.maxVariables storageId channelId chatId
    exact tuned_withDb hint hle hed
  | removeChannel storageId channelId =>
    obtain ⟨hint, hed⟩ := Db.removeChannel_spec h storageId channelId
    exact tuned_withDb hint (Nat.le_refl _) hed
  | channelDied channelId =>
    obtain ⟨hint, hed⟩ := Db.channelDied_spec h channelId
    exact tuned_withDb hint (Nat.le_refl _) hed
  | setWorkers workers =>
    refine ⟨?_, Nat.le_refl _, rfl, rfl, rfl, rfl, fun _ hr _ => Or.inl hr,
      fun ch hch => Or.inl ⟨ch, hch, rfl⟩⟩
    exact h.edit (fun s hs => hs) (fun r hr => ⟨r, hr, rfl, rfl⟩) h.replicaId
      h.replicaChannel h.channelBelow
  | retryFailed storageId =>
    refine ⟨?_, Nat.le_refl _, rfl, rfl, rfl, rfl, ?_, fun ch hch => Or.inl ⟨ch, hch, rfl⟩⟩
    · refine h.updateReplicas fun r => ?_
      split <;> exact ⟨rfl, rfl, rfl⟩
    · intro r hr hup
      left
      refine List.mem_map.mpr ⟨r, hr, if_neg ?_⟩
      rw [hup]
      rintro ⟨hfailed, -⟩
      cases hfailed
  | copyFailed job =>
    unfold edit
    dsimp only
    split
    · case isTrue hjob =>
      refine tuned_updateReplica h hjob ?_ σ.documents
      exact fun _ => ⟨rfl, rfl, rfl⟩
    · exact tuned_refl h
  | copied job source messageId =>
    unfold edit
    dsimp only
    split
    · case isTrue hjob =>
      refine tuned_updateReplica h hjob.1 ?_ σ.documents
      exact fun _ => ⟨rfl, rfl, rfl⟩
    · exact tuned_refl h
  | reuploaded job source telegramFileId messageId =>
    unfold edit
    dsimp only
    split
    · case isTrue hjob =>
      split
      · exact tuned_refl h
      · refine tuned_updateReplica h hjob.1 ?_ _
        exact fun _ => ⟨rfl, rfl, rfl⟩
    · exact tuned_refl h

lemma Intact.write {τ : Process} (h : σ.Intact) (hint : τ.db.Intact τ.next) (hle : σ.next ≤ τ.next)
    (huploads : τ.uploads = σ.uploads) (hfiles : ∀ r ∈ τ.db.files, r.id = σ.next ∨ r ∈ σ.db.files) :
    τ.Intact where
  db := hint
  rowBelow := by
    intro u hu f hf
    exact Nat.lt_of_lt_of_le (h.rowBelow u (huploads ▸ hu) f hf) hle
  rowLive := by
    intro u hu f hf r hr hid
    rw [huploads] at hu
    rcases hfiles r hr with hnew | hr
    · exact absurd (hid.symm.trans hnew) (h.rowBelow u hu f hf).ne
    · exact h.rowLive u hu f hf r hr hid

lemma db_step (h : σ.db.Intact σ.next) (a : Step) :
    (σ.step a).db.Intact (σ.step a).next ∧ σ.next ≤ (σ.step a).next := by
  cases a with
  | arrive number r =>
    obtain ⟨hdb, -, hnext⟩ := σ.arrive_writes number r
    rw [hdb, hnext]
    exact ⟨h, Nat.le_refl _⟩
  | act number a =>
    rcases σ.step_act number a with heq | ⟨u, o, -, -, -, hm, heq⟩
    · rw [heq]
      exact ⟨h, Nat.le_refl _⟩
    · rw [heq]
      exact db_moves h hm
  | disconnect number handed =>
    have hl := left_disconnect σ number handed
    rw [Process.step, hl.db, hl.next]
    exact ⟨h, Nat.le_refl _⟩
  | edit e =>
    have ht := tuned_edit h e
    exact ⟨ht.intact, ht.next_le⟩
  | restart order => exact ⟨(Db.purged_hardDeleteIds h _ order).1, Nat.le_refl _⟩

/-- Every step keeps the promises. -/
theorem Intact.step (h : σ.Intact) (a : Step) : (σ.step a).Intact := by
  cases a with
  | arrive number r =>
    rcases σ.step_arrive number r with heq | ⟨-, phase, hphase, heq⟩
    · rw [heq]
      exact h
    · -- a request that has just arrived holds no row
      have hidle : phase.row = none := by rcases hphase with rfl | rfl <;> rfl
      rw [heq]
      refine ⟨h.db, ?_, ?_⟩
      · intro u hu f hf
        cases List.mem_append.mp hu with
        | inl hu => exact h.rowBelow u hu f hf
        | inr hu =>
          rw [List.mem_singleton.mp hu, hidle] at hf
          cases hf
      · intro u hu f hf
        cases List.mem_append.mp hu with
        | inl hu => exact h.rowLive u hu f hf
        | inr hu =>
          rw [List.mem_singleton.mp hu, hidle] at hf
          cases hf
  | act number a =>
    rcases σ.step_act number a with heq | ⟨u, o, -, hu, -, hm, heq⟩
    · rw [heq]
      exact h
    · rw [heq]
      obtain ⟨hint, hle⟩ := db_moves h.db hm
      obtain ⟨hold, hrow⟩ := h.moves hu hm
      refine ⟨hint, ?_, ?_⟩
      · intro v hv f hf
        rcases mem_commit hv with ⟨hv, -⟩ | ⟨w, hw, -, rfl⟩
        · exact Nat.lt_of_lt_of_le (h.rowBelow v hv f hf) hle
        · exact (hrow f hf).1
      · intro v hv f hf r hr hid
        rcases mem_commit hv with ⟨hv, -⟩ | ⟨w, hw, -, rfl⟩
        · rcases hold r hr with hnew | ⟨q, hq, hqid, hl⟩
          · exact absurd (hnew.symm.trans hid) (h.rowBelow v hv f hf).ne'
          · exact hl (h.rowLive v hv f hf q hq (hqid.trans hid))
        · exact (hrow f hf).2 r hr hid
  | disconnect number handed =>
    have hl := left_disconnect σ number handed
    show (σ.disconnect number handed).Intact
    refine ⟨?_, ?_, ?_⟩
    · rw [hl.db, hl.next]
      exact h.db
    · intro v hv f hf
      obtain ⟨u, hu, -, -, hphase | hphase, -⟩ := hl.uploads v hv
      · rw [hl.next]
        exact h.rowBelow u hu f (hphase ▸ hf)
      · rw [hphase] at hf
        cases hf
    · intro v hv f hf
      obtain ⟨u, hu, -, -, hphase | hphase, -⟩ := hl.uploads v hv
      · rw [hl.db]
        exact h.rowLive u hu f (hphase ▸ hf)
      · rw [hphase] at hf
        cases hf
  | edit e =>
    have ht := tuned_edit h.db e
    exact h.write ht.intact ht.next_le ht.uploads fun r hr => Or.inr (ht.files ▸ hr)
  | restart order =>
    refine ⟨(Db.purged_hardDeleteIds h.db _ order).1, ?_, ?_⟩
    · intro u hu
      exact absurd hu List.not_mem_nil
    · intro u hu
      exact absurd hu List.not_mem_nil

end Process

end Sarca.Server
