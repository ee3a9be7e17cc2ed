import Sarca.Server.Compose
import Sarca.Server.Names

/-!
# Waiting for another attempt

An upload that finds a relay of its own path and hash under way waits until that relay ends, and then goes
on with the row as it was before the wait. While it waits, the server takes any steps: the relay stores the
file, fails with some chunks stored or purges its row, other requests come and go, and users delete rows
(`Process.meanwhile`); only a replacement of the row by another version is left out (`Undisplaced`).

`awakened_lands_iff` says when the request ends `Ok` with a live uploaded row at its path that holds its
bytes. It does not when the row is gone: `resumable` looks at the old row, so that the request relays into
a row that is not there, while the comment beside it promises to keep the file and to upload it. Nor does
it when the row lies in the trash, unless somebody else put the bytes at the path.
-/

namespace Sarca.Server
open Sarca.Lib

/-! ## What happens meanwhile -/

inductive Meanwhile where
  | step (a : Step)
  /-- a user deletes what is live at or under a path -/
  | delete (storageId : Uuid) (path : Path) (now : Instant) (order : List Uuid)
  /-- a user deletes rows for good -/
  | purge (ids order : List Uuid)

def Process.meanwhile (σ : Process) : Meanwhile → Process
  | .step a => σ.step a
  | .delete storageId path now order =>
    match σ.db.delete path storageId now σ.next order with
    | .ok db' => { σ with db := db', next := σ.next + 1 }
    | .error _ => σ
  | .purge ids order => { σ with db := σ.db.hardDeleteIds ids order }

/-- The row is not replaced by another version. -/
def Undisplaced (fileId : Uuid) (σ : Process) : Meanwhile → Prop
  | .step (.act number (.replace _ _)) => ∀ u ∈ σ.upload? number, match u.phase with
    | .replacing existing => existing.id ≠ fileId
    | _ => True
  | _ => True

instance (fileId : Uuid) (σ : Process) (a : Meanwhile) : Decidable (Undisplaced fileId σ a) := by
  induction a using Meanwhile.casesOn with
  | step a =>
    induction a using Step.casesOn with
    | act number a =>
      induction a using Act.casesOn with
      | replace now stamp =>
        refine @decideMem _ _ _ fun u => ?_
        induction u using Upload.casesOn with
        | mk number request phase gone =>
          induction phase using Phase.casesOn with
          | replacing existing => exact instDecidableNot
          | _ => exact isTrue trivial
      | _ => exact isTrue trivial
    | _ => exact isTrue trivial
  | _ => exact isTrue trivial

/-! ## What is asked -/

/-- A row that holds a body: its chunks are the slices, and each can be read. -/
structure Whole (σ : Process) (row : FileRow) (body : Bytes) : Prop where
  holds : Holds σ.db σ.documents row body
  readable : ∀ c ∈ σ.db.chunks, c.fileId = row.id → σ.db.StoredChunk c

/-- A live uploaded row at the path of a request holds its bytes. -/
def Saved (σ : Process) (r : UploadRequest) : Prop :=
  ∃ row, σ.db.liveAt r.storageId r.path = some row ∧ row.contentHash = r.contentHash ∧
    row.isUploaded = true ∧ Whole σ row r.body

/-- The request was answered `Ok`, and its bytes are at its path. -/
structure Landed (number : Nat) (r : UploadRequest) (σ : Process) : Prop where
  answered : ∃ u, σ.upload? number = some u ∧ u.phase = .answered (.ok ())
  saved : Saved σ r

/-- Telegram takes every chunk of a relay of the row, and gives each document an id of its own. -/
structure Accepts (σ : Process) (r : UploadRequest) (existing : FileRow)
    (sends : List (Nat × String × Int)) : Prop where
  active : σ.db.activeChannels r.storageId ≠ []
  once : (sends.map (·.1)).Nodup
  all : ∀ position < existing.chunkTotal, position ∈ sends.map (·.1)
  names : (sends.map (·.2.1)).Nodup
  fresh : ∀ send ∈ sends, send.2.1 ∉ σ.documents.map (·.1)
  unnamed : ∀ send ∈ sends, ∀ q ∈ σ.db.replicas, q.telegramFileId ≠ some send.2.1

/-- What the request needs to find when the wait is at an end: the row it waited for, and
* when it is uploaded, the bytes at the path;
* when it is not, nothing in the way of a relay, and slices of its own bytes so far, or, when the row lies
  in the trash, the bytes at the path. -/
def Lands (σ : Process) (r : UploadRequest) (existing : FileRow) : Prop :=
  match σ.db.fileById existing.id with
  | none => False
  | some row =>
    if row.isUploaded then Saved σ r
    else Relayable σ.db σ.maxVariables row.storageId row.id row.chunkTotal ∧
      if row.Live then Holds σ.db σ.documents row r.body else Saved σ r

/-! ## What the wait leaves of the row -/

structure SameUpload (row row' : FileRow) : Prop where
  storage : row'.storageId = row.storageId
  path : row'.path = row.path
  hash : row'.contentHash = row.contentHash
  size : row'.size = row.size
  chunk : row'.chunkSizeBytes = row.chunkSizeBytes

lemma SameUpload.refl (row : FileRow) : SameUpload row row := ⟨rfl, rfl, rfl, rfl, rfl⟩

lemma SameUpload.chunkTotal {row row' : FileRow} (h : SameUpload row row') :
    row'.chunkTotal = row.chunkTotal := by
  rw [FileRow.chunkTotal, h.size, Process.chunkSizeOf, h.chunk, FileRow.chunkTotal, Process.chunkSizeOf]

/-- The row that is waited for, if it is there, is still the same upload. -/
structure Awaited (existing : FileRow) (σ : Process) : Prop where
  intact : σ.db.Intact σ.next
  below : existing.id < σ.next
  same : ∀ row ∈ σ.db.files, row.id = existing.id → SameUpload existing row

section Wait

variable {db db' : Db} {n : Uuid} {σ : Process} {existing : FileRow}

lemma Db.Intact.replaceFile (h : db.Intact n) {old new : FileRow} (hold : old ∈ db.files)
    (hok : db.replaceFile old new = .ok db') (hid : new.id = old.id) (hst : new.storageId = old.storageId) :
    db'.Intact n := by
  have hwf := h.wf.replaceFile hold hok hid hst
  have hrows := fun r => Db.mem_replaceFile (r := r) h.wf hold hok
  obtain ⟨-, rfl⟩ := Db.replaceFile_ok hok
  exact {
    wf := hwf
    chunkNodup := h.chunkNodup
    chunkPosition := h.chunkPosition
    chunkRange := h.chunkRange
    chunkFile := by
      intro c hc
      obtain ⟨f, hf, hfid⟩ := h.chunkFile c hc
      by_cases hfo : f = old
      · exact ⟨new, (hrows new).mpr (Or.inl rfl), hid.trans (hfo ▸ hfid)⟩
      · exact ⟨f, (hrows f).mpr (Or.inr ⟨hf, hfo⟩), hfid⟩
    replicaId := h.replicaId
    replicaChunk := h.replicaChunk
    replicaChannel := h.replicaChannel
    fileBelow := by
      intro f hf
      cases (hrows f).mp hf with
      | inl hnew => rw [hnew, hid]; exact h.fileBelow old hold
      | inr hf => exact h.fileBelow f hf.1
    chunkBelow := h.chunkBelow
    replicaBelow := h.replicaBelow
    channelBelow := h.channelBelow }

lemma delete_spec (h : db.Intact n) {storageId : Uuid} {path : Path} {now : Instant} {order : List Uuid}
    (hok : db.delete path storageId now n order = .ok db') : db'.Intact (n + 1) ∧
      ∀ r ∈ db'.files, r.id = n ∨ ∃ q ∈ db.files, r = q ∨ r = q.withDeletedAt (some now) := by
  have hkeeps : KeepsKey fun r : FileRow => r.withDeletedAt (some now) := fun _ => ⟨rfl, rfl⟩
  obtain ⟨db₁, hupd, -, hparent⟩ := Db.delete_inv hok
  have hint : db₁.Intact n := by
    refine Db.updateEach_induct (P := fun _ d => d.Intact n) (fun _ _ _ _ hd => hd) ?_ hupd h
    intro id ids d d' old hsome hrep hd
    exact hd.replaceFile (Db.fileById_some hsome).1 hrep (hkeeps old).1 (hkeeps old).2
  have hold : ∀ r ∈ db₁.files, ∃ q ∈ db.files, r = q ∨ r = q.withDeletedAt (some now) := by
    intro r hr
    obtain ⟨q, hq, heq⟩ := Db.mem_updateFiles h.wf hkeeps hupd r hr
    refine ⟨q, hq, ?_⟩
    split at heq
    · exact Or.inr heq
    · exact Or.inl heq
  rcases Db.recreateParent_inv hparent with ⟨rfl, -⟩ | ⟨parent, -, -, hins⟩
  · exact ⟨hint.mono (Nat.le_succ n), fun r hr => Or.inr (hold r hr)⟩
  · refine ⟨hint.insertFile hins rfl, fun r hr => ?_⟩
    cases (Db.mem_insertFile hins).mp hr with
    | inl hr => exact Or.inr (hold r hr)
    | inr hr =>
      left
      rw [hr]
      rfl

lemma Awaited.moves (h : Awaited existing σ) {u : Upload} {o : Outcome} (hm : Moves σ u o)
    (hundisplaced : ∀ f, u.phase = .replacing f → f.id ≠ existing.id) :
    ∀ row ∈ o.db.files, row.id = existing.id → SameUpload existing row := by
  cases hm with
  | @replace f now stamp db' file hp hok hfile =>
    obtain ⟨current, -, hid, -, -, -, hfiles, -⟩ := Db.replaceContent_ok h.intact hok
    intro row hrow hrid
    rcases (hfiles row).mp hrow with rfl | ⟨hrow, -⟩ | ⟨-, rfl⟩
    · exact absurd (hid.symm.trans hrid) (hundisplaced f hp)
    · exact h.same row hrow hrid
    · exact absurd hrid.symm h.below.ne
  | @purge _ purged hp | @drop _ _ purged hp =>
    cases purged with
    | false => exact h.same
    | true =>
      intro row hrow hrid
      exact h.same row (((Db.purged_hardDeleteIds h.intact _ []).2.files row).mp hrow).1 hrid
  | create hp hok =>
    intro row hrow hrid
    cases (Db.mem_insertFile (Db.createFileRow_ok hok)).mp hrow with
    | inl hrow => exact h.same row hrow hrid
    | inr hnew =>
      rw [hnew] at hrid
      exact absurd hrid.symm h.below.ne
  | plan hp hok => exact (Process.resolvePrimaryChannel_spec h.intact hok).2.1.files.symm ▸ h.same
  | send hp hslice htarget hfresh hok =>
    obtain ⟨-, -, -, rfl⟩ := Db.createChunkWithReplica_ok hok
    exact h.same
  | link hp hreplicas hok =>
    subst hreplicas
    exact (h.intact.insertBatch hok).2.files.symm ▸ h.same
  | @mark file again db' hp hok =>
    obtain ⟨db₁, hok₁, -, hfiles, -⟩ := Db.updateById_ok h.intact.wf file.id Db.inPlace_uploaded
    rw [Db.setAsUploaded, hok₁] at hok
    cases hok
    intro row hrow hrid
    obtain ⟨q, hq, rfl⟩ := (hfiles row).mp hrow
    split at hrid
    · case isTrue hqid =>
      rw [if_pos hqid]
      obtain ⟨hst, hpath, hhash, hsize, hchunk⟩ := h.same q hq hrid
      exact ⟨hst, hpath, hhash, hsize, hchunk⟩
    · case isFalse hqid =>
      rw [if_neg hqid]
      exact h.same q hq hrid
  | turn | refuse | linkFails => exact h.same

lemma undisplaced_replacing {number : Nat} {a : Act} {u : Upload} {o : Outcome}
    (hundisplaced : Undisplaced existing.id σ (.step (.act number a))) (hu : σ.upload? number = some u)
    (ho : σ.act u a = some o) {f : FileRow} (hp : u.phase = .replacing f) : f.id ≠ existing.id := by
  cases a <;> simp only [Process.act, hp, reduceCtorEq] at ho
  have hmem := hundisplaced u hu
  rw [hp] at hmem
  exact hmem

lemma Awaited.meanwhile (h : Awaited existing σ) {a : Meanwhile} (hundisplaced : Undisplaced existing.id σ a) :
    Awaited existing (σ.meanwhile a) := by
  cases a with
  | step a =>
    obtain ⟨hint, hle⟩ := Process.db_step h.intact a
    refine ⟨hint, Nat.lt_of_lt_of_le h.below hle, ?_⟩
    show ∀ row ∈ (σ.step a).db.files, _
    cases a with
    | arrive number r =>
      rw [(σ.arrive_writes number r).1]
      exact h.same
    | act number a =>
      rcases σ.step_act number a with heq | ⟨u, o, hu, -, ho, hm, heq⟩
      · rw [heq]
        exact h.same
      · rw [heq]
        exact h.moves hm fun f hp => undisplaced_replacing hundisplaced hu ho hp
    | disconnect number handed =>
      rw [Process.step, (Process.left_disconnect σ number handed).db]
      exact h.same
    | edit e =>
      rw [Process.step, (Process.tuned_edit h.intact e).files]
      exact h.same
    | restart order =>
      intro row hrow hid
      exact h.same row (((Db.purged_hardDeleteIds h.intact _ order).2.files row).mp hrow).1 hid
  | delete storageId path now order =>
    unfold Process.meanwhile
    dsimp only
    split
    · case h_1 db' hok =>
      obtain ⟨hint, hrows⟩ := delete_spec h.intact hok
      refine ⟨hint, Nat.lt_succ_of_lt h.below, fun row hrow hid => ?_⟩
      rcases hrows row hrow with hnew | ⟨q, hq, rfl | rfl⟩
      · exact absurd (hid.symm.trans hnew) h.below.ne
      · exact h.same row hq hid
      · obtain ⟨hst, hpath, hhash, hsize, hchunk⟩ := h.same q hq hid
        exact ⟨hst, hpath, hhash, hsize, hchunk⟩
    · exact h
  | purge ids order =>
    obtain ⟨hint, hp⟩ := Db.purged_hardDeleteIds h.intact ids order
    exact ⟨hint, h.below, fun row hrow hid => h.same row ((hp.files row).mp hrow).1 hid⟩

lemma awaited_look (h : σ.db.Intact σ.next) {number : Nat} {r : UploadRequest}
    (hst : Stands σ number r .looking) (hwait : σ.look r = .waiting existing) :
    Awaited existing (σ.step (.act number .look)) ∧ Found σ r existing ∧ existing.isUploaded = false := by
  have hact : σ.act ⟨number, r, .looking, false⟩ .look = some (σ.turn (.waiting existing)) := by
    simp only [Process.act, hwait]
  obtain ⟨hstep, -⟩ := hst.act hact
  have hfound : Found σ r existing ∧ existing.isUploaded = false := by
    unfold Process.look at hwait
    split at hwait
    · case h_1 hash f hhash hlive =>
      split at hwait
      · case isTrue hsame =>
        split at hwait
        · cases hwait
        · case isFalse hup =>
          split at hwait
          · cases hwait
            exact ⟨⟨hlive, hsame.trans hhash.symm, by rw [hhash]; rfl⟩, Bool.not_eq_true _ ▸ hup⟩
          · unfold Process.resume at hwait
            split at hwait <;> cases hwait
      · cases hwait
    · cases hwait
  obtain ⟨hmem, -⟩ := Db.liveAt_some hfound.1.live
  refine ⟨?_, hfound⟩
  rw [hstep]
  refine ⟨h, h.fileBelow existing hmem, fun row hrow hid => ?_⟩
  rw [h.wf.idUnique row hrow existing hmem hid]
  exact SameUpload.refl existing

end Wait

/-! ## What a relay leaves -/

section Relay

variable {σ τ : Process} {number : Nat} {r : UploadRequest} {existing row : FileRow} {fileId : Uuid}

/-- A turn adds no document but the one it names. -/
lemma documents_act {u : Upload} {a : Act} {o : Outcome} (ho : σ.act u a = some o) :
    ∃ more, o.documents = σ.documents ++ more ∧
      ∀ d ∈ more, ∃ position messageId, a = .send position d.1 messageId := by
  have hquiet : o.documents = σ.documents → ∃ more, o.documents = σ.documents ++ more ∧
      ∀ d ∈ more, ∃ position messageId, a = .send position d.1 messageId :=
    fun heq => ⟨[], heq.trans (List.append_nil _).symm, fun d hd => absurd hd List.not_mem_nil⟩
  cases a with
  | send position telegramFileId messageId =>
    cases hp : u.phase with
    | sending file channels plan ids =>
      simp only [Process.act, hp] at ho
      obtain ⟨-, offset, len, -, target, -, hcase⟩ := Process.send_cases ho
      refine ⟨[(telegramFileId, (u.request.body.drop offset).take len)], ?_, fun d hd => ?_⟩
      · rcases hcase with ⟨e, rfl⟩ | ⟨db', -, rfl⟩ <;> rfl
      · rw [List.mem_singleton.mp hd]
        exact ⟨position, messageId, rfl⟩
    | _ => simp only [Process.act, hp, reduceCtorEq] at ho
  | replace now stamp =>
    cases hp : u.phase <;> simp only [Process.act, hp, reduceCtorEq, Option.some.injEq] at ho
    subst ho
    apply hquiet
    unfold Process.replace
    split
    · rfl
    · split <;> rfl
  | create =>
    cases hp : u.phase <;> simp only [Process.act, hp, reduceCtorEq, Option.some.injEq] at ho
    subst ho
    apply hquiet
    simp only [Process.create]
    split <;> rfl
  | plan =>
    cases hp : u.phase <;> simp only [Process.act, hp, reduceCtorEq, Option.some.injEq] at ho
    subst ho
    apply hquiet
    unfold Process.plan
    split
    · rfl
    · split <;> rfl
  | link =>
    cases hp : u.phase with
    | sending file channels plan ids =>
      cases plan with
      | nil =>
        simp only [Process.act, hp, Option.some.injEq] at ho
        subst ho
        apply hquiet
        simp only [Process.link]
        split <;> rfl
      | cons slice plan => simp only [Process.act, hp, reduceCtorEq] at ho
    | _ => simp only [Process.act, hp, reduceCtorEq] at ho
  | mark =>
    cases hp : u.phase <;> simp only [Process.act, hp, reduceCtorEq, Option.ite_none_left_eq_some] at ho
    obtain ⟨-, ho⟩ := ho
    cases ho
    apply hquiet
    unfold Process.mark
    split <;> rfl
  | count | drop =>
    cases hp : u.phase <;> simp only [Process.act, hp, reduceCtorEq, Option.ite_none_left_eq_some] at ho
    obtain ⟨-, ho⟩ := ho
    cases ho
    exact hquiet rfl
  | _ =>
    cases hp : u.phase <;> simp only [Process.act, hp, reduceCtorEq, Option.some.injEq] at ho
    subst ho
    exact hquiet rfl

lemma documents_run (number : Nat) (acts : List Act) :
    ∃ more, (run Process.step σ (acts.map (.act number))).documents = σ.documents ++ more ∧
      ∀ d ∈ more, ∃ position messageId, .send position d.1 messageId ∈ acts := by
  induction acts generalizing σ with
  | nil => exact ⟨[], (List.append_nil _).symm, fun d hd => absurd hd List.not_mem_nil⟩
  | cons a acts ih =>
    obtain ⟨more, hmore, hnamed⟩ := ih (σ := σ.step (.act number a))
    rw [List.map_cons, run_cons, hmore]
    rcases σ.step_act number a with heq | ⟨u, o, -, -, ho, -, heq⟩
    · rw [heq]
      refine ⟨more, rfl, fun d hd => ?_⟩
      obtain ⟨position, messageId, hmem⟩ := hnamed d hd
      exact ⟨position, messageId, List.mem_cons_of_mem a hmem⟩
    · obtain ⟨first, hfirst, hone⟩ := documents_act ho
      have hdocs : (σ.step (.act number a)).documents = σ.documents ++ first := by rw [heq, ← hfirst]; rfl
      rw [hdocs, List.append_assoc]
      refine ⟨first ++ more, rfl, fun d hd => ?_⟩
      cases List.mem_append.mp hd with
      | inl hd =>
        obtain ⟨position, messageId, rfl⟩ := hone d hd
        exact ⟨position, messageId, List.mem_cons_self⟩
      | inr hd =>
        obtain ⟨position, messageId, hmem⟩ := hnamed d hd
        exact ⟨position, messageId, List.mem_cons_of_mem a hmem⟩

/-- What a relay leaves that was answered `Ok`: its row is uploaded, and new chunk rows belong to it. -/
structure RelayedInto (fileId : Uuid) (σ τ : Process) : Prop where
  files : ∀ f, f ∈ τ.db.files ↔
    ∃ q ∈ σ.db.files, f = if q.id = fileId then { q with isUploaded := true } else q
  chunks : ∀ c ∈ σ.db.chunks, c ∈ τ.db.chunks
  own : ∀ c ∈ τ.db.chunks, c ∈ σ.db.chunks ∨ c.fileId = fileId
  replicas : ∀ q ∈ σ.db.replicas, q ∈ τ.db.replicas
  added : ∀ q ∈ τ.db.replicas, q.status = .uploaded → (∃ c ∈ σ.db.chunks, c.id = q.chunkId) →
    q ∈ σ.db.replicas
  reads : ∀ q ∈ σ.db.replicas, q.read τ.documents = q.read σ.documents

lemma relayed_of_linked {db' : Db} {dealt : List StorageChannel} {qs : List Nat}
    (hsent : Sent fileId dealt σ.db db' qs) (hlinked : Linked fileId db' τ.db)
    {more : List (String × Bytes)} (hmore : τ.documents = σ.documents ++ more)
    (hunnamed : ∀ d ∈ more, ∀ q ∈ σ.db.replicas, q.telegramFileId ≠ some d.1) : RelayedInto fileId σ τ where
  files := by rw [← hsent.files]; exact hlinked.files
  chunks := fun c hc => hlinked.chunks ▸ hsent.chunks c hc
  own := fun c hc => hsent.own c (hlinked.chunks ▸ hc)
  replicas := fun q hq => hlinked.kept q (hsent.replicas q hq)
  added := by
    rintro q hq hup ⟨c, hc, hid⟩
    cases hlinked.pending q hq with
    | inl hq =>
      cases hsent.added q hq with
      | inl hq => exact hq
      | inr hnew => exact absurd hid (hnew c hc)
    | inr hpending => exact absurd (hup.symm.trans hpending) (by decide)
  reads := by
    intro q hq
    unfold ChunkReplica.read
    cases hid : q.telegramFileId with
    | none => rfl
    | some telegramFileId =>
      have hnone : more.lookup telegramFileId = none := by
        rw [List.lookup_eq_none_iff]
        intro d hd
        simp only [bne_iff_ne, ne_eq]
        rintro rfl
        exact hunnamed d hd q hq hid
      rw [Option.bind_some, Option.bind_some, hmore, List.lookup_append, hnone, Option.or_none]

namespace RelayedInto

lemma storedChunk_iff (h : RelayedInto fileId σ τ) {c : FileChunk} (hc : c ∈ σ.db.chunks) :
    τ.db.StoredChunk c ↔ σ.db.StoredChunk c := by
  constructor
  · rintro ⟨q, hq, hqc, hread⟩
    exact ⟨q, h.added q hq hread.1 ⟨c, hc, hqc.symm⟩, hqc, hread⟩
  · rintro ⟨q, hq, hqc⟩
    exact ⟨q, h.replicas q hq, hqc⟩

lemma chunks_iff (h : RelayedInto fileId σ τ) {c : FileChunk} (hne : c.fileId ≠ fileId) :
    c ∈ τ.db.chunks ↔ c ∈ σ.db.chunks :=
  ⟨fun hc => (h.own c hc).resolve_right hne, h.chunks c⟩

lemma whole_iff (h : RelayedInto fileId σ τ) (hne : row.id ≠ fileId) {body : Bytes} :
    Whole τ row body ↔ Whole σ row body := by
  have hchunks : ∀ c, c.fileId = row.id → (c ∈ τ.db.chunks ↔ c ∈ σ.db.chunks) :=
    fun c hfile => h.chunks_iff (hfile ▸ hne)
  constructor
  · intro hw
    refine ⟨hw.holds.stay ?_ fun c hfile => (hchunks c hfile).symm, fun c hc hfile => ?_⟩
    · intro q hq hup _
      exact ⟨q, h.replicas q hq, rfl, hup, fun part hread => (h.reads q hq).symm.trans hread⟩
    · exact (h.storedChunk_iff hc).mp (hw.readable c (h.chunks c hc) hfile)
  · intro hw
    refine ⟨hw.holds.stay ?_ hchunks, fun c hc hfile => ?_⟩
    · intro q hq hup hold
      have hq' := h.added q hq hup hold
      exact ⟨q, hq', rfl, hup, fun part hread => (h.reads q hq').trans hread⟩
    · have hc' := (hchunks c hfile).mp hc
      exact (h.storedChunk_iff hc').mpr (hw.readable c hc' hfile)

lemma saved_iff (h : RelayedInto fileId σ τ) (hσ : σ.db.Wf) (hτ : τ.db.Wf)
    (htrash : ∀ q ∈ σ.db.files, q.id = fileId → ¬ q.Live) : Saved τ r ↔ Saved σ r := by
  constructor
  · rintro ⟨row, hat, hhash, hup, hw⟩
    obtain ⟨hrow, hs, hp, hl⟩ := Db.liveAt_some hat
    obtain ⟨q, hq, heq⟩ := (h.files row).mp hrow
    have hne : q.id ≠ fileId := by
      intro hid
      rw [if_pos hid] at heq
      rw [heq] at hl
      exact htrash q hq hid hl
    rw [if_neg hne] at heq
    subst heq
    exact ⟨row, hs ▸ hp ▸ Db.liveAt_of_mem hσ hq hl, hhash, hup, (h.whole_iff hne).mp hw⟩
  · rintro ⟨row, hat, hhash, hup, hw⟩
    obtain ⟨hrow, hs, hp, hl⟩ := Db.liveAt_some hat
    have hne : row.id ≠ fileId := fun hid => htrash row hrow hid hl
    have hrow' : row ∈ τ.db.files := (h.files row).mpr ⟨row, hrow, (if_neg hne).symm⟩
    exact ⟨row, hs ▸ hp ▸ Db.liveAt_of_mem hτ hrow' hl, hhash, hup, (h.whole_iff hne).mpr hw⟩

lemma holds_back (h : RelayedInto fileId σ τ) {body : Bytes} (hup : row.isUploaded = false)
    (hh : Holds τ.db τ.documents { row with isUploaded := true } body) :
    Holds σ.db σ.documents row body where
  sized := hh.sized
  slices := by
    intro c hc hfile
    obtain ⟨position, hlt, hpos, hreads⟩ := hh.slices c (h.chunks c hc) hfile
    refine ⟨position, hlt, hpos, fun q hq hqc hqup => ?_⟩
    rw [← h.reads q hq]
    exact hreads q (h.replicas q hq) hqc hqup
  complete := by rw [hup]; exact fun hno => absurd hno Bool.false_ne_true
  apart := by rw [hup]; exact fun hno => absurd hno Bool.false_ne_true

end RelayedInto

lemma Relayable.readable (h : σ.db.Intact σ.next) {maxVariables : Nat} {storageId : Uuid}
    (hrelay : Relayable σ.db maxVariables storageId row.id row.chunkTotal) (hsize : row.size = r.body.length)
    (hh : Holds σ.db σ.documents row r.body) :
    ∀ c ∈ σ.db.chunks, c.fileId = row.id → σ.db.StoredChunk c := by
  intro c hc hfile
  obtain ⟨position, hlt, hpos, -⟩ := hh.slices c hc hfile
  have htotal : row.chunkTotal = chunkCount r.body.length (Process.chunkSizeOf row) := by
    rw [FileRow.chunkTotal, hsize, Int.toNat_natCast]
  by_cases hmissing : position ∈ σ.db.missing row.id row.chunkTotal
  · exact absurd hpos (hrelay.clear.free position hmissing c hc hfile)
  · have hstored : position ∈ (σ.db.listStoredChunkPositions row.id).map fun s => s.1.toNat := by
      by_contra hno
      exact hmissing (List.mem_filter.mpr ⟨List.mem_range.mpr (htotal ▸ hlt), decide_eq_true hno⟩)
    obtain ⟨s, hs, hsp⟩ := List.mem_map.mp hstored
    obtain ⟨c', hc', rfl⟩ := List.mem_map.mp hs
    obtain ⟨hlist, hkept⟩ := List.mem_filter.mp hc'
    obtain ⟨hmem, hfile'⟩ := mem_chunksOf.mp hlist
    -- there is one chunk row at the position
    have hrange := h.chunkRange c' hmem
    have hnat : c'.position.toNat = position := hsp
    have hsame : c' = c := by
      refine h.chunkPosition c' hmem c hc (hfile'.trans hfile.symm) ?_
      rw [hpos, toPosition_of_lt (by omega)]
      omega
    exact hsame ▸ of_decide_eq_true hkept

lemma gathers_run (acts : List Act) (h : σ.db.Intact σ.next) (hsized : 0 < Process.chunkSizeOf existing)
    {phase : Phase} (hst : Stands σ number r phase) (hkeeps : phase.Keeps r.body existing σ.db [])
    (hgathers : Gathers r existing σ.db σ.documents []) :
    let τ := run Process.step σ (acts.map (.act number))
    Gathers r existing τ.db τ.documents [] := by
  induction acts generalizing σ phase with
  | nil => exact hgathers
  | cons a acts ih =>
    rw [List.map_cons, run_cons]
    cases ho : σ.act ⟨number, r, phase, false⟩ a with
    | none =>
      have hidle := hst.idle [a] fun b hb => List.mem_singleton.mp hb ▸ ho
      simp only [List.map_cons, List.map_nil, run_cons, run_nil] at hidle
      rw [hidle]
      exact ih h hst hkeeps hgathers
    | some o =>
      obtain ⟨hstep, hst'⟩ := hst.act ho
      have h' := (Process.db_step h (.act number a)).1
      obtain ⟨hgathers', hkeeps'⟩ := gathers_moves h hsized hgathers rfl hkeeps (Process.act_moves ho)
      rw [hstep] at h' ⊢
      exact ih h' hst' hkeeps' hgathers'

lemma relay_whole (h : σ.db.Intact σ.next) (hst : Stands σ number r (.starting existing))
    (hrow : row ∈ σ.db.files) (hid : row.id = existing.id) (hsame : SameUpload existing row)
    (hchunk : ∃ n ∈ existing.chunkSizeBytes, 0 < n) (sends : List (Nat × String × Int))
    (hh : Holds σ.db σ.documents row r.body)
    (hreadable : ∀ c ∈ σ.db.chunks, c.fileId = row.id → σ.db.StoredChunk c) :
    let τ := run Process.step σ ((relayActs sends).map (.act number))
    ∀ row' ∈ τ.db.files, row'.id = existing.id → Whole τ row' r.body := by
  have hsized : 0 < Process.chunkSizeOf existing := chunkSizeOf_congr hsame.chunk ▸ hh.sized
  obtain ⟨hstep, hst'⟩ := hst.act (a := .begin) (o := σ.turn (.queued existing))
    (by simp only [Process.act, Process.begin, if_pos hchunk])
  have h' := (Process.db_step h (.act number .begin)).1
  have hgathers : Gathers r existing σ.db σ.documents [] := by
    refine ⟨fun q hq hqid => ?_, fun c hc hfile => hreadable c hc (hfile.trans hid.symm),
      fun q hq => absurd hq List.not_mem_nil⟩
    obtain rfl := h.wf.idUnique q hq row hrow (hqid.trans hid.symm)
    exact ⟨hsame.chunk, hh⟩
  have hkeeps : (Phase.queued existing).Keeps r.body existing (σ.step (.act number .begin)).db [] := rfl
  have hkept := gathers_run
    (.plan :: (sends.map (fun send => Act.send send.1 send.2.1 send.2.2) ++ [.link, .mark, .mark])) h' hsized
    (hstep ▸ hst') hkeeps (hstep ▸ hgathers)
  intro τ row' hrow' hid'
  have hgathers' : Gathers r existing τ.db τ.documents [] := hkept
  exact ⟨(hgathers'.same row' hrow' hid').2, fun c hc hfile => hgathers'.readable c hc (hfile.trans hid')⟩

/-! ## The end of the wait -/

lemma awake_turn (hst : Stands σ number r (.waiting existing)) {phase : Phase} {timedOut : Bool}
    (hawake : σ.awake r existing timedOut = phase) :
    let τ := σ.step (.act number (.awake timedOut))
    Same σ τ ∧ τ.next = σ.next ∧ Stands τ number r phase := by
  obtain ⟨hstep, hst'⟩ := hst.act (a := .awake timedOut) (o := σ.turn phase)
    (by simp only [Process.act, hawake])
  rw [hstep]
  exact ⟨⟨rfl, rfl, rfl⟩, rfl, hst'⟩

lemma awake_uploaded (hended : ¬ σ.RelayInFlight existing.id) (hby : σ.db.fileById existing.id = some row)
    (hup : row.isUploaded = true) (timedOut : Bool) :
    σ.awake r existing timedOut = .answered (.ok ()) := by
  simp only [Process.awake, if_neg hended, hby, hup, if_true]

lemma awake_unfinished (hended : ¬ σ.RelayInFlight existing.id)
    (hun : ∀ row, σ.db.fileById existing.id = some row → row.isUploaded = false)
    (hres : resumable existing r.inFile.size) (timedOut : Bool) :
    σ.awake r existing timedOut = .starting existing := by
  have hresume : Process.resume r existing = .starting existing := if_pos hres
  cases hby : σ.db.fileById existing.id with
  | none => simp only [Process.awake, if_neg hended, hby, hresume]
  | some row =>
    simp only [Process.awake, if_neg hended, hby, hun row hby, Bool.false_eq_true, if_false, hresume]

lemma Stands.relay_idle {result : Except SarcaError Unit} (hst : Stands σ number r (.answered result))
    (sends : List (Nat × String × Int)) :
    run Process.step σ ((relayActs sends).map (.act number)) = σ := by
  refine hst.idle _ fun a ha => ?_
  simp only [relayActs, List.mem_cons, List.mem_append, List.mem_map, List.not_mem_nil, or_false] at ha
  rcases ha with (rfl | rfl) | ⟨send, -, rfl⟩ | rfl | rfl | rfl <;> rfl

lemma relay_gone (hst : Stands σ number r (.starting existing)) (hgone : σ.db.fileById existing.id = none)
    (hchunk : ∃ n ∈ existing.chunkSizeBytes, 0 < n) (sends : List (Nat × String × Int)) :
    ∃ e, Stands (run Process.step σ ((relayActs sends).map (.act number))) number r (.failing existing e) := by
  obtain ⟨hstep₁, hst₁⟩ := hst.act (a := .begin) (o := σ.turn (.queued existing))
    (by simp only [Process.act, Process.begin, if_pos hchunk])
  rw [← hstep₁] at hst₁
  have hgone₁ : (σ.step (.act number .begin)).db.fileById existing.id = none := by rw [hstep₁]; exact hgone
  generalize hσ₁ : σ.step (.act number .begin) = σ₁ at hst₁ hgone₁
  obtain ⟨hstep₂, hst₂⟩ := hst₁.act (a := .plan)
    (o := σ₁.turn (.failing existing (.doesNotExist "storage")))
    (congrArg some (by simp only [Process.plan, hgone₁, Option.bind_none]))
  refine ⟨.doesNotExist "storage", ?_⟩
  unfold relayActs
  rw [List.map_append, run_append, List.map_cons, run_cons, hσ₁, List.map_cons, run_cons, hstep₂, List.map_nil,
    run_nil, hst₂.idle]
  · exact hst₂
  · intro a ha
    simp only [List.mem_cons, List.mem_append, List.mem_map, List.not_mem_nil, or_false] at ha
    rcases ha with ⟨send, -, rfl⟩ | rfl | rfl | rfl <;> rfl

lemma not_landed {file : FileRow} {e : SarcaError} (hst : Stands σ number r (.failing file e)) :
    ¬ Landed number r σ := by
  rintro ⟨⟨u, hu, hphase⟩, -⟩
  rw [← Option.some.inj (hst.symm.trans hu)] at hphase
  cases hphase

lemma landed_iff (hst : Stands σ number r (.answered (.ok ()))) : Landed number r σ ↔ Saved σ r :=
  ⟨fun h => h.saved, fun h => ⟨⟨_, hst, rfl⟩, h⟩⟩

lemma saved_congr (hdb : τ.db = σ.db) (hdocs : τ.documents = σ.documents) : Saved τ r ↔ Saved σ r := by
  have hwhole : ∀ row body, Whole τ row body ↔ Whole σ row body := fun row body =>
    ⟨fun h => ⟨hdb ▸ hdocs ▸ h.holds, hdb ▸ h.readable⟩, fun h => ⟨hdb ▸ hdocs ▸ h.holds, hdb ▸ h.readable⟩⟩
  simp only [Saved, hdb, hwhole]

/-- A relay of an unfinished row that is there. -/
lemma relay_lands_iff (h : σ.db.Intact σ.next) (hst : Stands σ number r (.starting existing))
    (hrow : row ∈ σ.db.files) (hid : row.id = existing.id) (hsame : SameUpload existing row)
    (hun : row.isUploaded = false) (hplace : existing.storageId = r.storageId) (hpath : existing.path = r.path)
    (hhash : existing.contentHash = r.contentHash) (hsize : existing.size = r.body.length)
    (hchunk : ∃ n ∈ existing.chunkSizeBytes, 0 < n) {sends : List (Nat × String × Int)}
    (haccept : Accepts σ r existing sends) :
    Landed number r (run Process.step σ ((relayActs sends).map (.act number))) ↔
      Relayable σ.db σ.maxVariables row.storageId row.id row.chunkTotal ∧
        if row.Live then Holds σ.db σ.documents row r.body else Saved σ r := by
  have hkey : Relayable σ.db σ.maxVariables row.storageId row.id row.chunkTotal ↔
      Relayable σ.db σ.maxVariables existing.storageId existing.id existing.chunkTotal := by
    rw [hsame.storage, hid, hsame.chunkTotal]
  rcases relay_cases h hst hrow hid hsame.storage hsize hchunk (hplace ▸ haccept.active) sends haccept.once
      haccept.all haccept.names haccept.fresh with
    ⟨hrelay, hst', h', db', n, -, hsent, hlinked⟩ | ⟨hblocked, e, hst'⟩
  · obtain ⟨more, hmore, hnamed⟩ := documents_run (σ := σ) number (relayActs sends)
    have hrelayed := relayed_of_linked hsent hlinked hmore fun d hd q hq => by
      obtain ⟨position, messageId, hmem⟩ := hnamed d hd
      have hsend : (position, d.1, messageId) ∈ sends := by
        simp only [relayActs, List.mem_cons, List.mem_append, List.mem_map, List.not_mem_nil, or_false,
          reduceCtorEq, false_or, Act.send.injEq] at hmem
        obtain ⟨send, hsend, hp, hname, hm⟩ := hmem
        obtain ⟨p, name, m⟩ := send
        dsimp only at hp hname hm
        rwa [← hp, ← hname, ← hm]
      exact haccept.unnamed _ hsend q hq
    have hwhole := relay_whole h hst hrow hid hsame hchunk sends
    generalize run Process.step σ _ = τ at *
    rw [landed_iff hst', and_iff_right (hkey.mpr hrelay)]
    by_cases hlive : row.Live
    · rw [if_pos hlive]
      have hmem : { row with isUploaded := true } ∈ τ.db.files :=
        (hrelayed.files _).mpr ⟨row, hrow, (if_pos hid).symm⟩
      have hat : τ.db.liveAt r.storageId r.path = some { row with isUploaded := true } := by
        rw [← hplace, ← hpath, ← hsame.storage, ← hsame.path]
        exact Db.liveAt_of_mem h'.wf hmem hlive
      constructor
      · rintro ⟨row', hat', -, -, hw⟩
        obtain rfl := Option.some.inj (hat.symm.trans hat')
        exact hrelayed.holds_back hun hw.holds
      · intro hh
        refine ⟨_, hat, hsame.hash.trans hhash, rfl, hwhole hh ?_ _ hmem hid⟩
        exact (hkey.mpr hrelay).readable h (hsame.size.trans hsize) hh
    · rw [if_neg hlive]
      refine hrelayed.saved_iff h.wf h'.wf fun q hq hqid => ?_
      rwa [h.wf.idUnique q hq row hrow (hqid.trans hid.symm)]
  · constructor
    · exact fun hland => absurd hland (not_landed hst')
    · exact fun hrelay => absurd (hkey.mp hrelay.1) hblocked

lemma awaited_lands_iff (h : Awaited existing σ) (hst : Stands σ number r (.waiting existing))
    (hended : ¬ σ.RelayInFlight existing.id) (hres : resumable existing r.inFile.size)
    (hplace : existing.storageId = r.storageId) (hpath : existing.path = r.path)
    (hhash : existing.contentHash = r.contentHash) {sends : List (Nat × String × Int)}
    (haccept : Accepts σ r existing sends) (timedOut : Bool) :
    Landed number r (run Process.step σ ((.awake timedOut :: relayActs sends).map (.act number))) ↔
      Lands σ r existing := by
  have hsize := hres.2.2.2.1
  have hchunk := hres.2.2.2.2
  have hstart : (∀ row, σ.db.fileById existing.id = some row → row.isUploaded = false) →
      let τ := σ.step (.act number (.awake timedOut))
      Same σ τ ∧ τ.next = σ.next ∧ Stands τ number r (.starting existing) :=
    fun hun => awake_turn hst (awake_unfinished hended hun hres timedOut)
  rw [List.map_cons, run_cons, Lands]
  cases hby : σ.db.fileById existing.id with
  | none =>
    obtain ⟨hsame, -, hst₁⟩ := hstart fun row hrow => absurd (hby.symm.trans hrow) (by simp)
    obtain ⟨e, hst₂⟩ := relay_gone hst₁ (hsame.db ▸ hby) hchunk sends
    exact iff_of_false (not_landed hst₂) id
  | some row =>
    obtain ⟨hrow, hid⟩ := Db.fileById_some hby
    dsimp only
    by_cases hup : row.isUploaded = true
    · obtain ⟨hsame, -, hst₁⟩ := awake_turn hst (awake_uploaded hended hby hup timedOut)
      rw [if_pos hup, hst₁.relay_idle, landed_iff hst₁]
      exact saved_congr hsame.db hsame.documents
    · have hun : row.isUploaded = false := Bool.not_eq_true _ ▸ hup
      obtain ⟨hsame, hnext, hst₁⟩ := hstart fun row' hrow' => by
        cases hby.symm.trans hrow'
        exact hun
      generalize σ.step (.act number (.awake timedOut)) = τ at *
      have haccept₁ : Accepts τ r existing sends :=
        ⟨hsame.db ▸ haccept.active, haccept.once, haccept.all, haccept.names,
          hsame.documents ▸ haccept.fresh, hsame.db ▸ haccept.unnamed⟩
      rw [if_neg hup, relay_lands_iff (by rw [hsame.db, hnext]; exact h.intact) hst₁ (hsame.db ▸ hrow) hid
        (h.same row hrow hid) hun hplace hpath hhash hsize hchunk haccept₁, hsame.db, hsame.maxVariables,
        hsame.documents, saved_congr hsame.db hsame.documents]

/-- A request that found a relay of its path and hash under way, waited for it through any run in which the
    row is not replaced, and whose own relay Telegram takes in full, ends `Ok` with its bytes at its path
    just when the row it waited for is as `Lands` says. -/
theorem awakened_lands_iff {σ₀ : Process} (h : σ₀.db.Intact σ₀.next) (hlook : Stands σ₀ number r .looking)
    (hwait : σ₀.look r = .waiting existing) (hsize : existing.size = r.body.length)
    (hchunk : ∃ n ∈ existing.chunkSizeBytes, 0 < n) {meanwhile : List Meanwhile}
    (hmeanwhile : AllOk Process.meanwhile (Undisplaced existing.id) (σ₀.step (.act number .look)) meanwhile)
    (hrun : run Process.meanwhile (σ₀.step (.act number .look)) meanwhile = σ)
    (hst : Stands σ number r (.waiting existing)) (hended : ¬ σ.RelayInFlight existing.id)
    {sends : List (Nat × String × Int)} (haccept : Accepts σ r existing sends) (timedOut : Bool) :
    Landed number r (run Process.step σ ((.awake timedOut :: relayActs sends).map (.act number))) ↔
      Lands σ r existing := by
  obtain ⟨hstart, hfound, hup⟩ := awaited_look h hlook hwait
  obtain ⟨-, hs, hp, hl⟩ := Db.liveAt_some hfound.live
  have hawaited : Awaited existing σ := by
    rw [← hrun]
    exact (always_of_allOk (P := Awaited existing) (fun σ a hσ ha => hσ.meanwhile ha) hstart hmeanwhile).last
  have hres : resumable existing r.inFile.size := ⟨hup, hl, hp ▸ r.isFile, hsize, hchunk⟩
  exact awaited_lands_iff hawaited hst hended hres hs hp hfound.hash haccept timedOut

end Relay

/-! ## Two attempts at once -/

/-- The relay of one upload is under way, and a second upload of the same bytes has arrived. -/
def secondAttempt : Process :=
  run Process.step twoChannels
    [.arrive 0 newVersion, .act 0 .look, .act 0 .settle, .act 0 .create, .act 0 .begin, .act 0 .plan,
      .arrive 1 newVersion]

def firstRow : FileRow :=
  newVersion.inFile.toRow 4 false

/-- The relay fails before its first chunk is stored, and drops its row. -/
def failsWithNone : List Meanwhile :=
  [.step (.act 0 (.sendFails .unknown)), .step (.act 0 (.count true)), .step (.act 0 (.drop true))]

def failsWithOne : List Meanwhile :=
  [.step (.act 0 (.send 0 "new-0" 10)), .step (.act 0 (.sendFails .unknown)), .step (.act 0 (.count true))]

lemma secondAttempt_intact : secondAttempt.db.Intact secondAttempt.next := by
  have h : secondAttempt.Intact := run_invariant (fun σ a hσ => hσ.step a) twoChannels_intact _
  exact h.db

/-- The second upload waits, the relay fails with nothing stored, and the upload fails as well. -/
theorem failsWithNone_not_landed :
    secondAttempt.look newVersion = .waiting firstRow ∧
    Stands (run Process.meanwhile (secondAttempt.step (.act 1 .look)) failsWithNone) 1 newVersion
      (.waiting firstRow) ∧
    ¬ (run Process.meanwhile (secondAttempt.step (.act 1 .look)) failsWithNone).RelayInFlight firstRow.id ∧
    Accepts (run Process.meanwhile (secondAttempt.step (.act 1 .look)) failsWithNone) newVersion firstRow
      bothChunks ∧
    ¬ Landed 1 newVersion (run Process.step
      (run Process.meanwhile (secondAttempt.step (.act 1 .look)) failsWithNone)
      ((.awake false :: relayActs bothChunks).map (.act 1))) := by
  refine ⟨rfl, rfl, by decide +kernel, ⟨?_, ?_, ?_, ?_, ?_, ?_⟩, ?_⟩
  all_goals try decide +kernel
  rintro ⟨⟨u, hu, hphase⟩, -⟩
  have hfailed : ((run Process.step
      (run Process.meanwhile (secondAttempt.step (.act 1 .look)) failsWithNone)
      ((.awake false :: relayActs bothChunks).map (.act 1))).upload? 1).all fun u => u.phase.row.isSome := by
    decide +kernel
  rw [hu, Option.all_some, hphase] at hfailed
  cases hfailed

/-- When the relay fails behind its first chunk, the upload that waited sends the other one. -/
theorem failsWithOne_landed :
    Landed 1 newVersion (run Process.step
      (run Process.meanwhile (secondAttempt.step (.act 1 .look)) failsWithOne)
      ((.awake false :: relayActs bothChunks).map (.act 1))) := by
  have haccept : Accepts (run Process.meanwhile (secondAttempt.step (.act 1 .look)) failsWithOne) newVersion
      firstRow bothChunks := by
    refine ⟨?_, ?_, ?_, ?_, ?_, ?_⟩
    all_goals decide +kernel
  have hlook : Stands secondAttempt 1 newVersion .looking := rfl
  have hwait : secondAttempt.look newVersion = .waiting firstRow := rfl
  have hst : Stands (run Process.meanwhile (secondAttempt.step (.act 1 .look)) failsWithOne) 1 newVersion
      (.waiting firstRow) := rfl
  refine (awakened_lands_iff secondAttempt_intact hlook hwait rfl ⟨1, rfl, by decide⟩ (by decide +kernel) rfl
    hst (by decide +kernel) haccept false).mpr ?_
  have hby : (run Process.meanwhile (secondAttempt.step (.act 1 .look)) failsWithOne).db.fileById firstRow.id =
      some firstRow := by
    decide +kernel
  rw [Lands, hby]
  refine ⟨⟨⟨by decide +kernel, by decide +kernel⟩, by decide +kernel⟩, ?_⟩
  have hlive : firstRow.Live := rfl
  rw [if_pos hlive]
  refine ⟨by decide +kernel, by decide +kernel, fun hno => absurd hno Bool.false_ne_true,
    fun hno => absurd hno Bool.false_ne_true⟩

end Sarca.Server
