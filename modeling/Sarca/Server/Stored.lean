import Sarca.Server.Relay

/-!
# What a stored hash names

Uploads, waits, resumes and replaces by any clients, where chunks of several attempts are put together
on the strength of path, hash and chunk size. `NamesBytes` asks that the bytes read from an uploaded row
with a content hash, in position order, have that hash; `hash_names_bytes` carries it over every run
whose steps are `Honest`: the hash a request declares is the hash of the bytes it sent, and no row is
replaced between the moment a request chose it and the relay into it.

`Holds` is what the rows keep on the way: each stored chunk is the slice at its position of a body with
the row's hash. `Relaying` and `Done` say of a relay that its row is still the one it chose, and that
every position which is not in its plan has a chunk row.
-/

namespace Sarca.Server
open Sarca.Lib

/-! ## Slices -/

def slice (body : Bytes) (chunkSize position : Nat) : Bytes :=
  (body.drop (position * chunkSize)).take chunkSize

lemma slice_eq (body : Bytes) (chunkSize position : Nat) :
    (body.drop (position * chunkSize)).take (min chunkSize (body.length - position * chunkSize)) =
      slice body chunkSize position := by
  rw [slice, ← List.length_drop, ← List.take_take, List.take_length]

lemma flatten_slices_take (body : Bytes) (chunkSize n : Nat) :
    ((List.range n).map (slice body chunkSize)).flatten = body.take (n * chunkSize) := by
  induction n with
  | zero => simp
  | succ n ih =>
    rw [List.range_succ, List.map_append, List.flatten_append, ih, Nat.succ_mul, List.take_add]
    simp [slice]

lemma flatten_slices {body : Bytes} {chunkSize : Nat} (hsize : 0 < chunkSize) :
    ((List.range (chunkCount body.length chunkSize)).map (slice body chunkSize)).flatten = body := by
  rw [flatten_slices_take]
  apply List.take_of_length_le
  have hlt := Nat.lt_div_mul_add (a := body.length + chunkSize - 1) hsize
  unfold chunkCount
  omega

/-! ## Readings -/

def ChunkReplica.read (documents : List (String × Bytes)) (r : ChunkReplica) : Option Bytes :=
  r.telegramFileId.bind fun telegramFileId => documents.lookup telegramFileId

/-- A way to read a file: an uploaded replica of each chunk row, in position order. -/
def IsReading (σ : Process) (fileId : Uuid) (parts : List Bytes) : Prop :=
  List.Forall₂ (fun c part => ∃ r ∈ σ.db.replicas, r.chunkId = c.id ∧ r.status = .uploaded ∧
    r.read σ.documents = some part) (σ.db.chunksOf fileId) parts

/-- Whatever is read from an uploaded row with a hash has this hash. -/
def NamesBytes (sha : Bytes → ContentHash) (σ : Process) : Prop :=
  ∀ row ∈ σ.db.files, row.isUploaded = true → ∀ hash, row.contentHash = some hash →
    ∀ parts, IsReading σ row.id parts → sha parts.flatten = hash

def Readable (σ : Process) : Prop :=
  ∀ row ∈ σ.db.files, row.isUploaded = true → row.contentHash.isSome →
    ∃ parts, IsReading σ row.id parts

/-- The turn relays into the row it chose, and replaces a row no relay writes to. -/
def HonestAct (σ : Process) (u : Upload) : Act → Prop
  | .begin => match u.phase with
    | .starting file => ∀ row ∈ σ.db.fileById file.id,
        row.contentHash = file.contentHash ∧ row.chunkSizeBytes = file.chunkSizeBytes
    | _ => True
  | .replace _ _ => match u.phase with
    | .replacing existing => ¬ σ.RelayRuns existing.id
    | _ => True
  | _ => True

/-- A request declares the hash of its bytes, and its row is not replaced under it. -/
def Honest (sha : Bytes → ContentHash) (σ : Process) : Step → Prop
  | .arrive _ r => ∀ hash ∈ r.contentHash, sha r.body = hash
  | .act number a => ∀ u ∈ σ.upload? number, HonestAct σ u a
  | _ => True

instance (σ : Process) (u : Upload) (a : Act) : Decidable (HonestAct σ u a) := by
  induction u using Upload.casesOn with
  | mk number request phase gone =>
    induction a using Act.casesOn with
    | begin =>
      induction phase using Phase.casesOn with
      | starting file => exact decideMem _ _
      | _ => exact isTrue trivial
    | replace now stamp =>
      induction phase using Phase.casesOn with
      | replacing existing => exact instDecidableNot
      | _ => exact isTrue trivial
    | _ => exact isTrue trivial

instance (sha : Bytes → ContentHash) (σ : Process) (a : Step) : Decidable (Honest sha σ a) := by
  induction a using Step.casesOn with
  | arrive number r => exact decideMem _ _
  | act number a => exact decideMem _ _
  | _ => exact isTrue trivial

def Step.Removes : Step → Prop
  | .edit (.removeChannel _ _) => True
  | _ => False

/-! ## What rows and relays keep -/

/-- The chunks of a row are slices of a body, and an uploaded row has all of them. -/
structure Holds (db : Db) (documents : List (String × Bytes)) (row : FileRow) (body : Bytes) :
    Prop where
  sized : 0 < Process.chunkSizeOf row
  slices : ∀ c ∈ db.chunks, c.fileId = row.id →
    ∃ position < chunkCount body.length (Process.chunkSizeOf row), c.position = toPosition position ∧
      ∀ r ∈ db.replicas, r.chunkId = c.id → r.status = .uploaded →
        r.read documents = some (slice body (Process.chunkSizeOf row) position)
  complete : row.isUploaded = true →
    ∀ position < chunkCount body.length (Process.chunkSizeOf row),
      ∃ c ∈ db.chunks, c.fileId = row.id ∧ c.position = toPosition position
  apart : row.isUploaded = true →
    ∀ p < chunkCount body.length (Process.chunkSizeOf row),
      ∀ q < chunkCount body.length (Process.chunkSizeOf row), toPosition p = toPosition q → p = q

lemma toPosition_eq {total : Nat} (hapart : ∀ p < total, ∀ q < total,
    toPosition p = toPosition q → p = q) {position : Nat} (hlt : position < total) :
    toPosition position = position := by
  by_contra hne
  have hbig : 32768 ≤ position := by
    unfold toPosition at hne
    omega
  have heq := hapart 32767 (by omega) 32768 (by omega) rfl
  omega

lemma chunksOf_pairwise (db : Db) (fileId : Uuid) :
    (db.chunksOf fileId).Pairwise fun c c' => c.position ≤ c'.position :=
  haveI : Std.Total fun c c' : FileChunk => c.position ≤ c'.position :=
    ⟨fun c c' => Int.le_total c.position c'.position⟩
  haveI : IsTrans FileChunk fun c c' => c.position ≤ c'.position :=
    ⟨fun _ _ _ => Int.le_trans⟩
  List.pairwise_insertionSort _ _

lemma Holds.positions {σ : Process} (h : σ.Intact) {row : FileRow} {body : Bytes}
    (hh : Holds σ.db σ.documents row body) (hup : row.isUploaded = true) :
    (σ.db.chunksOf row.id).map (fun c => c.position.toNat) =
      List.range (chunkCount body.length (Process.chunkSizeOf row)) := by
  have hpos : ∀ {position : Nat}, position < chunkCount body.length (Process.chunkSizeOf row) →
      toPosition position = position := fun hlt => toPosition_eq (hh.apart hup) hlt
  have hrange : ∀ c ∈ σ.db.chunksOf row.id, 0 ≤ c.position :=
    fun c hc => (h.db.chunkRange c (mem_chunksOf.mp hc).1).1
  have hsorted : ((σ.db.chunksOf row.id).map fun c => c.position.toNat).Pairwise (· ≤ ·) := by
    rw [List.pairwise_map]
    exact (chunksOf_pairwise σ.db row.id).imp fun hle => Int.toNat_le_toNat hle
  have hnodup : ((σ.db.chunksOf row.id).map fun c => c.position.toNat).Nodup := by
    refine List.Nodup.map_on ?_ ?_
    · intro c hc c' hc' heq
      obtain ⟨hm, hf⟩ := mem_chunksOf.mp hc
      obtain ⟨hm', hf'⟩ := mem_chunksOf.mp hc'
      have := hrange c hc
      have := hrange c' hc'
      exact h.db.chunkPosition c hm c' hm' (hf.trans hf'.symm) (by omega)
    · exact (List.perm_insertionSort _ _).nodup_iff.mpr (h.db.chunkNodup.of_map.filter _)
  refine List.Perm.eq_of_pairwise (fun _ _ _ _ => Nat.le_antisymm) hsorted
    (List.pairwise_lt_range.imp Nat.le_of_lt) ?_
  refine (List.perm_ext_iff_of_nodup hnodup List.nodup_range).mpr fun position => ?_
  rw [List.mem_map, List.mem_range]
  constructor
  · rintro ⟨c, hc, rfl⟩
    obtain ⟨hm, hf⟩ := mem_chunksOf.mp hc
    obtain ⟨position, hlt, heq, -⟩ := hh.slices c hm hf
    rw [heq, hpos hlt]
    exact hlt
  · intro hlt
    obtain ⟨c, hm, hf, heq⟩ := hh.complete hup position hlt
    refine ⟨c, mem_chunksOf.mpr ⟨hm, hf⟩, ?_⟩
    rw [heq, hpos hlt]
    rfl

lemma Holds.reading {σ : Process} (h : σ.Intact) {row : FileRow} {body : Bytes}
    (hh : Holds σ.db σ.documents row body) (hup : row.isUploaded = true) {parts : List Bytes}
    (hparts : IsReading σ row.id parts) : parts.flatten = body := by
  have hslices : (σ.db.chunksOf row.id).map
      (fun c => slice body (Process.chunkSizeOf row) c.position.toNat) = parts := by
    rw [← List.forall₂_eq_eq_eq, List.forall₂_map_left_iff]
    refine (List.forall₂_iff_zip.mpr ⟨hparts.length_eq, fun {c part} hmem => ?_⟩)
    obtain ⟨r, hr, hrc, hrup, hread⟩ := List.forall₂_zip hparts hmem
    obtain ⟨hm, hf⟩ := mem_chunksOf.mp (List.of_mem_zip hmem).1
    obtain ⟨position, hlt, heq, hholds⟩ := hh.slices c hm hf
    have hsame := hread.symm.trans (hholds r hr hrc hrup)
    rw [heq, toPosition_eq (hh.apart hup) hlt]
    exact (Option.some.inj hsame).symm
  rw [← hslices, ← Function.comp_def (slice body (Process.chunkSizeOf row)), ← List.map_map,
    hh.positions h hup, flatten_slices hh.sized]

lemma Holds.readable {σ : Process} {row : FileRow} {body : Bytes}
    (hh : Holds σ.db σ.documents row body)
    (hstored : ∀ c ∈ σ.db.chunks, c.fileId = row.id →
      ∃ r ∈ σ.db.replicas, r.chunkId = c.id ∧ r.status = .uploaded) :
    ∃ parts, IsReading σ row.id parts := by
  have hall : ∀ c ∈ σ.db.chunksOf row.id, ∃ part, ∃ r ∈ σ.db.replicas, r.chunkId = c.id ∧
      r.status = .uploaded ∧ r.read σ.documents = some part := by
    intro c hc
    obtain ⟨hm, hf⟩ := mem_chunksOf.mp hc
    obtain ⟨r, hr, hrc, hrup⟩ := hstored c hm hf
    obtain ⟨position, -, -, hholds⟩ := hh.slices c hm hf
    exact ⟨_, r, hr, hrc, hrup, hholds r hr hrc hrup⟩
  unfold IsReading
  generalize σ.db.chunksOf row.id = chunks at hall ⊢
  induction chunks with
  | nil => exact ⟨[], .nil⟩
  | cons c cs ih =>
    obtain ⟨part, hpart⟩ := hall c List.mem_cons_self
    obtain ⟨parts, hparts⟩ := ih fun c' hc' => hall c' (List.mem_cons_of_mem c hc')
    exact ⟨part :: parts, .cons hpart hparts⟩

/-! ## What carries the slices over -/

lemma lookup_fresh {documents : List (String × Bytes)} {telegramFileId : String}
    (h : telegramFileId ∉ documents.map (·.1)) : documents.lookup telegramFileId = none := by
  rw [List.lookup_eq_none_iff]
  intro p hp
  simp only [bne_iff_ne, ne_eq]
  rintro rfl
  exact h (List.mem_map.mpr ⟨p, hp, rfl⟩)

/-- Every uploaded replica of an old chunk reads what one of the old replicas of the chunk read. -/
def Backed (db : Db) (documents : List (String × Bytes)) (db' : Db)
    (documents' : List (String × Bytes)) : Prop :=
  ∀ r ∈ db'.replicas, r.status = .uploaded → (∃ c ∈ db.chunks, c.id = r.chunkId) →
    ∃ q ∈ db.replicas, q.chunkId = r.chunkId ∧ q.status = .uploaded ∧
      ∀ part, q.read documents = some part → r.read documents' = some part

section Carry

variable {db db' : Db} {documents documents' : List (String × Bytes)}

lemma backed_of_mem (hdocs : ∃ more, documents' = documents ++ more)
    (hmem : ∀ r ∈ db'.replicas, r.status = .uploaded → (∃ c ∈ db.chunks, c.id = r.chunkId) →
      r ∈ db.replicas) : Backed db documents db' documents' := by
  obtain ⟨more, rfl⟩ := hdocs
  intro r hr hup hold
  refine ⟨r, hmem r hr hup hold, rfl, hup, fun part hread => ?_⟩
  obtain ⟨telegramFileId, hid, hlookup⟩ := Option.bind_eq_some_iff.mp hread
  rw [ChunkReplica.read, hid, Option.bind_some, List.lookup_append, hlookup, Option.some_or]

lemma Holds.mono {row row' : FileRow} {body : Bytes} (h : Holds db documents row body)
    (hchunk : row'.chunkSizeBytes = row.chunkSizeBytes)
    (hup : row'.isUploaded = true → row.isUploaded = true)
    (hbacked : Backed db documents db' documents')
    (hback : ∀ c ∈ db'.chunks, c.fileId = row'.id →
      ∃ q ∈ db.chunks, q.fileId = row.id ∧ q.id = c.id ∧ q.position = c.position)
    (hforth : ∀ c ∈ db.chunks, c.fileId = row.id →
      ∃ q ∈ db'.chunks, q.fileId = row'.id ∧ q.position = c.position) :
    Holds db' documents' row' body := by
  have hsize : Process.chunkSizeOf row' = Process.chunkSizeOf row := by
    rw [Process.chunkSizeOf, hchunk, Process.chunkSizeOf]
  constructor
  · rw [hsize]
    exact h.sized
  · intro c hc hfile
    obtain ⟨q, hq, hqf, hqid, hqp⟩ := hback c hc hfile
    obtain ⟨position, hlt, hpos, hreads⟩ := h.slices q hq hqf
    rw [hsize]
    refine ⟨position, hlt, hqp.symm.trans hpos, ?_⟩
    intro r hr hrc hrup
    obtain ⟨r', hr', hrc', hrup', hread⟩ := hbacked r hr hrup ⟨q, hq, hqid.trans hrc.symm⟩
    exact hread _ (hreads r' hr' (hrc'.trans (hrc.trans hqid.symm)) hrup')
  · intro hup' position hlt
    rw [hsize] at hlt
    obtain ⟨c, hc, hfile, hpos⟩ := h.complete (hup hup') position hlt
    obtain ⟨q, hq, hqf, hqp⟩ := hforth c hc hfile
    exact ⟨q, hq, hqf, hqp.trans hpos⟩
  · rw [hsize]
    exact fun hup' => h.apart (hup hup')

lemma Holds.stay {row : FileRow} {body : Bytes} (h : Holds db documents row body)
    (hbacked : Backed db documents db' documents')
    (hchunks : ∀ c, c.fileId = row.id → (c ∈ db'.chunks ↔ c ∈ db.chunks)) :
    Holds db' documents' row body := by
  refine h.mono rfl id hbacked ?_ ?_
  · exact fun c hc hfile => ⟨c, (hchunks c hfile).mp hc, hfile, rfl, rfl⟩
  · exact fun c hc hfile => ⟨c, (hchunks c hfile).mpr hc, hfile, rfl⟩

lemma holds_empty {row : FileRow} (body : Bytes) (hsized : 0 < Process.chunkSizeOf row)
    (hup : row.isUploaded = false) (hnone : ∀ c ∈ db.chunks, c.fileId ≠ row.id) :
    Holds db documents row body where
  sized := hsized
  slices := fun c hc hfile => absurd hfile (hnone c hc)
  complete := by rw [hup]; exact fun hno => absurd hno Bool.false_ne_true
  apart := by rw [hup]; exact fun hno => absurd hno Bool.false_ne_true

end Carry

/-! ## Relays -/

/-- The row that a request takes for its own: it carries the hash of the request. -/
def Phase.own : Phase → Option FileRow
  | .waiting file | .starting file | .queued file | .sending file _ _ _ | .marking file _ =>
    some file
  | _ => none

def Phase.relayed : Phase → Option FileRow
  | .queued file | .sending file _ _ _ | .marking file _ => some file
  | _ => none

/-- The row of a relay that has a plan, with what is left of it. -/
def Phase.todo : Phase → Option (FileRow × List ChunkSlice)
  | .sending file _ plan _ => some (file, plan)
  | .marking file _ => some (file, [])
  | _ => none

lemma Phase.relays_of_relayed {p : Phase} {file : FileRow} (h : p.relayed = some file) :
    p.row = some file ∧ p.relays = some file.id := by
  cases p <;> cases h
  all_goals exact ⟨rfl, rfl⟩

lemma Phase.relayed_of_todo {p : Phase} {file : FileRow} {todo : List ChunkSlice}
    (h : p.todo = some (file, todo)) : p.relayed = some file := by
  cases p <;> cases h
  all_goals rfl

lemma Upload.phase_of_relayed {u : Upload} {file : FileRow} (h : u.standing.relayed = some file) :
    u.phase.relayed = some file := by
  cases u.standing_cases with
  | inl heq => rwa [heq] at h
  | inr heq =>
    rw [heq] at h
    cases h

lemma Upload.phase_of_todo {u : Upload} {file : FileRow} {todo : List ChunkSlice}
    (h : u.standing.todo = some (file, todo)) : u.phase.todo = some (file, todo) := by
  cases u.standing_cases with
  | inl heq => rwa [heq] at h
  | inr heq =>
    rw [heq] at h
    cases h

/-- The row of a relay is still the one it chose. -/
structure Relaying (db : Db) (file : FileRow) : Prop where
  sized : 0 < Process.chunkSizeOf file
  same : ∀ row ∈ db.files, row.id = file.id →
    row.contentHash = file.contentHash ∧ row.chunkSizeBytes = file.chunkSizeBytes

/-- The plan of a relay holds slices, and the positions outside it have chunk rows, told apart. -/
structure Done (db : Db) (body : Bytes) (file : FileRow) (todo : List ChunkSlice) : Prop where
  planned : ∀ p ∈ todo, p.1 < chunkCount body.length (Process.chunkSizeOf file) ∧
    p.2.1 = p.1 * Process.chunkSizeOf file ∧
      p.2.2 = min (Process.chunkSizeOf file) (body.length - p.1 * Process.chunkSizeOf file)
  stored : (∃ row ∈ db.files, row.id = file.id) →
    ∀ position < chunkCount body.length (Process.chunkSizeOf file), position ∉ todo.map (·.1) →
      ∃ c ∈ db.chunks, c.fileId = file.id ∧ c.position = toPosition position
  apart : ∀ p < chunkCount body.length (Process.chunkSizeOf file),
    ∀ q < chunkCount body.length (Process.chunkSizeOf file),
      p ∉ todo.map (·.1) → q ∉ todo.map (·.1) → toPosition p = toPosition q → p = q

/-- The rows hold bodies with their hashes, the requests sent such bodies, and relays write to the rows
    they chose. -/
structure Sound (sha : Bytes → ContentHash) (σ : Process) : Prop where
  intact : σ.Intact
  numbered : ∀ u ∈ σ.uploads, ∀ v ∈ σ.uploads, u.number = v.number → u = v
  rows : ∀ row ∈ σ.db.files, ∀ hash, row.contentHash = some hash →
    ∃ body, sha body = hash ∧ Holds σ.db σ.documents row body
  requests : ∀ u ∈ σ.uploads, ∀ hash, u.request.contentHash = some hash → sha u.request.body = hash
  own : ∀ u ∈ σ.uploads, ∀ file, u.phase.own = some file → file.contentHash = u.request.contentHash
  relays : ∀ u ∈ σ.uploads, ∀ file, u.standing.relayed = some file → Relaying σ.db file
  done : ∀ u ∈ σ.uploads, ∀ file todo, u.standing.todo = some (file, todo) →
    Done σ.db u.request.body file todo

lemma Sound.namesBytes {sha : Bytes → ContentHash} {σ : Process} (h : Sound sha σ) :
    NamesBytes sha σ := by
  intro row hrow hup hash hhash parts hparts
  obtain ⟨body, hbody, hholds⟩ := h.rows row hrow hash hhash
  rw [hholds.reading h.intact hup hparts, hbody]

/-! ## Edits -/

lemma mem_updateReplica {db : Db} {n : Uuid} (h : db.Intact n) {job : ChunkReplica}
    (hjob : job ∈ db.replicas) {f : ChunkReplica → ChunkReplica} {r : ChunkReplica}
    (hr : r ∈ (db.updateReplica job.id f).replicas) : r ∈ db.replicas ∨ r = f job := by
  obtain ⟨q, hq, rfl⟩ := List.mem_map.mp hr
  split
  · case isTrue hid =>
    rw [h.replicaId q hq job hjob hid]
    exact Or.inr rfl
  · exact Or.inl hq

/-- An edit of the channels or a turn of the replicator copies documents as they are. -/
lemma backed_edit {σ : Process} (h : σ.Intact) (e : Edit) :
    Backed σ.db σ.documents (σ.edit e).db (σ.edit e).documents := by
  have hedited : ∀ {db' : Db}, Db.Edited σ.next σ.db db' →
      Backed σ.db σ.documents db' σ.documents := by
    intro db' hed
    exact backed_of_mem ⟨[], (List.append_nil _).symm⟩ fun r hr hup _ => hed.uploaded r hr hup
  have hrefl : Backed σ.db σ.documents σ.db σ.documents := hedited (Db.Edited.refl _ _)
  cases e with
  | addChannel storageId chatId =>
    exact hedited (Db.addChannel_spec h.db σ.maxVariables storageId chatId).2.2
  | updateChannel storageId channelId chatId =>
    exact hedited (Db.updateChannel_spec h.db σ.maxVariables storageId channelId chatId).2.2
  | removeChannel storageId channelId => exact hedited (Db.removeChannel_spec h.db _ _).2
  | channelDied channelId => exact hedited (Db.channelDied_spec h.db channelId).2
  | setWorkers workers => exact hrefl
  | retryFailed storageId =>
    refine backed_of_mem ⟨[], (List.append_nil _).symm⟩ fun r hr hup _ => ?_
    obtain ⟨q, hq, rfl⟩ := List.mem_map.mp hr
    split at hup
    · cases hup
    · case isFalse hno => rwa [if_neg hno]
  | copyFailed job =>
    unfold Process.edit
    dsimp only
    split
    · case isTrue hjob =>
      refine backed_of_mem ⟨[], (List.append_nil _).symm⟩ fun r hr hup _ => ?_
      cases mem_updateReplica h.db hjob.1 hr with
      | inl hr => exact hr
      | inr heq => rw [heq] at hup; cases hup
    · exact hrefl
  | copied job source messageId =>
    unfold Process.edit
    dsimp only
    split
    · case isTrue hjob =>
      obtain ⟨hjob, ⟨hsource, hchunk, -, hsup, -⟩, -, -⟩ := hjob
      intro r hr hup hold
      cases mem_updateReplica h.db hjob.1 hr with
      | inl hr => exact hrefl r hr hup hold
      | inr heq => rw [heq]; exact ⟨source, hsource, hchunk, hsup, fun part hread => hread⟩
    · exact hrefl
  | reuploaded job source telegramFileId messageId =>
    unfold Process.edit
    dsimp only
    split
    · case isTrue hjob =>
      obtain ⟨hjob, ⟨hsource, hchunk, -, hsup, -⟩, -, hfresh⟩ := hjob
      split
      · exact hrefl
      · case h_2 bytes hbytes =>
        have hgrow : ∃ more, σ.documents ++ [(telegramFileId, bytes)] = σ.documents ++ more :=
          ⟨_, rfl⟩
        have hold' : Backed σ.db σ.documents σ.db (σ.documents ++ [(telegramFileId, bytes)]) :=
          backed_of_mem hgrow fun r hr _ _ => hr
        intro r hr hup hold
        cases mem_updateReplica h.db hjob.1 hr with
        | inl hr => exact hold' r hr hup hold
        | inr heq =>
          rw [heq]
          refine ⟨source, hsource, hchunk, hsup, fun part hread => ?_⟩
          have hsame : some bytes = some part := hbytes.symm.trans hread
          have hnone : σ.documents.lookup telegramFileId = none := lookup_fresh hfresh
          cases hsame
          simp [ChunkReplica.read, List.lookup_append, hnone]
    · exact hrefl

/-! ## Turns -/

section Turn

variable {sha : Bytes → ContentHash} {σ : Process} {u : Upload} {a : Act} {o : Outcome}

lemma honest_begin {file : FileRow} (hp : u.phase = .starting file) (ho : σ.act u a = some o)
    (ha : HonestAct σ u a) : ∀ row ∈ σ.db.fileById file.id,
      row.contentHash = file.contentHash ∧ row.chunkSizeBytes = file.chunkSizeBytes := by
  cases a <;> simp only [Process.act, hp, reduceCtorEq] at ho
  simp only [HonestAct, hp] at ha
  exact ha

lemma honest_replace {existing : FileRow} (hp : u.phase = .replacing existing)
    (ho : σ.act u a = some o) (ha : HonestAct σ u a) : ¬ σ.RelayRuns existing.id := by
  cases a <;> simp only [Process.act, hp, reduceCtorEq] at ho
  simp only [HonestAct, hp] at ha
  exact ha

lemma purge_spec (h : σ.Intact) (fileId : Uuid) (purged : Bool) (phase : Phase) :
    (∀ row ∈ (σ.purge fileId purged phase).db.files, row ∈ σ.db.files ∧
      ∀ c, c.fileId = row.id → (c ∈ (σ.purge fileId purged phase).db.chunks ↔ c ∈ σ.db.chunks)) ∧
    Backed σ.db σ.documents (σ.purge fileId purged phase).db σ.documents := by
  cases purged with
  | false =>
    refine ⟨fun row hrow => ⟨hrow, fun _ _ => Iff.rfl⟩, ?_⟩
    exact backed_of_mem ⟨[], (List.append_nil _).symm⟩ fun r hr _ _ => hr
  | true =>
    obtain ⟨-, hp⟩ := Db.purged_hardDeleteIds h.db [fileId] []
    constructor
    · intro row hrow
      obtain ⟨hrow, hid⟩ := (hp.files row).mp hrow
      refine ⟨hrow, fun c hc => ?_⟩
      show c ∈ (σ.db.hardDeleteIds [fileId] []).chunks ↔ _
      rw [hp.chunks, hc]
      exact and_iff_left hid
    · exact backed_of_mem ⟨[], (List.append_nil _).symm⟩ fun r hr _ _ => ((hp.replicas r).mp hr).1

lemma replaced_other (h : σ.Intact) {fileId : Uuid} {expected : Option ContentHash}
    {retiredPath : Path} {incoming : InFile} {now : Instant} {db' : Db}
    (hok : σ.db.replaceContent fileId expected retiredPath incoming σ.next now = .ok db')
    {id : Uuid} (hne : id ≠ fileId) (hnew : id ≠ σ.next) {c : FileChunk} (hfile : c.fileId = id) :
    c ∈ db'.chunks ↔ c ∈ σ.db.chunks := by
  obtain ⟨current, -, -, -, -, -, -, hchunks, -⟩ := Db.replaceContent_ok h.db hok
  rw [hchunks, List.mem_map]
  constructor
  · rintro ⟨q, hq, rfl⟩
    unfold Db.movedChunk at hfile ⊢
    split at hfile
    · exact absurd hfile.symm hnew
    · case isFalse hno => rwa [if_neg hno]
  · intro hc
    exact ⟨c, hc, by rw [Db.movedChunk, if_neg (hfile ▸ hne)]⟩

/-- A turn of another request leaves the row of a relay and its chunks. -/
lemma relay_frame (h : σ.Intact) (ho : σ.act u a = some o) (ha : HonestAct σ u a)
    {fileId : Uuid} (hbelow : fileId < σ.next) (hruns : σ.RelayRuns fileId) :
    (∀ row ∈ o.db.files, row.id = fileId → ∃ q ∈ σ.db.files, q.id = fileId ∧
      row.contentHash = q.contentHash ∧ row.chunkSizeBytes = q.chunkSizeBytes) ∧
    ∀ row ∈ o.db.files, row.id = fileId → ∀ c ∈ σ.db.chunks, c.fileId = fileId →
      c ∈ o.db.chunks := by
  have hsame : ∀ row ∈ σ.db.files, row.id = fileId → ∃ q ∈ σ.db.files, q.id = fileId ∧
      row.contentHash = q.contentHash ∧ row.chunkSizeBytes = q.chunkSizeBytes :=
    fun row hrow hid => ⟨row, hrow, hid, rfl, rfl⟩
  have hpurge : ∀ id purged phase,
      (∀ row ∈ (σ.purge id purged phase).db.files, row.id = fileId → ∃ q ∈ σ.db.files,
        q.id = fileId ∧ row.contentHash = q.contentHash ∧
          row.chunkSizeBytes = q.chunkSizeBytes) ∧
      ∀ row ∈ (σ.purge id purged phase).db.files, row.id = fileId → ∀ c ∈ σ.db.chunks,
        c.fileId = fileId → c ∈ (σ.purge id purged phase).db.chunks := by
    intro id purged phase
    obtain ⟨hrows, -⟩ := purge_spec h id purged phase
    exact ⟨fun row hrow hid => hsame row (hrows row hrow).1 hid,
      fun row hrow hid c hc hfile => ((hrows row hrow).2 c (hfile.trans hid.symm)).mpr hc⟩
  cases Process.act_moves ho with
  | turn | refuse | linkFails => exact ⟨hsame, fun _ _ _ c hc _ => hc⟩
  | purge purged | drop purged => exact hpurge _ purged _
  | @replace existing now stamp db' file hp hok =>
    have hne : fileId ≠ existing.id := by
      rintro rfl
      exact honest_replace hp ho ha hruns
    obtain ⟨current, hcur, hid, -, -, -, hfiles, -⟩ := Db.replaceContent_ok h.db hok
    constructor
    · intro row hrow hrid
      rcases (hfiles row).mp hrow with rfl | ⟨hrow, -⟩ | ⟨-, rfl⟩
      · exact absurd (hrid.symm.trans hid) hne
      · exact hsame row hrow hrid
      · exact absurd hrid.symm hbelow.ne
    · intro _ _ _ c hc hfile
      exact (replaced_other h hok hne hbelow.ne hfile).mpr hc
  | create hp hok =>
    have hins := Db.createFileRow_ok hok
    constructor
    · intro row hrow hrid
      rcases (Db.mem_insertFile hins).mp hrow with hrow | rfl
      · exact hsame row hrow hrid
      · exact absurd hrid.symm hbelow.ne
    · obtain ⟨-, -, -, rfl⟩ := Db.insertFile_ok hins
      exact fun _ _ _ c hc _ => hc
  | plan hp hok =>
    obtain ⟨-, hed, -⟩ := Process.resolvePrimaryChannel_spec h.db hok
    exact ⟨hed.files.symm ▸ hsame, fun _ _ _ c hc _ => hed.chunks.symm ▸ hc⟩
  | send hp hslice htarget hfresh hok =>
    obtain ⟨-, -, -, rfl⟩ := Db.createChunkWithReplica_ok hok
    exact ⟨hsame, fun _ _ _ c hc _ => List.mem_append_left _ hc⟩
  | link hp hreplicas hok =>
    subst hreplicas
    obtain ⟨-, hreq⟩ := h.db.insertBatch hok
    exact ⟨hreq.files.symm ▸ hsame, fun _ _ _ c hc _ => hreq.chunks.symm ▸ hc⟩
  | @mark file again db' hp hok =>
    obtain ⟨db₁, hok₁, -, hfiles, hchunks, -⟩ :=
      Db.updateById_ok h.db.wf file.id Db.inPlace_uploaded
    rw [Db.setAsUploaded, hok₁] at hok
    cases hok
    constructor
    · intro row hrow hrid
      obtain ⟨q, hq, rfl⟩ := (hfiles row).mp hrow
      split at hrid
      · case isTrue hqid =>
        rw [if_pos hqid]
        exact ⟨q, hq, hrid, rfl, rfl⟩
      · case isFalse hqid =>
        rw [if_neg hqid]
        exact ⟨q, hq, hrid, rfl, rfl⟩
    · exact fun _ _ _ c hc _ => hchunks.symm ▸ hc

lemma Relaying.act (h : σ.Intact) (ho : σ.act u a = some o) (ha : HonestAct σ u a) {file : FileRow}
    (hbelow : file.id < σ.next) (hruns : σ.RelayRuns file.id) (hr : Relaying σ.db file) :
    Relaying o.db file where
  sized := hr.sized
  same := by
    intro row hrow hid
    obtain ⟨q, hq, hqid, hhash, hchunk⟩ := (relay_frame h ho ha hbelow hruns).1 row hrow hid
    rw [hhash, hchunk]
    exact hr.same q hq hqid

lemma Done.act (h : σ.Intact) (ho : σ.act u a = some o) (ha : HonestAct σ u a) {file : FileRow}
    (hbelow : file.id < σ.next) (hruns : σ.RelayRuns file.id) {body : Bytes}
    {todo : List ChunkSlice} (hd : Done σ.db body file todo) : Done o.db body file todo where
  planned := hd.planned
  stored := by
    rintro ⟨row, hrow, hid⟩ position hlt hno
    obtain ⟨hrows, hchunks⟩ := relay_frame h ho ha hbelow hruns
    obtain ⟨q, hq, hqid, -⟩ := hrows row hrow hid
    obtain ⟨c, hc, hfile, hpos⟩ := hd.stored ⟨q, hq, hqid⟩ position hlt hno
    exact ⟨c, hchunks row hrow hid c hc hfile, hfile, hpos⟩
  apart := hd.apart

lemma Sound.own_body (h : Sound sha σ) (hinj : Function.Injective sha) (hu : u ∈ σ.uploads)
    {file row : FileRow} (hown : u.phase.own = some file)
    (hrelayed : u.standing.relayed = some file)
    (hrow : row ∈ σ.db.files) (hid : row.id = file.id) {hash : ContentHash}
    (hhash : row.contentHash = some hash) :
    sha u.request.body = hash ∧ Holds σ.db σ.documents row u.request.body ∧
      Process.chunkSizeOf row = Process.chunkSizeOf file := by
  obtain ⟨hsame, hchunk⟩ := (h.relays u hu file hrelayed).same row hrow hid
  have hrequest : u.request.contentHash = some hash := by
    rw [← h.own u hu file hown, ← hsame, hhash]
  have hsent := h.requests u hu hash hrequest
  obtain ⟨body, hbody, hholds⟩ := h.rows row hrow hash hhash
  obtain rfl := hinj (hbody.trans hsent.symm)
  exact ⟨hsent, hholds, by rw [Process.chunkSizeOf, Process.chunkSizeOf, hchunk]⟩

lemma backed_send {db : Db} {n : Uuid} (h : db.Intact n) (documents : List (String × Bytes))
    (fileId channelId : Uuid) (position : Int) (telegramFileId : String) (messageId : Int)
    (bytes : Bytes) : Backed db documents
      { db with
        chunks := db.chunks ++ [⟨n, fileId, position⟩]
        replicas := db.replicas ++ [.newUploaded (n + 1) n channelId telegramFileId messageId] }
      (documents ++ [(telegramFileId, bytes)]) := by
  refine backed_of_mem ⟨_, rfl⟩ fun r hr _ hold => ?_
  cases List.mem_append.mp hr with
  | inl hr => exact hr
  | inr hr =>
    obtain ⟨c, hc, hid⟩ := hold
    rw [List.mem_singleton.mp hr] at hid
    exact absurd hid (h.chunkBelow c hc).ne

lemma Holds.send {db db' : Db} {documents : List (String × Bytes)} {n : Uuid} (h : db.Intact n)
    {row file : FileRow} {body : Bytes} {todo : List ChunkSlice} (hh : Holds db documents row body)
    (hd : Done db body file todo) (hsize : Process.chunkSizeOf row = Process.chunkSizeOf file)
    {position offset len : Nat} (hslice : (position, offset, len) ∈ todo)
    {channelId : Uuid} {telegramFileId : String} {messageId : Int}
    (hfresh : telegramFileId ∉ documents.map (·.1))
    (hok : db.createChunkWithReplica ⟨n, file.id, toPosition position⟩
      (.newUploaded (n + 1) n channelId telegramFileId messageId) = .ok db') :
    Holds db' (documents ++ [(telegramFileId, (body.drop offset).take len)]) row body := by
  obtain ⟨-, -, -, rfl⟩ := Db.createChunkWithReplica_ok hok
  have hbacked := backed_send h documents file.id channelId (toPosition position)
    telegramFileId messageId ((body.drop offset).take len)
  have hnew : ∀ r ∈ db.replicas, r.chunkId ≠ n := by
    intro r hr
    obtain ⟨c, hc, hid⟩ := h.replicaChunk r hr
    exact hid ▸ (h.chunkBelow c hc).ne
  obtain ⟨hlt, hoffset, hlen⟩ := hd.planned _ hslice
  dsimp only at hlt hoffset hlen
  refine ⟨hh.sized, ?_, ?_, hh.apart⟩
  · intro c hc hfile
    cases List.mem_append.mp hc with
    | inl hc =>
      obtain ⟨p, hplt, hpos, hreads⟩ := hh.slices c hc hfile
      refine ⟨p, hplt, hpos, fun r hr hrc hrup => ?_⟩
      obtain ⟨q, hq, hqc, hqup, hread⟩ := hbacked r hr hrup ⟨c, hc, hrc.symm⟩
      exact hread _ (hreads q hq (hqc.trans hrc) hqup)
    | inr hc =>
      rw [List.mem_singleton.mp hc]
      refine ⟨position, hsize ▸ hlt, rfl, fun r hr hrc _ => ?_⟩
      cases List.mem_append.mp hr with
      | inl hr => exact absurd hrc (hnew r hr)
      | inr hr =>
        rw [List.mem_singleton.mp hr, hoffset, hlen, slice_eq, hsize]
        simp [ChunkReplica.read, ChunkReplica.newUploaded, List.lookup_append, lookup_fresh hfresh]
  · intro hup p hplt
    obtain ⟨c, hc, hcf⟩ := hh.complete hup p hplt
    exact ⟨c, List.mem_append_left _ hc, hcf⟩

lemma Holds.mark {db db' : Db} {documents : List (String × Bytes)} {row file : FileRow}
    {body : Bytes} (hh : Holds db documents row body) (hd : Done db body file [])
    (hsize : Process.chunkSizeOf row = Process.chunkSizeOf file) (hrow : row ∈ db.files)
    (hid : row.id = file.id) (hchunks : db'.chunks = db.chunks)
    (hreplicas : db'.replicas = db.replicas) :
    Holds db' documents { row with isUploaded := true } body := by
  refine ⟨hh.sized, ?_, ?_, ?_⟩
  · rw [hchunks, hreplicas]
    exact hh.slices
  · intro _ p hlt
    obtain ⟨c, hc, hcf, hcp⟩ := hd.stored ⟨row, hrow, hid⟩ p (hsize ▸ hlt) List.not_mem_nil
    exact ⟨c, hchunks ▸ hc, hcf.trans hid.symm, hcp⟩
  · intro _ p hplt q hqlt
    exact hd.apart p (hsize ▸ hplt) q (hsize ▸ hqlt) List.not_mem_nil List.not_mem_nil

lemma rows_send (h : Sound sha σ) (hinj : Function.Injective sha) (hu : u ∈ σ.uploads)
    {file : FileRow} {channels : List StorageChannel} {plan : List ChunkSlice} {ids : List Uuid}
    {position offset len : Nat} {channelId : Uuid} {telegramFileId : String} {messageId : Int}
    {db' : Db} (hstand : u.standing = u.phase) (hp : u.phase = .sending file channels plan ids)
    (hslice : (position, offset, len) ∈ plan)
    (hfresh : telegramFileId ∉ σ.documents.map (·.1))
    (hok : σ.db.createChunkWithReplica ⟨σ.next, file.id, toPosition position⟩
      (.newUploaded (σ.next + 1) σ.next channelId telegramFileId messageId) = .ok db') :
    ∀ row ∈ db'.files, ∀ hash, row.contentHash = some hash → ∃ body, sha body = hash ∧
      Holds db' (σ.documents ++ [(telegramFileId, (u.request.body.drop offset).take len)]) row
        body := by
  have hdb := (Db.createChunkWithReplica_ok hok).2.2.2
  have hfiles : db'.files = σ.db.files := by rw [hdb]
  intro row hrow hash hhash
  rw [hfiles] at hrow
  by_cases hid : row.id = file.id
  · obtain ⟨hsha, hholds, hsize⟩ := h.own_body hinj hu (by rw [hp]; rfl) (by rw [hstand, hp]; rfl)
      hrow hid hhash
    have hdone := h.done u hu file plan (by rw [hstand, hp]; rfl)
    exact ⟨_, hsha, hholds.send h.intact.db hdone hsize hslice hfresh hok⟩
  · obtain ⟨body, hbody, hholds⟩ := h.rows row hrow hash hhash
    rw [hdb]
    refine ⟨body, hbody, hholds.stay (backed_send h.intact.db _ _ _ _ _ _ _) fun c hfile => ?_⟩
    show c ∈ σ.db.chunks ++ _ ↔ _
    rw [List.mem_append, List.mem_singleton, or_iff_left]
    rintro rfl
    exact hid hfile.symm

lemma rows_mark (h : Sound sha σ) (hinj : Function.Injective sha) (hu : u ∈ σ.uploads)
    {file : FileRow} {again : Bool} {db' : Db} (hstand : u.standing = u.phase)
    (hp : u.phase = .marking file again) (hok : σ.db.setAsUploaded file.id = .ok db') :
    ∀ row ∈ db'.files, ∀ hash, row.contentHash = some hash →
      ∃ body, sha body = hash ∧ Holds db' σ.documents row body := by
  obtain ⟨db₁, hok₁, -, hfiles, hchunks, hreplicas, -⟩ :=
    Db.updateById_ok h.intact.db.wf file.id Db.inPlace_uploaded
  rw [Db.setAsUploaded, hok₁] at hok
  cases hok
  intro row hrow hash hhash
  obtain ⟨q, hq, rfl⟩ := (hfiles row).mp hrow
  by_cases hid : q.id = file.id
  · rw [if_pos hid] at hhash ⊢
    obtain ⟨hsha, hholds, hsize⟩ := h.own_body hinj hu (by rw [hp]; rfl) (by rw [hstand, hp]; rfl)
      hq hid hhash
    have hdone := h.done u hu file [] (by rw [hstand, hp]; rfl)
    exact ⟨_, hsha, hholds.mark hdone hsize hq hid hchunks hreplicas⟩
  · rw [if_neg hid] at hhash ⊢
    obtain ⟨body, hbody, hholds⟩ := h.rows q hq hash hhash
    have hbacked : Backed σ.db σ.documents db' σ.documents :=
      backed_of_mem ⟨[], (List.append_nil _).symm⟩ fun r hr _ _ => hreplicas ▸ hr
    exact ⟨body, hbody, hholds.stay hbacked fun c _ => by rw [hchunks]⟩

lemma chunkSizeOf_inFile (r : UploadRequest) {row : FileRow}
    (h : row.chunkSizeBytes = r.inFile.chunkSizeBytes) : 0 < Process.chunkSizeOf row := by
  rw [Process.chunkSizeOf, h]
  show 0 < ((r.chunkSize : Int)).toNat
  rw [Int.toNat_natCast]
  exact r.chunkSize_pos

lemma rows_replace (h : Sound sha σ) (hu : u ∈ σ.uploads) {fileId : Uuid}
    {expected : Option ContentHash} {retiredPath : Path} {now : Instant} {db' : Db}
    (hok : σ.db.replaceContent fileId expected retiredPath u.request.inFile σ.next now = .ok db') :
    ∀ row ∈ db'.files, ∀ hash, row.contentHash = some hash →
      ∃ body, sha body = hash ∧ Holds db' σ.documents row body := by
  obtain ⟨current, hcur, rfl, -, -, -, hfiles, hchunks, hreplicas, -⟩ :=
    Db.replaceContent_ok h.intact.db hok
  have hbacked : Backed σ.db σ.documents db' σ.documents :=
    backed_of_mem ⟨[], (List.append_nil _).symm⟩ fun r hr _ _ => hreplicas ▸ hr
  have hcurNew : current.id ≠ σ.next := (h.intact.db.fileBelow current hcur).ne
  have hfree : ∀ c ∈ σ.db.chunks, c.fileId ≠ σ.next := by
    intro c hc
    obtain ⟨f, hf, hid⟩ := h.intact.db.chunkFile c hc
    exact hid ▸ (h.intact.db.fileBelow f hf).ne
  intro row hrow hash hhash
  rcases (hfiles row).mp hrow with rfl | ⟨hrow, hne⟩ | ⟨-, rfl⟩
  · -- the incoming version has no chunk yet
    refine ⟨u.request.body, h.requests u hu hash hhash, holds_empty _ ?_ rfl ?_⟩
    · exact chunkSizeOf_inFile u.request rfl
    · intro c hc
      rw [hchunks] at hc
      obtain ⟨q, -, rfl⟩ := List.mem_map.mp hc
      unfold Db.movedChunk
      split
      · exact hcurNew.symm
      · case isFalse hno => exact hno
  · obtain ⟨body, hbody, hholds⟩ := h.rows row hrow hash hhash
    refine ⟨body, hbody, hholds.stay hbacked fun c hfile => ?_⟩
    exact replaced_other h.intact hok hne (h.intact.db.fileBelow row hrow).ne hfile
  · -- the retired version takes its chunks along
    obtain ⟨body, hbody, hholds⟩ := h.rows current hcur hash hhash
    refine ⟨body, hbody, hholds.mono rfl id hbacked ?_ ?_⟩
    · intro c hc hfile
      rw [hchunks] at hc
      obtain ⟨q, hq, rfl⟩ := List.mem_map.mp hc
      refine ⟨q, hq, ?_, (Db.movedChunk_id _ _ q).symm, (Db.movedChunk_position _ _ q).symm⟩
      by_contra hno
      rw [Db.movedChunk, if_neg hno] at hfile
      exact hfree q hq hfile
    · intro c hc hfile
      refine ⟨Db.movedChunk current.id σ.next c, hchunks ▸ List.mem_map_of_mem hc, ?_,
        Db.movedChunk_position _ _ c⟩
      rw [Db.movedChunk, if_pos hfile]
      rfl

/-- After a turn the rows hold bodies with their hashes. -/
lemma rows_act (h : Sound sha σ) (hinj : Function.Injective sha) (hu : u ∈ σ.uploads)
    (ho : σ.act u a = some o) : ∀ row ∈ o.db.files, ∀ hash, row.contentHash = some hash →
      ∃ body, sha body = hash ∧ Holds o.db o.documents row body := by
  have hmem : ∀ {db' : Db}, (∀ r ∈ db'.replicas, r.status = .uploaded → r ∈ σ.db.replicas) →
      Backed σ.db σ.documents db' σ.documents :=
    fun hup => backed_of_mem ⟨[], (List.append_nil _).symm⟩ fun r hr hrup _ => hup r hr hrup
  have hpurge : ∀ id purged phase, ∀ row ∈ (σ.purge id purged phase).db.files,
      ∀ hash, row.contentHash = some hash → ∃ body, sha body = hash ∧
        Holds (σ.purge id purged phase).db σ.documents row body := by
    intro id purged phase row hrow hash hhash
    obtain ⟨hrows, hbacked⟩ := purge_spec h.intact id purged phase
    obtain ⟨hrow, hchunks⟩ := hrows row hrow
    obtain ⟨body, hbody, hholds⟩ := h.rows row hrow hash hhash
    exact ⟨body, hbody, hholds.stay hbacked hchunks⟩
  cases Process.act_moves ho with
  | turn | linkFails => exact h.rows
  | purge purged | drop purged => exact hpurge _ purged _
  | replace hp hok => exact rows_replace h hu hok
  | @create path db' hp hok =>
    have hins := Db.createFileRow_ok hok
    have hrows := fun row => Db.mem_insertFile (r := row) hins
    obtain ⟨-, -, -, rfl⟩ := Db.insertFile_ok hins
    intro row hrow hash hhash
    rcases (hrows row).mp hrow with hrow | rfl
    · obtain ⟨body, hbody, hholds⟩ := h.rows row hrow hash hhash
      exact ⟨body, hbody, hholds.stay (hmem fun r hr _ => hr) fun c _ => Iff.rfl⟩
    · refine ⟨u.request.body, h.requests u hu hash hhash, holds_empty _ ?_ rfl ?_⟩
      · exact chunkSizeOf_inFile u.request rfl
      · intro c hc
        obtain ⟨f, hf, hid⟩ := h.intact.db.chunkFile c hc
        exact hid ▸ (h.intact.db.fileBelow f hf).ne
  | plan hp hok =>
    obtain ⟨-, hed, -⟩ := Process.resolvePrimaryChannel_spec h.intact.db hok
    intro row hrow hash hhash
    obtain ⟨body, hbody, hholds⟩ := h.rows row (hed.files ▸ hrow) hash hhash
    exact ⟨body, hbody, hholds.stay (hmem hed.uploaded) fun c _ => by rw [hed.chunks]⟩
  | send hp hslice htarget hfresh hok => exact rows_send h hinj hu (Process.standing_of_act ho) hp hslice hfresh hok
  | refuse hp hfresh =>
    intro row hrow hash hhash
    obtain ⟨body, hbody, hholds⟩ := h.rows row hrow hash hhash
    exact ⟨body, hbody, hholds.stay (backed_of_mem ⟨_, rfl⟩ fun r hr _ _ => hr) fun c _ => Iff.rfl⟩
  | link hp hreplicas hok =>
    subst hreplicas
    obtain ⟨-, hreq⟩ := h.intact.db.insertBatch hok
    intro row hrow hash hhash
    obtain ⟨body, hbody, hholds⟩ := h.rows row (hreq.files ▸ hrow) hash hhash
    refine ⟨body, hbody, hholds.stay (hmem fun r hr hup => ?_) fun c _ => by rw [hreq.chunks]⟩
    cases hreq.pending r hr with
    | inl hr => exact hr
    | inr hpending => exact absurd (hup.symm.trans hpending) (by decide)
  | mark hp hok => exact rows_mark h hinj hu (Process.standing_of_act ho) hp hok

lemma own_act (h : Sound sha σ) (hu : u ∈ σ.uploads) (ho : σ.act u a = some o) {file : FileRow}
    (hown : o.phase.own = some file) : file.contentHash = u.request.contentHash := by
  cases Process.act_moves ho with
  | @turn phase ht =>
    have hold := h.own u hu
    generalize u.phase = p at ht hold
    cases ht with
    | wait hfound | resume hfound _ =>
      cases hown
      exact hfound.hash
    | stay | resumeLate | queue => exact hold file hown
    | _ => cases hown
  | @replace existing now stamp db' file' hp hok hfile =>
    cases hown
    obtain ⟨current, -, hid, -, -, hint, hfiles, -⟩ := Db.replaceContent_ok h.intact.db hok
    have hcur := Db.fileById_of_mem hint.wf ((hfiles _).mpr (Or.inl rfl))
    rw [show (Db.incomingRow u.request.inFile current).id = existing.id from hid, hfile] at hcur
    cases hcur
    rfl
  | create hp hok =>
    cases hown
    rfl
  | plan hp | send hp | link hp =>
    cases hown
    exact h.own u hu _ (by rw [hp]; rfl)
  | @mark _ again _ hp =>
    cases again with
    | true => cases hown
    | false =>
      cases hown
      exact h.own u hu _ (by rw [hp]; rfl)
  | _ => cases hown

lemma relaying_on (h : Sound sha σ) (ho : σ.act u a = some o)
    (ha : HonestAct σ u a) {v : Upload} (hv : v ∈ σ.uploads) {file : FileRow}
    (hrelayed : v.standing.relayed = some file) : Relaying o.db file := by
  have hrow := (Phase.relays_of_relayed (Upload.phase_of_relayed hrelayed)).1
  exact (h.relays v hv file hrelayed).act h.intact ho ha (h.intact.rowBelow v hv file hrow)
    ⟨v, hv, (Phase.relays_of_relayed hrelayed).2⟩

lemma done_on (h : Sound sha σ) (ho : σ.act u a = some o) (ha : HonestAct σ u a) {v : Upload}
    (hv : v ∈ σ.uploads) {file : FileRow} {todo : List ChunkSlice}
    (htodo : v.standing.todo = some (file, todo)) : Done o.db v.request.body file todo := by
  have hrelayed := Phase.relayed_of_todo htodo
  have hrow := (Phase.relays_of_relayed (Upload.phase_of_relayed hrelayed)).1
  exact (h.done v hv file todo htodo).act h.intact ho ha (h.intact.rowBelow v hv file hrow)
    ⟨v, hv, (Phase.relays_of_relayed hrelayed).2⟩

lemma relays_act (h : Sound sha σ) (hu : u ∈ σ.uploads) (ho : σ.act u a = some o)
    (ha : HonestAct σ u a) {file : FileRow} (hrelayed : o.phase.relayed = some file) :
    Relaying o.db file := by
  have hon : ∀ file, u.phase.relayed = some file → Relaying o.db file :=
    fun file hf => relaying_on h ho ha hu (Process.standing_of_act ho ▸ hf)
  cases Process.act_moves ho with
  | @turn phase ht =>
    generalize hp : u.phase = p at ht
    cases ht with
    | queue hsize =>
      cases hrelayed
      obtain ⟨n, hn, hpos⟩ := hsize
      refine ⟨?_, fun row hrow hid => ?_⟩
      · rw [Process.chunkSizeOf, Option.mem_def.mp hn, Option.getD_some]
        omega
      · refine honest_begin hp ho ha row ?_
        rw [← hid]
        exact Db.fileById_of_mem h.intact.db.wf hrow
    | _ => cases hrelayed
  | plan hp | send hp | link hp =>
    cases hrelayed
    exact hon _ (by rw [hp]; rfl)
  | @mark _ again _ hp =>
    cases again with
    | true => cases hrelayed
    | false =>
      cases hrelayed
      exact hon _ (by rw [hp]; rfl)
  | _ => cases hrelayed

lemma done_plan {db : Db} {n : Uuid} (h : db.Intact n) {file : FileRow}
    (hsized : 0 < Process.chunkSizeOf file) (body : Bytes) : Done db body file
      (remainingChunkPlan body.length (Process.chunkSizeOf file)
        ((db.listStoredChunkPositions file.id).map fun s => s.1.toNat)).1 := by
  have hstored : ∀ position < chunkCount body.length (Process.chunkSizeOf file),
      position ∉ (remainingChunkPlan body.length (Process.chunkSizeOf file)
        ((db.listStoredChunkPositions file.id).map fun s => s.1.toNat)).1.map (·.1) →
      ∃ c ∈ db.chunks, c.fileId = file.id ∧ c.position = position := by
    intro position hlt hno
    rw [plan_positions hsized, List.mem_filter, List.mem_range, decide_eq_true_iff, not_and,
      not_not] at hno
    obtain ⟨s, hs, hsp⟩ := List.mem_map.mp (hno hlt)
    obtain ⟨c, hc, rfl⟩ := List.mem_map.mp hs
    obtain ⟨hm, hf⟩ := mem_chunksOf.mp (List.mem_of_mem_filter hc)
    refine ⟨c, hm, hf, ?_⟩
    have := (h.chunkRange c hm).1
    have hnat : c.position.toNat = position := hsp
    omega
  have heq : ∀ {position : Nat}, (∃ c ∈ db.chunks, c.fileId = file.id ∧ c.position = position) →
      toPosition position = position := by
    rintro position ⟨c, hm, -, hpos⟩
    have := (h.chunkRange c hm).2
    unfold toPosition
    omega
  constructor
  · rintro ⟨position, offset, len⟩ hslice
    obtain ⟨hoffset, hlen⟩ := mem_plan hsized hslice
    have hmem := List.mem_map_of_mem (f := (·.1)) hslice
    rw [plan_positions hsized] at hmem
    exact ⟨List.mem_range.mp (List.mem_of_mem_filter hmem), hoffset, hlen⟩
  · intro _ position hlt hno
    obtain ⟨c, hm, hf, hpos⟩ := hstored position hlt hno
    exact ⟨c, hm, hf, by rw [heq ⟨c, hm, hf, hpos⟩, hpos]⟩
  · intro p hp q hq hnop hnoq hsame
    rw [heq (hstored p hp hnop), heq (hstored q hq hnoq)] at hsame
    exact Int.ofNat.inj hsame

lemma done_send {n : Uuid} {body : Bytes} {file : FileRow} {todo : List ChunkSlice}
    {position : Nat} {replica : ChunkReplica} {db db' : Db} (hd : Done db body file todo)
    (hok : db.createChunkWithReplica ⟨n, file.id, toPosition position⟩ replica = .ok db') :
    Done db' body file (todo.filter fun p => p.1 ≠ position) := by
  obtain ⟨hfree, hrow, -, rfl⟩ := Db.createChunkWithReplica_ok hok
  have hno : ∀ {q : Nat}, q ∉ (todo.filter fun p => p.1 ≠ position).map (·.1) → q ≠ position →
      q ∉ todo.map (·.1) := by
    intro q hq hne hmem
    obtain ⟨p, hp, rfl⟩ := List.mem_map.mp hmem
    exact hq (List.mem_map.mpr ⟨p, List.mem_filter.mpr ⟨hp, decide_eq_true hne⟩, rfl⟩)
  have hother : ∀ q < chunkCount body.length (Process.chunkSizeOf file),
      q ∉ todo.map (·.1) → toPosition q ≠ toPosition position := by
    intro q hq hnoq hsame
    obtain ⟨c, hc, hfile, hpos⟩ := hd.stored hrow q hq hnoq
    exact (hfree c hc).2 ⟨hfile, hpos.trans hsame⟩
  constructor
  · exact fun p hp => hd.planned p (List.mem_of_mem_filter hp)
  · intro hrow q hlt hq
    by_cases hqp : q = position
    · exact ⟨_, List.mem_append_right _ (List.mem_singleton_self _), rfl, by rw [hqp]⟩
    · obtain ⟨c, hc, hcf⟩ := hd.stored hrow q hlt (hno hq hqp)
      exact ⟨c, List.mem_append_left _ hc, hcf⟩
  · intro p hplt q hqlt hp hq hsame
    by_cases hpp : p = position
    · by_cases hqp : q = position
      · rw [hpp, hqp]
      · rw [hpp] at hsame
        exact absurd hsame.symm (hother q hqlt (hno hq hqp))
    · by_cases hqp : q = position
      · rw [hqp] at hsame
        exact absurd hsame (hother p hplt (hno hp hpp))
      · exact hd.apart p hplt q hqlt (hno hp hpp) (hno hq hqp) hsame

lemma done_act (h : Sound sha σ) (hu : u ∈ σ.uploads) (ho : σ.act u a = some o)
    (ha : HonestAct σ u a) {file : FileRow} {todo : List ChunkSlice}
    (htodo : o.phase.todo = some (file, todo)) : Done o.db u.request.body file todo := by
  have hon : ∀ file todo, u.phase.todo = some (file, todo) →
      Done o.db u.request.body file todo :=
    fun file todo ht => done_on h ho ha hu (Process.standing_of_act ho ▸ ht)
  have hstand := Process.standing_of_act ho
  cases Process.act_moves ho with
  | @turn phase ht =>
    generalize u.phase = p at ht
    cases ht <;> cases htodo
  | plan hp hok =>
    cases htodo
    have hsized := (h.relays u hu _ (by rw [hstand, hp]; rfl)).sized
    obtain ⟨hint, -, -⟩ := Process.resolvePrimaryChannel_spec h.intact.db hok
    exact done_plan hint hsized u.request.body
  | send hp hslice htarget hfresh hok =>
    cases htodo
    exact done_send (h.done u hu _ _ (by rw [hstand, hp]; rfl)) hok
  | link hp hreplicas hok =>
    cases htodo
    exact hon _ [] (by rw [hp]; rfl)
  | @mark _ again _ hp =>
    cases again with
    | true => cases htodo
    | false =>
      cases htodo
      exact hon _ [] (by rw [hp]; rfl)
  | _ => cases htodo

end Turn

/-! ## Runs -/

/-- Every honest step keeps the bytes behind the hashes. -/
theorem Sound.step {sha : Bytes → ContentHash} {σ : Process} (h : Sound sha σ)
    (hinj : Function.Injective sha) {a : Step} (ha : Honest sha σ a) : Sound sha (σ.step a) := by
  have hint := h.intact.step a
  have hnumbered := Process.numbered_step h.numbered a
  cases a with
  | arrive number r =>
    rcases σ.step_arrive number r with heq | ⟨-, phase, hphase, heq⟩
    · rw [heq]
      exact h
    · rw [heq] at hint hnumbered ⊢
      -- a request that has just arrived holds no row
      have hidle : ∀ v ∈ [Upload.mk number r phase false], v.request = r ∧ v.phase.own = none ∧
          v.standing.relayed = none ∧ v.standing.todo = none := by
        intro v hv
        rw [List.mem_singleton.mp hv]
        refine ⟨rfl, ?_⟩
        rcases hphase with rfl | rfl <;> exact ⟨rfl, rfl, rfl⟩
      refine ⟨hint, hnumbered, h.rows, fun u hu => ?_, fun u hu => ?_, fun u hu => ?_,
        fun u hu => ?_⟩ <;> cases List.mem_append.mp hu
      · case inl hu => exact h.requests u hu
      · case inr hu =>
        rw [(hidle u hu).1]
        exact fun hash hhash => ha hash hhash
      · case inl hu => exact h.own u hu
      · case inr hu =>
        rw [(hidle u hu).2.1]
        exact fun file hno => absurd hno.symm (Option.some_ne_none file)
      · case inl hu => exact h.relays u hu
      · case inr hu =>
        rw [(hidle u hu).2.2.1]
        exact fun file hno => absurd hno.symm (Option.some_ne_none file)
      · case inl hu => exact h.done u hu
      · case inr hu =>
        rw [(hidle u hu).2.2.2]
        exact fun file todo hno => absurd hno.symm (Option.some_ne_none (file, todo))
  | act number a =>
    rcases σ.step_act number a with heq | ⟨u, o, hfind, hu, ho, -, heq⟩
    · rw [heq]
      exact h
    · rw [heq] at hint hnumbered ⊢
      have hact : HonestAct σ u a := ha u hfind
      have hun : u.number = number := by simpa using List.find?_some hfind
      have hself : ∀ w ∈ σ.uploads, w.number = number → w = u :=
        fun w hw hwn => h.numbered w hw u hu (hwn.trans hun.symm)
      refine ⟨hint, hnumbered, rows_act h hinj hu ho, ?_, ?_, ?_, ?_⟩
      · intro v hv
        rcases Process.mem_commit hv with ⟨hv, -⟩ | ⟨w, hw, -, rfl⟩
        · exact h.requests v hv
        · exact h.requests w hw
      · intro v hv file hown
        rcases Process.mem_commit hv with ⟨hv, -⟩ | ⟨w, hw, hwn, rfl⟩
        · exact h.own v hv file hown
        · rw [hself w hw hwn]
          exact own_act h hu ho hown
      · intro v hv file hrelayed
        rcases Process.mem_commit hv with ⟨hv, -⟩ | ⟨w, hw, -, rfl⟩
        · exact relaying_on h ho hact hv hrelayed
        · exact relays_act h hu ho hact (Upload.phase_of_relayed hrelayed)
      · intro v hv file todo htodo
        rcases Process.mem_commit hv with ⟨hv, -⟩ | ⟨w, hw, hwn, rfl⟩
        · exact done_on h ho hact hv htodo
        · rw [hself w hw hwn]
          exact done_act h hu ho hact (Upload.phase_of_todo htodo)
  | disconnect number handed =>
    have hl := Process.left_disconnect σ number handed
    refine ⟨hint, hnumbered, ?_, fun v hv => ?_, fun v hv => ?_, fun v hv => ?_, fun v hv => ?_⟩
    · rw [Process.step, hl.db, hl.documents]
      exact h.rows
    all_goals obtain ⟨u, hu, -, hr, hphase, hstanding⟩ := hl.uploads v hv
    · exact hr ▸ h.requests u hu
    · intro file hown
      cases hphase with
      | inl hphase => exact hr ▸ h.own u hu file (hphase ▸ hown)
      | inr hphase =>
        rw [hphase] at hown
        cases hown
    · intro file hrelayed
      rw [Process.step, hl.db]
      cases hstanding with
      | inl hstanding => exact h.relays u hu file (hstanding ▸ hrelayed)
      | inr hstanding =>
        rw [hstanding] at hrelayed
        cases hrelayed
    · intro file todo htodo
      rw [Process.step, hl.db]
      cases hstanding with
      | inl hstanding => exact hr ▸ h.done u hu file todo (hstanding ▸ htodo)
      | inr hstanding =>
        rw [hstanding] at htodo
        cases htodo
  | edit e =>
    have ht := Process.tuned_edit h.intact.db e
    have hbacked := backed_edit h.intact e
    refine ⟨hint, hnumbered, ?_, ?_, ?_, ?_, ?_⟩
    · intro row hrow hash hhash
      obtain ⟨body, hbody, hholds⟩ := h.rows row (ht.files ▸ hrow) hash hhash
      exact ⟨body, hbody, hholds.stay hbacked fun c _ => by rw [Process.step, ht.chunks]⟩
    · rw [Process.step, ht.uploads]
      exact h.requests
    · rw [Process.step, ht.uploads]
      exact h.own
    · rw [Process.step, ht.uploads]
      intro u hu file hrelayed
      have hold := h.relays u hu file hrelayed
      exact ⟨hold.sized, ht.files.symm ▸ hold.same⟩
    · rw [Process.step, ht.uploads]
      intro u hu file todo htodo
      have hold := h.done u hu file todo htodo
      refine ⟨hold.planned, ?_, hold.apart⟩
      rw [ht.files, ht.chunks]
      exact hold.stored
  | restart order =>
    obtain ⟨-, hp⟩ := Db.purged_hardDeleteIds h.intact.db (Process.interrupted σ.db) order
    refine ⟨hint, hnumbered, ?_, ?_, ?_, ?_, ?_⟩
    · intro row hrow hash hhash
      obtain ⟨hrow, hid⟩ := (hp.files row).mp hrow
      obtain ⟨body, hbody, hholds⟩ := h.rows row hrow hash hhash
      refine ⟨body, hbody, hholds.stay ?_ fun c hc => ?_⟩
      · exact backed_of_mem ⟨[], (List.append_nil _).symm⟩ fun r hr _ _ =>
          ((hp.replicas r).mp hr).1
      · refine (hp.chunks c).trans ?_
        rw [hc]
        exact and_iff_left hid
    all_goals exact fun u hu => absurd hu List.not_mem_nil

/-! ## Readings exist -/

def Db.AllStored (db : Db) : Prop :=
  ∀ c ∈ db.chunks, ∃ r ∈ db.replicas, r.chunkId = c.id ∧ r.status = .uploaded

lemma enqueueForChannel_channels (db : Db) (maxVariables : Nat) (next storageId channelId : Uuid) :
    (db.enqueueForChannel maxVariables next storageId channelId).1.channels = db.channels := by
  have hrows : ∀ (replicas : List ChunkReplica) {db db' : Db},
      db.insertReplicas replicas = .ok db' → db'.channels = db.channels := by
    intro replicas
    induction replicas with
    | nil =>
      intro db db' hok
      cases hok
      rfl
    | cons replica replicas ih =>
      intro db db' hok
      unfold Db.insertReplicas at hok
      split at hok
      · case h_1 db₁ hone =>
        refine (ih hok).trans ?_
        rcases Db.insertReplica_ok hone with rfl | ⟨-, -, -, rfl⟩ <;> rfl
      · cases hok
  unfold Db.enqueueForChannel
  dsimp only
  split
  · case h_1 db' hok =>
    unfold Db.insertBatch at hok
    split at hok
    · cases hok
      rfl
    · split at hok
      · cases hok
      · exact hrows _ hok
  · rfl

lemma channels_edit {σ : Process} {e : Edit} (he : ¬ (Step.edit e).Removes) :
    ∀ ch ∈ σ.db.channels, ∃ ch' ∈ (σ.edit e).db.channels, ch'.id = ch.id := by
  have hupdate : ∀ (db : Db) (id : Uuid) (f : StorageChannel → StorageChannel),
      (∀ ch, (f ch).id = ch.id) → ∀ ch ∈ db.channels,
        ∃ ch' ∈ (db.updateChannelRow id f).channels, ch'.id = ch.id := by
    intro db id f hf ch hch
    refine ⟨_, List.mem_map_of_mem hch, ?_⟩
    split
    · exact hf ch
    · rfl
  have hrotate : ∀ (db : Db) (channel : StorageChannel),
      (db.rotateFrom channel).channels = db.channels := by
    intro db channel
    unfold Db.rotateFrom
    split
    · rfl
    · split
      · rfl
      · split <;> rfl
  intro ch hch
  have hsame : ∃ ch' ∈ σ.db.channels, ch'.id = ch.id := ⟨ch, hch, rfl⟩
  cases e with
  | addChannel storageId chatId =>
    show ∃ ch' ∈ (σ.db.addChannel σ.maxVariables σ.next storageId chatId).1.channels, _
    unfold Db.addChannel
    dsimp only
    split
    · exact hsame
    · split
      · exact hsame
      · rw [enqueueForChannel_channels]
        exact ⟨ch, List.mem_append_left _ hch, rfl⟩
  | updateChannel storageId channelId chatId =>
    show ∃ ch' ∈ (σ.db.updateChannel σ.maxVariables σ.next storageId channelId chatId).1.channels, _
    unfold Db.updateChannel
    split
    · exact hsame
    · split
      · exact hsame
      · dsimp only
        rw [enqueueForChannel_channels]
        refine hupdate _ _ _ ?_ ch hch
        exact fun _ => rfl
  | removeChannel storageId channelId => exact absurd trivial he
  | channelDied channelId =>
    show ∃ ch' ∈ (σ.db.channelDied channelId).channels, _
    unfold Db.channelDied
    split
    · exact hsame
    · rw [hrotate]
      refine hupdate _ _ _ ?_ ch hch
      exact fun _ => rfl
  | setWorkers workers => exact hsame
  | retryFailed storageId => exact hsame
  | copyFailed job =>
    unfold Process.edit
    dsimp only
    split <;> exact hsame
  | copied job source messageId =>
    unfold Process.edit
    dsimp only
    split <;> exact hsame
  | reuploaded job source telegramFileId messageId =>
    unfold Process.edit
    dsimp only
    split
    · split <;> exact hsame
    · exact hsame

lemma Db.AllStored.mono {db db' : Db} (h : db.AllStored)
    (hchunks : ∀ c ∈ db'.chunks, ∃ q ∈ db.chunks, q.id = c.id)
    (hreplicas : ∀ r ∈ db.replicas, r.status = .uploaded → (∃ c ∈ db'.chunks, c.id = r.chunkId) →
      r ∈ db'.replicas) : db'.AllStored := by
  intro c hc
  obtain ⟨q, hq, hid⟩ := hchunks c hc
  obtain ⟨r, hr, hrc, hup⟩ := h q hq
  exact ⟨r, hreplicas r hr hup ⟨c, hc, (hrc.trans hid).symm⟩, hrc.trans hid, hup⟩

/-- While no channel is removed, every chunk row keeps an uploaded replica. -/
lemma allStored_step {σ : Process} (h : σ.Intact) (hall : σ.db.AllStored) {a : Step}
    (ha : ¬ a.Removes) : (σ.step a).db.AllStored := by
  have hsame : ∀ {db' : Db}, db'.chunks = σ.db.chunks → (∀ r ∈ σ.db.replicas,
      r.status = .uploaded → r ∈ db'.replicas) → db'.AllStored := by
    intro db' hchunks hreplicas
    exact hall.mono (fun c hc => ⟨c, hchunks ▸ hc, rfl⟩) fun r hr hup _ => hreplicas r hr hup
  have hpurged : ∀ {ids : List Uuid} {db' : Db}, Db.Purged ids σ.db db' → db'.AllStored := by
    intro ids db' hp
    exact hall.mono (fun c hc => ⟨c, ((hp.chunks c).mp hc).1, rfl⟩)
      fun r hr _ hc => (hp.replicas r).mpr ⟨hr, hc⟩
  cases a with
  | arrive number r =>
    rw [(σ.arrive_writes number r).1]
    exact hall
  | act number a =>
    rcases σ.step_act number a with heq | ⟨u, o, -, hu, ho, hm, heq⟩
    · rw [heq]
      exact hall
    · rw [heq]
      show o.db.AllStored
      cases hm with
      | turn | refuse | linkFails => exact hall
      | purge purged | drop purged =>
        cases purged with
        | false => exact hall
        | true => exact hpurged (Db.purged_hardDeleteIds h.db _ []).2
      | replace hp hok =>
        obtain ⟨current, -, -, -, -, -, -, hchunks, hreplicas, -⟩ := Db.replaceContent_ok h.db hok
        refine hall.mono (fun c hc => ?_) fun r hr _ _ => hreplicas ▸ hr
        rw [hchunks] at hc
        obtain ⟨q, hq, rfl⟩ := List.mem_map.mp hc
        exact ⟨q, hq, (Db.movedChunk_id _ _ q).symm⟩
      | create hp hok =>
        obtain ⟨-, -, -, rfl⟩ := Db.insertFile_ok (Db.createFileRow_ok hok)
        exact hall
      | plan hp hok =>
        obtain ⟨-, hed, hch⟩ := Process.resolvePrimaryChannel_spec h.db hok
        refine hsame hed.chunks fun r hr hup => ?_
        cases hed.kept r hr hup with
        | inl hr => exact hr
        | inr hgone =>
          obtain ⟨ch, hm, hid⟩ := h.db.replicaChannel r hr
          exact absurd hid (hgone ch (hch ▸ hm))
      | send hp hslice htarget hfresh hok =>
        obtain ⟨-, -, -, rfl⟩ := Db.createChunkWithReplica_ok hok
        intro c hc
        cases List.mem_append.mp hc with
        | inl hc =>
          obtain ⟨r, hr, hrc⟩ := hall c hc
          exact ⟨r, List.mem_append_left _ hr, hrc⟩
        | inr hc =>
          rw [List.mem_singleton.mp hc]
          exact ⟨_, List.mem_append_right _ (List.mem_singleton_self _), rfl, rfl⟩
      | link hp hreplicas hok =>
        subst hreplicas
        obtain ⟨-, hreq⟩ := h.db.insertBatch hok
        exact hsame hreq.chunks fun r hr _ => hreq.kept r hr
      | @mark file again db' hp hok =>
        obtain ⟨db₁, hok₁, -, -, hchunks, hreplicas, -⟩ :=
          Db.updateById_ok h.db.wf file.id Db.inPlace_uploaded
        rw [Db.setAsUploaded, hok₁] at hok
        cases hok
        exact hsame hchunks fun r hr _ => hreplicas ▸ hr
  | disconnect number handed =>
    rw [Process.step, (Process.left_disconnect σ number handed).db]
    exact hall
  | edit e =>
    have ht := Process.tuned_edit h.db e
    refine hsame ht.chunks fun r hr hup => ?_
    cases ht.kept r hr hup with
    | inl hr => exact hr
    | inr hgone =>
      obtain ⟨ch, hm, hid⟩ := h.db.replicaChannel r hr
      obtain ⟨ch', hm', hid'⟩ := channels_edit ha ch hm
      exact absurd (hid'.trans hid) (hgone ch' hm')
  | restart order => exact hpurged (Db.purged_hardDeleteIds h.db _ order).2

/-- From a server without files, in every run of honest steps, whatever is read from an uploaded row
    with a content hash has this hash; and while no channel is removed, every such row can be read. -/
theorem hash_names_bytes {sha : Bytes → ContentHash} (hinj : Function.Injective sha) {σ₀ : Process}
    (h : σ₀.Intact) (hfiles : σ₀.db.files = []) (huploads : σ₀.uploads = []) (steps : List Step)
    (hok : AllOk Process.step (Honest sha) σ₀ steps) :
    Always Process.step (NamesBytes sha) σ₀ steps ∧
      ((∀ a ∈ steps, ¬ a.Removes) → Always Process.step Readable σ₀ steps) := by
  have hstart : Sound sha σ₀ := by
    refine ⟨h, ?_, ?_, ?_, ?_, ?_, ?_⟩
    · rw [huploads]
      exact fun u hu => absurd hu List.not_mem_nil
    · rw [hfiles]
      exact fun row hrow => absurd hrow List.not_mem_nil
    all_goals
      rw [huploads]
      exact fun u hu => absurd hu List.not_mem_nil
  have hsound := always_of_allOk (fun σ a hσ ha => hσ.step hinj ha) hstart hok
  rw [always_iff_prefixes] at hsound
  refine ⟨always_iff_prefixes.mpr fun pre hpre => (hsound pre hpre).namesBytes, fun hkeep => ?_⟩
  have hchunks : σ₀.db.AllStored := by
    intro c hc
    obtain ⟨f, hf, -⟩ := h.db.chunkFile c hc
    rw [hfiles] at hf
    exact absurd hf List.not_mem_nil
  have hkeeps : AllOk Process.step (fun _ a => ¬ a.Removes) σ₀ steps := allOk_of_forall hkeep
  have hstored := always_of_allOk (P := fun σ : Process => σ.Intact ∧ σ.db.AllStored)
    (fun σ a hσ ha => ⟨hσ.1.step a, allStored_step hσ.1 hσ.2 ha⟩) ⟨h, hchunks⟩ hkeeps
  rw [always_iff_prefixes] at hstored ⊢
  intro pre hpre row hrow hup hsome
  obtain ⟨hash, hhash⟩ := Option.isSome_iff_exists.mp hsome
  obtain ⟨body, -, hholds⟩ := (hsound pre hpre).rows row hrow hash hhash
  exact hholds.readable fun c hc _ => (hstored pre hpre).2 c hc

/-! ## A file that changes behind its hash -/

/-- SHA-256 on two files; other files have names of their own. -/
def digest (body : Bytes) : ContentHash :=
  if body = [1, 2] then "sha256:a12871fee210fb8619291eaea194581cbd2531e4b23759d225f6806923f63222"
  else if body = [7, 8] then
    "sha256:bd7c250566c6e99f47c174b589b7551f8b0e930ed056511d1e8f653bc71d3c4a"
  else String.ofList ('#' :: body.map fun byte => Char.ofNat byte.toNat)

/-- A version of two bytes that is sent under the hash of some bytes. -/
def sentAs (hashed : Bytes) : UploadRequest where
  storageId := 0
  path := "a.txt".toList
  body := [7, 8]
  chunkSize := 1
  sourceCreatedAt := none
  sourceMtime := none
  contentHash := some (digest hashed)
  replace := true
  isFile := rfl
  chunkSize_pos := Nat.zero_lt_one

def storeAs (hashed : Bytes) : List Step :=
  [.arrive 0 (sentAs hashed), .act 0 .look, .act 0 .settle, .act 0 .create, .act 0 .begin,
    .act 0 .plan, .act 0 (.send 0 "new-0" 10), .act 0 (.send 1 "new-1" 11), .act 0 .link,
    .act 0 .mark, .act 0 .mark]

lemma char_byte_injective : Function.Injective fun byte : UInt8 => Char.ofNat byte.toNat := by
  have hval : ∀ n < 256, (Char.ofNat n).toNat = n := by decide +kernel
  intro x y hxy
  have heq := congrArg Char.toNat hxy
  dsimp only at heq
  rw [hval _ x.toNat_lt, hval _ y.toNat_lt] at heq
  exact UInt8.toNat_inj.mp heq

lemma digest_injective : Function.Injective digest := by
  have hother : ∀ (body : Bytes) (hash : ContentHash), hash.toList.head? = some 's' →
      String.ofList ('#' :: body.map fun byte => Char.ofNat byte.toNat) ≠ hash := by
    rintro body hash hs rfl
    rw [String.toList_ofList, List.head?_cons] at hs
    exact absurd (Option.some.inj hs) (by decide)
  intro x y hxy
  unfold digest at hxy
  split at hxy
  · case isTrue hx =>
    split at hxy
    · case isTrue hy => rw [hx, hy]
    · split at hxy
      · exact absurd hxy (by decide)
      · exact absurd hxy.symm (hother y _ (by decide))
  · split at hxy
    · case isTrue hx =>
      split at hxy
      · exact absurd hxy (by decide)
      · split at hxy
        · case isTrue hy => rw [hx, hy]
        · exact absurd hxy.symm (hother y _ (by decide))
    · split at hxy
      · exact absurd hxy (hother x _ (by decide))
      · split at hxy
        · exact absurd hxy (hother x _ (by decide))
        · have hlist := congrArg String.toList hxy
          rw [String.toList_ofList, String.toList_ofList] at hlist
          exact char_byte_injective.list_map (List.cons.inj hlist).2

/-- A file that changed after it was hashed is stored under the hash of the bytes it had. -/
theorem changedFile_misnamed :
    ¬ NamesBytes digest (run Process.step twoChannels (storeAs [1, 2])) := by
  intro h
  have hrow : (sentAs [1, 2]).inFile.toRow 4 true ∈
      (run Process.step twoChannels (storeAs [1, 2])).db.files := by
    decide +kernel
  have hread : IsReading (run Process.step twoChannels (storeAs [1, 2])) 4 [[7], [8]] := by
    have hchunks : (run Process.step twoChannels (storeAs [1, 2])).db.chunksOf 4 =
        [⟨5, 4, 0⟩, ⟨7, 4, 1⟩] := by
      decide +kernel
    unfold IsReading
    rw [hchunks]
    exact .cons (by decide +kernel) (.cons (by decide +kernel) .nil)
  have hnamed := h _ hrow rfl _ rfl _ hread
  exact absurd hnamed (by decide)

/-- Sent under the hash of its bytes it is stored under their hash. -/
theorem sentBytes_named :
    NamesBytes digest (run Process.step twoChannels (storeAs [7, 8])) ∧
      Readable (run Process.step twoChannels (storeAs [7, 8])) := by
  have hnamed := hash_names_bytes digest_injective twoChannels_intact rfl rfl (storeAs [7, 8])
    (by decide +kernel)
  refine ⟨hnamed.1.last, (hnamed.2 ?_).last⟩
  simp only [storeAs, List.forall_mem_cons, Step.Removes, not_false_eq_true, true_and,
    List.not_mem_nil, false_implies, implies_true]

end Sarca.Server
