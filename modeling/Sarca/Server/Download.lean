import Sarca.Server.Compose

/-!
# Range reads

`downloadFile` (Rust `FilesRouter::download_file`) answers a `Range` request from the chunk rows of a
file: `parseBytesRange` reads the header, `resolveChunkCandidates` finds the documents of each position,
and `streamChunks` is the loop of the response body. What Telegram and the disk do to a response is a
`Transfer`. The loop takes the offset of a chunk from its place in the sorted list and its bytes from its
position.

`Download.Right` asks of a response that its bytes are the bytes of the range, and all of them unless it
ends with an error. `rangeReads_iff`: that is so for every file that relays can have stored just when
`RangeStored` holds, each chunk the range crosses stands at the place of its position.

The background warming of the chunk cache is left out, and a cached file is the document it was made of.
-/

namespace Sarca.Server
open Sarca.Lib

/-! ## The header -/

/-- One range of bytes; `none` without a header, an error when it cannot be satisfied
    (Rust `parse_bytes_range`). -/
def parseBytesRange (header : Option (List Char)) (fileSize : Nat) :
    Except Unit (Option (Nat × Nat)) :=
  match header with
  | none => .ok none
  | some header =>
    if fileSize = 0 then .error ()
    else
      match (trim header).dropPrefix? "bytes=".toList with
      | none => .error ()
      | some spec =>
        -- only a single range is supported
        if ',' ∈ spec then .error ()
        else
          match splitOnce '-' spec with
          | none => .error ()
          | some ([], suffix) =>
            match parseU64 suffix with
            | none | some 0 => .error ()
            | some n => .ok (some (fileSize - n, fileSize - 1))
          | some (first, last) =>
            match parseU64 first with
            | none => .error ()
            | some start =>
              if fileSize ≤ start then .error ()
              else
                match if last = [] then some (fileSize - 1) else
                    (parseU64 last).map fun n => min n (fileSize - 1) with
                | none => .error ()
                | some stop => if stop < start then .error () else .ok (some (start, stop))

def requestedRange (header : Option (List Char)) (fileSize : Nat) : Option (Nat × Nat × Nat) :=
  match parseBytesRange header fileSize with
  | .error _ => none
  | .ok none => some (0, fileSize - 1, 200)
  | .ok (some (start, stop)) => some (start, stop, 206)

/-! ## The sources of a chunk -/

namespace Db

/-- Active channels of a storage, the primary one first (Rust `ordered_active_channels`). -/
def orderedActiveChannels (db : Db) (storageId : Uuid) : Except SarcaError (List StorageChannel) :=
  match db.storages.find? fun s => s.id = storageId with
  | none => .error (.doesNotExist "storage")
  | some storage =>
    let key := fun c : StorageChannel => if c.position = storage.primaryPosition then 0 else 1
    .ok ((db.activeChannels storageId).insertionSort fun c c' =>
      key c < key c' ∨ key c = key c' ∧ c.position ≤ c'.position)

/-- The positions of a file with a document on a channel
    (Rust `list_chunks_with_replica_for_channel`). -/
def listChunksWithReplicaForChannel (db : Db) (fileId channelId : Uuid) : List (Int × String) :=
  (db.chunksOf fileId).flatMap fun c =>
    (db.replicas.filter fun r => r.chunkId = c.id ∧ r.channelId = channelId ∧ r.status = .uploaded)
      |>.filterMap fun r => r.telegramFileId.map fun telegramFileId => (c.position, telegramFileId)

/-- The documents of a position, by channel priority (Rust `resolve_chunk_candidates`). -/
def resolveChunkCandidates (db : Db) (fileId : Uuid) (channels : List StorageChannel)
    (position : Int) : List (String × Uuid) :=
  channels.flatMap fun channel =>
    ((db.listChunksWithReplicaForChannel fileId channel.id).filter fun r => r.1 = position).map
      fun r => (r.2, channel.id)

end Db

/-! ## The body of a response -/

inductive StreamError where
  | sarca (e : SarcaError)
  | telegram (message : String)
  | io (message : String)
deriving DecidableEq

/-- What Telegram and the disk do to a response; the first number is the place of a chunk. -/
structure Transfer where
  /-- whether a try at a document fails -/
  fetch : Nat → Nat → Option String
  /-- whether the cached file cannot be opened or sought -/
  opened : Nat → Option String
  /-- how many bytes a read gives -/
  read : Nat → Nat → Except String Nat

/-- The bytes of the first document that can be had (Rust `ensure_chunk_cached`). -/
def ensureChunkCached (documents : List (String × Bytes)) (fetch : Nat → Option String) (k : Nat)
    (lastErr : StreamError) : List (String × Uuid) → Except StreamError Bytes
  | [] => .error lastErr
  | (telegramFileId, _) :: rest =>
    match fetch k, documents.lookup telegramFileId with
    | none, some bytes => .ok bytes
    | none, none => ensureChunkCached documents fetch (k + 1) (.telegram telegramFileId) rest
    | some message, _ => ensureChunkCached documents fetch (k + 1) (.telegram message) rest

/-- The reads of one cached file, from where it was sought to. -/
def readLoop (read : Nat → Except String Nat) :
    Nat → Nat → Bytes → Nat → List Bytes × Option StreamError
  | 0, _, _, _ => ([], none)
  | fuel + 1, k, rest, remaining =>
    if remaining = 0 then ([], none)
    else
      match read k with
      | .error message => ([], some (.io message))
      | .ok n =>
        if rest = [] then ([], none)
        else
          let n := max 1 (min n 65536)
          let next := readLoop read fuel (k + 1) (rest.drop n)
            (remaining - min (rest.take n).length remaining)
          ((rest.take n).take remaining :: next.1, next.2)

/-- The chunk rows from the place `idx` on, with the bytes that remain and the cursor. -/
def streamChunks (documents : List (String × Bytes)) (candidates : Int → List (String × Uuid))
    (t : Transfer) (chunkSize first last : Nat) :
    Nat → List FileChunk → Nat → Nat → List Bytes × Option StreamError
  | _, [], _, _ => ([], none)
  | idx, chunk :: chunks, remaining, cursor =>
    if idx < first ∨ last < idx ∨ remaining = 0 then
      streamChunks documents candidates t chunkSize first last (idx + 1) chunks remaining cursor
    else
      let skip := cursor - idx * chunkSize
      match ensureChunkCached documents (t.fetch idx) 0
          (.sarca (.doesNotExist "chunk on any replicated channel")) (candidates chunk.position) with
      | .error e => ([], some e)
      | .ok bytes =>
        match t.opened idx with
        | some message => ([], some (.io message))
        | none =>
          match readLoop (t.read idx) (bytes.length + 1) 0 (bytes.drop skip) remaining with
          | (pieces, some e) => (pieces, some e)
          | (pieces, none) =>
            let n := pieces.flatten.length
            let next := streamChunks documents candidates t chunkSize first last (idx + 1) chunks
              (remaining - n) (cursor + n)
            (pieces ++ next.1, next.2)

inductive Download where
  /-- 416, with the file's size -/
  | rangeNotSatisfiable (fileSize : Nat)
  | refused (e : SarcaError)
  | content (status start stop contentLength : Nat) (stream : List Bytes × Option StreamError)
deriving DecidableEq

def readChunkSize (row : FileRow) (defaultChunkSize : Nat) : Nat :=
  match row.chunkSizeBytes with
  | some n => if 0 < n then n.toNat else defaultChunkSize
  | none => defaultChunkSize

/-- Rust `FilesRouter::download_file`. -/
def downloadFile (db : Db) (documents : List (String × Bytes)) (t : Transfer)
    (defaultChunkSize : Nat) (storageId : Uuid) (row : FileRow) (header : Option (List Char)) :
    Download :=
  let chunks := db.chunksOf row.id
  let fileSize := row.size.toNat
  let chunkSize := readChunkSize row defaultChunkSize
  match requestedRange header fileSize with
  | none => .rangeNotSatisfiable fileSize
  | some (start, stop, status) =>
    if fileSize = 0 then .content 200 0 0 0 ([], none)
    else
      let stop := min stop (fileSize - 1)
      if stop < start then .rangeNotSatisfiable fileSize
      else
        match db.orderedActiveChannels storageId with
        | .error e => .refused e
        | .ok [] => .refused .noActiveChannel
        | .ok channels =>
          .content status start stop (stop - start + 1)
            (streamChunks documents (db.resolveChunkCandidates row.id channels) t chunkSize
              (start / chunkSize) (stop / chunkSize) 0 chunks (stop - start + 1) start)

/-! ## What is asked -/

/-- The bytes of a response are those of its range, all of them unless it ends with an error. -/
def Download.Right (body : Bytes) : Download → Prop
  | .content _ start stop contentLength (pieces, e) =>
    pieces.flatten <+: (body.drop start).take (stop - start + 1) ∧
      (e.isNone → pieces.flatten = (body.drop start).take (stop - start + 1) ∧
        pieces.flatten.length = contentLength)
  | _ => True

/-- Each chunk row of a file stores a slice of a body. -/
def StoresSlices (db : Db) (documents : List (String × Bytes)) (row : FileRow) (chunkSize : Nat)
    (body : Bytes) : Prop :=
  ∀ c ∈ db.chunks, c.fileId = row.id →
    ∃ position < chunkCount body.length chunkSize, c.position = toPosition position ∧
      ∀ r ∈ db.replicas, r.chunkId = c.id → r.Readable →
        r.read documents = some (slice body chunkSize position)

/-- What relays make of a row: its positions are inside the file, and different chunks have different
    documents. -/
structure Relayed (db : Db) (row : FileRow) (chunkSize : Nat) : Prop where
  inside : ∀ c ∈ db.chunks, c.fileId = row.id → c.position < chunkCount row.size.toNat chunkSize
  apart : ∀ c ∈ db.chunks, ∀ c' ∈ db.chunks, c.fileId = row.id → c'.fileId = row.id →
    ∀ r ∈ db.replicas, ∀ r' ∈ db.replicas, r.chunkId = c.id → r'.chunkId = c'.id → r.Readable →
      r'.Readable → r.telegramFileId = r'.telegramFileId → c = c'

/-- As far as the chunks before it have documents, each chunk of a range stands at the place of its
    position or has no document. -/
def RangeStored (chunks : List FileChunk) (candidates : Int → List (String × Uuid))
    (chunkSize total start stop : Nat) : Prop :=
  ∀ i, start / chunkSize ≤ i → i ≤ stop / chunkSize →
    (∀ j, start / chunkSize ≤ j → j < i →
      ∃ c, chunks[j]? = some c ∧ candidates c.position ≠ []) →
    ∃ c, chunks[i]? = some c ∧
      (candidates c.position = [] ∨ c.position = i ∧ (i < 32767 ∨ total ≤ 32768))

/-- The range that is asked for is stored in its place. -/
def Downloadable (db : Db) (defaultChunkSize : Nat) (storageId : Uuid) (row : FileRow)
    (header : Option (List Char)) : Prop :=
  let chunkSize := readChunkSize row defaultChunkSize
  ∀ start stop status channels, requestedRange header row.size.toNat = some (start, stop, status) →
    row.size.toNat ≠ 0 → start ≤ min stop (row.size.toNat - 1) →
    db.orderedActiveChannels storageId = .ok channels → channels ≠ [] →
      RangeStored (db.chunksOf row.id) (db.resolveChunkCandidates row.id channels) chunkSize
        (chunkCount row.size.toNat chunkSize) start (min stop (row.size.toNat - 1))

/-! ## Chunk rows and their places -/

lemma chunksOf_strict {db : Db} {n : Uuid} (h : db.Intact n) (fileId : Uuid) :
    (db.chunksOf fileId).Pairwise fun c c' => c.position < c'.position := by
  have hnodup : (db.chunksOf fileId).Nodup :=
    (List.perm_insertionSort _ _).nodup_iff.mpr (h.chunkNodup.of_map.filter _)
  refine ((chunksOf_pairwise db fileId).and hnodup).imp_of_mem fun {c c'} hc hc' hle => ?_
  obtain ⟨hm, hf⟩ := mem_chunksOf.mp hc
  obtain ⟨hm', hf'⟩ := mem_chunksOf.mp hc'
  refine lt_of_le_of_ne hle.1 fun heq => hle.2 ?_
  exact h.chunkPosition c hm c' hm' (hf.trans hf'.symm) heq

lemma place_le_position {db : Db} {n : Uuid} (h : db.Intact n) (fileId : Uuid) {i : Nat}
    {c : FileChunk} (hc : (db.chunksOf fileId)[i]? = some c) : (i : Int) ≤ c.position := by
  have hstrict := chunksOf_strict h fileId
  induction i generalizing c with
  | zero => exact (h.chunkRange c (mem_chunksOf.mp (List.mem_of_getElem? hc)).1).1
  | succ i ih =>
    obtain ⟨hlt, hget⟩ := List.getElem?_eq_some_iff.mp hc
    have hprev := ih (List.getElem?_eq_getElem (Nat.lt_of_succ_lt hlt))
    have hnext := List.pairwise_iff_getElem.mp hstrict i (i + 1) (Nat.lt_of_succ_lt hlt) hlt
      (Nat.lt_succ_self i)
    rw [hget] at hnext
    omega

lemma mem_candidates {db : Db} {fileId : Uuid} {channels : List StorageChannel} {position : Int}
    {document : String × Uuid}
    (h : document ∈ db.resolveChunkCandidates fileId channels position) :
    ∃ c ∈ db.chunks, c.fileId = fileId ∧ c.position = position ∧
      ∃ r ∈ db.replicas, r.chunkId = c.id ∧ r.Readable ∧ r.telegramFileId = some document.1 := by
  obtain ⟨channel, -, hmem⟩ := List.mem_flatMap.mp h
  obtain ⟨found, hfound, rfl⟩ := List.mem_map.mp hmem
  obtain ⟨hlist, hposition⟩ := List.mem_filter.mp hfound
  obtain ⟨c, hc, hreplicas⟩ := List.mem_flatMap.mp hlist
  obtain ⟨r, hr, hread⟩ := List.mem_filterMap.mp hreplicas
  obtain ⟨hr, hkeys⟩ := List.mem_filter.mp hr
  obtain ⟨hchunk, -, hstatus⟩ := of_decide_eq_true hkeys
  obtain ⟨telegramFileId, hid, rfl⟩ := Option.map_eq_some_iff.mp hread
  obtain ⟨hm, hf⟩ := mem_chunksOf.mp hc
  refine ⟨c, hm, hf, of_decide_eq_true hposition, r, hr, hchunk, ⟨hstatus, ?_⟩, hid⟩
  rw [hid]
  rfl

lemma ensureChunkCached_ok {documents : List (String × Bytes)} {fetch : Nat → Option String}
    {candidates : List (String × Uuid)} {k : Nat} {lastErr : StreamError} {bytes : Bytes}
    (h : ensureChunkCached documents fetch k lastErr candidates = .ok bytes) :
    ∃ document ∈ candidates, documents.lookup document.1 = some bytes := by
  induction candidates generalizing k lastErr with
  | nil => cases h
  | cons document rest ih =>
    unfold ensureChunkCached at h
    split at h
    · case h_1 bytes' hlookup =>
      cases h
      exact ⟨document, List.mem_cons_self, hlookup⟩
    all_goals
      obtain ⟨document', hmem, hlookup⟩ := ih h
      exact ⟨document', List.mem_cons_of_mem _ hmem, hlookup⟩

lemma fetched_slice {db : Db} {n : Uuid} (hint : db.Intact n)
    {documents : List (String × Bytes)} {row : FileRow} {chunkSize : Nat} {body : Bytes}
    (hslices : StoresSlices db documents row chunkSize body) {channels : List StorageChannel}
    {c : FileChunk} (hc : c ∈ db.chunksOf row.id) {fetch : Nat → Option String} {k : Nat}
    {lastErr : StreamError} {bytes : Bytes} (hok : ensureChunkCached documents fetch k lastErr
      (db.resolveChunkCandidates row.id channels c.position) = .ok bytes) :
    ∃ position < chunkCount body.length chunkSize, c.position = toPosition position ∧
      bytes = slice body chunkSize position := by
  obtain ⟨document, hmem, hlookup⟩ := ensureChunkCached_ok hok
  obtain ⟨c', hc', hf', hpos, r, hr, hrc, hread, hid⟩ := mem_candidates hmem
  obtain ⟨hm, hf⟩ := mem_chunksOf.mp hc
  obtain rfl := hint.chunkPosition c' hc' c hm (hf'.trans hf.symm) hpos
  obtain ⟨position, hlt, htrue, hreads⟩ := hslices c' hm hf
  refine ⟨position, hlt, htrue, ?_⟩
  have hread' := hreads r hr hrc hread
  rw [ChunkReplica.read, hid, Option.bind_some, hlookup] at hread'
  exact Option.some.inj hread'

/-! ## Reads -/

lemma readLoop_spec (read : Nat → Except String Nat) {fuel : Nat} (k : Nat) {rest : Bytes}
    (remaining : Nat) (hfuel : rest.length < fuel) :
    (readLoop read fuel k rest remaining).1.flatten <+: rest.take remaining ∧
      ((readLoop read fuel k rest remaining).2 = none →
        (readLoop read fuel k rest remaining).1.flatten = rest.take remaining) := by
  induction fuel generalizing k rest remaining with
  | zero => exact absurd hfuel (Nat.not_lt_zero _)
  | succ fuel ih =>
    unfold readLoop
    split
    · case isTrue hdone =>
      rw [hdone, List.take_zero]
      exact ⟨List.prefix_refl _, fun _ => rfl⟩
    · split
      · exact ⟨List.nil_prefix, fun hno => absurd hno (Option.some_ne_none _)⟩
      · case h_2 n hn =>
        split
        · case isTrue hend =>
          rw [hend, List.take_nil]
          exact ⟨List.prefix_refl _, fun _ => rfl⟩
        · case isFalse hmore =>
          have hpos := List.length_pos_iff.mpr hmore
          generalize hm : max 1 (min n 65536) = m
          have hone : 1 ≤ m := by omega
          have hdrop : (rest.drop m).length < fuel := by
            rw [List.length_drop]
            omega
          obtain ⟨hpre, hall⟩ := ih (k + 1) (remaining - min (rest.take m).length remaining) hdrop
          have hsplit : rest.take remaining = (rest.take m).take remaining ++
              (rest.drop m).take (remaining - min (rest.take m).length remaining) := by
            conv_lhs => rw [← List.take_append_drop m rest]
            rw [List.take_append]
            congr 1
            congr 1
            omega
          dsimp only
          rw [List.flatten_cons, hsplit]
          refine ⟨(List.prefix_append_right_inj _).mpr hpre, fun hnone => ?_⟩
          rw [hall hnone]

/-! ## The loop -/

section Loop

variable {documents : List (String × Bytes)} {candidates : Int → List (String × Uuid)} {t : Transfer}
  {chunkSize first last : Nat}

lemma streamChunks_zero (chunks : List FileChunk) (idx cursor : Nat) :
    streamChunks documents candidates t chunkSize first last idx chunks 0 cursor = ([], none) := by
  induction chunks generalizing idx with
  | nil => rfl
  | cons c chunks ih =>
    rw [streamChunks, if_pos (Or.inr (Or.inr rfl))]
    exact ih (idx + 1)

lemma streamChunks_skip (chunks : List FileChunk) {idx : Nat} (hle : idx ≤ first)
    (remaining cursor : Nat) :
    streamChunks documents candidates t chunkSize first last idx chunks remaining cursor =
      streamChunks documents candidates t chunkSize first last first (chunks.drop (first - idx))
        remaining cursor := by
  induction chunks generalizing idx with
  | nil => rw [List.drop_nil, streamChunks, streamChunks]
  | cons c chunks ih =>
    cases Nat.lt_or_eq_of_le hle with
    | inl hlt =>
      rw [streamChunks, if_pos (Or.inl hlt), ih hlt, show first - idx = first - (idx + 1) + 1 by omega]
      rfl
    | inr heq => rw [heq, Nat.sub_self, List.drop_zero]

lemma cursor_step {start stop idx cursor remaining : Nat}
    (hfirst : start / chunkSize ≤ idx) (hsize : 0 < chunkSize)
    (hcursor : cursor = min (stop + 1) (max start (idx * chunkSize)))
    (hremaining : cursor + remaining = stop + 1) (hmore : 0 < remaining) :
    idx * chunkSize ≤ cursor ∧ cursor < (idx + 1) * chunkSize ∧ idx ≤ stop / chunkSize ∧
      cursor + min remaining ((idx + 1) * chunkSize - cursor) =
        min (stop + 1) (max start ((idx + 1) * chunkSize)) := by
  have hstart : start < (idx + 1) * chunkSize := by
    have hlt := Nat.lt_div_mul_add (a := start) hsize
    have hle := Nat.mul_le_mul_right chunkSize hfirst
    rw [Nat.succ_mul]
    omega
  have hnext : (idx + 1) * chunkSize = idx * chunkSize + chunkSize := Nat.succ_mul idx chunkSize
  refine ⟨by omega, by omega, ?_, by omega⟩
  rw [Nat.le_div_iff_mul_le hsize]
  omega

lemma drop_slice {body : Bytes} {idx cursor : Nat} (hle : idx * chunkSize ≤ cursor) :
    (slice body chunkSize idx).drop (cursor - idx * chunkSize) =
      (body.drop cursor).take ((idx + 1) * chunkSize - cursor) := by
  have hnext : (idx + 1) * chunkSize = idx * chunkSize + chunkSize := Nat.succ_mul idx chunkSize
  rw [slice, List.drop_take, List.drop_drop]
  congr 1
  · omega
  · congr 1
    omega

lemma fetched_in_place {db : Db} {n : Uuid} (hint : db.Intact n) {row : FileRow} {body : Bytes}
    (hslices : StoresSlices db documents row chunkSize body) {channels : List StorageChannel}
    {c : FileChunk} (hc : c ∈ db.chunksOf row.id) {fetch : Nat → Option String} {k : Nat}
    {lastErr : StreamError} {bytes : Bytes} (hok : ensureChunkCached documents fetch k lastErr
      (db.resolveChunkCandidates row.id channels c.position) = .ok bytes) {idx : Nat}
    (hplace : db.resolveChunkCandidates row.id channels c.position = [] ∨
      c.position = idx ∧ (idx < 32767 ∨ chunkCount body.length chunkSize ≤ 32768)) :
    bytes = slice body chunkSize idx := by
  obtain ⟨position, hlt, htrue, hbytes⟩ := fetched_slice hint hslices hc hok
  cases hplace with
  | inl hnone =>
    rw [hnone] at hok
    cases hok
  | inr hplace =>
    have heq : position = idx := by
      obtain ⟨hpos, hsmall⟩ := hplace
      unfold toPosition at htrue
      omega
    rw [hbytes, heq]

/-- While the chunks stand in their places the bytes of the range are streamed. -/
lemma streamChunks_right {db : Db} {n : Uuid} (hint : db.Intact n) {row : FileRow} {body : Bytes}
    {channels : List StorageChannel} {start stop : Nat} (hsize : 0 < chunkSize)
    (hslices : StoresSlices db documents row chunkSize body) (hstop : stop < body.length)
    (hstored : RangeStored (db.chunksOf row.id) (db.resolveChunkCandidates row.id channels) chunkSize
      (chunkCount body.length chunkSize) start stop)
    {chunks : List FileChunk} {idx cursor remaining : Nat}
    (hchunks : chunks = (db.chunksOf row.id).drop idx) (hfirst : start / chunkSize ≤ idx)
    (hcursor : cursor = min (stop + 1) (max start (idx * chunkSize)))
    (hremaining : cursor + remaining = stop + 1)
    (hpast : ∀ j, start / chunkSize ≤ j → j < idx → ∃ c, (db.chunksOf row.id)[j]? = some c ∧
      db.resolveChunkCandidates row.id channels c.position ≠ []) :
    let out := streamChunks documents (db.resolveChunkCandidates row.id channels) t chunkSize
      (start / chunkSize) (stop / chunkSize) idx chunks remaining cursor
    out.1.flatten <+: (body.drop cursor).take remaining ∧
      (out.2 = none → out.1.flatten = (body.drop cursor).take remaining) := by
  induction chunks generalizing idx cursor remaining with
  | nil =>
    refine ⟨List.nil_prefix, fun _ => ?_⟩
    cases Nat.eq_zero_or_pos remaining with
    | inl hzero => rw [hzero, List.take_zero]; rfl
    | inr hmore =>
      obtain ⟨-, -, hlast, -⟩ := cursor_step hfirst hsize hcursor hremaining hmore
      obtain ⟨c, hc, -⟩ := hstored idx hfirst hlast hpast
      have hlen := List.drop_eq_nil_iff.mp hchunks.symm
      rw [List.getElem?_eq_none hlen] at hc
      cases hc
  | cons c chunks ih =>
    cases Nat.eq_zero_or_pos remaining with
    | inl hzero =>
      rw [hzero, streamChunks_zero, List.take_zero]
      exact ⟨List.prefix_refl _, fun _ => rfl⟩
    | inr hmore =>
      obtain ⟨hle, hlt, hlast, hstep⟩ := cursor_step hfirst hsize hcursor hremaining hmore
      have hget : (db.chunksOf row.id)[idx]? = some c := by
        rw [← List.head?_drop, ← hchunks, List.head?_cons]
      have hmem := List.mem_of_getElem? hget
      have hrest : chunks = (db.chunksOf row.id).drop (idx + 1) := by
        rw [← List.tail_drop, ← hchunks, List.tail_cons]
      obtain ⟨c', hc', hplace⟩ := hstored idx hfirst hlast hpast
      rw [hget] at hc'
      cases hc'
      have hbroken : ∀ e : StreamError,
          ([] : List Bytes).flatten <+: (body.drop cursor).take remaining ∧
            (some e = none → ([] : List Bytes).flatten = (body.drop cursor).take remaining) :=
        fun e => ⟨List.nil_prefix, fun hno => absurd hno (Option.some_ne_none e)⟩
      rw [streamChunks, if_neg (by omega)]
      dsimp only
      split
      · exact hbroken _
      · case h_2 bytes hok =>
        split
        · exact hbroken _
        · -- the chunk that was had is the one at this place
          obtain rfl := fetched_in_place hint hslices hmem hok hplace
          rw [drop_slice hle]
          have hlen : ((body.drop cursor).take ((idx + 1) * chunkSize - cursor)).length <
              (slice body chunkSize idx).length + 1 := by
            rw [← drop_slice hle, List.length_drop]
            omega
          obtain ⟨hpre, hall⟩ := readLoop_spec (t.read idx) 0 remaining hlen
          rw [List.take_take] at hpre hall
          split
          · case h_1 pieces e hread =>
            rw [hread] at hpre
            refine ⟨hpre.trans (List.take_prefix_take_left (Nat.min_le_left _ _)), ?_⟩
            exact fun hno => absurd hno (Option.some_ne_none e)
          · case h_2 pieces hread =>
            rw [hread] at hall
            have hpieces := hall rfl
            generalize hm : min remaining ((idx + 1) * chunkSize - cursor) = m at hstep hpieces
            have hn : pieces.flatten.length = m := by
              rw [hpieces, List.length_take, List.length_drop]
              omega
            have hleft : cursor + m + (remaining - m) = stop + 1 := by omega
            have hsplit : (body.drop cursor).take remaining =
                pieces.flatten ++ (body.drop (cursor + m)).take (remaining - m) := by
              rw [hpieces, ← List.drop_drop, ← List.take_add]
              congr 1
              omega
            obtain ⟨hmorepre, hmoreall⟩ := ih hrest (Nat.le_succ_of_le hfirst) hstep hleft (by
              intro j hj hjlt
              cases Nat.lt_succ_iff_lt_or_eq.mp hjlt with
              | inl hjlt => exact hpast j hj hjlt
              | inr heq =>
                refine ⟨c, heq ▸ hget, fun hnone => ?_⟩
                rw [hnone] at hok
                cases hok)
            dsimp only
            rw [List.flatten_append, hn, hsplit]
            refine ⟨(List.prefix_append_right_inj _).mpr hmorepre, fun hnone => ?_⟩
            rw [hmoreall hnone]

end Loop

/-! ## Responses that nothing disturbs -/

def smooth : Transfer where
  fetch := fun _ _ => none
  opened := fun _ => none
  read := fun _ _ => .ok 65536

/-- The chunk rows of a file store the slices with these numbers. -/
def StoresNumbered (db : Db) (documents : List (String × Bytes)) (row : FileRow) (chunkSize : Nat)
    (body : Bytes) (number : FileChunk → Nat) : Prop :=
  ∀ c ∈ db.chunks, c.fileId = row.id → ∀ r ∈ db.replicas, r.chunkId = c.id → r.Readable →
    r.read documents = some (slice body chunkSize (number c))

lemma exists_documents {db : Db} {row : FileRow} {chunkSize : Nat} (h : Relayed db row chunkSize)
    (body : Bytes) (number : FileChunk → Nat) :
    ∃ documents, StoresNumbered db documents row chunkSize body number := by
  refine ⟨(db.chunksOf row.id).flatMap fun c =>
    (db.replicas.filter fun r => r.chunkId = c.id ∧ r.Readable).filterMap fun r =>
      r.telegramFileId.map fun telegramFileId =>
        (telegramFileId, slice body chunkSize (number c)), ?_⟩
  intro c hc hf r hr hrc hread
  obtain ⟨telegramFileId, hid⟩ := Option.isSome_iff_exists.mp hread.2
  rw [ChunkReplica.read, hid, Option.bind_some]
  cases hlookup : List.lookup telegramFileId _ with
  | none =>
    have hno := List.lookup_eq_none_iff.mp hlookup (telegramFileId, slice body chunkSize (number c)) (by
      refine List.mem_flatMap.mpr ⟨c, mem_chunksOf.mpr ⟨hc, hf⟩, List.mem_filterMap.mpr ⟨r, ?_, ?_⟩⟩
      · exact List.mem_filter.mpr ⟨hr, decide_eq_true ⟨hrc, hread⟩⟩
      · rw [hid]
        rfl)
    simp at hno
  | some bytes =>
    obtain ⟨before, after, heq, -⟩ := List.lookup_eq_some_iff.mp hlookup
    have hmem : (telegramFileId, bytes) ∈ before ++ (telegramFileId, bytes) :: after := by simp
    rw [← heq] at hmem
    obtain ⟨c', hc', hmem⟩ := List.mem_flatMap.mp hmem
    obtain ⟨r', hr', hname⟩ := List.mem_filterMap.mp hmem
    obtain ⟨hr', hkeys⟩ := List.mem_filter.mp hr'
    obtain ⟨hrc', hread'⟩ := of_decide_eq_true hkeys
    obtain ⟨name, hname', hpair⟩ := Option.map_eq_some_iff.mp hname
    cases hpair
    obtain ⟨hm', hf'⟩ := mem_chunksOf.mp hc'
    rw [h.apart c' hm' c hc hf' hf r' hr' r hr hrc' hrc hread' hread (hname'.trans hid.symm)]

lemma readLoop_smooth (fuel k n : Nat) (rest : Bytes) (remaining : Nat) :
    (readLoop (fun _ => .ok n) fuel k rest remaining).2 = none := by
  induction fuel generalizing k rest remaining with
  | zero => rfl
  | succ fuel ih =>
    unfold readLoop
    dsimp only
    split
    · rfl
    · split
      · rfl
      · exact ih (k + 1) _ _

section Smooth

variable {db : Db} {n : Uuid} {documents : List (String × Bytes)} {row : FileRow} {chunkSize : Nat}
  {body : Bytes} {number : FileChunk → Nat} {channels : List StorageChannel}

lemma ensureChunkCached_smooth (hint : db.Intact n)
    (hstores : StoresNumbered db documents row chunkSize body number) {c : FileChunk}
    (hc : c ∈ db.chunksOf row.id)
    (hsome : db.resolveChunkCandidates row.id channels c.position ≠ []) (lastErr : StreamError) :
    ensureChunkCached documents (fun _ => none) 0 lastErr
        (db.resolveChunkCandidates row.id channels c.position) =
      .ok (slice body chunkSize (number c)) := by
  obtain ⟨document, rest, heq⟩ := List.exists_cons_of_ne_nil hsome
  have hmem : document ∈ db.resolveChunkCandidates row.id channels c.position := by
    rw [heq]
    exact List.mem_cons_self
  obtain ⟨c', hc', hf', hpos, r, hr, hrc, hread, hid⟩ := mem_candidates hmem
  obtain ⟨hm, hf⟩ := mem_chunksOf.mp hc
  obtain rfl := hint.chunkPosition c' hc' c hm (hf'.trans hf.symm) hpos
  have hlookup := hstores c' hm hf r hr hrc hread
  rw [ChunkReplica.read, hid, Option.bind_some] at hlookup
  rw [heq, ensureChunkCached, hlookup]

lemma streamChunks_step (hint : db.Intact n)
    (hstores : StoresNumbered db documents row chunkSize body number) {c : FileChunk}
    (hc : c ∈ db.chunksOf row.id)
    (hsome : db.resolveChunkCandidates row.id channels c.position ≠ []) {first last idx : Nat}
    (hfirst : first ≤ idx) (hlast : idx ≤ last) {remaining : Nat} (hmore : 0 < remaining)
    (cursor : Nat) (chunks : List FileChunk) :
    ∃ pieces : List Bytes,
      pieces.flatten =
        ((slice body chunkSize (number c)).drop (cursor - idx * chunkSize)).take remaining ∧
      streamChunks documents (db.resolveChunkCandidates row.id channels) smooth chunkSize first last
          idx (c :: chunks) remaining cursor =
        let next := streamChunks documents (db.resolveChunkCandidates row.id channels) smooth
          chunkSize first last (idx + 1) chunks (remaining - pieces.flatten.length)
          (cursor + pieces.flatten.length)
        (pieces ++ next.1, next.2) := by
  rw [streamChunks, if_neg (by omega)]
  dsimp only [smooth]
  rw [ensureChunkCached_smooth hint hstores hc hsome]
  dsimp only
  have hnone := readLoop_smooth ((slice body chunkSize (number c)).length + 1) 0 65536
    ((slice body chunkSize (number c)).drop (cursor - idx * chunkSize)) remaining
  have hfuel : ((slice body chunkSize (number c)).drop (cursor - idx * chunkSize)).length <
      (slice body chunkSize (number c)).length + 1 := by
    rw [List.length_drop]
    omega
  obtain ⟨-, hall⟩ := readLoop_spec (fun _ => .ok 65536) 0 remaining hfuel
  generalize readLoop _ _ _ _ _ = out at hnone hall
  obtain ⟨pieces, e⟩ := out
  obtain rfl : e = none := hnone
  exact ⟨pieces, hall rfl, rfl⟩

/-- The loop reaches a place when the chunks in front of it stand in theirs. -/
lemma streamChunks_reach (hint : db.Intact n)
    (hstores : StoresNumbered db documents row chunkSize body number) (hsize : 0 < chunkSize)
    {start stop : Nat} (hss : start ≤ stop) (hstop : stop < body.length) {i : Nat}
    (hfirst : start / chunkSize ≤ i) (hlast : i ≤ stop / chunkSize)
    (hpast : ∀ j, start / chunkSize ≤ j → j < i → ∃ c, (db.chunksOf row.id)[j]? = some c ∧
      db.resolveChunkCandidates row.id channels c.position ≠ [] ∧ number c = j) :
    ∃ pieces : List Bytes,
      pieces.flatten = (body.drop start).take (max start (i * chunkSize) - start) ∧
      streamChunks documents (db.resolveChunkCandidates row.id channels) smooth chunkSize
          (start / chunkSize) (stop / chunkSize) (start / chunkSize)
          ((db.chunksOf row.id).drop (start / chunkSize)) (stop - start + 1) start =
        let next := streamChunks documents (db.resolveChunkCandidates row.id channels) smooth
          chunkSize (start / chunkSize) (stop / chunkSize) i ((db.chunksOf row.id).drop i)
          (stop + 1 - max start (i * chunkSize)) (max start (i * chunkSize))
        (pieces ++ next.1, next.2) := by
  induction i, hfirst using Nat.le_induction with
  | base =>
    have hmax : max start (start / chunkSize * chunkSize) = start :=
      Nat.max_eq_left (Nat.div_mul_le_self start chunkSize)
    refine ⟨[], ?_, ?_⟩
    · rw [hmax, Nat.sub_self, List.take_zero]
      rfl
    · rw [hmax, show stop - start + 1 = stop + 1 - start by omega]
      rfl
  | succ i hle ih =>
    obtain ⟨pieces, hpieces, heq⟩ := ih (Nat.le_of_succ_le hlast) fun j hj hlt =>
      hpast j hj (Nat.lt_succ_of_lt hlt)
    obtain ⟨c, hc, hsome, hnumber⟩ := hpast i hle (Nat.lt_succ_self i)
    have hstopi : (i + 1) * chunkSize ≤ stop := (Nat.le_div_iff_mul_le hsize).mp hlast
    have hstarti : start < (i + 1) * chunkSize := by
      have hlt := Nat.lt_div_mul_add (a := start) hsize
      have hmul := Nat.mul_le_mul_right chunkSize hle
      rw [Nat.succ_mul]
      omega
    have hnext : (i + 1) * chunkSize = i * chunkSize + chunkSize := Nat.succ_mul i chunkSize
    obtain ⟨more, hmore, hstep⟩ := streamChunks_step hint hstores (List.mem_of_getElem? hc) hsome hle
      (Nat.le_of_succ_le hlast) (show 0 < stop + 1 - max start (i * chunkSize) by omega)
      (max start (i * chunkSize)) ((db.chunksOf row.id).drop (i + 1))
    rw [hnumber, drop_slice (Nat.le_max_right _ _), List.take_take] at hmore
    have hlen : more.flatten.length = (i + 1) * chunkSize - max start (i * chunkSize) := by
      rw [hmore, List.length_take, List.length_drop]
      omega
    have hdrop : (db.chunksOf row.id).drop i = c :: (db.chunksOf row.id).drop (i + 1) := by
      obtain ⟨hlt, hget⟩ := List.getElem?_eq_some_iff.mp hc
      rw [List.drop_eq_getElem_cons hlt, hget]
    refine ⟨pieces ++ more, ?_, ?_⟩
    · rw [List.flatten_append, hpieces, hmore, show min (stop + 1 - max start (i * chunkSize))
        ((i + 1) * chunkSize - max start (i * chunkSize)) =
          (i + 1) * chunkSize - max start (i * chunkSize) by omega]
      rw [show max start ((i + 1) * chunkSize) - start = max start (i * chunkSize) - start +
        ((i + 1) * chunkSize - max start (i * chunkSize)) by omega, List.take_add, List.drop_drop,
        show start + (max start (i * chunkSize) - start) = max start (i * chunkSize) by omega]
    · rw [heq, hdrop, hstep, hlen]
      rw [show max start (i * chunkSize) + ((i + 1) * chunkSize - max start (i * chunkSize)) =
        max start ((i + 1) * chunkSize) by omega,
        show stop + 1 - max start (i * chunkSize) - ((i + 1) * chunkSize - max start (i * chunkSize)) =
          stop + 1 - max start ((i + 1) * chunkSize) by omega]
      dsimp only
      rw [List.append_assoc]

end Smooth

/-! ## Files that tell the offsets apart -/

/-- A file with a one at an offset and zeros elsewhere. -/
def markedAt (size offset : Nat) : Bytes :=
  (List.range size).map fun k => if k = offset then 1 else 0

lemma length_markedAt (size offset : Nat) : (markedAt size offset).length = size := by
  rw [markedAt, List.length_map, List.length_range]

lemma markedAt_ne {size offset k : Nat} (hoffset : offset < size) (hk : k < size) (hne : k ≠ offset) :
    (markedAt size offset)[k]? ≠ (markedAt size offset)[offset]? := by
  rw [markedAt, List.getElem?_map, List.getElem?_map, List.getElem?_range hk,
    List.getElem?_range hoffset, Option.map_some, Option.map_some, if_neg hne, if_pos rfl]
  decide

/-- Which slice a chunk row of a file may hold, when the slice at a place is not to be there. -/
def otherSlice (total i : Nat) (c : FileChunk) : Nat :=
  if c.position = 32767 ∧ i = 32767 ∧ 32768 < total then 32768 else c.position.toNat

lemma otherSlice_fits {db : Db} {n : Uuid} (hint : db.Intact n) {row : FileRow} {chunkSize : Nat}
    (hrel : Relayed db row chunkSize) (i : Nat) {c : FileChunk} (hc : c ∈ db.chunks) (hf : c.fileId = row.id) :
    otherSlice (chunkCount row.size.toNat chunkSize) i c < chunkCount row.size.toNat chunkSize ∧
      c.position = toPosition (otherSlice (chunkCount row.size.toNat chunkSize) i c) := by
  have hinside := hrel.inside c hc hf
  have hrange := hint.chunkRange c hc
  unfold otherSlice toPosition
  split <;> omega

lemma lt_otherSlice {db : Db} {n : Uuid} (hint : db.Intact n) {fileId : Uuid} {total i : Nat} {c : FileChunk}
    (hget : (db.chunksOf fileId)[i]? = some c) (hwrong : ¬(c.position = i ∧ (i < 32767 ∨ total ≤ 32768))) :
    i < otherSlice total i c := by
  have hplace := place_le_position hint fileId hget
  have hrange := hint.chunkRange c (mem_chunksOf.mp (List.mem_of_getElem? hget)).1
  unfold otherSlice
  split <;> omega

lemma no_later_row {db : Db} {n : Uuid} (hint : db.Intact n) {row : FileRow} {chunkSize : Nat}
    (hsize : 0 < chunkSize) (hrel : Relayed db row chunkSize) {i : Nat} {c : FileChunk}
    (hget : (db.chunksOf row.id)[i]? = some c) {position skip : Nat}
    (hpos : c.position = toPosition position) (hskip : skip < chunkSize)
    (hend : row.size.toNat ≤ position * chunkSize + skip) : (db.chunksOf row.id).drop (i + 1) = [] := by
  cases hlater : (db.chunksOf row.id)[i + 1]? with
  | none => exact List.drop_eq_nil_of_le (List.getElem?_eq_none_iff.mp hlater)
  | some c' =>
    obtain ⟨hi, hc⟩ := List.getElem?_eq_some_iff.mp hget
    obtain ⟨hi', hc'⟩ := List.getElem?_eq_some_iff.mp hlater
    have hlt := List.pairwise_iff_getElem.mp (chunksOf_strict hint row.id) i (i + 1) hi hi'
      (Nat.lt_succ_self i)
    rw [hc, hc'] at hlt
    obtain ⟨hm, hf⟩ := mem_chunksOf.mp (List.mem_of_getElem? hlater)
    have hinside := hrel.inside c' hm hf
    have hrange := hint.chunkRange c' hm
    have hnext : (position + 1) * chunkSize = position * chunkSize + chunkSize :=
      Nat.succ_mul position chunkSize
    unfold toPosition at hpos
    have hoffset := offset_lt hsize (show position + 1 < chunkCount row.size.toNat chunkSize by omega)
    omega

lemma byte_of_prefix {body front rest : Bytes} {start len : Nat} {b : UInt8}
    (hpre : front ++ b :: rest <+: (body.drop start).take len) : body[start + front.length]? = some b := by
  obtain ⟨more, heq⟩ := hpre
  have hget : ((body.drop start).take len)[front.length]? = some b := by
    rw [← heq, List.append_assoc, List.getElem?_append_right (Nat.le_refl _), Nat.sub_self]
    rfl
  have hlt : front.length < len := by
    have hlength := congrArg List.length heq
    rw [List.length_append, List.length_append, List.length_cons, List.length_take] at hlength
    omega
  rw [List.getElem?_take_of_lt hlt, List.getElem?_drop] at hget
  exact hget

/-- A row whose range is right for every file it may store has the range stored in its place. -/
lemma rangeStored_of_right {db : Db} {n : Uuid} (hint : db.Intact n) {row : FileRow}
    {chunkSize : Nat} (hsize : 0 < chunkSize) (hrel : Relayed db row chunkSize)
    {channels : List StorageChannel} {start stop : Nat} (hss : start ≤ stop)
    (hstop : stop < row.size.toNat)
    (hright : ∀ documents body, body.length = row.size.toNat →
      StoresSlices db documents row chunkSize body →
      let out := streamChunks documents (db.resolveChunkCandidates row.id channels) smooth chunkSize
        (start / chunkSize) (stop / chunkSize) 0 (db.chunksOf row.id) (stop - start + 1) start
      out.1.flatten <+: (body.drop start).take (stop - start + 1) ∧
        (out.2 = none → out.1.flatten = (body.drop start).take (stop - start + 1))) :
    RangeStored (db.chunksOf row.id) (db.resolveChunkCandidates row.id channels) chunkSize
      (chunkCount row.size.toNat chunkSize) start stop := by
  intro i
  induction i using Nat.strong_induction_on with
  | _ i ih =>
  intro hfirst hlast hpast
  by_contra hno
  have hilt : i * chunkSize ≤ stop := (Nat.le_div_iff_mul_le hsize).mp hlast
  have hnumber : ∀ c ∈ db.chunks, c.fileId = row.id →
      otherSlice (chunkCount row.size.toNat chunkSize) i c < chunkCount row.size.toNat chunkSize ∧
        c.position = toPosition (otherSlice (chunkCount row.size.toNat chunkSize) i c) :=
    fun c hc hf => otherSlice_fits hint hrel i hc hf
  generalize hnum : otherSlice (chunkCount row.size.toNat chunkSize) i = number at hnumber
  obtain ⟨documents, hstores⟩ := exists_documents hrel
    (markedAt row.size.toNat (max start (i * chunkSize))) number
  have hlen := length_markedAt row.size.toNat (max start (i * chunkSize))
  have hslices : StoresSlices db documents row chunkSize
      (markedAt row.size.toNat (max start (i * chunkSize))) := by
    intro c hc hf
    obtain ⟨hlt, hpos⟩ := hnumber c hc hf
    exact ⟨number c, hlen.symm ▸ hlt, hpos, fun r hr hrc hread => hstores c hc hf r hr hrc hread⟩
  obtain ⟨hpre, hall⟩ := hright documents _ hlen hslices
  -- the chunks in front of this one stand in their places
  have hplaced : ∀ j, start / chunkSize ≤ j → j < i → ∃ c, (db.chunksOf row.id)[j]? = some c ∧
      db.resolveChunkCandidates row.id channels c.position ≠ [] ∧ number c = j := by
    intro j hj hji
    obtain ⟨c, hc, hsome⟩ := hpast j hj hji
    obtain ⟨c', hc', hplace⟩ := ih j hji hj (Nat.le_of_lt (Nat.lt_of_lt_of_le hji hlast))
      fun k hk hkj => hpast k hk (Nat.lt_trans hkj hji)
    rw [hc] at hc'
    cases hc'
    have hpos := (hplace.resolve_left hsome).1
    refine ⟨c, hc, hsome, ?_⟩
    rw [← hnum, otherSlice, if_neg (by omega), hpos]
    rfl
  obtain ⟨pieces, hpieces, heq⟩ := streamChunks_reach hint hstores hsize hss (hlen.symm ▸ hstop)
    hfirst hlast hplaced
  rw [streamChunks_skip _ (Nat.zero_le _), Nat.sub_zero, heq] at hpre hall
  dsimp only at hpre hall
  rw [List.flatten_append] at hpre hall
  have hlenp : pieces.flatten.length = max start (i * chunkSize) - start := by
    rw [hpieces, List.length_take, List.length_drop, hlen]
    omega
  have hshort : ∀ out : List Bytes × Option StreamError, out = ([], none) →
      (out.2 = none → pieces.flatten ++ out.1.flatten =
        ((markedAt row.size.toNat (max start (i * chunkSize))).drop start).take (stop - start + 1)) →
      False := by
    rintro _ rfl hfull
    have hlength := congrArg List.length (hfull rfl)
    rw [List.flatten_nil, List.append_nil, hlenp, List.length_take, List.length_drop, hlen] at hlength
    omega
  cases hget : (db.chunksOf row.id)[i]? with
  | none =>
    refine hshort _ ?_ hall
    rw [List.drop_eq_nil_of_le (List.getElem?_eq_none_iff.mp hget), streamChunks]
  | some c =>
    have hc := List.mem_of_getElem? hget
    obtain ⟨hm, hf⟩ := mem_chunksOf.mp hc
    have hsome : db.resolveChunkCandidates row.id channels c.position ≠ [] :=
      fun hnone => hno ⟨c, hget, Or.inl hnone⟩
    have hother : i < number c := by
      rw [← hnum]
      exact lt_otherSlice hint hget fun hright => hno ⟨c, hget, Or.inr hright⟩
    obtain ⟨hlt, hpos⟩ := hnumber c hm hf
    obtain ⟨more, hmore, hstep⟩ := streamChunks_step hint hstores hc hsome hfirst hlast
      (show 0 < stop + 1 - max start (i * chunkSize) by omega) (max start (i * chunkSize))
      ((db.chunksOf row.id).drop (i + 1))
    have hdrop : (db.chunksOf row.id).drop i = c :: (db.chunksOf row.id).drop (i + 1) := by
      obtain ⟨hlt, hget⟩ := List.getElem?_eq_some_iff.mp hget
      rw [List.drop_eq_getElem_cons hlt, hget]
    rw [hdrop, hstep] at hpre hall
    dsimp only at hpre hall
    have hskip : max start (i * chunkSize) - i * chunkSize < chunkSize := by
      have hlt := Nat.lt_div_mul_add (a := start) hsize
      have hmul := Nat.mul_le_mul_right chunkSize hfirst
      omega
    have hmul : (i + 1) * chunkSize ≤ number c * chunkSize := Nat.mul_le_mul_right chunkSize hother
    have hnext : (i + 1) * chunkSize = i * chunkSize + chunkSize := Nat.succ_mul i chunkSize
    generalize hskips : max start (i * chunkSize) - i * chunkSize = skip at hskip hmore
    rw [slice, List.drop_take, List.drop_drop, List.take_take] at hmore
    cases hbytes : more.flatten with
    | nil =>
      -- the slice ends before the byte that is due, and no other one comes
      have hend : row.size.toNat ≤ number c * chunkSize + skip := by
        rw [hbytes] at hmore
        have hlength := congrArg List.length hmore
        rw [List.length_take, List.length_drop, hlen] at hlength
        simp only [List.length_nil] at hlength
        omega
      rw [no_later_row hint hsize hrel hget hpos hskip hend, streamChunks] at hall
      refine hshort ([], none) rfl fun hnone => ?_
      have hfull := hall hnone
      rw [List.flatten_append, hbytes] at hfull
      exact hfull
    | cons b bs =>
      -- its first byte is one of another offset
      rw [List.flatten_append, hbytes] at hpre
      have hbyte := byte_of_prefix hpre
      rw [hlenp, show start + (max start (i * chunkSize) - start) = max start (i * chunkSize) by omega]
        at hbyte
      have hfirstByte : (markedAt row.size.toNat (max start (i * chunkSize)))[
          number c * chunkSize + skip]? = some b := by
        have hhead := congrArg List.head? (hbytes.symm.trans hmore)
        rw [List.head?_cons, List.head?_take, if_neg (by omega), List.head?_drop] at hhead
        exact hhead.symm
      have hin : number c * chunkSize + skip < row.size.toNat := by
        have hlt := (List.getElem?_eq_some_iff.mp hfirstByte).1
        rwa [hlen] at hlt
      exact markedAt_ne (by omega) hin (by omega) (hfirstByte.trans hbyte.symm)

/-! ## Downloads -/

lemma readChunkSize_pos (row : FileRow) {defaultChunkSize : Nat} (h : 0 < defaultChunkSize) :
    0 < readChunkSize row defaultChunkSize := by
  unfold readChunkSize
  split
  · split
    · omega
    · exact h
  · exact h

lemma downloadFile_content {db : Db} {documents : List (String × Bytes)} {t : Transfer}
    {defaultChunkSize : Nat} {storageId : Uuid} {row : FileRow} {header : Option (List Char)}
    {start stop status : Nat} {channels : List StorageChannel}
    (hrequest : requestedRange header row.size.toNat = some (start, stop, status))
    (hsome : row.size.toNat ≠ 0) (hle : start ≤ min stop (row.size.toNat - 1))
    (hchannels : db.orderedActiveChannels storageId = .ok channels) (hne : channels ≠ []) :
    downloadFile db documents t defaultChunkSize storageId row header =
      let stop := min stop (row.size.toNat - 1)
      let chunkSize := readChunkSize row defaultChunkSize
      .content status start stop (stop - start + 1)
        (streamChunks documents (db.resolveChunkCandidates row.id channels) t chunkSize
          (start / chunkSize) (stop / chunkSize) 0 (db.chunksOf row.id) (stop - start + 1) start) := by
  unfold downloadFile
  dsimp only
  rw [hrequest]
  dsimp only
  rw [if_neg hsome, if_neg (Nat.not_lt.mpr hle), hchannels]
  cases channels with
  | nil => exact absurd rfl hne
  | cons c cs => rfl

/-- A range read is right for every file that relays can have stored just when each chunk that the
    range crosses stands at the place of its position, as far as the chunks before it can be had. -/
theorem range_reads_iff {db : Db} {n : Uuid} (hint : db.Intact n) {row : FileRow}
    {defaultChunkSize : Nat} (hdefault : 0 < defaultChunkSize)
    (hrel : Relayed db row (readChunkSize row defaultChunkSize)) (storageId : Uuid)
    (header : Option (List Char)) :
    (∀ documents body, body.length = row.size.toNat →
      StoresSlices db documents row (readChunkSize row defaultChunkSize) body →
      ∀ t, (downloadFile db documents t defaultChunkSize storageId row header).Right body) ↔
    Downloadable db defaultChunkSize storageId row header := by
  have hsize := readChunkSize_pos row hdefault
  constructor
  · intro hright start stop status channels hrequest hsome hle hchannels hne
    refine rangeStored_of_right hint hsize hrel hle (by omega) fun documents body hlen hslices => ?_
    have hsmooth := hright documents body hlen hslices smooth
    rw [downloadFile_content hrequest hsome hle hchannels hne] at hsmooth
    exact ⟨hsmooth.1, fun hnone => (hsmooth.2 (by rw [hnone]; rfl)).1⟩
  · intro hstored documents body hlen hslices t
    unfold downloadFile
    dsimp only
    split
    · trivial
    · case h_2 start stop status hrequest =>
      split
      · case isTrue hzero =>
        obtain rfl := List.length_eq_zero_iff.mp (hlen.trans hzero)
        exact ⟨List.nil_prefix, fun _ => ⟨rfl, rfl⟩⟩
      · case isFalse hsome =>
        split
        · trivial
        · case isFalse hle =>
          split
          · trivial
          · trivial
          · case h_3 channels hne hchannels =>
            rw [Nat.not_lt] at hle
            have hrange := hstored start stop status channels hrequest hsome hle hchannels hne
            rw [← hlen] at hrange hle hsome
            have hfirst : start / readChunkSize row defaultChunkSize * readChunkSize row defaultChunkSize
                ≤ start := Nat.div_mul_le_self _ _
            rw [streamChunks_skip _ (Nat.zero_le _), Nat.sub_zero, ← hlen]
            have hcursor : start = min (min stop (body.length - 1) + 1) (max start
                (start / readChunkSize row defaultChunkSize * readChunkSize row defaultChunkSize)) := by
              omega
            have hremaining : start + (min stop (body.length - 1) - start + 1) =
                min stop (body.length - 1) + 1 := by
              omega
            obtain ⟨hpre, hall⟩ := streamChunks_right (t := t) hint hsize hslices (by omega) hrange rfl
              (Nat.le_refl _) hcursor hremaining fun j hj hlt => absurd hlt (Nat.not_lt.mpr hj)
            refine ⟨hpre, fun hnone => ⟨hall (Option.isNone_iff_eq_none.mp hnone), ?_⟩⟩
            rw [hall (Option.isNone_iff_eq_none.mp hnone), List.length_take, List.length_drop]
            omega

/-! ## A file with a hole -/

def threeBytes : UploadRequest where
  storageId := 0
  path := "a.bin".toList
  body := [10, 11, 12]
  chunkSize := 1
  sourceCreatedAt := none
  sourceMtime := none
  contentHash := none
  replace := false
  isFile := (manyChunks 3).isFile
  chunkSize_pos := Nat.zero_lt_one

def beforeChunks : List Step :=
  [.arrive 0 threeBytes, .act 0 .look, .act 0 .settle, .act 0 .create, .act 0 .begin, .act 0 .plan]

/-- Telegram took the outer chunks and refused the one between them. -/
def withHole : Process :=
  run Process.step twoChannels (beforeChunks ++ [.act 0 (.send 0 "d-0" 10),
    .act 0 (.send 2 "d-2" 11), .act 0 (.sendFails .unknown), .act 0 (.count true)])

def withoutHole : Process :=
  run Process.step twoChannels (beforeChunks ++ [.act 0 (.send 2 "d-2" 10),
    .act 0 (.send 0 "d-0" 11), .act 0 (.send 1 "d-1" 12), .act 0 .link, .act 0 .mark, .act 0 .mark])

def threeBytesRow (isUploaded : Bool) : FileRow :=
  { threeBytes.inFile.toRow 4 false with isUploaded := isUploaded }

/-- The last byte is served as the one in the hole, and a read of the whole file ends short. -/
theorem hole_misread :
    withHole.db.liveAt 0 "a.bin".toList = some (threeBytesRow false) ∧
      StoresSlices withHole.db withHole.documents (threeBytesRow false) 1 [10, 11, 12] ∧
      ¬ (downloadFile withHole.db withHole.documents smooth 1 0 (threeBytesRow false)
        (some "bytes=1-1".toList)).Right [10, 11, 12] ∧
      ¬ (downloadFile withHole.db withHole.documents smooth 1 0 (threeBytesRow false) none).Right
        [10, 11, 12] := by
  have hbyte : downloadFile withHole.db withHole.documents smooth 1 0 (threeBytesRow false)
      (some "bytes=1-1".toList) = .content 206 1 1 1 ([[12]], none) := by
    decide +kernel
  have hwhole : downloadFile withHole.db withHole.documents smooth 1 0 (threeBytesRow false) none =
      .content 200 0 2 3 ([[10], [12]], none) := by
    decide +kernel
  refine ⟨by decide +kernel, by unfold StoresSlices; decide +kernel, ?_, ?_⟩
  · rw [hbyte]
    exact fun h => absurd h.1 (by decide)
  · rw [hwhole]
    exact fun h => absurd h.1 (by decide)

/-- Without a hole the range is the one of the file. -/
theorem withoutHole_read :
    (downloadFile withoutHole.db withoutHole.documents smooth 1 0 (threeBytesRow true)
      (some "bytes=1-".toList)).Right [10, 11, 12] := by
  have hint : withoutHole.Intact := run_invariant (fun σ a hσ => hσ.step a) twoChannels_intact _
  have hrel : Relayed withoutHole.db (threeBytesRow true) 1 :=
    ⟨by decide +kernel, by decide +kernel⟩
  have hslices : StoresSlices withoutHole.db withoutHole.documents (threeBytesRow true) 1
      [10, 11, 12] := by
    unfold StoresSlices
    decide +kernel
  refine (range_reads_iff hint.db Nat.zero_lt_one hrel 0 _).mpr ?_ withoutHole.documents
    [10, 11, 12] rfl hslices smooth
  intro start stop status channels hrequest _ _ _ _
  have hrange : requestedRange (some "bytes=1-".toList) (threeBytesRow true).size.toNat =
      some (1, 2, 206) := by
    decide +kernel
  rw [hrange] at hrequest
  cases hrequest
  have hplaced : ∀ i : Nat, i ≤ 2 → ∃ c : FileChunk,
      (withoutHole.db.chunksOf 4)[i]? = some c ∧ c.position = i := by
    intro i hi
    have hrows : withoutHole.db.chunksOf 4 = [⟨7, 4, 0⟩, ⟨9, 4, 1⟩, ⟨5, 4, 2⟩] := by decide +kernel
    rw [hrows]
    match i, hi with
    | 0, _ | 1, _ | 2, _ => exact ⟨_, rfl, rfl⟩
  intro i _ hlast _
  obtain ⟨c, hc, hpos⟩ := hplaced i (Nat.le_trans hlast (by decide +kernel))
  exact ⟨c, hc, Or.inr ⟨hpos, Or.inr (by decide +kernel)⟩⟩

end Sarca.Server
