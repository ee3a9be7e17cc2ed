import Mathlib.Algebra.Order.Ring.Int
import Sarca.Server.Download
import Sarca.Server.Paths
import Sarca.Server.ShareLinks

/-!
# The archive of a folder

`download_folder` of `routers/files.rs` sums up the files of a folder, lists them, and writes an archive of them
under `zips`, which its answer reads and then removes. `Circumstances` is what the request meets: the database at
each of its statements, what Telegram gives at each try, and the calls of the disk and of the zip crate that fail.
The crate lets an entry grow to `entryLimit` bytes. What the answer says besides the entries (the name, the
length of the archive) is left out, and so is the media semaphore.

`wholeOrRefused_iff` says when the archive is whole, is not refused and leaves nothing behind; a file is served in
full where each of its chunks is stored (`fileBytes_stored`).
-/

namespace Sarca.Server
open Sarca.Lib

/-- Rust `MAX_FOLDER_ZIP_BYTES`. -/
def maxFolderZipBytes : Int := 10 * 1024 * 1024 * 1024

/-- Rust `sum_uploaded_size_under`; a sum that is no `i64` fails the statement. -/
def Db.sumUploadedSizeUnder (db : Db) (storageId : Uuid) (folder : Path) : Except SarcaError Int :=
  let total := ((db.listUploadedFilesUnder storageId folder).map (·.size)).sum
  if -9223372036854775808 ≤ total ∧ total < 9223372036854775808 then .ok total else .error .unknown

namespace FolderArchive

/-- A stream from Telegram; behind its pieces comes the error it breaks off with. -/
structure Stream where
  pieces : List Bytes
  broken : Option StreamError

/-- What a request meets. The numbers are the place of a file in the list, of a chunk in its file, and of a try or
    a piece. -/
structure Circumstances where
  sum : Except SarcaError Db
  list : Except SarcaError Db
  marker : Except SarcaError Db
  channels : Except SarcaError Db
  chunks : Nat → Except SarcaError Db
  replicas : Nat → Uuid → Except SarcaError Db
  downloadStream : Nat → Nat → Nat → String → Except StreamError Stream
  entryLimit : Nat
  createDir : Option String
  createFile : Option String
  startFile : Nat → Option String
  write : Nat → Nat → Nat → Option String
  finish : Option String
  /-- the archive cannot be removed -/
  stuck : Bool

/-- How the request ends, as far as it is not the handler that ends it. -/
inductive Fate where
  /-- the body is read to its end -/
  | finished
  /-- the request is dropped before there is an archive -/
  | droppedBefore
  /-- it is dropped at an await behind the creation of the archive, of which there is one before all else -/
  | droppedWithin
  /-- the body is dropped, or the archive cannot be read -/
  | brokenOff
deriving DecidableEq, Repr

inductive Refusal where
  | sarca (e : SarcaError)
  | folderTooLargeForZip
  | stream (e : StreamError)
  | internal (text : String)
deriving DecidableEq

structure Entry where
  name : Path
  data : Bytes
deriving DecidableEq, Repr

/-- `format!("{trimmed}/")`, where the path is one. -/
def folderPrefix (path : Path) : Option Path :=
  let trimmed := trimEndSlashes path
  if trimmed = [] ∨ holdsPattern ['/', '/'] trimmed ∨ trimmed.head? = some '/' then none
  else some (trimmed ++ ['/'])

/-- `path.strip_prefix(&prefix).unwrap_or(path)` -/
def entryName (folder path : Path) : Path :=
  (path.dropPrefix? folder).getD path

def skipped (name : Path) : Bool :=
  name = [] ∨ name.head? = some '/' ∨ (name.splitOn '/').any fun seg => seg = ['.', '.'] ∨ seg = ['.']

/-- Rust `resolve_chunk_candidates`, with the database at the statement for each channel. -/
def resolveCandidates (replicas : Uuid → Except SarcaError Db) (fileId : Uuid) :
    List StorageChannel → Except SarcaError (Int → List (String × Uuid))
  | [] => .ok fun _ => []
  | channel :: channels =>
    match replicas channel.id with
    | .error e => .error e
    | .ok db =>
      match resolveCandidates replicas fileId channels with
      | .error e => .error e
      | .ok candidates =>
        .ok fun position => db.resolveChunkCandidates fileId [channel] position ++ candidates position

/-- Rust `download_chunk_stream_with_failover`. -/
def downloadChunkStreamWithFailover (downloadStream : Nat → String → Except StreamError Stream) :
    Nat → StreamError → List (String × Uuid) → Except StreamError Stream
  | _, lastErr, [] => .error lastErr
  | k, _, (telegramFileId, _) :: rest =>
    match downloadStream k telegramFileId with
    | .ok stream => .ok stream
    | .error e => downloadChunkStreamWithFailover downloadStream (k + 1) e rest

def chunkStream (downloadStream : Nat → String → Except StreamError Stream) (candidates : List (String × Uuid)) :
    Except StreamError Stream :=
  downloadChunkStreamWithFailover downloadStream 0 (.sarca (.doesNotExist "chunk on any replicated channel"))
    candidates

/-- The pieces of a stream, written behind what the entry holds. -/
def writePieces (limit : Nat) (write : Nat → Option String) (broken : Option StreamError) :
    Nat → Bytes → List Bytes → Except Refusal Bytes
  | _, data, [] =>
    match broken with
    | none => .ok data
    | some e => .error (.stream e)
  | k, data, piece :: pieces =>
    match write k with
    | some message => .error (.internal ("Can't write zip data: " ++ message))
    | none =>
      if limit < data.length + piece.length then
        .error (.internal "Can't write zip data: Large file option has not been set")
      else writePieces limit write broken (k + 1) (data ++ piece) pieces

def writeChunks (limit : Nat) (candidates : Int → List (String × Uuid))
    (downloadStream : Nat → Nat → String → Except StreamError Stream) (write : Nat → Nat → Option String) :
    Nat → Bytes → List FileChunk → Except Refusal Bytes
  | _, data, [] => .ok data
  | j, data, chunk :: chunks =>
    match chunkStream (downloadStream j) (candidates chunk.position) with
    | .error e => .error (.stream e)
    | .ok stream =>
      match writePieces limit (write j) stream.broken 0 data stream.pieces with
      | .error e => .error e
      | .ok data => writeChunks limit candidates downloadStream write (j + 1) data chunks

/-- The body of the loop over the files, for a name that makes an entry. -/
def writeEntry (c : Circumstances) (channels : List StorageChannel) (i : Nat) (file : FileRow) :
    Except Refusal Bytes :=
  match c.startFile i with
  | some message => .error (.internal ("Can't write zip entry: " ++ message))
  | none =>
    match c.chunks i with
    | .error e => .error (.sarca e)
    | .ok db =>
      match resolveCandidates (c.replicas i) file.id channels with
      | .error e => .error (.sarca e)
      | .ok candidates =>
        writeChunks c.entryLimit candidates (c.downloadStream i) (c.write i) 0 [] (db.chunksOf file.id)

def writeFiles (c : Circumstances) (folder : Path) (channels : List StorageChannel) :
    Nat → List FileRow → Except Refusal (List Entry)
  | _, [] => .ok []
  | i, file :: files =>
    if skipped (entryName folder file.path) then writeFiles c folder channels (i + 1) files
    else
      match writeEntry c channels i file with
      | .error e => .error e
      | .ok data =>
        match writeFiles c folder channels (i + 1) files with
        | .error e => .error e
        | .ok entries => .ok (⟨entryName folder file.path, data⟩ :: entries)

/-- `get_file_by_path(&prefix, storage_id).await.is_ok()` -/
def folderMarkerExists (c : Circumstances) (storageId : Uuid) (folder : Path) : Bool :=
  match c.marker with
  | .ok db => db.livePathExists storageId folder
  | .error _ => false

/-- What `download_folder` does until the archive is created: the folder and its files. -/
def begin (c : Circumstances) (storageId : Uuid) (path : Path) : Except Refusal (Path × List FileRow) :=
  match folderPrefix path with
  | none => .error (.sarca .invalidPath)
  | some folder =>
    match c.sum.bind fun db => db.sumUploadedSizeUnder storageId folder with
    | .error e => .error (.sarca e)
    | .ok total =>
      match c.list with
      | .error e => .error (.sarca e)
      | .ok db =>
        let files := db.listUploadedFilesUnder storageId folder
        if !folderMarkerExists c storageId folder && files.isEmpty then .error (.sarca (.doesNotExist "folder"))
        else if maxFolderZipBytes < total then .error .folderTooLargeForZip
        else
          match c.createDir with
          | some message => .error (.internal ("Can't create zip directory under WORK_DIR: " ++ message))
          | none =>
            match c.createFile with
            | some message => .error (.internal ("Can't create zip file: " ++ message))
            | none => .ok (folder, files)

/-- The active channels, of which there has to be one. -/
def activeChannels (c : Circumstances) (storageId : Uuid) : Except Refusal (List StorageChannel) :=
  match c.channels.bind fun db => db.orderedActiveChannels storageId with
  | .error e => .error (.sarca e)
  | .ok [] => .error (.sarca .noActiveChannel)
  | .ok channels => .ok channels

def fill (c : Circumstances) (storageId : Uuid) (folder : Path) (files : List FileRow) :
    Except Refusal (List Entry) :=
  match activeChannels c storageId with
  | .error e => .error e
  | .ok channels =>
    match writeFiles c folder channels 0 files with
    | .error e => .error e
    | .ok entries =>
      match c.finish with
      | some message => .error (.internal ("Can't finalize zip: " ++ message))
      | none => .ok entries

/-- The answer, unless the request is dropped, and whether an archive is left under `zips`. -/
structure Outcome where
  answer : Option (Except Refusal (List Entry))
  left : Bool

/-- Rust `FilesRouter::download_folder`, and the body of its answer. -/
def downloadFolder (c : Circumstances) (storageId : Uuid) (path : Path) (fate : Fate) : Outcome :=
  if fate = .droppedBefore then ⟨none, false⟩
  else
    match begin c storageId path with
    | .error e => ⟨some (.error e), false⟩
    | .ok (folder, files) =>
      if fate = .droppedWithin then ⟨none, true⟩
      else
        match fill c storageId folder files with
        | .error e => ⟨some (.error e), c.stuck⟩
        | .ok entries => ⟨some (.ok entries), c.stuck || fate = .brokenOff⟩

/-! ## What the archive is for -/

/-- The live uploaded files under a folder, by their paths. -/
def filesUnder (db : Db) (storageId : Uuid) (folder : Path) : List FileRow :=
  (db.files.filter fun r => r.storageId = storageId ∧ r.isUploaded ∧ r.Live ∧ folder <+: r.path ∧
    ¬isFolderPath r.path).insertionSort fun a b => pathLt b.path a.path = false

/-- The archive has an entry for each file under the folder, with its relative path and all of its bytes. -/
def Whole (content : FileRow → Bytes) (db : Db) (storageId : Uuid) (folder : Path) (entries : List Entry) : Prop :=
  entries = (filesUnder db storageId folder).map (fun r => ⟨r.path.drop folder.length, content r⟩) ∧
    ∀ r ∈ filesUnder db storageId folder, ((content r).length : Int) = r.size

/-- The bytes of a chunk row that Telegram serves in full and the disk takes. -/
def chunkBytes (downloadStream : Nat → String → Except StreamError Stream) (write : Nat → Option String)
    (candidates : List (String × Uuid)) : Option Bytes :=
  match chunkStream downloadStream candidates with
  | .error _ => none
  | .ok stream =>
    if stream.broken = none ∧ ∀ k < stream.pieces.length, write k = none then some stream.pieces.flatten else none

/-- The bytes of chunk rows, one behind the other. -/
def servedBytes (candidates : Int → List (String × Uuid))
    (downloadStream : Nat → Nat → String → Except StreamError Stream) (write : Nat → Nat → Option String) :
    Nat → List FileChunk → Option Bytes
  | _, [] => some []
  | j, chunk :: chunks =>
    (chunkBytes (downloadStream j) (write j) (candidates chunk.position)).bind fun bytes =>
      (servedBytes candidates downloadStream write (j + 1) chunks).map (bytes ++ ·)

/-- The bytes of a file, where its statements answer and each of its chunks is served. -/
def fileBytes (c : Circumstances) (channels : List StorageChannel) (i : Nat) (file : FileRow) : Option Bytes :=
  match c.startFile i, c.chunks i, resolveCandidates (c.replicas i) file.id channels with
  | none, .ok db, .ok candidates =>
    servedBytes candidates (c.downloadStream i) (c.write i) 0 (db.chunksOf file.id)
  | _, _, _ => none

/-- There are channels, and every file is served. -/
def Serves (c : Circumstances) (storageId : Uuid) (folder : Path) (files : List FileRow) : Prop :=
  ∃ channels, activeChannels c storageId = .ok channels ∧ c.finish = none ∧
    ∀ i file, files[i]? = some file → skipped (entryName folder file.path) = false →
      (fileBytes c channels i file).isSome = true

/-- A folder that is archived is whole; one that is served is not refused; and unless its archive is read to the
    end, none is left. -/
structure WholeOrRefused (content : FileRow → Bytes) (c : Circumstances) (storageId : Uuid) (path : Path)
    (fate : Fate) : Prop where
  whole : ∀ entries, (downloadFolder c storageId path fate).answer = some (.ok entries) →
    ∃ folder db, folderPrefix path = some folder ∧ c.list = .ok db ∧ Whole content db storageId folder entries
  served : ∀ folder files, begin c storageId path = .ok (folder, files) → Serves c storageId folder files →
    ∀ e, (downloadFolder c storageId path fate).answer ≠ some (.error e)
  cleared : (∀ entries, (downloadFolder c storageId path fate).answer = some (.ok entries) → fate ≠ .finished) →
    (downloadFolder c storageId path fate).left = false

/-- No entry grows beyond what the crate allows. -/
def Fits (c : Circumstances) (storageId : Uuid) (folder : Path) (files : List FileRow) : Prop :=
  ∀ channels, activeChannels c storageId = .ok channels → ∀ i file data, files[i]? = some file →
    skipped (entryName folder file.path) = false → fileBytes c channels i file = some data →
    data.length ≤ c.entryLimit

/-- The files under the folder have names that make entries and go on with no last code point, and what is served
    for each is all of it. -/
def AddsUp (content : FileRow → Bytes) (c : Circumstances) (storageId : Uuid) (folder : Path) : Prop :=
  ∀ db channels, c.list = .ok db → activeChannels c storageId = .ok channels →
    (∀ r ∈ filesUnder db storageId folder, skipped (r.path.drop folder.length) = false ∧
      ¬folder ++ [maxChar] <+: r.path) ∧
    ∀ i r, (filesUnder db storageId folder)[i]? = some r →
      fileBytes c channels i r = some (content r) ∧ ((content r).length : Int) = r.size

/-- A file is stored in so many chunks, each of which is served in its place. -/
structure StoredInFull (c : Circumstances) (channels : List StorageChannel) (i : Nat) (file : FileRow)
    (body : Bytes) (chunkSize : Nat) : Prop where
  started : c.startFile i = none
  rows : ∃ db candidates, c.chunks i = .ok db ∧
    resolveCandidates (c.replicas i) file.id channels = .ok candidates ∧
    (db.chunksOf file.id).length = chunkCount body.length chunkSize ∧
    ∀ j chunk, (db.chunksOf file.id)[j]? = some chunk →
      chunkBytes (c.downloadStream i j) (c.write i j) (candidates chunk.position) = some (slice body chunkSize j)

/-- What a request needs that comes as far as its archive. -/
def Sound (content : FileRow → Bytes) (c : Circumstances) (storageId : Uuid) (path : Path) (fate : Fate) : Prop :=
  ∀ folder files, fate ≠ .droppedBefore → begin c storageId path = .ok (folder, files) →
    fate ≠ .droppedWithin ∧ (¬Serves c storageId folder files → c.stuck = false) ∧
      (Serves c storageId folder files →
        fate ≠ .brokenOff ∧ Fits c storageId folder files ∧ AddsUp content c storageId folder)

/-! ## The bytes of an entry -/

section Writing

variable {limit : Nat} {data out : Bytes}

lemma writePieces_ok {write : Nat → Option String} {broken : Option StreamError} {k : Nat} {pieces : List Bytes}
    (hdata : data.length ≤ limit) : writePieces limit write broken k data pieces = .ok out ↔
      (broken = none ∧ ∀ j < pieces.length, write (k + j) = none) ∧ out = data ++ pieces.flatten ∧
        out.length ≤ limit := by
  induction pieces generalizing k data with
  | nil =>
    cases broken with
    | none =>
      simp only [writePieces, Except.ok.injEq, true_and, List.length_nil, Nat.not_lt_zero, false_imp_iff,
        implies_true, List.flatten_nil, List.append_nil]
      exact ⟨fun h => ⟨h.symm, h ▸ hdata⟩, fun h => h.1.symm⟩
    | some e => simp [writePieces]
  | cons piece pieces ih =>
    have hwrites : (∀ j < (piece :: pieces).length, write (k + j) = none) ↔
        write k = none ∧ ∀ j < pieces.length, write (k + 1 + j) = none := by
      rw [List.length_cons, Nat.forall_lt_succ_left]
      simp only [Nat.add_zero, Nat.add_assoc, Nat.add_comm 1]
    rw [hwrites, List.flatten_cons, ← List.append_assoc]
    unfold writePieces
    split
    · case h_1 message hwrite =>
      exact iff_of_false (fun h => by cases h) fun h => by
        rw [hwrite] at h
        cases h.1.2.1
    · case h_2 hwrite =>
      split
      · case isTrue hover =>
        refine iff_of_false (fun h => by cases h) fun ⟨_, hout, hfits⟩ => ?_
        rw [hout, List.length_append, List.length_append] at hfits
        omega
      · case isFalse hfits =>
        rw [ih (by rw [List.length_append]; omega)]
        simp only [hwrite, true_and]

lemma chunkBytes_eq_some {downloadStream : Nat → String → Except StreamError Stream}
    {write : Nat → Option String} {candidates : List (String × Uuid)} {bytes : Bytes} :
    chunkBytes downloadStream write candidates = some bytes ↔
      ∃ stream, chunkStream downloadStream candidates = .ok stream ∧
        (stream.broken = none ∧ ∀ k < stream.pieces.length, write k = none) ∧ bytes = stream.pieces.flatten := by
  unfold chunkBytes
  split
  · case h_1 e h => simp [h]
  · case h_2 stream h =>
    rw [h]
    simp only [Except.ok.injEq, exists_eq_left']
    split
    · case isTrue hends => rw [Option.some.injEq, eq_comm, and_iff_right hends]
    · case isFalse hends => exact iff_of_false (Option.some_ne_none _).symm fun h => hends h.1

lemma writeChunks_ok {candidates : Int → List (String × Uuid)}
    {downloadStream : Nat → Nat → String → Except StreamError Stream} {write : Nat → Nat → Option String} {j : Nat}
    {chunks : List FileChunk} (hdata : data.length ≤ limit) :
    writeChunks limit candidates downloadStream write j data chunks = .ok out ↔
      ∃ bytes, servedBytes candidates downloadStream write j chunks = some bytes ∧ out = data ++ bytes ∧
        out.length ≤ limit := by
  induction chunks generalizing j data with
  | nil =>
    simp only [writeChunks, servedBytes, Except.ok.injEq, Option.some.injEq, exists_eq_left', List.append_nil]
    exact ⟨fun h => ⟨h.symm, h ▸ hdata⟩, fun h => h.1.symm⟩
  | cons chunk chunks ih =>
    simp only [servedBytes, Option.bind_eq_some_iff, chunkBytes_eq_some, Option.map_eq_some_iff]
    unfold writeChunks
    cases hstream : chunkStream (downloadStream j) (candidates chunk.position) with
    | error e => simp
    | ok stream =>
      dsimp only
      cases hpieces : writePieces limit (write j) stream.broken 0 data stream.pieces with
      | error e =>
        refine iff_of_false (fun h => by cases h) ?_
        rintro ⟨bytes, ⟨_, ⟨_, hopen, hends, rfl⟩, rest, -, rfl⟩, rfl, hfits⟩
        cases hopen
        have hok : writePieces limit (write j) stream.broken 0 data stream.pieces =
            .ok (data ++ stream.pieces.flatten) :=
          (writePieces_ok hdata).mpr
            ⟨by simpa only [Nat.zero_add] using hends, rfl, by simp at hfits ⊢; omega⟩
        rw [hpieces] at hok
        cases hok
      | ok written =>
        obtain ⟨hends, rfl, hfits⟩ := (writePieces_ok hdata).mp hpieces
        simp only [Nat.zero_add] at hends
        dsimp only
        rw [ih hfits]
        constructor
        · rintro ⟨rest, hrest, rfl, hout⟩
          exact ⟨_, ⟨_, ⟨stream, rfl, hends, rfl⟩, rest, hrest, rfl⟩, List.append_assoc .., hout⟩
        · rintro ⟨bytes, ⟨_, ⟨_, hopen, -, rfl⟩, rest, hrest, rfl⟩, rfl, hout⟩
          cases hopen
          exact ⟨rest, hrest, (List.append_assoc ..).symm, hout⟩

end Writing

variable {content : FileRow → Bytes} {c : Circumstances} {storageId : Uuid} {path folder : Path} {fate : Fate}
  {channels : List StorageChannel} {files : List FileRow} {entries : List Entry}

lemma writeEntry_ok {i : Nat} {file : FileRow} {data : Bytes} : writeEntry c channels i file = .ok data ↔
    fileBytes c channels i file = some data ∧ data.length ≤ c.entryLimit := by
  unfold writeEntry fileBytes
  cases c.startFile i with
  | some message => simp
  | none =>
    cases c.chunks i with
    | error e => simp
    | ok db =>
      cases resolveCandidates (c.replicas i) file.id channels with
      | error e => simp
      | ok candidates =>
        dsimp only
        rw [writeChunks_ok (Nat.zero_le _)]
        simp only [List.nil_append]
        constructor
        · rintro ⟨bytes, hbytes, rfl, hfits⟩
          exact ⟨hbytes, hfits⟩
        · rintro ⟨hbytes, hfits⟩
          exact ⟨data, hbytes, rfl, hfits⟩

lemma servedBytes_eq {candidates : Int → List (String × Uuid)}
    {downloadStream : Nat → Nat → String → Except StreamError Stream} {write : Nat → Nat → Option String}
    {g : Nat → Bytes} {j : Nat} {chunks : List FileChunk} (h : ∀ k chunk, chunks[k]? = some chunk →
      chunkBytes (downloadStream (j + k)) (write (j + k)) (candidates chunk.position) = some (g (j + k))) :
    servedBytes candidates downloadStream write j chunks = some ((List.range' j chunks.length).flatMap g) := by
  induction chunks generalizing j with
  | nil => rfl
  | cons chunk chunks ih =>
    have hrest := ih (j := j + 1) fun k chunk' hk => by
      rw [Nat.add_assoc, Nat.add_comm 1]
      exact h (k + 1) chunk' hk
    have hfirst : chunkBytes (downloadStream j) (write j) (candidates chunk.position) = some (g j) :=
      h 0 chunk rfl
    unfold servedBytes
    rw [hfirst, hrest]
    rfl

lemma fileBytes_stored {i : Nat} {file : FileRow} {body : Bytes} {chunkSize : Nat} (hsize : 0 < chunkSize)
    (h : StoredInFull c channels i file body chunkSize) : fileBytes c channels i file = some body := by
  obtain ⟨db, candidates, hdb, hcandidates, hlen, hslices⟩ := h.rows
  unfold fileBytes
  rw [h.started, hdb, hcandidates]
  dsimp only
  rw [servedBytes_eq (g := slice body chunkSize) (by simpa using hslices), hlen, ← List.range_eq_range',
    List.flatMap_def, flatten_slices hsize]

/-! ## The entries of an archive -/

def entriesOf (c : Circumstances) (folder : Path) (channels : List StorageChannel) :
    Nat → List FileRow → List Entry
  | _, [] => []
  | i, file :: files =>
    if skipped (entryName folder file.path) then entriesOf c folder channels (i + 1) files
    else
      ⟨entryName folder file.path, (fileBytes c channels i file).getD []⟩ ::
        entriesOf c folder channels (i + 1) files

/-- Each file that makes an entry is served and fits. -/
def AllFit (c : Circumstances) (folder : Path) (channels : List StorageChannel) (i : Nat) (files : List FileRow) :
    Prop :=
  ∀ j file, files[j]? = some file → skipped (entryName folder file.path) = false →
    ∃ data, fileBytes c channels (i + j) file = some data ∧ data.length ≤ c.entryLimit

lemma allFit_cons {i : Nat} {file : FileRow} : AllFit c folder channels i (file :: files) ↔
    (skipped (entryName folder file.path) = false →
      ∃ data, fileBytes c channels i file = some data ∧ data.length ≤ c.entryLimit) ∧
    AllFit c folder channels (i + 1) files := by
  unfold AllFit
  constructor
  · intro h
    refine ⟨h 0 file rfl, fun j f hf => ?_⟩
    rw [Nat.add_assoc, Nat.add_comm 1]
    exact h (j + 1) f hf
  · rintro ⟨hfile, h⟩ j f hf
    cases j with
    | zero =>
      obtain rfl : file = f := Option.some.inj hf
      exact hfile
    | succ j =>
      rw [Nat.add_comm j, ← Nat.add_assoc]
      exact h j f hf

lemma writeFiles_ok {i : Nat} : writeFiles c folder channels i files = .ok entries ↔
    AllFit c folder channels i files ∧ entries = entriesOf c folder channels i files := by
  induction files generalizing i entries with
  | nil =>
    simp only [writeFiles, entriesOf, Except.ok.injEq]
    exact ⟨fun h => ⟨fun j f hf => by simp at hf, h.symm⟩, fun h => h.2.symm⟩
  | cons file files ih =>
    rw [allFit_cons]
    unfold writeFiles entriesOf
    split
    · case isTrue hskip =>
      rw [ih, hskip]
      simp
    · case isFalse hskip =>
      simp only [Bool.not_eq_true] at hskip
      simp only [hskip, true_imp_iff]
      cases hentry : writeEntry c channels i file with
      | error e =>
        refine iff_of_false (fun h => by cases h) ?_
        rintro ⟨⟨⟨data, hdata⟩, -⟩, -⟩
        rw [writeEntry_ok.mpr hdata] at hentry
        cases hentry
      | ok data =>
        obtain ⟨hbytes, hfits⟩ := writeEntry_ok.mp hentry
        dsimp only
        cases hfiles : writeFiles c folder channels (i + 1) files with
        | error e =>
          refine iff_of_false (fun h => by cases h) fun ⟨⟨_, hall⟩, _⟩ => ?_
          rw [ih.mpr ⟨hall, rfl⟩] at hfiles
          cases hfiles
        | ok rest =>
          obtain ⟨hall, rfl⟩ := ih.mp hfiles
          simp only [Except.ok.injEq, hbytes, Option.getD_some]
          exact ⟨fun h => ⟨⟨⟨data, rfl, hfits⟩, hall⟩, h.symm⟩, fun h => h.2.symm⟩

lemma length_entriesOf {i : Nat} :
    (entriesOf c folder channels i files).length =
      (files.filter fun f => !skipped (entryName folder f.path)).length := by
  induction files generalizing i with
  | nil => rfl
  | cons file files ih =>
    unfold entriesOf
    split
    · case isTrue hskip => rw [ih, List.filter_cons_of_neg (by simp [hskip])]
    · case isFalse hskip =>
      rw [List.filter_cons_of_pos (by simpa using hskip), List.length_cons, List.length_cons, ih]

lemma getElem?_entriesOf (h : ∀ f ∈ files, skipped (entryName folder f.path) = false) (i j : Nat) :
    (entriesOf c folder channels i files)[j]? =
      files[j]?.map fun f => ⟨entryName folder f.path, (fileBytes c channels (i + j) f).getD []⟩ := by
  induction files generalizing i j with
  | nil => rfl
  | cons file files ih =>
    obtain ⟨hfile, hfiles⟩ := List.forall_mem_cons.mp h
    unfold entriesOf
    rw [hfile]
    cases j with
    | zero => rfl
    | succ j =>
      have hplace : i + (j + 1) = i + 1 + j := by omega
      simpa [hplace] using ih hfiles (i + 1) j

lemma entryName_under {p : Path} (h : folder <+: p) : entryName folder p = p.drop folder.length := by
  obtain ⟨rest, rfl⟩ := h
  unfold entryName
  rw [List.dropPrefix?_eq_some_iff.mpr ⟨folder, rfl, beq_self_eq_true folder⟩, List.drop_left]
  rfl

lemma mem_filesUnder {db : Db} {r : FileRow} : r ∈ filesUnder db storageId folder ↔
    r ∈ db.files ∧ r.storageId = storageId ∧ r.isUploaded = true ∧ r.Live ∧ folder <+: r.path ∧
      ¬isFolderPath r.path = true := by
  unfold filesUnder
  rw [List.mem_insertionSort, List.mem_filter, decide_eq_true_eq]

lemma listed_sublist (db : Db) :
    (db.files.filter fun r => r.storageId = storageId ∧ r.isUploaded ∧ r.Live ∧ startsWith r.path folder ∧
      ¬isFolderPath r.path).Sublist
    (db.files.filter fun r => r.storageId = storageId ∧ r.isUploaded ∧ r.Live ∧ folder <+: r.path ∧
      ¬isFolderPath r.path) := by
  refine List.monotone_filter_right _ fun r h => ?_
  obtain ⟨hs, hup, hl, hrange, hfile⟩ := of_decide_eq_true h
  exact decide_eq_true ⟨hs, hup, hl, prefix_of_startsWith hrange, hfile⟩

lemma length_listed_le (db : Db) :
    (db.listUploadedFilesUnder storageId folder).length ≤ (filesUnder db storageId folder).length := by
  unfold Db.listUploadedFilesUnder filesUnder
  rw [List.length_insertionSort, List.length_insertionSort]
  exact (listed_sublist db).length_le

lemma listed_iff {db : Db} :
    db.listUploadedFilesUnder storageId folder = filesUnder db storageId folder ↔
      ∀ r ∈ filesUnder db storageId folder, ¬folder ++ [maxChar] <+: r.path := by
  constructor
  · intro h r hr
    rw [← h] at hr
    obtain ⟨-, -, -, -, hrange, -⟩ := mem_listUploadedFilesUnder.mp hr
    rw [continues_iff, hrange]
    exact fun h => Bool.noConfusion h.2
  · intro h
    unfold Db.listUploadedFilesUnder filesUnder
    refine congrArg _ (List.filter_congr fun r hr => decide_eq_decide.mpr ?_)
    constructor
    · rintro ⟨hs, hup, hl, hrange, hfile⟩
      exact ⟨hs, hup, hl, prefix_of_startsWith hrange, hfile⟩
    · rintro ⟨hs, hup, hl, hbegins, hfile⟩
      have hrange := startsWith_iff_begins.mpr (h r (mem_filesUnder.mpr ⟨hr, hs, hup, hl, hbegins, hfile⟩))
      exact ⟨hs, hup, hl, hrange.mpr hbegins, hfile⟩

lemma listed_of_length {db : Db}
    (h : (filesUnder db storageId folder).length ≤ (db.listUploadedFilesUnder storageId folder).length) :
    db.listUploadedFilesUnder storageId folder = filesUnder db storageId folder := by
  unfold Db.listUploadedFilesUnder filesUnder at h ⊢
  rw [List.length_insertionSort, List.length_insertionSort] at h
  rw [(listed_sublist db).eq_of_length_le h]

/-! ## The whole request -/

lemma begin_ok (h : begin c storageId path = .ok (folder, files)) : folderPrefix path = some folder ∧
    ∃ db, c.list = .ok db ∧ files = db.listUploadedFilesUnder storageId folder := by
  unfold begin at h
  split at h
  · cases h
  · case h_2 folder' hfolder =>
    split at h
    · cases h
    · split at h
      · cases h
      · case h_2 db hdb =>
        dsimp only at h
        split at h
        · cases h
        · split at h
          · cases h
          · split at h
            · cases h
            · split at h
              · cases h
              · cases h
                exact ⟨hfolder, db, hdb, rfl⟩

lemma fill_ok : fill c storageId folder files = .ok entries ↔
    ∃ channels, activeChannels c storageId = .ok channels ∧ c.finish = none ∧ AllFit c folder channels 0 files ∧
      entries = entriesOf c folder channels 0 files := by
  unfold fill
  cases activeChannels c storageId with
  | error e => simp
  | ok channels =>
    simp only [Except.ok.injEq, exists_eq_left']
    cases hfiles : writeFiles c folder channels 0 files with
    | error e =>
      refine iff_of_false (fun h => by cases h) fun ⟨_, hall⟩ => ?_
      rw [writeFiles_ok.mpr hall] at hfiles
      cases hfiles
    | ok written =>
      obtain ⟨hall, rfl⟩ := writeFiles_ok.mp hfiles
      cases c.finish with
      | some message => simp
      | none => simp [hall, eq_comm]

lemma allFit_iff (hchannels : activeChannels c storageId = .ok channels) (hfinish : c.finish = none) :
    AllFit c folder channels 0 files ↔ Serves c storageId folder files ∧ Fits c storageId folder files := by
  unfold AllFit Serves Fits
  simp only [Nat.zero_add, hchannels, Except.ok.injEq, exists_eq_left', forall_eq', hfinish, true_and]
  constructor
  · intro h
    refine ⟨fun i file hi hname => ?_, fun i file data hi hname hdata => ?_⟩
    · obtain ⟨data, hdata, -⟩ := h i file hi hname
      rw [hdata]
      rfl
    · obtain ⟨data', hdata', hfits⟩ := h i file hi hname
      rw [hdata] at hdata'
      cases hdata'
      exact hfits
  · rintro ⟨hserves, hfits⟩ i file hi hname
    obtain ⟨data, hdata⟩ := Option.isSome_iff_exists.mp (hserves i file hi hname)
    exact ⟨data, hdata, hfits i file data hi hname hdata⟩

lemma whole_iff {db : Db} (hdb : c.list = .ok db) (hchannels : activeChannels c storageId = .ok channels)
    (hserves : Serves c storageId folder (db.listUploadedFilesUnder storageId folder)) :
    Whole content db storageId folder
      (entriesOf c folder channels 0 (db.listUploadedFilesUnder storageId folder)) ↔
    AddsUp content c storageId folder := by
  obtain ⟨_, hchannels', -, hserves⟩ := hserves
  rw [hchannels] at hchannels'
  cases hchannels'
  unfold Whole AddsUp
  simp only [hdb, hchannels, Except.ok.injEq]
  have hname (r : FileRow) (hr : r ∈ filesUnder db storageId folder) :
      entryName folder r.path = r.path.drop folder.length := entryName_under (mem_filesUnder.mp hr).2.2.2.2.1
  constructor
  · rintro ⟨hentries, hsize⟩ _ _ rfl rfl
    have hlen := congrArg List.length hentries
    rw [length_entriesOf, List.length_map] at hlen
    have hkept := List.length_filter_le (fun f => !skipped (entryName folder f.path))
      (db.listUploadedFilesUnder storageId folder)
    have hlisted := listed_of_length (hlen.symm.le.trans hkept)
    rw [hlisted] at hlen hentries hserves
    have hskip : ∀ r ∈ filesUnder db storageId folder, skipped (entryName folder r.path) = false := by
      intro r hr
      simpa using List.length_filter_eq_length_iff.mp hlen r hr
    refine ⟨fun r hr => ⟨hname r hr ▸ hskip r hr, listed_iff.mp hlisted r hr⟩, fun i r hi => ?_⟩
    have hr := List.mem_of_getElem? hi
    refine ⟨?_, hsize r hr⟩
    have hentry := congrArg (·[i]?) hentries
    rw [getElem?_entriesOf hskip, List.getElem?_map, hi, Option.map_some, Option.map_some, Nat.zero_add,
      Option.some.injEq, Entry.mk.injEq] at hentry
    obtain ⟨data, hdata⟩ := Option.isSome_iff_exists.mp (hserves i r hi (hskip r hr))
    rw [hdata, ← hentry.2, hdata]
    rfl
  · intro hadds
    obtain ⟨hnames, hdata⟩ := hadds db channels rfl rfl
    have hskip : ∀ r ∈ filesUnder db storageId folder, skipped (entryName folder r.path) = false := fun r hr =>
      hname r hr ▸ (hnames r hr).1
    rw [listed_iff.mpr fun r hr => (hnames r hr).2]
    refine ⟨List.ext_getElem? fun i => ?_, fun r hr => ?_⟩
    · rw [getElem?_entriesOf hskip, List.getElem?_map, Nat.zero_add]
      cases hi : (filesUnder db storageId folder)[i]? with
      | none => rfl
      | some r =>
        rw [Option.map_some, Option.map_some, (hdata i r hi).1, hname r (List.mem_of_getElem? hi)]
        rfl
    · obtain ⟨i, hi⟩ := List.getElem?_of_mem hr
      exact (hdata i r hi).2

lemma downloadFolder_begun (hbegin : begin c storageId path = .ok (folder, files)) (hbefore : fate ≠ .droppedBefore)
    (hwithin : fate ≠ .droppedWithin) :
    (downloadFolder c storageId path fate).answer = some (fill c storageId folder files) ∧
      ((downloadFolder c storageId path fate).left = true ↔
        c.stuck = true ∨ fate = .brokenOff ∧ ∃ entries, fill c storageId folder files = .ok entries) := by
  unfold downloadFolder
  rw [if_neg hbefore, hbegin]
  dsimp only
  rw [if_neg hwithin]
  cases fill c storageId folder files with
  | error e => simp
  | ok entries => simp

lemma fill_isOk : (∃ entries, fill c storageId folder files = .ok entries) ↔
    Serves c storageId folder files ∧ Fits c storageId folder files := by
  constructor
  · rintro ⟨entries, h⟩
    obtain ⟨channels, hchannels, hfinish, hall, -⟩ := fill_ok.mp h
    exact (allFit_iff hchannels hfinish).mp hall
  · rintro ⟨hserves, hfits⟩
    obtain ⟨channels, hchannels, hfinish, -⟩ := id hserves
    exact ⟨_, fill_ok.mpr ⟨channels, hchannels, hfinish, (allFit_iff hchannels hfinish).mpr ⟨hserves, hfits⟩, rfl⟩⟩

lemma fill_whole {db : Db} (hdb : c.list = .ok db)
    (h : fill c storageId folder (db.listUploadedFilesUnder storageId folder) = .ok entries) :
    Whole content db storageId folder entries ↔ AddsUp content c storageId folder := by
  obtain ⟨channels, hchannels, hfinish, hall, rfl⟩ := fill_ok.mp h
  exact whole_iff hdb hchannels ((allFit_iff hchannels hfinish).mp hall).1

lemma WholeOrRefused.sound {path : Path} (h : WholeOrRefused content c storageId path fate) :
    Sound content c storageId path fate := by
  intro folder files hbefore hbegin
  obtain ⟨hfolder, db, hdb, rfl⟩ := begin_ok hbegin
  have hwithin : fate ≠ .droppedWithin := by
    rintro rfl
    have hcleared := h.cleared fun _ _ => Fate.noConfusion
    rw [downloadFolder, if_neg hbefore, hbegin] at hcleared
    cases hcleared
  obtain ⟨hanswer, hleft⟩ := downloadFolder_begun hbegin hbefore hwithin
  refine ⟨hwithin, fun hserves => ?_, fun hserves => ?_⟩
  · have hcleared := h.cleared fun entries hok _ => by
      rw [hanswer] at hok
      exact hserves (fill_isOk.mp ⟨entries, Option.some.inj hok⟩).1
    rw [← Bool.not_eq_true, hleft, not_or] at hcleared
    exact eq_false_of_ne_true hcleared.1
  · have hserved := h.served folder _ hbegin hserves
    cases hfill : fill c storageId folder (db.listUploadedFilesUnder storageId folder) with
    | error e => exact absurd (hanswer.trans (congrArg some hfill)) (hserved e)
    | ok entries =>
      refine ⟨?_, (fill_isOk.mp ⟨entries, hfill⟩).2, ?_⟩
      · rintro rfl
        have hcleared := h.cleared fun _ _ => Fate.noConfusion
        rw [hleft.mpr (.inr ⟨rfl, entries, hfill⟩)] at hcleared
        cases hcleared
      · obtain ⟨folder', db', hfolder', hdb', hwhole⟩ := h.whole entries (hanswer.trans (congrArg some hfill))
        cases hfolder.symm.trans hfolder'
        cases hdb.symm.trans hdb'
        exact (fill_whole hdb hfill).mp hwhole

lemma wholeOrRefused_unbegun {path : Path} {answer : Option (Except Refusal (List Entry))}
    (hout : downloadFolder c storageId path fate = ⟨answer, false⟩)
    (hnone : ∀ entries, answer ≠ some (.ok entries))
    (hrefused : answer ≠ none → ∀ folder files, begin c storageId path ≠ .ok (folder, files)) :
    WholeOrRefused content c storageId path fate := by
  refine ⟨fun entries hok => ?_, fun folder files hbegun _ e herr => ?_, fun _ => by rw [hout]⟩
  · rw [hout] at hok
    exact absurd hok (hnone entries)
  · rw [hout] at herr
    have hanswer : answer = some (.error e) := herr
    exact hrefused (hanswer ▸ Option.some_ne_none _) folder files hbegun

lemma Sound.wholeOrRefused_begun {path : Path} (h : Sound content c storageId path fate)
    (hbefore : fate ≠ .droppedBefore) (hbegin : begin c storageId path = .ok (folder, files)) :
    WholeOrRefused content c storageId path fate := by
  obtain ⟨hwithin, hfails, hok⟩ := h folder files hbefore hbegin
  obtain ⟨hfolder, db, hdb, rfl⟩ := begin_ok hbegin
  obtain ⟨hanswer, hleft⟩ := downloadFolder_begun hbegin hbefore hwithin
  refine ⟨fun entries hentries => ?_, fun folder' files' hbegun hserves e herr => ?_, fun hcleared => ?_⟩
  · rw [hanswer] at hentries
    have hfill := Option.some.inj hentries
    obtain ⟨-, -, hadds⟩ := hok (fill_isOk.mp ⟨entries, hfill⟩).1
    exact ⟨folder, db, hfolder, hdb, (fill_whole hdb hfill).mpr hadds⟩
  · rw [hbegin] at hbegun
    cases hbegun
    obtain ⟨entries, hfill⟩ := fill_isOk.mpr ⟨hserves, (hok hserves).2.1⟩
    rw [hanswer, hfill] at herr
    cases herr
  · rw [← Bool.not_eq_true, hleft]
    by_cases hserves : Serves c storageId folder (db.listUploadedFilesUnder storageId folder)
    · obtain ⟨hbroken, hfits, -⟩ := hok hserves
      obtain ⟨entries, hfill⟩ := fill_isOk.mpr ⟨hserves, hfits⟩
      have hfinished := hcleared entries (hanswer.trans (congrArg some hfill))
      cases fate with
      | finished => exact absurd rfl hfinished
      | droppedBefore => exact absurd rfl hbefore
      | droppedWithin => exact absurd rfl hwithin
      | brokenOff => exact absurd rfl hbroken
    · rw [hfails hserves]
      rintro (hstuck | ⟨-, hfill⟩)
      · cases hstuck
      · exact hserves (fill_isOk.mp hfill).1

lemma Sound.wholeOrRefused {path : Path} (h : Sound content c storageId path fate) :
    WholeOrRefused content c storageId path fate := by
  by_cases hbefore : fate = .droppedBefore
  · have hout : downloadFolder c storageId path fate = ⟨none, false⟩ := if_pos hbefore
    exact wholeOrRefused_unbegun hout (fun entries hok => by cases hok) fun hne => absurd rfl hne
  cases hbegin : begin c storageId path with
  | error e =>
    have hout : downloadFolder c storageId path fate = ⟨some (.error e), false⟩ := by
      rw [downloadFolder, if_neg hbefore, hbegin]
    refine wholeOrRefused_unbegun hout (fun entries hok => by cases hok) fun _ folder files hbegun => ?_
    rw [hbegin] at hbegun
    cases hbegun
  | ok begun => exact h.wholeOrRefused_begun hbefore hbegin

/-- A folder is archived in whole, is not refused and leaves no archive behind just where a request that comes as
    far as its archive is not dropped, can remove it if it fails, and, if every file is served, is read to its end,
    with entries that the crate takes and that are all of the files. -/
theorem wholeOrRefused_iff (content : FileRow → Bytes) (c : Circumstances) (storageId : Uuid) (path : Path)
    (fate : Fate) : (WholeOrRefused content c storageId path fate ↔ Sound content c storageId path fate) ∧
    ∀ channels i file chunkSize, 0 < chunkSize → StoredInFull c channels i file (content file) chunkSize →
      fileBytes c channels i file = some (content file) := by
  exact ⟨⟨fun h => h.sound, fun h => h.wholeOrRefused⟩, fun _ _ _ _ hsize => fileBytes_stored hsize⟩

def smallFile : FileRow where
  id := 1
  path := "d/a".toList
  size := 3
  storageId := 7
  isUploaded := true
  thumbTelegramFileId := none
  thumbTelegramMessageId := none
  previewTelegramFileId := none
  previewTelegramMessageId := none
  chunkSizeBytes := some 16
  deletedAt := none
  sourceCreatedAt := none
  sourceMtime := none
  contentHash := none

def smallDb : Db where
  storages := [⟨7, 0⟩]
  workers := []
  channels := [⟨5, 7, 0, -1, .active⟩]
  files := [smallFile]
  chunks := [⟨2, 1, 0⟩]
  replicas := [⟨3, 2, 5, some "document", some 1, .uploaded⟩]
  events := []
  eventSeq := 0

/-- The row behind `replace_content`: another row holds what it held, and the new bytes are still on their way. -/
def replacedDb : Db where
  storages := smallDb.storages
  workers := []
  channels := smallDb.channels
  files := [{ smallFile with isUploaded := false },
    { smallFile with id := 9, path := "d/a.old".toList, deletedAt := some 0 }]
  chunks := [⟨2, 9, 0⟩]
  replicas := smallDb.replicas
  events := []
  eventSeq := 0

/-- The content of the file is replaced behind the list of the files. -/
def replacedBehind : Circumstances where
  sum := .ok smallDb
  list := .ok smallDb
  marker := .ok smallDb
  channels := .ok smallDb
  chunks _ := .ok replacedDb
  replicas _ _ := .ok replacedDb
  downloadStream _ _ _ _ := .ok ⟨[[1, 2, 3]], none⟩
  entryLimit := 4294967295
  createDir := none
  createFile := none
  startFile _ := none
  write _ _ _ := none
  finish := none
  stuck := false

theorem empty_entry : ¬WholeOrRefused (fun _ => [1, 2, 3]) replacedBehind 7 "d".toList .finished := by
  intro h
  have hanswer : (downloadFolder replacedBehind 7 "d".toList .finished).answer =
      some (.ok [⟨"a".toList, []⟩]) := by
    decide
  obtain ⟨folder, db, hfolder, hdb, hentries, -⟩ := h.whole _ hanswer
  cases hdb
  cases hfolder.symm.trans (by decide : folderPrefix "d".toList = some "d/".toList)
  revert hentries
  decide

end FolderArchive

end Sarca.Server
