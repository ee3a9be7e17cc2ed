import Sarca.Client.Index
import Sarca.Client.UploadPath

/-!
# The sync engine

What `engine.rs` does with a binding, over the client's disk and its index: `pushLocal` with `pushOne`,
`pullRemote`, `bootstrapSnapshot`, the pass `syncBindingScoped` that puts them together, and
`healStaleStorage`. What the server and the user answer is an argument (`PushAnswer`, `EventAnswer`, …);
each function returns what it leaves, also where it ends with an error. The disk has no links, the
transfer queue and the statuses of the panel are left out, and a candidate's bytes are those found when it
is hashed. `sha256` stands for the hash of `hash.rs`.
-/

namespace Sarca.Client
open Sarca.Lib Sarca.Server

/-! ## Paths -/

def components (path : Path) : List Path :=
  (path.splitOn '/').filter fun name => name ≠ [] ∧ name ≠ ['.']

/-- `root.join(rel)`, where a path from `/` replaces the root. -/
def localAt (localPath rel : Path) : List Path :=
  if rel.head? = some '/' then components rel else components localPath ++ components rel

/-- Rust `strip_remote_root`. -/
def stripRemoteRoot (path remoteRoot : Path) : Option Path :=
  let path := path.dropWhile (· == '/')
  if (path.splitOn '/').any (fun seg => seg = ['.', '.'] || seg = ['.']) || path.contains '\\' ||
      path[1]? = some ':' then none
  else
    let root := trimSlashes (trim remoteRoot)
    if root = [] then some (trimEndSlashes path)
    else if path = root ∨ path = root ++ ['/'] then some []
    else (path.dropPrefix? (root ++ ['/'])).map trimEndSlashes

/-- `file_stem` and `extension` with `(conflict)` between them. -/
def conflictName (name : Path) : Path :=
  match rsplitOnce '.' name with
  | some ([], _) | none => name ++ " (conflict)".toList
  | some (stem, ext) => stem ++ " (conflict).".toList ++ ext

/-- Rust `conflict_path`. -/
def conflictPath (path : List Path) : List Path :=
  path.dropLast ++ [conflictName (path.getLast?.getD "file".toList)]

/-! ## What the server says -/

/-- Rust `types::ChangelogEvent`. -/
structure ChangelogEvent where
  id : Int
  fileId : Option Uuid
  path : Path
  op : String
  size : Option Int
  isFile : Bool
  contentHash : Option ContentHash
deriving DecidableEq, Repr

/-- Rust `types::SnapshotEntry`. -/
structure SnapshotEntry where
  fileId : Uuid
  path : Path
  size : Int
  isFile : Bool
  contentHash : Option ContentHash
deriving DecidableEq, Repr

structure RemoteFileStatus where
  size : Int
  isUploaded : Bool
  contentHash : Option ContentHash
  isRelaying : Option Bool
deriving DecidableEq, Repr

/-- An unfinished row is left alone; an older server does not say whether it is worked on. -/
def RemoteFileStatus.stillRelaying (r : RemoteFileStatus) : Bool :=
  !r.isUploaded && r.isRelaying.getD true

structure StorageSummary where
  id : Uuid
  name : String
deriving DecidableEq, Repr

/-- What a failed transfer says something about. -/
inductive FailureScope where
  | file
  | link
  | busy
deriving DecidableEq, Repr

inductive UploadOutcome where
  | stored
  | handedOff
deriving DecidableEq, Repr

inductive ConflictChoice where
  | keepLocal
  | keepRemote
  | keepBoth
deriving DecidableEq, Repr

/-- A download: the body, where every request is answered, and the time of what is then on disk. -/
structure DownloadAnswer where
  body : Option Bytes
  mtimeMs : Int
deriving DecidableEq, Repr

/-- What an event of the changelog meets: the answer to the prompt, and to its download. -/
structure EventAnswer extends DownloadAnswer where
  choice : ConflictChoice
deriving DecidableEq, Repr

/-- A page of the changelog, with what its events meet. -/
structure Page where
  events : List (ChangelogEvent × EventAnswer)
  nextCursor : Int
  hasMore : Bool
deriving DecidableEq, Repr

structure Snapshot where
  files : List (SnapshotEntry × DownloadAnswer)
  cursor : Int
deriving DecidableEq, Repr

/-! ## The client -/

structure LocalFile where
  bytes : Bytes
  mtimeMs : Int
deriving DecidableEq, Repr

abbrev Disk := FileTree Path LocalFile

structure Device where
  disk : Disk
  index : LocalIndex

section Engine

variable (sha256 : Bytes → ContentHash)

/-- `sha256_file(path).await.ok()` -/
def hashAt (disk : Disk) (path : List Path) : Option ContentHash :=
  (disk.read path).map fun f => sha256 f.bytes

/-- What `download_to` leaves, and whether it succeeds: the folders above are made first, and a finished
    body is renamed into place. -/
def downloadTo (disk : Disk) (dest : List Path) (a : DownloadAnswer) : Disk × Bool :=
  match disk.createDirAll dest.dropLast with
  | none => (disk, false)
  | some disk =>
    match a.body with
    | none => (disk, false)
    | some bytes =>
      match disk.write dest ⟨bytes, a.mtimeMs⟩ with
      | none => (disk, false)
      | some disk => (disk, true)

/-! ## Pulling -/

/-- A deleted remote path goes, with all that is below it. -/
def pullDelete (b : Binding) (rel : Path) (σ : Device) : Device :=
  let dest := localAt b.localPath rel
  let disk :=
    if σ.disk.has dest then
      if σ.disk.isDir dest then σ.disk.removeDirAll dest else σ.disk.removeFile dest
    else σ.disk
  ⟨disk, (σ.index.deleteEntry b.id rel).clearConflict b.id rel⟩

/-- The download of an event, and the entry it leaves. -/
def pullDownload (b : Binding) (rel : Path) (ev : ChangelogEvent) (a : EventAnswer) (σ : Device) :
    Device × Option Nat :=
  let dest := localAt b.localPath rel
  match downloadTo σ.disk dest a.toDownloadAnswer with
  | (disk, false) => (⟨disk, σ.index⟩, none)
  | (disk, true) =>
    let file := disk.read dest
    let entry : IndexEntry :=
      { size := ev.size.getD ((file.map fun f => (f.bytes.length : Int)).getD 0)
        mtimeMs := (file.map (·.mtimeMs)).getD 0
        contentHash := (hashAt sha256 disk dest).or ev.contentHash
        remoteFileId := ev.fileId
        lastCursor := ev.id }
    (⟨disk, (σ.index.upsertEntry b.id rel entry).clearConflict b.id rel⟩, some 1)

def pullUpsert (b : Binding) (rel : Path) (ev : ChangelogEvent) (a : EventAnswer) (σ : Device) :
    Device × Option Nat :=
  let dest := localAt b.localPath rel
  if !ev.isFile then (⟨(σ.disk.createDirAll dest).getD σ.disk, σ.index⟩, some 0)
  else if !σ.disk.has dest then pullDownload sha256 b rel ev a σ
  else
    let existing := σ.index.getEntry b.id rel
    let localHash := hashAt sha256 σ.disk dest
    if localHash ≠ ev.contentHash ∧ existing.bind (·.contentHash) ≠ localHash ∧
        ev.contentHash.isSome then
      match a.choice with
      | .keepLocal => (⟨σ.disk, σ.index.clearConflict b.id rel⟩, some 0)
      | .keepBoth =>
        let disk := (σ.disk.rename dest (conflictPath dest)).getD σ.disk
        pullDownload sha256 b rel ev a ⟨disk, σ.index⟩
      | .keepRemote => pullDownload sha256 b rel ev a σ
    else if localHash = ev.contentHash then
      -- already in sync
      match existing with
      | some e =>
        let entry := { e with remoteFileId := ev.fileId, lastCursor := ev.id }
        (⟨σ.disk, σ.index.upsertEntry b.id rel entry⟩, some 0)
      | none => (σ, some 0)
    else pullDownload sha256 b rel ev a σ

/-- One event: the number of downloads, or none where it ends the pull. -/
def pullEvent (b : Binding) (ev : ChangelogEvent) (a : EventAnswer) (σ : Device) :
    Device × Option Nat :=
  match stripRemoteRoot ev.path b.remoteRoot with
  | none => (σ, some 0)
  | some rel =>
    if ev.op = "delete" then (pullDelete b rel σ, some 0)
    else if ev.op = "upsert" then pullUpsert sha256 b rel ev a σ
    else (σ, some 0)

def pullEvents (b : Binding) : List (ChangelogEvent × EventAnswer) → Device → Device × Option Nat
  | [], σ => (σ, some 0)
  | (ev, a) :: rest, σ =>
    match pullEvent sha256 b ev a σ with
    | (σ, none) => (σ, none)
    | (σ, some n) =>
      match pullEvents b rest σ with
      | (σ, none) => (σ, none)
      | (σ, some m) => (σ, some (n + m))

/-- Rust `pull_remote` over the pages the server answers; behind the last of them a request fails.
    Returns the number of downloads and the cursor, or none after an error. -/
def pullRemote (b : Binding) : List Page → Int → Device → Device × Option (Nat × Int)
  | [], _, σ => (σ, none)
  | page :: pages, cursor, σ =>
    match pullEvents sha256 b page.events σ with
    | (σ, none) => (σ, none)
    | (σ, some n) =>
      let cursor := max cursor page.nextCursor
      if page.hasMore then
        match pullRemote b pages cursor σ with
        | (σ, none) => (σ, none)
        | (σ, some (m, cursor)) => (σ, some (n + m, cursor))
      else (σ, some (n, cursor))

/-- A pull, and the `set_cursor` behind it. -/
def pullAndStore (b : Binding) (pages : List Page) (cursor : Int) (σ : Device) :
    Device × Option (Nat × Int) :=
  match pullRemote sha256 b pages cursor σ with
  | (σ, none) => (σ, none)
  | (σ, some (n, cursor)) => (⟨σ.disk, σ.index.setCursor b.id cursor⟩, some (n, cursor))

/-- A file of the disk is in the way of an event. -/
structure Conflicting (b : Binding) (rel : Path) (ev : ChangelogEvent) (σ : Device) : Prop where
  isThere : σ.disk.has (localAt b.localPath rel) = true
  differs : hashAt sha256 σ.disk (localAt b.localPath rel) ≠ ev.contentHash
  edited : σ.index.recorded b.id rel ≠ hashAt sha256 σ.disk (localAt b.localPath rel)
  hashed : ev.contentHash.isSome = true

/-- The disk after the file in the way has got another name, where that succeeds. -/
def keptBoth (b : Binding) (rel : Path) (disk : Disk) : Disk :=
  let dest := localAt b.localPath rel
  (disk.rename dest (conflictPath dest)).getD disk

/-- What an event about a live file or folder can come to. -/
inductive UpsertCase (b : Binding) (rel : Path) (ev : ChangelogEvent) (a : EventAnswer) (σ : Device) :
    Device × Option Nat → Prop where
  | folder (hfolder : ev.isFile = false) :
    UpsertCase b rel ev a σ
      (⟨(σ.disk.createDirAll (localAt b.localPath rel)).getD σ.disk, σ.index⟩, some 0)
  | fresh (hfile : ev.isFile = true) (hno : σ.disk.has (localAt b.localPath rel) = false) :
    UpsertCase b rel ev a σ (pullDownload sha256 b rel ev a σ)
  | keepLocal (hfile : ev.isFile = true) (h : Conflicting sha256 b rel ev σ)
      (hchoice : a.choice = .keepLocal) :
    UpsertCase b rel ev a σ (⟨σ.disk, σ.index.clearConflict b.id rel⟩, some 0)
  | keepBoth (hfile : ev.isFile = true) (h : Conflicting sha256 b rel ev σ)
      (hchoice : a.choice = .keepBoth) :
    UpsertCase b rel ev a σ (pullDownload sha256 b rel ev a ⟨keptBoth b rel σ.disk, σ.index⟩)
  | keepRemote (hfile : ev.isFile = true) (h : Conflicting sha256 b rel ev σ)
      (hchoice : a.choice = .keepRemote) :
    UpsertCase b rel ev a σ (pullDownload sha256 b rel ev a σ)
  | inSync (hfile : ev.isFile = true)
      (hsame : hashAt sha256 σ.disk (localAt b.localPath rel) = ev.contentHash)
      {e : IndexEntry} (he : σ.index.getEntry b.id rel = some e) :
    UpsertCase b rel ev a σ
      (⟨σ.disk, σ.index.upsertEntry b.id rel
        { e with remoteFileId := ev.fileId, lastCursor := ev.id }⟩, some 0)
  | unindexed (hfile : ev.isFile = true)
      (hsame : hashAt sha256 σ.disk (localAt b.localPath rel) = ev.contentHash)
      (he : σ.index.getEntry b.id rel = none) :
    UpsertCase b rel ev a σ (σ, some 0)
  | overwrite (hfile : ev.isFile = true) (hthere : σ.disk.has (localAt b.localPath rel) = true)
      (hdiffers : hashAt sha256 σ.disk (localAt b.localPath rel) ≠ ev.contentHash)
      (hunasked : σ.index.recorded b.id rel = hashAt sha256 σ.disk (localAt b.localPath rel) ∨
        ev.contentHash = none) :
    UpsertCase b rel ev a σ (pullDownload sha256 b rel ev a σ)

lemma pullUpsert_case (b : Binding) (rel : Path) (ev : ChangelogEvent) (a : EventAnswer) (σ : Device) :
    UpsertCase sha256 b rel ev a σ (pullUpsert sha256 b rel ev a σ) := by
  unfold pullUpsert
  dsimp only
  split
  · case isTrue hfolder => exact .folder (by simpa using hfolder)
  · case isFalse hfile =>
    have hfile : ev.isFile = true := by simpa using hfile
    split
    · case isTrue hno => exact .fresh hfile (by simpa using hno)
    · case isFalse hthere =>
      have hthere : σ.disk.has (localAt b.localPath rel) = true := by simpa using hthere
      split
      · case isTrue hconflict =>
        have h : Conflicting sha256 b rel ev σ := ⟨hthere, hconflict.1, hconflict.2.1, hconflict.2.2⟩
        split
        · case h_1 hchoice => exact .keepLocal hfile h hchoice
        · case h_2 hchoice => exact .keepBoth hfile h hchoice
        · case h_3 hchoice => exact .keepRemote hfile h hchoice
      · case isFalse hnone =>
        split
        · case isTrue hsame =>
          split
          · case h_1 e he => exact .inSync hfile hsame he
          · case h_2 he => exact .unindexed hfile hsame he
        · case isFalse hdiffers =>
          refine .overwrite hfile hthere hdiffers ?_
          cases hhash : ev.contentHash with
          | none => exact Or.inr rfl
          | some hash =>
            refine Or.inl (Decidable.byContradiction fun hedited => hnone ⟨hdiffers, hedited, ?_⟩)
            rw [hhash]
            rfl

inductive EventCase (b : Binding) (ev : ChangelogEvent) (a : EventAnswer) (σ : Device) :
    Device × Option Nat → Prop where
  | outside (hrel : stripRemoteRoot ev.path b.remoteRoot = none) : EventCase b ev a σ (σ, some 0)
  | delete {rel : Path} (hrel : stripRemoteRoot ev.path b.remoteRoot = some rel)
      (hop : ev.op = "delete") :
    EventCase b ev a σ (pullDelete b rel σ, some 0)
  | upsert {rel : Path} {res : Device × Option Nat}
      (hrel : stripRemoteRoot ev.path b.remoteRoot = some rel) (hop : ev.op = "upsert")
      (h : UpsertCase sha256 b rel ev a σ res) :
    EventCase b ev a σ res
  | unknown (hdelete : ev.op ≠ "delete") (hupsert : ev.op ≠ "upsert") : EventCase b ev a σ (σ, some 0)

lemma pullEvent_case (b : Binding) (ev : ChangelogEvent) (a : EventAnswer) (σ : Device) :
    EventCase sha256 b ev a σ (pullEvent sha256 b ev a σ) := by
  unfold pullEvent
  split
  · case h_1 hrel => exact .outside hrel
  · case h_2 rel hrel =>
    split
    · case isTrue hop => exact .delete hrel hop
    · case isFalse hdelete =>
      split
      · case isTrue hop => exact .upsert hrel hop (pullUpsert_case sha256 b rel ev a σ)
      · case isFalse hupsert => exact .unknown hdelete hupsert

lemma downloadTo_true {disk disk' : Disk} {dest : List Path} {a : DownloadAnswer}
    (h : downloadTo disk dest a = (disk', true)) :
    ∃ bytes, a.body = some bytes ∧ disk'.read dest = some ⟨bytes, a.mtimeMs⟩ ∧
      ∀ p, p ≠ dest → disk'.read p = disk.read p := by
  unfold downloadTo at h
  split at h
  · cases h
  · case h_2 made hmade =>
    split at h
    · cases h
    · case h_2 bytes hbody =>
      split at h
      · cases h
      · case h_2 written hwritten =>
        cases h
        refine ⟨bytes, hbody, ?_, fun p hp => ?_⟩
        · rw [FileTree.read_write hwritten, if_pos rfl]
        · rw [FileTree.read_write hwritten, if_neg hp, FileTree.read_createDirAll hmade]

lemma downloadTo_false {disk disk' : Disk} {dest : List Path} {a : DownloadAnswer}
    (h : downloadTo disk dest a = (disk', false)) (p : List Path) : disk'.read p = disk.read p := by
  unfold downloadTo at h
  split at h
  · cases h
    rfl
  · case h_2 made hmade =>
    split at h
    · cases h
      exact FileTree.read_createDirAll hmade
    · split at h
      · cases h
        exact FileTree.read_createDirAll hmade
      · cases h

inductive DownloadCase (b : Binding) (rel : Path) (a : EventAnswer) (σ : Device) :
    Device × Option Nat → Prop where
  | failed {disk : Disk} (hkept : ∀ p, disk.read p = σ.disk.read p) :
    DownloadCase b rel a σ (⟨disk, σ.index⟩, none)
  | done {disk : Disk} {bytes : Bytes} {e : IndexEntry} (hbody : a.body = some bytes)
      (hwritten : disk.read (localAt b.localPath rel) = some ⟨bytes, a.mtimeMs⟩)
      (hkept : ∀ p, p ≠ localAt b.localPath rel → disk.read p = σ.disk.read p)
      (hhash : e.contentHash = some (sha256 bytes)) :
    DownloadCase b rel a σ
      (⟨disk, (σ.index.upsertEntry b.id rel e).clearConflict b.id rel⟩, some 1)

lemma pullDownload_case (b : Binding) (rel : Path) (ev : ChangelogEvent) (a : EventAnswer) (σ : Device) :
    DownloadCase sha256 b rel a σ (pullDownload sha256 b rel ev a σ) := by
  unfold pullDownload
  dsimp only
  split
  · case h_1 disk hdown => exact .failed (downloadTo_false hdown)
  · case h_2 disk hdown =>
    obtain ⟨bytes, hbody, hwritten, hkept⟩ := downloadTo_true hdown
    refine .done hbody hwritten hkept ?_
    rw [hashAt, hwritten]
    rfl

/-! ## The first pull -/

def bootstrapRecord (b : Binding) (cursor : Int) (rel : Path) (entry : SnapshotEntry)
    (a : DownloadAnswer) (σ : Device) : Device :=
  let dest := localAt b.localPath rel
  ⟨σ.disk, σ.index.upsertEntry b.id rel
    { size := entry.size
      mtimeMs := ((σ.disk.read dest).map (·.mtimeMs)).getD a.mtimeMs
      contentHash := (hashAt sha256 σ.disk dest).or entry.contentHash
      remoteFileId := some entry.fileId
      lastCursor := cursor }⟩

/-- One entry of the snapshot, and whether the bootstrap goes on. -/
def bootstrapEntry (b : Binding) (cursor : Int) (entry : SnapshotEntry) (a : DownloadAnswer)
    (σ : Device) : Device × Bool :=
  match stripRemoteRoot entry.path b.remoteRoot with
  | none => (σ, true)
  | some rel =>
    let dest := localAt b.localPath rel
    if !entry.isFile then (⟨(σ.disk.createDirAll dest).getD σ.disk, σ.index⟩, true)
    else if σ.disk.has dest then
      let localHash := hashAt sha256 σ.disk dest
      if localHash ≠ entry.contentHash ∧ entry.contentHash.isSome ∧ localHash.isSome then
        (⟨σ.disk, σ.index.addConflict b.id rel ⟨localHash, entry.contentHash⟩⟩, true)
      else (bootstrapRecord sha256 b cursor rel entry a σ, true)
    else
      match downloadTo σ.disk dest a with
      | (disk, false) => (⟨disk, σ.index⟩, false)
      | (disk, true) => (bootstrapRecord sha256 b cursor rel entry a ⟨disk, σ.index⟩, true)

def bootstrapEntries (b : Binding) (cursor : Int) :
    List (SnapshotEntry × DownloadAnswer) → Device → Device × Bool
  | [], σ => (σ, true)
  | (entry, a) :: rest, σ =>
    match bootstrapEntry sha256 b cursor entry a σ with
    | (σ, false) => (σ, false)
    | (σ, true) => bootstrapEntries b cursor rest σ

/-- Rust `bootstrap_snapshot`; the request for the snapshot may fail. -/
def bootstrapSnapshot (b : Binding) (snap : Option Snapshot) (σ : Device) : Device × Option Int :=
  match snap with
  | none => (σ, none)
  | some snap =>
    match bootstrapEntries sha256 b snap.cursor snap.files σ with
    | (σ, false) => (σ, none)
    | (σ, true) => (⟨σ.disk, σ.index.setCursor b.id snap.cursor⟩, some snap.cursor)

/-- What an entry of the snapshot under the remote root can come to. -/
inductive BootstrapCase (b : Binding) (cursor : Int) (rel : Path) (entry : SnapshotEntry)
    (a : DownloadAnswer) (σ : Device) : Device × Bool → Prop where
  | folder (hfolder : entry.isFile = false) :
    BootstrapCase b cursor rel entry a σ
      (⟨(σ.disk.createDirAll (localAt b.localPath rel)).getD σ.disk, σ.index⟩, true)
  | conflict {h h' : ContentHash} (hfile : entry.isFile = true)
      (hlocal : hashAt sha256 σ.disk (localAt b.localPath rel) = some h)
      (hremote : entry.contentHash = some h') (hne : h ≠ h') :
    BootstrapCase b cursor rel entry a σ
      (⟨σ.disk, σ.index.addConflict b.id rel ⟨some h, some h'⟩⟩, true)
  | present (hfile : entry.isFile = true) (hthere : σ.disk.has (localAt b.localPath rel) = true)
      (hagree : hashAt sha256 σ.disk (localAt b.localPath rel) = entry.contentHash ∨
        entry.contentHash = none ∨ hashAt sha256 σ.disk (localAt b.localPath rel) = none) :
    BootstrapCase b cursor rel entry a σ (bootstrapRecord sha256 b cursor rel entry a σ, true)
  | failed {disk : Disk} (hkept : ∀ p, disk.read p = σ.disk.read p) :
    BootstrapCase b cursor rel entry a σ (⟨disk, σ.index⟩, false)
  | downloaded {disk : Disk} {bytes : Bytes} (hfile : entry.isFile = true)
      (hno : σ.disk.has (localAt b.localPath rel) = false) (hbody : a.body = some bytes)
      (hdown : downloadTo σ.disk (localAt b.localPath rel) a = (disk, true))
      (hwritten : disk.read (localAt b.localPath rel) = some ⟨bytes, a.mtimeMs⟩)
      (hkept : ∀ p, p ≠ localAt b.localPath rel → disk.read p = σ.disk.read p) :
    BootstrapCase b cursor rel entry a σ
      (bootstrapRecord sha256 b cursor rel entry a ⟨disk, σ.index⟩, true)

lemma bootstrapEntry_case {b : Binding} {rel : Path} {entry : SnapshotEntry} (cursor : Int)
    (a : DownloadAnswer) (σ : Device) (hrel : stripRemoteRoot entry.path b.remoteRoot = some rel) :
    BootstrapCase sha256 b cursor rel entry a σ (bootstrapEntry sha256 b cursor entry a σ) := by
  unfold bootstrapEntry
  rw [hrel]
  dsimp only
  split
  · case isTrue hfolder => exact .folder (by simpa using hfolder)
  · case isFalse hfile =>
    have hfile : entry.isFile = true := by simpa using hfile
    split
    · case isTrue hthere =>
      split
      · case isTrue hconflict =>
        obtain ⟨hdiffers, hremote, hlocal⟩ := hconflict
        obtain ⟨h', hremote⟩ := Option.isSome_iff_exists.mp hremote
        obtain ⟨h, hlocal⟩ := Option.isSome_iff_exists.mp hlocal
        rw [hremote, hlocal] at hdiffers
        rw [hremote, hlocal]
        exact .conflict hfile hlocal hremote fun heq => hdiffers (congrArg some heq)
      · case isFalse hnone =>
        refine .present hfile hthere ?_
        cases hremote : entry.contentHash with
        | none => exact Or.inr (Or.inl rfl)
        | some h' =>
          cases hlocal : hashAt sha256 σ.disk (localAt b.localPath rel) with
          | none => exact Or.inr (Or.inr rfl)
          | some h =>
            rw [hremote, hlocal] at hnone
            exact Or.inl (Decidable.byContradiction fun hne => hnone ⟨hne, rfl, rfl⟩)
    · case isFalse hno =>
      split
      · case h_1 disk hdown => exact .failed (downloadTo_false hdown)
      · case h_2 disk hdown =>
        obtain ⟨bytes, hbody, hwritten, hkept⟩ := downloadTo_true hdown
        exact .downloaded hfile (Bool.eq_false_iff.mpr hno) hbody hdown hwritten hkept

/-! ## Pushing -/

structure LocalCandidate where
  relativePath : Path
  size : Int
  mtimeMs : Int
deriving DecidableEq, Repr

/-- What a candidate meets: the bytes found when it is hashed, what the preflight and the upload say, and
    the time of a failure. -/
structure PushAnswer where
  content : Option Bytes
  remote : Option RemoteFileStatus
  upload : Except FailureScope UploadOutcome
  nowMs : Int
deriving DecidableEq

inductive PushOutcome where
  | stored
  | handedOff
  | skipped
  | relaying
deriving DecidableEq, Repr

/-- The candidates whose size or time is not that of their entry, and whose retry is not put off. -/
def filterPendingCandidates (ix : LocalIndex) (id : BindingId) (nowMs : Int)
    (candidates : List LocalCandidate) : List LocalCandidate :=
  candidates.filter fun c =>
    ((ix.getEntry id c.relativePath).all fun e => e.size ≠ c.size ∨ e.mtimeMs ≠ c.mtimeMs) &&
      !(ix.getUploadFailure id c.relativePath).any fun f => f.nextAttemptMs > nowMs

/-- The entry of a candidate whose bytes the server has. -/
def pushedEntry (b : Binding) (c : LocalCandidate) (hash : ContentHash) (ix : LocalIndex) :
    IndexEntry where
  size := c.size
  mtimeMs := c.mtimeMs
  contentHash := some hash
  remoteFileId := (ix.getEntry b.id c.relativePath).bind (·.remoteFileId)
  lastCursor := ix.getCursor b.id

/-- Rust `push_one`. -/
def pushOne (b : Binding) (c : LocalCandidate) (a : PushAnswer) (ix : LocalIndex) :
    LocalIndex × Except FailureScope PushOutcome :=
  let existing := ix.getEntry b.id c.relativePath
  if a.remote.any fun r => r.stillRelaying && r.size = c.size then (ix, .ok .relaying)
  else
    match a.content with
    | none => (ix, .error .file)
    | some bytes =>
      let hash := sha256 bytes
      if existing.bind (·.contentHash) = some hash then
        match existing with
        | some e =>
          let touched := { e with size := c.size, mtimeMs := c.mtimeMs }
          (ix.upsertEntry b.id c.relativePath touched, .ok .skipped)
        | none => (ix, .ok .skipped)
      else if a.remote.any fun r => r.isUploaded && r.contentHash = some hash then
        (ix.upsertEntry b.id c.relativePath (pushedEntry b c hash ix), .ok .skipped)
      else
        match a.upload with
        | .error scope => (ix, .error scope)
        | .ok .handedOff => (ix, .ok .handedOff)
        | .ok .stored =>
          (ix.upsertEntry b.id c.relativePath (pushedEntry b c hash ix), .ok .stored)

inductive PushCase (b : Binding) (c : LocalCandidate) (a : PushAnswer) (ix : LocalIndex) :
    LocalIndex × Except FailureScope PushOutcome → Prop where
  | relaying {r : RemoteFileStatus} (hr : a.remote = some r) (hrelaying : r.stillRelaying = true)
      (hsize : r.size = c.size) :
    PushCase b c a ix (ix, .ok .relaying)
  | unread (hno : a.content = none) : PushCase b c a ix (ix, .error .file)
  | touched {bytes : Bytes} {e : IndexEntry} (hbytes : a.content = some bytes)
      (he : ix.getEntry b.id c.relativePath = some e) (hsame : e.contentHash = some (sha256 bytes)) :
    PushCase b c a ix
      (ix.upsertEntry b.id c.relativePath { e with size := c.size, mtimeMs := c.mtimeMs }, .ok .skipped)
  | confirmed {bytes : Bytes} {r : RemoteFileStatus} (hbytes : a.content = some bytes)
      (hnew : ix.recorded b.id c.relativePath ≠ some (sha256 bytes))
      (hr : a.remote = some r) (huploaded : r.isUploaded = true)
      (hhash : r.contentHash = some (sha256 bytes)) :
    PushCase b c a ix
      (ix.upsertEntry b.id c.relativePath (pushedEntry b c (sha256 bytes) ix), .ok .skipped)
  | refused {bytes : Bytes} {scope : FailureScope} (hbytes : a.content = some bytes)
      (hnew : ix.recorded b.id c.relativePath ≠ some (sha256 bytes)) (hup : a.upload = .error scope) :
    PushCase b c a ix (ix, .error scope)
  | handedOff {bytes : Bytes} (hbytes : a.content = some bytes)
      (hnew : ix.recorded b.id c.relativePath ≠ some (sha256 bytes)) (hup : a.upload = .ok .handedOff) :
    PushCase b c a ix (ix, .ok .handedOff)
  | stored {bytes : Bytes} (hbytes : a.content = some bytes)
      (hnew : ix.recorded b.id c.relativePath ≠ some (sha256 bytes)) (hup : a.upload = .ok .stored) :
    PushCase b c a ix
      (ix.upsertEntry b.id c.relativePath (pushedEntry b c (sha256 bytes) ix), .ok .stored)

lemma pushOne_case (b : Binding) (c : LocalCandidate) (a : PushAnswer) (ix : LocalIndex) :
    PushCase sha256 b c a ix (pushOne sha256 b c a ix) := by
  unfold pushOne
  dsimp only
  split
  · case isTrue hrelaying =>
    obtain ⟨r, hr, h⟩ := (Option.any_eq_true _ _).mp hrelaying
    rw [Bool.and_eq_true] at h
    exact .relaying hr h.1 (of_decide_eq_true h.2)
  · split
    · case h_1 hno => exact .unread hno
    · case h_2 bytes hbytes =>
      split
      · case isTrue hsame =>
        split
        · case h_1 e he =>
          rw [he] at hsame
          exact .touched hbytes he hsame
        · case h_2 he =>
          rw [he] at hsame
          cases hsame
      · case isFalse hnew =>
        split
        · case isTrue hconfirmed =>
          obtain ⟨r, hr, h⟩ := (Option.any_eq_true _ _).mp hconfirmed
          rw [Bool.and_eq_true] at h
          exact .confirmed hbytes hnew hr h.1 (of_decide_eq_true h.2)
        · split
          · case h_1 scope hup => exact .refused hbytes hnew hup
          · case h_2 hup => exact .handedOff hbytes hnew hup
          · case h_3 hup => exact .stored hbytes hnew hup

/-- `UPLOAD_BACKOFF_MS`, by the number of failures in a row. -/
def uploadBackoffMs (failCount : Int) : Int :=
  let rungs := [60000, 300000, 1800000, 3600000, 21600000]
  rungs.getD (min ((max failCount 1).toNat - 1) (rungs.length - 1)) 0

/-- `MAX_CONSECUTIVE_UPLOAD_FAILURES` -/
def maxConsecutiveUploadFailures : Nat := 10

def noteUploadFailure (ix : LocalIndex) (id : BindingId) (rel : Path) (nowMs : Int) : LocalIndex :=
  let failCount := ((ix.getUploadFailure id rel).map (·.failCount)).getD 0 + 1
  ix.setUploadFailure id rel ⟨failCount, nowMs + uploadBackoffMs failCount⟩

structure PushLocalResult where
  uploaded : Nat
  scanned : Nat
  pending : Nat
  failed : Nat
  firstError : Bool
  relaying : Nat
deriving DecidableEq, Repr

def PushLocalResult.count (t : PushLocalResult) (outcome : PushOutcome) : PushLocalResult :=
  { t with
    uploaded := t.uploaded + if outcome = .stored ∨ outcome = .handedOff then 1 else 0
    relaying := t.relaying + if outcome = .handedOff ∨ outcome = .relaying then 1 else 0 }

/-- A candidate, and what the batch notes of it. -/
def pushNoted (b : Binding) (c : LocalCandidate) (a : PushAnswer) (ix : LocalIndex) :
    LocalIndex × Except FailureScope PushOutcome :=
  match pushOne sha256 b c a ix with
  | (ix, .ok outcome) => (ix.clearUploadFailure b.id c.relativePath, .ok outcome)
  | (ix, .error .file) => (noteUploadFailure ix b.id c.relativePath a.nowMs, .error .file)
  | (ix, .error scope) => (ix, .error scope)

/-- The candidates one after the other, until the link is down or too many failed in a row. -/
def pushBatch (b : Binding) : List (LocalCandidate × PushAnswer) → LocalIndex → PushLocalResult →
    Nat → LocalIndex × PushLocalResult
  | [], ix, t, _ => (ix, t)
  | (c, a) :: rest, ix, t, consecutive =>
    match pushNoted sha256 b c a ix with
    | (ix, .ok outcome) => pushBatch b rest ix (t.count outcome) 0
    | (ix, .error .busy) => pushBatch b rest ix t consecutive
    | (ix, .error .link) => (ix, { t with firstError := true })
    | (ix, .error .file) =>
      let t := { t with failed := t.failed + 1, firstError := true }
      if consecutive + 1 ≥ maxConsecutiveUploadFailures then (ix, t)
      else pushBatch b rest ix t (consecutive + 1)

/-- Rust `push_local` over what the scan lists. -/
def pushLocal (b : Binding) (candidates : List LocalCandidate) (nowMs : Int)
    (answer : LocalCandidate → PushAnswer) (ix : LocalIndex) : LocalIndex × PushLocalResult :=
  let pending := filterPendingCandidates ix b.id nowMs candidates
  pushBatch sha256 b (pending.map fun c => (c, answer c)) ix
    ⟨0, candidates.length, pending.length, 0, false, 0⟩ 0

/-! ## A pass -/

inductive TickScope where
  | full
  | pullOnly
deriving DecidableEq, Repr

structure PassAnswers where
  snapshot : Option Snapshot
  candidates : Option (List LocalCandidate)
  nowMs : Int
  push : LocalCandidate → PushAnswer
  pages : List Page

structure SyncStatus where
  cursor : Int
  lastError : Bool
  uploading : Nat
  downloading : Nat
  conflicts : Nat
  scanned : Nat
  pending : Nat
  alreadySynced : Nat
  failed : Nat
  deferred : Nat
  relaying : Nat
deriving DecidableEq, Repr

/-- The cursor a pass starts from: a two-way binding without one is bootstrapped. -/
def passStart (b : Binding) (a : PassAnswers) (σ : Device) : Device × Option Int :=
  let cursor := σ.index.getCursor b.id
  if cursor = 0 ∧ b.mode = .sync then bootstrapSnapshot sha256 b a.snapshot σ
  else (σ, some cursor)

def passPush (b : Binding) (scope : TickScope) (a : PassAnswers) (σ : Device) :
    Device × Option PushLocalResult :=
  match scope with
  | .pullOnly => (σ, some ⟨0, 0, 0, 0, false, 0⟩)
  | .full =>
    match a.candidates with
    | none => (σ, none)
    | some candidates =>
      let pushed := pushLocal sha256 b candidates a.nowMs a.push σ.index
      (⟨σ.disk, pushed.1⟩, some pushed.2)

/-- The pull of a pass, where it has one, and the cursor it stores. -/
def passPull (b : Binding) (pages : List Page) (cursor : Int) (σ : Device) :
    Device × Option (Nat × Int) :=
  if b.mode = .sync then pullAndStore sha256 b pages cursor σ else (σ, some (0, cursor))

/-- Rust `sync_binding_scoped`; none after an error. -/
def syncBindingScoped (b : Binding) (scope : TickScope) (a : PassAnswers) (σ : Device) :
    Device × Option SyncStatus :=
  match passStart sha256 b a σ with
  | (σ, none) => (σ, none)
  | (σ, some cursor) =>
    match passPush sha256 b scope a σ with
    | (σ, none) => (σ, none)
    | (σ, some push) =>
      match passPull sha256 b a.pages cursor σ with
      | (σ, none) => (σ, none)
      | (σ, some (downloading, cursor)) =>
        (σ, some
          { cursor := cursor
            lastError := push.firstError
            uploading := push.uploaded
            downloading := downloading
            conflicts := σ.index.conflictCount b.id
            scanned := push.scanned
            pending := push.pending
            alreadySynced := push.scanned - push.pending
            failed := push.failed
            deferred := σ.index.uploadFailureCount b.id
            relaying := push.relaying })

end Engine

/-- Rust `heal_stale_storage` on what the server lists, and the message it publishes. -/
def healStaleStorage (b : Binding) (storages : Option (List StorageSummary)) (ix : LocalIndex) :
    LocalIndex × Option String :=
  match storages with
  | none => (ix, none)
  | some storages =>
    if storages.any fun s => s.id = b.storageId then (ix, none)
    else
      match storages with
      | [only] =>
        (ix.upsertBinding { b with storageId := only.id },
          some ("Reconnected to storage \"" ++ only.name ++ "\""))
      | [] => (ix, some "Storage no longer exists. Create one to resume auto-upload.")
      | _ => (ix, some "Storage no longer exists. Pick a storage again to resume auto-upload.")

end Sarca.Client
