import Sarca.Server.Restore
import Sarca.Server.Snapshot
import Sarca.Server.StoragePurge

/-!
# Cursors across a restore

A client keeps the id of the last event it has seen on its own machine; the server hands ids out from
`sqlite_sequence`, which a restore does not copy. `Deployment` is a server with its backups and the
clients' bindings; `Deployment.step` is a change on the server, a backup, a restore onto the same database
or a fresh one, or one step of a client's pull.

`Delivers` says of a state that every change that can be made now is an event behind every cursor there
is. It holds throughout a run just when each restore leaves the counter at or past the cursors of the
clients whose storage the backup has (`delivers_iff_covered`); a restore onto the same database does
(`covered_of_same`).
-/

namespace Sarca.Server
open Sarca.Lib

/-! ## Every change appends to the changelog -/

/-- The step appends events to the changelog, numbered behind the counter, and leaves the storages. -/
structure Db.Appends (db db' : Db) : Prop where
  events : ∃ evs, db'.events = db.events ++ number db.eventSeq evs ∧
    db'.eventSeq = db.eventSeq + evs.length
  storages : db'.storages = db.storages

lemma number_append (seq : Nat) (evs evs' : List EventData) :
    number seq (evs ++ evs') = number seq evs ++ number (seq + evs.length) evs' := by
  induction evs generalizing seq with
  | nil => rfl
  | cons e evs ih =>
    simp only [List.cons_append, number, ih, List.length_cons]
    rw [Nat.add_assoc, Nat.add_comm 1]

namespace Db.Appends

variable {db db' db'' : Db}

lemma refl (db : Db) : db.Appends db :=
  ⟨⟨[], (List.append_nil _).symm, rfl⟩, rfl⟩

lemma trans (h : db.Appends db') (h' : db'.Appends db'') : db.Appends db'' := by
  obtain ⟨⟨evs, hevents, hseq⟩, hstorages⟩ := h
  obtain ⟨⟨evs', hevents', hseq'⟩, hstorages'⟩ := h'
  refine ⟨⟨evs ++ evs', ?_, ?_⟩, hstorages'.trans hstorages⟩
  · rw [hevents', hevents, hseq, number_append, List.append_assoc]
  · rw [hseq', hseq, List.length_append, Nat.add_assoc]

lemma emit {evs : List EventData} (hevents : db'.events = db.events) (hseq : db'.eventSeq = db.eventSeq)
    (hstorages : db'.storages = db.storages) : db.Appends (db'.emit evs) :=
  ⟨⟨evs, by rw [Db.emit, hevents, hseq], by rw [Db.emit, hseq]⟩, hstorages⟩

lemma insertFile {row : FileRow} (hok : db.insertFile row = .ok db') : db.Appends db' := by
  obtain ⟨-, -, -, rfl⟩ := Db.insertFile_ok hok
  exact emit rfl rfl rfl

lemma updateEach {f : FileRow → FileRow} {ids : List Uuid} (hok : db.updateEach f ids = .ok db') :
    db.Appends db' := by
  induction ids generalizing db with
  | nil =>
    cases hok
    exact refl _
  | cons id ids ih =>
    unfold Db.updateEach at hok
    split at hok
    · exact ih hok
    · split at hok
      · cases hok
      · case h_2 db₁ hreplace =>
        obtain ⟨-, rfl⟩ := Db.replaceFile_ok hreplace
        refine trans ?_ (ih hok)
        exact emit rfl rfl rfl

lemma deleteEach (ids : List Uuid) (db : Db) : db.Appends (db.deleteEach ids) := by
  induction ids generalizing db with
  | nil => exact refl db
  | cons id ids ih =>
    unfold Db.deleteEach
    split
    · exact ih db
    · case h_2 old _ =>
      refine trans ?_ (ih (db.deleteFile old))
      exact emit rfl rfl rfl

lemma updateById {id : Uuid} {f : FileRow → FileRow} (hok : db.updateById id f = .ok db') :
    db.Appends db' :=
  updateEach (Db.updateById_inv hok)

lemma replaceContent {fileId retiredId : Uuid} {expected : Option ContentHash} {retiredPath : Path}
    {incoming : InFile} {now : Instant}
    (hok : db.replaceContent fileId expected retiredPath incoming retiredId now = .ok db') :
    db.Appends db' := by
  obtain ⟨current, -, -, -, -, db₁, hretire, hupd⟩ := Db.replaceContent_inv hok
  refine trans ?_ (updateById hupd)
  rcases Db.retire_inv hretire with ⟨-, rfl⟩ | ⟨-, db₂, hinsert, rfl⟩
  · exact refl _
  · obtain ⟨hevents, hstorages⟩ := insertFile hinsert
    exact ⟨hevents, hstorages⟩

lemma recreateParent {storageId markerId : Uuid} {path : Path}
    (hok : db.recreateParent storageId path markerId = .ok db') : db.Appends db' := by
  rcases Db.recreateParent_inv hok with ⟨rfl, -⟩ | ⟨parent, -, -, hinsert⟩
  · exact refl _
  · exact insertFile hinsert

lemma delete {path : Path} {storageId markerId : Uuid} {now : Instant} {order : List Uuid}
    (hok : db.delete path storageId now markerId order = .ok db') : db.Appends db' := by
  obtain ⟨db₁, hupd, -, hparent⟩ := Db.delete_inv hok
  exact (updateEach hupd).trans (recreateParent hparent)

lemma restore {path : Path} {storageId : Uuid} {order : List Uuid}
    (hok : db.restore path storageId order = .ok db') : db.Appends db' := by
  rcases Db.restore_inv hok with rfl | hupd
  · exact refl _
  · exact updateEach hupd

lemma ensureLiveFolder {path : Path} {storageId id : Uuid} {order : List Uuid}
    (hok : db.ensureLiveFolder path storageId id order = .ok db') : db.Appends db' := by
  rcases Db.ensureLiveFolder_inv hok with rfl | ⟨marker, -, hupd⟩ | hinsert
  · exact refl _
  · exact updateEach hupd
  · exact insertFile hinsert

lemma ensureFolders (storageId : Uuid) (order : List Uuid) (folders : List (Path × Uuid)) (db : Db) :
    db.Appends (Db.ensureFolders storageId order folders db) := by
  induction folders generalizing db with
  | nil => exact refl db
  | cons folder rest ih =>
    unfold Db.ensureFolders
    split
    · case h_1 db₁ hone => exact (ensureLiveFolder hone).trans (ih db₁)
    · exact refl db

lemma rewritePaths {oldPath newPath : Path} {storageId : Uuid} {liveOnly : Bool} {order : List Uuid}
    (hok : db.rewritePaths oldPath newPath storageId liveOnly order = .ok db') : db.Appends db' :=
  updateEach (Db.rewritePaths_inv hok)

lemma attempt {op : RowOp} (hok : attempt db op = .ok db') : db.Appends db' := by
  cases op with
  | createFile inObj id => exact insertFile (Db.createFileRow_ok hok)
  | createFolder inObj id => exact insertFile (Db.createFileRow_ok hok)
  | setAsUploaded fileId => exact updateById hok
  | setThumb fileId telegramFileId messageId => exact updateById hok
  | setPreview fileId telegramFileId messageId => exact updateById hok
  | delete path storageId now markerId order => exact delete hok
  | restore path storageId order => exact restore hok
  | ensureLiveParentFolders path storageId ids order =>
    cases hok
    exact ensureFolders storageId order _ db
  | updatePath oldPath newPath storageId order => exact rewritePaths hok
  | updateTrashedPath oldPath newPath storageId order => exact rewritePaths hok
  | replaceContent fileId expectedHash retiredPath incoming retiredId now => exact replaceContent hok
  | hardDeleteIds ids order =>
    cases hok
    exact deleteEach _ db

lemma exec (db : Db) (op : RowOp) : db.Appends (exec db op) := by
  unfold Server.exec
  split
  · case h_1 db' hok => exact attempt hok
  · exact refl db

end Db.Appends

/-! ## The system -/

/-- The counter behind the ids a restore copies in: `sqlite_sequence` is not copied, and an inserted id
    raises it. -/
def Db.counterAfter (live archive : Db) : Nat :=
  (archive.events.map (·.id)).foldl max live.eventSeq

/-- The live database once the archive is copied over it. -/
def Db.restoreFrom (live archive : Db) : Db :=
  { archive with eventSeq := live.counterAfter archive }

/-- Where a client is in a pass over one binding. -/
inductive PullPhase where
  | idle
  | bootstrapping (cursor : Nat)
  | pulling (cursor : Nat)
deriving DecidableEq, Repr

/-- A two-way binding of a client: its storage, and the cursor in the client's index. -/
structure SyncClient where
  storageId : Uuid
  cursor : Nat
  phase : PullPhase
deriving DecidableEq, Repr

/-- A step of a pass (Rust `sync_binding_scoped`): the cursor is read, and a snapshot where it is 0
    (`bootstrap_snapshot`); its cursor is stored; a page is read (`pull_remote`), and the cursor stored
    behind the last one; or a request fails. -/
inductive PullStep where
  | start
  | keep
  | page
  | fail
deriving DecidableEq, Repr

namespace SyncClient

/-- The cursors the client holds: the stored one, and that of the pass under way. -/
def cursors (c : SyncClient) : List Nat :=
  c.cursor :: match c.phase with
    | .idle => []
    | .bootstrapping n => [n]
    | .pulling n => [n]

def nextPage (db : Db) (c : SyncClient) (n : Nat) : ChangelogResponse :=
  changelogResponse db c.storageId (some n) (some 500)

def turn (db : Db) (c : SyncClient) : PullStep → SyncClient
  | .start =>
    match c.phase with
    | .idle =>
      if c.cursor ≠ 0 then { c with phase := .pulling c.cursor }
      else if db.HasStorage c.storageId then { c with phase := .bootstrapping (db.maxCursor c.storageId) }
      else c
    | _ => c
  | .keep =>
    match c.phase with
    | .bootstrapping n => { c with cursor := n, phase := .pulling n }
    | _ => c
  | .page =>
    match c.phase with
    | .pulling n =>
      if db.HasStorage c.storageId then
        if (c.nextPage db n).hasMore then { c with phase := .pulling (max n (c.nextPage db n).nextCursor) }
        else { c with cursor := max n (c.nextPage db n).nextCursor, phase := .idle }
      else { c with phase := .idle }
    | _ => c
  | .fail => { c with phase := .idle }

end SyncClient

/-- A server with its backups, and the bindings of the clients. -/
structure Deployment where
  next : Uuid
  db : Db
  backups : List Db
  clients : List SyncClient

inductive DeployStep where
  | change (op : RowOp)
  | createStorage (chatIds : List Int)
  | deleteStorage (storageId : Uuid) (order : List Uuid)
  | backup
  | restore (i : Nat) (fresh : Bool)
  | bind (storageId : Uuid)
  | client (i : Nat) (s : PullStep)

namespace Deployment

def target (σ : Deployment) (fresh : Bool) : Db :=
  if fresh then Db.fresh [] else σ.db

def step (σ : Deployment) : DeployStep → Deployment
  | .change op => { σ with db := exec σ.db op }
  | .createStorage chatIds =>
    { σ with
      db := (σ.db.createStorage σ.next chatIds).1
      next := (σ.db.createStorage σ.next chatIds).2 }
  | .deleteStorage storageId order => { σ with db := σ.db.deleteStorageInTx storageId order }
  | .backup => { σ with backups := σ.backups ++ [σ.db] }
  | .restore i fresh =>
    match σ.backups[i]? with
    | none => σ
    | some archive => { σ with db := (σ.target fresh).restoreFrom archive }
  | .bind storageId =>
    if σ.db.HasStorage storageId then { σ with clients := σ.clients ++ [⟨storageId, 0, .idle⟩] } else σ
  | .client i s => { σ with clients := σ.clients.modify i (·.turn σ.db s) }

def initial : Deployment where
  next := 0
  db := Db.fresh []
  backups := []
  clients := []

/-- Every change that can be made now is an event behind all cursors of its storage. -/
def Delivers (σ : Deployment) : Prop :=
  ∀ op, ∀ e ∈ (exec σ.db op).events, e ∉ σ.db.events → σ.db.HasStorage e.storageId →
    ∀ c ∈ σ.clients, c.storageId = e.storageId → ∀ n ∈ c.cursors, n < e.id

/-- A restore leaves the counter at or past the cursors of the clients whose storage the backup has. -/
def Covered (σ : Deployment) : DeployStep → Prop
  | .restore i fresh => ∀ archive ∈ σ.backups[i]?, ∀ c ∈ σ.clients, archive.HasStorage c.storageId →
      ∀ n ∈ c.cursors, n ≤ (σ.target fresh).counterAfter archive
  | _ => True

/-- No cursor of a storage that exists is ahead of the counter. -/
def Reach (σ : Deployment) : Prop :=
  ∀ c ∈ σ.clients, σ.db.HasStorage c.storageId → ∀ n ∈ c.cursors, n ≤ σ.db.eventSeq

end Deployment

/-! ## The copy of the changelog -/

section CopyLog

open Sqlite

/-- The columns of `file_sync_events`. -/
def eventColumns : List Column :=
  [⟨"id", "INTEGER", none⟩, ⟨"storage_id", "BLOB", none⟩, ⟨"file_id", "BLOB", none⟩, ⟨"path", "TEXT", none⟩,
    ⟨"op", "TEXT", none⟩, ⟨"size", "INTEGER", none⟩, ⟨"is_file", "INTEGER", some "1"⟩,
    ⟨"content_hash", "TEXT", none⟩, ⟨"source_mtime", "TEXT", none⟩,
    ⟨"created_at", "TEXT", some "datetime('now')"⟩]

def eventsTable (rows : List Row) : Table :=
  ⟨"file_sync_events", eventColumns, some "id", true, rows⟩

variable {D : Dialect}

/-- A database holds the changelog of `db` in the given rows. -/
structure HoldsLog (s : Database D) (db : Db) (rows : List Row) : Prop where
  table : s.table? "file_sync_events" = some (eventsTable rows)
  ids : rows.map (eventsTable []).idOf = db.events.map fun e => some (e.id : Int)
  seq : s.seqOf "file_sync_events" = db.eventSeq

/-- A value that a column of the same type has stored is stored as it is. -/
def StoredRow (D : Dialect) (row : Row) : Prop :=
  row.length = eventColumns.length ∧
    ∀ c ∈ eventColumns, D.store c (cell eventColumns row c.name) = cell eventColumns row c.name

lemma foldl_max_cast (l : List Nat) (a : Nat) :
    (l.map (fun n : Nat => (n : Int))).foldl max (a : Int) = (l.foldl max a : Nat) := by
  induction l generalizing a with
  | nil => rfl
  | cons b l ih =>
    rw [List.map_cons, List.foldl_cons, List.foldl_cons, ← ih]
    congr 1
    omega

/-- The copy of a backup leaves the changelog that `restoreFrom` gives. -/
theorem holdsLog_restoreFrom {live archive after : Database D} {db backup : Db} {rows rows' : List Row}
    (h : Restore.Restored live archive after) (hlive : HoldsLog live db rows)
    (harchive : HoldsLog archive backup rows') (hstored : ∀ row ∈ rows', StoredRow D row) :
    HoldsLog after (db.restoreFrom backup) rows' := by
  have hshared : Restore.sharedColumns (eventsTable rows) (eventsTable rows') ≠ [] := by
    simp [Restore.sharedColumns, Restore.shared, eventsTable, eventColumns]
  obtain ⟨copied, htable, hcopied⟩ :=
    h.both "file_sync_events" _ _ (by decide +kernel) hlive.table harchive.table hshared
  -- All columns are shared, so each row is written as it was read.
  have hwritten : ∀ row ∈ rows', eventColumns.map
      (fill D (Restore.sharedColumns (eventsTable rows) (eventsTable rows')) (eventsTable rows') row) = row := by
    intro row hrow
    obtain ⟨hlength, hstore⟩ := hstored row hrow
    refine Eq.trans (List.map_congr_left fun c hc => ?_) (map_cell (by decide) hlength)
    have hmem : c.name ∈ Restore.sharedColumns (eventsTable rows) (eventsTable rows') := by
      have hname : c.name ∈ eventColumns.map (·.name) := List.mem_map_of_mem hc
      exact List.mem_filter.mpr ⟨hname, decide_eq_true hname⟩
    rw [fill, if_pos hmem]
    exact hstore c hc
  let id : Row → Int := fun row => ((eventsTable []).idOf row).getD 0
  have hids : rows'.map id = (backup.events.map (·.id)).map fun n : Nat => (n : Int) := by
    have hmap := congrArg (List.map fun n : Option Int => n.getD 0) harchive.ids
    simpa only [List.map_map, Function.comp_def, Option.getD_some] using hmap
  have hid : ∀ row ∈ rows', (eventsTable []).idOf row = some (id row) := by
    intro row hrow
    have hmem := List.mem_map_of_mem (f := (eventsTable []).idOf) hrow
    rw [harchive.ids] at hmem
    obtain ⟨e, -, he⟩ := List.mem_map.mp hmem
    simp only [id, ← he, Option.getD_some]
  obtain ⟨hrows, hseq⟩ := hcopied.ids id fun row hrow => by
    refine Eq.trans (congrArg _ (hwritten row hrow)) ?_
    exact hid row hrow
  have hcopy : copied = rows' := by
    rw [hrows]
    exact (List.map_congr_left hwritten).trans (List.map_id rows')
  refine ⟨hcopy ▸ htable, harchive.ids, ?_⟩
  rw [hseq, hlive.seq]
  show (rows'.map id).foldl max (db.eventSeq : Int) = _
  rw [hids, foldl_max_cast]
  rfl

end CopyLog

/-! ## What every run keeps -/

/-- The events of the changelog are in the order of their ids, up to the counter. -/
structure Db.Logged (db : Db) : Prop where
  grows : db.events.Pairwise (·.id < ·.id)
  seen : ∀ e ∈ db.events, e.id ≤ db.eventSeq

namespace Db

variable {db db' : Db}

lemma Appends.eventSeq_le (h : db.Appends db') : db.eventSeq ≤ db'.eventSeq := by
  obtain ⟨evs, -, hseq⟩ := h.events
  exact hseq ▸ Nat.le_add_right _ _

lemma Appends.behind (h : db.Appends db') {e : SyncEvent} (he : e ∈ db'.events) (hnew : e ∉ db.events) :
    db.eventSeq < e.id := by
  obtain ⟨evs, hevents, -⟩ := h.events
  rw [hevents, List.mem_append] at he
  exact (number_id (he.resolve_left hnew)).1

lemma Appends.logged (h : db.Appends db') (hlog : db.Logged) : db'.Logged := by
  obtain ⟨evs, hevents, hseq⟩ := h.events
  constructor
  · rw [hevents]
    refine List.pairwise_append.mpr ⟨hlog.grows, number_pairwise _ _, fun e he e' he' => ?_⟩
    exact Nat.lt_of_le_of_lt (hlog.seen e he) (number_id he').1
  · intro e he
    rw [hevents, List.mem_append] at he
    obtain he | he := he
    · exact (hlog.seen e he).trans h.eventSeq_le
    · exact hseq ▸ (number_id he).2

lemma restoreFrom_logged (live : Db) {archive : Db} (hlog : archive.Logged) :
    (live.restoreFrom archive).Logged where
  grows := hlog.grows
  seen := fun _ he => (le_foldl_max _ _).2 _ (List.mem_map_of_mem he)

lemma eventSeq_le_counterAfter (live archive : Db) : live.eventSeq ≤ live.counterAfter archive :=
  (le_foldl_max _ _).1

lemma deleteStorageInTx_events (db : Db) (storageId : Uuid) (order : List Uuid) :
    ∃ db', db.Appends db' ∧
      (db.deleteStorageInTx storageId order).events = db'.events.filter (fun e => e.storageId ≠ storageId) ∧
      (db.deleteStorageInTx storageId order).eventSeq = db'.eventSeq ∧
      (db.deleteStorageInTx storageId order).storages = db'.storages.filter fun s => s.id ≠ storageId := by
  refine ⟨_, ?_, rfl, rfl, rfl⟩
  obtain ⟨hevents, hstorages⟩ := Appends.deleteEach
    (visitOrder order _) { db with workers := db.workers.filter fun w => w.storageId ≠ some storageId }
  exact ⟨hevents, hstorages⟩

end Db

namespace SyncClient

variable {db : Db} {c : SyncClient}

@[simp] lemma turn_storageId (s : PullStep) : (c.turn db s).storageId = c.storageId := by
  unfold turn
  cases s <;> dsimp only <;> split <;> (try split) <;> (try split) <;> rfl

lemma nextCursor_le (hlog : db.Logged) (n : Nat) : (c.nextPage db n).nextCursor ≤ db.eventSeq := by
  unfold nextPage changelogResponse
  dsimp only
  cases hlast : List.getLast? _ with
  | none => exact Nat.zero_le _
  | some e =>
    have he := List.mem_of_getLast? hlast
    have he : e ∈ db.eventsOf c.storageId := List.mem_of_mem_filter (List.mem_of_mem_take he)
    exact hlog.seen e (List.mem_of_mem_filter he)

lemma turn_le (hlog : db.Logged) (s : PullStep) (h : ∀ n ∈ c.cursors, n ≤ db.eventSeq) :
    ∀ n ∈ (c.turn db s).cursors, n ≤ db.eventSeq := by
  obtain ⟨storageId, cursor, phase⟩ := c
  have hcursor : cursor ≤ db.eventSeq := h cursor List.mem_cons_self
  have hpair : ∀ {m : Nat}, m ≤ db.eventSeq → ∀ n ∈ [cursor, m], n ≤ db.eventSeq := by
    intro m hm n hn
    obtain rfl | hn := List.mem_cons.mp hn
    · exact hcursor
    · exact List.mem_singleton.mp hn ▸ hm
  cases s with
  | start =>
    cases phase with
    | idle =>
      simp only [turn]
      split
      · exact hpair hcursor
      · split
        · refine hpair (foldl_max_le (Nat.zero_le _) fun n hn => ?_)
          obtain ⟨e, he, rfl⟩ := List.mem_map.mp hn
          exact hlog.seen e (List.mem_of_mem_filter he)
        · exact h
    | _ => exact h
  | keep =>
    cases phase with
    | bootstrapping m =>
      have hm : m ≤ db.eventSeq := h m (List.mem_cons_of_mem _ List.mem_cons_self)
      intro n hn
      obtain rfl | hn := List.mem_cons.mp hn
      · exact hm
      · exact List.mem_singleton.mp hn ▸ hm
    | _ => exact h
  | page =>
    cases phase with
    | pulling m =>
      have hm : m ≤ db.eventSeq := h m (List.mem_cons_of_mem _ List.mem_cons_self)
      have hmax := Nat.max_le.mpr ⟨hm, nextCursor_le (c := ⟨storageId, cursor, .pulling m⟩) hlog m⟩
      simp only [turn]
      split
      · split
        · exact hpair hmax
        · intro n hn
          exact List.mem_singleton.mp hn ▸ hmax
      · intro n hn
        exact List.mem_singleton.mp hn ▸ hcursor
    | _ => exact h
  | fail =>
    intro n hn
    exact List.mem_singleton.mp hn ▸ hcursor

end SyncClient

namespace Deployment

variable {σ : Deployment} {a : DeployStep}

structure Sound (σ : Deployment) : Prop where
  logged : σ.db.Logged
  given : ∀ s ∈ σ.db.storages, s.id < σ.next
  backups : ∀ b ∈ σ.backups, b.Logged ∧ ∀ s ∈ b.storages, s.id < σ.next
  bound : ∀ c ∈ σ.clients, c.storageId < σ.next

lemma createStorage_cases (db : Db) (next : Uuid) (chatIds : List Int) :
    (db.createStorage next chatIds).1.events = db.events ∧
      (db.createStorage next chatIds).1.eventSeq = db.eventSeq ∧ next < (db.createStorage next chatIds).2 ∧
      ∀ s ∈ (db.createStorage next chatIds).1.storages, s ∈ db.storages ∨ s.id = next := by
  unfold Db.createStorage
  split
  · exact ⟨rfl, rfl, Nat.lt_succ_self _, fun s hs => .inl hs⟩
  · refine ⟨rfl, rfl, Nat.lt_of_lt_of_le (Nat.lt_succ_self next) (Nat.le_add_right _ _), fun s hs => ?_⟩
    obtain hs | hs := List.mem_append.mp hs
    · exact .inl hs
    · exact .inr (List.mem_singleton.mp hs ▸ rfl)

lemma Sound.step (h : σ.Sound) (a : DeployStep) : (σ.step a).Sound := by
  cases a with
  | change op =>
    have happ := Db.Appends.exec σ.db op
    exact ⟨happ.logged h.logged, fun s hs => h.given s (happ.storages ▸ hs), h.backups, h.bound⟩
  | createStorage chatIds =>
    obtain ⟨hevents, hseq, hnext, hstorages⟩ := createStorage_cases σ.db σ.next chatIds
    refine ⟨⟨?_, ?_⟩, fun s hs => ?_, fun b hb => ?_, fun c hc => (h.bound c hc).trans hnext⟩
    · exact hevents.symm ▸ h.logged.grows
    · exact fun e he => hseq.symm ▸ h.logged.seen e (hevents ▸ he)
    · obtain hs | hs := hstorages s hs
      · exact (h.given s hs).trans hnext
      · exact hs ▸ hnext
    · exact ⟨(h.backups b hb).1, fun s hs => ((h.backups b hb).2 s hs).trans hnext⟩
  | deleteStorage storageId order =>
    obtain ⟨db', happ, hevents, hseq, hstorages⟩ := σ.db.deleteStorageInTx_events storageId order
    have hlog := happ.logged h.logged
    refine ⟨⟨?_, fun e he => ?_⟩, fun s hs => ?_, h.backups, h.bound⟩
    · exact hevents.symm ▸ hlog.grows.filter _
    · exact hseq.symm ▸ hlog.seen e (List.mem_of_mem_filter (hevents ▸ he))
    · exact h.given s (happ.storages ▸ List.mem_of_mem_filter (hstorages ▸ hs))
  | backup =>
    refine ⟨h.logged, h.given, fun b hb => ?_, h.bound⟩
    obtain hb | hb := List.mem_append.mp hb
    · exact h.backups b hb
    · exact List.mem_singleton.mp hb ▸ ⟨h.logged, h.given⟩
  | restore i fresh =>
    simp only [Deployment.step]
    split
    · exact h
    · next archive harchive =>
      obtain ⟨hlog, hgiven⟩ := h.backups archive (List.mem_of_getElem? harchive)
      exact ⟨Db.restoreFrom_logged _ hlog, hgiven, h.backups, h.bound⟩
  | bind storageId =>
    simp only [Deployment.step]
    split
    · next hstorage =>
      obtain ⟨s, hs, rfl⟩ := hstorage
      refine ⟨h.logged, h.given, h.backups, fun c hc => ?_⟩
      obtain hc | hc := List.mem_append.mp hc
      · exact h.bound c hc
      · cases List.mem_singleton.mp hc
        exact h.given s hs
    · exact h
  | client i s =>
    refine ⟨h.logged, h.given, h.backups, fun c hc => ?_⟩
    obtain hc | ⟨d, hd, rfl⟩ := mem_modify hc
    · exact h.bound c hc
    · exact (SyncClient.turn_storageId s).symm ▸ h.bound d (List.mem_of_getElem? hd)

lemma reach_step_iff (h : σ.Sound) (hreach : σ.Reach) : (σ.step a).Reach ↔ σ.Covered a := by
  cases a with
  | change op =>
    have happ := Db.Appends.exec σ.db op
    refine iff_of_true (fun c hc hstorage n hn => ?_) trivial
    have hstorage : σ.db.HasStorage c.storageId := by
      unfold Db.HasStorage at hstorage ⊢
      rwa [← happ.storages]
    exact (hreach c hc hstorage n hn).trans happ.eventSeq_le
  | createStorage chatIds =>
    obtain ⟨-, hseq, -, hstorages⟩ := createStorage_cases σ.db σ.next chatIds
    refine iff_of_true (fun c hc hstorage n hn => ?_) trivial
    obtain ⟨s, hs, hid⟩ := hstorage
    obtain hs | hs := hstorages s hs
    · exact hseq.symm ▸ hreach c hc ⟨s, hs, hid⟩ n hn
    · exact absurd (h.bound c hc) (hs ▸ hid ▸ Nat.lt_irrefl _)
  | deleteStorage storageId order =>
    obtain ⟨db', happ, -, hseq, hstorages⟩ := σ.db.deleteStorageInTx_events storageId order
    refine iff_of_true (fun c hc hstorage n hn => ?_) trivial
    obtain ⟨s, hs, hid⟩ := hstorage
    have hs : s ∈ σ.db.storages := happ.storages ▸ List.mem_of_mem_filter (hstorages ▸ hs)
    exact ((hreach c hc ⟨s, hs, hid⟩ n hn).trans happ.eventSeq_le).trans_eq hseq.symm
  | backup => exact iff_of_true hreach trivial
  | restore i fresh =>
    simp only [Reach, Covered, Deployment.step]
    cases harchive : σ.backups[i]? with
    | none => exact iff_of_true hreach fun _ hnone => nomatch hnone
    | some archive =>
      refine ⟨fun hreach b hb => ?_, fun hcovered => hcovered archive rfl⟩
      cases hb
      exact hreach
  | bind storageId =>
    refine iff_of_true (fun c hc hstorage n hn => ?_) trivial
    simp only [Deployment.step] at hc hstorage ⊢
    split at hc
    · next hthere =>
      rw [if_pos hthere] at hstorage ⊢
      obtain hc | hc := List.mem_append.mp hc
      · exact hreach c hc hstorage n hn
      · cases List.mem_singleton.mp hc
        exact List.mem_singleton.mp hn ▸ Nat.zero_le _
    · next hthere =>
      rw [if_neg hthere] at hstorage ⊢
      exact hreach c hc hstorage n hn
  | client i s =>
    refine iff_of_true (fun c hc hstorage n hn => ?_) trivial
    obtain hc | ⟨d, hd, rfl⟩ := mem_modify hc
    · exact hreach c hc hstorage n hn
    · rw [SyncClient.turn_storageId] at hstorage
      exact SyncClient.turn_le h.logged s (hreach d (List.mem_of_getElem? hd) hstorage) n hn

/-! ## Delivery -/

lemma exists_folder (db : Db) {storageId : Uuid} (hstorage : db.HasStorage storageId) :
    ∃ op e, (exec db op).events = db.events ++ [e] ∧ e.id = db.eventSeq + 1 ∧ e.storageId = storageId := by
  let id := (db.files.map (·.id)).foldl max 0 + 1
  let path : Path := List.replicate ((db.files.map (·.path.length)).foldl max 0) 'a' ++ ['/']
  have hid : db.fileById id = none := by
    refine List.find?_eq_none.mpr fun r hr heq => ?_
    have hle := (le_foldl_max (db.files.map (·.id)) 0).2 r.id (List.mem_map_of_mem hr)
    rw [decide_eq_true_eq] at heq
    exact Nat.not_succ_le_self _ (heq ▸ hle)
  have hpath : db.liveAt storageId path = none := by
    refine List.find?_eq_none.mpr fun r hr heq => ?_
    have hle := (le_foldl_max (db.files.map (·.path.length)) 0).2 r.path.length
      (List.mem_map_of_mem (f := (·.path.length)) hr)
    simp only [decide_eq_true_eq] at heq
    have hlen : path.length = (db.files.map (·.path.length)).foldl max 0 + 1 := by
      simp [path]
    rw [heq.2.1, hlen] at hle
    exact Nat.not_succ_le_self _ hle
  let row : FileRow := (InFile.new path 0 storageId).toRow id true
  have hinsert : db.insertFile row =
      .ok (Db.emit { db with files := db.files ++ [row] } (filesSyncEventInsert row)) := by
    have hfree : ¬(row.Live ∧ (db.liveAt row.storageId row.path).isSome = true) := fun h =>
      Bool.false_ne_true ((congrArg Option.isSome hpath).symm.trans h.2)
    have hnew : ¬(db.fileById row.id).isSome = true := fun h =>
      Bool.false_ne_true ((congrArg Option.isSome hid).symm.trans h)
    unfold Db.insertFile
    rw [if_neg hnew, if_neg hfree]
    exact if_pos hstorage
  have hevent : filesSyncEventInsert row = [eventOf .upsert row] := if_pos ⟨rfl, .inl rfl⟩
  refine ⟨.createFolder (InFile.new path 0 storageId) id,
    { eventOf .upsert row with id := db.eventSeq + 1 }, ?_, rfl, rfl⟩
  have hcreate : db.createFileRow (InFile.new path 0 storageId) true id =
      .ok (Db.emit { db with files := db.files ++ [row] } [eventOf .upsert row]) := by
    unfold Db.createFileRow
    rw [hinsert, hevent]
  simp only [exec, attempt, hcreate]
  rfl

lemma delivers_iff_reach (h : σ.Sound) : σ.Delivers ↔ σ.Reach := by
  constructor
  · intro hdelivers c hc hstorage n hn
    obtain ⟨op, e, hevents, hid, he⟩ := exists_folder σ.db hstorage
    have hmem : e ∈ (exec σ.db op).events := hevents ▸ List.mem_append_right _ List.mem_cons_self
    have hnew : e ∉ σ.db.events := fun hold =>
      Nat.not_succ_le_self _ (hid ▸ h.logged.seen e hold)
    have hlt := hdelivers op e hmem hnew (he.symm ▸ hstorage) c hc he.symm n hn
    rw [hid] at hlt
    exact Nat.le_of_lt_succ hlt
  · intro hreach op e he hnew hstorage c hc hbound n hn
    have hle := hreach c hc (hbound.symm ▸ hstorage) n hn
    exact Nat.lt_of_le_of_lt hle ((Db.Appends.exec σ.db op).behind he hnew)

lemma initial_sound : initial.Sound where
  logged := ⟨List.Pairwise.nil, fun _ he => absurd he List.not_mem_nil⟩
  given := fun _ hs => absurd hs List.not_mem_nil
  backups := fun _ hb => absurd hb List.not_mem_nil
  bound := fun _ hc => absurd hc List.not_mem_nil

/-- In every history of a server and its clients, every change is delivered throughout just when each
    restore is covered. -/
theorem delivers_iff_covered (as : List DeployStep) :
    Always Deployment.step Delivers initial as ↔ AllOk Deployment.step Covered initial as := by
  refine always_iff_allOk (I := Sound) (fun σ a h _ => h.step a) (fun σ a h hdelivers => ?_) initial_sound ?_
  · rw [delivers_iff_reach (h.step a)]
    exact reach_step_iff h ((delivers_iff_reach h).mp hdelivers)
  · exact fun _ _ _ _ _ c hc => absurd hc List.not_mem_nil

/-- Nothing that stays on one database can put a cursor ahead of its counter. -/
structure OneDatabase (σ : Deployment) : Prop extends Sound σ where
  behind : ∀ c ∈ σ.clients, ∀ n ∈ c.cursors, n ≤ σ.db.eventSeq

lemma OneDatabase.step (h : σ.OneDatabase) (hsame : ∀ i, a ≠ .restore i true) : (σ.step a).OneDatabase := by
  refine ⟨h.toSound.step a, ?_⟩
  cases a with
  | change op =>
    exact fun c hc n hn => (h.behind c hc n hn).trans (Db.Appends.exec σ.db op).eventSeq_le
  | createStorage chatIds =>
    obtain ⟨-, hseq, -, -⟩ := createStorage_cases σ.db σ.next chatIds
    exact fun c hc n hn => (h.behind c hc n hn).trans_eq hseq.symm
  | deleteStorage storageId order =>
    obtain ⟨db', happ, -, hseq, -⟩ := σ.db.deleteStorageInTx_events storageId order
    exact fun c hc n hn => ((h.behind c hc n hn).trans happ.eventSeq_le).trans_eq hseq.symm
  | backup => exact h.behind
  | restore i fresh =>
    simp only [Deployment.step]
    split
    · exact h.behind
    · next archive harchive =>
      cases fresh with
      | false =>
        exact fun c hc n hn => (h.behind c hc n hn).trans (Db.eventSeq_le_counterAfter σ.db archive)
      | true => exact absurd rfl (hsame i)
  | bind storageId =>
    simp only [Deployment.step]
    split
    · intro c hc n hn
      obtain hc | hc := List.mem_append.mp hc
      · exact h.behind c hc n hn
      · cases List.mem_singleton.mp hc
        exact List.mem_singleton.mp hn ▸ Nat.zero_le _
    · exact h.behind
  | client i s =>
    intro c hc n hn
    obtain hc | ⟨d, hd, rfl⟩ := mem_modify hc
    · exact h.behind c hc n hn
    · exact SyncClient.turn_le h.logged s (h.behind d (List.mem_of_getElem? hd)) n hn

/-- Restores onto the same database lose nothing. -/
theorem delivers_of_same {as : List DeployStep} (hsame : ∀ a ∈ as, ∀ i, a ≠ .restore i true) :
    Always Deployment.step Delivers initial as := by
  have hone : initial.OneDatabase := ⟨initial_sound, fun c hc => absurd hc List.not_mem_nil⟩
  have hok : AllOk Deployment.step (fun _ a => ∀ i, a ≠ .restore i true) initial as :=
    allOk_of_forall hsame
  have halways := always_of_allOk (fun σ a h hok => h.step hok) hone hok
  exact halways.mono fun σ h => (delivers_iff_reach h.toSound).mpr fun c hc _ => h.behind c hc

end Deployment

/-! ## The pull behind a change -/

namespace SyncClient

variable {db : Db} {c : SyncClient}

/-- The events a pass reads, page after page (Rust `pull_remote`). -/
def pullRemote (db : Db) (c : SyncClient) : Nat → Nat → List SyncEvent
  | 0, _ => []
  | fuel + 1, n => (c.nextPage db n).events ++
    if (c.nextPage db n).hasMore then pullRemote db c fuel (max n (c.nextPage db n).nextCursor) else []

lemma nextPage_complete (hlog : db.Logged) {n : Nat} {e : SyncEvent} (he : e ∈ db.eventsOf c.storageId)
    (hbehind : n < e.id) :
    e ∈ (c.nextPage db n).events ∨
      (c.nextPage db n).hasMore = true ∧ n < (c.nextPage db n).nextCursor ∧
        (c.nextPage db n).nextCursor < e.id := by
  let unread := (db.eventsOf c.storageId).filter fun e => n < e.id
  have hmem : e ∈ unread := List.mem_filter.mpr ⟨he, decide_eq_true hbehind⟩
  have hgrows : unread.Pairwise (·.id < ·.id) := (hlog.grows.filter _).filter _
  have hpage : c.nextPage db n = ⟨unread.take 500, ((unread.take 500).getLast?.map (·.id)).getD 0,
      decide (500 ≤ (unread.take 500).length)⟩ := by
    simp [nextPage, changelogResponse, Db.changelog, unread]
  rw [hpage]
  rw [← List.take_append_drop 500 unread, List.mem_append] at hmem
  obtain hmem | hmem := hmem
  · exact .inl hmem
  · right
    have hlong : 500 < unread.length := by
      by_contra hshort
      rw [List.drop_eq_nil_of_le (Nat.le_of_not_lt hshort)] at hmem
      exact List.not_mem_nil hmem
    have hlength : (unread.take 500).length = 500 := List.length_take_of_le hlong.le
    obtain ⟨last, hlast⟩ : ∃ last, (unread.take 500).getLast? = some last :=
      Option.isSome_iff_exists.mp (List.getLast?_isSome.mpr (List.ne_nil_of_length_pos (by omega)))
    have hlastmem := List.mem_of_getLast? hlast
    rw [← List.take_append_drop 500 unread] at hgrows
    refine ⟨by simp [hlength], ?_, ?_⟩
    · simpa [hlast] using (List.mem_filter.mp (List.mem_of_mem_take hlastmem)).2
    · simpa [hlast] using (List.pairwise_append.mp hgrows).2.2 last hlastmem e hmem

/-- A pass that is not cut short reads every event behind its cursor. -/
theorem mem_pullRemote (hlog : db.Logged) {n fuel : Nat} {e : SyncEvent}
    (he : e ∈ db.eventsOf c.storageId) (hbehind : n < e.id) (hfuel : e.id - n ≤ fuel) :
    e ∈ pullRemote db c fuel n := by
  induction fuel generalizing n with
  | zero => omega
  | succ fuel ih =>
    unfold pullRemote
    obtain hpage | ⟨hmore, hahead, hbelow⟩ := nextPage_complete hlog he hbehind
    · exact List.mem_append_left _ hpage
    · rw [if_pos hmore, Nat.max_eq_right hahead.le]
      exact List.mem_append_right _ (ih hbelow (by omega))

end SyncClient

/-- What is delivered is read by the next pass of a client that has bootstrapped. -/
theorem Deployment.pulled_of_delivers {σ : Deployment} (h : σ.Sound) (hdelivers : σ.Delivers) {op : RowOp}
    {e : SyncEvent} (he : e ∈ (exec σ.db op).events) (hnew : e ∉ σ.db.events)
    (hstorage : σ.db.HasStorage e.storageId) {c : SyncClient} (hc : c ∈ σ.clients)
    (hbound : c.storageId = e.storageId) :
    e ∈ c.pullRemote (exec σ.db op) e.id c.cursor := by
  have hlog := (Db.Appends.exec σ.db op).logged h.logged
  have hbehind := hdelivers op e he hnew hstorage c hc hbound c.cursor List.mem_cons_self
  have heventsOf : e ∈ (exec σ.db op).eventsOf c.storageId :=
    List.mem_filter.mpr ⟨he, decide_eq_true hbound.symm⟩
  exact SyncClient.mem_pullRemote hlog heventsOf hbehind (Nat.sub_le _ _)

namespace Deployment

/-- Where backups are restored onto the same database only, each change is read by the next pass of every client
    that is bound to its storage. -/
theorem pull_misses_nothing {as : List DeployStep} (hsame : ∀ a ∈ as, ∀ i, a ≠ .restore i true) {op : RowOp}
    {e : SyncEvent} (he : e ∈ (exec (run Deployment.step initial as).db op).events)
    (hnew : e ∉ (run Deployment.step initial as).db.events)
    (hstorage : (run Deployment.step initial as).db.HasStorage e.storageId) {c : SyncClient}
    (hc : c ∈ (run Deployment.step initial as).clients) (hbound : c.storageId = e.storageId) :
    e ∈ c.pullRemote (exec (run Deployment.step initial as).db op) e.id c.cursor := by
  have hsound : (run Deployment.step initial as).Sound := run_invariant (fun _ a h => h.step a) initial_sound as
  exact pulled_of_delivers hsound (delivers_of_same hsame).last he hnew hstorage hc hbound

def newFolder (name : Char) (id : Uuid) : RowOp :=
  .createFolder (InFile.new [name, '/'] 0 0) id

/-- Two folders with a backup between them, a client that has seen both, and the backup restored onto a
    fresh database. -/
def movedServer : List DeployStep :=
  [.createStorage [1], .bind 0, .change (newFolder 'a' 10), .backup, .change (newFolder 'b' 11),
    .client 0 .start, .client 0 .keep, .client 0 .page, .restore 0 true]

/-- The same with the backup restored onto the database it is from. -/
def keptServer : List DeployStep :=
  movedServer.dropLast ++ [.restore 0 false]

theorem keptServer_pulls : { eventOf .upsert ((InFile.new ['c', '/'] 0 0).toRow 12 true) with id := 3 } ∈
    (SyncClient.mk 0 2 .idle).pullRemote
      (exec (run Deployment.step initial keptServer).db (newFolder 'c' 12)) 3 2 :=
  pull_misses_nothing (by simp [keptServer, movedServer]) (by decide +kernel) (by decide +kernel)
    (by decide +kernel) (by decide +kernel) (by decide +kernel)

/-- The next change has the id the client has seen last, and the client's next pass reads nothing. -/
theorem movedServer_misses :
    ¬(run Deployment.step initial movedServer).Delivers ∧
      (run Deployment.step initial movedServer).clients = [⟨0, 2, .idle⟩] ∧
      ((exec (run Deployment.step initial movedServer).db (newFolder 'c' 12)).events.map (·.id)) = [1, 2] ∧
      SyncClient.pullRemote (exec (run Deployment.step initial movedServer).db (newFolder 'c' 12))
        ⟨0, 2, .idle⟩ 9 2 = [] := by
  refine ⟨fun hdelivers => ?_, by decide +kernel, by decide +kernel, by decide +kernel⟩
  have hseen : ∃ e ∈ (exec (run Deployment.step initial movedServer).db (newFolder 'c' 12)).events,
      e ∉ (run Deployment.step initial movedServer).db.events ∧
      (run Deployment.step initial movedServer).db.HasStorage e.storageId ∧
      ∃ c ∈ (run Deployment.step initial movedServer).clients, c.storageId = e.storageId ∧
        ∃ n ∈ c.cursors, e.id ≤ n := by
    decide +kernel
  obtain ⟨e, he, hnew, hstorage, c, hc, hbound, n, hn, hle⟩ := hseen
  exact Nat.lt_irrefl _ (Nat.lt_of_lt_of_le (hdelivers _ e he hnew hstorage c hc hbound n hn) hle)

end Deployment

end Sarca.Server
