import Mathlib.Data.List.Sort
import Sarca.Server.Operations

/-!
# The sync endpoints and the bootstrap of a client

The queries of `repositories/sync.rs` (`Db.changelog`, `Db.maxCursor`, `Db.snapshot`) and the two
endpoints over them (`changelogResponse`, `snapshotResponse`). The snapshot endpoint reads the list of
live rows and the cursor in two statements without a common transaction, so it is a function of two
databases: the one the list is read from and the one the cursor is read from.

`bootstrap` is the mirror a client holds after a snapshot. `bootstrap_describes_iff` says exactly when
it describes the server after every later commit.
-/

namespace Sarca.Server
open Sarca.Lib

/-- A live row as the snapshot reports it (Rust `SyncSnapshotEntry`). -/
structure SyncSnapshotEntry where
  fileId : Uuid
  path : Path
  size : Int
  isFile : Bool
  contentHash : Option ContentHash
  sourceMtime : Option Instant
deriving DecidableEq, Repr

/-- What the changelog endpoint answers (Rust `ChangelogResponse`). -/
structure ChangelogResponse where
  events : List SyncEvent
  nextCursor : Nat
  hasMore : Bool
deriving DecidableEq, Repr

/-- What the snapshot endpoint answers (Rust `SnapshotResponse`). -/
structure SnapshotResponse where
  files : List SyncSnapshotEntry
  cursor : Nat
deriving DecidableEq, Repr

def SyncSnapshotEntry.ofRow (r : FileRow) : SyncSnapshotEntry where
  fileId := r.id
  path := r.path
  size := r.size
  isFile := !isFolderPath r.path
  contentHash := r.contentHash
  sourceMtime := r.sourceMtime

namespace Db

/-- The events of a storage behind a cursor, in id order, at most `limit` of them. -/
def changelog (db : Db) (storageId : Uuid) (cursor limit : Nat) : List SyncEvent :=
  ((db.eventsOf storageId).filter fun e => cursor < e.id).take limit

/-- `SELECT MAX(id) FROM file_sync_events`, 0 without events. -/
def maxCursor (db : Db) (storageId : Uuid) : Nat :=
  ((db.eventsOf storageId).map (·.id)).foldl max 0

/-- The live listed rows of a storage, by path. -/
def snapshot (db : Db) (storageId : Uuid) : List SyncSnapshotEntry :=
  ((db.files.filter fun r => r.storageId = storageId ∧ r.Live ∧ r.Listed).map
    SyncSnapshotEntry.ofRow).insertionSort fun a b => pathLt b.path a.path = false

/-- The live listed row at each path: its id and hash. -/
def liveMap (db : Db) (storageId : Uuid) : PathMap := fun path =>
  match db.liveAt storageId path with
  | some r => if r.Listed then some (r.id, r.contentHash) else none
  | none => none

end Db

/-- The changelog endpoint (Rust `SyncService::changelog` with `ChangelogResponse::new`). -/
def changelogResponse (db : Db) (storageId : Uuid) (cursor limit : Option Int) :
    ChangelogResponse :=
  let limit := (max 1 (min 2000 (limit.getD 500))).toNat
  let events := db.changelog storageId (max 0 (cursor.getD 0)).toNat limit
  { events := events
    nextCursor := (events.getLast?.map (·.id)).getD 0
    hasMore := decide (limit ≤ events.length) }

/-- The snapshot endpoint (Rust `SyncService::snapshot`): the list is read from `dbList`, then the
    cursor from `dbCursor`. -/
def snapshotResponse (dbList dbCursor : Db) (storageId : Uuid) : SnapshotResponse where
  files := dbList.snapshot storageId
  cursor := dbCursor.maxCursor storageId

def listMap (files : List SyncSnapshotEntry) : PathMap := fun path =>
  (files.find? fun e => e.path = path).map fun e => (e.fileId, e.contentHash)

/-- The mirror of a client that applies a snapshot and then reads the changelog behind its cursor. -/
def bootstrap (snapshot : SnapshotResponse) : Mirror where
  start := listMap snapshot.files
  cursor := snapshot.cursor

/-- A live row of the storage waits for its bytes. -/
def Waiting (s : Uuid) (db : Db) : Prop :=
  ∃ r ∈ db.files, r.storageId = s ∧ r.Live ∧ ¬ r.Listed

/-! ## The queries -/

variable {μ : Mirror} {s : Uuid} {db db' : Db}

lemma mem_snapshot {e : SyncSnapshotEntry} :
    e ∈ db.snapshot s ↔
      ∃ r ∈ db.files, r.storageId = s ∧ r.Live ∧ r.Listed ∧ SyncSnapshotEntry.ofRow r = e := by
  simp [Db.snapshot, List.mem_insertionSort, and_assoc]

lemma listMap_snapshot (h : db.Wf) : listMap (db.snapshot s) = db.liveMap s := by
  funext p
  have hentry : ∀ e ∈ db.snapshot s, e.path = p → ∃ r, db.liveAt s p = some r ∧ r.Listed ∧
      SyncSnapshotEntry.ofRow r = e := by
    intro e he hp
    obtain ⟨r, hr, hs, hl, hlist, rfl⟩ := mem_snapshot.mp he
    refine ⟨r, ?_, hlist, rfl⟩
    rw [← hs, ← (show r.path = p from hp)]
    exact Db.liveAt_of_mem h hr hl
  unfold listMap Db.liveMap
  cases hfind : (db.snapshot s).find? fun e => e.path = p with
  | some e =>
    obtain ⟨r, hat, hlist, rfl⟩ := hentry e (List.mem_of_find?_eq_some hfind)
      (by simpa using List.find?_some hfind)
    simp only [hat, hlist, if_true]
    rfl
  | none =>
    cases hat : db.liveAt s p with
    | none => rfl
    | some r =>
      obtain ⟨hr, hs, hp, hl⟩ := Db.liveAt_some hat
      have hnot : ¬ r.Listed := by
        intro hlist
        have hmem := mem_snapshot.mpr ⟨r, hr, hs, hl, hlist, rfl⟩
        exact List.find?_eq_none.mp hfind _ hmem (decide_eq_true hp)
      simp [hnot]

lemma le_foldl_max (l : List Nat) (a : Nat) :
    a ≤ l.foldl max a ∧ ∀ n ∈ l, n ≤ l.foldl max a := by
  induction l generalizing a with
  | nil => simp
  | cons b l ih =>
    obtain ⟨hab, hl⟩ := ih (max a b)
    refine ⟨Nat.le_trans (Nat.le_max_left a b) hab, ?_⟩
    intro n hn
    rcases List.mem_cons.mp hn with rfl | hn
    · exact Nat.le_trans (Nat.le_max_right a n) hab
    · exact hl n hn

lemma foldl_max_le {l : List Nat} {a b : Nat} (ha : a ≤ b) (hl : ∀ n ∈ l, n ≤ b) :
    l.foldl max a ≤ b := by
  induction l generalizing a with
  | nil => exact ha
  | cons c l ih =>
    exact ih (Nat.max_le.mpr ⟨ha, hl c List.mem_cons_self⟩)
      fun n hn => hl n (List.mem_cons_of_mem c hn)

lemma le_maxCursor {e : SyncEvent} (he : e ∈ db.eventsOf s) : e.id ≤ db.maxCursor s :=
  (le_foldl_max _ 0).2 _ (List.mem_map_of_mem he)

lemma maxCursor_le (h : db.Wf) : db.maxCursor s ≤ db.eventSeq := by
  apply foldl_max_le (Nat.zero_le _)
  intro n hn
  obtain ⟨e, he, rfl⟩ := List.mem_map.mp hn
  exact (h.eventsSeen e (List.mem_of_mem_filter he)).2

lemma view_at_maxCursor (hc : μ.cursor = db.maxCursor s) : μ.view s db = μ.start := by
  have hnone : μ.unread s db = [] := by
    apply List.filter_eq_nil_iff.mpr
    intro e he
    have hle := le_maxCursor he
    simp only [decide_eq_true_eq]
    omega
  rw [Mirror.view, hnone]
  rfl

/-! ## Bootstrapping -/

lemma depicts_eq_liveMap {m : PathMap} (hd : Depicts m s db) (hwait : ¬ Waiting s db) :
    m = db.liveMap s := by
  funext p
  unfold Db.liveMap
  cases hat : db.liveAt s p with
  | none => exact hd.absent p (Db.liveAt_none.mp hat)
  | some r =>
    obtain ⟨hr, hs, hp, hl⟩ := Db.liveAt_some hat
    have hlist : r.Listed := by
      by_contra hnot
      exact hwait ⟨r, hr, hs, hl, hnot⟩
    simp only [hlist, if_true]
    rw [← hp]
    exact hd.present r hr hs hl hlist

/-- What the list and the cursor are read around. -/
theorem bootstrap_start_iff {before : Db} (h : before.Wf) :
    (bootstrap (snapshotResponse before db s)).Describes s db ↔ Depicts (before.liveMap s) s db := by
  rw [Mirror.Describes, view_at_maxCursor rfl]
  exact iff_of_eq (congrArg (Depicts · s db) (listMap_snapshot h))

lemma run_wf (storages : List Storage) (ops : List RowOp) :
    (run exec (Db.fresh storages) ops).Wf := by
  apply run_invariant (I := Db.Wf) ?_ (Db.fresh_wf storages)
  intro db op hwf
  have hsane : Mirror.empty.Sane db := ⟨hwf, Nat.zero_le _⟩
  exact (sane_exec hsane op).wf

/-- A client bootstraps from a list that is read after the commits `before` and a cursor that is read
    after the further commits `between`. Its map describes the server after the second read and after
    each later commit just when the list still described the live rows at the second read and no later
    operation takes a path from a live twin; and whenever it describes the server while no row waits
    for its bytes, it is the map of the live rows. -/
theorem bootstrap_describes_iff (storages : List Storage) (s : Uuid)
    (before between after : List RowOp) :
    let dbList := run exec (Db.fresh storages) before
    let dbCursor := run exec dbList between
    let μ := bootstrap (snapshotResponse dbList dbCursor s)
    (Always exec (μ.Describes s) dbCursor after ↔
      Depicts (dbList.liveMap s) s dbCursor ∧ AllOk exec (TwinFree s) dbCursor after) ∧
    ∀ later, later <+: after → μ.Describes s (run exec dbCursor later) →
      ¬ Waiting s (run exec dbCursor later) →
      μ.view s (run exec dbCursor later) = (run exec dbCursor later).liveMap s := by
  intro dbList dbCursor μ
  have hwfList : dbList.Wf := run_wf storages before
  have hwf : dbCursor.Wf := by
    have hrun := run_wf storages (before ++ between)
    rwa [run_append] at hrun
  have hsane : μ.Sane dbCursor := ⟨hwf, maxCursor_le hwf⟩
  constructor
  · have hstart : μ.Describes s dbCursor ↔ Depicts (dbList.liveMap s) s dbCursor :=
      bootstrap_start_iff hwfList
    have hexact : μ.Describes s dbCursor →
        (Always exec (μ.Describes s) dbCursor after ↔ AllOk exec (TwinFree s) dbCursor after) :=
      fun hd => always_iff_allOk (I := μ.Sane) (P := μ.Describes s)
        (fun _ op h _ => sane_exec h op) (fun _ op h hd => describes_exec_iff h hd op) hsane hd
    constructor
    · intro halways
      have hd := always_iff_prefixes.mp halways [] List.nil_prefix
      exact ⟨hstart.mp hd, (hexact hd).mp halways⟩
    · rintro ⟨hlist, hok⟩
      have hd := hstart.mpr hlist
      exact (hexact hd).mpr hok
  · intro later _ hd hwait
    exact depicts_eq_liveMap hd hwait

/-- An upload that commits between the two reads of a snapshot. -/
def racingUpload : List RowOp :=
  [.createFile { InFile.new ['a'] 3 1 with chunkSizeBytes := some 1 } 10, .setAsUploaded 10]

/-- The upload is in neither the list nor the changelog behind the cursor: the client's map stays
    empty where the server has a live uploaded row. -/
theorem racingUpload_missed :
    let dbList := Db.fresh [⟨1, 1⟩]
    let dbCursor := run exec dbList racingUpload
    let μ := bootstrap (snapshotResponse dbList dbCursor 1)
    ¬ Waiting 1 dbCursor ∧ μ.view 1 dbCursor ['a'] = none ∧
      dbCursor.liveMap 1 ['a'] = some (10, none) := by
  refine ⟨?_, by decide, by decide⟩
  rintro ⟨r, hr, -, -, hlist⟩
  have hup : ∀ r ∈ (run exec (Db.fresh [⟨1, 1⟩]) racingUpload).files, r.Listed := by decide
  exact hlist (hup r hr)

end Sarca.Server
