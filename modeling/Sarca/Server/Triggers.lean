import Mathlib.Data.List.Dedup
import Sarca.Server.Rows

/-!
# Sync triggers and row statements

The three triggers of `startup.rs` that write the sync changelog (`filesSyncEventInsert`,
`filesSyncEventDelete`, `filesSyncEventUpdate`) and the row statements that fire them:
`Db.insertFile`, `Db.replaceFile` (one row visited by an `UPDATE`), `Db.updateFiles` (a whole
`UPDATE … WHERE id IN`) and `Db.deleteFiles`. `SQLite` chooses the rows of an `UPDATE` or `DELETE`
before it writes the first one, visits them in an order it does not promise (`visitOrder`), checks the
unique index row by row and takes the whole statement back when a row fails.

`files_touch_updated_at` updates `updated_at` alone, so the row change it makes passes none of the
clauses below, and it is left out with the column.
-/

namespace Sarca.Server

def eventOf (op : EventOp) (r : FileRow) : EventData where
  storageId := r.storageId
  fileId := r.id
  path := r.path
  op := op
  size := r.size
  isFile := !isFolderPath r.path
  contentHash := r.contentHash
  sourceMtime := r.sourceMtime

/-- `AFTER INSERT ON files` (trigger `files_sync_event_insert`). -/
def filesSyncEventInsert (new : FileRow) : List EventData :=
  if new.Live ∧ new.Listed then [eventOf .upsert new] else []

/-- `AFTER DELETE ON files` (trigger `files_sync_event_delete`). -/
def filesSyncEventDelete (db : Db) (old : FileRow) : List EventData :=
  if db.HasStorage old.storageId then [eventOf .delete old] else []

/-- The columns whose change on a live row is reported. -/
def contentChanged (old new : FileRow) : Prop :=
  ¬ old.Live ∨ old.isUploaded ≠ new.isUploaded ∨ old.size ≠ new.size ∨
    old.contentHash ≠ new.contentHash ∨ old.sourceMtime ≠ new.sourceMtime

instance (old new : FileRow) : Decidable (contentChanged old new) :=
  inferInstanceAs (Decidable (_ ∨ _ ∨ _ ∨ _ ∨ _))

/-- `AFTER UPDATE ON files` (trigger `files_sync_event_update`), its four clauses in order. -/
def filesSyncEventUpdate (old new : FileRow) : List EventData :=
  -- path rename: delete old + maybe upsert new
  (if old.path ≠ new.path then [eventOf .delete old] else []) ++
  (if old.path ≠ new.path ∧ new.Live ∧ new.Listed then [eventOf .upsert new] else []) ++
  -- soft-delete
  (if old.path = new.path ∧ ¬ new.Live ∧ old.Live then [eventOf .delete new] else []) ++
  -- upsert on content/upload/restore changes (same path)
  (if old.path = new.path ∧ new.Live ∧ new.Listed ∧ contentChanged old new
    then [eventOf .upsert new] else [])

/-- Event rows with the ids `AUTOINCREMENT` gives them after `seq`. -/
def number : Nat → List EventData → List SyncEvent
  | _, [] => []
  | seq, e :: es => { e with id := seq + 1 } :: number (seq + 1) es

/-- The events of a trigger are appended to the changelog. -/
def Db.emit (db : Db) (evs : List EventData) : Db :=
  { db with
    events := db.events ++ number db.eventSeq evs
    eventSeq := db.eventSeq + evs.length }

/-- `INSERT INTO files` -/
def Db.insertFile (db : Db) (row : FileRow) : Except DbError Db :=
  if (db.fileById row.id).isSome then
    .error .uniqueViolation
  else if row.Live ∧ (db.liveAt row.storageId row.path).isSome then
    .error .uniqueViolation
  else if db.HasStorage row.storageId then
    .ok (Db.emit { db with files := db.files ++ [row] } (filesSyncEventInsert row))
  else
    .error .foreignKeyViolation

/-- Another live row stands where `new` would stand live. -/
def Db.Occupied (db : Db) (new : FileRow) : Prop :=
  new.Live ∧ ∃ r ∈ db.files,
    r.id ≠ new.id ∧ r.Live ∧ r.storageId = new.storageId ∧ r.path = new.path

instance (db : Db) (new : FileRow) : Decidable (db.Occupied new) :=
  inferInstanceAs (Decidable (_ ∧ ∃ r ∈ db.files, _))

/-- One row visited by an `UPDATE`: `old` becomes `new`. -/
def Db.replaceFile (db : Db) (old new : FileRow) : Except DbError Db :=
  if db.Occupied new then
    .error .uniqueViolation
  else
    .ok (Db.emit { db with files := db.files.map fun r => if r.id = old.id then new else r }
      (filesSyncEventUpdate old new))

/-- The rows an `UPDATE` visits, one after the other. -/
def Db.updateEach (f : FileRow → FileRow) : List Uuid → Db → Except DbError Db
  | [], db => .ok db
  | id :: ids, db =>
    match db.fileById id with
    | none => db.updateEach f ids
    | some old =>
      match db.replaceFile old (f old) with
      | .error e => .error e
      | .ok db' => db'.updateEach f ids

/-- The order in which a statement visits its rows: `order` as far as it goes. -/
def visitOrder (order ids : List Uuid) : List Uuid :=
  order.dedup.filter (· ∈ ids) ++ ids.dedup.filter (· ∉ order)

/-- The ids of the rows a `WHERE` clause chooses. -/
def Db.idsWhere (db : Db) (p : FileRow → Bool) : List Uuid :=
  (db.files.filter p).map (·.id)

/-- `UPDATE files SET f WHERE p` -/
def Db.updateFiles (db : Db) (order : List Uuid) (p : FileRow → Bool) (f : FileRow → FileRow) :
    Except DbError Db :=
  db.updateEach f (visitOrder order (db.idsWhere p))

/-- One row visited by a `DELETE`, with the cascade into chunks and replicas. -/
def Db.deleteFile (db : Db) (old : FileRow) : Db :=
  Db.emit
    { db with
      files := db.files.filter fun r => r.id ≠ old.id
      chunks := db.chunks.filter fun c => c.fileId ≠ old.id
      replicas := db.replicas.filter fun r =>
        ∀ c ∈ db.chunks, c.fileId = old.id → c.id ≠ r.chunkId }
    (filesSyncEventDelete db old)

/-- The rows a `DELETE` visits, one after the other. -/
def Db.deleteEach : List Uuid → Db → Db
  | [], db => db
  | id :: ids, db =>
    match db.fileById id with
    | none => db.deleteEach ids
    | some old => (db.deleteFile old).deleteEach ids

/-- `DELETE FROM files WHERE id IN (ids)` -/
def Db.deleteFiles (db : Db) (order ids : List Uuid) : Db :=
  db.deleteEach (visitOrder order (db.idsWhere fun r => r.id ∈ ids))

/-! ## What the statements leave -/

@[simp] lemma eventOf_path (op : EventOp) (r : FileRow) : (eventOf op r).path = r.path := rfl

@[simp] lemma eventOf_storageId (op : EventOp) (r : FileRow) :
    (eventOf op r).storageId = r.storageId := rfl

@[simp] lemma emit_files (db : Db) (evs : List EventData) : (db.emit evs).files = db.files := rfl

@[simp] lemma emit_storages (db : Db) (evs : List EventData) :
    (db.emit evs).storages = db.storages := rfl

lemma number_id {seq : Nat} {evs : List EventData} {e : SyncEvent} (h : e ∈ number seq evs) :
    seq < e.id ∧ e.id ≤ seq + evs.length := by
  induction evs generalizing seq with
  | nil => exact absurd h List.not_mem_nil
  | cons d evs ih =>
    rw [List.length_cons]
    cases List.mem_cons.mp h with
    | inl he => subst he; exact ⟨by simp, by simp⟩
    | inr he =>
      obtain ⟨hlo, hhi⟩ := ih he
      exact ⟨by omega, by omega⟩

lemma number_pairwise (seq : Nat) (evs : List EventData) :
    (number seq evs).Pairwise (·.id < ·.id) := by
  induction evs generalizing seq with
  | nil => exact List.Pairwise.nil
  | cons d evs ih =>
    refine List.Pairwise.cons ?_ (ih (seq + 1))
    intro e he
    exact (number_id he).1

lemma mem_visitOrder {order ids : List Uuid} {i : Uuid} : i ∈ visitOrder order ids ↔ i ∈ ids := by
  simp only [visitOrder, List.mem_append, List.mem_filter, List.mem_dedup, decide_eq_true_eq]
  by_cases h : i ∈ order <;> simp [h]

lemma visitOrder_nodup (order ids : List Uuid) : (visitOrder order ids).Nodup := by
  refine List.Nodup.append ((List.nodup_dedup _).filter _) ((List.nodup_dedup _).filter _) ?_
  intro i hi hi'
  simp only [List.mem_filter, List.mem_dedup, decide_eq_true_eq] at hi hi'
  exact hi'.2 hi.1

lemma mem_idsWhere {db : Db} {p : FileRow → Bool} {i : Uuid} :
    i ∈ db.idsWhere p ↔ ∃ r ∈ db.files, p r = true ∧ r.id = i := by
  simp [Db.idsWhere, and_assoc]

namespace Db

lemma Wf.emit {db : Db} (hwf : db.Wf) (evs : List EventData) : (db.emit evs).Wf where
  idUnique := hwf.idUnique
  aliveUnique := hwf.aliveUnique
  storageExists := hwf.storageExists
  eventsGrow := by
    refine List.pairwise_append.mpr ⟨hwf.eventsGrow, number_pairwise _ _, ?_⟩
    intro e he e' he'
    exact Nat.lt_of_le_of_lt (hwf.eventsSeen e he).2 (number_id he').1
  eventsSeen := by
    intro e he
    cases List.mem_append.mp he with
    | inl he =>
      obtain ⟨hpos, hle⟩ := hwf.eventsSeen e he
      exact ⟨hpos, Nat.le_trans hle (Nat.le_add_right _ _)⟩
    | inr he =>
      obtain ⟨hlt, hle⟩ := number_id he
      exact ⟨Nat.zero_lt_of_lt hlt, hle⟩

lemma insertFile_ok {db db' : Db} {row : FileRow} (h : db.insertFile row = .ok db') :
    db.fileById row.id = none ∧ (row.Live → db.liveAt row.storageId row.path = none) ∧
      db.HasStorage row.storageId ∧
      db' = Db.emit { db with files := db.files ++ [row] } (filesSyncEventInsert row) := by
  unfold insertFile at h
  split at h
  · cases h
  · split at h
    · cases h
    · split at h
      · simp_all
      · cases h

lemma replaceFile_ok {db db' : Db} {old new : FileRow} (h : db.replaceFile old new = .ok db') :
    ¬ db.Occupied new ∧
      db' = Db.emit { db with files := db.files.map fun r => if r.id = old.id then new else r }
        (filesSyncEventUpdate old new) := by
  unfold replaceFile at h
  split at h
  · cases h
  · case isFalse hfree => exact ⟨hfree, by cases h; rfl⟩

lemma mem_insertFile {db db' : Db} {row r : FileRow} (h : db.insertFile row = .ok db') :
    r ∈ db'.files ↔ r ∈ db.files ∨ r = row := by
  obtain ⟨-, -, -, rfl⟩ := insertFile_ok h
  simp

lemma mem_replaceFile {db db' : Db} (hwf : db.Wf) {old new r : FileRow} (hold : old ∈ db.files)
    (h : db.replaceFile old new = .ok db') :
    r ∈ db'.files ↔ r = new ∨ r ∈ db.files ∧ r ≠ old := by
  obtain ⟨-, rfl⟩ := replaceFile_ok h
  simp only [emit_files, List.mem_map]
  constructor
  · rintro ⟨q, hq, rfl⟩
    by_cases hid : q.id = old.id
    · exact Or.inl (if_pos hid)
    · rw [if_neg hid]
      exact Or.inr ⟨hq, fun he => hid (by rw [he])⟩
  · rintro (rfl | ⟨hr, hne⟩)
    · exact ⟨old, hold, if_pos rfl⟩
    · exact ⟨r, hr, if_neg fun hid => hne (hwf.idUnique r hr old hold hid)⟩

lemma Wf.insertFile {db db' : Db} (hwf : db.Wf) {row : FileRow}
    (h : db.insertFile row = .ok db') : db'.Wf := by
  obtain ⟨hid, hfree, hs, rfl⟩ := insertFile_ok h
  apply Wf.emit
  have hnew : ∀ r ∈ db.files, r.id ≠ row.id := by
    intro r hr
    simpa using List.find?_eq_none.mp hid r hr
  exact {
    idUnique := by
      intro r hr r' hr' he
      cases List.mem_append.mp hr with
      | inl hr =>
        cases List.mem_append.mp hr' with
        | inl hr' => exact hwf.idUnique r hr r' hr' he
        | inr hr' =>
          rw [List.mem_singleton.mp hr'] at he
          exact absurd he (hnew r hr)
      | inr hr =>
        cases List.mem_append.mp hr' with
        | inl hr' =>
          rw [List.mem_singleton.mp hr] at he
          exact absurd he.symm (hnew r' hr')
        | inr hr' => rw [List.mem_singleton.mp hr, List.mem_singleton.mp hr']
    aliveUnique := by
      intro r hr r' hr' hl hl' hst hp
      cases List.mem_append.mp hr with
      | inl hr =>
        cases List.mem_append.mp hr' with
        | inl hr' => exact hwf.aliveUnique r hr r' hr' hl hl' hst hp
        | inr hr' =>
          rw [List.mem_singleton.mp hr'] at hl' hst hp
          exact absurd hp (liveAt_none.mp (hfree hl') r hr hst hl)
      | inr hr =>
        cases List.mem_append.mp hr' with
        | inl hr' =>
          rw [List.mem_singleton.mp hr] at hl hst hp
          exact absurd hp.symm (liveAt_none.mp (hfree hl) r' hr' hst.symm hl')
        | inr hr' => rw [List.mem_singleton.mp hr, List.mem_singleton.mp hr']
    storageExists := by
      intro r hr
      cases List.mem_append.mp hr with
      | inl hr => exact hwf.storageExists r hr
      | inr hr => rw [List.mem_singleton.mp hr]; exact hs
    eventsGrow := hwf.eventsGrow
    eventsSeen := hwf.eventsSeen }

lemma Wf.replaceFile {db db' : Db} (hwf : db.Wf) {old new : FileRow} (hold : old ∈ db.files)
    (h : db.replaceFile old new = .ok db') (hid : new.id = old.id)
    (hst : new.storageId = old.storageId) : db'.Wf := by
  have hmem : ∀ r, r ∈ db'.files ↔ r = new ∨ r ∈ db.files ∧ r ≠ old :=
    fun r => mem_replaceFile hwf hold h
  obtain ⟨hfree, rfl⟩ := replaceFile_ok h
  have hother : ∀ r ∈ db.files, r ≠ old → r.id ≠ new.id := by
    intro r hr hne he
    exact hne (hwf.idUnique r hr old hold (he.trans hid))
  have halone : ∀ r ∈ db.files, r ≠ old → r.Live → new.Live →
      r.storageId = new.storageId → r.path ≠ new.path := by
    intro r hr hne hl hl' hs hp
    exact hfree ⟨hl', r, hr, hother r hr hne, hl, hs, hp⟩
  apply Wf.emit
  exact {
    idUnique := by
      intro r hr r' hr' he
      rcases (hmem r).mp hr with rfl | ⟨hm, hne⟩ <;>
        rcases (hmem r').mp hr' with rfl | ⟨hm', hne'⟩
      · rfl
      · exact absurd he.symm (hother r' hm' hne')
      · exact absurd he (hother r hm hne)
      · exact hwf.idUnique r hm r' hm' he
    aliveUnique := by
      intro r hr r' hr' hl hl' hs hp
      rcases (hmem r).mp hr with rfl | ⟨hm, hne⟩ <;>
        rcases (hmem r').mp hr' with rfl | ⟨hm', hne'⟩
      · rfl
      · exact absurd hp.symm (halone r' hm' hne' hl' hl hs.symm)
      · exact absurd hp (halone r hm hne hl hl' hs)
      · exact hwf.aliveUnique r hm r' hm' hl hl' hs hp
    storageExists := by
      intro r hr
      rcases (hmem r).mp hr with rfl | ⟨hr, -⟩
      · exact hst ▸ hwf.storageExists old hold
      · exact hwf.storageExists r hr
    eventsGrow := hwf.eventsGrow
    eventsSeen := hwf.eventsSeen }

lemma mem_deleteFile {db : Db} {old r : FileRow} :
    r ∈ (db.deleteFile old).files ↔ r ∈ db.files ∧ r.id ≠ old.id := by
  simp [deleteFile]

lemma Wf.deleteFile {db : Db} (hwf : db.Wf) (old : FileRow) : (db.deleteFile old).Wf := by
  apply Wf.emit
  have hsub : ∀ r, r ∈ db.files.filter (fun r => r.id ≠ old.id) → r ∈ db.files :=
    fun r hr => List.mem_of_mem_filter hr
  exact {
    idUnique := fun r hr r' hr' => hwf.idUnique r (hsub r hr) r' (hsub r' hr')
    aliveUnique := fun r hr r' hr' => hwf.aliveUnique r (hsub r hr) r' (hsub r' hr')
    storageExists := fun r hr => hwf.storageExists r (hsub r hr)
    eventsGrow := hwf.eventsGrow
    eventsSeen := hwf.eventsSeen }

/-- The rule for a statement that updates rows one after the other: what each visited row keeps, the
    statement keeps. -/
lemma updateEach_induct {P : List Uuid → Db → Prop} {f : FileRow → FileRow}
    (hskip : ∀ id ids db, db.fileById id = none → P (id :: ids) db → P ids db)
    (hstep : ∀ id ids db db' old, db.fileById id = some old → db.replaceFile old (f old) = .ok db' →
      P (id :: ids) db → P ids db')
    {ids : List Uuid} {db db' : Db} (h : db.updateEach f ids = .ok db') (hP : P ids db) :
    P [] db' := by
  induction ids generalizing db with
  | nil =>
    cases h
    exact hP
  | cons id ids ih =>
    unfold updateEach at h
    split at h
    · case h_1 hnone => exact ih h (hskip id ids db hnone hP)
    · case h_2 old hsome =>
      split at h
      · cases h
      · case h_2 db₁ hok => exact ih h (hstep id ids db db₁ old hsome hok hP)

end Db

end Sarca.Server
