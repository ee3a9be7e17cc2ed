import Sarca.Server.Renames
import Sarca.Server.StoragePurge

/-!
# Stored pictures

A relay or a request makes a picture of a file, sends it to Telegram and records it in the row of the file, in
separate steps (`maybe_upload_thumb`, `store_preview_document`, `backfill_thumb` and `backfill_preview` of
`services/storage_manager.rs`). `Gallery` is a server with the pictures, the copies of files and the purges that
are under way; beside it stand the content that each row holds, what was sent, and the rows whose messages a
purge has set out to delete. A content is a number, and what a picture is made of is an argument: a spool file,
a cached preview or chunks that were read one by one.

`Gallery.pictures_kept`: in every run whose steps are `Careful` a row names pictures of what it holds, and no
message is lost. Nothing in the code sees to that: `set_thumb` and `set_preview` go by the id of the row, which
a replace keeps.
-/

namespace Sarca.Server
open Sarca.Lib

/-- The columns of a picture: its document and its message. -/
def FileRow.picture (r : FileRow) : PictureKind → Option String × Option Int
  | .thumb => (r.thumbTelegramFileId, r.thumbTelegramMessageId)
  | .preview => (r.previewTelegramFileId, r.previewTelegramMessageId)

/-- A picture that Telegram has taken, and what it was made of. -/
structure SentPicture where
  telegramFileId : String
  messageId : Int
  kind : PictureKind
  content : Nat
deriving DecidableEq, Repr

def FileRow.Shows (r : FileRow) (s : SentPicture) : Prop :=
  r.picture s.kind = (some s.telegramFileId, some s.messageId)

instance FileRow.Shows.decidable (r : FileRow) (s : SentPicture) : Decidable (r.Shows s) :=
  inferInstanceAs (Decidable (_ = _))

namespace StoredPictures

/-- A picture of a content on its way to a row; `answer` is the document and the message it has become. -/
structure PictureTask where
  fileId : Uuid
  kind : PictureKind
  content : Nat
  answer : Option (String × Int)
deriving DecidableEq, Repr

/-- A copy of a file under way, with the row of its source and what that held when it was read, and the row it
    has made (Rust `clone_one_row`). -/
structure Copy where
  source : FileRow
  content : Option Nat
  made : Option Uuid
deriving DecidableEq, Repr

/-- A purge under way, with the rows of its ids as it listed their messages (Rust `purge_file_ids`). -/
structure Purge where
  ids : List Uuid
  rows : List FileRow
deriving DecidableEq, Repr

structure Gallery where
  db : Db
  holds : Uuid → Option Nat
  tasks : List PictureTask
  copies : List Copy
  purges : List Purge
  sent : List SentPicture
  collected : List FileRow

inductive GalleryStep where
  /-- a statement that is none of the others; a row it makes or replaces is there for `content` -/
  | statement (st : Statement) (content : Nat)
  /-- the rest of the tables -/
  | elsewhere (channels : List StorageChannel) (chunks : List FileChunk) (replicas : List ChunkReplica)
  | derive (fileId : Uuid) (kind : PictureKind) (content : Nat)
  | send (t : PictureTask) (telegramFileId : String) (messageId : Int)
  | record (t : PictureTask) (ok : Bool)
  | giveUp (t : PictureTask)
  | copyFile (fileId : Uuid)
  | insertCopy (c : Copy) (destPath : Path) (id : Uuid)
  | takeChunks (c : Copy)
  | endCopy (c : Copy)
  | list (ids : List Uuid)
  | purge (p : Purge) (order : List Uuid) (ok : Bool)

end StoredPictures

/-- A statement that neither records a picture, nor copies a row, nor deletes one. -/
def Statement.plain : Statement → Bool
  | .row (.setThumb _ _ _) | .row (.setPreview _ _ _) | .row (.hardDeleteIds _ _) => false
  | .insertClonedFile _ _ _ => false
  | _ => true

namespace StoredPictures

namespace Gallery

/-- Rust `set_thumb` and `set_preview`. -/
def recordOp (t : PictureTask) (telegramFileId : String) (messageId : Int) : RowOp :=
  match t.kind with
  | .thumb => .setThumb t.fileId telegramFileId messageId
  | .preview => .setPreview t.fileId telegramFileId messageId

def contentOf (σ : Gallery) (id : Uuid) : Option Nat :=
  (σ.db.fileById id).bind fun r => σ.holds r.id

def holdsAfter (σ : Gallery) (st : Statement) (content : Nat) (id : Uuid) : Option Nat :=
  match st with
  | .row (.replaceContent fileId _ _ _ retiredId _) =>
    if id = fileId then some content
    -- the version that was there goes with its chunks
    else if id = retiredId ∧ σ.db.fileById retiredId = none then σ.holds fileId
    else σ.holds id
  | _ => if (σ.db.fileById id).isSome then σ.holds id else some content

def step (maxVariables : Nat) (σ : Gallery) : GalleryStep → Gallery
  | .statement st content =>
    if st.plain then
      match st.attempt maxVariables σ.db with
      | .ok db => { σ with db := db, holds := σ.holdsAfter st content }
      | .error _ => σ
    else σ
  | .elsewhere channels chunks replicas =>
    { σ with db := { σ.db with channels := channels, chunks := chunks, replicas := replicas } }
  | .derive fileId kind content => { σ with tasks := σ.tasks ++ [⟨fileId, kind, content, none⟩] }
  | .send t telegramFileId messageId =>
    if t ∈ σ.tasks ∧ t.answer = none ∧ ∀ s ∈ σ.sent, s.telegramFileId ≠ telegramFileId then
      { σ with
        tasks := σ.tasks.erase t ++ [{ t with answer := some (telegramFileId, messageId) }]
        sent := σ.sent ++ [⟨telegramFileId, messageId, t.kind, t.content⟩] }
    else σ
  | .record t ok =>
    match t.answer with
    | none => σ
    | some (telegramFileId, messageId) =>
      if t ∈ σ.tasks then
        { σ with
          db := if ok then exec σ.db (recordOp t telegramFileId messageId) else σ.db
          tasks := σ.tasks.erase t }
      else σ
  | .giveUp t => { σ with tasks := σ.tasks.erase t }
  | .copyFile fileId =>
    match σ.db.fileById fileId with
    | some source => { σ with copies := σ.copies ++ [⟨source, σ.holds source.id, none⟩] }
    | none => σ
  | .insertCopy c destPath id =>
    if c ∈ σ.copies ∧ c.made = none then
      match σ.db.insertClonedFile c.source destPath id with
      | .ok db =>
        { σ with
          db := db
          holds := fun id' => if id' = id then none else σ.holds id'
          copies := σ.copies.erase c ++ [{ c with made := some id }] }
      | .error _ => { σ with copies := σ.copies.erase c }
    else σ
  | .takeChunks c =>
    if c ∈ σ.copies then
      { σ with
        holds := fun id => if c.made = some id then σ.contentOf c.source.id else σ.holds id
        copies := σ.copies.erase c }
    else σ
  | .endCopy c => { σ with copies := σ.copies.erase c }
  | .list ids => { σ with purges := σ.purges ++ [⟨ids, σ.db.files.filter fun r => r.id ∈ ids⟩] }
  | .purge p order ok =>
    if p ∈ σ.purges then
      if ok then
        { σ with
          db := σ.db.hardDeleteIds p.ids order
          purges := σ.purges.erase p
          collected := σ.collected ++ p.rows }
      else { σ with purges := σ.purges.erase p }
    else σ

def start (storages : List Storage) : Gallery where
  db := Db.fresh storages
  holds _ := none
  tasks := []
  copies := []
  purges := []
  sent := []
  collected := []

def Made (σ : Gallery) (kind : PictureKind) (telegramFileId : String) (content : Nat) : Prop :=
  ∃ s ∈ σ.sent, s.kind = kind ∧ s.telegramFileId = telegramFileId ∧ s.content = content

instance Made.decidable (σ : Gallery) (kind : PictureKind) (telegramFileId : String) (content : Nat) :
    Decidable (σ.Made kind telegramFileId content) :=
  inferInstanceAs (Decidable (∃ s ∈ σ.sent, _))

/-- A row names the picture, or a purge has set out to delete it. -/
def Named (σ : Gallery) (s : SentPicture) : Prop :=
  (∃ r ∈ σ.db.files, r.Shows s) ∨ ∃ r ∈ σ.collected, r.Shows s

instance Named.decidable (σ : Gallery) (s : SentPicture) : Decidable (σ.Named s) :=
  inferInstanceAs (Decidable (_ ∨ _))

/-- A row names pictures of what it holds, and when nothing is under way, what was sent is named. -/
structure Kept (σ : Gallery) : Prop where
  version : ∀ r ∈ σ.db.files, ∀ kind telegramFileId content, (r.picture kind).1 = some telegramFileId →
    σ.holds r.id = some content → σ.Made kind telegramFileId content
  referenced : σ.tasks = [] → σ.copies = [] → σ.purges = [] → ∀ s ∈ σ.sent, σ.Named s

/-- The picture of the kind that the row names is named elsewhere as well. -/
def Spared (σ : Gallery) (r : FileRow) (kind : PictureKind) : Prop :=
  ∀ s ∈ σ.sent, s.kind = kind → r.Shows s →
    (∃ r' ∈ σ.db.files, r'.id ≠ r.id ∧ r'.Shows s) ∨ ∃ r' ∈ σ.collected, r'.Shows s

instance Spared.decidable (σ : Gallery) (r : FileRow) (kind : PictureKind) : Decidable (σ.Spared r kind) :=
  inferInstanceAs (Decidable (∀ s ∈ σ.sent, _))

/-- What keeps the pictures: they are recorded in a row that holds what they were made of, a copy takes the
    chunks of a source that is as it was read, and no step takes the last name of a message away. -/
def Careful (σ : Gallery) : GalleryStep → Prop
  | .statement (.row (.replaceContent fileId expectedHash _ _ _ _)) _ =>
    ∀ r ∈ σ.db.files, r.id = fileId → r.Live → r.contentHash = expectedHash →
      r.isUploaded = true ∨ σ.db.HasChunks fileId ∨ σ.Spared r .thumb ∧ σ.Spared r .preview
  | .record t ok => t ∈ σ.tasks → t.answer.isSome = true → ok = true ∧
    ∃ r ∈ σ.db.files, r.id = t.fileId ∧ σ.holds t.fileId = some t.content ∧ σ.Spared r t.kind
  | .giveUp t => t ∈ σ.tasks → t.answer = none
  | .takeChunks c => c ∈ σ.copies → ∀ r ∈ σ.db.files, c.made = some r.id → ∀ kind,
    (r.picture kind).1.isSome = true →
      r.picture kind = c.source.picture kind ∧ σ.contentOf c.source.id = c.content
  | .purge p _ ok => p ∈ σ.purges → ok = true → ∀ r ∈ σ.db.files, r.id ∈ p.ids → ∀ s ∈ σ.sent, r.Shows s →
    (∃ r' ∈ p.rows, r'.Shows s) ∨ (∃ r' ∈ σ.db.files, r'.id ∉ p.ids ∧ r'.Shows s) ∨
      ∃ r' ∈ σ.collected, r'.Shows s
  | _ => True

end Gallery

end StoredPictures

/-! ## What a statement leaves of the pictures -/

/-- The rows after a statement: each one that was there with its pictures, and new ones without any. -/
structure PicturesFollow (db db' : Db) : Prop where
  stay : ∀ r ∈ db.files, ∃ r' ∈ db'.files, r'.id = r.id ∧ ∀ kind, r'.picture kind = r.picture kind
  come : ∀ r' ∈ db'.files, (∃ r ∈ db.files, r.id = r'.id ∧ ∀ kind, r'.picture kind = r.picture kind) ∨
    (∀ r ∈ db.files, r.id ≠ r'.id) ∧ ∀ kind, r'.picture kind = (none, none)

variable {db db' db'' : Db}

lemma PicturesFollow.refl (db : Db) : PicturesFollow db db where
  stay := fun r hr => ⟨r, hr, rfl, fun _ => rfl⟩
  come := fun r hr => Or.inl ⟨r, hr, rfl, fun _ => rfl⟩

lemma PicturesFollow.trans (h : PicturesFollow db db') (h' : PicturesFollow db' db'') :
    PicturesFollow db db'' := by
  constructor
  · intro r hr
    obtain ⟨r', hr', hid, hpic⟩ := h.stay r hr
    obtain ⟨r'', hr'', hid', hpic'⟩ := h'.stay r' hr'
    exact ⟨r'', hr'', hid'.trans hid, fun kind => (hpic' kind).trans (hpic kind)⟩
  · intro r'' hr''
    rcases h'.come r'' hr'' with ⟨r', hr', hid', hpic'⟩ | ⟨hnew, hpic⟩
    · rcases h.come r' hr' with ⟨r, hr, hid, hpic⟩ | ⟨hnew, hpic⟩
      · exact Or.inl ⟨r, hr, hid.trans hid', fun kind => (hpic' kind).trans (hpic kind)⟩
      · exact Or.inr ⟨fun r hr => hid' ▸ hnew r hr, fun kind => (hpic' kind).trans (hpic kind)⟩
    · refine Or.inr ⟨fun r hr hid => ?_, hpic⟩
      obtain ⟨r', hr', hsame, -⟩ := h.stay r hr
      exact hnew r' hr' (hsame.trans hid)

lemma PicturesFollow.of_files (h : db'.files = db.files) : PicturesFollow db db' := by
  constructor
  · intro r hr
    exact ⟨r, h ▸ hr, rfl, fun _ => rfl⟩
  · intro r hr
    exact Or.inl ⟨r, h ▸ hr, rfl, fun _ => rfl⟩

lemma pictures_insertFile {row : FileRow} (hok : db.insertFile row = .ok db')
    (hrow : ∀ kind, row.picture kind = (none, none)) : PicturesFollow db db' := by
  obtain ⟨hnone, -, -, -⟩ := Db.insertFile_ok hok
  constructor
  · intro r hr
    exact ⟨r, (Db.mem_insertFile hok).mpr (Or.inl hr), rfl, fun _ => rfl⟩
  · intro r hr
    cases (Db.mem_insertFile hok).mp hr with
    | inl hr => exact Or.inl ⟨r, hr, rfl, fun _ => rfl⟩
    | inr hr =>
      subst hr
      refine Or.inr ⟨fun q hq => ?_, hrow⟩
      simpa using List.find?_eq_none.mp hnone q hq

lemma pictures_updateFiles (hwf : db.Wf) {order : List Uuid} {choose : FileRow → Bool} {f : FileRow → FileRow}
    (hok : db.updateFiles order choose f = .ok db') (hf : KeepsKey f)
    (hpic : ∀ r kind, (f r).picture kind = r.picture kind) : PicturesFollow db db' := by
  obtain ⟨-, hrows⟩ := updateFiles_rows hwf hf hok
  have hkept : ∀ r, (if choose r then f r else r).id = r.id ∧
      ∀ kind, (if choose r then f r else r).picture kind = r.picture kind := by
    intro r
    split
    · exact ⟨(hf r).1, hpic r⟩
    · exact ⟨rfl, fun _ => rfl⟩
  constructor
  · intro r hr
    exact ⟨_, (hrows _).mpr ⟨r, hr, rfl⟩, hkept r⟩
  · intro r' hr'
    obtain ⟨r, hr, rfl⟩ := (hrows r').mp hr'
    exact Or.inl ⟨r, hr, (hkept r).1.symm, (hkept r).2⟩

lemma pictures_updateById (hwf : db.Wf) {id : Uuid} {f : FileRow → FileRow}
    (hok : db.updateById id f = .ok db') (hf : Db.InPlace f)
    (hpic : ∀ r kind, (f r).picture kind = r.picture kind) : PicturesFollow db db' :=
  pictures_updateFiles hwf (Db.updateById_inv hok) (fun r => ⟨(hf r).1, (hf r).2.1⟩) hpic

lemma pictures_recreateParent {storageId markerId : Uuid} {path : Path}
    (hok : db.recreateParent storageId path markerId = .ok db') : PicturesFollow db db' := by
  rcases Db.recreateParent_inv hok with ⟨rfl, -⟩ | ⟨parent, -, -, hins⟩
  · exact .refl _
  · exact pictures_insertFile hins fun kind => by cases kind <;> rfl

lemma pictures_delete (hwf : db.Wf) {path : Path} {storageId markerId : Uuid} {now : Instant}
    {order : List Uuid} (hok : db.delete path storageId now markerId order = .ok db') :
    PicturesFollow db db' := by
  obtain ⟨db₁, hupd, -, hparent⟩ := Db.delete_inv hok
  have hfollow : PicturesFollow db db₁ :=
    pictures_updateFiles hwf hupd (fun _ => ⟨rfl, rfl⟩) fun _ kind => by cases kind <;> rfl
  exact hfollow.trans (pictures_recreateParent hparent)

lemma pictures_restore (hwf : db.Wf) {path : Path} {storageId : Uuid} {order : List Uuid}
    (hok : db.restore path storageId order = .ok db') : PicturesFollow db db' := by
  rcases Db.restore_inv hok with rfl | hupd
  · exact .refl _
  · exact pictures_updateFiles hwf hupd (fun _ => ⟨rfl, rfl⟩) fun _ kind => by cases kind <;> rfl

lemma pictures_ensureLiveFolder (hwf : db.Wf) {folder : Path} {storageId id : Uuid} {order : List Uuid}
    (hok : db.ensureLiveFolder folder storageId id order = .ok db') : PicturesFollow db db' := by
  rcases Db.ensureLiveFolder_inv hok with rfl | ⟨marker, -, hupd⟩ | hins
  · exact .refl _
  · exact pictures_updateFiles hwf hupd (fun _ => ⟨rfl, rfl⟩) fun _ kind => by cases kind <;> rfl
  · exact pictures_insertFile hins fun kind => by cases kind <;> rfl

lemma pictures_ensureFolders {storageId : Uuid} {order : List Uuid} (folders : List (Path × Uuid)) :
    ∀ {db : Db}, db.Wf → PicturesFollow db (Db.ensureFolders storageId order folders db) := by
  induction folders with
  | nil => exact fun _ => .refl _
  | cons folder folders ih =>
    intro db hwf
    unfold Db.ensureFolders
    split
    · case h_1 db₁ hone =>
      have hwf₁ : db₁.Wf := (Truthful.ensureLiveFolder hone Mirror.empty 0 ⟨hwf, Nat.zero_le _⟩).1.wf
      exact (pictures_ensureLiveFolder hwf hone).trans (ih hwf₁)
    · exact .refl db

lemma pictures_rewritePaths (hwf : db.Wf) {oldPath newPath : Path} {storageId : Uuid} {liveOnly : Bool}
    {order : List Uuid} (hok : db.rewritePaths oldPath newPath storageId liveOnly order = .ok db') :
    PicturesFollow db db' :=
  pictures_updateFiles hwf (Db.rewritePaths_inv hok) (fun _ => ⟨rfl, rfl⟩) fun _ kind => by cases kind <;> rfl

lemma pictures_attempt (hwf : db.Wf) {maxVariables : Nat} {st : Statement} (hplain : st.plain = true)
    (hreplace : ∀ fileId expectedHash retiredPath incoming retiredId now,
      st ≠ .row (.replaceContent fileId expectedHash retiredPath incoming retiredId now))
    (hok : st.attempt maxVariables db = .ok db') : PicturesFollow db db' := by
  cases st with
  | row op =>
    cases op with
    | createFile inObj newId =>
      exact pictures_insertFile (Db.createFileRow_ok hok) fun kind => by cases kind <;> rfl
    | createFolder inObj newId =>
      exact pictures_insertFile (Db.createFileRow_ok hok) fun kind => by cases kind <;> rfl
    | setAsUploaded fileId =>
      exact pictures_updateById hwf hok Db.inPlace_uploaded fun _ kind => by cases kind <;> rfl
    | setThumb fileId telegramFileId messageId => cases hplain
    | setPreview fileId telegramFileId messageId => cases hplain
    | delete path storageId now markerId order => exact pictures_delete hwf hok
    | restore path storageId order => exact pictures_restore hwf hok
    | ensureLiveParentFolders path storageId ids order =>
      cases hok
      exact pictures_ensureFolders _ hwf
    | updatePath oldPath newPath storageId order => exact pictures_rewritePaths hwf hok
    | updateTrashedPath oldPath newPath storageId order => exact pictures_rewritePaths hwf hok
    | replaceContent fileId expectedHash retiredPath incoming retiredId now =>
      exact absurd rfl (hreplace fileId expectedHash retiredPath incoming retiredId now)
    | hardDeleteIds ids order => cases hplain
  | insertClonedFile source destPath id => cases hplain
  | createChunksBatch chunks =>
    obtain ⟨rows, rfl⟩ := createChunksBatch_rows hok
    exact .of_files rfl
  | insertBatch replicas =>
    obtain ⟨rows, rfl⟩ := insertBatch_rows hok
    exact .of_files rfl

lemma replaceContent_rows (hwf : db.Wf) {fileId retiredId : Uuid} {expectedHash : Option ContentHash}
    {retiredPath : Path} {incoming : InFile} {now : Instant}
    (hok : db.replaceContent fileId expectedHash retiredPath incoming retiredId now = .ok db') :
    ∃ current ∈ db.files, current.id = fileId ∧ current.Live ∧ current.contentHash = expectedHash ∧
      db'.Wf ∧ ((current.isUploaded = true ∨ db.HasChunks fileId) → db.fileById retiredId = none) ∧
      ∀ r', r' ∈ db'.files ↔ (∃ r ∈ db.files, r' = if r.id = fileId then Db.incomingRow incoming r else r) ∨
        (current.isUploaded = true ∨ db.HasChunks fileId) ∧
          r' = Db.retiredRow current retiredId retiredPath now := by
  obtain ⟨current, hmem, rfl, hlive, hhash, db₁, hret, hupd⟩ := Db.replaceContent_inv hok
  have hwf₁ : db₁.Wf := (Truthful.retire hret Mirror.empty 0 ⟨hwf, Nat.zero_le _⟩).1.wf
  obtain ⟨db₂, hupd', hwf₂, hrows, -⟩ := Db.updateById_ok hwf₁ current.id (Db.inPlace_incoming incoming)
  obtain rfl : db₂ = db' := Except.ok.inj (hupd'.symm.trans hupd)
  refine ⟨current, hmem, rfl, hlive, hhash, hwf₂, ?_⟩
  rcases Db.retire_inv hret with ⟨hnothing, rfl⟩ | ⟨hany, db₃, hins, rfl⟩
  · refine ⟨fun hany => absurd hany hnothing, fun r' => ?_⟩
    rw [hrows]
    exact ⟨Or.inl, fun h => h.resolve_right fun hany => hnothing hany.1⟩
  · obtain ⟨hnone, -, -, -⟩ := Db.insertFile_ok hins
    have hfresh : db.fileById retiredId = none := hnone
    have hother : retiredId ≠ current.id := by
      intro heq
      rw [heq, Db.fileById_of_mem hwf hmem] at hfresh
      cases hfresh
    have hmem₃ : ∀ r, r ∈ (db₃.moveChunks current.id retiredId).files ↔
        r ∈ db.files ∨ r = Db.retiredRow current retiredId retiredPath now := by
      intro r
      show r ∈ db₃.files ↔ _
      exact Db.mem_insertFile hins
    refine ⟨fun _ => hfresh, fun r' => ?_⟩
    rw [hrows]
    constructor
    · rintro ⟨q, hq, rfl⟩
      rcases (hmem₃ q).mp hq with hq | rfl
      · exact Or.inl ⟨q, hq, rfl⟩
      · exact Or.inr ⟨hany, if_neg hother⟩
    · rintro (⟨q, hq, rfl⟩ | ⟨-, rfl⟩)
      · exact ⟨q, (hmem₃ q).mpr (Or.inl hq), rfl⟩
      · exact ⟨_, (hmem₃ _).mpr (Or.inr rfl), (if_neg hother).symm⟩

lemma mem_hardDeleteIds {ids order : List Uuid} {r : FileRow} :
    r ∈ (db.hardDeleteIds ids order).files ↔ r ∈ db.files ∧ r.id ∉ ids := by
  rw [show r ∈ (db.hardDeleteIds ids order).files ↔ _ from Mirror.mem_deleteEach, mem_visitOrder, mem_idsWhere]
  refine and_congr_right fun hr => not_congr ⟨?_, fun hid => ⟨r, hr, decide_eq_true hid, rfl⟩⟩
  rintro ⟨q, -, hq, hid⟩
  exact hid ▸ of_decide_eq_true hq

lemma wf_hardDeleteIds (hwf : db.Wf) (ids order : List Uuid) : (db.hardDeleteIds ids order).Wf := by
  have hsane : Mirror.empty.Sane db := ⟨hwf, Nat.zero_le _⟩
  exact (hsane.deleteEach _).wf

/-- The row with the picture of the kind (Rust `set_thumb` and `set_preview`). -/
def FileRow.withPicture (kind : PictureKind) (telegramFileId : String) (messageId : Int) (r : FileRow) :
    FileRow :=
  match kind with
  | .thumb =>
    { r with thumbTelegramFileId := some telegramFileId, thumbTelegramMessageId := some messageId }
  | .preview =>
    { r with previewTelegramFileId := some telegramFileId, previewTelegramMessageId := some messageId }

@[simp] lemma FileRow.withPicture_id (kind : PictureKind) (telegramFileId : String) (messageId : Int)
    (r : FileRow) : (r.withPicture kind telegramFileId messageId).id = r.id := by
  cases kind <;> rfl

lemma FileRow.picture_withPicture (kind kind' : PictureKind) (telegramFileId : String) (messageId : Int)
    (r : FileRow) : (r.withPicture kind telegramFileId messageId).picture kind' =
      if kind' = kind then (some telegramFileId, some messageId) else r.picture kind' := by
  cases kind <;> cases kind' <;> rfl

lemma FileRow.Shows.of_picture {r r' : FileRow} {s : SentPicture} (hs : r.Shows s)
    (hpic : ∀ kind, r'.picture kind = r.picture kind) : r'.Shows s :=
  (hpic s.kind).trans hs

namespace StoredPictures
namespace Gallery

lemma recordOp_rows (hwf : db.Wf) (t : PictureTask) (telegramFileId : String) (messageId : Int) :
    (exec db (recordOp t telegramFileId messageId)).Wf ∧
      ∀ r', r' ∈ (exec db (recordOp t telegramFileId messageId)).files ↔
        ∃ r ∈ db.files, r' = if r.id = t.fileId then r.withPicture t.kind telegramFileId messageId else r := by
  have hin : Db.InPlace (FileRow.withPicture t.kind telegramFileId messageId) := by
    intro r
    cases t.kind <;> exact ⟨rfl, rfl, rfl, rfl⟩
  obtain ⟨db₁, hok, hwf₁, hrows, -⟩ := Db.updateById_ok hwf t.fileId hin
  have hexec : exec db (recordOp t telegramFileId messageId) = db₁ := by
    have hattempt : attempt db (recordOp t telegramFileId messageId) = .ok db₁ := by
      rw [← hok, recordOp]
      cases t.kind <;> rfl
    rw [exec, hattempt]
  rw [hexec]
  exact ⟨hwf₁, hrows⟩

/-! ## The invariant -/

structure Sound (σ : Gallery) : Prop where
  wf : σ.db.Wf
  version : ∀ r ∈ σ.db.files, ∀ kind telegramFileId content, (r.picture kind).1 = some telegramFileId →
    σ.holds r.id = some content → σ.Made kind telegramFileId content
  captured : ∀ c ∈ σ.copies, ∀ kind telegramFileId content, (c.source.picture kind).1 = some telegramFileId →
    c.content = some content → σ.Made kind telegramFileId content
  answered : ∀ t ∈ σ.tasks, ∀ telegramFileId messageId, t.answer = some (telegramFileId, messageId) →
    ⟨telegramFileId, messageId, t.kind, t.content⟩ ∈ σ.sent
  named : ∀ s ∈ σ.sent, σ.Named s ∨
    ∃ t ∈ σ.tasks, t.kind = s.kind ∧ t.answer = some (s.telegramFileId, s.messageId)

variable {σ : Gallery} {maxVariables : Nat}

lemma Sound.kept (h : σ.Sound) : σ.Kept where
  version := h.version
  referenced := by
    intro htasks _ _ s hs
    refine (h.named s hs).resolve_right ?_
    rintro ⟨t, ht, -⟩
    rw [htasks] at ht
    exact absurd ht List.not_mem_nil

lemma Sound.start (storages : List Storage) : (start storages).Sound where
  wf := Db.fresh_wf storages
  version := fun _ hr => absurd hr List.not_mem_nil
  captured := fun _ hc => absurd hc List.not_mem_nil
  answered := fun _ ht => absurd ht List.not_mem_nil
  named := fun _ hs => absurd hs List.not_mem_nil

lemma Sound.leave (h : σ.Sound) (tasks : List PictureTask) (copies : List Copy) (purges : List Purge)
    (htasks : ∀ t ∈ tasks, t ∈ σ.tasks) (hcopies : ∀ c ∈ copies, c ∈ σ.copies)
    (hanswer : ∀ t ∈ σ.tasks, t ∈ tasks ∨ t.answer = none) :
    Sound { σ with tasks := tasks, copies := copies, purges := purges } where
  wf := h.wf
  version := h.version
  captured := fun c hc => h.captured c (hcopies c hc)
  answered := fun t ht => h.answered t (htasks t ht)
  named := by
    intro s hs
    refine (h.named s hs).imp_right ?_
    rintro ⟨t, ht, hkind, ha⟩
    rcases hanswer t ht with hin | hnone
    · exact ⟨t, hin, hkind, ha⟩
    · rw [hnone] at ha
      cases ha

lemma Sound.follow (h : σ.Sound) (hwf : db'.Wf) (hfollow : PicturesFollow σ.db db') (content : Nat) :
    Sound { σ with
      db := db'
      holds := fun id => if (σ.db.fileById id).isSome then σ.holds id else some content } where
  wf := hwf
  version := by
    intro r' hr' kind doc content' hdoc hholds
    rcases hfollow.come r' hr' with ⟨r, hr, hid, hpic⟩ | ⟨-, hpic⟩
    · have hsome : (σ.db.fileById r'.id).isSome = true := by
        rw [← hid, Db.fileById_of_mem h.wf hr]
        rfl
      dsimp only at hholds
      rw [if_pos hsome, ← hid] at hholds
      exact h.version r hr kind doc content' (hpic kind ▸ hdoc) hholds
    · rw [hpic kind] at hdoc
      cases hdoc
  captured := h.captured
  answered := h.answered
  named := by
    intro s hs
    refine (h.named s hs).imp_left (Or.imp_left ?_)
    rintro ⟨r, hr, hshows⟩
    obtain ⟨r', hr', -, hpic⟩ := hfollow.stay r hr
    exact ⟨r', hr', hshows.of_picture hpic⟩

lemma Spared.elsewhere {r : FileRow} {kind : PictureKind} (h : σ.Spared r kind) {s : SentPicture}
    (hs : s ∈ σ.sent) (hkind : s.kind = kind) (hshows : r.Shows s)
    (hkeep : ∀ q ∈ σ.db.files, q.id ≠ r.id → q ∈ db'.files) :
    (∃ q ∈ db'.files, q.Shows s) ∨ ∃ q ∈ σ.collected, q.Shows s := by
  refine (h s hs hkind hshows).imp_left ?_
  rintro ⟨q, hq, hne, hqs⟩
  exact ⟨q, hkeep q hq hne, hqs⟩

/-- A replace keeps the pictures of a version that it retires. -/
lemma Sound.replace (h : σ.Sound) {fileId retiredId : Uuid} {expectedHash : Option ContentHash}
    {retiredPath : Path} {incoming : InFile} {now : Instant} {content : Nat}
    (hcareful : σ.Careful
      (.statement (.row (.replaceContent fileId expectedHash retiredPath incoming retiredId now)) content))
    (hok : σ.db.replaceContent fileId expectedHash retiredPath incoming retiredId now = .ok db') :
    Sound { σ with
      db := db'
      holds := σ.holdsAfter (.row (.replaceContent fileId expectedHash retiredPath incoming retiredId now))
        content } := by
  obtain ⟨current, hcurrent, rfl, hlive, hhash, hwf', hfresh, hrows⟩ := replaceContent_rows h.wf hok
  have hkeep : ∀ q ∈ σ.db.files, q.id ≠ current.id → q ∈ db'.files :=
    fun q hq hne => (hrows q).mpr (Or.inl ⟨q, hq, (if_neg hne).symm⟩)
  refine ⟨hwf', ?_, h.captured, h.answered, ?_⟩
  · intro r' hr' kind doc content' hdoc hholds
    dsimp only [holdsAfter] at hholds
    rcases (hrows r').mp hr' with ⟨r, hr, rfl⟩ | ⟨hany, rfl⟩
    · by_cases hid : r.id = current.id
      · rw [if_pos hid] at hdoc
        cases kind <;> cases hdoc
      · have hthere : ¬(r.id = retiredId ∧ σ.db.fileById retiredId = none) := by
          rintro ⟨rfl, hnone⟩
          rw [Db.fileById_of_mem h.wf hr] at hnone
          cases hnone
        rw [if_neg hid] at hdoc hholds
        rw [if_neg hid, if_neg hthere] at hholds
        exact h.version r hr kind doc content' hdoc hholds
    · have hnone := hfresh hany
      have hother : retiredId ≠ current.id := by
        intro heq
        rw [heq, Db.fileById_of_mem h.wf hcurrent] at hnone
        cases hnone
      have hholds' : (if retiredId = current.id then some content
          else if retiredId = retiredId ∧ σ.db.fileById retiredId = none then σ.holds current.id
          else σ.holds retiredId) = some content' := hholds
      rw [if_neg hother, if_pos ⟨rfl, hnone⟩] at hholds'
      refine h.version current hcurrent kind doc content' ?_ hholds'
      cases kind <;> exact hdoc
  · intro s hs
    refine (h.named s hs).imp_left ?_
    rintro (⟨r, hr, hshows⟩ | hcollected)
    · by_cases hid : r.id = current.id
      · obtain rfl := h.wf.idUnique r hr current hcurrent hid
        have hkept := hcareful r hr rfl hlive hhash
        rw [← or_assoc] at hkept
        rcases hkept with hany | ⟨hthumb, hpreview⟩
        · refine Or.inl ⟨_, (hrows _).mpr (Or.inr ⟨hany, rfl⟩), hshows.of_picture fun kind => ?_⟩
          cases kind <;> rfl
        · cases hkind : s.kind with
          | thumb => exact hthumb.elsewhere hs hkind hshows hkeep
          | preview => exact hpreview.elsewhere hs hkind hshows hkeep
      · exact Or.inl ⟨r, hkeep r hr hid, hshows⟩
    · exact Or.inr hcollected

/-- A picture is recorded in a row that holds what it was made of. -/
lemma Sound.record (h : σ.Sound) {t : PictureTask} {telegramFileId : String} {messageId : Int}
    (ht : t ∈ σ.tasks) (hanswer : t.answer = some (telegramFileId, messageId)) {row : FileRow}
    (hrow : row ∈ σ.db.files) (hid : row.id = t.fileId) (hholds : σ.holds t.fileId = some t.content)
    (hspared : σ.Spared row t.kind) :
    Sound { σ with
      db := exec σ.db (recordOp t telegramFileId messageId)
      tasks := σ.tasks.erase t } := by
  obtain ⟨hwf', hrows⟩ := recordOp_rows h.wf t telegramFileId messageId
  have hin : row.withPicture t.kind telegramFileId messageId ∈
      (exec σ.db (recordOp t telegramFileId messageId)).files :=
    (hrows _).mpr ⟨row, hrow, (if_pos hid).symm⟩
  have hkeep : ∀ q ∈ σ.db.files, q.id ≠ row.id → q ∈ (exec σ.db (recordOp t telegramFileId messageId)).files :=
    fun q hq hne => (hrows q).mpr ⟨q, hq, (if_neg fun heq => hne (heq.trans hid.symm)).symm⟩
  refine ⟨hwf', ?_, h.captured, fun t' ht' => h.answered t' (List.mem_of_mem_erase ht'), ?_⟩
  · intro r' hr' kind doc content hdoc hc
    obtain ⟨r, hr, rfl⟩ := (hrows r').mp hr'
    by_cases hrid : r.id = t.fileId
    · rw [if_pos hrid] at hdoc hc
      rw [FileRow.picture_withPicture] at hdoc
      rw [FileRow.withPicture_id] at hc
      by_cases hkind : kind = t.kind
      · rw [if_pos hkind] at hdoc
        have hcontent : t.content = content := Option.some.inj (hholds.symm.trans (hrid ▸ hc))
        have hdoc' : telegramFileId = doc := Option.some.inj hdoc
        exact ⟨_, h.answered t ht _ _ hanswer, hkind.symm, hdoc', hcontent⟩
      · rw [if_neg hkind] at hdoc
        exact h.version r hr kind doc content hdoc hc
    · rw [if_neg hrid] at hdoc hc
      exact h.version r hr kind doc content hdoc hc
  · intro s hs
    rcases h.named s hs with (⟨r, hr, hshows⟩ | hcollected) | ⟨t', ht', hkind, ha⟩
    · by_cases hrid : r.id = row.id
      · obtain rfl := h.wf.idUnique r hr row hrow hrid
        by_cases hkind : s.kind = t.kind
        · exact Or.inl (hspared.elsewhere hs hkind hshows hkeep)
        · refine Or.inl (Or.inl ⟨_, hin, ?_⟩)
          rw [FileRow.Shows, FileRow.picture_withPicture, if_neg hkind]
          exact hshows
      · exact Or.inl (Or.inl ⟨r, hkeep r hr hrid, hshows⟩)
    · exact Or.inl (Or.inr hcollected)
    · by_cases heq : t' = t
      · subst heq
        have hsame := Option.some.inj (hanswer.symm.trans ha)
        refine Or.inl (Or.inl ⟨_, hin, ?_⟩)
        rw [FileRow.Shows, FileRow.picture_withPicture, if_pos hkind.symm]
        cases hsame
        rfl
      · exact Or.inr ⟨t', (List.mem_erase_of_ne heq).mpr ht', hkind, ha⟩

lemma Sound.send (h : σ.Sound) {t : PictureTask} (ht : t ∈ σ.tasks) (hnone : t.answer = none)
    (telegramFileId : String) (messageId : Int) :
    Sound { σ with
      tasks := σ.tasks.erase t ++ [{ t with answer := some (telegramFileId, messageId) }]
      sent := σ.sent ++ [⟨telegramFileId, messageId, t.kind, t.content⟩] } := by
  have hmade : ∀ kind doc content, σ.Made kind doc content →
      ∃ s ∈ σ.sent ++ [⟨telegramFileId, messageId, t.kind, t.content⟩],
        s.kind = kind ∧ s.telegramFileId = doc ∧ s.content = content := by
    rintro kind doc content ⟨s, hs, hmade⟩
    exact ⟨s, List.mem_append_left _ hs, hmade⟩
  refine ⟨h.wf, ?_, ?_, ?_, ?_⟩
  · intro r hr kind doc content hdoc hc
    exact hmade kind doc content (h.version r hr kind doc content hdoc hc)
  · intro c hc kind doc content hdoc hcontent
    exact hmade kind doc content (h.captured c hc kind doc content hdoc hcontent)
  · intro t' ht' doc mid ha
    rcases List.mem_append.mp ht' with ht' | ht'
    · exact List.mem_append_left _ (h.answered t' (List.mem_of_mem_erase ht') doc mid ha)
    · obtain rfl := List.mem_singleton.mp ht'
      cases ha
      exact List.mem_append_right _ (List.mem_singleton_self _)
  · intro s hs
    rcases List.mem_append.mp hs with hs | hs
    · refine (h.named s hs).imp_right ?_
      rintro ⟨t', ht', hkind, ha⟩
      have hne : t' ≠ t := by
        rintro rfl
        rw [hnone] at ha
        cases ha
      exact ⟨t', List.mem_append_left _ ((List.mem_erase_of_ne hne).mpr ht'), hkind, ha⟩
    · obtain rfl := List.mem_singleton.mp hs
      exact Or.inr ⟨_, List.mem_append_right _ (List.mem_singleton_self _), rfl, rfl⟩

lemma Sound.copyFile (h : σ.Sound) {source : FileRow} (hsource : source ∈ σ.db.files) :
    Sound { σ with copies := σ.copies ++ [⟨source, σ.holds source.id, none⟩] } where
  wf := h.wf
  version := h.version
  captured := by
    intro c hc kind doc content hdoc hcontent
    rcases List.mem_append.mp hc with hc | hc
    · exact h.captured c hc kind doc content hdoc hcontent
    · obtain rfl := List.mem_singleton.mp hc
      exact h.version source hsource kind doc content hdoc hcontent
  answered := h.answered
  named := h.named

lemma Sound.insertCopy (h : σ.Sound) {c : Copy} (hc : c ∈ σ.copies) {destPath : Path} {id : Uuid}
    (hok : σ.db.insertClonedFile c.source destPath id = .ok db') :
    Sound { σ with
      db := db'
      holds := fun id' => if id' = id then none else σ.holds id'
      copies := σ.copies.erase c ++ [{ c with made := some id }] } := by
  have hins := Db.insertClonedFile_ok hok
  have hrows := fun r => Db.mem_insertFile (r := r) hins
  refine ⟨h.wf.insertFile hins, ?_, ?_, h.answered, ?_⟩
  · intro r hr kind doc content hdoc hholds
    dsimp only at hholds
    rcases (hrows r).mp hr with hr | rfl
    · split at hholds
      · cases hholds
      · exact h.version r hr kind doc content hdoc hholds
    · have hcloned : (Db.clonedRow c.source destPath id).id = id := rfl
      rw [if_pos hcloned] at hholds
      cases hholds
  · intro c' hc' kind doc content hdoc hcontent
    rcases List.mem_append.mp hc' with hc' | hc'
    · exact h.captured c' (List.mem_of_mem_erase hc') kind doc content hdoc hcontent
    · obtain rfl := List.mem_singleton.mp hc'
      exact h.captured c hc kind doc content hdoc hcontent
  · intro s hs
    refine (h.named s hs).imp_left (Or.imp_left ?_)
    rintro ⟨r, hr, hshows⟩
    exact ⟨r, (hrows r).mpr (Or.inl hr), hshows⟩

lemma Sound.takeChunks (h : σ.Sound) {c : Copy} (hc : c ∈ σ.copies) (hcareful : σ.Careful (.takeChunks c)) :
    Sound { σ with
      holds := fun id => if c.made = some id then σ.contentOf c.source.id else σ.holds id
      copies := σ.copies.erase c } := by
  refine ⟨h.wf, ?_, fun c' hc' => h.captured c' (List.mem_of_mem_erase hc'), h.answered, h.named⟩
  intro r hr kind doc content hdoc hholds
  dsimp only at hholds
  by_cases hmade : c.made = some r.id
  · obtain ⟨hpic, hsame⟩ := hcareful hc r hr hmade kind (by rw [hdoc]; rfl)
    rw [if_pos hmade, hsame] at hholds
    exact h.captured c hc kind doc content (hpic ▸ hdoc) hholds
  · rw [if_neg hmade] at hholds
    exact h.version r hr kind doc content hdoc hholds

lemma Sound.purge (h : σ.Sound) {p : Purge} (hp : p ∈ σ.purges) {order : List Uuid}
    (hcareful : σ.Careful (.purge p order true)) :
    Sound { σ with
      db := σ.db.hardDeleteIds p.ids order
      purges := σ.purges.erase p
      collected := σ.collected ++ p.rows } := by
  have hrows : ∀ r, r ∈ (σ.db.hardDeleteIds p.ids order).files ↔ r ∈ σ.db.files ∧ r.id ∉ p.ids :=
    fun r => mem_hardDeleteIds
  have hwf' : (σ.db.hardDeleteIds p.ids order).Wf := wf_hardDeleteIds h.wf p.ids order
  refine ⟨hwf', fun r hr => h.version r ((hrows r).mp hr).1, h.captured, h.answered, ?_⟩
  have hcollected : ∀ s, (∃ r ∈ σ.collected, r.Shows s) → ∃ r ∈ σ.collected ++ p.rows, r.Shows s := by
    rintro s ⟨r, hr, hshows⟩
    exact ⟨r, List.mem_append_left _ hr, hshows⟩
  intro s hs
  refine (h.named s hs).imp_left ?_
  rintro (⟨r, hr, hshows⟩ | hdone)
  · by_cases hid : r.id ∈ p.ids
    · rcases hcareful hp rfl r hr hid s hs hshows with ⟨q, hq, hqs⟩ | ⟨q, hq, hqid, hqs⟩ | hdone
      · exact Or.inr ⟨q, List.mem_append_right _ hq, hqs⟩
      · exact Or.inl ⟨q, (hrows q).mpr ⟨hq, hqid⟩, hqs⟩
      · exact Or.inr (hcollected s hdone)
    · exact Or.inl ⟨r, (hrows r).mpr ⟨hr, hid⟩, hshows⟩
  · exact Or.inr (hcollected s hdone)

lemma Sound.statement (h : σ.Sound) {st : Statement} {content : Nat} (hplain : st.plain = true)
    (hcareful : σ.Careful (.statement st content)) (hok : st.attempt maxVariables σ.db = .ok db') :
    Sound { σ with db := db', holds := σ.holdsAfter st content } := by
  by_cases hreplace : ∃ fileId expectedHash retiredPath incoming retiredId now,
      st = .row (.replaceContent fileId expectedHash retiredPath incoming retiredId now)
  · obtain ⟨fileId, expectedHash, retiredPath, incoming, retiredId, now, rfl⟩ := hreplace
    exact h.replace hcareful hok
  · have hother : ∀ fileId expectedHash retiredPath incoming retiredId now,
        st ≠ .row (.replaceContent fileId expectedHash retiredPath incoming retiredId now) :=
      fun fileId expectedHash retiredPath incoming retiredId now heq =>
        hreplace ⟨fileId, expectedHash, retiredPath, incoming, retiredId, now, heq⟩
    have hholds : σ.holdsAfter st content =
        fun id => if (σ.db.fileById id).isSome then σ.holds id else some content := by
      funext id
      unfold holdsAfter
      split
      · exact absurd rfl (hother _ _ _ _ _ _)
      · rfl
    rw [hholds]
    exact h.follow (livePaths_attempt (s := 0) h.wf hok).1 (pictures_attempt h.wf hplain hother hok) content

/-- A careful step. -/
lemma Sound.step (h : σ.Sound) {a : GalleryStep} (hcareful : σ.Careful a) : (σ.step maxVariables a).Sound := by
  cases a with
  | statement st content =>
    rw [Gallery.step]
    split
    · case isTrue hplain =>
      split
      · case h_1 db' hok => exact h.statement hplain hcareful hok
      · exact h
    · exact h
  | elsewhere channels chunks replicas =>
    exact ⟨⟨h.wf.idUnique, h.wf.aliveUnique, h.wf.storageExists, h.wf.eventsGrow, h.wf.eventsSeen⟩, h.version,
      h.captured, h.answered, h.named⟩
  | derive fileId kind content =>
    refine ⟨h.wf, h.version, h.captured, fun t ht doc mid ha => ?_, fun s hs => (h.named s hs).imp_right ?_⟩
    · rcases List.mem_append.mp ht with ht | ht
      · exact h.answered t ht doc mid ha
      · obtain rfl := List.mem_singleton.mp ht
        cases ha
    · rintro ⟨t, ht, hanswer⟩
      exact ⟨t, List.mem_append_left _ ht, hanswer⟩
  | send t telegramFileId messageId =>
    rw [Gallery.step]
    split
    · case isTrue hsend => exact h.send hsend.1 hsend.2.1 telegramFileId messageId
    · exact h
  | record t ok =>
    rw [Gallery.step]
    split
    · exact h
    · case h_2 doc mid hanswer =>
      split
      · case isTrue ht =>
        obtain ⟨rfl, row, hrow, hid, hholds, hspared⟩ := hcareful ht (by rw [hanswer]; rfl)
        exact h.record ht hanswer hrow hid hholds hspared
      · exact h
  | giveUp t =>
    refine h.leave _ σ.copies σ.purges (fun t' => List.mem_of_mem_erase) (fun c hc => hc) fun t' ht' => ?_
    by_cases heq : t' = t
    · exact Or.inr (heq ▸ hcareful (heq ▸ ht'))
    · exact Or.inl ((List.mem_erase_of_ne heq).mpr ht')
  | copyFile fileId =>
    rw [Gallery.step]
    split
    · case h_1 source hsource => exact h.copyFile (Db.fileById_some hsource).1
    · exact h
  | insertCopy c destPath id =>
    rw [Gallery.step]
    split
    · case isTrue hc =>
      split
      · case h_1 db' hok => exact h.insertCopy hc.1 hok
      · exact h.leave σ.tasks _ σ.purges (fun t ht => ht) (fun c => List.mem_of_mem_erase) fun t => Or.inl
    · exact h
  | takeChunks c =>
    rw [Gallery.step]
    split
    · case isTrue hc => exact h.takeChunks hc hcareful
    · exact h
  | endCopy c =>
    exact h.leave σ.tasks _ σ.purges (fun t ht => ht) (fun c => List.mem_of_mem_erase) fun t => Or.inl
  | list ids =>
    exact h.leave σ.tasks σ.copies _ (fun t ht => ht) (fun c hc => hc) fun t => Or.inl
  | purge p order ok =>
    rw [Gallery.step]
    split
    · case isTrue hp =>
      split
      · case isTrue hok =>
        subst hok
        exact h.purge hp hcareful
      · exact h.leave σ.tasks σ.copies _ (fun t ht => ht) (fun c hc => hc) fun t => Or.inl
    · exact h

/-- In a run of careful steps a row names pictures of what it holds, and no message is lost. -/
theorem pictures_kept (maxVariables : Nat) (storages : List Storage) (steps : List GalleryStep)
    (h : AllOk (step maxVariables) Careful (start storages) steps) :
    Always (step maxVariables) Kept (start storages) steps := by
  have hsound : Always (step maxVariables) Sound (start storages) steps :=
    always_of_allOk (fun σ a hσ ha => hσ.step ha) (Sound.start storages) h
  exact hsound.mono fun σ hσ => hσ.kept

def photo (hash : ContentHash) : InFile :=
  ⟨"a.jpg".toList, 9, 1, some 9, none, none, some hash⟩

/-- A photo is uploaded with the content `1`. -/
def uploaded : List GalleryStep :=
  [.statement (.row (.createFile (photo "h1") 10)) 1, .statement (.createChunksBatch [⟨30, 10, 0⟩]) 1,
    .statement (.row (.setAsUploaded 10)) 1]

/-- The photo is replaced by the content `2`. -/
def replacing : GalleryStep :=
  .statement (.row (.replaceContent 10 (some "h1") "a (replaced).jpg".toList (photo "h2") 11 5)) 2

/-- A thumbnail of the content is sent, and recorded in the row of the photo. -/
def sendAndRecord (content : Nat) (telegramFileId : String) (messageId : Int) : List GalleryStep :=
  [.send ⟨10, .thumb, content, none⟩ telegramFileId messageId,
    .record ⟨10, .thumb, content, some (telegramFileId, messageId)⟩ true]

/-- The photo gets a thumbnail, is replaced, and gets one of its new content. -/
theorem pictures_kept_replaced :
    Always (step 999) Kept (start [⟨1, 1⟩])
      (uploaded ++ [.derive 10 .thumb 1] ++ sendAndRecord 1 "t1" 7 ++ [replacing, .derive 10 .thumb 2] ++
        sendAndRecord 2 "t2" 8) := by
  refine pictures_kept 999 [⟨1, 1⟩] _
    ⟨trivial, trivial, trivial, trivial, trivial, ?_, ?_, trivial, trivial, ?_, trivial⟩
  · exact fun _ _ => ⟨rfl, _, List.mem_cons_self, rfl, rfl, by decide⟩
  · exact fun r hr _ _ _ => Or.inl (by revert r; decide)
  · exact fun _ _ => ⟨rfl, _, List.mem_cons_self, rfl, rfl, by decide⟩

/-- A thumbnail that a backfill has made of the old content is recorded behind a replace; and two backfills of
    one photo leave the message of the first one to nobody. -/
theorem picture_of_old_version :
    ¬Always (step 999) Kept (start [⟨1, 1⟩])
      (uploaded ++ [.derive 10 .thumb 1, replacing] ++ sendAndRecord 1 "t1" 7) ∧
    ¬Always (step 999) Kept (start [⟨1, 1⟩])
      (uploaded ++ [.derive 10 .thumb 1, .derive 10 .thumb 1] ++ sendAndRecord 1 "t1" 7 ++
        sendAndRecord 1 "t2" 8) := by
  constructor
  · intro h
    have hmade : Made _ .thumb "t1" 2 := h.last.version _ List.mem_cons_self .thumb "t1" 2 rfl rfl
    revert hmade
    decide
  · intro h
    have hnamed : Named _ ⟨"t1", 7, .thumb, 1⟩ := h.last.referenced rfl rfl rfl _ List.mem_cons_self
    revert hnamed
    decide

end Gallery
end StoredPictures

end Sarca.Server
