import Sarca.Lib.Run
import Sarca.Server.HubSound
import Sarca.Server.Names
import Sarca.Server.StoragePurge

/-!
# The cache of pictures

`MediaCache` keeps encoded thumbnails and previews on disk under a hash of storage and path. A request reads
the row at its path, looks into the cache, and otherwise gets the picture from Telegram or makes it and
puts it there; what changes rows removes the entry of one path, in a task of its own.

`Media` is the database with the two caches, the requests under way and the removals that are still to come.
`content` says what each row holds; it and `MediaWorld.shows`, which says what a stored picture was made from,
are only there to say what a served picture shows. The main result tells in which runs every picture a
request is served, or might be served next, shows what was live at its path during the request. Two
requests may make one picture side by side here; in the code a single flight makes them take turns.
-/

namespace Sarca.Server
open Sarca.Lib

/-- The extension of a file name in lower case (Rust `Path::extension`). -/
def extension (path : Path) : Option (List Char) :=
  match rsplitOnce '.' (lastName path) with
  | some (stem, ext) => if stem = [] then none else some (ext.map Char.toLower)
  | none => none

/-- Rust `is_preview_image`. -/
def isPreviewImage (path : Path) : Bool :=
  (extension path).any fun ext =>
    ["jpg", "jpeg", "png", "gif", "webp", "bmp", "heic", "heif", "avif"].any fun e => e.toList = ext

/-- The Telegram document of a picture that a row names. -/
def FileRow.pictureId (f : FileRow) : PictureKind → Option String
  | .thumb => f.thumbTelegramFileId
  | .preview => f.previewTelegramFileId

/-- Rust `preview_allowed`. -/
def previewAllowed (path : Path) (hasStoredPreview : Bool) : Bool :=
  hasStoredPreview || isPreviewImage path

/-- Rust `MediaCache::key`, which hashes, and the content that each document of a picture shows. -/
structure MediaWorld (κ K : Type*) where
  key : PictureKind → Uuid → Path → K
  shows : String → κ

/-- Where a request stands, with the row it read and the content of the picture it has. -/
inductive MediaPhase (κ : Type*) where
  | arrived
  | read (file : FileRow)
  /-- behind the single flight -/
  | admitted (file : FileRow)
  | missed (file : FileRow)
  /-- there is no stored preview, or its download failed -/
  | assembling (file : FileRow)
  | made (content : κ)
  | answered (content : Option κ)
deriving DecidableEq

def MediaPhase.file? {κ : Type*} : MediaPhase κ → Option FileRow
  | .read file | .admitted file | .missed file | .assembling file => some file
  | _ => none

def MediaPhase.Looks {κ : Type*} : MediaPhase κ → Prop
  | .read _ | .admitted _ => True
  | _ => False

def MediaPhase.picture? {κ : Type*} : MediaPhase κ → Option κ
  | .made content => some content
  | .answered content => content
  | _ => none

def MediaPhase.Over {κ : Type*} : MediaPhase κ → Prop
  | .answered _ => True
  | _ => False

instance MediaPhase.Over.decidable {κ : Type*} : DecidablePred (MediaPhase.Over (κ := κ))
  | .answered _ => isTrue trivial
  | .arrived | .read _ | .admitted _ | .missed _ | .assembling _ | .made _ => isFalse not_false

/-- A request for a picture. A request for a thumbnail goes for the preview first when its row has none
    (`derived`), and comes back to the thumbnail with it. `seen` is what was live at the path since it came. -/
structure MediaRequest (κ : Type*) where
  kind : PictureKind
  derived : Bool
  storageId : Uuid
  path : Path
  phase : MediaPhase κ
  seen : List κ
deriving DecidableEq

structure Media (κ K : Type*) where
  db : Db
  content : Uuid → κ
  cache : PictureKind → K → Option κ
  removals : List (List (PictureKind × K))
  requests : List (MediaRequest κ)

inductive MediaAct where
  | read
  | look
  | download (ok busy : Bool)
  | derive
  | assemble (ok : Bool)
  | put (ok : Bool)

inductive MediaStep (κ K : Type*) where
  /-- a statement; `content` is what a row it creates or turns to a new version is to hold, and `displaced` the
      path of a conflict that was settled by purging what is there -/
  | rows (s : Statement) (content : κ) (displaced : Option (Uuid × Path))
  /-- the next entry of a removal -/
  | remove (task : Nat)
  | evict (kind : PictureKind) (key : K)
  /-- an upload puts the preview it made -/
  | warm (storageId : Uuid) (path : Path) (content : κ)
  | arrive (kind : PictureKind) (storageId : Uuid) (path : Path)
  | act (number : Nat) (a : MediaAct)
  /-- the process starts again; the caches are on disk -/
  | restart

variable {κ K : Type*}

/-- What the rows hold behind a statement that succeeded. -/
def Statement.contentAfter (db : Db) (content : Uuid → κ) (new : κ) : Statement → Uuid → κ
  | .row (.createFile _ id) | .row (.createFolder _ id) | .insertClonedFile _ _ id =>
    fun i => if i = id ∧ db.fileById id = none then new else content i
  | .row (.replaceContent fileId _ _ _ retiredId _) => fun i =>
    if i = fileId then new
    else if i = retiredId ∧ db.fileById retiredId = none then content fileId
    else content i
  | _ => content

/-- The path whose pictures are removed behind a statement that succeeded: what was deleted, what was
    replaced, and what gave way to something else. -/
def Statement.invalidates (db : Db) (displaced : Option (Uuid × Path)) : Statement → Option (Uuid × Path)
  | .row (.delete path storageId _ _ _) =>
    let folder := db.folderPrefix storageId path fun r => r.Live
    some (storageId, if folder = [] then path else folder)
  | .row (.replaceContent fileId _ _ _ _ _) => (db.fileById fileId).map fun r => (r.storageId, r.path)
  | .row (.hardDeleteIds _ _) => displaced
  | _ => none

def FileRow.ShowsContent (shows : String → κ) (content : Uuid → κ) (f : FileRow) : Prop :=
  ∀ kind, ∀ id ∈ f.pictureId kind, shows id = content f.id

/-- A picture that is recorded shows what its row holds, and one that is copied shows what the copy is to
    hold. -/
def Statement.ShowsContent (shows : String → κ) (content : Uuid → κ) (new : κ) (db : Db) :
    Statement → Prop
  | .row (.setThumb fileId id _) | .row (.setPreview fileId id _) =>
    (∃ f ∈ db.files, f.id = fileId) → shows id = content fileId
  | .insertClonedFile source _ _ => ∀ kind, ∀ id ∈ source.pictureId kind, shows id = new
  | _ => True

namespace Media

variable (w : MediaWorld κ K) (σ : Media κ K)

def liveContent (storageId : Uuid) (path : Path) : Option κ :=
  (σ.db.liveAt storageId path).map fun r => σ.content r.id

def setRequest (number : Nat) (f : MediaRequest κ → MediaRequest κ) : Media κ K :=
  { σ with requests := σ.requests.modify number f }

def setPhase (number : Nat) (phase : MediaPhase κ) : Media κ K :=
  σ.setRequest number fun r => { r with phase := phase }

/-- The picture a request asked for is there: it answers, or goes on to the thumbnail it wanted it for. -/
def finish (number : Nat) (r : MediaRequest κ) (content : κ) : Media κ K :=
  if r.derived ∧ r.kind = .preview then
    σ.setRequest number fun r => { r with kind := .thumb, phase := .made content }
  else σ.setPhase number (.answered (some content))

variable [DecidableEq K]

/-- Rust `MediaCache::put`. -/
def putPicture (kind : PictureKind) (key : K) (content : κ) : Media κ K :=
  { σ with cache := fun k i => if k = kind ∧ i = key then some content else σ.cache k i }

/-- Rust `MediaCache::remove`, or an eviction. -/
def removePicture (kind : PictureKind) (key : K) : Media κ K :=
  { σ with cache := fun k i => if k = kind ∧ i = key then none else σ.cache k i }

/-- Rust `invalidate_media_cache` spawns a task that removes the preview and then the thumbnail. -/
def invalidate : Option (Uuid × Path) → Media κ K
  | none => σ
  | some (storageId, path) =>
    { σ with removals := σ.removals ++
        [[(.preview, w.key .preview storageId path), (.thumb, w.key .thumb storageId path)]] }

def rows (maxVariables : Nat) (s : Statement) (content : κ) (displaced : Option (Uuid × Path)) : Media κ K :=
  match s.attempt maxVariables σ.db with
  | .error _ => σ
  | .ok db =>
    { σ with db := db, content := s.contentAfter σ.db σ.content content }.invalidate w
      (s.invalidates σ.db displaced)

/-- Rust `thumb_for_path` and `preview_for_path`, one step of a request. -/
def take (number : Nat) (r : MediaRequest κ) (a : MediaAct) : Media κ K :=
  let key := w.key r.kind r.storageId r.path
  match a, r.phase with
  | .read, .arrived =>
    if r.path.head? = some '/' ∨ holdsPattern "//".toList r.path then σ.setPhase number (.answered none)
    else
      match σ.db.liveAt r.storageId r.path with
      | none => σ.setPhase number (.answered none)
      | some file =>
        if r.kind = .preview ∧ ¬previewAllowed r.path file.previewTelegramFileId.isSome then
          σ.setPhase number (.answered none)
        else σ.setPhase number (.read file)
  -- before the flight, and once more behind it
  | .look, .read file =>
    match σ.cache r.kind key with
    | some content => σ.finish number r content
    | none => σ.setPhase number (.admitted file)
  | .look, .admitted file =>
    match σ.cache r.kind key with
    | some content => σ.finish number r content
    | none => σ.setPhase number (.missed file)
  | .download ok busy, .missed file =>
    match file.pictureId r.kind with
    | some telegramFileId =>
      if ok then σ.setPhase number (.made (w.shows telegramFileId))
      else if r.kind = .thumb ∨ busy then σ.setPhase number (.answered none)
      else σ.setPhase number (.assembling file)
    | none => if r.kind = .preview then σ.setPhase number (.assembling file) else σ
  | .derive, .missed file =>
    if r.kind = .thumb ∧ file.thumbTelegramFileId = none then
      σ.setRequest number fun r => { r with kind := .preview, derived := true, phase := .arrived }
    else σ
  | .assemble ok, .assembling file =>
    if ok ∧ isPreviewImage r.path then σ.setPhase number (.made (σ.content file.id))
    else σ.setPhase number (.answered none)
  | .put ok, .made content =>
    (if ok then σ.putPicture r.kind key content else σ).finish number r content
  | _, _ => σ

def happen (maxVariables : Nat) : MediaStep κ K → Media κ K
  | .rows s content displaced => σ.rows w maxVariables s content displaced
  | .remove task =>
    match σ.removals[task]? with
    | some ((kind, key) :: rest) =>
      { σ.removePicture kind key with removals := σ.removals.set task rest }
    | _ => σ
  | .evict kind key => σ.removePicture kind key
  | .warm storageId path content => σ.putPicture .preview (w.key .preview storageId path) content
  | .arrive kind storageId path =>
    { σ with requests := σ.requests ++ [⟨kind, false, storageId, path, .arrived, []⟩] }
  | .act number a =>
    match σ.requests[number]? with
    | some r => σ.take w number r a
    | none => σ
  | .restart => { σ with removals := [], requests := [] }

omit [DecidableEq K] in
/-- What is live at the path of a request that is under way. -/
def see (r : MediaRequest κ) : MediaRequest κ :=
  if r.phase.Over then r
  else { r with seen := (σ.liveContent r.storageId r.path).toList ++ r.seen }

def step (maxVariables : Nat) (a : MediaStep κ K) : Media κ K :=
  let τ := σ.happen w maxVariables a
  { τ with requests := τ.requests.map τ.see }

omit [DecidableEq K] in
/-- What was live at the path of a request since it came, or is now. -/
def Seen (r : MediaRequest κ) (content : κ) : Prop :=
  content ∈ r.seen ∨ ¬r.phase.Over ∧ σ.liveContent r.storageId r.path = some content

omit [DecidableEq K] in
/-- A request has seen what it is served: the picture it has, those its row names, and the one it is to find in
    the cache. -/
structure Fair (cache : PictureKind → K → Option κ) (r : MediaRequest κ) (Seen : κ → Prop) : Prop where
  served : ∀ content ∈ r.phase.picture?, Seen content
  reading : ∀ file ∈ r.phase.file?, ∀ kind, ∀ id ∈ file.pictureId kind, Seen (w.shows id)
  looking : r.phase.Looks → ∀ content ∈ cache r.kind (w.key r.kind r.storageId r.path), Seen content

omit [DecidableEq K] in
/-- The requests are fair, and so is one that comes next: a cached picture of a path shows what is live there, and
    the pictures that rows name show what they hold. -/
structure GenuineBy (Seen : MediaRequest κ → κ → Prop) : Prop where
  requests : ∀ r ∈ σ.requests, Fair w σ.cache r (Seen r)
  cached : ∀ kind storageId path, ∀ content ∈ σ.cache kind (w.key kind storageId path),
    ∀ live ∈ σ.liveContent storageId path, content = live
  stored : ∀ f ∈ σ.db.files, f.ShowsContent w.shows σ.content

omit [DecidableEq K] in
/-- Every picture that a request is served, or may be served next, shows what was live at its path while the
    request was under way. -/
def Genuine : Prop :=
  σ.GenuineBy w fun r content => content ∈ r.seen

omit [DecidableEq K] in
/-- A picture may be put under a key: nothing else is live at a path of that key, and a request that is to
    look there saw what the picture shows. -/
structure Fits (kind : PictureKind) (key : K) (content : κ) : Prop where
  live : ∀ storageId path, w.key kind storageId path = key →
    ∀ live ∈ σ.liveContent storageId path, content = live
  looking : ∀ r ∈ σ.requests, r.phase.Looks → r.kind = kind → w.key kind r.storageId r.path = key →
    σ.Seen r content

/-- The side condition of a step. Where a statement makes a content live at a path, no picture of another
    content is cached for it, and the pictures it records are of what their rows hold. A picture is put
    where it fits, and is assembled from a content that was at the path since its request came. -/
def Careful (maxVariables : Nat) : MediaStep κ K → Prop
  | .rows s content displaced => ∀ db, s.attempt maxVariables σ.db = .ok db →
    (∀ kind storageId path, ∀ old ∈ σ.cache kind (w.key kind storageId path),
      ∀ live ∈ (σ.rows w maxVariables s content displaced).liveContent storageId path,
        σ.liveContent storageId path ≠ some live → old = live) ∧
    s.ShowsContent w.shows σ.content content σ.db
  | .warm storageId path content => σ.Fits w .preview (w.key .preview storageId path) content
  | .act number (.put true) => ∀ r ∈ σ.requests[number]?, ∀ content, r.phase = .made content →
    σ.Fits w r.kind (w.key r.kind r.storageId r.path) content
  | .act number (.assemble true) => ∀ r ∈ σ.requests[number]?, ∀ file, r.phase = .assembling file →
    isPreviewImage r.path = true → σ.Seen r (σ.content file.id)
  | _ => True

end Media

/-! ## What statements do to every row -/

namespace Db

variable {db db' : Db} {R W : FileRow → Prop}

lemma forall_updateEach {f : FileRow → FileRow} {ids : List Uuid} (hf : ∀ r, W r → r.id ∈ ids → R (f r))
    (hRW : ∀ r, R r → W r) (hok : db.updateEach f ids = .ok db')
    (hW : ∀ r ∈ db.files, W r) (h : ∀ r ∈ db.files, R r ∨ r.id ∈ ids) : ∀ r ∈ db'.files, R r := by
  have hend := updateEach_induct
    (P := fun rest db => rest ⊆ ids ∧ ∀ r ∈ db.files, W r ∧ (R r ∨ r.id ∈ rest)) ?_ ?_ hok
    ⟨List.Subset.refl ids, fun r hr => ⟨hW r hr, h r hr⟩⟩
  · intro r hr
    exact (hend.2 r hr).2.resolve_right List.not_mem_nil
  · intro id rest db hnone ⟨hsub, hrows⟩
    refine ⟨fun _ hi => hsub (List.mem_cons_of_mem id hi), fun r hr => ?_⟩
    obtain ⟨hw, hor⟩ := hrows r hr
    refine ⟨hw, hor.imp_right fun hin => ?_⟩
    obtain rfl | hin := List.mem_cons.mp hin
    · exact absurd rfl (of_decide_eq_false (Bool.eq_false_iff.mpr (List.find?_eq_none.mp hnone r hr)))
    · exact hin
  · intro id rest db db₁ old hsome hrep ⟨hsub, hrows⟩
    obtain ⟨hold, rfl⟩ := fileById_some hsome
    refine ⟨fun _ hi => hsub (List.mem_cons_of_mem _ hi), fun r hr => ?_⟩
    unfold replaceFile at hrep
    split at hrep
    · cases hrep
    · cases hrep
      obtain ⟨q, hq, rfl⟩ := List.mem_map.mp hr
      split
      · have hR := hf old (hrows old hold).1 (hsub List.mem_cons_self)
        exact ⟨hRW _ hR, .inl hR⟩
      · case isFalse hne =>
        obtain ⟨hw, hor⟩ := hrows q hq
        exact ⟨hw, hor.imp_right fun hin => (List.mem_cons.mp hin).resolve_left hne⟩

lemma forall_updateFiles {f : FileRow → FileRow} {order : List Uuid} {p : FileRow → Bool}
    (hf : ∀ r, R r → R (f r)) (hok : db.updateFiles order p f = .ok db')
    (h : ∀ r ∈ db.files, R r) : ∀ r ∈ db'.files, R r :=
  forall_updateEach (W := R) (fun r hr _ => hf r hr) (fun _ hr => hr) hok h fun r hr => .inl (h r hr)

lemma forall_updateById {f : FileRow → FileRow} {id : Uuid} (hf : ∀ r, W r → r.id = id → R (f r))
    (hRW : ∀ r, R r → W r) (hok : db.updateById id f = .ok db')
    (hW : ∀ r ∈ db.files, W r) (h : ∀ r ∈ db.files, R r ∨ r.id = id) : ∀ r ∈ db'.files, R r := by
  have hmem : ∀ i, i ∈ visitOrder [] (db.idsWhere fun r => r.id = id) ↔
      ∃ r ∈ db.files, r.id = id ∧ r.id = i := by
    intro i
    rw [mem_visitOrder, mem_idsWhere]
    simp
  refine forall_updateEach (fun r hw hin => ?_) hRW (updateById_inv hok) hW
    fun r hr => (h r hr).imp_right fun heq => ?_
  · obtain ⟨q, _, hq, heq⟩ := (hmem r.id).mp hin
    exact hf r hw (heq.symm.trans hq)
  · exact (hmem r.id).mpr ⟨r, hr, heq, rfl⟩

lemma forall_insertFile {row : FileRow} (hrow : R row) (hok : db.insertFile row = .ok db')
    (h : ∀ r ∈ db.files, R r) : ∀ r ∈ db'.files, R r := by
  intro r hr
  obtain hr | rfl := (mem_insertFile hok).mp hr
  · exact h r hr
  · exact hrow

/-- A property that a row without pictures has, and that says of a row with pictures nothing but which
    they are. -/
structure OfPictures (R : FileRow → Prop) : Prop where
  bare : ∀ r, (∀ kind, r.pictureId kind = none) → R r
  same : ∀ r r', r'.id = r.id → (∀ kind, r'.pictureId kind = r.pictureId kind) → R r → R r'

variable (hR : OfPictures R)

include hR

lemma OfPictures.toRow (inObj : InFile) (id : Uuid) (up : Bool) : R (inObj.toRow id up) :=
  hR.bare _ fun kind => by cases kind <;> rfl

lemma OfPictures.withDeletedAt {r : FileRow} (at_ : Option Instant) (h : R r) : R (r.withDeletedAt at_) :=
  hR.same r _ rfl (fun kind => by cases kind <;> rfl) h

lemma OfPictures.withPath {r : FileRow} (path : Path) (h : R r) : R (r.withPath path) :=
  hR.same r _ rfl (fun kind => by cases kind <;> rfl) h

lemma forall_ensureFolders (storageId : Uuid) (order : List Uuid) (folders : List (Path × Uuid))
    (h : ∀ r ∈ db.files, R r) : ∀ r ∈ (ensureFolders storageId order folders db).files, R r := by
  induction folders generalizing db with
  | nil => exact h
  | cons folder rest ih =>
    obtain ⟨path, id⟩ := folder
    unfold ensureFolders
    cases hok : db.ensureLiveFolder path storageId id order with
    | error _ => exact h
    | ok db' =>
      apply ih
      rcases ensureLiveFolder_inv hok with rfl | ⟨marker, -, hupd⟩ | hins
      · exact h
      · exact forall_updateFiles (fun r hr => hR.withDeletedAt none hr) hupd h
      · exact forall_insertFile (hR.toRow _ _ _) hins h

lemma forall_attempt {op : RowOp} (hop : match op with
      | .setThumb .. | .setPreview .. | .replaceContent .. => False
      | _ => True)
    (hok : Server.attempt db op = .ok db') (h : ∀ r ∈ db.files, R r) : ∀ r ∈ db'.files, R r := by
  cases op with
  | setThumb => exact hop.elim
  | setPreview => exact hop.elim
  | replaceContent => exact hop.elim
  | createFile inObj id => exact forall_insertFile (hR.toRow _ _ _) (createFileRow_ok hok) h
  | createFolder inObj id => exact forall_insertFile (hR.toRow _ _ _) (createFileRow_ok hok) h
  | setAsUploaded fileId =>
    refine forall_updateById (W := R) (fun r hr _ => ?_) (fun _ hr => hr) hok h
      fun r hr => .inl (h r hr)
    exact hR.same r _ rfl (fun kind => by cases kind <;> rfl) hr
  | delete path storageId now markerId order =>
    obtain ⟨db₁, hupd, -, hparent⟩ := delete_inv hok
    have h₁ := forall_updateFiles (fun r hr => hR.withDeletedAt (some now) hr) hupd h
    rcases recreateParent_inv hparent with ⟨rfl, -⟩ | ⟨parent, -, -, hins⟩
    · exact h₁
    · exact forall_insertFile (hR.toRow _ _ _) hins h₁
  | restore path storageId order =>
    rcases restore_inv hok with rfl | hupd
    · exact h
    · exact forall_updateFiles (fun r hr => hR.withDeletedAt none hr) hupd h
  | ensureLiveParentFolders path storageId ids order =>
    cases hok
    exact forall_ensureFolders hR storageId order _ h
  | updatePath oldPath newPath storageId order =>
    exact forall_updateFiles (fun r hr => hR.withPath _ hr) (rewritePaths_inv hok) h
  | updateTrashedPath oldPath newPath storageId order =>
    exact forall_updateFiles (fun r hr => hR.withPath _ hr) (rewritePaths_inv hok) h
  | hardDeleteIds ids order =>
    cases hok
    exact fun r hr => h r ((deleteEach_sub db _).1 r hr)

omit hR

lemma exists_updateById {f : FileRow → FileRow} (hid : ∀ r, (f r).id = r.id) {id : Uuid} {i : Uuid}
    (hok : db.updateById id f = .ok db') (h : ∃ r ∈ db.files, r.id = i) : ∃ r ∈ db'.files, r.id = i := by
  have hupd := updateById_inv hok
  refine updateEach_induct (P := fun _ db => ∃ r ∈ db.files, r.id = i) (fun _ _ _ _ h => h) ?_ hupd h
  intro _ _ _ _ old _ hrep ⟨r, hr, hri⟩
  unfold replaceFile at hrep
  split at hrep
  · cases hrep
  · cases hrep
    refine ⟨_, List.mem_map_of_mem hr, ?_⟩
    split
    · case isTrue heq => rw [hid, ← heq, hri]
    · exact hri

end Db

/-! ## The pictures that rows name -/

section Pictures

variable {shows : String → κ} {content : Uuid → κ} {new : κ} {db db' : Db}

lemma ofPictures_showsContent (shows : String → κ) (content : Uuid → κ) :
    Db.OfPictures (FileRow.ShowsContent shows content) where
  bare r hnone kind id hid := by
    rw [hnone kind] at hid
    cases hid
  same r r' hid hsame h kind id hpicture := by
    rw [hsame kind] at hpicture
    rw [hid]
    exact h kind id hpicture

lemma Statement.contentAfter_of_mem {s : Statement} {f : FileRow} (hf : f ∈ db.files)
    (hs : ∀ fileId expected path incoming retiredId now,
      s = .row (.replaceContent fileId expected path incoming retiredId now) → f.id ≠ fileId) :
    s.contentAfter db content new f.id = content f.id := by
  have hsome : db.fileById f.id ≠ none := fun hnone => by
    exact absurd rfl (of_decide_eq_false (Bool.eq_false_iff.mpr (List.find?_eq_none.mp hnone f hf)))
  have hfresh : ∀ id, ¬(f.id = id ∧ db.fileById id = none) := by
    rintro id ⟨rfl, hnone⟩
    exact hsome hnone
  cases s with
  | row op =>
    cases op with
    | createFile inObj id => exact if_neg (hfresh id)
    | createFolder inObj id => exact if_neg (hfresh id)
    | replaceContent fileId expected path incoming retiredId now =>
      exact (if_neg (hs _ _ _ _ _ _ rfl)).trans (if_neg (hfresh retiredId))
    | _ => rfl
  | insertClonedFile source destPath id => exact if_neg (hfresh id)
  | _ => rfl

lemma showsContent_replaceContent {fileId retiredId : Uuid} {expected : Option ContentHash}
    {path : Path} {incoming : InFile} {now : Instant}
    (hok : db.replaceContent fileId expected path incoming retiredId now = .ok db')
    (h : ∀ f ∈ db.files, f.ShowsContent shows content) :
    ∀ f ∈ db'.files, f.ShowsContent shows ((Statement.row
      (.replaceContent fileId expected path incoming retiredId now)).contentAfter db content new) := by
  set content' := (Statement.row
    (.replaceContent fileId expected path incoming retiredId now)).contentAfter db content new
  obtain ⟨current, hcurrent, hcid, -, -, db₁, hretire, hupd⟩ := Db.replaceContent_inv hok
  have hrows : ∀ f ∈ db.files, f.ShowsContent shows content' ∨ f.id = fileId := by
    intro f hf
    by_cases hid : f.id = fileId
    · exact .inr hid
    · left
      intro kind id hpicture
      have hsame : content' f.id = content f.id :=
        Statement.contentAfter_of_mem hf fun _ _ _ _ _ _ heq => by cases heq; exact hid
      exact (h f hf kind id hpicture).trans hsame.symm
  have hrows₁ : ∀ f ∈ db₁.files, f.ShowsContent shows content' ∨ f.id = fileId := by
    rcases Db.retire_inv hretire with ⟨-, rfl⟩ | ⟨-, db₂, hins, rfl⟩
    · exact hrows
    · have hgoal := fun hnew => Db.forall_insertFile hnew hins hrows
      refine hgoal (.inl fun kind id hpicture => ?_)
      have hfresh := (Db.insertFile_ok hins).1
      have hne : retiredId ≠ fileId := by
        rintro rfl
        exact absurd hcid
          (of_decide_eq_false (Bool.eq_false_iff.mpr (List.find?_eq_none.mp hfresh current hcurrent)))
      have hkept : content' retiredId = content fileId := (if_neg hne).trans (if_pos ⟨rfl, hfresh⟩)
      have hpicture' : id ∈ current.pictureId kind := by
        cases kind <;> exact hpicture
      exact (h current hcurrent kind id hpicture').trans (hcid ▸ hkept.symm)
  refine Db.forall_updateById (W := fun _ => True) (fun r _ _ => ?_) (fun _ _ => trivial) hupd
    (fun _ _ => trivial) hrows₁
  exact (ofPictures_showsContent shows content').bare _ fun kind => by cases kind <;> rfl

lemma showsContent_setPicture {f : FileRow → FileRow} {fileId : Uuid} {id : String}
    (hok : db.updateById fileId f = .ok db') (h : ∀ f ∈ db.files, f.ShowsContent shows content)
    (kind : PictureKind) (hid : ∀ r, (f r).id = r.id) (hset : ∀ r, (f r).pictureId kind = some id)
    (hother : ∀ r kind', kind' ≠ kind → (f r).pictureId kind' = r.pictureId kind') :
    (∀ f ∈ db'.files, f.ShowsContent shows content) ↔
      ((∃ f ∈ db.files, f.id = fileId) → shows id = content fileId) := by
  constructor
  · intro hall hex
    obtain ⟨r, hr, hrid⟩ := Db.exists_updateById hid hok hex
    have hnamed : ∀ r ∈ db'.files, r.id = fileId → r.pictureId kind = some id :=
      Db.forall_updateById (W := fun _ => True) (fun r _ _ _ => hset r) (fun _ _ => trivial) hok
        (fun _ _ => trivial) fun r _ => (em (r.id = fileId)).symm.imp_left fun hne heq => absurd heq hne
    exact hrid ▸ hall r hr kind id (hnamed r hr hrid)
  · intro hshows
    let R := fun r : FileRow =>
      r.ShowsContent shows content ∧ (r.id = fileId → ∃ f ∈ db.files, f.id = fileId)
    have hrows : ∀ r ∈ db'.files, R r := by
      refine Db.forall_updateById (W := R) (fun r hr heq => ?_) (fun _ hr => hr) hok
        (fun r hr => ⟨h r hr, fun heq => ⟨r, hr, heq⟩⟩)
        (fun r hr => .inl ⟨h r hr, fun heq => ⟨r, hr, heq⟩⟩)
      refine ⟨fun kind' i hi => ?_, fun _ => hr.2 heq⟩
      rw [hid]
      by_cases hk : kind' = kind
      · rw [hk, hset] at hi
        cases hi
        exact heq ▸ hshows (hr.2 heq)
      · rw [hother r kind' hk] at hi
        exact hr.1 kind' i hi
    exact fun f hf => (hrows f hf).1

/-- Behind a statement the rows name pictures of what they hold just when it meets its condition. -/
lemma showsContent_iff {s : Statement} {maxVariables : Nat} (hok : s.attempt maxVariables db = .ok db')
    (h : ∀ f ∈ db.files, f.ShowsContent shows content) :
    (∀ f ∈ db'.files, f.ShowsContent shows (s.contentAfter db content new)) ↔
      s.ShowsContent shows content new db := by
  have hrows (hs : ∀ fileId expected path incoming retiredId now,
      s ≠ .row (.replaceContent fileId expected path incoming retiredId now)) :
      ∀ f ∈ db.files, f.ShowsContent shows (s.contentAfter db content new) := by
    intro f hf kind id hid
    have hsame : s.contentAfter db content new f.id = content f.id :=
      Statement.contentAfter_of_mem hf fun _ _ _ _ _ _ heq => absurd heq (hs _ _ _ _ _ _)
    exact (h f hf kind id hid).trans hsame.symm
  have hpictures := ofPictures_showsContent shows (s.contentAfter db content new)
  cases s with
  | row op =>
    have hattempt : Server.attempt db op = .ok db' := hok
    cases op with
    | setThumb fileId id messageId =>
      have hset : db.updateById fileId (fun r =>
        { r with thumbTelegramFileId := some id, thumbTelegramMessageId := some messageId }) = .ok db' := hok
      refine showsContent_setPicture hset h .thumb (fun _ => rfl) (fun _ => rfl) ?_
      intro r kind' hk
      cases kind' with
      | thumb => exact absurd rfl hk
      | preview => rfl
    | setPreview fileId id messageId =>
      have hset : db.updateById fileId (fun r =>
        { r with previewTelegramFileId := some id, previewTelegramMessageId := some messageId }) =
          .ok db' := hok
      refine showsContent_setPicture hset h .preview (fun _ => rfl) (fun _ => rfl) ?_
      intro r kind' hk
      cases kind' with
      | thumb => rfl
      | preview => exact absurd rfl hk
    | replaceContent fileId expected path incoming retiredId now =>
      exact iff_of_true (showsContent_replaceContent hok h) trivial
    | _ =>
      have hkept := hrows fun _ _ _ _ _ _ heq => nomatch heq
      exact iff_of_true (Db.forall_attempt hpictures (by trivial) hattempt hkept) trivial
  | insertClonedFile source destPath id =>
    have hins := Db.insertClonedFile_ok hok
    have hfresh : db.fileById id = none := (Db.insertFile_ok hins).1
    have hnew : (Statement.insertClonedFile source destPath id).contentAfter db content new id = new :=
      if_pos ⟨rfl, hfresh⟩
    have hclone : (Db.clonedRow source destPath id).ShowsContent shows
        ((Statement.insertClonedFile source destPath id).contentAfter db content new) ↔
          ∀ kind, ∀ i ∈ source.pictureId kind, shows i = new := by
      constructor
      · intro hall kind i hi
        exact (hall kind i (by cases kind <;> exact hi)).trans hnew
      · intro hall kind i hi
        exact (hall kind i (by cases kind <;> exact hi)).trans hnew.symm
    constructor
    · intro hall
      exact hclone.mp (hall _ ((Db.mem_insertFile hins).mpr (.inr rfl)))
    · intro hshows
      exact Db.forall_insertFile (hclone.mpr hshows) hins (hrows fun _ _ _ _ _ _ heq => nomatch heq)
  | createChunksBatch chunks =>
    have hfiles : db'.files = db.files := by
      simp only [Statement.attempt, Db.createChunksBatch] at hok
      split at hok
      · cases hok
        rfl
      · split at hok
        · cases hok
        · obtain ⟨rows, rfl⟩ := createChunks_rows chunks hok
          rfl
    exact iff_of_true (hfiles ▸ hrows fun _ _ _ _ _ _ heq => nomatch heq) trivial
  | insertBatch replicas =>
    have hfiles : db'.files = db.files := by
      simp only [Statement.attempt, Db.insertBatch] at hok
      split at hok
      · cases hok
        rfl
      · split at hok
        · cases hok
        · obtain ⟨rows, rfl⟩ := insertReplicas_rows replicas hok
          rfl
    exact iff_of_true (hfiles ▸ hrows fun _ _ _ _ _ _ heq => nomatch heq) trivial

end Pictures

/-! ## The steps -/

namespace Media

variable {w : MediaWorld κ K} {σ τ : Media κ K} {maxVariables : Nat}

lemma mem_see {r : MediaRequest κ} {content : κ} : content ∈ (σ.see r).seen ↔ σ.Seen r content := by
  unfold see Seen
  split
  · case isTrue h => simp [h]
  · case isFalse h => simp [h, or_comm]

@[simp] lemma see_phase (r : MediaRequest κ) : (σ.see r).phase = r.phase := by
  unfold see
  split <;> rfl

@[simp] lemma see_kind (r : MediaRequest κ) : (σ.see r).kind = r.kind := by
  unfold see
  split <;> rfl

@[simp] lemma see_storageId (r : MediaRequest κ) : (σ.see r).storageId = r.storageId := by
  unfold see
  split <;> rfl

@[simp] lemma see_path (r : MediaRequest κ) : (σ.see r).path = r.path := by
  unfold see
  split <;> rfl

lemma genuine_see_iff : ({ τ with requests := τ.requests.map τ.see } : Media κ K).Genuine w ↔
    τ.GenuineBy w τ.Seen := by
  have hfair : ∀ r, Fair w τ.cache (τ.see r) (· ∈ (τ.see r).seen) ↔ Fair w τ.cache r (τ.Seen r) := by
    intro r
    constructor
    · intro ⟨hserved, hreading, hlooking⟩
      simp only [see_phase, see_kind, see_storageId, see_path, mem_see] at hserved hreading hlooking
      exact ⟨hserved, hreading, hlooking⟩
    · intro ⟨hserved, hreading, hlooking⟩
      constructor
      all_goals
        simp only [see_phase, see_kind, see_storageId, see_path, mem_see]
        assumption
  constructor
  · intro ⟨hrequests, hcached, hstored⟩
    exact ⟨fun r hr => (hfair r).mp (hrequests _ (List.mem_map_of_mem hr)), hcached, hstored⟩
  · intro ⟨hrequests, hcached, hstored⟩
    refine ⟨fun r hr => ?_, hcached, hstored⟩
    obtain ⟨q, hq, rfl⟩ := List.mem_map.mp hr
    exact (hfair q).mpr (hrequests q hq)

lemma Fair.mono {cache : PictureKind → K → Option κ} {r : MediaRequest κ} {P Q : κ → Prop}
    (h : Fair w cache r P) (hPQ : ∀ content, P content → Q content) : Fair w cache r Q :=
  ⟨fun c hc => hPQ c (h.served c hc), fun f hf kind id hid => hPQ _ (h.reading f hf kind id hid),
    fun hl c hc => hPQ c (h.looking hl c hc)⟩

lemma Genuine.soon (h : σ.Genuine w) : σ.GenuineBy w σ.Seen :=
  ⟨fun r hr => (h.requests r hr).mono fun _ hc => .inl hc, h.cached, h.stored⟩

variable {number : Nat} {r : MediaRequest κ}

lemma Fair.of_none {cache : PictureKind → K → Option κ} {P : κ → Prop} (hpicture : r.phase.picture? = none)
    (hfile : r.phase.file? = none) (hlooks : ¬r.phase.Looks) : Fair w cache r P :=
  ⟨by simp [hpicture], by simp [hfile], fun hl => absurd hl hlooks⟩

lemma Fair.of_picture {cache : PictureKind → K → Option κ} {P : κ → Prop} {content : κ}
    (hpicture : r.phase.picture? = some content) (hfile : r.phase.file? = none) (hlooks : ¬r.phase.Looks)
    (hseen : P content) : Fair w cache r P := by
  refine ⟨fun c hc => ?_, by simp [hfile], fun hl => absurd hl hlooks⟩
  obtain rfl := Option.some.inj (hpicture.symm.trans hc)
  exact hseen

lemma Fair.of_file {cache : PictureKind → K → Option κ} {P : κ → Prop} {file : FileRow}
    (hpicture : r.phase.picture? = none) (hfile : r.phase.file? = some file)
    (hreading : ∀ kind, ∀ id ∈ file.pictureId kind, P (w.shows id))
    (hlooking : r.phase.Looks → ∀ content ∈ cache r.kind (w.key r.kind r.storageId r.path), P content) :
    Fair w cache r P := by
  refine ⟨by simp [hpicture], fun f hf => ?_, hlooking⟩
  obtain rfl := Option.some.inj (hfile.symm.trans hf)
  exact hreading

lemma GenuineBy.setRequest (h : τ.GenuineBy w τ.Seen) (hr : τ.requests[number]? = some r)
    {f : MediaRequest κ → MediaRequest κ} (hf : Fair w τ.cache (f r) (τ.Seen (f r))) :
    (τ.setRequest number f).GenuineBy w (τ.setRequest number f).Seen := by
  refine ⟨fun q hq => ?_, h.cached, h.stored⟩
  obtain hq | ⟨p, hp, rfl⟩ := mem_modify hq
  · exact h.requests q hq
  · obtain rfl := Option.some.inj (hr.symm.trans hp)
    exact hf

lemma GenuineBy.setPhase (h : τ.GenuineBy w τ.Seen) (hr : τ.requests[number]? = some r)
    {phase : MediaPhase κ} (hpicture : phase.picture? = none) (hfile : phase.file? = none)
    (hlooks : ¬phase.Looks) : (τ.setPhase number phase).GenuineBy w (τ.setPhase number phase).Seen := by
  exact h.setRequest hr (.of_none hpicture hfile hlooks)

lemma GenuineBy.finish (h : τ.GenuineBy w τ.Seen) (hr : τ.requests[number]? = some r) {content : κ}
    (hseen : content ∈ r.seen) :
    (τ.finish number r content).GenuineBy w (τ.finish number r content).Seen := by
  unfold Media.finish
  split
  · exact h.setRequest hr (.of_picture rfl rfl not_false (.inl hseen))
  · exact h.setRequest hr (.of_picture rfl rfl not_false (.inl hseen))

@[simp] lemma invalidate_db (o : Option (Uuid × Path)) : (σ.invalidate w o).db = σ.db := by
  cases o <;> rfl

@[simp] lemma invalidate_content (o : Option (Uuid × Path)) : (σ.invalidate w o).content = σ.content := by
  cases o <;> rfl

@[simp] lemma invalidate_cache (o : Option (Uuid × Path)) : (σ.invalidate w o).cache = σ.cache := by
  cases o <;> rfl

@[simp] lemma invalidate_requests (o : Option (Uuid × Path)) :
    (σ.invalidate w o).requests = σ.requests := by
  cases o <;> rfl

variable [DecidableEq K]

lemma Fits.of_genuine {kind : PictureKind} {key : K} {content : κ} (h : τ.GenuineBy w τ.Seen)
    (hdb : τ.db = σ.db) (hcontent : τ.content = σ.content)
    (hcache : τ.cache = (σ.putPicture kind key content).cache)
    (hrequests : ∀ r ∈ σ.requests, r.phase.Looks → r ∈ τ.requests) : σ.Fits w kind key content := by
  have hlive : ∀ storageId path, τ.liveContent storageId path = σ.liveContent storageId path := by
    intro storageId path
    unfold liveContent
    rw [hdb, hcontent]
  constructor
  · intro storageId path hkey live hlive'
    refine h.cached kind storageId path content ?_ live (hlive storageId path ▸ hlive')
    rw [hcache]
    exact if_pos ⟨rfl, hkey⟩
  · intro r hr hlooks hkind hkey
    have hfair := (h.requests r (hrequests r hr hlooks)).looking hlooks content <| by
      rw [hcache]
      exact if_pos ⟨hkind, hkind ▸ hkey⟩
    unfold Seen at hfair ⊢
    rwa [hlive] at hfair

lemma Fits.genuine {kind : PictureKind} {key : K} {content : κ} (h : σ.GenuineBy w σ.Seen)
    (hfits : σ.Fits w kind key content) :
    (σ.putPicture kind key content).GenuineBy w (σ.putPicture kind key content).Seen := by
  constructor
  · intro r hr
    obtain ⟨hserved, hreading, hlooking⟩ := h.requests r hr
    refine ⟨hserved, hreading, fun hlooks c hc => ?_⟩
    simp only [putPicture] at hc
    split at hc
    · case isTrue heq =>
      obtain rfl := Option.some.inj hc
      exact hfits.looking r hr hlooks heq.1 (heq.1 ▸ heq.2)
    · exact hlooking hlooks c hc
  · intro kind' storageId path c hc live hlive
    simp only [putPicture] at hc
    split at hc
    · case isTrue heq =>
      obtain rfl := Option.some.inj hc
      exact hfits.live storageId path (heq.1 ▸ heq.2) live hlive
    · exact h.cached kind' storageId path c hc live hlive
  · exact h.stored

lemma GenuineBy.removePicture (h : σ.GenuineBy w σ.Seen) (kind : PictureKind) (key : K) :
    (σ.removePicture kind key).GenuineBy w (σ.removePicture kind key).Seen := by
  have hsub : ∀ k i c, (σ.removePicture kind key).cache k i = some c → σ.cache k i = some c := by
    intro k i c hc
    simp only [Media.removePicture] at hc
    split at hc
    · cases hc
    · exact hc
  constructor
  · intro r hr
    obtain ⟨hserved, hreading, hlooking⟩ := h.requests r hr
    exact ⟨hserved, hreading, fun hlooks c hc => hlooking hlooks c (hsub _ _ c hc)⟩
  · exact fun k storageId path c hc => h.cached k storageId path c (hsub _ _ c hc)
  · exact h.stored

/-- A request that stays away from the caches. -/
lemma Genuine.take (h : σ.Genuine w) (hr : σ.requests[number]? = some r) {a : MediaAct}
    (hput : a ≠ .put true) (hassemble : a ≠ .assemble true) :
    (σ.take w number r a).GenuineBy w (σ.take w number r a).Seen := by
  have hfair := h.requests r (List.mem_of_getElem? hr)
  have hsoon := h.soon
  cases a with
  | read =>
    cases hphase : r.phase with
    | arrived =>
      simp only [Media.take, hphase]
      split
      · exact hsoon.setPhase hr rfl rfl not_false
      · cases hlive : σ.db.liveAt r.storageId r.path with
        | none => exact hsoon.setPhase hr rfl rfl not_false
        | some file =>
          dsimp only
          split
          · exact hsoon.setPhase hr rfl rfl not_false
          · have hfile : file ∈ σ.db.files := List.mem_of_find?_eq_some hlive
            have hcontent : σ.liveContent r.storageId r.path = some (σ.content file.id) := by
              unfold liveContent
              rw [hlive]
              rfl
            -- the row it reads is the live one
            refine hsoon.setRequest hr (.of_file rfl rfl ?_ ?_)
            · intro kind id hid
              exact .inr ⟨not_false, (h.stored file hfile kind id hid).symm ▸ hcontent⟩
            · intro _ c hc
              have heq := h.cached r.kind r.storageId r.path c hc _ hcontent
              exact .inr ⟨not_false, heq ▸ hcontent⟩
    | _ => simpa only [Media.take, hphase] using hsoon
  | look =>
    cases hphase : r.phase with
    | read file =>
      simp only [Media.take, hphase]
      cases hcache : σ.cache r.kind (w.key r.kind r.storageId r.path) with
      | some c =>
        exact hsoon.finish hr (hfair.looking (by rw [hphase]; trivial) c hcache)
      | none =>
        refine hsoon.setRequest hr (.of_file rfl rfl ?_ ?_)
        · exact fun kind id hid => .inl (hfair.reading file (by rw [hphase]; rfl) kind id hid)
        · intro _ c hc
          exact absurd (hcache.symm.trans hc) (Option.some_ne_none c).symm
    | admitted file =>
      simp only [Media.take, hphase]
      cases hcache : σ.cache r.kind (w.key r.kind r.storageId r.path) with
      | some c =>
        exact hsoon.finish hr (hfair.looking (by rw [hphase]; trivial) c hcache)
      | none =>
        refine hsoon.setRequest hr (.of_file rfl rfl ?_ fun hl => absurd hl not_false)
        exact fun kind id hid => .inl (hfair.reading file (by rw [hphase]; rfl) kind id hid)
    | _ => simpa only [Media.take, hphase] using hsoon
  | download ok busy =>
    cases hphase : r.phase with
    | missed file =>
      simp only [Media.take, hphase]
      have hreading : ∀ kind, ∀ id ∈ file.pictureId kind, w.shows id ∈ r.seen :=
        hfair.reading file (by rw [hphase]; rfl)
      have hassembling : (σ.setPhase number (.assembling file)).GenuineBy w
          (σ.setPhase number (.assembling file)).Seen := by
        refine hsoon.setRequest hr (.of_file rfl rfl ?_ fun hl => absurd hl not_false)
        exact fun kind id hid => .inl (hreading kind id hid)
      cases hpicture : file.pictureId r.kind with
      | some telegramFileId =>
        dsimp only
        split
        · refine hsoon.setRequest hr (.of_picture rfl rfl not_false ?_)
          exact .inl (hreading r.kind telegramFileId hpicture)
        · split
          · exact hsoon.setPhase hr rfl rfl not_false
          · exact hassembling
      | none =>
        dsimp only
        split
        · exact hassembling
        · exact hsoon
    | _ => simpa only [Media.take, hphase] using hsoon
  | derive =>
    cases hphase : r.phase with
    | missed file =>
      simp only [Media.take, hphase]
      split
      · exact hsoon.setRequest hr (.of_none rfl rfl not_false)
      · exact hsoon
    | _ => simpa only [Media.take, hphase] using hsoon
  | assemble ok =>
    cases ok with
    | true => exact absurd rfl hassemble
    | false =>
      cases hphase : r.phase with
      | assembling file =>
        simp only [Media.take, hphase]
        exact hsoon.setPhase hr rfl rfl not_false
      | _ => simpa only [Media.take, hphase] using hsoon
  | put ok =>
    cases ok with
    | true => exact absurd rfl hput
    | false =>
      cases hphase : r.phase with
      | made content =>
        simp only [Media.take, hphase]
        exact hsoon.finish hr (hfair.served content (by rw [hphase]; rfl))
      | _ => simpa only [Media.take, hphase] using hsoon

omit [DecidableEq K] in
lemma Genuine.rows_iff (h : σ.Genuine w) (s : Statement) (content : κ) (displaced : Option (Uuid × Path)) :
    (σ.rows w maxVariables s content displaced).GenuineBy w
        (σ.rows w maxVariables s content displaced).Seen ↔
      σ.Careful w maxVariables (.rows s content displaced) := by
  cases hok : s.attempt maxVariables σ.db with
  | error _ =>
    have hrows : σ.rows w maxVariables s content displaced = σ := by
      unfold Media.rows
      rw [hok]
    rw [hrows]
    exact iff_of_true h.soon fun db hdb => absurd (hok.symm.trans hdb) nofun
  | ok db =>
    have hrows : σ.rows w maxVariables s content displaced =
        { σ with db := db, content := s.contentAfter σ.db σ.content content }.invalidate w
          (s.invalidates σ.db displaced) := by
      unfold Media.rows
      rw [hok]
    constructor
    · intro hgenuine db' hdb'
      refine ⟨fun kind storageId path old hold live hlive _ => ?_, ?_⟩
      · refine hgenuine.cached kind storageId path old ?_ live hlive
        rw [hrows, invalidate_cache]
        exact hold
      · obtain rfl : db = db' := Except.ok.inj (hok.symm.trans hdb')
        have hstored := hgenuine.stored
        rw [hrows, invalidate_db, invalidate_content] at hstored
        exact (showsContent_iff hok h.stored).mp hstored
    · intro hcareful
      obtain ⟨hcached, hshows⟩ := hcareful db hok
      constructor
      · intro r hr
        have hcache : (σ.rows w maxVariables s content displaced).cache = σ.cache := by
          rw [hrows, invalidate_cache]
        rw [hrows, invalidate_requests] at hr
        rw [hcache]
        exact (h.requests r hr).mono fun _ hc => .inl hc
      · intro kind storageId path old hold live hlive
        rw [hrows, invalidate_cache] at hold
        by_cases hsame : σ.liveContent storageId path = some live
        · exact h.cached kind storageId path old hold live hsame
        · exact hcached kind storageId path old hold live hlive hsame
      · rw [hrows, invalidate_db, invalidate_content]
        exact (showsContent_iff hok h.stored).mpr hshows

lemma Genuine.put_iff (h : σ.Genuine w) (hr : σ.requests[number]? = some r) :
    (σ.take w number r (.put true)).GenuineBy w (σ.take w number r (.put true)).Seen ↔
      ∀ content, r.phase = .made content → σ.Fits w r.kind (w.key r.kind r.storageId r.path) content := by
  cases hphase : r.phase with
  | made content =>
    have htake : σ.take w number r (.put true) =
        (σ.putPicture r.kind (w.key r.kind r.storageId r.path) content).finish number r content := by
      simp only [Media.take, hphase, if_true]
    rw [htake]
    constructor
    · intro hgenuine content' heq
      obtain rfl := MediaPhase.made.inj heq
      have hothers : ∀ q ∈ σ.requests, q.phase.Looks → ∀ f, q ∈ σ.requests.modify number f := by
        intro q hq hlooks f
        obtain ⟨i, hi⟩ := List.mem_iff_getElem?.mp hq
        -- the request that puts does not look
        have hne : number ≠ i := by
          rintro rfl
          obtain rfl := Option.some.inj (hr.symm.trans hi)
          rw [hphase] at hlooks
          exact hlooks
        refine List.mem_iff_getElem?.mpr ⟨i, ?_⟩
        rw [List.getElem?_modify, hi]
        show some (if number = i then f q else q) = some q
        rw [if_neg hne]
      unfold Media.finish at hgenuine
      split at hgenuine
      · exact .of_genuine hgenuine rfl rfl rfl fun q hq hlooks => hothers q hq hlooks _
      · exact .of_genuine hgenuine rfl rfl rfl fun q hq hlooks => hothers q hq hlooks _
    · intro hfits
      have hseen : content ∈ r.seen :=
        (h.requests r (List.mem_of_getElem? hr)).served content (by rw [hphase]; rfl)
      exact ((hfits content rfl).genuine h.soon).finish hr hseen
  | _ =>
    have hsame : σ.take w number r (.put true) = σ := by simp only [Media.take, hphase]
    rw [hsame]
    exact iff_of_true h.soon fun _ heq => absurd heq (by simp)

lemma Genuine.assemble_iff (h : σ.Genuine w) (hr : σ.requests[number]? = some r) :
    (σ.take w number r (.assemble true)).GenuineBy w (σ.take w number r (.assemble true)).Seen ↔
      ∀ file, r.phase = .assembling file → isPreviewImage r.path = true → σ.Seen r (σ.content file.id) := by
  cases hphase : r.phase with
  | assembling file =>
    by_cases himage : isPreviewImage r.path = true
    · have htake : σ.take w number r (.assemble true) = σ.setPhase number (.made (σ.content file.id)) := by
        simp only [Media.take, hphase, himage, and_self, if_true]
      rw [htake]
      constructor
      · intro hgenuine file' heq _
        obtain rfl := MediaPhase.assembling.inj heq
        have hmem : ({ r with phase := .made (σ.content file.id) } : MediaRequest κ) ∈
            (σ.setPhase number (.made (σ.content file.id))).requests := by
          refine List.mem_iff_getElem?.mpr ⟨number, ?_⟩
          simp only [Media.setPhase, Media.setRequest, List.getElem?_modify, hr]
          rfl
        have hseen := (hgenuine.requests _ hmem).served (σ.content file.id) rfl
        exact hseen.imp_right fun hlive => ⟨by rw [hphase]; exact not_false, hlive.2⟩
      · intro hseen
        refine h.soon.setRequest hr (.of_picture rfl rfl not_false ?_)
        exact (hseen file rfl himage).imp_right fun hlive => ⟨not_false, hlive.2⟩
    · have htake : σ.take w number r (.assemble true) = σ.setPhase number (.answered none) := by
        simp only [Media.take, hphase, himage, Bool.false_eq_true, and_false, if_false]
      rw [htake]
      exact iff_of_true (h.soon.setPhase hr rfl rfl not_false) fun _ _ hin => absurd hin himage
  | _ =>
    have hsame : σ.take w number r (.assemble true) = σ := by simp only [Media.take, hphase]
    rw [hsame]
    exact iff_of_true h.soon fun _ heq => absurd heq (by simp)

lemma Genuine.step_iff (h : σ.Genuine w) (a : MediaStep κ K) :
    (σ.step w maxVariables a).Genuine w ↔ σ.Careful w maxVariables a := by
  refine Iff.trans genuine_see_iff ?_
  cases a with
  | rows s content displaced => exact h.rows_iff s content displaced
  | remove task =>
    simp only [happen]
    refine iff_of_true ?_ trivial
    cases σ.removals[task]? with
    | none => exact h.soon
    | some entries =>
      cases entries with
      | nil => exact h.soon
      | cons entry rest =>
        obtain ⟨hrequests, hcached, hstored⟩ := h.soon.removePicture entry.1 entry.2
        exact ⟨hrequests, hcached, hstored⟩
  | evict kind key => exact iff_of_true (h.soon.removePicture kind key) trivial
  | warm storageId path content =>
    refine ⟨fun hgenuine => ?_, fun hfits => hfits.genuine h.soon⟩
    exact .of_genuine hgenuine rfl rfl rfl fun _ hr _ => hr
  | arrive kind storageId path =>
    refine iff_of_true ⟨fun r hr => ?_, h.cached, h.stored⟩ trivial
    obtain hr | rfl := List.mem_append.mp hr |>.imp_right List.mem_singleton.mp
    · exact h.soon.requests r hr
    · exact .of_none rfl rfl not_false
  | act number a =>
    simp only [happen]
    cases hr : σ.requests[number]? with
    | none =>
      refine iff_of_true h.soon ?_
      cases a with
      | put ok => cases ok <;> simp [Careful, hr]
      | assemble ok => cases ok <;> simp [Careful, hr]
      | _ => trivial
    | some r =>
      have hone : ∀ P : MediaRequest κ → Prop, (∀ q ∈ σ.requests[number]?, P q) ↔ P r := by
        intro P
        rw [hr]
        exact ⟨fun hall => hall r rfl, fun hP q hq => Option.some.inj hq ▸ hP⟩
      cases a with
      | put ok =>
        cases ok with
        | true =>
          exact (h.put_iff hr).trans (hone fun r => ∀ content, r.phase = .made content →
            σ.Fits w r.kind (w.key r.kind r.storageId r.path) content).symm
        | false => exact iff_of_true (h.take hr nofun nofun) trivial
      | assemble ok =>
        cases ok with
        | true =>
          exact (h.assemble_iff hr).trans (hone fun r => ∀ file, r.phase = .assembling file →
            isPreviewImage r.path = true → σ.Seen r (σ.content file.id)).symm
        | false => exact iff_of_true (h.take hr nofun nofun) trivial
      | _ => exact iff_of_true (h.take hr nofun nofun) trivial
  | restart => exact iff_of_true ⟨fun _ hr => absurd hr List.not_mem_nil, h.cached, h.stored⟩ trivial

/-- A server with storages and channels, and no files. -/
def fresh (db : Db) (content : Uuid → κ) : Media κ K where
  db := { db with files := [] }
  content := content
  cache _ _ := none
  removals := []
  requests := []

/-- In a run every served picture shows what was live at its path during the request, and so does every one that
    may be served next, just when every step of the run is careful. -/
theorem genuine_iff_careful (w : MediaWorld κ K) (maxVariables : Nat) (db : Db) (content : Uuid → κ)
    (steps : List (MediaStep κ K)) :
    Always (fun σ a => σ.step w maxVariables a) (fun σ => σ.Genuine w) (fresh db content) steps ↔
      AllOk (fun σ a => σ.step w maxVariables a) (fun σ a => σ.Careful w maxVariables a) (fresh db content)
        steps := by
  refine always_iff_allOk (I := fun _ => True) (fun _ _ _ _ => trivial) (fun σ a _ h => h.step_iff a) trivial ?_
  exact ⟨fun _ hr => absurd hr List.not_mem_nil, nofun, fun _ hf => absurd hf List.not_mem_nil⟩

/-! ### A picture that outlives a rename -/

/-- A cache that knows every path from every other. -/
def plainKeys : MediaWorld Nat (PictureKind × Uuid × Path) where
  key kind storageId path := (kind, storageId, path)
  shows _ := 0

def noFiles : Media Nat (PictureKind × Uuid × Path) :=
  fresh (Db.fresh [⟨1, 1⟩]) fun _ => 0

/-- An upload to `a.jpg`. -/
def uploadPicture (id : Uuid) (content : Nat) : MediaStep Nat (PictureKind × Uuid × Path) :=
  .rows (.row (.createFile ⟨"a.jpg".toList, 1, 1, none, none, none, none⟩ id)) content none

/-- A preview of `a.jpg` is made, the file is renamed, and another one is uploaded in its place. -/
def renamePreviewed : List (MediaStep Nat (PictureKind × Uuid × Path)) :=
  [uploadPicture 10 1, .arrive .preview 1 "a.jpg".toList, .act 0 .read, .act 0 .look, .act 0 .look,
    .act 0 (.download true false), .act 0 (.assemble true), .act 0 (.put true),
    .rows (.row (.updatePath "a.jpg".toList "b.jpg".toList 1 [])) 0 none, uploadPicture 11 2]

def previewAgain : List (MediaStep Nat (PictureKind × Uuid × Path)) :=
  [.arrive .preview 1 "a.jpg".toList, .act 1 .read, .act 1 .look]

/-- They get the one of the file that was renamed. -/
theorem renamePreviewed_stale :
    (∃ r ∈ (run (fun σ a => σ.step plainKeys 1000 a) noFiles (renamePreviewed ++ previewAgain)).requests,
      r.phase = .answered (some 1) ∧ r.seen = [2, 2]) ∧
    ¬Always (fun σ a => σ.step plainKeys 1000 a) (fun σ => σ.Genuine plainKeys) noFiles
      (renamePreviewed ++ previewAgain) := by
  have hserved : ∃ r ∈ (run (fun σ a => σ.step plainKeys 1000 a) noFiles
      (renamePreviewed ++ previewAgain)).requests, r.phase = .answered (some 1) ∧ r.seen = [2, 2] := by
    decide +kernel
  refine ⟨hserved, fun h => ?_⟩
  obtain ⟨r, hr, hphase, hseen⟩ := hserved
  have hin : 1 ∈ r.seen := (h.last.requests r hr).served 1 (by rw [hphase]; rfl)
  rw [hseen] at hin
  exact absurd hin (by decide)

end Media

end Sarca.Server
