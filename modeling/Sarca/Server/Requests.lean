import Sarca.Server.Ancestors
import Sarca.Server.RequestPaths
import Sarca.Server.ShareLinks

/-!
# Requests for a stored path

`Endpoint.target` is what an endpoint works on when the client asks it for a path; `info` and `delete_forever`
decode what the router gives them once more. The endpoints of a share do so too, trim the path, and put it
behind the shared folder (`ShareEndpoint.target`). A folder has its path with the slash, except that `tree` is
asked without.

`requests_reach_iff` says for which paths that is the entry itself.
-/

namespace Sarca.Server
open Sarca.Lib

/-- What an endpoint works on: a file, or a folder by its path with the slash. -/
inductive Target where
  | file (path : Path)
  | folder (path : Path)
deriving DecidableEq, Repr

def Target.ofPath (path : Path) : Target :=
  if isFolderPath path then .folder path else .file path

def Target.Holds (r : FileRow) : Target → Prop
  | .file path => r.path = path
  | .folder path => path <+: r.path

/-! ## The services -/

namespace Db

/-- What `FilesService::info` describes. -/
def infoTarget (db : Db) (storageId : Uuid) (path : Path) : Except SarcaError Target :=
  let path := path.dropWhile (· = '/')
  if holdsPattern ['/', '/'] path ∨ holdsPattern ['.', '.'] path then .error .invalidPath
  else if path ≠ [] ∧ ¬isFolderPath path ∧ db.livePathExists storageId path then .ok (.file path)
  else if path = [] ∨ isFolderPath path then .ok (.folder path)
  else .ok (.folder (path ++ ['/']))

/-- The folder that `download_folder` packs; its limit on the size is left out. -/
def downloadFolder (db : Db) (storageId : Uuid) (path : Path) : Except SarcaError Target :=
  let trimmed := trimEndSlashes path
  if trimmed = [] ∨ holdsPattern ['/', '/'] trimmed ∨ trimmed.head? = some '/' then .error .invalidPath
  else if ¬db.livePathExists storageId (trimmed ++ ['/']) ∧
      db.listUploadedFilesUnder storageId (trimmed ++ ['/']) = [] then .error (.doesNotExist "folder")
  else .ok (.folder (trimmed ++ ['/']))

/-- What `download` sends. -/
def downloadTarget (db : Db) (storageId : Uuid) (path : Path) : Except SarcaError Target :=
  if path.head? = some '/' ∨ holdsPattern ['/', '/'] path then .error .invalidPath
  else if isFolderPath path then db.downloadFolder storageId path
  else if db.livePathExists storageId path then .ok (.file path)
  else db.downloadFolder storageId (path ++ ['/'])

/-- The row of which `thumb_for_path` and `preview_for_path` send a picture. -/
def pictureTarget (db : Db) (storageId : Uuid) (path : Path) : Except SarcaError Target :=
  if path.head? = some '/' ∨ holdsPattern ['/', '/'] path then .error .invalidPath
  else if db.livePathExists storageId path then .ok (.file path)
  else .error (.doesNotExist "file")

/-- What `FilesService::delete` puts into the trash. -/
def deleteTarget (db : Db) (storageId : Uuid) (path : Path) : Except SarcaError Target :=
  if ¬validatePath path then .error .invalidPath
  else if db.idsWhere (atOrUnder storageId path (db.folderPrefix storageId path fun r => r.Live)
      fun r => r.Live) = [] then .error (.doesNotExist "file")
  else .ok (.ofPath (db.deletedTarget storageId path))

def trashedTarget (db : Db) (storageId : Uuid) (path : Path) : Path :=
  let folder := db.folderPrefix storageId path fun r => ¬r.Live
  if folder = [] then path else folder

/-- What `TrashService::delete_forever` purges. -/
def deleteForeverTarget (db : Db) (storageId : Uuid) (path : Path) : Except SarcaError Target :=
  let path := normalizeTrashPath path
  if db.listTrashedIds storageId path = [] then .error (.doesNotExist "file")
  else .ok (.ofPath (db.trashedTarget storageId path))

end Db

/-! ## The endpoints of a storage -/

inductive Endpoint where
  | info
  | tree
  | download
  | thumb
  | preview
  | delete
  | deleteForever
deriving DecidableEq, Repr

/-- The routes beside `/{*path}` under `/files`, which take `POST` alone. -/
def filesRoutes : List Path :=
  ["create_folder".toList, "upload".toList, "rename".toList, "move".toList, "copy".toList]

/-- The same under `/trash`. -/
def trashRoutes : List Path :=
  ["restore".toList]

/-- What the client's request for a path works on; `none` when it is refused. -/
def Endpoint.target (db : Db) (storageId : Uuid) : Endpoint → Path → Option Target
  | .info, path => (routePath path).bind fun p => (db.infoTarget storageId (percentDecode p)).toOption
  | .tree, path => (routePath (trimSlash path)).map fun p => .folder (dirPrefix p)
  | .download, path => (routePath path).bind fun p => (db.downloadTarget storageId p).toOption
  | .thumb, path | .preview, path => (routePath path).bind fun p => (db.pictureTarget storageId p).toOption
  | .delete, path => (wildcard filesRoutes path).bind fun p => (db.deleteTarget storageId p).toOption
  | .deleteForever, path =>
    (wildcard trashRoutes path).bind fun p => (db.deleteForeverTarget storageId (percentDecode p)).toOption

/-! ## The endpoints of a share -/

/-- Rust `path_has_dot_dot`. -/
def pathHasDotDot (path : Path) : Bool :=
  (path.splitOn '/').any (· = ['.', '.'])

/-- Rust `resolve_under_share`. -/
def resolveUnderShare (shareRoot relative : Path) (allowDir : Bool) : Except SarcaError Path :=
  if ¬isFolderPath shareRoot then .error .invalidPath
  else
    let rel := (trim relative).dropWhile (· = '/')
    if holdsPattern ['/', '/'] rel ∨ pathHasDotDot rel ∨ rel.head? = some '/' then .error .invalidPath
    else if rel = [] then .ok shareRoot
    else if ¬shareRoot.isPrefixOf (shareRoot ++ rel) then .error .invalidPath
    else if ¬allowDir ∧ isFolderPath (shareRoot ++ rel) then .error .invalidPath
    else .ok (shareRoot ++ rel)

/-- Rust `resolve_file_path`. -/
def resolveFilePath (link : ShareLink) (relative : Path) : Except SarcaError Path :=
  if isFolderPath link.path then
    match resolveUnderShare link.path relative false with
    | .ok abs => if isFolderPath abs then .error .invalidPath else .ok abs
    | .error e => .error e
  else
    let rel := relative.dropWhile (· = '/')
    if rel = [] ∨ rel = (link.path.splitOn '/').getLastD [] ∨ rel = link.path then .ok link.path
    else .error (.doesNotExist "file")

inductive ShareEndpoint where
  | download
  | inline
  | thumb
  | preview
  | tree
deriving DecidableEq, Repr

/-- What an endpoint of a share sends for the path it gets. -/
def ShareEndpoint.answers (db : Db) (link : ShareLink) : ShareEndpoint → Path → Except SarcaError Target
  | .download, relative | .inline, relative =>
    match resolveFilePath link relative with
    | .ok abs => if db.livePathExists link.storageId abs then .ok (.file abs) else .error (.doesNotExist "file")
    | .error e => .error e
  | .thumb, relative | .preview, relative =>
    match resolveFilePath link relative with
    | .ok abs => db.pictureTarget link.storageId abs
    | .error e => .error e
  | .tree, relative =>
    match resolveUnderShare link.path relative true with
    | .ok abs => .ok (.folder (dirPrefix (trimEndSlashes abs)))
    | .error e => .error e

/-- The path that a file's endpoint of a share gets; without one there is a route of its own. -/
def sharePath (relative : Path) : Option Path :=
  if encodeFilePath relative = [] then some []
  else (wildcard [] relative).map percentDecode

/-- What the client's request for a path under a share works on; `tree` has it as a query parameter. -/
def ShareEndpoint.target (db : Db) (link : ShareLink) : ShareEndpoint → Path → Option Target
  | .tree, relative => (ShareEndpoint.tree.answers db link relative).toOption
  | e, relative => (sharePath relative).bind fun p => (e.answers db link p).toOption

/-- An entry of a listing with its path under the share. -/
def shareElement (root : Path) (e : FSElement) : Option FSElement :=
  if root.isPrefixOf e.path then
    let rel := e.path.drop root.length
    if e.isFile then some { e with path := rel }
    else
      let path := if isFolderPath rel then rel else rel ++ ['/']
      some { e with path := path, name := lastName path, isFile := false }
  else none

/-- The listing is one that `tree` of a share may answer. -/
def ShareTree (db : Db) (link : ShareLink) (relative : Path) (listing : List FSElement) : Prop :=
  ∃ abs elements, resolveUnderShare link.path relative true = .ok abs ∧
    db.ListDir link.storageId (trimEndSlashes abs) elements ∧
    listing = elements.filterMap (shareElement link.path)

/-! ## What the services make of a path -/

variable {path p q : Path}


/-- The target is the entry of the path, or the folder of its name. -/
def Target.Of (path : Path) (t : Target) : Prop :=
  t = .ofPath path ∨ isFolderPath path = false ∧ t = .folder (path ++ ['/'])

lemma Target.ofPath_injective (h : Target.ofPath p = .ofPath q) : p = q := by
  unfold Target.ofPath at h
  split at h <;> split at h <;> cases h <;> rfl

lemma Target.Of.eq (h : (Target.ofPath path).Of q)
    (hfolder : isFolderPath path = true → q = [] ∨ isFolderPath q = true) (hroot : path ≠ ['/']) :
    q = path := by
  rcases h with h | ⟨hfile, h⟩
  · exact (Target.ofPath_injective h).symm
  · unfold Target.ofPath at h
    split at h
    · case isTrue hpath =>
      cases h
      rcases hfolder isFolderPath_concat with rfl | hq
      · exact absurd rfl hroot
      · rw [hfile] at hq
        cases hq
    · cases h

variable {db : Db} {storageId : Uuid} {t : Target}

lemma Target.of_self (path : Path) : (Target.ofPath path).Of path :=
  Or.inl rfl

lemma infoTarget_of (h : db.infoTarget storageId p = .ok t) :
    t.Of (p.dropWhile (· = '/')) ∨ t = .folder [] := by
  unfold Db.infoTarget at h
  dsimp only at h
  split at h
  · cases h
  · split at h
    · case isTrue hfile =>
      cases h
      refine Or.inl (Or.inl ?_)
      rw [Target.ofPath, if_neg hfile.2.1]
    · split at h
      · case isTrue hfolder =>
        cases h
        rcases hfolder with hnil | hfolder
        · exact Or.inr (by rw [hnil])
        · refine Or.inl (Or.inl ?_)
          rw [Target.ofPath, if_pos hfolder]
      · case isFalse hno =>
        cases h
        rw [not_or, Bool.not_eq_true] at hno
        exact Or.inl (Or.inr ⟨hno.2, rfl⟩)

lemma downloadFolder_ok (h : db.downloadFolder storageId p = .ok t) :
    trimEndSlashes p ≠ [] ∧ t = .folder (trimEndSlashes p ++ ['/']) := by
  unfold Db.downloadFolder at h
  dsimp only at h
  split at h
  · cases h
  · case isFalse hvalid =>
    split at h
    · cases h
    · cases h
      exact ⟨fun hnil => hvalid (Or.inl hnil), rfl⟩

lemma downloadTarget_of (h : db.downloadTarget storageId p = .ok t) : t.Of p ∧ t ≠ .folder ['/'] := by
  unfold Db.downloadTarget at h
  split at h
  · cases h
  · case isFalse hvalid =>
    have hfolderOf {path : Path} (h : db.downloadFolder storageId path = .ok t) : t ≠ .folder ['/'] := by
      obtain ⟨hne, rfl⟩ := downloadFolder_ok h
      intro heq
      have hlen := congrArg List.length (Target.folder.inj heq)
      rw [List.length_append] at hlen
      exact hne (List.length_eq_zero_iff.mp (by simpa using hlen))
    split at h
    · case isTrue hfolder =>
      refine ⟨Or.inl ?_, hfolderOf h⟩
      obtain ⟨hne, rfl⟩ := downloadFolder_ok h
      rw [not_or, Bool.not_eq_true, ← Bool.not_eq_true, holdsPattern_iff] at hvalid
      rw [Target.ofPath, if_pos hfolder, trimEndSlashes_folder hfolder]
      · exact fun hsuffix => hvalid.2 hsuffix.isInfix
      · rintro rfl
        exact hne rfl
    · case isFalse hfile =>
      rw [Bool.not_eq_true] at hfile
      split at h
      · cases h
        refine ⟨Or.inl ?_, fun heq => by cases heq⟩
        rw [Target.ofPath, hfile]
        rfl
      · refine ⟨Or.inr ⟨hfile, ?_⟩, hfolderOf h⟩
        rw [(downloadFolder_ok h).2, trimEndSlashes_concat, trimEndSlashes_file hfile]

lemma pictureTarget_ok (h : db.pictureTarget storageId p = .ok t) :
    t = .file p ∧ p.head? ≠ some '/' ∧ ¬['/', '/'] <:+: p := by
  unfold Db.pictureTarget at h
  split at h
  · cases h
  · case isFalse hvalid =>
    rw [not_or, holdsPattern_iff] at hvalid
    split at h
    · cases h
      exact ⟨rfl, hvalid⟩
    · cases h

lemma target_of_folderPrefix (db : Db) (storageId : Uuid) (p : Path) (choose : FileRow → Bool) :
    (Target.ofPath (if db.folderPrefix storageId p choose = [] then p
      else db.folderPrefix storageId p choose)).Of p := by
  split
  · exact Or.inl rfl
  · case isFalse hne =>
    unfold Db.folderPrefix at hne ⊢
    split at hne
    · case isTrue hfolder =>
      rw [if_pos hfolder]
      exact Or.inl rfl
    · case isFalse hfile =>
      split at hne
      · case isTrue hany =>
        rw [if_neg hfile, if_pos hany]
        refine Or.inr ⟨Bool.not_eq_true _ ▸ hfile, ?_⟩
        rw [Target.ofPath, if_pos isFolderPath_concat]
      · exact absurd rfl hne

lemma deleteTarget_ok (h : db.deleteTarget storageId p = .ok t) :
    t = .ofPath (db.deletedTarget storageId p) := by
  unfold Db.deleteTarget at h
  split at h
  · cases h
  · split at h
    · cases h
    · cases h
      rfl

lemma deleteForeverTarget_ok (h : db.deleteForeverTarget storageId p = .ok t) :
    t = .ofPath (db.trashedTarget storageId (normalizeTrashPath p)) := by
  unfold Db.deleteForeverTarget at h
  dsimp only at h
  split at h
  · cases h
  · cases h
    rfl

/-! ## Entries and their requests -/

namespace Db

/-- A live row, or a trashed one, is the file or is in the folder. -/
def HasEntry (db : Db) (storageId : Uuid) (live : Bool) (path : Path) : Prop :=
  ∃ r ∈ db.files, r.storageId = storageId ∧ (r.Live ↔ live = true) ∧
    if isFolderPath path then startsWith r.path path = true else r.path = path

instance (db : Db) (storageId : Uuid) (live : Bool) (path : Path) :
    Decidable (db.HasEntry storageId live path) :=
  inferInstanceAs (Decidable (∃ r ∈ db.files, _ ∧ _ ∧ _))

/-- The path is a folder's, or no folder of that name holds such a row. -/
def Alone (db : Db) (storageId : Uuid) (live : Bool) (path : Path) : Prop :=
  isFolderPath path = true ∨ ¬db.HasEntry storageId live (path ++ ['/'])

instance (db : Db) (storageId : Uuid) (live : Bool) (path : Path) : Decidable (db.Alone storageId live path) :=
  inferInstanceAs (Decidable (_ ∨ ¬_))

end Db

/-- The entries that the client asks the endpoint for. -/
def Endpoint.Offers (db : Db) (storageId : Uuid) : Endpoint → Path → Prop
  | .info, path | .download, path | .delete, path => db.HasEntry storageId true path
  | .tree, path => isFolderPath path = true ∧ db.HasEntry storageId true path
  | .thumb, path | .preview, path => isFolderPath path = false ∧ db.HasEntry storageId true path
  | .deleteForever, path => db.HasEntry storageId false path

def Endpoint.Reaches (db : Db) (storageId : Uuid) : Endpoint → Path → Prop
  | .info, path => path ≠ [] ∧ Carried path ∧ NoEscape path ∧ ¬['.', '.'] <:+: path
  | .tree, path => trimSlash path ≠ [] ∧ Carried (trimSlash path)
  | .download, path => Carried path ∧ (isFolderPath path = true →
      db.livePathExists storageId path = true ∨ db.listUploadedFilesUnder storageId path ≠ [])
  | .thumb, path | .preview, path => Carried path
  | .delete, path => path ≠ [] ∧ Carried path ∧ path ∉ filesRoutes ∧ db.Alone storageId true path
  | .deleteForever, path =>
    path ≠ [] ∧ Carried path ∧ NoEscape path ∧ path ∉ trashRoutes ∧ db.Alone storageId false path

/-- The files and folders under a shared folder that the client asks the endpoint for. -/
def ShareEndpoint.Offers (db : Db) (link : ShareLink) : ShareEndpoint → Path → Prop
  | .tree, relative => isFolderPath (link.path ++ relative) = true
  | _, relative => isFolderPath (link.path ++ relative) = false ∧
      db.livePathExists link.storageId (link.path ++ relative) = true

/-- The request for a path under a shared folder reaches it. -/
def ShareEndpoint.Reaches (link : ShareLink) : ShareEndpoint → Path → Prop
  | .download, relative | .inline, relative => Carried relative ∧ NoEscape relative ∧ trim relative = relative
  | .thumb, relative | .preview, relative =>
    Carried relative ∧ NoEscape relative ∧ trim relative = relative ∧
      (link.path ++ relative).head? ≠ some '/' ∧ ¬['/', '/'] <:+: link.path ++ relative
  | .tree, relative =>
    trim relative = relative ∧ relative.head? ≠ some '/' ∧ ¬['/', '/'] <:+: relative ∧
      ['.', '.'] ∉ relative.splitOn '/' ∧ ¬['/', '/'] <:+ link.path ++ relative ∧ link.path ++ relative ≠ ['/']

/-! ## Each endpoint -/

lemma bind_service {route : Option Path} {service : Path → Except SarcaError Target} :
    (route.bind fun p => (service p).toOption) = some t ↔ ∃ p, route = some p ∧ service p = .ok t := by
  rw [Option.bind_eq_some_iff]
  refine exists_congr fun p => and_congr_right fun _ => ?_
  cases service p <;> simp [Except.toOption]

lemma Target.ofPath_file (h : isFolderPath path = false) : Target.ofPath path = .file path := by
  rw [Target.ofPath, h]
  rfl

lemma Target.ofPath_folder (h : isFolderPath path = true) : Target.ofPath path = .folder path := by
  rw [Target.ofPath, if_pos h]

lemma Db.HasEntry.live (h : db.HasEntry storageId true path) (hfile : isFolderPath path = false) :
    db.livePathExists storageId path = true := by
  obtain ⟨r, hr, hs, hl, hat⟩ := h
  rw [hfile, if_neg Bool.false_ne_true] at hat
  exact hat ▸ livePathExists_of_mem hr (hl.mpr rfl) hs

lemma info_iff (h : db.HasEntry storageId true path) :
    Endpoint.info.target db storageId path = some (.ofPath path) ↔ Endpoint.info.Reaches db storageId path := by
  rw [Endpoint.target, bind_service]
  constructor
  · rintro ⟨p, hp, hok⟩
    have hroot : path ≠ ['/'] := by
      rintro rfl
      obtain rfl : [] = p := Option.some.inj hp
      cases hok
    have hq : (percentDecode p).dropWhile (· = '/') = path := by
      rcases infoTarget_of hok with hof | hnil
      · exact hof.eq (fun hfolder => dropWhile_decode_folder hfolder hp) hroot
      · unfold Target.ofPath at hnil
        split at hnil
        · case isTrue hfolder =>
          cases hnil
          cases hfolder
        · cases hnil
    obtain ⟨hcarried, hplain, -⟩ := carried_of_twice dropWhile_length hp hq
    refine ⟨?_, hcarried, hplain, fun hdots => ?_⟩
    · rintro rfl
      obtain rfl : [] = p := Option.some.inj hp
      cases hok
    · unfold Db.infoTarget at hok
      dsimp only at hok
      rw [hq, if_pos (Or.inr (holdsPattern_iff.mpr hdots))] at hok
      cases hok
  · rintro ⟨hne, hcarried, hplain, hdots⟩
    refine ⟨path, routePath_carried hcarried, ?_⟩
    have hvalid : ¬(holdsPattern ['/', '/'] path = true ∨ holdsPattern ['.', '.'] path = true) := by
      rw [holdsPattern_iff, holdsPattern_iff, not_or]
      exact ⟨hcarried.slashes.2, hdots⟩
    unfold Db.infoTarget
    dsimp only
    rw [percentDecode_eq_self_iff.mpr hplain, hcarried.dropWhile, if_neg hvalid]
    cases hfolder : isFolderPath path with
    | false => rw [if_pos ⟨hne, by simp, h.live hfolder⟩, Target.ofPath_file hfolder]
    | true => rw [if_neg (by simp), if_pos (Or.inr rfl), Target.ofPath_folder hfolder]

lemma tree_iff (h : isFolderPath path = true) :
    Endpoint.tree.target db storageId path = some (.ofPath path) ↔ Endpoint.tree.Reaches db storageId path := by
  obtain ⟨folder, rfl⟩ := isFolderPath_iff.mp h
  rw [Endpoint.target, Target.ofPath_folder h, Option.map_eq_some_iff, Endpoint.Reaches, trimSlash_concat]
  constructor
  · rintro ⟨p, hp, hok⟩
    have heq := Target.folder.inj hok
    unfold dirPrefix at heq
    split at heq
    · exact absurd heq.symm (List.append_ne_nil_of_right_ne_nil _ (List.cons_ne_nil _ _))
    · case isFalse hne =>
      obtain rfl : p = folder := List.append_inj_left' heq rfl
      exact ⟨hne, carried_of_once hp⟩
  · rintro ⟨hne, hcarried⟩
    refine ⟨folder, routePath_carried hcarried, ?_⟩
    rw [dirPrefix, if_neg hne]

lemma download_iff (h : db.HasEntry storageId true path) :
    Endpoint.download.target db storageId path = some (.ofPath path) ↔
      Endpoint.download.Reaches db storageId path := by
  rw [Endpoint.target, bind_service]
  have hfolderOk {folder : Path} (hcarried : Carried folder) (hfolder : isFolderPath folder = true) :
      db.downloadFolder storageId folder = .ok (.folder folder) ↔
        db.livePathExists storageId folder = true ∨ db.listUploadedFilesUnder storageId folder ≠ [] := by
    have htrim := hcarried.trimEndSlashes hfolder
    have hvalid : ¬(trimEndSlashes folder = [] ∨ holdsPattern ['/', '/'] (trimEndSlashes folder) = true ∨
        (trimEndSlashes folder).head? = some '/') := by
      rw [not_or, not_or, holdsPattern_iff]
      refine ⟨fun hnil => ?_, fun hinfix => ?_, fun hhead => ?_⟩
      · rw [hnil, List.nil_append] at htrim
        rw [← htrim] at hcarried
        exact not_carried_root hcarried
      · exact hcarried.slashes.2 ( hinfix.trans ⟨[], ['/'], by rw [List.nil_append, htrim]⟩)
      · refine hcarried.slashes.1 ?_
        rw [← htrim]
        obtain ⟨rest, hrest⟩ := List.head?_eq_some_iff.mp hhead
        rw [hrest]
        rfl
    unfold Db.downloadFolder
    dsimp only
    rw [if_neg hvalid, htrim]
    by_cases hnone : ¬db.livePathExists storageId folder = true ∧
        db.listUploadedFilesUnder storageId folder = []
    · rw [if_pos hnone]
      simp [hnone.1, hnone.2]
    · rw [if_neg hnone]
      rw [not_and_or, not_not] at hnone
      simp [hnone]
  constructor
  · rintro ⟨p, hp, hok⟩
    obtain ⟨hof, hnot⟩ := downloadTarget_of hok
    have hroot : path ≠ ['/'] := by
      rintro rfl
      exact hnot rfl
    obtain rfl := hof.eq (fun hfolder => routePath_folder hfolder hp) hroot
    have hcarried := carried_of_once hp
    refine ⟨hcarried, fun hfolder => (hfolderOk hcarried hfolder).mp ?_⟩
    unfold Db.downloadTarget at hok
    split at hok
    · cases hok
    · rwa [Target.ofPath_folder hfolder] at hok
  · rintro ⟨hcarried, hsome⟩
    refine ⟨path, routePath_carried hcarried, ?_⟩
    have hvalid : ¬(path.head? = some '/' ∨ holdsPattern ['/', '/'] path = true) := by
      rw [holdsPattern_iff, not_or]
      exact hcarried.slashes
    unfold Db.downloadTarget
    rw [if_neg hvalid]
    cases hfolder : isFolderPath path with
    | false =>
      rw [if_neg Bool.false_ne_true, if_pos (h.live hfolder), Target.ofPath_file hfolder]
    | true =>
      rw [if_pos rfl, Target.ofPath_folder hfolder]
      exact (hfolderOk hcarried hfolder).mpr (hsome hfolder)

lemma picture_iff (hfile : isFolderPath path = false) (h : db.HasEntry storageId true path) :
    ((routePath path).bind fun p => (db.pictureTarget storageId p).toOption) = some (.ofPath path) ↔
      Carried path := by
  rw [bind_service, Target.ofPath_file hfile]
  constructor
  · rintro ⟨p, hp, hok⟩
    obtain rfl := Target.file.inj (pictureTarget_ok hok).1
    exact carried_of_once hp
  · intro hcarried
    refine ⟨path, routePath_carried hcarried, ?_⟩
    unfold Db.pictureTarget
    rw [if_neg, if_pos (h.live hfile)]
    rw [holdsPattern_iff, not_or]
    exact hcarried.slashes

lemma folderPrefix_alone {live : Bool} {choose : FileRow → Bool}
    (hchoose : ∀ r, choose r = true ↔ (r.Live ↔ live = true)) (hne : path ≠ []) :
    (if db.folderPrefix storageId path choose = [] then path
      else db.folderPrefix storageId path choose) = path ↔
      db.Alone storageId live path := by
  unfold Db.folderPrefix Db.Alone
  cases hfolder : isFolderPath path with
  | true => simp [hne]
  | false =>
    have hany : (db.files.any fun r =>
        r.storageId = storageId ∧ choose r ∧ startsWith r.path (path ++ ['/'])) = true ↔
        db.HasEntry storageId live (path ++ ['/']) := by
      unfold Db.HasEntry
      rw [List.any_eq_true]
      refine exists_congr fun r => and_congr_right fun _ => ?_
      rw [decide_eq_true_eq, hchoose, if_pos isFolderPath_concat]
    simp only [hany, Bool.false_eq_true, if_false, false_or]
    by_cases hbeside : db.HasEntry storageId live (path ++ ['/'])
    · simp [hbeside]
    · simp [hbeside]

lemma chosen_of_entry {live : Bool} {choose : FileRow → Bool}
    (hchoose : ∀ r, choose r = true ↔ (r.Live ↔ live = true)) (h : db.HasEntry storageId live path)
    (hne : path ≠ []) :
    db.idsWhere (Db.atOrUnder storageId path (db.folderPrefix storageId path choose) choose) ≠ [] := by
  have hchosen : ∃ r ∈ db.files,
      Db.atOrUnder storageId path (db.folderPrefix storageId path choose) choose r = true := by
    unfold Db.folderPrefix Db.atOrUnder
    obtain ⟨r, hr, hs, hl, hat⟩ := h
    cases hfolder : isFolderPath path with
    | true =>
      rw [if_pos hfolder] at hat
      refine ⟨r, hr, decide_eq_true ⟨hs, (hchoose r).mpr hl, ?_⟩⟩
      rw [if_pos rfl, if_neg hne]
      exact hat
    | false =>
      rw [hfolder, if_neg Bool.false_ne_true] at hat
      rw [if_neg Bool.false_ne_true]
      split
      · case isTrue hany =>
        obtain ⟨r', hr', hin⟩ := List.any_eq_true.mp hany
        obtain ⟨hs', hchoose', hbelow⟩ := of_decide_eq_true hin
        refine ⟨r', hr', decide_eq_true ⟨hs', hchoose', ?_⟩⟩
        rw [if_neg (List.concat_ne_nil _ _)]
        exact hbelow
      · refine ⟨r, hr, decide_eq_true ⟨hs, (hchoose r).mpr hl, ?_⟩⟩
        rw [if_pos rfl]
        exact hat
  obtain ⟨r, hr, hin⟩ := hchosen
  exact List.ne_nil_of_mem (mem_idsWhere.mpr ⟨r, hr, hin, rfl⟩)

lemma delete_found_iff (h : db.HasEntry storageId true path) :
    Endpoint.delete.target db storageId path = some (.ofPath path) ↔
      Endpoint.delete.Reaches db storageId path := by
  have hroutes : ∀ r ∈ filesRoutes, encodeFilePath r = r ∧ percentDecode r = r := by decide
  have hchoose (r : FileRow) : decide r.Live = true ↔ (r.Live ↔ true = true) := by simp
  rw [Endpoint.target, bind_service]
  constructor
  · rintro ⟨p, hwild, hok⟩
    have hp := wildcard_routePath hwild
    have hroot : path ≠ ['/'] := by
      rintro rfl
      cases hwild
    have hof : (Target.ofPath path).Of p := deleteTarget_ok hok ▸ target_of_folderPrefix db storageId p _
    obtain rfl := hof.eq (fun hfolder => routePath_folder hfolder hp) hroot
    have hcarried := carried_of_once hp
    obtain ⟨hne, hmem⟩ := (wildcard_carried hroutes hcarried).mp hwild
    refine ⟨hne, hcarried, hmem, (folderPrefix_alone hchoose hne).mp ?_⟩
    exact (Target.ofPath_injective (deleteTarget_ok hok)).symm
  · rintro ⟨hne, hcarried, hmem, halone⟩
    refine ⟨path, (wildcard_carried hroutes hcarried).mpr ⟨hne, hmem⟩, ?_⟩
    unfold Db.deleteTarget Db.deletedTarget
    rw [if_neg (by simp [hcarried.validatePath]), if_neg (chosen_of_entry hchoose h hne)]
    dsimp only
    rw [(folderPrefix_alone hchoose hne).mpr halone]

lemma deleteForever_iff (h : db.HasEntry storageId false path) :
    Endpoint.deleteForever.target db storageId path = some (.ofPath path) ↔
      Endpoint.deleteForever.Reaches db storageId path := by
  have hroutes : ∀ r ∈ trashRoutes, encodeFilePath r = r ∧ percentDecode r = r := by decide
  have hchoose (r : FileRow) : (decide (¬r.Live)) = true ↔ (r.Live ↔ false = true) := by simp
  rw [Endpoint.target, bind_service]
  constructor
  · rintro ⟨p, hwild, hok⟩
    have hp := wildcard_routePath hwild
    have hroot : path ≠ ['/'] := by
      rintro rfl
      cases hwild
    have hof : (Target.ofPath path).Of (normalizeTrashPath (percentDecode p)) :=
      deleteForeverTarget_ok hok ▸ target_of_folderPrefix db storageId _ _
    have hq := hof.eq (fun hfolder => dropWhile_decode_folder hfolder hp) hroot
    obtain ⟨hcarried, hplain, -⟩ := carried_of_twice dropWhile_length hp hq
    obtain rfl : p = path := Option.some.inj (hp.symm.trans (routePath_carried hcarried))
    obtain ⟨hne, hmem⟩ := (wildcard_carried hroutes hcarried).mp hwild
    refine ⟨hne, hcarried, hplain, hmem, (folderPrefix_alone hchoose hne).mp ?_⟩
    have htarget := Target.ofPath_injective (deleteForeverTarget_ok hok)
    rw [hq] at htarget
    exact htarget.symm
  · rintro ⟨hne, hcarried, hplain, hmem, halone⟩
    refine ⟨path, (wildcard_carried hroutes hcarried).mpr ⟨hne, hmem⟩, ?_⟩
    unfold Db.deleteForeverTarget Db.trashedTarget normalizeTrashPath Db.listTrashedIds
    dsimp only
    rw [percentDecode_eq_self_iff.mpr hplain, hcarried.dropWhile, if_neg (chosen_of_entry hchoose h hne),
      (folderPrefix_alone hchoose hne).mpr halone]

/-! ## Shares -/

/-- A path under a share as it is read: trimmed, without slashes in front. -/
def shortened (relative : Path) : Path :=
  (trim relative).dropWhile (· = '/')

variable {link : ShareLink} {relative root abs : Path} {allowDir : Bool}

lemma trim_sublist (text : Path) : (trim text).Sublist text :=
  (List.rdropWhile_prefix _ _).sublist.trans (List.dropWhile_sublist _)

lemma shortened_length (text : Path) : (shortened text).length ≤ text.length :=
  (dropWhile_length _).trans (trim_sublist text).length_le

lemma shortened_eq_iff :
    shortened relative = relative ↔ trim relative = relative ∧ relative.head? ≠ some '/' := by
  constructor
  · intro h
    have hlen := dropWhile_length (trim relative)
    have htrim : trim relative = relative := by
      refine (trim_sublist relative).eq_of_length_le ?_
      rw [← shortened, h] at hlen
      exact hlen
    refine ⟨htrim, fun hhead => ?_⟩
    obtain ⟨rest, rfl⟩ := List.head?_eq_some_iff.mp hhead
    rw [shortened, htrim, List.dropWhile_cons_of_pos (by simp)] at h
    have hle := dropWhile_length rest
    rw [h, List.length_cons] at hle
    omega
  · rintro ⟨htrim, hhead⟩
    rw [shortened, htrim]
    cases relative with
    | nil => rfl
    | cons c rest =>
      rw [List.dropWhile_cons_of_neg]
      exact fun hc => hhead (congrArg some (of_decide_eq_true hc))

lemma resolveUnderShare_ok (h : resolveUnderShare root relative allowDir = .ok abs) :
    isFolderPath root = true ∧ abs = root ++ shortened relative ∧ ¬['/', '/'] <:+: shortened relative ∧
      ['.', '.'] ∉ (shortened relative).splitOn '/' := by
  unfold resolveUnderShare at h
  split at h
  · cases h
  · case isFalse hroot =>
    rw [not_not] at hroot
    dsimp only at h
    split at h
    · cases h
    · case isFalse hvalid =>
      rw [not_or, not_or, holdsPattern_iff, pathHasDotDot, Bool.not_eq_true, List.any_eq_false] at hvalid
      refine ⟨hroot, ?_, hvalid.1, fun hdots => hvalid.2.1 _ hdots (by simp)⟩
      split at h
      · case isTrue hnil =>
        cases h
        rw [shortened, hnil, List.append_nil]
      · split at h
        · cases h
        · split at h
          · cases h
          · cases h
            rfl

lemma resolveUnderShare_eq (hroot : isFolderPath root = true) (hself : shortened relative = relative)
    (hslashes : ¬['/', '/'] <:+: relative) (hdots : ['.', '.'] ∉ relative.splitOn '/')
    (hdir : allowDir = true ∨ isFolderPath (root ++ relative) = false) :
    resolveUnderShare root relative allowDir = .ok (root ++ relative) := by
  have hhead := (shortened_eq_iff.mp hself).2
  have hvalid : ¬(holdsPattern ['/', '/'] relative = true ∨ pathHasDotDot relative = true ∨
      relative.head? = some '/') := by
    rw [not_or, not_or, holdsPattern_iff, pathHasDotDot, Bool.not_eq_true, List.any_eq_false]
    refine ⟨hslashes, fun seg hseg hdot => ?_, hhead⟩
    rw [of_decide_eq_true hdot] at hseg
    exact hdots hseg
  have hbegins : ¬¬root.isPrefixOf (root ++ relative) = true := by
    rw [not_not, List.isPrefixOf_iff_prefix]
    exact List.prefix_append root relative
  unfold shortened at hself
  unfold resolveUnderShare
  dsimp only
  rw [if_neg (not_not.mpr hroot), hself, if_neg hvalid, if_neg hbegins]
  split
  · case isTrue hnil => rw [hnil, List.append_nil]
  · rw [if_neg]
    rintro ⟨hno, hfolder⟩
    rcases hdir with hdir | hdir
    · exact hno hdir
    · rw [hdir] at hfolder
      cases hfolder

lemma resolveFilePath_ok (h : resolveFilePath link relative = .ok abs) :
    if isFolderPath link.path then
      abs = link.path ++ shortened relative ∧ ¬['/', '/'] <:+: shortened relative ∧
        ['.', '.'] ∉ (shortened relative).splitOn '/'
    else abs = link.path := by
  unfold resolveFilePath at h
  split at h
  · case isTrue hfolder =>
    rw [if_pos hfolder]
    split at h
    · case h_1 abs' hok =>
      split at h
      · cases h
      · cases h
        exact (resolveUnderShare_ok hok).2
    · cases h
  · case isFalse hfile =>
    rw [if_neg hfile]
    dsimp only at h
    split at h
    · cases h
      rfl
    · cases h

lemma resolveFilePath_eq (hroot : isFolderPath link.path = true) (hcarried : Carried relative)
    (htrim : trim relative = relative) (hfile : isFolderPath (link.path ++ relative) = false) :
    resolveFilePath link relative = .ok (link.path ++ relative) := by
  have hdots : ['.', '.'] ∉ relative.splitOn '/' := fun hmem => (hcarried.noDots _ hmem).2 rfl
  have hself := shortened_eq_iff.mpr ⟨htrim, hcarried.slashes.1⟩
  unfold resolveFilePath
  rw [if_pos hroot, resolveUnderShare_eq hroot hself hcarried.slashes.2 hdots (Or.inr hfile)]
  dsimp only
  rw [hfile]
  rfl

lemma sharePath_twice {p : Path} (hp : sharePath relative = some p) (h : shortened p = relative) :
    Carried relative ∧ NoEscape relative ∧ trim relative = relative := by
  unfold sharePath at hp
  split at hp
  · cases hp
    obtain rfl : [] = relative := h
    exact ⟨Or.inl rfl, trivial, rfl⟩
  · obtain ⟨p, hwild, rfl⟩ := Option.map_eq_some_iff.mp hp
    obtain ⟨hcarried, hplain, hself⟩ := carried_of_twice shortened_length (wildcard_routePath hwild) h
    exact ⟨hcarried, hplain, (shortened_eq_iff.mp hself).1⟩

lemma sharePath_eq (hcarried : Carried relative) (hplain : NoEscape relative) :
    sharePath relative = some relative := by
  have hself := percentDecode_eq_self_iff.mpr hplain
  unfold sharePath
  split
  · case isTrue hnil =>
    have hroute := routePath_carried hcarried
    rw [routePath, urlRest, hnil] at hroute
    exact hroute
  · case isFalse hne =>
    have hwild : wildcard [] relative = some relative := by
      refine (wildcard_carried (fun r hr => absurd hr List.not_mem_nil) hcarried).mpr ⟨?_, List.not_mem_nil⟩
      rintro rfl
      exact hne rfl
    rw [hwild, Option.map_some, hself]

lemma share_file_iff (get : Path → Except SarcaError Target) (hroot : isFolderPath link.path = true)
    (hfile : isFolderPath (link.path ++ relative) = false) (hget : ∀ p t, get p = .ok t → t = .file p) :
    (∃ p, sharePath relative = some p ∧ (match resolveFilePath link p with
        | .ok abs => get abs
        | .error e => .error e) = .ok (.file (link.path ++ relative))) ↔
      Carried relative ∧ NoEscape relative ∧ trim relative = relative ∧
        get (link.path ++ relative) = .ok (.file (link.path ++ relative)) := by
  constructor
  · rintro ⟨p, hp, hok⟩
    split at hok
    · case h_1 abs habs =>
      have hresolved := resolveFilePath_ok habs
      rw [if_pos hroot] at hresolved
      obtain rfl : link.path ++ relative = abs := Target.file.inj (hget _ _ hok)
      have hself : shortened p = relative := (List.append_cancel_left hresolved.1).symm
      obtain ⟨hcarried, hplain, htrim⟩ := sharePath_twice hp hself
      exact ⟨hcarried, hplain, htrim, hok⟩
    · cases hok
  · rintro ⟨hcarried, hplain, htrim, hok⟩
    refine ⟨relative, sharePath_eq hcarried hplain, ?_⟩
    rw [resolveFilePath_eq hroot hcarried htrim hfile]
    exact hok

lemma isFolderPath_shortened (h : isFolderPath relative = true) :
    shortened relative = [] ∨ isFolderPath (shortened relative) = true := by
  have hslash : isWhitespace '/' = false := by decide
  obtain ⟨folder, rfl⟩ := isFolderPath_iff.mp h
  have htrim : isFolderPath (trim (folder ++ ['/'])) = true := by
    have hdrop : (folder ++ ['/']).dropWhile isWhitespace ≠ [] := by
      intro hnil
      have hall := List.dropWhile_eq_nil_iff.mp hnil '/' (by simp)
      rw [hslash] at hall
      cases hall
    have hfolder : isFolderPath ((folder ++ ['/']).dropWhile isWhitespace) = true := by
      rwa [← @List.takeWhile_append_dropWhile _ isWhitespace (folder ++ ['/']), isFolderPath_append hdrop] at h
    obtain ⟨rest, hrest⟩ := isFolderPath_iff.mp hfolder
    rw [trim, trimBy, hrest, List.rdropWhile_concat_neg _ _ _ (by simp [hslash])]
    exact isFolderPath_concat
  exact dropWhile_folder htrim

lemma dirPrefix_trimEndSlashes (h : isFolderPath path = true) :
    dirPrefix (trimEndSlashes path) = path ↔ ¬['/', '/'] <:+ path ∧ path ≠ ['/'] := by
  constructor
  · intro heq
    constructor
    · rintro ⟨before, rfl⟩
      have hshort : (trimEndSlashes before).length ≤ before.length :=
        (List.rdropWhile_prefix _ _).length_le
      have hlen := congrArg List.length heq
      have htrim : trimEndSlashes (before ++ ['/', '/']) = trimEndSlashes before := by
        rw [List.append_cons, trimEndSlashes_concat, trimEndSlashes_concat]
      rw [htrim, dirPrefix] at hlen
      split at hlen <;> simp at hlen
      omega
    · rintro rfl
      revert heq
      decide
  · rintro ⟨hslashes, hroot⟩
    have htrim := trimEndSlashes_folder h hslashes hroot
    rw [dirPrefix, if_neg, htrim]
    intro hnil
    rw [hnil] at htrim
    exact hroot htrim.symm

lemma length_dirPrefix_le (h : isFolderPath path = true) :
    (dirPrefix (trimEndSlashes path)).length ≤ path.length := by
  obtain ⟨folder, rfl⟩ := isFolderPath_iff.mp h
  have hshort : (trimEndSlashes folder).length ≤ folder.length := (List.rdropWhile_prefix _ _).length_le
  rw [trimEndSlashes_concat, dirPrefix]
  split
  · exact Nat.zero_le _
  · rw [List.length_append, List.length_append]
    omega

lemma share_tree_iff (hroot : isFolderPath link.path = true) (h : isFolderPath (link.path ++ relative) = true) :
    ShareEndpoint.tree.target db link relative = some (.ofPath (link.path ++ relative)) ↔
      ShareEndpoint.tree.Reaches link relative := by
  have hanswer : ShareEndpoint.tree.target db link relative = some (.ofPath (link.path ++ relative)) ↔
      ∃ abs, resolveUnderShare link.path relative true = .ok abs ∧
        dirPrefix (trimEndSlashes abs) = link.path ++ relative := by
    rw [ShareEndpoint.target, ShareEndpoint.answers, Target.ofPath_folder h]
    cases resolveUnderShare link.path relative true <;> simp [Except.toOption]
  rw [hanswer]
  constructor
  · rintro ⟨abs, hok, heq⟩
    obtain ⟨-, rfl, hslashes, hdots⟩ := resolveUnderShare_ok hok
    have hfolder : isFolderPath (link.path ++ shortened relative) = true := by
      by_cases hnil : relative = []
      · subst hnil
        exact h
      · rw [isFolderPath_append hnil] at h
        rcases isFolderPath_shortened h with hshort | hshort
        · rwa [hshort, List.append_nil]
        · rw [isFolderPath_append, hshort]
          rintro hempty
          rw [hempty] at hshort
          cases hshort
    have hlen := length_dirPrefix_le hfolder
    have hself : shortened relative = relative := by
      have hsub : (shortened relative).Sublist relative :=
        (List.dropWhile_sublist _).trans (trim_sublist relative)
      refine hsub.eq_of_length_le ?_
      rw [heq, List.length_append, List.length_append] at hlen
      omega
    rw [hself] at heq hslashes hdots
    obtain ⟨htrim, hhead⟩ := shortened_eq_iff.mp hself
    exact ⟨htrim, hhead, hslashes, hdots, (dirPrefix_trimEndSlashes h).mp heq⟩
  · rintro ⟨htrim, hhead, hslashes, hdots, hends⟩
    exact ⟨_, resolveUnderShare_eq hroot (shortened_eq_iff.mpr ⟨htrim, hhead⟩) hslashes hdots (Or.inl rfl),
      (dirPrefix_trimEndSlashes h).mpr hends⟩

/-! ## The requests -/

lemma chosen_held {choose : FileRow → Bool} {id : Uuid}
    (h : id ∈ db.idsWhere (Db.atOrUnder storageId path (db.folderPrefix storageId path choose) choose)) :
    ∃ r ∈ db.files, r.id = id ∧ r.storageId = storageId ∧ choose r = true ∧
      (Target.ofPath (if db.folderPrefix storageId path choose = [] then path
        else db.folderPrefix storageId path choose)).Holds r := by
  obtain ⟨r, hr, hin, rfl⟩ := mem_idsWhere.mp h
  obtain ⟨hs, hchoose, hat⟩ := of_decide_eq_true hin
  refine ⟨r, hr, rfl, hs, hchoose, ?_⟩
  split at hat
  · case isTrue hnone =>
    rw [if_pos hnone]
    have hfile : isFolderPath path = false := by
      rw [Bool.eq_false_iff]
      intro hfolder
      rw [Db.folderPrefix, if_pos hfolder] at hnone
      rw [hnone] at hfolder
      cases hfolder
    rw [Target.ofPath_file hfile]
    exact hat
  · case isFalse hsome =>
    rw [if_neg hsome, Target.ofPath_folder (folderPrefix_isFolder hsome)]
    exact prefix_of_startsWith hat

/-- The file is the shared one, or is in the shared folder. -/
def ShareLink.Covers (link : ShareLink) (path : Path) : Prop :=
  if isFolderPath link.path then link.path <+: path else path = link.path

lemma answers_covered {e : ShareEndpoint} (h : e.answers db link relative = .ok (.file path)) :
    link.Covers path := by
  have hresolved {abs : Path} (habs : resolveFilePath link relative = .ok abs) : link.Covers abs := by
    have hok := resolveFilePath_ok habs
    unfold ShareLink.Covers
    split
    · case isTrue hfolder =>
      rw [if_pos hfolder] at hok
      exact hok.1 ▸ List.prefix_append _ _
    · case isFalse hfile => rwa [if_neg hfile] at hok
  cases e with
  | download | inline =>
    rw [ShareEndpoint.answers] at h
    split at h
    · case h_1 abs habs =>
      split at h
      · cases h
        exact hresolved habs
      · cases h
    · cases h
  | thumb | preview =>
    rw [ShareEndpoint.answers] at h
    split at h
    · case h_1 abs habs =>
      obtain rfl := Target.file.inj (pictureTarget_ok h).1
      exact hresolved habs
    · cases h
  | tree =>
    rw [ShareEndpoint.answers] at h
    split at h <;> cases h

lemma shareTree_covered {listing : List FSElement} {e : FSElement} (h : ShareTree db link relative listing)
    (he : e ∈ listing) : ∃ r ∈ db.files, r.storageId = link.storageId ∧ r.Live ∧
      link.path ++ trimSlash e.path <+: r.path := by
  obtain ⟨abs, elements, habs, ⟨rows, hrows, helements⟩, rfl⟩ := h
  obtain ⟨found, hfound, hshown⟩ := List.mem_filterMap.mp he
  obtain ⟨name, hsome, rfl⟩ := (mem_elements helements).mp hfound
  obtain ⟨r, hr⟩ := List.exists_mem_of_ne_nil _ hsome
  obtain ⟨hmem, hname, hslash, hat⟩ := mem_collected.mp hr
  obtain ⟨hfiles, hin⟩ := List.mem_filter.mp (hrows.mem_iff.mp hmem)
  obtain ⟨hs, -, -, hl⟩ := of_decide_eq_true hin
  have hbegins : dirPrefix (trimEndSlashes abs) ++ name <+: r.path := by
    rcases hat with hat | hat
    · exact hat ▸ List.prefix_rfl
    · exact (List.prefix_append _ _).trans hat
  refine ⟨r, hfiles, hs, hl, ?_⟩
  have hfile : isFolderPath (dirPrefix (trimEndSlashes abs) ++ name) = false := by
    rw [isFolderPath_append hname, Bool.eq_false_iff]
    intro hfolder
    obtain ⟨stem, rfl⟩ := isFolderPath_iff.mp hfolder
    exact hslash (by simp)
  unfold shareElement at hshown
  split at hshown
  · case isTrue hroot =>
    obtain ⟨rest, hrest⟩ := List.isPrefixOf_iff_prefix.mp hroot
    change link.path ++ rest = dirPrefix (trimEndSlashes abs) ++ name at hrest
    have hdrop : (dirPrefix (trimEndSlashes abs) ++ name).drop link.path.length = rest := by
      rw [← hrest, List.drop_left]
    have hnotFolder : isFolderPath rest = false := by
      have hne : rest ≠ [] := by
        rintro rfl
        rw [List.append_nil] at hrest
        rw [← hrest, (resolveUnderShare_ok habs).1] at hfile
        cases hfile
      rwa [← hrest, isFolderPath_append hne] at hfile
    have hpath : trimSlash e.path = rest := by
      dsimp only [Acc.element] at hshown
      rw [hdrop, hnotFolder] at hshown
      split at hshown
      · cases hshown
        exact trimSlash_file hnotFolder
      · cases hshown
        exact trimSlash_concat
    rw [hpath, hrest]
    exact hbegins
  · cases hshown

/-- For which listed paths a request reaches the listed entry, at each endpoint of a storage and of a shared
    folder. What a deletion then chooses is in its target, and whatever path a share is asked for, it answers
    with the shared file or what is in the shared folder. -/
theorem requests_reach_iff (db : Db) (storageId : Uuid) (link : ShareLink) :
    (∀ (e : Endpoint) path, e.Offers db storageId path →
      (e.target db storageId path = some (.ofPath path) ↔ e.Reaches db storageId path)) ∧
    (isFolderPath link.path = true → ∀ (e : ShareEndpoint) relative, e.Offers db link relative →
      (e.target db link relative = some (.ofPath (link.path ++ relative)) ↔ e.Reaches link relative)) ∧
    (∀ path t, db.deleteTarget storageId path = .ok t →
      ∀ id ∈ db.idsWhere (Db.atOrUnder storageId path (db.folderPrefix storageId path fun r => r.Live)
        fun r => r.Live),
        ∃ r ∈ db.files, r.id = id ∧ r.storageId = storageId ∧ r.Live ∧ t.Holds r) ∧
    (∀ path t, db.deleteForeverTarget storageId path = .ok t →
      ∀ id ∈ db.listTrashedIds storageId (normalizeTrashPath path),
        ∃ r ∈ db.files, r.id = id ∧ r.storageId = storageId ∧ ¬r.Live ∧ t.Holds r) ∧
    (∀ (e : ShareEndpoint) relative path, e.answers db link relative = .ok (.file path) → link.Covers path) ∧
    (∀ relative listing, ShareTree db link relative listing → ∀ e ∈ listing,
      ∃ r ∈ db.files, r.storageId = link.storageId ∧ r.Live ∧ link.path ++ trimSlash e.path <+: r.path) := by
  refine ⟨?_, ?_, ?_, ?_, fun e relative path h => answers_covered h,
    fun relative listing h e he => shareTree_covered h he⟩
  · intro e path h
    cases e with
    | info => exact info_iff h
    | tree => exact tree_iff h.1
    | download => exact download_iff h
    | thumb => exact picture_iff h.1 h.2
    | preview => exact picture_iff h.1 h.2
    | delete => exact delete_found_iff h
    | deleteForever => exact deleteForever_iff h
  · intro hroot e relative h
    cases e with
    | download | inline =>
      obtain ⟨hfile, hlive⟩ := h
      rw [ShareEndpoint.target, bind_service, Target.ofPath_file hfile]
      · refine (share_file_iff (fun abs => if db.livePathExists link.storageId abs then .ok (.file abs)
          else .error (.doesNotExist "file")) hroot hfile fun p t hok => ?_).trans ?_
        · split at hok <;> cases hok
          rfl
        · simp only [if_pos hlive, and_true]
          exact Iff.rfl
      · simp
    | thumb | preview =>
      obtain ⟨hfile, hlive⟩ := h
      rw [ShareEndpoint.target, bind_service, Target.ofPath_file hfile]
      · refine (share_file_iff (db.pictureTarget link.storageId) hroot hfile fun p t hok =>
          (pictureTarget_ok hok).1).trans ?_
        refine and_congr_right fun _ => and_congr_right fun _ => and_congr_right fun _ => ?_
        constructor
        · intro hok
          exact (pictureTarget_ok hok).2
        · intro hvalid
          unfold Db.pictureTarget
          rw [if_neg, if_pos hlive]
          rwa [holdsPattern_iff, not_or]
      · simp
    | tree => exact share_tree_iff hroot h
  · intro path t hok id hid
    rw [deleteTarget_ok hok]
    obtain ⟨r, hr, hid, hs, hl, hholds⟩ := chosen_held hid
    exact ⟨r, hr, hid, hs, of_decide_eq_true hl, hholds⟩
  · intro path t hok id hid
    rw [deleteForeverTarget_ok hok]
    obtain ⟨r, hr, hid, hs, hl, hholds⟩ := chosen_held hid
    exact ⟨r, hr, hid, hs, of_decide_eq_true hl, hholds⟩

def namedRow (id : Uuid) (path : String) (deletedAt : Option Instant) : FileRow :=
  { (InFile.new path.toList 7 1).toRow id true with deletedAt := deletedAt }

/-- Two files in the trash; the name of one is that of the other with its percent sign written as an escape. -/
def escapedNames : Db :=
  { Db.fresh [⟨1, 0⟩] with files := [namedRow 1 "50%25.txt" (some 9), namedRow 2 "50%.txt" (some 9)] }

/-- Live files that are named like a route, with two dots, and with a blank at the end of a shared folder. -/
def oddNames : Db :=
  { Db.fresh [⟨1, 0⟩] with
    files := [namedRow 1 "upload" none, namedRow 2 "a..b" none, namedRow 3 "docs/a " none,
      namedRow 4 "docs/a" none] }

/-- To delete one trashed file for ever deletes the other one; a file named like a route cannot be deleted, one
    with two dots has no info, and the share sends another file. -/
theorem requests_miss :
    (Endpoint.deleteForever.Offers escapedNames 1 "50%25.txt".toList ∧
      Endpoint.deleteForever.target escapedNames 1 "50%25.txt".toList = some (.file "50%.txt".toList)) ∧
    (Endpoint.delete.Offers oddNames 1 "upload".toList ∧
      Endpoint.delete.target oddNames 1 "upload".toList = none) ∧
    (Endpoint.info.Offers oddNames 1 "a..b".toList ∧ Endpoint.info.target oddNames 1 "a..b".toList = none) ∧
    ShareEndpoint.download.Offers oddNames ⟨1, 1, "docs/".toList⟩ "a ".toList ∧
    ShareEndpoint.download.target oddNames ⟨1, 1, "docs/".toList⟩ "a ".toList =
      some (.file "docs/a".toList) := by
  refine ⟨⟨?_, by decide +kernel⟩, ⟨?_, by decide +kernel⟩, ⟨?_, by decide +kernel⟩, ⟨by decide, by decide⟩,
    by decide +kernel⟩
  · show escapedNames.HasEntry 1 false _
    decide
  · show oddNames.HasEntry 1 true _
    decide
  · show oddNames.HasEntry 1 true _
    decide

end Sarca.Server
