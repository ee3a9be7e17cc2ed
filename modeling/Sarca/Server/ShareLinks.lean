import Sarca.Lib.Like
import Sarca.Server.Renames
import Sarca.Server.Services
import Sarca.Server.SqlPrefix

/-!
# Share links

A share link names its target by storage and path. `rename` and `move_to` give the rows other paths and then
the links (`rewrite_share_paths`), `delete` drops the links of what goes to the trash (`delete_for_target`), and
`purge_file_ids` drops those of the rows that it deletes for good (`delete_for_file_ids`).

The statements on links choose by `LIKE`, those on rows by a range: they agree on a link just when the pattern
matches no other path (`shares_follow_iff`). A purge goes by the paths of its rows, which live rows may have as
well (`purge_keeps_shares_iff`).
-/

namespace Sarca.Server
open Sarca.Lib

/-- A share link, with what these statements read. -/
structure ShareLink where
  id : Uuid
  storageId : Uuid
  path : Path
deriving DecidableEq, Repr

/-- `path = folder OR path LIKE folder || '%'` -/
def matchesUnder (folder path : Path) : Bool :=
  path = folder ∨ like (folder ++ ['%']) path

/-- Rust `delete_for_target`. -/
def deleteForTarget (links : List ShareLink) (storageId : Uuid) (path : Path) : List ShareLink :=
  let path := normalizeTrashPath path
  if path = [] then links
  else if isFolderPath path then
    links.filter fun l => ¬(l.storageId = storageId ∧ matchesUnder path l.path)
  else links.filter fun l => ¬(l.storageId = storageId ∧ l.path = path)

/-- `UPDATE … SET path = newFolder || substr(path, skip + 1) WHERE path = folder OR path LIKE folder || '%'` -/
def rewriteUnder (storageId : Uuid) (folder newPath : Path) (l : ShareLink) : ShareLink :=
  if l.storageId = storageId ∧ matchesUnder folder l.path then
    { l with path := newPrefix newPath ++ l.path.drop (byteLen folder) }
  else l

/-- Rust `ShareLinksRepository::rewrite_paths`. -/
def rewriteShares (links : List ShareLink) (storageId : Uuid) (oldPath newPath : Path) : List ShareLink :=
  let oldPath := normalizeTrashPath oldPath
  let newPath := normalizeTrashPath newPath
  if oldPath = [] ∨ oldPath = newPath then links
  else if isFolderPath oldPath then links.map (rewriteUnder storageId oldPath newPath)
  else
    let exact := links.map fun l =>
      if l.storageId = storageId ∧ l.path = oldPath then { l with path := newPath } else l
    exact.map (rewriteUnder storageId (oldPath ++ ['/']) newPath)

namespace Db

/-- Rust `list_uploaded_files_under`. -/
def listUploadedFilesUnder (db : Db) (storageId : Uuid) (folder : Path) : List FileRow :=
  (db.files.filter fun r => r.storageId = storageId ∧ r.isUploaded ∧ r.Live ∧ startsWith r.path folder ∧
    ¬isFolderPath r.path).insertionSort fun a b => pathLt b.path a.path = false

/-- What `metadata` needs to find for a link. -/
def resolves (db : Db) (l : ShareLink) : Bool :=
  if isFolderPath l.path then
    db.livePathExists l.storageId l.path || !(db.listUploadedFilesUnder l.storageId l.path).isEmpty
  else (db.liveAt l.storageId l.path).any (·.isUploaded)

/-- Rust `delete_for_file_ids`. -/
def deleteForFileIds (db : Db) (links : List ShareLink) (ids : List Uuid) : List ShareLink :=
  if ids = [] then links
  else links.filter fun l => ¬∃ f ∈ db.files, f.storageId = l.storageId ∧
    (l.path = f.path ∨ isFolderPath f.path ∧ matchesUnder f.path l.path) ∧ f.id ∈ ids

/-- How the statements of `purge_file_ids` end: those before the links, the one on the links, whose error is
    logged, and the one on the rows. -/
structure PurgeIo where
  messages : Bool
  shares : Bool
  rows : Bool

/-- Rust `purge_file_ids` on the links and the rows. -/
def purgeFileIds (db : Db) (links : List ShareLink) (ids order : List Uuid) (io : PurgeIo) :
    List ShareLink × Db :=
  if ids = [] ∨ !io.messages then (links, db)
  else (if io.shares then db.deleteForFileIds links ids else links,
    if io.rows then db.hardDeleteIds ids order else db)

end Db

/-! ## What `LIKE` matches -/

lemma matchesUnder_of_begins {folder path : Path} (h : folder <+: path) : matchesUnder folder path = true := by
  obtain ⟨rest, rfl⟩ := h
  exact decide_eq_true (.inr (like_append (like_self folder) (like_percent rest)))

lemma normalizeTrashPath_eq {path : Path} (h : path.head? ≠ some '/') : normalizeTrashPath path = path := by
  cases path with
  | nil => rfl
  | cons c rest =>
    have hc : c ≠ '/' := fun heq => h (congrArg some heq)
    exact List.dropWhile_cons_of_neg (by simpa using hc)

/-! ## Links and rows behind a rename -/

/-- Where a rename takes a live path of the storage, as the rows have it. -/
def movedPath (oldPath newPath path : Path) : Path :=
  if isFolderPath oldPath then
    if startsWith path oldPath then Db.rewrittenPath oldPath newPath path else path
  else if path = oldPath then Db.rewrittenPath oldPath newPath path
  else path

def followed (storageId : Uuid) (oldPath newPath : Path) (l : ShareLink) : ShareLink :=
  if l.storageId = storageId then { l with path := movedPath oldPath newPath l.path } else l

/-- The links that are not at or under a folder. -/
def notUnder (storageId : Uuid) (folder : Path) (l : ShareLink) : Bool :=
  ¬(l.storageId = storageId ∧ folder <+: l.path)

/-- What the pattern of a folder matches is what the rows' range takes, unless it keeps its path when its first
    characters, as many as the folder has bytes, are replaced. -/
def MatchesRows (folder newPath path : Path) : Prop :=
  matchesUnder folder path = true → startsWith path folder = true ∨
    newPrefix newPath ++ path.drop (byteLen folder) = path

/-- What a rename has to find at a link's path. A folder's pattern takes what the rows' range takes. The pattern
    `old/%` that a file's path is put into matches nothing, also not where the file goes, but for paths that
    keep. Nothing is renamed to itself but what keeps its path, and nothing is at the empty path. -/
def Follows (oldPath newPath path : Path) : Prop :=
  if oldPath = [] then path = [] → newPath = []
  else if oldPath = newPath then
    isFolderPath oldPath = true → startsWith path oldPath = true → oldPath ++ path.drop (byteLen oldPath) = path
  else if isFolderPath oldPath then MatchesRows oldPath newPath path
  else
    let path' := if path = oldPath then newPath else path
    matchesUnder (oldPath ++ ['/']) path' = true →
      newPrefix newPath ++ path'.drop (byteLen (oldPath ++ ['/'])) = path'

instance MatchesRows.decidable (folder newPath path : Path) : Decidable (MatchesRows folder newPath path) :=
  inferInstanceAs (Decidable (_ → _ ∨ _))

instance Follows.decidable (oldPath newPath path : Path) : Decidable (Follows oldPath newPath path) :=
  inferInstanceAs (Decidable (ite _ _ _))

lemma rewritePaths_movedPath {db db' : Db} (hwf : db.Wf) {oldPath newPath : Path} {storageId : Uuid}
    {order : List Uuid} (hok : db.rewritePaths oldPath newPath storageId true order = .ok db') (r' : FileRow) :
    r' ∈ db'.files ↔ ∃ r ∈ db.files, r' =
      if r.storageId = storageId ∧ r.Live then r.withPath (movedPath oldPath newPath r.path) else r := by
  rw [(rewritePaths_rows hwf hok).2]
  refine exists_congr fun r => and_congr_right fun _ => ?_
  have hrow : renamedRow oldPath newPath storageId true r =
      if r.storageId = storageId ∧ r.Live then r.withPath (movedPath oldPath newPath r.path) else r := by
    unfold renamedRow Db.renamed movedPath
    by_cases hs : r.storageId = storageId
    · by_cases hl : r.Live
      · simp only [hs, hl, if_true, true_and, and_self, decide_eq_true_eq]
        split
        · exact (apply_ite r.withPath _ _ _).symm
        · simp only [decide_eq_true_eq]
          exact (apply_ite r.withPath _ _ _).symm
      · simp [hs, hl]
    · simp [hs]
  rw [hrow]

section Rename

variable {storageId : Uuid} {oldPath newPath folder : Path} {l : ShareLink}

lemma startsWith_matchesUnder {path : Path} (h : startsWith path folder = true) :
    matchesUnder folder path = true :=
  matchesUnder_of_begins (prefix_of_startsWith h)

lemma withPath_inj {p q : Path} : ({ l with path := p } : ShareLink) = { l with path := q } ↔ p = q :=
  ⟨fun h => congrArg ShareLink.path h, fun h => h ▸ rfl⟩

lemma rewriteUnder_other (h : l.storageId ≠ storageId) : rewriteUnder storageId folder newPath l = l :=
  if_neg fun hand => h hand.1

lemma rewriteUnder_eq (h : l.storageId = storageId) : rewriteUnder storageId folder newPath l =
    { l with path := if matchesUnder folder l.path then newPrefix newPath ++ l.path.drop (byteLen folder)
      else l.path } := by
  unfold rewriteUnder
  by_cases hmatch : matchesUnder folder l.path = true
  · rw [if_pos ⟨h, hmatch⟩, if_pos hmatch]
  · rw [if_neg fun hand => hmatch hand.2, if_neg hmatch]

lemma rewriteUnder_eq_followed_iff (hfolder : isFolderPath oldPath = true) (h : l.storageId = storageId) :
    rewriteUnder storageId oldPath newPath l = followed storageId oldPath newPath l ↔
      MatchesRows oldPath newPath l.path := by
  rw [rewriteUnder_eq h, followed, if_pos h, withPath_inj]
  unfold movedPath MatchesRows
  rw [if_pos hfolder, rewrittenPath_folder hfolder]
  by_cases hrange : startsWith l.path oldPath = true
  · rw [if_pos (startsWith_matchesUnder hrange), if_pos hrange]
    exact iff_of_true rfl fun _ => .inl hrange
  · rw [if_neg hrange]
    by_cases hmatch : matchesUnder oldPath l.path = true
    · rw [if_pos hmatch]
      exact ⟨fun heq _ => .inr heq, fun hor => (hor hmatch).resolve_left hrange⟩
    · rw [if_neg hmatch]
      exact iff_of_true rfl fun htrue => absurd htrue hmatch

lemma eq_followed_iff (h : l.storageId = storageId) :
    l = followed storageId oldPath newPath l ↔ movedPath oldPath newPath l.path = l.path := by
  rw [followed, if_pos h]
  exact ⟨fun heq => (congrArg ShareLink.path heq).symm, fun hpath => hpath.symm ▸ rfl⟩

lemma movedPath_self_iff {path : Path} (hsame : oldPath = [] ∨ oldPath = newPath) :
    movedPath oldPath newPath path = path ↔ Follows oldPath newPath path := by
  unfold movedPath Follows
  by_cases hempty : oldPath = []
  · subst hempty
    rw [if_pos rfl, if_neg (by decide : ¬isFolderPath [] = true), Db.rewrittenPath,
      if_neg (by decide : ¬isFolderPath [] = true)]
    by_cases hpath : path = []
    · rw [if_pos hpath, hpath]
      exact ⟨fun h _ => h, fun h => h rfl⟩
    · rw [if_neg hpath]
      exact iff_of_true rfl fun h => absurd h hpath
  · obtain rfl := hsame.resolve_left hempty
    rw [if_neg hempty, if_pos rfl]
    by_cases hfolder : isFolderPath oldPath = true
    · rw [if_pos hfolder, rewrittenPath_folder hfolder, newPrefix, if_pos hfolder]
      by_cases hrange : startsWith path oldPath = true
      · rw [if_pos hrange]
        exact ⟨fun h _ _ => h, fun h => h hfolder hrange⟩
      · rw [if_neg hrange]
        exact iff_of_true rfl fun _ h => absurd h hrange
    · rw [if_neg hfolder, Db.rewrittenPath, if_neg hfolder]
      refine iff_of_true ?_ fun h => absurd h hfolder
      split
      · case isTrue hpath => exact hpath.symm
      · rfl

lemma rewriteUnder_file_iff (hfile : ¬isFolderPath oldPath = true) (hne : oldPath ≠ [] ∧ oldPath ≠ newPath)
    (h : l.storageId = storageId) :
    rewriteUnder storageId (oldPath ++ ['/']) newPath
        (if l.storageId = storageId ∧ l.path = oldPath then { l with path := newPath } else l) =
      followed storageId oldPath newPath l ↔ Follows oldPath newPath l.path := by
  have hmoved : movedPath oldPath newPath l.path = if l.path = oldPath then newPath else l.path := by
    unfold movedPath
    rw [if_neg hfile, Db.rewrittenPath, if_neg hfile]
  have hexact : (if l.storageId = storageId ∧ l.path = oldPath then { l with path := newPath } else l) =
      { l with path := if l.path = oldPath then newPath else l.path } := by
    by_cases hpath : l.path = oldPath
    · rw [if_pos ⟨h, hpath⟩, if_pos hpath]
    · rw [if_neg fun hand => hpath hand.2, if_neg hpath]
  have hput : ({ l with path := if l.path = oldPath then newPath else l.path } : ShareLink).storageId =
      storageId := h
  rw [hexact, rewriteUnder_eq hput, followed, if_pos h, hmoved, Follows, if_neg hne.1, if_neg hne.2,
    if_neg hfile]
  dsimp only
  generalize (if l.path = oldPath then newPath else l.path) = path'
  rw [withPath_inj]
  by_cases hmatch : matchesUnder (oldPath ++ ['/']) path' = true
  · rw [if_pos hmatch]
    exact ⟨fun heq _ => heq, fun hall => hall hmatch⟩
  · rw [if_neg hmatch]
    exact iff_of_true rfl fun htrue => absurd htrue hmatch

lemma rewriteShares_iff (links : List ShareLink) (hold : oldPath.head? ≠ some '/')
    (hnew : newPath.head? ≠ some '/') :
    rewriteShares links storageId oldPath newPath = links.map (followed storageId oldPath newPath) ↔
      ∀ l ∈ links, l.storageId = storageId → Follows oldPath newPath l.path := by
  have hothers : ∀ f : ShareLink → ShareLink, (∀ l, l.storageId ≠ storageId → f l = l) →
      (∀ l ∈ links, l.storageId = storageId →
        (f l = followed storageId oldPath newPath l ↔ Follows oldPath newPath l.path)) →
      (links.map f = links.map (followed storageId oldPath newPath) ↔
        ∀ l ∈ links, l.storageId = storageId → Follows oldPath newPath l.path) := by
    intro f hkeep hiff
    rw [List.map_inj_left]
    refine forall₂_congr fun l hl => ?_
    by_cases hs : l.storageId = storageId
    · rw [hiff l hl hs]
      exact ⟨fun h _ => h, fun h => h hs⟩
    · rw [hkeep l hs, followed, if_neg hs]
      exact iff_of_true rfl fun h => absurd h hs
  unfold rewriteShares
  rw [normalizeTrashPath_eq hold, normalizeTrashPath_eq hnew]
  dsimp only
  split
  · case isTrue hsame =>
    rw [← hothers id (fun _ _ => rfl) fun l _ hs => ?_, List.map_id]
    exact (eq_followed_iff hs).trans (movedPath_self_iff hsame)
  · case isFalse hne =>
    rw [not_or] at hne
    split
    · case isTrue hfolder =>
      refine hothers _ (fun _ => rewriteUnder_other) fun l _ hs => ?_
      rw [rewriteUnder_eq_followed_iff hfolder hs, Follows, if_neg hne.1, if_neg hne.2, if_pos hfolder]
    · case isFalse hfile =>
      rw [List.map_map]
      refine hothers _ (fun l hs => ?_) fun l _ hs => ?_
      · rw [Function.comp_apply, if_neg fun hand => hs hand.1, rewriteUnder_other hs]
      · exact rewriteUnder_file_iff hfile hne hs

end Rename

/-! ## The links that a delete drops -/

lemma filter_eq_filter_iff {α : Type*} {p q : α → Bool} {l : List α} :
    l.filter p = l.filter q ↔ ∀ x ∈ l, p x = q x := by
  refine ⟨fun h x hx => ?_, fun h => List.filter_congr h⟩
  have hmem : x ∈ l.filter p ↔ x ∈ l.filter q := h ▸ Iff.rfl
  rw [List.mem_filter, List.mem_filter] at hmem
  rw [Bool.eq_iff_iff]
  exact ⟨fun hp => (hmem.mp ⟨hx, hp⟩).2, fun hq => (hmem.mpr ⟨hx, hq⟩).2⟩

lemma deleteForTarget_iff (links : List ShareLink) (storageId : Uuid) {folder : Path}
    (hfolder : isFolderPath folder = true) (hroot : folder.head? ≠ some '/') :
    deleteForTarget links storageId folder = links.filter (notUnder storageId folder) ↔
      ∀ l ∈ links, l.storageId = storageId → matchesUnder folder l.path = true → folder <+: l.path := by
  have hne : folder ≠ [] := by
    rintro rfl
    cases hfolder
  unfold deleteForTarget
  rw [normalizeTrashPath_eq hroot]
  dsimp only
  rw [if_neg hne, if_pos hfolder, filter_eq_filter_iff]
  refine forall₂_congr fun l _ => ?_
  rw [notUnder, decide_eq_decide]
  have hbegins : folder <+: l.path → matchesUnder folder l.path = true := matchesUnder_of_begins
  tauto

/-- A rename gives the rows of the storage their new paths. It gives each link the path that its target gets
    just when all links of the storage allow it; and the links that a folder's deletion drops are those at or
    under it just when its pattern matches no others. -/
theorem shares_follow_iff {db : Db} (hwf : db.Wf) (links : List ShareLink) (storageId : Uuid)
    {oldPath newPath folder : Path} (hold : oldPath.head? ≠ some '/') (hnew : newPath.head? ≠ some '/')
    (hfolder : isFolderPath folder = true) (hroot : folder.head? ≠ some '/') :
    (∀ order db', db.rewritePaths oldPath newPath storageId true order = .ok db' →
        ∀ r', r' ∈ db'.files ↔ ∃ r ∈ db.files, r' =
          if r.storageId = storageId ∧ r.Live then r.withPath (movedPath oldPath newPath r.path) else r) ∧
      (rewriteShares links storageId oldPath newPath = links.map (followed storageId oldPath newPath) ↔
        ∀ l ∈ links, l.storageId = storageId → Follows oldPath newPath l.path) ∧
      (deleteForTarget links storageId folder = links.filter (notUnder storageId folder) ↔
        ∀ l ∈ links, l.storageId = storageId → matchesUnder folder l.path = true → folder <+: l.path) :=
  ⟨fun _ _ hok => rewritePaths_movedPath hwf hok, rewriteShares_iff links hold hnew,
    deleteForTarget_iff links storageId hfolder hroot⟩

/-- The link of a document in one of two folders. -/
def docsLink : ShareLink :=
  ⟨1, 1, "Docs/plan".toList⟩

theorem docsLink_follows :
    rewriteShares [docsLink] 1 "Docs/".toList "Old/".toList =
      [docsLink].map (followed 1 "Docs/".toList "Old/".toList) := by
  have h := shares_follow_iff (Db.fresh_wf []) [docsLink] 1 (by decide : "Docs/".toList.head? ≠ some '/')
    (by decide : "Old/".toList.head? ≠ some '/') (by decide : isFolderPath "Docs/".toList = true) (by decide)
  exact h.2.1.mpr (by decide)

/-- When the other folder is renamed it follows that. -/
theorem docsLink_leaves :
    rewriteShares [docsLink] 1 "docs/".toList "old/".toList = [⟨1, 1, "old/plan".toList⟩] ∧
      [docsLink].map (followed 1 "docs/".toList "old/".toList) = [docsLink] ∧
      deleteForTarget [docsLink] 1 "docs/".toList = [] := by
  decide

/-! ## The links that a purge drops -/

/-- A row that a link resolves to: the live row at its path, where a file has to be uploaded, or an uploaded
    file under a folder's. -/
def FileRow.Serves (r : FileRow) (l : ShareLink) : Prop :=
  r.Live ∧ r.storageId = l.storageId ∧
    (r.path = l.path ∧ (isFolderPath l.path = true ∨ r.isUploaded = true) ∨
      isFolderPath l.path = true ∧ r.isUploaded = true ∧ startsWith r.path l.path = true ∧
        ¬isFolderPath r.path = true)

instance FileRow.Serves.decidable (r : FileRow) (l : ShareLink) : Decidable (r.Serves l) :=
  inferInstanceAs (Decidable (_ ∧ _ ∧ (_ ∨ _)))

section Purge

variable {db : Db} {ids order : List Uuid} {l : ShareLink}

lemma mem_listUploadedFilesUnder {s : Uuid} {folder : Path} {r : FileRow} :
    r ∈ db.listUploadedFilesUnder s folder ↔ r ∈ db.files ∧ r.storageId = s ∧ r.isUploaded = true ∧ r.Live ∧
      startsWith r.path folder = true ∧ ¬isFolderPath r.path = true := by
  rw [Db.listUploadedFilesUnder, List.mem_insertionSort, List.mem_filter, decide_eq_true_eq]

lemma resolves_iff (halive : ∀ r ∈ db.files, ∀ r' ∈ db.files, r.Live → r'.Live → r.storageId = r'.storageId →
    r.path = r'.path → r = r') : db.resolves l = true ↔ ∃ r ∈ db.files, r.Serves l := by
  unfold Db.resolves FileRow.Serves
  split
  · case isTrue hfolder =>
    rw [Bool.or_eq_true, Bool.not_eq_true', List.isEmpty_eq_false_iff_exists_mem]
    constructor
    · rintro (hmarker | ⟨r, hr⟩)
      · obtain ⟨r, hr, hs, hp, hl⟩ := mem_of_livePathExists hmarker
        exact ⟨r, hr, hl, hs, .inl ⟨hp, .inl hfolder⟩⟩
      · obtain ⟨hr, hs, hup, hl, hrange, hfile⟩ := mem_listUploadedFilesUnder.mp hr
        exact ⟨r, hr, hl, hs, .inr ⟨hfolder, hup, hrange, hfile⟩⟩
    · rintro ⟨r, hr, hl, hs, ⟨hp, -⟩ | ⟨-, hup, hrange, hfile⟩⟩
      · exact .inl (hp ▸ livePathExists_of_mem hr hl hs)
      · exact .inr ⟨r, mem_listUploadedFilesUnder.mpr ⟨hr, hs, hup, hl, hrange, hfile⟩⟩
  · case isFalse hfile =>
    rw [Option.any_eq_true]
    constructor
    · rintro ⟨r, hat, hup⟩
      obtain ⟨hr, hs, hp, hl⟩ := Db.liveAt_some hat
      exact ⟨r, hr, hl, hs, .inl ⟨hp, .inr hup⟩⟩
    · rintro ⟨r, hr, hl, hs, ⟨hp, hup⟩ | ⟨hfolder, -⟩⟩
      · have hsome : db.livePathExists l.storageId l.path = true := hp ▸ livePathExists_of_mem hr hl hs
        obtain ⟨r', hat⟩ := Option.isSome_iff_exists.mp hsome
        obtain ⟨hr', hs', hp', hl'⟩ := Db.liveAt_some hat
        obtain rfl := halive r' hr' r hr hl' hl (hs'.trans hs.symm) (hp'.trans hp.symm)
        exact ⟨r', hat, hup.resolve_left hfile⟩
      · exact absurd hfolder hfile

lemma serves_purge (htrashed : ∀ r ∈ db.files, r.id ∈ ids → ¬r.Live) (links : List ShareLink)
    (io : Db.PurgeIo) :
    (∃ r ∈ (db.purgeFileIds links ids order io).2.files, r.Serves l) ↔ ∃ r ∈ db.files, r.Serves l := by
  unfold Db.purgeFileIds
  split
  · exact Iff.rfl
  · dsimp only
    split
    · constructor
      · rintro ⟨r, hr, hserves⟩
        exact ⟨r, (Mirror.mem_deleteEach.mp hr).1, hserves⟩
      · rintro ⟨r, hr, hserves⟩
        refine ⟨r, Mirror.mem_deleteEach.mpr ⟨hr, fun hvisit => ?_⟩, hserves⟩
        obtain ⟨f, hf, hids, hid⟩ := mem_idsWhere.mp (mem_visitOrder.mp hvisit)
        exact htrashed r hr (hid ▸ of_decide_eq_true hids) hserves.1
    · exact Iff.rfl

lemma purge_files_sub {links : List ShareLink} {io : Db.PurgeIo} {r : FileRow}
    (h : r ∈ (db.purgeFileIds links ids order io).2.files) : r ∈ db.files := by
  unfold Db.purgeFileIds at h
  split at h
  · exact h
  · dsimp only at h
    split at h
    · exact (Mirror.mem_deleteEach.mp h).1
    · exact h

/-- A link has the path of a row, or is matched by its pattern if it is a folder's. -/
def FileRow.Claims (f : FileRow) (l : ShareLink) : Prop :=
  f.storageId = l.storageId ∧
    (l.path = f.path ∨ isFolderPath f.path = true ∧ matchesUnder f.path l.path = true)

instance FileRow.Claims.decidable (f : FileRow) (l : ShareLink) : Decidable (f.Claims l) :=
  inferInstanceAs (Decidable (_ ∧ (_ ∨ _)))

lemma mem_purge_links {links : List ShareLink} {io : Db.PurgeIo} :
    l ∈ (db.purgeFileIds links ids order io).1 ↔ l ∈ links ∧
      (io.messages = true → io.shares = true → ∀ f ∈ db.files, f.id ∈ ids → ¬f.Claims l) := by
  unfold Db.purgeFileIds
  split
  · case isTrue hnone =>
    refine (and_iff_left fun hmessages _ f _ hid => ?_).symm
    obtain rfl | hfails := hnone
    · exact absurd hid List.not_mem_nil
    · rw [hmessages] at hfails
      cases hfails
  · case isFalse hsome =>
    obtain ⟨hids, hmessages⟩ := not_or.mp hsome
    rw [Bool.not_eq_true', Bool.not_eq_false] at hmessages
    dsimp only
    split
    · case isTrue hshares =>
      rw [Db.deleteForFileIds, if_neg hids, List.mem_filter, decide_eq_true_eq]
      refine and_congr_right fun _ => ?_
      constructor
      · intro hnone _ _ f hf hid hclaims
        exact hnone ⟨f, hf, hclaims.1, hclaims.2, hid⟩
      · rintro hall ⟨f, hf, hs, hpath, hid⟩
        exact hall hmessages hshares f hf hid ⟨hs, hpath⟩
    · case isFalse hshares => exact (and_iff_left fun _ htrue => absurd htrue hshares).symm

/-- A purge of trashed rows keeps the links that still resolve just when no live row serves a link that a purged
    row claims; or when the statements before do not get to the links, or the one on the links fails. -/
theorem purge_keeps_shares_iff (hwf : db.Wf) (links : List ShareLink) (order : List Uuid) (io : Db.PurgeIo)
    (htrashed : ∀ r ∈ db.files, r.id ∈ ids → ¬r.Live) :
    (∀ l ∈ links, (db.purgeFileIds links ids order io).2.resolves l = true →
        l ∈ (db.purgeFileIds links ids order io).1) ↔
      (io.messages = true → io.shares = true → ∀ f ∈ db.files, f.id ∈ ids → ∀ l ∈ links, f.Claims l →
        ∀ r ∈ db.files, ¬r.Serves l) := by
  have hresolves (l : ShareLink) :
      (db.purgeFileIds links ids order io).2.resolves l = true ↔ ∃ r ∈ db.files, r.Serves l := by
    rw [resolves_iff, serves_purge htrashed]
    exact fun r hr r' hr' => hwf.aliveUnique r (purge_files_sub hr) r' (purge_files_sub hr')
  constructor
  · intro hkeeps hmessages hshares f hf hid l hl hclaims r hr hserves
    have hkept := hkeeps l hl ((hresolves l).mpr ⟨r, hr, hserves⟩)
    exact (mem_purge_links.mp hkept).2 hmessages hshares f hf hid hclaims
  · intro hnone l hl hres
    obtain ⟨r, hr, hserves⟩ := (hresolves l).mp hres
    refine mem_purge_links.mpr ⟨hl, fun hmessages hshares f hf hid hclaims => ?_⟩
    exact hnone hmessages hshares f hf hid l hl hclaims r hr hserves

end Purge

/-- A folder in the trash, one that was made again under its name, and a file. -/
def docsAgain : Db :=
  { Db.fresh [⟨1, 0⟩] with
    files := [((InFile.new "docs/".toList 0 1).toRow 7 true).withDeletedAt (some 0),
      (InFile.new "docs/".toList 0 1).toRow 8 true, (InFile.new "plan".toList 5 1).toRow 9 true] }

lemma docsAgain_wf : docsAgain.Wf where
  idUnique := by decide
  aliveUnique := by decide
  storageExists := by decide
  eventsGrow := List.Pairwise.nil
  eventsSeen := fun _ he => absurd he List.not_mem_nil

def purgeDocs (link : ShareLink) : List ShareLink × Db :=
  docsAgain.purgeFileIds [link] [7] [] ⟨true, true, true⟩

theorem purgeDocs_keeps : (⟨1, 1, "plan".toList⟩ : ShareLink) ∈ (purgeDocs ⟨1, 1, "plan".toList⟩).1 :=
  (purge_keeps_shares_iff docsAgain_wf [⟨1, 1, "plan".toList⟩] [] ⟨true, true, true⟩ (by decide)).mpr
    (by decide) _ (List.mem_singleton.mpr rfl) (by decide)

/-- The link of the new folder goes with it. -/
theorem purgeDocs_drops :
    (purgeDocs ⟨1, 1, "docs/".toList⟩).2.resolves ⟨1, 1, "docs/".toList⟩ = true ∧
      (purgeDocs ⟨1, 1, "docs/".toList⟩).1 = [] := by
  decide

end Sarca.Server
