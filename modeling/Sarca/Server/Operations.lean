import Sarca.Lib.Run
import Sarca.Server.Changelog

/-!
# Runs of row operations

`RowOp` lists what the server does to rows of `files`, each with the fresh ids, the instant and the
visiting order it meets; `exec` runs one and leaves the database alone when it fails. A step is
`Truthful` when every mirror that described the live rows before it describes them after it: every
operation is, except the two that write trashed rows under the same trigger as live ones. For those
`TwinFree` is the exact condition (`describes_exec_iff`), and `changelog_sound_iff` carries it over
whole runs.
-/

namespace Sarca.Server
open Sarca.Lib

inductive RowOp where
  | createFile (inObj : InFile) (id : Uuid)
  | createFolder (inObj : InFile) (id : Uuid)
  | setAsUploaded (fileId : Uuid)
  | setThumb (fileId : Uuid) (telegramFileId : String) (messageId : Int)
  | setPreview (fileId : Uuid) (telegramFileId : String) (messageId : Int)
  | delete (path : Path) (storageId : Uuid) (now : Instant) (markerId : Uuid) (order : List Uuid)
  | restore (path : Path) (storageId : Uuid) (order : List Uuid)
  | ensureLiveParentFolders (path : Path) (storageId : Uuid) (ids order : List Uuid)
  | updatePath (oldPath newPath : Path) (storageId : Uuid) (order : List Uuid)
  | updateTrashedPath (oldPath newPath : Path) (storageId : Uuid) (order : List Uuid)
  | replaceContent (fileId : Uuid) (expectedHash : Option ContentHash) (retiredPath : Path)
      (incoming : InFile) (retiredId : Uuid) (now : Instant)
  | hardDeleteIds (ids order : List Uuid)
deriving DecidableEq, Repr

def attempt (db : Db) : RowOp → Except SarcaError Db
  | .createFile inObj id => db.createFileRow inObj false id
  | .createFolder inObj id => db.createFileRow inObj true id
  | .setAsUploaded fileId => db.setAsUploaded fileId
  | .setThumb fileId telegramFileId messageId => db.setThumb fileId telegramFileId messageId
  | .setPreview fileId telegramFileId messageId => db.setPreview fileId telegramFileId messageId
  | .delete path storageId now markerId order => db.delete path storageId now markerId order
  | .restore path storageId order => db.restore path storageId order
  | .ensureLiveParentFolders path storageId ids order =>
    .ok (db.ensureLiveParentFolders path storageId ids order)
  | .updatePath oldPath newPath storageId order =>
    db.rewritePaths oldPath newPath storageId true order
  | .updateTrashedPath oldPath newPath storageId order =>
    db.rewritePaths oldPath newPath storageId false order
  | .replaceContent fileId expectedHash retiredPath incoming retiredId now =>
    db.replaceContent fileId expectedHash retiredPath incoming retiredId now
  | .hardDeleteIds ids order => .ok (db.hardDeleteIds ids order)

/-- The database an operation leaves: a failed one leaves it as it was. -/
def exec (db : Db) (op : RowOp) : Db :=
  match attempt db op with
  | .ok db' => db'
  | .error _ => db

/-- No row the operation takes out of the trash's path has a listed live twin that stays behind: a
    purged twin's live row is purged with it, and a trashed row that moves has none. -/
def TwinFree (s : Uuid) (db : Db) : RowOp → Prop
  | .hardDeleteIds ids _ =>
    ∀ t ∈ db.files, t.storageId = s → t.id ∈ ids →
      ∀ r ∈ db.files, r.storageId = s → r.Live → r.Listed → r.path = t.path → r.id ∈ ids
  | .updateTrashedPath oldPath newPath storageId _ =>
    ∀ t ∈ db.files, t.storageId = s → renamedTrashed oldPath newPath storageId t →
      ∀ r ∈ db.files, r.storageId = s → r.Live → r.Listed → r.path ≠ t.path
  | _ => True
where
  /-- A trashed row the rename gives another path. -/
  renamedTrashed (oldPath newPath : Path) (storageId : Uuid) (t : FileRow) : Prop :=
    Db.renamed oldPath storageId false t = true ∧ Db.rewrittenPath oldPath newPath t.path ≠ t.path

/-- Replaying the changelog gives the live rows of a storage. -/
structure ChangelogSound (s : Uuid) (db : Db) : Prop extends
    Depicts (Mirror.empty.view s db) s db where
  lastNotDelete : ∀ r ∈ db.files, r.storageId = s → r.Live → r.Listed →
    ∀ before e after, db.eventsOf s = before ++ e :: after → e.path = r.path →
      (∀ f ∈ after, f.path ≠ r.path) → e.op ≠ .delete

/-! ## Truthful steps -/

/-- Every mirror that described the live rows of a storage still does. -/
def Truthful (db db' : Db) : Prop :=
  ∀ (μ : Mirror) (s : Uuid), μ.Sane db → μ.Sane db' ∧ (μ.Describes s db → μ.Describes s db')

namespace Truthful

variable {db db' db'' : Db}

lemma refl (db : Db) : Truthful db db := fun _ _ h => ⟨h, id⟩

lemma trans (h : Truthful db db') (h' : Truthful db' db'') : Truthful db db'' := by
  intro μ s hs
  obtain ⟨hs', hd'⟩ := h μ s hs
  obtain ⟨hs'', hd''⟩ := h' μ s hs'
  exact ⟨hs'', hd'' ∘ hd'⟩

lemma insertFile {row : FileRow} (hok : db.insertFile row = .ok db') : Truthful db db' :=
  fun _ _ h => ⟨h.insertFile hok, fun hd => Mirror.describes_insertFile h hd hok⟩

lemma updateFiles {order : List Uuid} {p : FileRow → Bool} {f : FileRow → FileRow}
    (hok : db.updateFiles order p f = .ok db') (hf : KeepsKey f)
    (hsafe : ∀ r, p r = true → r.Live ∨ (f r).path = r.path) : Truthful db db' := by
  intro μ s h
  refine ⟨h.updateEach hok hf, fun hd => ?_⟩
  apply Mirror.describes_updateEach h hd hok hf (visitOrder_nodup _ _)
  intro r hr hm
  obtain ⟨q, hq, hp, hid⟩ := mem_idsWhere.mp (mem_visitOrder.mp hm)
  rw [h.wf.idUnique q hq r hr hid] at hp
  exact hsafe r hp

lemma moveChunks (fileId retiredId : Uuid) : Truthful db (db.moveChunks fileId retiredId) :=
  fun _ _ h => ⟨⟨⟨h.wf.idUnique, h.wf.aliveUnique, h.wf.storageExists, h.wf.eventsGrow,
    h.wf.eventsSeen⟩, h.past⟩, fun hd => ⟨hd.present, hd.absent⟩⟩

lemma updateById {id : Uuid} {f : FileRow → FileRow} (hok : db.updateById id f = .ok db')
    (hf : KeepsKey f) (hpath : ∀ r, (f r).path = r.path) : Truthful db db' :=
  updateFiles (Db.updateById_inv hok) hf fun r _ => Or.inr (hpath r)

lemma createFileRow {inObj : InFile} {up : Bool} {id : Uuid}
    (hok : db.createFileRow inObj up id = .ok db') : Truthful db db' :=
  insertFile (Db.createFileRow_ok hok)

lemma retire {current : FileRow} {retiredId : Uuid} {retiredPath : Path} {now : Instant}
    (hok : db.retire current retiredId retiredPath now = .ok db') : Truthful db db' := by
  rcases Db.retire_inv hok with ⟨-, rfl⟩ | ⟨-, db₁, hins, rfl⟩
  · exact refl _
  · exact (insertFile hins).trans (moveChunks _ _)

lemma replaceContent {fileId retiredId : Uuid} {expected : Option ContentHash} {retiredPath : Path}
    {incoming : InFile} {now : Instant}
    (hok : db.replaceContent fileId expected retiredPath incoming retiredId now = .ok db') :
    Truthful db db' := by
  obtain ⟨current, -, -, -, -, db₁, hret, hupd⟩ := Db.replaceContent_inv hok
  exact (retire hret).trans (updateById hupd (fun _ => ⟨rfl, rfl⟩) fun _ => rfl)

lemma recreateParent {storageId markerId : Uuid} {path : Path}
    (hok : db.recreateParent storageId path markerId = .ok db') : Truthful db db' := by
  rcases Db.recreateParent_inv hok with ⟨rfl, -⟩ | ⟨parent, -, -, hins⟩
  · exact refl _
  · exact insertFile hins

lemma delete {path : Path} {storageId markerId : Uuid} {now : Instant} {order : List Uuid}
    (hok : db.delete path storageId now markerId order = .ok db') : Truthful db db' := by
  obtain ⟨db₁, hupd, -, hparent⟩ := Db.delete_inv hok
  exact (updateFiles hupd (fun _ => ⟨rfl, rfl⟩) fun _ _ => Or.inr rfl).trans (recreateParent hparent)

lemma restore {path : Path} {storageId : Uuid} {order : List Uuid}
    (hok : db.restore path storageId order = .ok db') : Truthful db db' := by
  rcases Db.restore_inv hok with rfl | hupd
  · exact refl _
  · exact updateFiles hupd (fun _ => ⟨rfl, rfl⟩) fun _ _ => Or.inr rfl

lemma ensureLiveFolder {path : Path} {storageId id : Uuid} {order : List Uuid}
    (hok : db.ensureLiveFolder path storageId id order = .ok db') : Truthful db db' := by
  rcases Db.ensureLiveFolder_inv hok with rfl | ⟨marker, -, hupd⟩ | hins
  · exact refl _
  · exact updateFiles hupd (fun _ => ⟨rfl, rfl⟩) fun _ _ => Or.inr rfl
  · exact insertFile hins

lemma ensureFolders (storageId : Uuid) (order : List Uuid) (folders : List (Path × Uuid))
    (db : Db) : Truthful db (Db.ensureFolders storageId order folders db) := by
  induction folders generalizing db with
  | nil => exact refl db
  | cons folder rest ih =>
    unfold Db.ensureFolders
    split
    · case h_1 db₁ hone => exact (ensureLiveFolder hone).trans (ih db₁)
    · exact refl db

lemma rewritePaths_live {oldPath newPath : Path} {storageId : Uuid} {order : List Uuid}
    (hok : db.rewritePaths oldPath newPath storageId true order = .ok db') : Truthful db db' := by
  refine updateFiles (Db.rewritePaths_inv hok) (fun _ => ⟨rfl, rfl⟩) fun r hp => Or.inl ?_
  simp only [Db.renamed, if_true, decide_eq_true_eq] at hp
  exact hp.2.1

end Truthful

/-! ## Steps that write trashed rows -/

variable {μ : Mirror} {s : Uuid} {db : Db}

lemma mem_visited {order : List Uuid} {p : FileRow → Bool} (h : db.Wf) {r : FileRow}
    (hr : r ∈ db.files) : r.id ∈ visitOrder order (db.idsWhere p) ↔ p r = true := by
  rw [mem_visitOrder, mem_idsWhere]
  constructor
  · rintro ⟨q, hq, hp, hid⟩
    rwa [h.idUnique q hq r hr hid] at hp
  · intro hp
    exact ⟨r, hr, hp, rfl⟩

/-- A map that only loses the paths in `K` describes the live rows just when no listed live row stands
    at one of them. -/
lemma describes_iff_of_dropped {db' : Db} (hd : μ.Describes s db) {K : Path → Prop}
    [DecidablePred K] (hview : ∀ p, μ.view s db' p = if K p then none else μ.view s db p)
    (hlive : ∀ r, r.Live → r ∈ db'.files → r ∈ db.files)
    (hgone : ∀ r, r.Live → r.storageId = s → r ∈ db.files → r ∉ db'.files → K r.path) :
    μ.Describes s db' ↔
      ∀ r ∈ db'.files, r.storageId = s → r.Live → r.Listed → ¬ K r.path := by
  constructor
  · intro hd' r hr hs hl hlist hK
    have hnone := hview r.path
    rw [if_pos hK, hd'.present r hr hs hl hlist] at hnone
    cases hnone
  · intro hfree
    constructor
    · intro r hr hs hl hlist
      rw [hview, if_neg (hfree r hr hs hl hlist)]
      exact hd.present r (hlive r hl hr) hs hl hlist
    · intro p hp
      rw [hview]
      by_cases hK : K p
      · rw [if_pos hK]
      · rw [if_neg hK]
        apply hd.absent
        rintro r hr hs hl rfl
        exact hK (hgone r hl hs hr fun hr' => hp r hr' hs hl rfl)

lemma describes_hardDeleteIds_iff (h : μ.Sane db) (hd : μ.Describes s db) (ids order : List Uuid) :
    μ.Describes s (db.hardDeleteIds ids order) ↔ TwinFree s db (.hardDeleteIds ids order) := by
  have hvis : ∀ r ∈ db.files,
      (r.id ∈ visitOrder order (db.idsWhere fun q => q.id ∈ ids) ↔ r.id ∈ ids) := by
    intro r hr
    rw [mem_visited h.wf hr, decide_eq_true_eq]
  have hfiles : ∀ r, r ∈ (db.hardDeleteIds ids order).files ↔ r ∈ db.files ∧ r.id ∉ ids := by
    intro r
    refine Mirror.mem_deleteEach.trans ?_
    exact and_congr_right fun hr => not_congr (hvis r hr)
  rw [Db.hardDeleteIds, Db.deleteFiles, describes_iff_of_dropped hd (Mirror.view_deleteEach h _)
    (fun r _ hr => ((hfiles r).mp hr).1)]
  · constructor
    · intro hfree t ht hts hti r hr hs hl hlist hp
      by_contra hri
      exact hfree r ((hfiles r).mpr ⟨hr, hri⟩) hs hl hlist
        ⟨t, ht, (hvis t ht).mpr hti, hts, hp.symm⟩
    · rintro hfree r hr hs hl hlist ⟨t, ht, hti, hts, hp⟩
      obtain ⟨hr, hri⟩ := (hfiles r).mp hr
      exact hri (hfree t ht hts ((hvis t ht).mp hti) r hr hs hl hlist hp.symm)
  · intro r hl hs hr hgone
    refine ⟨r, hr, ?_, hs, rfl⟩
    rw [hvis r hr]
    by_contra hri
    exact hgone ((hfiles r).mpr ⟨hr, hri⟩)

lemma updateEach_trashed_ok (h : db.Wf) {g : Path → Path} {ids : List Uuid} (hnodup : ids.Nodup)
    (htrash : ∀ r ∈ db.files, r.id ∈ ids → ¬ r.Live) :
    ∃ db', db.updateEach (fun r => r.withPath (g r.path)) ids = .ok db' := by
  induction ids generalizing db with
  | nil => exact ⟨db, rfl⟩
  | cons id ids ih =>
    unfold Db.updateEach
    split
    · exact ih h hnodup.of_cons fun r hr hm => htrash r hr (List.mem_cons_of_mem id hm)
    · case h_2 old hsome =>
      obtain ⟨hold, rfl⟩ := Db.fileById_some hsome
      have hto := htrash old hold List.mem_cons_self
      have hfree : ¬ db.Occupied (old.withPath (g old.path)) := fun hocc => hto hocc.1
      have hrep : ∃ db₁, db.replaceFile old (old.withPath (g old.path)) = .ok db₁ :=
        ⟨_, if_neg hfree⟩
      obtain ⟨db₁, hrep⟩ := hrep
      simp only [hrep]
      apply ih (h.replaceFile hold hrep rfl rfl) hnodup.of_cons
      intro r hr hm
      rcases (Db.mem_replaceFile h hold hrep).mp hr with rfl | ⟨hr, -⟩
      · exact hto
      · exact htrash r hr (List.mem_cons_of_mem _ hm)

lemma renamed_trashed (h : db.Wf) {oldPath : Path} {storageId : Uuid} {order : List Uuid} :
    ∀ r ∈ db.files, r.id ∈ visitOrder order
      (db.idsWhere (Db.renamed oldPath storageId false)) → ¬ r.Live := by
  intro r hr hm
  have hren := (mem_visited h hr).mp hm
  simp only [Db.renamed, decide_eq_true_eq] at hren
  simpa using hren.2.1

lemma exec_updateTrashedPath (h : db.Wf) (oldPath newPath : Path) (storageId : Uuid)
    (order : List Uuid) :
    ∃ db', db.updateEach (fun r => r.withPath (Db.rewrittenPath oldPath newPath r.path))
        (visitOrder order (db.idsWhere (Db.renamed oldPath storageId false))) = .ok db' ∧
      exec db (.updateTrashedPath oldPath newPath storageId order) = db' := by
  obtain ⟨db', hok⟩ := updateEach_trashed_ok (g := Db.rewrittenPath oldPath newPath) h
    (visitOrder_nodup _ _) (renamed_trashed h)
  refine ⟨db', hok, ?_⟩
  simp only [exec, attempt, Db.rewritePaths, Db.updateFiles, hok]

lemma describes_updateTrashedPath_iff (h : μ.Sane db) (hd : μ.Describes s db)
    (oldPath newPath : Path) (storageId : Uuid) (order : List Uuid) :
    μ.Describes s (exec db (.updateTrashedPath oldPath newPath storageId order)) ↔
      TwinFree s db (.updateTrashedPath oldPath newPath storageId order) := by
  have hvis : ∀ r ∈ db.files, r.id ∈ visitOrder order
      (db.idsWhere (Db.renamed oldPath storageId false)) ↔ Db.renamed oldPath storageId false r :=
    fun r hr => mem_visited h.wf hr
  have htrash : ∀ r ∈ db.files, r.id ∈ visitOrder order
      (db.idsWhere (Db.renamed oldPath storageId false)) → ¬ r.Live := renamed_trashed h.wf
  obtain ⟨db', hok, hexec⟩ := exec_updateTrashedPath h.wf oldPath newPath storageId order
  rw [hexec]
  have hlive : ∀ r, r.Live → (r ∈ db'.files ↔ r ∈ db.files) := fun r hl =>
    Mirror.mem_updateEach_trashed h (visitOrder_nodup _ _) htrash hok hl
  rw [describes_iff_of_dropped hd
    (Mirror.view_updateEach_trashed h (visitOrder_nodup _ _) htrash hok)
    (fun r hl hr => (hlive r hl).mp hr)
    (fun r hl _ hr hgone => absurd ((hlive r hl).mpr hr) hgone)]
  constructor
  · rintro hfree t ht hts ⟨hren, hmoved⟩ r hr hs hl hlist hp
    exact hfree r ((hlive r hl).mpr hr) hs hl hlist
      ⟨t, ht, (hvis t ht).mpr hren, hts, hp.symm, hmoved⟩
  · rintro hfree r hr hs hl hlist ⟨t, ht, hti, hts, hp, hmoved⟩
    exact hfree t ht hts ⟨(hvis t ht).mp hti, hmoved⟩ r ((hlive r hl).mp hr) hs hl hlist hp.symm

/-! ## Runs -/

lemma truthful_exec {op : RowOp} (h : ∀ db', attempt db op = .ok db' → Truthful db db') :
    Truthful db (exec db op) := by
  unfold exec
  split
  · case h_1 db' hok => exact h db' hok
  · exact Truthful.refl db

lemma truthful_or_trash (db : Db) (op : RowOp) :
    Truthful db (exec db op) ∨ (∃ ids order, op = .hardDeleteIds ids order) ∨
      ∃ oldPath newPath storageId order, op = .updateTrashedPath oldPath newPath storageId order := by
  cases op with
  | createFile inObj id => exact Or.inl (truthful_exec fun _ => Truthful.createFileRow)
  | createFolder inObj id => exact Or.inl (truthful_exec fun _ => Truthful.createFileRow)
  | setAsUploaded fileId =>
    exact Or.inl (truthful_exec fun _ hok =>
      Truthful.updateById hok (fun _ => ⟨rfl, rfl⟩) fun _ => rfl)
  | setThumb fileId telegramFileId messageId =>
    exact Or.inl (truthful_exec fun _ hok =>
      Truthful.updateById hok (fun _ => ⟨rfl, rfl⟩) fun _ => rfl)
  | setPreview fileId telegramFileId messageId =>
    exact Or.inl (truthful_exec fun _ hok =>
      Truthful.updateById hok (fun _ => ⟨rfl, rfl⟩) fun _ => rfl)
  | delete path storageId now markerId order =>
    exact Or.inl (truthful_exec fun _ => Truthful.delete)
  | restore path storageId order => exact Or.inl (truthful_exec fun _ => Truthful.restore)
  | ensureLiveParentFolders path storageId ids order =>
    exact Or.inl (Truthful.ensureFolders storageId order _ db)
  | updatePath oldPath newPath storageId order =>
    exact Or.inl (truthful_exec fun _ => Truthful.rewritePaths_live)
  | updateTrashedPath oldPath newPath storageId order =>
    exact Or.inr (Or.inr ⟨oldPath, newPath, storageId, order, rfl⟩)
  | replaceContent fileId expectedHash retiredPath incoming retiredId now =>
    exact Or.inl (truthful_exec fun _ => Truthful.replaceContent)
  | hardDeleteIds ids order => exact Or.inr (Or.inl ⟨ids, order, rfl⟩)

lemma sane_exec (h : μ.Sane db) (op : RowOp) : μ.Sane (exec db op) := by
  rcases truthful_or_trash db op with ht | ⟨ids, order, rfl⟩ | ⟨oldPath, newPath, st, order, rfl⟩
  · exact (ht μ 0 h).1
  · exact h.deleteEach _
  · obtain ⟨db', hok, hexec⟩ := exec_updateTrashedPath h.wf oldPath newPath st order
    rw [hexec]
    exact h.updateEach hok fun _ => ⟨rfl, rfl⟩

/-- One operation: the description survives just when the operation takes no path from a live
    twin. -/
theorem describes_exec_iff (h : μ.Sane db) (hd : μ.Describes s db) (op : RowOp) :
    μ.Describes s (exec db op) ↔ TwinFree s db op := by
  rcases truthful_or_trash db op with ht | ⟨ids, order, rfl⟩ | ⟨oldPath, newPath, st, order, rfl⟩
  · have hkept := (ht μ s h).2 hd
    cases op with
    | hardDeleteIds ids order =>
      exact describes_hardDeleteIds_iff h hd ids order
    | updateTrashedPath oldPath newPath storageId order =>
      exact describes_updateTrashedPath_iff h hd oldPath newPath storageId order
    | _ => exact iff_of_true hkept trivial
  · exact describes_hardDeleteIds_iff h hd ids order
  · exact describes_updateTrashedPath_iff h hd oldPath newPath st order

lemma empty_unread (h : db.Wf) : Mirror.empty.unread s db = db.eventsOf s := by
  apply List.filter_eq_self.mpr
  intro e he
  exact decide_eq_true (h.eventsSeen e (List.mem_of_mem_filter he)).1

/-- The changelog is sound just when the mirror that replays all of it describes the live rows: the
    last event of a path says what replaying leaves there. -/
lemma changelogSound_iff (h : db.Wf) : ChangelogSound s db ↔ Mirror.empty.Describes s db := by
  constructor
  · exact ChangelogSound.toDepicts
  · intro hd
    refine ⟨hd, ?_⟩
    intro r hr hs hl hlist before e after hsplit hpath hafter hop
    have hkey : e.entry.key = r.path := (entry_key _).trans hpath
    have hview := hd.present r hr hs hl hlist
    rw [Mirror.view, empty_unread h, hsplit, List.map_append, List.map_cons, ← hkey,
      Log.replay_last] at hview
    · simp [EventData.entry, hop, Log.Entry.value] at hview
    · intro f hf
      obtain ⟨g, hg, rfl⟩ := List.mem_map.mp hf
      rw [entry_key, hkey]
      exact hafter g hg

/-- The changelog of a storage is sound throughout a run of row operations just when no operation of
    the run takes a path from a live twin. -/
theorem changelog_sound_iff (storages : List Storage) (s : Uuid) (ops : List RowOp) :
    Always exec (ChangelogSound s) (Db.fresh storages) ops ↔
      AllOk exec (TwinFree s) (Db.fresh storages) ops := by
  have hsane : Mirror.empty.Sane (Db.fresh storages) := ⟨Db.fresh_wf storages, Nat.le_refl 0⟩
  have hstart : ChangelogSound s (Db.fresh storages) :=
    (changelogSound_iff hsane.wf).mpr ⟨fun _ hr => absurd hr List.not_mem_nil, fun _ _ => rfl⟩
  apply always_iff_allOk (I := Mirror.empty.Sane) ?_ ?_ hsane hstart
  · intro db op h _
    exact sane_exec h op
  · intro db op h hd
    rw [changelogSound_iff h.wf] at hd
    rw [changelogSound_iff (sane_exec h op).wf]
    exact describes_exec_iff h hd op

/-- A file is uploaded, trashed and uploaded again; then the trashed twin is purged. -/
def twinPurge : List RowOp :=
  let file : InFile := { InFile.new ['a'] 3 1 with chunkSizeBytes := some 1 }
  [.createFile file 10, .setAsUploaded 10, .delete ['a'] 1 0 11 [], .createFile file 20,
    .setAsUploaded 20, .hardDeleteIds [10] []]

/-- The purge of a trashed twin is the last word of the changelog on a path that is live and
    uploaded. -/
theorem twinPurge_unsound : ¬ ChangelogSound 1 (run exec (Db.fresh [⟨1, 1⟩]) twinPurge) := by
  intro h
  have hrow : (run exec (Db.fresh [⟨1, 1⟩]) twinPurge).liveAt 1 ['a'] =
      some { InFile.toRow { InFile.new ['a'] 3 1 with chunkSizeBytes := some 1 } 20 true with
        isUploaded := true } := by decide
  obtain ⟨hmem, -, -, hlive⟩ := Db.liveAt_some hrow
  have hview := h.present _ hmem rfl hlive (Or.inl rfl)
  exact absurd hview (by decide)

end Sarca.Server
