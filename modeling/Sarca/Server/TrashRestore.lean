import Sarca.Server.FreeNames
import Sarca.Server.Snapshot

/-!
# Restoring an entry

`TrashService::restore` resolves a conflict with what is live, makes the folders above the entry live, and puts
back what is at or under it: three statements or more, and no transaction. The last one fails when two trashed
rows share a path, and what the others did stays.

`BringsBack` is what a restore is for, `Restorable` is when a call does that.
-/

namespace Sarca.Server
open Sarca.Lib

variable {db d : Db} {s : Uuid} {path p : Path}

/-! ## What a restore is for -/

/-- The row is in the storage, at a path or under it. -/
def AtPath (s : Uuid) (p : Path) (r : FileRow) : Prop :=
  r.storageId = s ∧ (r.path = p ∨ newPrefix p <+: r.path)

instance (s : Uuid) (p : Path) (r : FileRow) : Decidable (AtPath s p r) :=
  inferInstanceAs (Decidable (_ ∧ (_ ∨ _)))

/-- Something at or under a path is in the trash, and nothing there is live. -/
def OnlyTrashed (db : Db) (s : Uuid) (p : Path) : Prop :=
  (∃ r ∈ db.files, AtPath s p r) ∧ ∀ r ∈ db.files, AtPath s p r → ¬ r.Live

instance (s : Uuid) (p : Path) : Decidable (OnlyTrashed db s p) :=
  inferInstanceAs (Decidable ((∃ r ∈ db.files, _) ∧ ∀ r ∈ db.files, _))

/-- A call to `restore`: its answer, and the database it leaves. -/
def restoreCall (maxVariables : Nat) (w : World) (s : Uuid) (path : Path) (onConflict : Option String)
    (db : Db) : Except SarcaError Unit × Db :=
  (TrashService.restore w s path onConflict).execute (Statement.attempt maxVariables) db

/-- A restore of what is in the trash alone brings back each path, with one live row; a restore that fails
    changes no row. -/
structure BringsBack (maxVariables : Nat) (w : World) (s : Uuid) (path : Path) (onConflict : Option String)
    (db : Db) : Prop where
  back : OnlyTrashed db s (normalizeTrashPath path) →
    (restoreCall maxVariables w s path onConflict db).1 = .ok () ∧
      ∀ r ∈ db.files, AtPath s (normalizeTrashPath path) r →
        ∃! r', r' ∈ (restoreCall maxVariables w s path onConflict db).2.files ∧
          r'.storageId = s ∧ r'.Live ∧ r'.path = r.path
  unchanged : ∀ e, (restoreCall maxVariables w s path onConflict db).1 = .error e →
    (restoreCall maxVariables w s path onConflict db).2.files = db.files

/-- The path is named, no two rows at or under it share a path, it is the path of a file or of a folder and not
    of both, and no name in the folder begins with the last character there is. -/
structure Plain (db : Db) (s : Uuid) (path : Path) : Prop where
  named : path ≠ []
  alone : ∀ r ∈ db.files, ∀ q ∈ db.files, AtPath s (normalizeTrashPath path) r →
    AtPath s (normalizeTrashPath path) q → r.path = q.path → r = q
  form : isFolderPath (normalizeTrashPath path) = false →
    (∀ r ∈ db.files, AtPath s (normalizeTrashPath path) r → r.path = normalizeTrashPath path) ∨
      ∀ r ∈ db.files, AtPath s (normalizeTrashPath path) r → r.path ≠ normalizeTrashPath path
  within : ∀ r ∈ db.files, AtPath s (normalizeTrashPath path) r →
    ∀ rest, r.path = newPrefix (normalizeTrashPath path) ++ rest → rest.head? ≠ some maxChar

/-- The rows, and the path, once a conflict is resolved, if it is: the live ones are gone, or the trashed ones
    have another path. -/
def resolved (db : Db) (s : Uuid) (canonical : Path) (onConflict : Option String) : Option (Db × Path) :=
  if !db.liveConflictAt s canonical then some (db, canonical)
  else
    match onConflict with
    | some "replace" =>
      some ({ db with files := db.files.filter fun r => r.id ∉ db.listLiveIdsAtPath s canonical }, canonical)
    | some "rename" =>
      match db.nextAvailableLivePath s canonical with
      | .ok newPath => some ({ db with files := db.files.map (renamedRow canonical newPath s false) }, newPath)
      | .error _ => none
    | _ => none

/-- What stands behind the last statement: it can put rows back; or the call has changed nothing so far. -/
def Untroubled (db : Db) (s : Uuid) (canonical : Path) (onConflict : Option String) : Prop :=
  ∀ after ∈ resolved db s canonical onConflict, after.1.Undeletable s after.2 ∨
    db.liveConflictAt s canonical = false ∧
      ∀ folder ∈ Db.parentFolders canonical, db.livePathExists s folder = true

instance (s : Uuid) (canonical : Path) (onConflict : Option String) :
    Decidable (Untroubled db s canonical onConflict) :=
  inferInstanceAs (Decidable (∀ after ∈ resolved db s canonical onConflict, _ ∨ _))

structure Restorable (db : Db) (s : Uuid) (path : Path) (onConflict : Option String) : Prop where
  back : OnlyTrashed db s (normalizeTrashPath path) → Plain db s path
  unchanged : path ≠ [] → db.listTrashedIds s (normalizeTrashPath path) ≠ [] →
    Untroubled db s (db.canonicalTrashedPath s (normalizeTrashPath path)) onConflict

/-! ## The statements of a call -/

/-- What stands for `Uuid::new_v4`: the ids are new, and no two are the same. -/
structure World.DrawsFresh (w : World) : Prop where
  unused : ∀ db n, ∀ r ∈ db.files, r.id ≠ w.freshId db n
  apart : ∀ db m n, w.freshId db m = w.freshId db n → m = n

variable {w : World} {maxVariables : Nat}

variable (maxVariables) in
lemma execute_ensureParents (hw : w.DrawsFresh) (hwf : db.Wf) (hst : ∃ r ∈ db.files, r.storageId = s)
    (p : Path) : ∃ ids d, FoldersMade s (Db.parentFolders p) ids db d ∧
      (Service.ensureLiveParentFolders w s p).execute (Statement.attempt maxVariables) db = (.ok (), d) := by
  have hlength : ((List.range (Db.parentFolders p).length).map (w.freshId db)).length =
      (Db.parentFolders p).length := by
    rw [List.length_map, List.length_range]
  have hpaths := List.map_fst_zip (Nat.le_of_eq hlength.symm)
  have hids := List.map_snd_zip (Nat.le_of_eq hlength)
  have hmade := ensureFolders_made (w.order db)
    ((Db.parentFolders p).zip ((List.range (Db.parentFolders p).length).map (w.freshId db))) hwf hst
    (by
      rw [hids]
      exact List.nodup_range.map fun m n heq => hw.apart db m n heq)
    (by
      intro f hf r hr hid
      obtain ⟨n, -, hn⟩ := List.mem_map.mp (List.of_mem_zip hf).2
      exact hw.unused db n r hr (hid.trans hn.symm))
  rw [hpaths] at hmade
  refine ⟨_, _, hmade, ?_⟩
  have hall : ((Db.parentFolders p).all fun folder => (db.ensureLiveParentFolders p s
      ((List.range (Db.parentFolders p).length).map (w.freshId db)) (w.order db)).livePathExists s folder) =
        true :=
    List.all_eq_true.mpr hmade.live
  show (if _ then _ else _ : Service Unit).execute _ _ = _
  rw [if_pos hall]
  rfl

variable (maxVariables) in
/-- The last two statements work when rows can be put back, and leave the chosen rows live; else the folders
    above stay. -/
lemma execute_restoreAt (hw : w.DrawsFresh) (hwf : db.Wf) (hst : ∃ r ∈ db.files, r.storageId = s) (p : Path)
    (hleft : db.listTrashedIds s p ≠ [] ∨ db.liveConflictAt s p = false) :
    ∃ ids d, FoldersMade s (Db.parentFolders p) ids db d ∧
      (db.Undeletable s p ∧
          (∃ db', (TrashService.restore.restoreAt w s p).execute (Statement.attempt maxVariables) db =
              (.ok (), db') ∧ db'.Wf ∧ ∀ r', r' ∈ db'.files ↔
                ∃ r ∈ d.files, r' = if d.undeletedBy s p r then r.withDeletedAt none else r) ∨
        ¬ db.Undeletable s p ∧
          ∃ e, (TrashService.restore.restoreAt w s p).execute (Statement.attempt maxVariables) db =
            (.error e, d)) := by
  obtain ⟨ids, d, hmade, hexec⟩ := execute_ensureParents maxVariables hw hwf hst p
  refine ⟨ids, d, hmade, ?_⟩
  have hrestore : (TrashService.restore.restoreAt w s p).execute (Statement.attempt maxVariables) db =
      (Script.exec (Statement.row (.restore p s (w.order d)))).execute (Statement.attempt maxVariables) d := by
    unfold TrashService.restore.restoreAt
    rw [Script.execute_bind, hexec]
    rfl
  rw [Script.execute_exec] at hrestore
  have hsame := hmade.sameUnder
  by_cases hcan : db.Undeletable s p
  · obtain ⟨db', hok, hwf', hrows⟩ := (hsame.undeletable.mpr hcan).restore_ok hmade.wf (w.order d)
    refine .inl ⟨hcan, db', ?_, hwf', hrows⟩
    rw [hrestore,
      show Statement.attempt maxVariables d (.row (.restore p s (w.order d))) = .ok db' from hok]
  · refine .inr ⟨hcan, ?_⟩
    cases hrep : d.restore p s (w.order d) with
    | error e =>
      rw [hrestore,
        show Statement.attempt maxVariables d (.row (.restore p s (w.order d))) = .error e from hrep]
      exact ⟨e, rfl⟩
    | ok db' =>
      refine absurd (hsame.undeletable.mp (undeletable_of_restore hmade.wf hrep ?_)) hcan
      rw [ne_eq, hsame.listTrashedIds, hsame.liveConflictAt]
      exact hleft

lemma exists_live_of_conflict (h : db.liveConflictAt s p = true) :
    ∃ r ∈ db.files, r.Live ∧ p <+: r.path ∧ r.id ∈ db.listLiveIdsAtPath s p := by
  have hself : startsWith p p = true := startsWith_iff.mpr ⟨[], (List.append_nil p).symm, by simp⟩
  have hchosen : ∀ r ∈ db.files, r.Live →
      Db.atOrUnder s p (db.folderPrefix s p fun r => r.Live) (fun r => r.Live) r = true →
        ∃ r ∈ db.files, r.Live ∧ p <+: r.path ∧ r.id ∈ db.listLiveIdsAtPath s p :=
    fun r hr hl hat => ⟨r, hr, hl, prefix_of_atOrUnder hat, mem_idsWhere.mpr ⟨r, hr, hat, rfl⟩⟩
  rw [Db.liveConflictAt, Bool.or_eq_true] at h
  cases hkind : isFolderPath p with
  | true =>
    have hfolder : db.folderPrefix s p (fun r => r.Live) = p := by rw [Db.folderPrefix, if_pos hkind]
    have hne : p ≠ [] := by
      rintro rfl
      cases hkind
    rw [hkind] at h
    obtain ⟨r, hr, hst, hpath, hl⟩ := mem_of_livePathExists (h.resolve_right Bool.false_ne_true)
    refine hchosen r hr hl (decide_eq_true ⟨hst, decide_eq_true hl, ?_⟩)
    rw [hfolder, if_neg hne, hpath]
    exact hself
  | false =>
    rw [hkind, Bool.not_false, Bool.true_and] at h
    by_cases hany : (db.files.any fun r => r.storageId = s ∧ decide r.Live = true ∧
        startsWith r.path (p ++ ['/'])) = true
    · have hfolder : db.folderPrefix s p (fun r => r.Live) = p ++ ['/'] := by
        rw [Db.folderPrefix, if_neg (Bool.eq_false_iff.mp hkind), if_pos hany]
      obtain ⟨r, hr, hunder⟩ := List.any_eq_true.mp hany
      obtain ⟨hst, hl, hunder⟩ := of_decide_eq_true hunder
      refine hchosen r hr (of_decide_eq_true hl) (decide_eq_true ⟨hst, hl, ?_⟩)
      rw [hfolder, if_neg (List.append_ne_nil_of_right_ne_nil p (List.cons_ne_nil '/' []))]
      exact hunder
    · -- nothing is live under the path, so that it is live itself
      have hfolder : db.folderPrefix s p (fun r => r.Live) = [] := by
        rw [Db.folderPrefix, if_neg (Bool.eq_false_iff.mp hkind), if_neg hany]
      have hmarker : ¬ db.livePathExists s (p ++ ['/']) = true := by
        intro hlive
        obtain ⟨r, hr, hst, hpath, hl⟩ := mem_of_livePathExists hlive
        refine hany (List.any_eq_true.mpr ⟨r, hr, decide_eq_true ⟨hst, decide_eq_true hl, ?_⟩⟩)
        rw [hpath]
        exact startsWith_iff.mpr ⟨[], (List.append_nil _).symm, by simp⟩
      obtain ⟨r, hr, hst, hpath, hl⟩ := mem_of_livePathExists (h.resolve_right hmarker)
      refine hchosen r hr hl (decide_eq_true ⟨hst, decide_eq_true hl, ?_⟩)
      rw [hfolder, if_pos rfl]
      exact hpath

/-- What a call finds, or makes, before it puts rows back: nothing is live there; the live rows are purged; the
    trashed ones have a free name. -/
inductive Resolution (w : World) (db : Db) (s : Uuid) (canonical : Path) (onConflict : Option String) :
    Db → Path → Prop where
  | free (h : db.liveConflictAt s canonical = false) : Resolution w db s canonical onConflict db canonical
  | replaced (h : db.liveConflictAt s canonical = true) (hc : onConflict = some "replace") :
      Resolution w db s canonical onConflict
        (db.hardDeleteIds (db.listLiveIdsAtPath s canonical) (w.order db)) canonical
  | renamed {d : Db} {q : Path} (h : db.liveConflictAt s canonical = true) (hc : onConflict = some "rename")
      (hq : db.nextAvailableLivePath s canonical = .ok q)
      (hd : db.rewritePaths canonical q s false (w.order db) = .ok d) :
      Resolution w db s canonical onConflict d q

namespace Resolution

variable {canonical q : Path} {onConflict : Option String}

lemma rows (h : Resolution w db s canonical onConflict d q) (hwf : db.Wf) :
    d.Wf ∧ ∃ after ∈ resolved db s canonical onConflict,
      after.2 = q ∧ ∀ r, r ∈ d.files ↔ r ∈ after.1.files := by
  cases h with
  | free h =>
    refine ⟨hwf, (db, canonical), ?_, rfl, fun _ => Iff.rfl⟩
    unfold resolved
    rw [h]
    rfl
  | replaced h hc =>
    have hcond : ¬ (!db.liveConflictAt s canonical) = true := by
      rw [h]
      exact Bool.false_ne_true
    have hwf' := (Mirror.Sane.deleteEach (μ := Mirror.empty) ⟨hwf, Nat.zero_le _⟩
      (visitOrder (w.order db) (db.idsWhere fun r => r.id ∈ db.listLiveIdsAtPath s canonical))).wf
    refine ⟨hwf', ({ db with files := db.files.filter fun r => r.id ∉ db.listLiveIdsAtPath s canonical },
      canonical), ?_, rfl, fun r => ?_⟩
    · unfold resolved
      rw [if_neg hcond, hc]
      rfl
    · show r ∈ (db.deleteEach _).files ↔ _
      rw [Mirror.mem_deleteEach, List.mem_filter, mem_visitOrder]
      simp only [mem_idsWhere, decide_eq_true_eq]
      refine and_congr_right fun hr => not_congr ⟨?_, fun hid => ⟨r, hr, hid, rfl⟩⟩
      intro hq
      obtain ⟨q, -, hmem, hid⟩ := hq
      exact hid ▸ hmem
  | renamed h hc hq hd =>
    have hcond : ¬ (!db.liveConflictAt s canonical) = true := by
      rw [h]
      exact Bool.false_ne_true
    obtain ⟨hwf', hrows⟩ := rewritePaths_rows hwf hd
    refine ⟨hwf', ({ db with files := db.files.map (renamedRow canonical q s false) }, q), ?_, rfl, fun r => ?_⟩
    · unfold resolved
      rw [if_neg hcond, hc]
      simp only [hq]
      rfl
    · rw [hrows, List.mem_map]
      exact exists_congr fun r' => and_congr_right fun _ => eq_comm

end Resolution

variable {onConflict : Option String}

variable (maxVariables w onConflict) in
/-- A call that names something in the trash resolves the conflict and goes on, or is refused. -/
lemma restoreCall_cases (hwf : db.Wf) (hpath : path ≠ [])
    (hids : db.listTrashedIds s (normalizeTrashPath path) ≠ []) :
    (∃ d q, Resolution w db s (db.canonicalTrashedPath s (normalizeTrashPath path)) onConflict d q ∧
        restoreCall maxVariables w s path onConflict db =
          (TrashService.restore.restoreAt w s q).execute (Statement.attempt maxVariables) d) ∨
      resolved db s (db.canonicalTrashedPath s (normalizeTrashPath path)) onConflict = none ∧
        ∃ e, restoreCall maxVariables w s path onConflict db = (.error e, db) := by
  unfold restoreCall TrashService.restore
  rw [if_neg hpath]
  show (∃ d q, _ ∧
      (if db.listTrashedIds s (normalizeTrashPath path) = [] then _ else _ : Service Unit).execute _ db = _) ∨
    _ ∧ ∃ e, (if db.listTrashedIds s (normalizeTrashPath path) = [] then _ else _ : Service Unit).execute _ db =
      (.error e, db)
  rw [if_neg hids]
  generalize db.canonicalTrashedPath s (normalizeTrashPath path) = canonical
  show (∃ d q, _ ∧ (if (!db.liveConflictAt s canonical) = true then _ else _ : Service Unit).execute _ db = _) ∨
    _ ∧ ∃ e, (if (!db.liveConflictAt s canonical) = true then _ else _ : Service Unit).execute _ db =
      (.error e, db)
  unfold resolved
  by_cases hfree : (!db.liveConflictAt s canonical) = true
  · rw [if_pos hfree]
    rw [Bool.not_eq_true'] at hfree
    exact .inl ⟨db, canonical, .free hfree, rfl⟩
  · rw [if_neg hfree, if_neg hfree]
    rw [Bool.not_eq_true', Bool.not_eq_false] at hfree
    split
    · exact .inr ⟨rfl, _, rfl⟩
    · refine .inl ⟨_, canonical, .replaced hfree rfl, ?_⟩
      have hpurge : Service.purgeFileIds w (db.listLiveIdsAtPath s canonical) =
          Script.store >>= fun db' =>
            Service.row (.hardDeleteIds (db.listLiveIdsAtPath s canonical) (w.order db')) := by
        obtain ⟨r, -, -, -, hr⟩ := exists_live_of_conflict hfree
        unfold Service.purgeFileIds
        simp only [if_neg (List.ne_nil_of_mem hr)]
      rw [hpurge]
      rfl
    · cases hq : db.nextAvailableLivePath s canonical with
      | error e => exact .inr ⟨rfl, e, rfl⟩
      | ok q =>
        obtain ⟨d, hupd, -⟩ := exec_updateTrashedPath hwf canonical q s (w.order db)
        have hd : db.rewritePaths canonical q s false (w.order db) = .ok d := by
          unfold Db.rewritePaths Db.updateFiles
          rw [hupd]
        refine .inl ⟨d, q, .renamed hfree rfl hq hd, ?_⟩
        show (Service.row (.updateTrashedPath canonical q s (w.order db)) >>= fun _ =>
          TrashService.restore.restoreAt w s q).execute _ db = _
        rw [Script.execute_bind]
        unfold Service.row
        rw [Script.execute_exec, show Statement.attempt maxVariables db
          (.row (.updateTrashedPath canonical q s (w.order db))) = .ok d from hd]
    · case h_4 hreplace hrename =>
      refine .inr ⟨?_, _, rfl⟩
      split
      · case h_1 heq => exact absurd (Option.some.inj heq) hreplace
      · case h_2 heq => exact absurd (Option.some.inj heq) hrename
      · rfl

lemma liveConflictAt_false (hlive : ∀ r ∈ d.files, r.Live → r ∈ db.files) (h : db.liveConflictAt s p = false) :
    d.liveConflictAt s p = false := by
  have hnone : ∀ {q : Path}, db.livePathExists s q = false → d.livePathExists s q = false := by
    intro q hq
    rw [Bool.eq_false_iff] at hq ⊢
    intro hsome
    obtain ⟨r, hr, hst, rfl, hl⟩ := mem_of_livePathExists hsome
    exact hq (livePathExists_of_mem (hlive r hr hl) hl hst)
  rw [Db.liveConflictAt, Bool.or_eq_false_iff, Bool.and_eq_false_iff] at h ⊢
  exact ⟨hnone h.1, h.2.imp_right hnone⟩

lemma rewrittenPath_ne {canonical q : Path} (hconflict : db.liveConflictAt s canonical = true)
    (hq : db.nextAvailableLivePath s canonical = .ok q) {r : FileRow}
    (hchosen : Db.renamed canonical s false r = true) : Db.rewrittenPath canonical q r.path ≠ r.path := by
  have hne : q ≠ canonical := by
    rintro rfl
    rw [nextAvailable_free hq] at hconflict
    cases hconflict
  cases hkind : isFolderPath canonical with
  | false =>
    obtain ⟨-, -, hat⟩ := of_decide_eq_true hchosen
    rw [if_neg (Bool.eq_false_iff.mp hkind)] at hat
    rw [Db.rewrittenPath, if_neg (Bool.eq_false_iff.mp hkind), of_decide_eq_true hat]
    exact hne
  | true =>
    obtain ⟨rest, hrest⟩ := prefix_of_renamed hkind hchosen
    obtain ⟨more, hmore⟩ := folder_cases hkind
    have hbytes := length_le_byteLen canonical
    rw [rewrittenPath_folder hkind, hrest]
    intro heq
    obtain ⟨-, hshape⟩ := nextAvailable_cases hq
    rcases hshape with ⟨-, hfile⟩ | ⟨stem, hstem, -, hname⟩
    · rw [hkind] at hfile
      cases hfile
    · have hfront : newPrefix q = q := by rw [newPrefix, hstem, if_pos isFolderPath_concat]
      rw [hfront] at heq
      cases hname with
      | inl hsame =>
        -- the old name had more slashes behind it
        have hlength := congrArg List.length heq
        have hlength' := congrArg List.length hmore
        rw [hstem, hsame] at hlength
        simp only [List.length_append, List.length_drop, List.length_cons, List.length_nil] at hlength hlength'
        have hnil : more = [] := List.length_eq_zero_iff.mp (by omega)
        rw [hnil] at hmore
        exact hne (by rw [hstem, hsame]; exact hmore.symm)
      | inr hblank =>
        -- a blank is where the slash was
        obtain ⟨number, hblank⟩ := hblank
        rw [hstem, hblank] at heq
        have hheads : trimEndSlashes canonical ++ ' ' :: (number ++ ['/'] ++
              (canonical ++ rest).drop (byteLen canonical)) =
            trimEndSlashes canonical ++ '/' :: (more ++ rest) := by
          calc _ = trimEndSlashes canonical ++ ' ' :: number ++ ['/'] ++
                (canonical ++ rest).drop (byteLen canonical) := by
                simp only [List.append_assoc, List.cons_append]
            _ = canonical ++ rest := heq
            _ = trimEndSlashes canonical ++ '/' :: more ++ rest := congrArg (· ++ rest) hmore
            _ = _ := by rw [List.append_assoc, List.cons_append]
        exact absurd (List.cons.inj (List.append_cancel_left hheads)).1 (by decide)

lemma exists_renamed (hids : db.listTrashedIds s p ≠ []) :
    ∃ r ∈ db.files, Db.renamed (db.canonicalTrashedPath s p) s false r = true := by
  rw [← listTrashedIds_canonical] at hids
  obtain ⟨i, hi⟩ := List.exists_mem_of_ne_nil _ hids
  obtain ⟨r, hr, hat, -⟩ := mem_idsWhere.mp hi
  obtain ⟨hst, htrash, hat⟩ := of_decide_eq_true hat
  refine ⟨r, hr, decide_eq_true ⟨hst, of_decide_eq_true htrash, ?_⟩⟩
  have hcase := canonical_cases db s p
  generalize (db.folderPrefix s (db.canonicalTrashedPath s p) fun r => ¬ r.Live) = folder at hcase hat
  generalize db.canonicalTrashedPath s p = canonical at hcase hat ⊢
  cases hcase with
  | folder hfolder =>
    have hne : p ≠ [] := by
      rintro rfl
      cases hfolder
    rw [if_neg hne] at hat
    rw [if_pos hfolder]
    exact hat
  | under hfile hsome =>
    rw [if_neg (List.append_ne_nil_of_right_ne_nil p (List.cons_ne_nil '/' []))] at hat
    rw [if_pos isFolderPath_concat]
    exact hat
  | file hfile hnone =>
    rw [if_pos rfl] at hat
    rw [if_neg (Bool.eq_false_iff.mp hfile)]
    exact decide_eq_true hat

lemma renamedRow_of_live {canonical q : Path} {r : FileRow} (hl : r.Live) :
    renamedRow canonical q s false r = r := by
  have hother : ¬ Db.renamed canonical s false r = true := fun hchosen =>
    (of_decide_eq_true hchosen).2.1 hl
  rw [renamedRow, if_neg hother]

namespace Resolution

variable {q : Path} {ids : List Uuid} {d' : Db}

lemma ready (h : Resolution w db s (db.canonicalTrashedPath s p) onConflict d q) (hwf : db.Wf)
    (hids : db.listTrashedIds s p ≠ []) : (∃ r ∈ d.files, r.storageId = s) ∧
      (d.listTrashedIds s q ≠ [] ∨ d.liveConflictAt s q = false) := by
  obtain ⟨r, hr, hchosen⟩ := exists_renamed hids
  obtain ⟨hst, htrash, -⟩ := of_decide_eq_true hchosen
  cases h with
  | free h => exact ⟨⟨r, hr, hst⟩, .inr h⟩
  | replaced h hc =>
    have hkeep : ∀ r : FileRow, ¬ r.Live → (r ∈ (db.hardDeleteIds
        (db.listLiveIdsAtPath s (db.canonicalTrashedPath s p)) (w.order db)).files ↔ r ∈ db.files) := by
      intro r htrash
      rw [show _ ∈ (db.hardDeleteIds _ _).files ↔ _ from Mirror.mem_deleteEach]
      refine and_iff_left_of_imp fun hr hid => ?_
      -- only live rows are purged
      have hpurged := (mem_visited hwf hr).mp hid
      obtain ⟨r', hr', hat, hid'⟩ := mem_idsWhere.mp (of_decide_eq_true hpurged)
      obtain rfl := hwf.idUnique r' hr' r hr hid'
      exact htrash (of_decide_eq_true (of_decide_eq_true hat).2.1)
    refine ⟨⟨r, (hkeep r htrash).mpr hr, hst⟩, .inl ?_⟩
    rw [ne_eq, listTrashedIds_congr fun r htrash _ => hkeep r htrash, listTrashedIds_canonical]
    exact hids
  | renamed h hc hq hd =>
    obtain ⟨-, hrows⟩ := rewritePaths_rows hwf hd
    refine ⟨⟨_, (hrows _).mpr ⟨r, hr, rfl⟩, (renamedRow_storageId r).trans hst⟩, .inr ?_⟩
    refine liveConflictAt_false (fun r' hr' hl => ?_) (nextAvailable_free hq)
    obtain ⟨r, hr, rfl⟩ := (hrows r').mp hr'
    rw [renamedRow_of_live ((renamedRow_live r).mp hl)]
    exact hr

lemma changed (h : Resolution w db s (db.canonicalTrashedPath s p) onConflict d q) (hwf : db.Wf)
    (hids : db.listTrashedIds s p ≠ []) (hconflict : db.liveConflictAt s (db.canonicalTrashedPath s p) = true)
    (hmade : FoldersMade s (Db.parentFolders q) ids d d') : d'.files ≠ db.files := by
  intro heq
  cases h with
  | free h =>
    rw [h] at hconflict
    cases hconflict
  | replaced h hc =>
    obtain ⟨r, hr, hl, hfront, hid⟩ := exists_live_of_conflict hconflict
    have hr' : r ∈
        (db.hardDeleteIds (db.listLiveIdsAtPath s (db.canonicalTrashedPath s p)) (w.order db)).files :=
      (hmade.sameUnder r hfront).mp (heq ▸ hr)
    refine (Mirror.mem_deleteEach.mp hr').2 ((mem_visited hwf hr).mpr (decide_eq_true hid))
  | renamed h hc hq hd =>
    obtain ⟨-, hrows⟩ := rewritePaths_rows hwf hd
    obtain ⟨r, hr, hchosen⟩ := exists_renamed hids
    have htrash := (of_decide_eq_true hchosen).2.1
    cases hmade.old r (heq ▸ hr) with
    | inl hr' =>
      obtain ⟨r₀, hr₀, hrow⟩ := (hrows r).mp hr'
      have hid : r₀.id = r.id := by
        rw [hrow]
        exact (renamedRow_id r₀).symm
      obtain rfl := hwf.idUnique r₀ hr₀ r hr hid
      rw [renamedRow, if_pos hchosen] at hrow
      exact rewrittenPath_ne hconflict hq hchosen (congrArg FileRow.path hrow).symm
    | inr hnew => exact htrash hnew.1

end Resolution

/-! ## When a call does what it is for -/

lemma Resolution.free_eq {canonical q : Path} (h : Resolution w db s canonical onConflict d q)
    (hfree : db.liveConflictAt s canonical = false) : d = db ∧ q = canonical := by
  cases h with
  | free _ => exact ⟨rfl, rfl⟩
  | replaced h _ =>
    rw [h] at hfree
    cases hfree
  | renamed h _ _ _ =>
    rw [h] at hfree
    cases hfree

/-- A call that fails changes no row just when it is untroubled. -/
lemma unchanged_iff (hw : w.DrawsFresh) (hwf : db.Wf) :
    (∀ e, (restoreCall maxVariables w s path onConflict db).1 = .error e →
        (restoreCall maxVariables w s path onConflict db).2.files = db.files) ↔
      (path ≠ [] → db.listTrashedIds s (normalizeTrashPath path) ≠ [] →
        Untroubled db s (db.canonicalTrashedPath s (normalizeTrashPath path)) onConflict) := by
  by_cases hpath : path = []
  · refine iff_of_true (fun e _ => ?_) fun hne => absurd hpath hne
    unfold restoreCall TrashService.restore
    rw [if_pos hpath]
    rfl
  by_cases hids : db.listTrashedIds s (normalizeTrashPath path) = []
  · refine iff_of_true (fun e _ => ?_) fun _ hne => absurd hids hne
    unfold restoreCall TrashService.restore
    rw [if_neg hpath]
    show ((if db.listTrashedIds s (normalizeTrashPath path) = [] then _ else _ : Service Unit).execute _
      db).2.files = _
    rw [if_pos hids]
    rfl
  obtain ⟨d, q, hres, hcall⟩ | ⟨hnone, e, hcall⟩ :=
    restoreCall_cases w maxVariables onConflict hwf hpath hids
  · obtain ⟨hst, hleft⟩ := hres.ready hwf hids
    obtain ⟨hwf', ⟨after, q'⟩, hafter, rfl, hrows⟩ := hres.rows hwf
    have hcan : d.Undeletable s q' ↔ after.Undeletable s q' := SameUnder.undeletable fun r _ => hrows r
    obtain ⟨ids, d', hmade, hend⟩ := execute_restoreAt maxVariables hw hwf' hst q' hleft
    rw [hcall]
    rcases hend with ⟨hund, db', hexec, -, -⟩ | ⟨hund, e, hexec⟩
    · rw [hexec]
      refine iff_of_true (fun e he => by cases he) fun _ _ after' hafter' => .inl ?_
      rw [Option.mem_unique hafter' hafter]
      exact hcan.mp hund
    · rw [hexec]
      constructor
      · intro hsame _ _ after' hafter'
        have hsame : d'.files = db.files := hsame e rfl
        cases hconflict : db.liveConflictAt s (db.canonicalTrashedPath s (normalizeTrashPath path)) with
        | true => exact absurd hsame (hres.changed hwf hids hconflict hmade)
        | false =>
          obtain ⟨rfl, rfl⟩ := hres.free_eq hconflict
          refine .inr ⟨rfl, fun folder hfolder => ?_⟩
          obtain ⟨r, hr, hst, rfl, hl⟩ := mem_of_livePathExists (hmade.live folder hfolder)
          exact livePathExists_of_mem (hsame ▸ hr) hl hst
      · intro h _ _
        cases h hpath hids _ hafter with
        | inl hund' => exact absurd (hcan.mpr hund') hund
        | inr hfree =>
          obtain ⟨rfl, rfl⟩ := hres.free_eq hfree.1
          rw [hmade.same hfree.2]
  · rw [hcall]
    refine iff_of_true (fun _ _ => rfl) fun _ _ after hafter => ?_
    rw [hnone] at hafter
    cases hafter

def reached (db : Db) (s : Uuid) (p q : Path) : Prop :=
  if (db.folderPrefix s (db.canonicalTrashedPath s p) fun r => ¬ r.Live) = [] then
    q = db.canonicalTrashedPath s p
  else startsWith q (db.folderPrefix s (db.canonicalTrashedPath s p) fun r => ¬ r.Live) = true

lemma undeletedBy_iff {r : FileRow} : db.undeletedBy s (db.canonicalTrashedPath s p) r = true ↔
    r.storageId = s ∧ ¬ r.Live ∧ db.liveAt s r.path = none ∧ reached db s p r.path := by
  constructor
  · intro h
    obtain ⟨hst, htrash, hfree⟩ := undeletedBy_spec h
    exact ⟨hst, htrash, hfree, (of_decide_eq_true h).2.2⟩
  · intro h
    obtain ⟨hst, htrash, hfree, hat⟩ := h
    exact decide_eq_true ⟨hst, decide_eq_true ⟨htrash, hst.symm ▸ hfree⟩, hat⟩

lemma newPrefix_file (h : isFolderPath p = false) : newPrefix p = p ++ ['/'] := by
  rw [newPrefix, if_neg (Bool.eq_false_iff.mp h)]

lemma atPath_of_reached {q : Path} (h : reached db s p q) : q = p ∨ newPrefix p <+: q := by
  unfold reached at h
  have hcase := canonical_cases db s p
  generalize (db.folderPrefix s (db.canonicalTrashedPath s p) fun r => ¬ r.Live) = folder at hcase h
  generalize db.canonicalTrashedPath s p = canonical at hcase h
  cases hcase with
  | folder hfolder =>
    have hne : p ≠ [] := by
      rintro rfl
      cases hfolder
    rw [if_neg hne] at h
    rw [newPrefix, if_pos hfolder]
    exact .inr (prefix_of_startsWith h)
  | under hfile _ =>
    rw [if_neg (List.append_ne_nil_of_right_ne_nil p (List.cons_ne_nil '/' []))] at h
    rw [newPrefix_file hfile]
    exact .inr (prefix_of_startsWith h)
  | file _ _ =>
    rw [if_pos rfl] at h
    exact .inl h

/-- When everything at or under the path is reached: it is the path of a file or of a folder and not of both,
    and no name in the folder begins with the last character. -/
lemma all_reached_iff (honly : OnlyTrashed db s p) : (∀ r ∈ db.files, AtPath s p r → reached db s p r.path) ↔
    (isFolderPath p = false → (∀ r ∈ db.files, AtPath s p r → r.path = p) ∨
        ∀ r ∈ db.files, AtPath s p r → r.path ≠ p) ∧
      ∀ r ∈ db.files, AtPath s p r → ∀ rest, r.path = newPrefix p ++ rest → rest.head? ≠ some maxChar := by
  unfold reached
  have hcase := canonical_cases db s p
  generalize (db.folderPrefix s (db.canonicalTrashedPath s p) fun r => ¬ r.Live) = folder at hcase ⊢
  generalize db.canonicalTrashedPath s p = canonical at hcase ⊢
  have hslash : ∀ rest : Path, p ++ ['/'] ++ rest ≠ p := by
    intro rest heq
    rw [List.append_assoc] at heq
    exact List.cons_ne_nil '/' rest (List.append_right_eq_self.mp heq)
  cases hcase with
  | folder hfolder =>
    have hne : p ≠ [] := by
      rintro rfl
      cases hfolder
    have hfront : newPrefix p = p := by rw [newPrefix, if_pos hfolder]
    simp only [if_neg hne, hfolder, Bool.true_eq_false, false_imp_iff, true_and, hfront]
    refine forall₂_congr fun r hr => ⟨fun h hat rest hrest => ?_, fun h hat => ?_⟩
    · exact (startsWith_append p rest).mp (hrest ▸ h hat)
    · have hunder : p <+: r.path := by
        cases hat.2 with
        | inl heq => exact heq ▸ List.prefix_refl p
        | inr hunder => exact hfront ▸ hunder
      obtain ⟨rest, hrest⟩ := hunder
      exact startsWith_iff.mpr ⟨rest, hrest.symm, h hat rest hrest.symm⟩
  | under hfile hsome =>
    have hfront := newPrefix_file hfile
    simp only [if_neg (List.append_ne_nil_of_right_ne_nil p (List.cons_ne_nil '/' [])), hfile, true_imp_iff,
      hfront]
    constructor
    · intro h
      refine ⟨.inr fun r hr hat heq => ?_, fun r hr hat rest hrest => ?_⟩
      · obtain ⟨rest, hrest⟩ := prefix_of_startsWith (h r hr hat)
        exact hslash rest (hrest.trans heq)
      · exact (startsWith_append _ rest).mp (hrest ▸ h r hr hat)
    · intro h r hr hat
      -- some row is under the path, so that none is at it
      have hapart : ∀ r ∈ db.files, AtPath s p r → r.path ≠ p := by
        refine h.1.resolve_left fun hall => ?_
        obtain ⟨r', hr', hst, -, hunder⟩ := hsome
        obtain ⟨rest, hrest⟩ := prefix_of_startsWith hunder
        exact hslash rest (hrest.trans (hall r' hr' ⟨hst, .inr (hfront ▸ ⟨rest, hrest⟩)⟩))
      obtain ⟨rest, hrest⟩ := hat.2.resolve_left (hapart r hr hat)
      rw [hfront] at hrest
      exact startsWith_iff.mpr ⟨rest, hrest.symm, h.2 r hr hat rest hrest.symm⟩
  | file hfile hnone =>
    have hfront := newPrefix_file hfile
    simp only [hfile, true_imp_iff, hfront, if_true]
    constructor
    · intro h
      refine ⟨.inl h, fun r hr hat rest hrest => ?_⟩
      exact absurd (hrest.symm.trans (h r hr hat)) (hslash rest)
    · intro h r hr hat
      by_contra hne
      obtain ⟨rest, hrest⟩ := hat.2.resolve_left hne
      rw [hfront] at hrest
      have hunder := startsWith_iff.mpr ⟨rest, hrest.symm, h.2 r hr hat rest hrest.symm⟩
      rw [hnone r hr hat.1 (honly.2 r hr hat)] at hunder
      cases hunder

lemma canonical_eq (db : Db) (s : Uuid) (p : Path) : db.canonicalTrashedPath s p = p ∨
    isFolderPath p = false ∧ db.canonicalTrashedPath s p = p ++ ['/'] := by
  have hcase := canonical_cases db s p
  generalize (db.folderPrefix s (db.canonicalTrashedPath s p) fun r => ¬ r.Live) = folder at hcase
  generalize db.canonicalTrashedPath s p = canonical at hcase ⊢
  cases hcase with
  | folder _ => exact .inl rfl
  | under hfile _ => exact .inr ⟨hfile, rfl⟩
  | file _ _ => exact .inl rfl

namespace OnlyTrashed

lemma free (h : OnlyTrashed db s p) {q : Path} (hq : q = p ∨ newPrefix p <+: q) :
    db.livePathExists s q = false := by
  rw [Bool.eq_false_iff]
  intro hsome
  obtain ⟨r, hr, hst, rfl, hl⟩ := mem_of_livePathExists hsome
  exact h.2 r hr ⟨hst, hq⟩ hl

lemma noConflict (h : OnlyTrashed db s p) : db.liveConflictAt s (db.canonicalTrashedPath s p) = false := by
  rw [Db.liveConflictAt, Bool.or_eq_false_iff]
  rcases canonical_eq db s p with heq | ⟨hfile, heq⟩
  · rw [heq]
    refine ⟨h.free (.inl rfl), ?_⟩
    cases hkind : isFolderPath p with
    | true => rfl
    | false => exact h.free (.inr (newPrefix_file hkind ▸ List.prefix_refl _))
  · rw [heq, isFolderPath_concat]
    exact ⟨h.free (.inr (newPrefix_file hfile ▸ List.prefix_refl _)), rfl⟩

lemma undeletedBy_iff (h : OnlyTrashed db s p) {r : FileRow} (hr : r ∈ db.files) (hat : AtPath s p r) :
    db.undeletedBy s (db.canonicalTrashedPath s p) r = true ↔ reached db s p r.path := by
  rw [Server.undeletedBy_iff]
  refine ⟨fun hchosen => hchosen.2.2.2, fun hreach => ⟨hat.1, h.2 r hr hat, ?_, hreach⟩⟩
  have hfree := h.free hat.2
  rw [Db.livePathExists, Option.isSome_eq_false_iff, Option.isNone_iff_eq_none] at hfree
  exact hfree

end OnlyTrashed

lemma not_folder_of_atPath {q : Path} (hq : q = p ∨ newPrefix p <+: q) :
    q ∉ Db.parentFolders (db.canonicalTrashedPath s p) := by
  intro hfolder
  have hlt := length_folder_lt hfolder
  have htrim : (trimEndSlashes p).length ≤ p.length := (List.rdropWhile_prefix _ p).length_le
  have hcanonical : trimEndSlashes (db.canonicalTrashedPath s p) = trimEndSlashes p := by
    rcases canonical_eq db s p with heq | ⟨-, heq⟩
    · rw [heq]
    · rw [heq, trimEndSlashes_concat]
  have hle : p.length ≤ q.length := by
    cases hq with
    | inl heq => exact Nat.le_of_eq (congrArg List.length heq.symm)
    | inr hfront =>
      have hp : p <+: newPrefix p := by
        unfold newPrefix
        split
        · exact List.prefix_refl p
        · exact List.prefix_append p ['/']
      exact (hp.trans hfront).length_le
  rw [hcanonical] at hlt
  omega

variable (maxVariables onConflict) in
/-- A call on what is in the trash alone: the rows it puts back are those it reaches, or it fails. -/
lemma restoreCall_onlyTrashed (hw : w.DrawsFresh) (hwf : db.Wf)
    (honly : OnlyTrashed db s (normalizeTrashPath path)) (hpath : path ≠ [])
    (hids : db.listTrashedIds s (normalizeTrashPath path) ≠ []) :
    db.Undeletable s (db.canonicalTrashedPath s (normalizeTrashPath path)) ∧
        (∃ db', restoreCall maxVariables w s path onConflict db = (.ok (), db') ∧
          ∀ r ∈ db.files, AtPath s (normalizeTrashPath path) r →
            (reached db s (normalizeTrashPath path) r.path ↔
              ∃! r', r' ∈ db'.files ∧ r'.storageId = s ∧ r'.Live ∧ r'.path = r.path)) ∨
      ¬ db.Undeletable s (db.canonicalTrashedPath s (normalizeTrashPath path)) ∧
        ∃ e, (restoreCall maxVariables w s path onConflict db).1 = .error e := by
  have hfree := honly.noConflict
  have hcall : restoreCall maxVariables w s path onConflict db = (TrashService.restore.restoreAt w s
      (db.canonicalTrashedPath s (normalizeTrashPath path))).execute (Statement.attempt maxVariables) db := by
    obtain ⟨d, q, hres, hcall⟩ | ⟨hnone, -⟩ :=
      restoreCall_cases w maxVariables onConflict hwf hpath hids
    · obtain ⟨rfl, rfl⟩ := hres.free_eq hfree
      exact hcall
    · unfold resolved at hnone
      rw [hfree] at hnone
      cases hnone
  have hst : ∃ r ∈ db.files, r.storageId = s := by
    obtain ⟨r, hr, hat⟩ := honly.1
    exact ⟨r, hr, hat.1⟩
  obtain ⟨ids, d, hmade, hend⟩ := execute_restoreAt maxVariables hw hwf hst _ (.inr hfree)
  have hsame := hmade.sameUnder
  rw [hcall]
  rcases hend with ⟨hund, db', hexec, hwf', hrows⟩ | ⟨hund, e, hexec⟩
  · refine .inl ⟨hund, db', hexec, fun r hr hat => ⟨fun hreach => ?_, fun hback => ?_⟩⟩
    · have hchosen := (honly.undeletedBy_iff hr hat).mpr hreach
      have hfront := prefix_of_atOrUnder hchosen
      have hr' : r.withDeletedAt none ∈ db'.files := by
        refine (hrows _).mpr ⟨r, (hsame r hfront).mpr hr, ?_⟩
        rw [hsame.undeletedBy hfront, if_pos hchosen]
      refine ⟨r.withDeletedAt none, ⟨hr', hat.1, rfl, rfl⟩, fun q hq => ?_⟩
      exact hwf'.aliveUnique q hq.1 _ hr' hq.2.2.1 rfl (hq.2.1.trans hat.1.symm) hq.2.2.2
    · obtain ⟨r', ⟨hr', hst', hl, hpath'⟩, -⟩ := hback
      obtain ⟨q, hq, heq⟩ := (hrows r').mp hr'
      split at heq
      · case isTrue hchosen =>
        have hfront := prefix_of_atOrUnder hchosen
        rw [hsame.undeletedBy hfront] at hchosen
        have hreach := (undeletedBy_iff.mp hchosen).2.2.2
        rw [heq] at hpath'
        exact hpath' ▸ hreach
      · case isFalse =>
        -- a row that was live before is not at the path, and a folder above is not either
        subst heq
        cases hmade.old r' hq with
        | inl hold => exact absurd hl (honly.2 r' hold ⟨hst', hpath' ▸ hat.2⟩)
        | inr hnew => exact absurd hnew.2.2 (not_folder_of_atPath (hpath' ▸ hat.2))
  · refine .inr ⟨hund, e, ?_⟩
    rw [hexec]

/-- A call brings back what is in the trash alone just when it is plain. -/
lemma back_iff (hw : w.DrawsFresh) (hwf : db.Wf) (honly : OnlyTrashed db s (normalizeTrashPath path)) :
    ((restoreCall maxVariables w s path onConflict db).1 = .ok () ∧
        ∀ r ∈ db.files, AtPath s (normalizeTrashPath path) r →
          ∃! r', r' ∈ (restoreCall maxVariables w s path onConflict db).2.files ∧
            r'.storageId = s ∧ r'.Live ∧ r'.path = r.path) ↔ Plain db s path := by
  by_cases hpath : path = []
  · refine iff_of_false (fun h => ?_) fun h => h.named hpath
    have hok := h.1
    unfold restoreCall TrashService.restore at hok
    rw [if_pos hpath] at hok
    cases hok
  by_cases hids : db.listTrashedIds s (normalizeTrashPath path) = []
  · refine iff_of_false (fun h => ?_) fun h => ?_
    · have hok := h.1
      unfold restoreCall TrashService.restore at hok
      rw [if_neg hpath] at hok
      change ((if db.listTrashedIds s (normalizeTrashPath path) = [] then _ else _ : Service Unit).execute _
        db).1 = _ at hok
      rw [if_pos hids] at hok
      cases hok
    · obtain ⟨r, hr, hat⟩ := honly.1
      have hreach := (all_reached_iff honly).mpr ⟨h.form, h.within⟩ r hr hat
      rw [← listTrashedIds_canonical] at hids
      have hmem : r.id ∈ db.listTrashedIds s (db.canonicalTrashedPath s (normalizeTrashPath path)) :=
        mem_idsWhere.mpr ⟨r, hr, decide_eq_true ⟨hat.1, decide_eq_true (honly.2 r hr hat), hreach⟩, rfl⟩
      rw [hids] at hmem
      cases hmem
  obtain ⟨hund, db', hcall, hback⟩ | ⟨hund, e, hcall⟩ :=
    restoreCall_onlyTrashed maxVariables onConflict hw hwf honly hpath hids
  · rw [hcall]
    constructor
    · intro h
      have hall : ∀ r ∈ db.files, AtPath s (normalizeTrashPath path) r →
          reached db s (normalizeTrashPath path) r.path :=
        fun r hr hat => (hback r hr hat).mpr (h.2 r hr hat)
      obtain ⟨hform, hwithin⟩ := (all_reached_iff honly).mp hall
      refine ⟨hpath, fun r hr q hq hat hat' hsame => ?_, hform, hwithin⟩
      exact hund.2 r hr q hq ((honly.undeletedBy_iff hr hat).mpr (hall r hr hat))
        ((honly.undeletedBy_iff hq hat').mpr (hall q hq hat')) hsame
    · intro h
      have hall := (all_reached_iff honly).mpr ⟨h.form, h.within⟩
      exact ⟨rfl, fun r hr hat => (hback r hr hat).mp (hall r hr hat)⟩
  · refine iff_of_false (fun h => ?_) fun h => hund ⟨?_, ?_⟩
    · have hok := h.1
      rw [hcall] at hok
      cases hok
    · have hall := (all_reached_iff honly).mpr ⟨h.form, h.within⟩
      obtain ⟨r, hr, hat⟩ := honly.1
      exact ⟨r, hr, (honly.undeletedBy_iff hr hat).mpr (hall r hr hat)⟩
    · intro r hr q hq hchosen hchosen' hsame
      have hr' := undeletedBy_iff.mp hchosen
      have hq' := undeletedBy_iff.mp hchosen'
      exact h.alone r hr q hq ⟨hr'.1, atPath_of_reached hr'.2.2.2⟩ ⟨hq'.1, atPath_of_reached hq'.2.2.2⟩ hsame

lemma bringsBack_iff (hw : w.DrawsFresh) (hwf : db.Wf) :
    BringsBack maxVariables w s path onConflict db ↔ Restorable db s path onConflict := by
  constructor
  · intro h
    exact ⟨fun honly => (back_iff hw hwf honly).mp (h.back honly), (unchanged_iff hw hwf).mp h.unchanged⟩
  · intro h
    exact ⟨fun honly => (back_iff hw hwf honly).mpr (h.back honly), (unchanged_iff hw hwf).mpr h.unchanged⟩

lemma wf_run {start : Db} (hstart : start.Wf) (statements : List Statement) :
    (run (Script.apply (Statement.attempt maxVariables)) start statements).Wf := by
  refine run_invariant (I := Db.Wf) (fun d st h => ?_) hstart statements
  unfold Script.apply
  split
  · case h_1 d' hok => exact (livePaths_attempt (s := 0) h hok).1
  · exact h

/-- In every state that statements reach, a restore does what it is for just when the state is one in which
    it can. -/
theorem restore_bringsBack_iff (maxVariables : Nat) (w : World) (hw : w.DrawsFresh) (start : Db)
    (hstart : start.Wf) (statements : List Statement) (s : Uuid) (path : Path) (onConflict : Option String) :
    BringsBack maxVariables w s path onConflict
        (run (Script.apply (Statement.attempt maxVariables)) start statements) ↔
      Restorable (run (Script.apply (Statement.attempt maxVariables)) start statements) s path onConflict :=
  bringsBack_iff hw (wf_run hstart statements)

/-! ### A folder that was deleted twice -/

lemma smallWorld_drawsFresh : smallWorld.DrawsFresh where
  unused := by
    intro db n r hr hid
    have hle := (le_foldl_max (db.files.map (·.id)) 0).2 r.id (List.mem_map_of_mem hr)
    have hmore : (db.files.map (·.id)).foldl max 0 + 1 ≤ r.id :=
      Nat.le_trans (Nat.le_add_right _ n) (Nat.le_of_eq hid.symm)
    exact Nat.not_succ_le_self _ (Nat.le_trans hmore hle)
  apart := by
    intro db m n heq
    exact Nat.add_left_cancel heq

def leftBy (calls : List Call) : Db :=
  run (Script.call (Statement.attempt 1000) (storageCall 1)) emptyStorage (calls.map (smallWorld, ·))

lemma leftBy_wf (calls : List Call) : (leftBy calls).Wf := by
  refine run_invariant (I := Db.Wf) (fun d c h => ?_) emptyStorage_wf _
  rw [Script.call, Script.execute_store]
  exact wf_run h _

def docsDeletedTwice : List Call :=
  [.createFolder [] "docs".toList, .delete "docs".toList, .createFolder [] "docs".toList, .delete "docs".toList]

def innerDeletedTwice : List Call :=
  [.createFolder [] "a".toList, .createFolder "a".toList "docs".toList, .delete "a/docs".toList,
    .createFolder "a".toList "docs".toList, .delete "a".toList]

/-- A file in the trash comes back. -/
theorem deleted_bringsBack : BringsBack 1000 smallWorld 1 "a".toList none
    (run (Script.apply (Statement.attempt 1000)) (leftBy [uploadOf "a".toList rfl, .delete "a".toList])
      []) := by
  refine (restore_bringsBack_iff 1000 smallWorld smallWorld_drawsFresh _ (leftBy_wf _) [] 1 "a".toList none).mpr
    ⟨fun _ => ⟨by decide, by decide +kernel, by decide +kernel, fun r hr hat rest hrest => ?_⟩, fun _ _ => ?_⟩
  · have hfile : ∀ r ∈ (leftBy [uploadOf "a".toList rfl, .delete "a".toList]).files,
        AtPath 1 (normalizeTrashPath "a".toList) r → r.path = "a".toList := by
      decide +kernel
    rw [hfile r hr hat, show newPrefix (normalizeTrashPath "a".toList) = "a/".toList by decide] at hrest
    exact absurd (congrArg List.length hrest) (by simp)
  · decide +kernel

/-- A folder that was made and deleted twice does not come back, though it is in the trash alone; and where its
    parent was deleted too, the parent is live behind the error. -/
theorem deletedTwice_not_bringsBack :
    (OnlyTrashed (leftBy docsDeletedTwice) 1 "docs".toList ∧
      (restoreCall 1000 smallWorld 1 "docs".toList none (leftBy docsDeletedTwice)).1 =
        .error .trashPathConflict) ∧
    (OnlyTrashed (leftBy innerDeletedTwice) 1 "a/docs".toList ∧
      (restoreCall 1000 smallWorld 1 "a/docs".toList none (leftBy innerDeletedTwice)).1 =
        .error .trashPathConflict ∧
      (leftBy innerDeletedTwice).livePathExists 1 "a/".toList = false ∧
      (restoreCall 1000 smallWorld 1 "a/docs".toList none (leftBy innerDeletedTwice)).2.livePathExists 1
        "a/".toList = true) ∧
    ¬ BringsBack 1000 smallWorld 1 "docs".toList none (leftBy docsDeletedTwice) ∧
    ¬ BringsBack 1000 smallWorld 1 "a/docs".toList none (leftBy innerDeletedTwice) := by
  have hfirst : OnlyTrashed (leftBy docsDeletedTwice) 1 "docs".toList ∧
      (restoreCall 1000 smallWorld 1 "docs".toList none (leftBy docsDeletedTwice)).1 =
        .error .trashPathConflict := by
    decide +kernel
  have hsecond : OnlyTrashed (leftBy innerDeletedTwice) 1 "a/docs".toList ∧
      (restoreCall 1000 smallWorld 1 "a/docs".toList none (leftBy innerDeletedTwice)).1 =
        .error .trashPathConflict ∧
      (leftBy innerDeletedTwice).livePathExists 1 "a/".toList = false ∧
      (restoreCall 1000 smallWorld 1 "a/docs".toList none (leftBy innerDeletedTwice)).2.livePathExists 1
        "a/".toList = true := by
    decide +kernel
  refine ⟨hfirst, hsecond, fun h => ?_, fun h => ?_⟩
  · have hok := (h.back hfirst.1).1
    rw [hfirst.2] at hok
    cases hok
  · have hsame := h.unchanged _ hsecond.2.1
    have hlive := hsecond.2.2.2
    rw [Db.livePathExists, Db.liveAt, hsame] at hlive
    exact absurd hlive (Bool.eq_false_iff.mp hsecond.2.2.1)

end Sarca.Server
