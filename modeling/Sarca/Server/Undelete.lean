import Sarca.Server.Renames

/-!
# Out of the trash

What the statements of a restore leave: the folders that `ensure_live_parent_folders` makes live are shorter
than the path they are above (`length_folder_lt`), and nothing else changes (`ensureFolders_made`); `restore`
puts back the rows its clause chooses, if there are any and no two of them share a path
(`Db.Undeletable.restore_ok`), and else fails (`undeletable_of_restore`).
-/

namespace Sarca.Server

/-! ## Under a folder -/

lemma lt_maxChar_iff {c : Char} : c < maxChar ↔ c ≠ maxChar := by
  constructor
  · intro h he
    exact absurd (he ▸ h) (Char.lt_irrefl maxChar)
  · intro h
    have hne : c.val.toNat ≠ 1114111 := fun he => h (Char.ext (UInt32.toNat_inj.mp he))
    have hle : c.val.toNat ≤ 1114111 := by
      rcases c.valid with hsmall | ⟨-, hlarge⟩
      · exact Nat.le_of_lt (Nat.lt_trans hsmall (by decide))
      · exact Nat.le_of_lt_succ hlarge
    show c.val < maxChar.val
    rw [UInt32.lt_iff_toNat_lt]
    exact Nat.lt_of_le_of_ne hle hne

lemma startsWith_append (param rest : Path) :
    startsWith (param ++ rest) param = true ↔ rest.head? ≠ some maxChar := by
  unfold startsWith pathLt
  induction param with
  | nil =>
    cases rest with
    | nil => simp
    | cons c rest => simp [lt_maxChar_iff]
  | cons d param ih => simpa using ih

lemma startsWith_iff {column param : Path} : startsWith column param = true ↔
    ∃ rest, column = param ++ rest ∧ rest.head? ≠ some maxChar := by
  constructor
  · intro h
    obtain ⟨rest, rfl⟩ := prefix_of_startsWith h
    exact ⟨rest, rfl, (startsWith_append param rest).mp h⟩
  · intro h
    obtain ⟨rest, rfl, hrest⟩ := h
    exact (startsWith_append param rest).mpr hrest

/-! ## The folders above a path are shorter -/

/-- How long segments are with a slash behind each. -/
def slashedLength : List Path → Nat
  | [] => 0
  | seg :: segs => seg.length + 1 + slashedLength segs

lemma slashedLength_append (xs ys : List Path) :
    slashedLength (xs ++ ys) = slashedLength xs + slashedLength ys := by
  induction xs with
  | nil => exact (Nat.zero_add _).symm
  | cons x xs ih =>
    rw [List.cons_append, slashedLength, slashedLength, ih]
    omega

lemma slashedLength_le_of_sublist {xs ys : List Path} (h : xs.Sublist ys) :
    slashedLength xs ≤ slashedLength ys := by
  induction h with
  | slnil => exact Nat.le_refl _
  | cons y _ ih => exact Nat.le_trans ih (Nat.le_add_left _ _)
  | cons_cons y _ ih => exact Nat.add_le_add_left ih _

lemma length_intercalate {segs : List Path} (h : segs ≠ []) :
    (['/'].intercalate segs).length + 1 = slashedLength segs := by
  induction segs with
  | nil => exact absurd rfl h
  | cons seg segs ih =>
    cases segs with
    | nil => simp [List.intercalate, slashedLength]
    | cons seg' segs =>
      have hrest := ih (List.cons_ne_nil seg' segs)
      have hcons : ['/'].intercalate (seg :: seg' :: segs) =
          ['/'].intercalate [seg] ++ ['/'] ++ ['/'].intercalate (seg' :: segs) :=
        intercalate_append (List.cons_ne_nil seg []) (List.cons_ne_nil seg' segs)
      rw [hcons, slashedLength, ← hrest]
      simp [List.intercalate]
      omega

lemma slashedLength_splitOn (path : Path) : slashedLength (path.splitOn '/') = path.length + 1 := by
  rw [← length_intercalate (List.splitOn_ne_nil '/' path), List.intercalate_splitOn]

lemma slashedLength_slash (path : Path) :
    slashedLength ((('/' :: path).splitOn '/').filter (· ≠ [])) ≤ path.length + 1 := by
  rw [List.splitOn_eq_splitOnP, List.splitOnP_cons_eq_if_modifyHead]
  simp only [beq_self_eq_true, if_true]
  rw [List.filter_cons_of_neg (by simp), ← slashedLength_splitOn, List.splitOn_eq_splitOnP]
  exact slashedLength_le_of_sublist List.filter_sublist

lemma dropTrailingEmpty_last {segs init : List Path} {last : Path}
    (h : dropTrailingEmpty segs = init ++ [last]) : last ≠ [] := by
  rintro rfl
  have hagain : dropTrailingEmpty (dropTrailingEmpty segs) = dropTrailingEmpty segs :=
    List.rdropWhile_idempotent _ segs
  have hdrop : dropTrailingEmpty (init ++ [[]]) = dropTrailingEmpty init :=
    List.rdropWhile_concat_pos _ init [] rfl
  have hle : (dropTrailingEmpty init).length ≤ init.length := (List.rdropWhile_prefix _ init).length_le
  rw [h, hdrop] at hagain
  rw [hagain, List.length_append, List.length_singleton] at hle
  omega

lemma slashedLength_parentDir {path parent : Path} (h : parentDir path = some parent) :
    slashedLength ((parent.splitOn '/').filter (· ≠ [])) < path.length := by
  have hlength := slashedLength_splitOn path
  unfold parentDir at h
  split at h
  · cases h
  · case h_2 first rest hsplit =>
    dsimp only at h
    rw [hsplit, slashedLength] at hlength
    split at h
    · cases h
    · case h_2 body hsome =>
      -- the last segment of the body is not empty, and not in the parent
      obtain ⟨init, last, hlast⟩ : ∃ init last, dropTrailingEmpty rest = init ++ [last] := by
        rcases List.eq_nil_or_concat (dropTrailingEmpty rest) with hnil | ⟨init, last, heq⟩
        · exact absurd hnil hsome
        · exact ⟨init, last, heq.trans (List.concat_eq_append)⟩
      have hne := dropTrailingEmpty_last hlast
      rw [hlast, List.dropLast_concat] at h
      have hkept : slashedLength (dropTrailingEmpty init) + (last.length + 1) ≤ slashedLength rest := by
        have hinit := slashedLength_le_of_sublist (List.rdropWhile_prefix
          (fun seg : Path => decide (seg = [] ∨ seg = ['.'])) init).sublist
        have hrest := slashedLength_le_of_sublist (List.rdropWhile_prefix
          (fun seg : Path => decide (seg = [] ∨ seg = ['.'])) rest).sublist
        rw [show List.rdropWhile _ rest = dropTrailingEmpty rest from rfl, hlast, slashedLength_append,
          slashedLength, slashedLength] at hrest
        rw [show List.rdropWhile _ init = dropTrailingEmpty init from rfl] at hinit
        omega
      have hpos := List.length_pos_iff.mpr hne
      split at h
      · cases h
        refine Nat.lt_of_le_of_lt (slashedLength_slash _) ?_
        cases hempty : dropTrailingEmpty init with
        | nil =>
          show 1 < _
          omega
        | cons k kept =>
          rw [length_intercalate (List.cons_ne_nil k kept), ← hempty]
          omega
      · cases h
        refine Nat.lt_of_le_of_lt (slashedLength_le_of_sublist List.filter_sublist) ?_
        rw [slashedLength_splitOn, length_intercalate (List.cons_ne_nil _ _), slashedLength]
        omega

lemma length_folder_lt {path folder : Path} (h : folder ∈ Db.parentFolders path) :
    folder.length < (trimEndSlashes path).length := by
  unfold Db.parentFolders at h
  split at h
  · cases h
  · case h_2 parent hparent =>
    dsimp only at h
    obtain ⟨parts, hparts, rfl⟩ := List.mem_map.mp h
    have hfront : parts <+: (parent.splitOn '/').filter (· ≠ []) :=
      (List.mem_inits _ _).mp (List.mem_of_mem_tail hparts)
    have hne : parts ≠ [] := by
      rintro rfl
      cases hsegs : (parent.splitOn '/').filter (· ≠ []) with
      | nil =>
        rw [hsegs] at hparts
        cases hparts
      | cons seg segs =>
        rw [hsegs, List.inits_cons, List.tail_cons] at hparts
        obtain ⟨_, -, hcons⟩ := List.mem_map.mp hparts
        cases hcons
    rw [List.length_append, List.length_singleton, length_intercalate hne]
    exact Nat.lt_of_le_of_lt (slashedLength_le_of_sublist hfront.sublist) (slashedLength_parentDir hparent)

/-! ## The rows after a restore -/

variable {db db' : Db} {s : Uuid}

lemma keepsKey_undelete : KeepsKey fun r => r.withDeletedAt none :=
  fun _ => ⟨rfl, rfl⟩

lemma Db.updateEach_undelete_ok (hwf : db.Wf) {choose : FileRow → Bool}
    (hfree : ∀ r ∈ db.files, choose r = true → db.liveAt r.storageId r.path = none)
    (hapart : ∀ r ∈ db.files, ∀ q ∈ db.files, choose r = true → choose q = true →
      r.storageId = q.storageId → r.path = q.path → r = q) {ids : List Uuid} {d : Db}
    (hd : d.Wf) (hnodup : ids.Nodup) (hids : ∀ i ∈ ids, ∃ r ∈ db.files, choose r = true ∧ r.id = i)
    (hrows : Db.Visited choose (fun r => r.withDeletedAt none) db ids d) :
    ∃ d', d.updateEach (fun r => r.withDeletedAt none) ids = .ok d' := by
  induction ids generalizing d with
  | nil => exact ⟨d, rfl⟩
  | cons id ids ih =>
    unfold Db.updateEach
    split
    · case h_1 hnone =>
      exact ih hd hnodup.of_cons (fun i hi => hids i (List.mem_cons_of_mem id hi)) (hrows.skip hnone)
    · case h_2 old hsome =>
      obtain ⟨hold, rfl⟩ := Db.fileById_some hsome
      have hmem := hrows.mem hold
      have hchosen : choose old = true := by
        obtain ⟨r, hr, hchosen, hid⟩ := hids old.id List.mem_cons_self
        exact hwf.idUnique r hr old hmem hid ▸ hchosen
      have hempty : ¬ d.Occupied (old.withDeletedAt none) := by
        intro hoccupied
        obtain ⟨-, r, hr, hne, hl, hst, hpath⟩ := hoccupied
        obtain ⟨q, hq, hqid, heq⟩ := hrows r hr
        split at heq
        · case isTrue hvisited =>
          -- a row that was put back before
          have hsame := hapart q hq old hmem hvisited.2 hchosen
            ((congrArg FileRow.storageId heq).symm.trans hst) ((congrArg FileRow.path heq).symm.trans hpath)
          have hid : q.id = old.id := congrArg FileRow.id hsame
          exact hne (hqid.symm.trans hid)
        · case isFalse => exact Db.liveAt_none.mp (hfree old hmem hchosen) r (heq ▸ hq) hst hl hpath
      have hrep : ∃ d₁, d.replaceFile old (old.withDeletedAt none) = .ok d₁ := ⟨_, if_neg hempty⟩
      obtain ⟨d₁, hrep⟩ := hrep
      simp only [hrep]
      exact ih (hd.replaceFile hold hrep rfl rfl) hnodup.of_cons
        (fun i hi => hids i (List.mem_cons_of_mem _ hi))
        (hrows.visit hd keepsKey_undelete hnodup.notMem hold hchosen hrep)

lemma Db.undelete_ok (hwf : db.Wf) (order : List Uuid) (choose : FileRow → Bool)
    (hfree : ∀ r ∈ db.files, choose r = true → db.liveAt r.storageId r.path = none)
    (hapart : ∀ r ∈ db.files, ∀ q ∈ db.files, choose r = true → choose q = true →
      r.storageId = q.storageId → r.path = q.path → r = q) :
    ∃ db', db.updateFiles order choose (fun r => r.withDeletedAt none) = .ok db' := by
  refine Db.updateEach_undelete_ok hwf hfree hapart hwf (visitOrder_nodup _ _) (fun i hi => ?_)
    (.start hwf order)
  exact mem_idsWhere.mp (mem_visitOrder.mp hi)

/-! ## The folders above -/

/-- Some folders of a storage are live, and nothing else has changed; new rows have new ids. -/
structure FoldersMade (s : Uuid) (folders : List Path) (ids : List Uuid) (db db' : Db) : Prop where
  wf : db'.Wf
  live : ∀ folder ∈ folders, db'.livePathExists s folder = true
  old : ∀ r ∈ db'.files, r ∈ db.files ∨ r.Live ∧ r.storageId = s ∧ r.path ∈ folders
  kept : ∀ r ∈ db.files, r ∈ db'.files ∨ ¬ r.Live ∧ r.storageId = s ∧ r.path ∈ folders
  known : ∀ r ∈ db'.files, (∃ q ∈ db.files, q.id = r.id) ∨ r.id ∈ ids
  same : (∀ folder ∈ folders, db.livePathExists s folder = true) → db' = db

lemma FoldersMade.refl (hwf : db.Wf) {folder : Path} (hlive : db.livePathExists s folder = true) (id : Uuid) :
    FoldersMade s [folder] [id] db db where
  wf := hwf
  live f hf := by
    rw [List.mem_singleton.mp hf]
    exact hlive
  old _ hr := .inl hr
  kept _ hr := .inl hr
  known r hr := .inl ⟨r, hr, rfl⟩
  same _ := rfl

lemma livePathExists_of_mem {r : FileRow} (hr : r ∈ db.files) (hl : r.Live) (hst : r.storageId = s) :
    db.livePathExists s r.path = true := by
  rw [Db.livePathExists, Option.isSome_iff_ne_none]
  intro hnone
  exact Db.liveAt_none.mp hnone r hr hst hl rfl

lemma mem_of_livePathExists {path : Path} (h : db.livePathExists s path = true) :
    ∃ r ∈ db.files, r.storageId = s ∧ r.path = path ∧ r.Live := by
  obtain ⟨r, hr⟩ := Option.isSome_iff_exists.mp h
  exact ⟨r, Db.liveAt_some hr⟩

lemma FoldersMade.trans {d : Db} {folder : Path} {folders : List Path} {id : Uuid} {ids : List Uuid}
    (h : FoldersMade s [folder] [id] db d) (h' : FoldersMade s folders ids d db') :
    FoldersMade s (folder :: folders) (id :: ids) db db' where
  wf := h'.wf
  live := by
    intro f hf
    cases List.mem_cons.mp hf with
    | inl heq =>
      subst heq
      obtain ⟨r, hr, hst, hpath, hl⟩ := mem_of_livePathExists (h.live f (List.mem_singleton_self f))
      cases h'.kept r hr with
      | inl hr => exact hpath ▸ livePathExists_of_mem hr hl hst
      | inr hgone => exact absurd hl hgone.1
    | inr hmem => exact h'.live f hmem
  old := by
    intro r hr
    cases h'.old r hr with
    | inl hr =>
      cases h.old r hr with
      | inl hr => exact .inl hr
      | inr hnew => exact .inr ⟨hnew.1, hnew.2.1, List.mem_cons.mpr (.inl (List.mem_singleton.mp hnew.2.2))⟩
    | inr hnew => exact .inr ⟨hnew.1, hnew.2.1, List.mem_cons_of_mem folder hnew.2.2⟩
  kept := by
    intro r hr
    cases h.kept r hr with
    | inl hr =>
      cases h'.kept r hr with
      | inl hr => exact .inl hr
      | inr hgone => exact .inr ⟨hgone.1, hgone.2.1, List.mem_cons_of_mem folder hgone.2.2⟩
    | inr hgone => exact .inr ⟨hgone.1, hgone.2.1, List.mem_cons.mpr (.inl (List.mem_singleton.mp hgone.2.2))⟩
  known := by
    intro r hr
    cases h'.known r hr with
    | inl hold =>
      obtain ⟨q, hq, hid⟩ := hold
      cases h.known q hq with
      | inl hold =>
        obtain ⟨q', hq', hid'⟩ := hold
        exact .inl ⟨q', hq', hid'.trans hid⟩
      | inr hnew => exact .inr (List.mem_cons.mpr (.inl (hid.symm.trans (List.mem_singleton.mp hnew))))
    | inr hnew => exact .inr (List.mem_cons_of_mem id hnew)
  same := by
    intro hlive
    have hd : d = db := h.same fun f hf => hlive f (List.mem_cons.mpr (.inl (List.mem_singleton.mp hf)))
    subst hd
    exact h'.same fun f hf => hlive f (List.mem_cons_of_mem folder hf)

lemma undeleted_made (hwf : db.Wf) {folder : Path} (id : Uuid) {order : List Uuid} {marker : FileRow}
    (hnone : db.liveAt s folder = none) (hmarker : db.latestTrashed s folder order = some marker) :
    ∃ db', db.updateFiles [] (fun r => r.id = marker.id) (fun r => r.withDeletedAt none) = .ok db' ∧
      FoldersMade s [folder] [id] db db' := by
  obtain ⟨q, hq, hid, hst, htrash, hpath⟩ := Db.latestTrashed_spec hmarker
  have hsole : ∀ r ∈ db.files, decide (r.id = marker.id) = true → r = q := fun r hr hchosen =>
    hwf.idUnique r hr q hq ((of_decide_eq_true hchosen).trans hid.symm)
  obtain ⟨db', hok⟩ := Db.undelete_ok hwf [] (fun r => r.id = marker.id)
    (fun r hr hchosen => by rw [hsole r hr hchosen, hst, hpath]; exact hnone)
    (fun r hr r' hr' hchosen hchosen' _ _ => (hsole r hr hchosen).trans (hsole r' hr' hchosen').symm)
  obtain ⟨hwf', hrows⟩ := updateFiles_rows hwf keepsKey_undelete hok
  have hback : q.withDeletedAt none ∈ db'.files := by
    refine (hrows _).mpr ⟨q, hq, ?_⟩
    rw [decide_eq_true hid, if_pos rfl]
  have hlive : db'.livePathExists s folder = true := by
    rw [← hpath]
    exact livePathExists_of_mem (r := q.withDeletedAt none) hback rfl hst
  refine ⟨db', hok, hwf', ?_, ?_, ?_, ?_, ?_⟩
  · intro f hf
    rw [List.mem_singleton.mp hf]
    exact hlive
  · intro r hr
    obtain ⟨r', hr', rfl⟩ := (hrows r).mp hr
    split
    · case isTrue hchosen =>
      rw [hsole r' hr' hchosen]
      exact .inr ⟨rfl, hst, List.mem_singleton.mpr hpath⟩
    · exact .inl hr'
  · intro r hr
    by_cases hchosen : r.id = marker.id
    · rw [hsole r hr (decide_eq_true hchosen)]
      exact .inr ⟨htrash, hst, List.mem_singleton.mpr hpath⟩
    · refine .inl ((hrows r).mpr ⟨r, hr, ?_⟩)
      rw [decide_eq_false hchosen, if_neg Bool.false_ne_true]
  · intro r hr
    obtain ⟨r', hr', rfl⟩ := (hrows r).mp hr
    refine .inl ⟨r', hr', ?_⟩
    split
    · rfl
    · rfl
  · intro hthere
    have hsome := hthere folder (List.mem_singleton_self folder)
    rw [Db.livePathExists, hnone] at hsome
    cases hsome

lemma inserted_made (hwf : db.Wf) {folder : Path} {id : Uuid} (hst : db.HasStorage s)
    (hid : ∀ r ∈ db.files, r.id ≠ id) (hnone : db.liveAt s folder = none) :
    ∃ db', db.insertFile (folderMarker folder s id) = .ok db' ∧ FoldersMade s [folder] [id] db db' := by
  have hnew : (db.fileById (folderMarker folder s id).id).isSome ≠ true := by
    rw [ne_eq, Option.isSome_iff_ne_none, ne_eq, not_not]
    refine List.find?_eq_none.mpr fun r hr => ?_
    rw [decide_eq_true_eq]
    exact hid r hr
  have hfree : ¬ ((folderMarker folder s id).Live ∧
      (db.liveAt (folderMarker folder s id).storageId (folderMarker folder s id).path).isSome = true) := by
    intro h
    have hsome : (db.liveAt s folder).isSome = true := h.2
    rw [hnone] at hsome
    cases hsome
  have hok : ∃ db', db.insertFile (folderMarker folder s id) = .ok db' := by
    unfold Db.insertFile
    rw [if_neg hnew, if_neg hfree, if_pos (show db.HasStorage (folderMarker folder s id).storageId from hst)]
    exact ⟨_, rfl⟩
  obtain ⟨db', hok⟩ := hok
  refine ⟨db', hok, hwf.insertFile hok, ?_, ?_, ?_, ?_, ?_⟩
  · intro f hf
    rw [List.mem_singleton.mp hf]
    exact livePathExists_of_mem (r := folderMarker folder s id) ((Db.mem_insertFile hok).mpr (.inr rfl)) rfl rfl
  · intro r hr
    cases (Db.mem_insertFile hok).mp hr with
    | inl hr => exact .inl hr
    | inr hmarker =>
      subst hmarker
      exact .inr ⟨rfl, rfl, List.mem_singleton_self folder⟩
  · exact fun r hr => .inl ((Db.mem_insertFile hok).mpr (.inl hr))
  · intro r hr
    cases (Db.mem_insertFile hok).mp hr with
    | inl hr => exact .inl ⟨r, hr, rfl⟩
    | inr hmarker =>
      subst hmarker
      exact .inr (List.mem_singleton_self id)
  · intro hthere
    have hsome := hthere folder (List.mem_singleton_self folder)
    rw [Db.livePathExists, hnone] at hsome
    cases hsome

lemma ensureLiveFolder_made (hwf : db.Wf) (folder : Path) {id : Uuid} (order : List Uuid)
    (hst : db.HasStorage s) (hid : ∀ r ∈ db.files, r.id ≠ id) :
    ∃ db', db.ensureLiveFolder folder s id order = .ok db' ∧ FoldersMade s [folder] [id] db db' := by
  unfold Db.ensureLiveFolder
  cases hlive : db.liveAt s folder with
  | some r =>
    refine ⟨db, rfl, .refl hwf ?_ id⟩
    rw [Db.livePathExists, hlive]
    rfl
  | none =>
    rw [if_neg (show ¬ (none : Option FileRow).isSome = true from Bool.false_ne_true)]
    cases hmarker : db.latestTrashed s folder order with
    | some marker =>
      obtain ⟨db', hok, hmade⟩ := undeleted_made hwf id hlive hmarker
      refine ⟨db', ?_, hmade⟩
      simp only [hok]
    | none =>
      obtain ⟨db', hok, hmade⟩ := inserted_made hwf hst hid hlive
      refine ⟨db', ?_, hmade⟩
      simp only [hok]

lemma ensureFolders_made (order : List Uuid) (folders : List (Path × Uuid)) (hwf : db.Wf)
    (hst : ∃ r ∈ db.files, r.storageId = s) (hnodup : (folders.map (·.2)).Nodup)
    (hids : ∀ f ∈ folders, ∀ r ∈ db.files, r.id ≠ f.2) :
    FoldersMade s (folders.map (·.1)) (folders.map (·.2)) db (Db.ensureFolders s order folders db) := by
  induction folders generalizing db with
  | nil =>
    exact ⟨hwf, fun _ hf => absurd hf List.not_mem_nil, fun _ hr => .inl hr, fun _ hr => .inl hr,
      fun r hr => .inl ⟨r, hr, rfl⟩, fun _ => rfl⟩
  | cons folder folders ih =>
    obtain ⟨r, hr, hrs⟩ := hst
    have hstorage : db.HasStorage s := hrs ▸ hwf.storageExists r hr
    obtain ⟨d, hok, hmade⟩ := ensureLiveFolder_made hwf folder.1 order hstorage
      (hids folder List.mem_cons_self)
    have hensure : Db.ensureFolders s order (folder :: folders) db = Db.ensureFolders s order folders d := by
      rw [Db.ensureFolders, hok]
    rw [hensure]
    refine hmade.trans (ih hmade.wf ?_ hnodup.of_cons fun f hf q hq hqid => ?_)
    · obtain ⟨q, hq, hqs, -⟩ := mem_of_livePathExists (hmade.live _ (List.mem_singleton_self _))
      exact ⟨q, hq, hqs⟩
    · cases hmade.known q hq with
      | inl hold =>
        obtain ⟨q', hq', hid'⟩ := hold
        exact hids f (List.mem_cons_of_mem folder hf) q' hq' (hid'.trans hqid)
      | inr hnew =>
        have hsame : f.2 = folder.2 := hqid.symm.trans (List.mem_singleton.mp hnew)
        exact hnodup.notMem (List.mem_map.mpr ⟨f, hf, hsame⟩)

/-! ## What a restore puts back -/

variable {d : Db} {path : Path}

/-- The rows whose paths begin with a path are the same. -/
def SameUnder (path : Path) (db d : Db) : Prop :=
  ∀ r : FileRow, path <+: r.path → (r ∈ d.files ↔ r ∈ db.files)

lemma FoldersMade.sameUnder {ids : List Uuid} (h : FoldersMade s (Db.parentFolders path) ids db d) :
    SameUnder path db d := by
  intro r hr
  have hlong : r.path ∉ Db.parentFolders path := by
    intro hfolder
    have hlt := length_folder_lt hfolder
    have htrim : (trimEndSlashes path).length ≤ path.length := (List.rdropWhile_prefix _ path).length_le
    have hle := hr.length_le
    omega
  constructor
  · intro hmem
    cases h.old r hmem with
    | inl hold => exact hold
    | inr hnew => exact absurd hnew.2.2 hlong
  · intro hmem
    cases h.kept r hmem with
    | inl hkept => exact hkept
    | inr hgone => exact absurd hgone.2.2 hlong

lemma prefix_of_atOrUnder {p p' : FileRow → Bool} {r : FileRow}
    (h : Db.atOrUnder s path (db.folderPrefix s path p) p' r = true) : path <+: r.path := by
  obtain ⟨-, -, hat⟩ := of_decide_eq_true h
  unfold Db.folderPrefix at hat
  split at hat
  · split at hat
    · case isTrue hnil => exact hat ▸ List.prefix_refl _
    · exact prefix_of_startsWith hat
  · split at hat
    · rw [if_neg (List.append_ne_nil_of_right_ne_nil path (List.cons_ne_nil '/' []))] at hat
      exact (List.prefix_append path ['/']).trans (prefix_of_startsWith hat)
    · rw [if_pos rfl] at hat
      exact hat ▸ List.prefix_refl _

lemma folderPrefix_congr {p : FileRow → Bool}
    (h : ∀ r : FileRow, p r = true → path <+: r.path → (r ∈ d.files ↔ r ∈ db.files)) :
    d.folderPrefix s path p = db.folderPrefix s path p := by
  have hany : (d.files.any fun r => r.storageId = s ∧ p r ∧ startsWith r.path (path ++ ['/'])) =
      db.files.any fun r => r.storageId = s ∧ p r ∧ startsWith r.path (path ++ ['/']) := by
    rw [Bool.eq_iff_iff, List.any_eq_true, List.any_eq_true]
    refine exists_congr fun r => and_congr_left fun hr => ?_
    obtain ⟨-, hp, hunder⟩ := of_decide_eq_true hr
    exact h r hp ((List.prefix_append path ['/']).trans (prefix_of_startsWith hunder))
  unfold Db.folderPrefix
  rw [hany]

lemma listTrashedIds_congr
    (h : ∀ r : FileRow, ¬ r.Live → path <+: r.path → (r ∈ d.files ↔ r ∈ db.files)) :
    d.listTrashedIds s path = [] ↔ db.listTrashedIds s path = [] := by
  unfold Db.listTrashedIds
  dsimp only
  rw [folderPrefix_congr fun r hr => h r (of_decide_eq_true hr)]
  have hiff : ∀ r, Db.atOrUnder s path (db.folderPrefix s path fun r => ¬ r.Live) (fun r => ¬ r.Live) r = true →
      (r ∈ d.files ↔ r ∈ db.files) := by
    intro r hat
    exact h r (of_decide_eq_true (of_decide_eq_true hat).2.1) (prefix_of_atOrUnder hat)
  simp only [List.eq_nil_iff_forall_not_mem, mem_idsWhere, not_exists, not_and]
  constructor
  · intro hnone i r hr hat
    exact hnone i r ((hiff r hat).mpr hr) hat
  · intro hnone i r hr hat
    exact hnone i r ((hiff r hat).mp hr) hat

namespace SameUnder

lemma liveAt_none (h : SameUnder path db d) {p : Path} (hp : path <+: p) :
    d.liveAt s p = none ↔ db.liveAt s p = none := by
  rw [Db.liveAt_none, Db.liveAt_none]
  constructor
  · intro hnone r hr hst hl heq
    exact hnone r ((h r (heq ▸ hp)).mpr hr) hst hl heq
  · intro hnone r hr hst hl heq
    exact hnone r ((h r (heq ▸ hp)).mp hr) hst hl heq

lemma livePathExists (h : SameUnder path db d) {p : Path} (hp : path <+: p) :
    d.livePathExists s p = db.livePathExists s p := by
  rw [Db.livePathExists, Db.livePathExists, Bool.eq_iff_iff, Option.isSome_iff_ne_none,
    Option.isSome_iff_ne_none, ne_eq, ne_eq, h.liveAt_none hp]

lemma liveConflictAt (h : SameUnder path db d) : d.liveConflictAt s path = db.liveConflictAt s path := by
  rw [Db.liveConflictAt, Db.liveConflictAt, h.livePathExists (List.prefix_refl path),
    h.livePathExists (List.prefix_append path ['/'])]

lemma listTrashedIds (h : SameUnder path db d) :
    d.listTrashedIds s path = [] ↔ db.listTrashedIds s path = [] :=
  listTrashedIds_congr fun r _ hr => h r hr

end SameUnder

namespace Db

/-- The rows that `restore` chooses. -/
def undeletedBy (db : Db) (storageId : Uuid) (path : Path) : FileRow → Bool :=
  atOrUnder storageId path (db.folderPrefix storageId path fun r => ¬ r.Live) fun r =>
    ¬ r.Live ∧ db.liveAt r.storageId r.path = none

/-- `restore` chooses a row, and no two of one path. -/
def Undeletable (db : Db) (storageId : Uuid) (path : Path) : Prop :=
  (∃ r ∈ db.files, db.undeletedBy storageId path r = true) ∧
    ∀ r ∈ db.files, ∀ q ∈ db.files, db.undeletedBy storageId path r = true →
      db.undeletedBy storageId path q = true → r.path = q.path → r = q

instance (storageId : Uuid) (path : Path) : Decidable (db.Undeletable storageId path) :=
  inferInstanceAs (Decidable (_ ∧ ∀ r ∈ db.files, ∀ q ∈ db.files, _))

end Db

lemma SameUnder.undeletedBy (h : SameUnder path db d) {r : FileRow} (hr : path <+: r.path) :
    d.undeletedBy s path r = db.undeletedBy s path r := by
  unfold Db.undeletedBy
  rw [folderPrefix_congr fun r _ hr => h r hr]
  have hfree : decide (¬ r.Live ∧ d.liveAt r.storageId r.path = none) =
      decide (¬ r.Live ∧ db.liveAt r.storageId r.path = none) :=
    decide_eq_decide.mpr (and_congr_right fun _ => h.liveAt_none hr)
  exact decide_eq_decide.mpr (and_congr_right fun _ => and_congr_left fun _ => Bool.eq_iff_iff.mp hfree)

lemma SameUnder.undeletable (h : SameUnder path db d) : d.Undeletable s path ↔ db.Undeletable s path := by
  have hiff : ∀ r, r ∈ d.files ∧ d.undeletedBy s path r = true ↔
      r ∈ db.files ∧ db.undeletedBy s path r = true := by
    intro r
    constructor
    · intro hr
      have hfront := prefix_of_atOrUnder hr.2
      exact ⟨(h r hfront).mp hr.1, h.undeletedBy hfront ▸ hr.2⟩
    · intro hr
      have hfront := prefix_of_atOrUnder hr.2
      exact ⟨(h r hfront).mpr hr.1, (h.undeletedBy hfront).trans hr.2⟩
  refine and_congr (exists_congr hiff) ?_
  constructor
  · intro hapart r hr q hq hchosen hchosen'
    have hr' := (hiff r).mpr ⟨hr, hchosen⟩
    have hq' := (hiff q).mpr ⟨hq, hchosen'⟩
    exact hapart r hr'.1 q hq'.1 hr'.2 hq'.2
  · intro hapart r hr q hq hchosen hchosen'
    have hr' := (hiff r).mp ⟨hr, hchosen⟩
    have hq' := (hiff q).mp ⟨hq, hchosen'⟩
    exact hapart r hr'.1 q hq'.1 hr'.2 hq'.2

lemma undeletedBy_spec {r : FileRow} (h : db.undeletedBy s path r = true) :
    r.storageId = s ∧ ¬ r.Live ∧ db.liveAt s r.path = none := by
  obtain ⟨hst, hfree, -⟩ := of_decide_eq_true h
  have hfree := of_decide_eq_true hfree
  rw [hst] at hfree
  exact ⟨hst, hfree.1, hfree.2⟩

lemma Db.Undeletable.restore_ok (h : db.Undeletable s path) (hwf : db.Wf) (order : List Uuid) :
    ∃ db', db.restore path s order = .ok db' ∧ db'.Wf ∧ ∀ r', r' ∈ db'.files ↔
      ∃ r ∈ db.files, r' = if db.undeletedBy s path r then r.withDeletedAt none else r := by
  obtain ⟨hsome, hapart⟩ := h
  obtain ⟨db', hok⟩ := Db.undelete_ok hwf order (db.undeletedBy s path)
    (fun r hr hchosen => by
      obtain ⟨hst, -, hfree⟩ := undeletedBy_spec hchosen
      rw [hst]
      exact hfree)
    (fun r hr q hq hchosen hchosen' _ hpath => hapart r hr q hq hchosen hchosen' hpath)
  obtain ⟨hwf', hrows⟩ := updateFiles_rows hwf keepsKey_undelete hok
  refine ⟨db', ?_, hwf', hrows⟩
  have hids : db.idsWhere (db.undeletedBy s path) ≠ [] := by
    obtain ⟨r, hr, hchosen⟩ := hsome
    exact List.ne_nil_of_mem (mem_idsWhere.mpr ⟨r, hr, hchosen, rfl⟩)
  unfold Db.restore
  dsimp only
  rw [show db.updateFiles order (Db.atOrUnder s path (db.folderPrefix s path fun r => ¬ r.Live) fun r =>
      ¬ r.Live ∧ db.liveAt r.storageId r.path = none) (fun r => r.withDeletedAt none) = .ok db' from hok]
  dsimp only
  exact if_neg hids

lemma undeletable_of_restore (hwf : db.Wf) {order : List Uuid} (hok : db.restore path s order = .ok db')
    (hleft : db.listTrashedIds s path ≠ [] ∨ db.liveConflictAt s path = false) : db.Undeletable s path := by
  unfold Db.restore at hok
  dsimp only at hok
  split at hok
  · cases hok
  · cases hok
  · case h_3 db₁ hupd =>
    obtain ⟨hwf', hrows⟩ := updateFiles_rows hwf keepsKey_undelete hupd
    split at hok
    · split at hok
      · cases hok
      · case isFalse hnone =>
        -- nothing was chosen, so that an entry would have to be live
        split at hok
        · case isTrue hthere =>
          rw [not_not] at hnone
          cases hleft with
          | inl hleft => exact absurd hnone hleft
          | inr hfree =>
            rw [Db.liveConflictAt, Bool.or_eq_false_iff] at hfree
            cases hthere with
            | inl hlive => exact absurd hlive (Bool.eq_false_iff.mp hfree.1)
            | inr hlive =>
              have hfolder := hfree.2
              rw [Db.livePathExists, hlive.2, Bool.and_true, Bool.not_eq_false'] at hfolder
              exact absurd hfolder hlive.1
        · cases hok
    · case isFalse hids =>
      constructor
      · obtain ⟨i, hi⟩ := List.exists_mem_of_ne_nil _ hids
        obtain ⟨r, hr, hchosen, -⟩ := mem_idsWhere.mp hi
        exact ⟨r, hr, hchosen⟩
      · intro r hr q hq hchosen hchosen' hpath
        have hr' := (hrows (r.withDeletedAt none)).mpr ⟨r, hr, (if_pos hchosen).symm⟩
        have hq' := (hrows (q.withDeletedAt none)).mpr ⟨q, hq, (if_pos hchosen').symm⟩
        have hst : r.storageId = q.storageId :=
          (undeletedBy_spec hchosen).1.trans (undeletedBy_spec hchosen').1.symm
        have hsame := hwf'.aliveUnique _ hr' _ hq' rfl rfl hst hpath
        have hid : (r.withDeletedAt none).id = (q.withDeletedAt none).id := congrArg FileRow.id hsame
        exact hwf.idUnique r hr q hq hid

end Sarca.Server
