import Mathlib.Algebra.Order.Ring.Nat
import Sarca.Server.SoundPaths

/-!
# What a rename does to a subtree

`rewrite_paths` moves the rows under a folder to another one. It passes `str::len` of the folder's path to
`substr`; the one counts bytes, the other characters, and where they differ a row loses the beginning of
its name.

`SubtreeKept` is what a rename is for, `CutsExactly` is when it happens.
-/

namespace Sarca.Server

/-- The new folder, with its slash (Rust `new_prefix`). -/
def newPrefix (newPath : Path) : Path :=
  if isFolderPath newPath then newPath else newPath ++ ['/']

namespace Db

/-- The rows under the old folder are under the new one with the same rest, the other rows are as they were,
    and no two rows come to one path: neither two that the rename chooses, nor two live ones. -/
structure SubtreeKept (oldPath newPath : Path) (storageId : Uuid) (liveOnly : Bool) (db db' : Db) : Prop where
  moved : ∀ r ∈ db.files, renamed oldPath storageId liveOnly r = true →
    ∀ rest, r.path = oldPath ++ rest → r.withPath (newPrefix newPath ++ rest) ∈ db'.files
  kept : ∀ r ∈ db.files, renamed oldPath storageId liveOnly r = false → r ∈ db'.files
  known : ∀ r' ∈ db'.files, ∃ r ∈ db.files, r.id = r'.id
  apart : ∀ r ∈ db.files, ∀ q ∈ db.files, ∀ r' ∈ db'.files, ∀ q' ∈ db'.files, r'.id = r.id → q'.id = q.id →
    r.storageId = q.storageId →
    renamed oldPath storageId liveOnly r = true ∧ renamed oldPath storageId liveOnly q = true ∨
      r.Live ∧ q.Live →
    r.path ≠ q.path → r'.path ≠ q'.path

/-- Every character of the old folder's path is one byte, or there is nothing but the folder's marker. -/
def CutsExactly (db : Db) (oldPath : Path) (storageId : Uuid) (liveOnly : Bool) : Prop :=
  (∀ c ∈ oldPath, c.utf8Size = 1) ∨
    ∀ r ∈ db.files, renamed oldPath storageId liveOnly r = true → r.path = oldPath

instance (db : Db) (oldPath : Path) (storageId : Uuid) (liveOnly : Bool) :
    Decidable (db.CutsExactly oldPath storageId liveOnly) :=
  inferInstanceAs (Decidable (_ ∨ ∀ r ∈ db.files, _))

end Db

/-! ## Bytes and characters -/

lemma byteLen_foldl (p : Path) (n : Nat) :
    p.foldl (fun n c => n + c.utf8Size) n = n + (p.map Char.utf8Size).sum := by
  induction p generalizing n with
  | nil => rfl
  | cons c p ih =>
    rw [List.foldl_cons, ih, List.map_cons, List.sum_cons, Nat.add_assoc]

lemma byteLen_cons (c : Char) (p : Path) : byteLen (c :: p) = c.utf8Size + byteLen p := by
  rw [byteLen, byteLen, byteLen_foldl, byteLen_foldl, List.map_cons, List.sum_cons]
  omega

lemma length_le_byteLen (p : Path) : p.length ≤ byteLen p := by
  induction p with
  | nil => exact Nat.le_refl 0
  | cons c p ih =>
    have hc := Char.utf8Size_pos c
    rw [byteLen_cons, List.length_cons]
    omega

lemma byteLen_eq_length_iff {p : Path} : byteLen p = p.length ↔ ∀ c ∈ p, c.utf8Size = 1 := by
  induction p with
  | nil => exact iff_of_true rfl fun _ hc => absurd hc List.not_mem_nil
  | cons c p ih =>
    have hc := Char.utf8Size_pos c
    have hle := length_le_byteLen p
    rw [byteLen_cons, List.length_cons, List.forall_mem_cons, ← ih]
    omega

/-! ## The rows after a rename -/

section Rename

variable {db db' : Db} {oldPath newPath : Path} {storageId : Uuid} {liveOnly : Bool} {order : List Uuid}

lemma rewrittenPath_folder (hfolder : isFolderPath oldPath = true) (path : Path) :
    Db.rewrittenPath oldPath newPath path = newPrefix newPath ++ path.drop (byteLen oldPath) := by
  rw [Db.rewrittenPath, if_pos hfolder]
  rfl

lemma prefix_of_renamed (hfolder : isFolderPath oldPath = true) {r : FileRow}
    (h : Db.renamed oldPath storageId liveOnly r = true) : ∃ rest, r.path = oldPath ++ rest := by
  obtain ⟨-, -, hat⟩ := of_decide_eq_true h
  rw [if_pos hfolder] at hat
  obtain ⟨rest, hrest⟩ := prefix_of_startsWith hat
  exact ⟨rest, hrest.symm⟩

/-- What a rename that succeeds does to each row. -/
def renamedRow (oldPath newPath : Path) (storageId : Uuid) (liveOnly : Bool) (r : FileRow) : FileRow :=
  if Db.renamed oldPath storageId liveOnly r then r.withPath (Db.rewrittenPath oldPath newPath r.path) else r

lemma renamedRow_id (r : FileRow) : (renamedRow oldPath newPath storageId liveOnly r).id = r.id := by
  unfold renamedRow
  split
  · rfl
  · rfl

lemma renamedRow_live (r : FileRow) : (renamedRow oldPath newPath storageId liveOnly r).Live ↔ r.Live := by
  unfold renamedRow
  split
  · exact FileRow.withPath_live r _
  · exact Iff.rfl

lemma renamedRow_storageId (r : FileRow) :
    (renamedRow oldPath newPath storageId liveOnly r).storageId = r.storageId := by
  unfold renamedRow
  split
  · rfl
  · rfl

lemma wf_updateFiles (hwf : db.Wf) {choose : FileRow → Bool} {f : FileRow → FileRow} (hf : KeepsKey f)
    (hok : db.updateFiles order choose f = .ok db') : db'.Wf := by
  refine Db.updateEach_induct (P := fun _ d => d.Wf) (fun _ _ _ _ h => h) ?_ hok hwf
  intro id ids d d' old hsome hrep h
  obtain ⟨hold, -⟩ := Db.fileById_some hsome
  exact h.replaceFile hold hrep (hf old).1 (hf old).2

lemma updateFiles_rows (hwf : db.Wf) {choose : FileRow → Bool} {f : FileRow → FileRow} (hf : KeepsKey f)
    (hok : db.updateFiles order choose f = .ok db') :
    db'.Wf ∧ ∀ r', r' ∈ db'.files ↔ ∃ r ∈ db.files, r' = if choose r then f r else r := by
  have hrows := Db.mem_updateFiles hwf hf hok
  refine ⟨wf_updateFiles hwf hf hok, fun r' => ⟨hrows r', ?_⟩⟩
  rintro ⟨r, hr, rfl⟩
  -- the row with this id came from a row with this id, and there is one only
  obtain ⟨r', hr', hid⟩ := rowsStay_updateFiles hwf hf hok r hr
  obtain ⟨q, hq, heq⟩ := hrows r' hr'
  have hqid : q.id = r'.id := by
    rw [heq]
    split
    · exact (hf q).1.symm
    · rfl
  obtain rfl := hwf.idUnique q hq r hr (hqid.trans hid)
  exact heq ▸ hr'

lemma rewritePaths_rows (hwf : db.Wf)
    (hok : db.rewritePaths oldPath newPath storageId liveOnly order = .ok db') :
    db'.Wf ∧ ∀ r', r' ∈ db'.files ↔ ∃ r ∈ db.files, r' = renamedRow oldPath newPath storageId liveOnly r := by
  have hkeeps : KeepsKey fun r : FileRow => r.withPath (Db.rewrittenPath oldPath newPath r.path) :=
    fun _ => ⟨rfl, rfl⟩
  exact updateFiles_rows hwf hkeeps (Db.rewritePaths_inv hok)

lemma drop_byteLen (rest : Path) :
    (oldPath ++ rest).drop (byteLen oldPath) = rest.drop (byteLen oldPath - oldPath.length) := by
  rw [List.drop_append, List.drop_eq_nil_of_le (length_le_byteLen oldPath), List.nil_append]

lemma renamedRow_of_exact (hfolder : isFolderPath oldPath = true)
    (hcut : db.CutsExactly oldPath storageId liveOnly)
    {r : FileRow} (hr : r ∈ db.files) (hchosen : Db.renamed oldPath storageId liveOnly r = true) {rest : Path}
    (hrest : r.path = oldPath ++ rest) :
    renamedRow oldPath newPath storageId liveOnly r = r.withPath (newPrefix newPath ++ rest) := by
  have hdrop : rest.drop (byteLen oldPath - oldPath.length) = rest := by
    cases hcut with
    | inl hascii => rw [byteLen_eq_length_iff.mpr hascii, Nat.sub_self, List.drop_zero]
    | inr hmarker =>
      have hnil : oldPath ++ rest = oldPath := hrest.symm.trans (hmarker r hr hchosen)
      rw [List.append_right_eq_self.mp hnil, List.drop_nil]
  rw [renamedRow, if_pos hchosen, rewrittenPath_folder hfolder, hrest, drop_byteLen, hdrop]

lemma SubtreeKept.of_exact (hwf : db.Wf) (hfolder : isFolderPath oldPath = true)
    (hok : db.rewritePaths oldPath newPath storageId liveOnly order = .ok db')
    (hcut : db.CutsExactly oldPath storageId liveOnly) :
    Db.SubtreeKept oldPath newPath storageId liveOnly db db' := by
  obtain ⟨hwf', hrows⟩ := rewritePaths_rows hwf hok
  have hafter : ∀ r ∈ db.files, ∀ r' ∈ db'.files, r'.id = r.id →
      r' = renamedRow oldPath newPath storageId liveOnly r := by
    intro r hr r' hr' hid
    refine hwf'.idUnique r' hr' _ ((hrows _).mpr ⟨r, hr, rfl⟩) ?_
    exact hid.trans (renamedRow_id r).symm
  constructor
  · intro r hr hchosen rest hrest
    rw [← renamedRow_of_exact hfolder hcut hr hchosen hrest]
    exact (hrows _).mpr ⟨r, hr, rfl⟩
  · intro r hr hother
    have hsame : renamedRow oldPath newPath storageId liveOnly r = r := by
      rw [renamedRow, hother, if_neg Bool.false_ne_true]
    exact (hrows r).mpr ⟨r, hr, hsame.symm⟩
  · intro r' hr'
    obtain ⟨r, hr, rfl⟩ := (hrows r').mp hr'
    exact ⟨r, hr, (renamedRow_id r).symm⟩
  · intro r hr q hq r' hr' q' hq' hid hid' hstorage hpair hne heq
    rw [hafter r hr r' hr' hid, hafter q hq q' hq' hid'] at heq
    cases hpair with
    | inl hchosen =>
      obtain ⟨rest, hrest⟩ := prefix_of_renamed hfolder hchosen.1
      obtain ⟨rest', hrest'⟩ := prefix_of_renamed hfolder hchosen.2
      rw [renamedRow_of_exact hfolder hcut hr hchosen.1 hrest,
        renamedRow_of_exact hfolder hcut hq hchosen.2 hrest'] at heq
      have hrests : rest = rest' := List.append_cancel_left heq
      exact hne (by rw [hrest, hrest', hrests])
    | inr hlive =>
      -- the unique index keeps live rows apart
      have hone := hwf'.aliveUnique _ ((hrows _).mpr ⟨r, hr, rfl⟩) _ ((hrows _).mpr ⟨q, hq, rfl⟩)
        ((renamedRow_live r).mpr hlive.1) ((renamedRow_live q).mpr hlive.2)
        ((renamedRow_storageId r).trans (hstorage.trans (renamedRow_storageId q).symm)) heq
      have hsame : r.id = q.id := by
        rw [← renamedRow_id r, hone]
        exact renamedRow_id q
      exact hne (by rw [hwf.idUnique r hr q hq hsame])

/-- A rename of a folder that succeeds keeps the subtree just when bytes and characters agree on where the old
    folder's path ends. -/
theorem subtreeKept_iff (hwf : db.Wf) (hfolder : isFolderPath oldPath = true)
    (hok : db.rewritePaths oldPath newPath storageId liveOnly order = .ok db') :
    Db.SubtreeKept oldPath newPath storageId liveOnly db db' ↔ db.CutsExactly oldPath storageId liveOnly := by
  refine ⟨fun h => ?_, SubtreeKept.of_exact hwf hfolder hok⟩
  rw [Db.CutsExactly, ← byteLen_eq_length_iff, or_iff_not_imp_left]
  intro hbytes r hr hchosen
  obtain ⟨hwf', hrows⟩ := rewritePaths_rows hwf hok
  obtain ⟨rest, hrest⟩ := prefix_of_renamed hfolder hchosen
  have hmoved := h.moved r hr hchosen rest hrest
  have hsame := hwf'.idUnique _ hmoved _ ((hrows _).mpr ⟨r, hr, rfl⟩) (renamedRow_id r).symm
  have hpath := congrArg FileRow.path hsame
  rw [renamedRow, if_pos hchosen, rewrittenPath_folder hfolder, hrest, drop_byteLen] at hpath
  have hlength := congrArg List.length (List.append_cancel_left hpath)
  have hle := length_le_byteLen oldPath
  rw [List.length_drop] at hlength
  have hnil : rest = [] := List.length_eq_zero_iff.mp (by omega)
  rw [hrest, hnil, List.append_nil]

end Rename

/-! ## Two folders -/

def folderWith (folder file : Path) : Db :=
  { Db.fresh [⟨1, 1⟩] with
    files := [folderMarker folder 1 1, (InFile.new (folder ++ file) 3 1).toRow 2 true] }

def afterRename (db : Db) (oldPath newPath : Path) : Db :=
  match db.rewritePaths oldPath newPath 1 true [] with
  | .ok db' => db'
  | .error _ => db

lemma folderWith_wf (folder file : Path) (hfile : file ≠ []) : (folderWith folder file).Wf where
  idUnique r hr r' hr' hid := by
    simp only [folderWith, List.mem_cons, List.not_mem_nil, or_false] at hr hr'
    rcases hr with rfl | rfl
    · rcases hr' with rfl | rfl
      · rfl
      · exact absurd (show 1 = 2 from hid) (by decide)
    · rcases hr' with rfl | rfl
      · exact absurd (show 2 = 1 from hid) (by decide)
      · rfl
  aliveUnique r hr r' hr' _ _ _ hpath := by
    simp only [folderWith, List.mem_cons, List.not_mem_nil, or_false] at hr hr'
    rcases hr with rfl | rfl
    · rcases hr' with rfl | rfl
      · rfl
      · exact absurd (List.append_right_eq_self.mp (Eq.symm hpath)) hfile
    · rcases hr' with rfl | rfl
      · exact absurd (List.append_right_eq_self.mp hpath) hfile
      · rfl
  storageExists r hr := by
    refine ⟨⟨1, 1⟩, List.mem_singleton_self _, ?_⟩
    simp only [folderWith, List.mem_cons, List.not_mem_nil, or_false] at hr
    rcases hr with rfl | rfl
    · rfl
    · rfl
  eventsGrow := List.Pairwise.nil
  eventsSeen _ he := absurd he List.not_mem_nil

theorem docs_subtreeKept : Db.SubtreeKept "docs/".toList "notes/".toList 1 true
    (folderWith "docs/".toList "ab".toList)
    (afterRename (folderWith "docs/".toList "ab".toList) "docs/".toList "notes/".toList) :=
  (subtreeKept_iff (folderWith_wf _ _ (by decide)) (by decide)
    (show
      (folderWith "docs/".toList "ab".toList).rewritePaths "docs/".toList "notes/".toList 1 true [] = .ok _ from
      rfl)).mpr (.inl fun c hc => of_decide_eq_true (List.all_eq_true.mp
        (show "docs/".toList.all (fun c => decide (c.utf8Size = 1)) = true by decide) c hc))

/-- In a folder whose name has a character of two bytes, a file loses the first character of its name. -/
theorem accented_notKept : (folderWith "é/".toList "ab".toList).Wf ∧
    (folderWith "é/".toList "ab".toList).rewritePaths "é/".toList "notes/".toList 1 true [] =
      .ok (afterRename (folderWith "é/".toList "ab".toList) "é/".toList "notes/".toList) ∧
    (afterRename (folderWith "é/".toList "ab".toList) "é/".toList "notes/".toList).files.map FileRow.path =
      ["notes/".toList, "notes/b".toList] ∧
    ¬ Db.SubtreeKept "é/".toList "notes/".toList 1 true (folderWith "é/".toList "ab".toList)
      (afterRename (folderWith "é/".toList "ab".toList) "é/".toList "notes/".toList) := by
  refine ⟨folderWith_wf _ _ (by decide), by rfl, by decide, fun h => ?_⟩
  have hmoved := h.moved _ (List.mem_cons_of_mem _ List.mem_cons_self) (by decide) "ab".toList rfl
  revert hmoved
  decide

end Sarca.Server
