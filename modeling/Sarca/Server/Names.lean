import Sarca.Server.Intact
import Sarca.Server.Services

/-!
# A name is a file or a folder

`Unambiguous` asks that no live file of a storage has live rows under its path with a slash behind it. The
unique index compares whole paths only, and `create_folder`, an upload, a rename and the folders made above
a path look for their own path and not for the other form. `NamesFit` is what a statement would have to find:
the paths it brings have no live file above them, no live row below them when they are files, and do not
clash with one another. `names_unambiguous`: in every sequence of calls whose statements fit, a name is a
file or a folder, never both.
-/

namespace Sarca.Server
open Sarca.Lib

/-- The first path is a file, and the second is under it. -/
def Clash (p q : Path) : Prop :=
  isFolderPath p = false ∧ (p ++ ['/']) <+: q

def Apart (p q : Path) : Prop :=
  ¬ Clash p q ∧ ¬ Clash q p

instance (p q : Path) : Decidable (Clash p q) := instDecidableAnd

instance (p q : Path) : Decidable (Apart p q) := instDecidableAnd

def livePaths (s : Uuid) (db : Db) : List Path :=
  (db.files.filter fun r => r.storageId = s ∧ r.Live).map (·.path)

def Unambiguous (s : Uuid) (db : Db) : Prop :=
  ∀ p ∈ livePaths s db, ∀ q ∈ livePaths s db, ¬ Clash p q

instance (s : Uuid) (db : Db) : Decidable (Unambiguous s db) :=
  inferInstanceAs (Decidable (∀ p ∈ livePaths s db, _))

/-- The paths at which a statement makes a row of the storage live. -/
def arrivals (s : Uuid) (db : Db) : Statement → List Path
  | .row (.createFile inObj _) | .row (.createFolder inObj _) =>
    if inObj.storageId = s then [inObj.path] else []
  | .insertClonedFile source destPath _ => if source.storageId = s then [destPath] else []
  | .row (.ensureLiveParentFolders path storageId _ _) =>
    if storageId = s then (Db.parentFolders path).filter fun folder => !db.livePathExists s folder else []
  | .row (.restore path storageId _) =>
    if storageId = s then
      (db.files.filter (Db.atOrUnder s path (db.folderPrefix s path fun r => ¬ r.Live) fun r =>
        ¬ r.Live ∧ db.liveAt r.storageId r.path = none)).map (·.path)
    else []
  | .row (.updatePath oldPath newPath storageId _) =>
    if storageId = s then
      (db.files.filter (Db.renamed oldPath s true)).map fun r => Db.rewrittenPath oldPath newPath r.path
    else []
  | _ => []

/-- The statement gives the live row at a path another one. -/
def Leaves (s : Uuid) (p : Path) : Statement → Prop
  | .row (.updatePath oldPath _ storageId _) =>
    storageId = s ∧ if isFolderPath oldPath then startsWith p oldPath = true else p = oldPath
  | _ => False

instance (s : Uuid) (p : Path) : (st : Statement) → Decidable (Leaves s p st)
  | .row (.updatePath _ _ _ _) => instDecidableAnd
  | .row (.createFile _ _) | .row (.createFolder _ _) | .row (.setAsUploaded _)
  | .row (.setThumb _ _ _) | .row (.setPreview _ _ _) | .row (.delete _ _ _ _ _)
  | .row (.restore _ _ _) | .row (.ensureLiveParentFolders _ _ _ _)
  | .row (.updateTrashedPath _ _ _ _) | .row (.replaceContent _ _ _ _ _ _)
  | .row (.hardDeleteIds _ _) | .insertClonedFile _ _ _ | .createChunksBatch _
  | .insertBatch _ => instDecidableFalse

/-- The paths a statement brings are apart from those that stay, and from one another. -/
def NamesFit (s : Uuid) (db : Db) (st : Statement) : Prop :=
  ∀ p ∈ arrivals s db st,
    (∀ q ∈ livePaths s db, ¬ Leaves s q st → Apart p q) ∧ ∀ q ∈ arrivals s db st, Apart p q

instance (s : Uuid) (db : Db) (st : Statement) : Decidable (NamesFit s db st) :=
  inferInstanceAs (Decidable (∀ p ∈ arrivals s db st, _))

/-! ## Paths -/

lemma prefix_of_startsWith {column param : Path} (h : startsWith column param = true) :
    param <+: column := by
  unfold startsWith pathLt at h
  induction param generalizing column with
  | nil => exact List.nil_prefix
  | cons c param ih =>
    cases column with
    | nil => simp at h
    | cons d column =>
      simp only [List.cons_append, List.lex, Bool.and_eq_true, Bool.not_eq_true',
        Bool.or_eq_false_iff, Bool.or_eq_true, decide_eq_true_eq, decide_eq_false_iff_not,
        Bool.and_eq_false_iff, beq_iff_eq, beq_eq_false_iff_ne] at h
      obtain ⟨⟨hge, hrest⟩, hlt | ⟨rfl, hlt⟩⟩ := h
      · exact absurd hlt hge
      · refine List.cons_prefix_cons.mpr ⟨rfl, ih ?_⟩
        cases hrest with
        | inl hne => exact absurd rfl hne
        | inr hrest =>
          rw [hrest, hlt]
          rfl

lemma intercalate_append {sep : Path} {xs ys : List Path} (hxs : xs ≠ []) (hys : ys ≠ []) :
    sep.intercalate (xs ++ ys) = sep.intercalate xs ++ sep ++ sep.intercalate ys := by
  induction xs with
  | nil => exact absurd rfl hxs
  | cons x xs ih =>
    cases xs with
    | nil =>
      cases ys with
      | nil => exact absurd rfl hys
      | cons y ys => simp [List.intercalate, List.intersperse]
    | cons x' xs =>
      have hrest := ih (List.cons_ne_nil x' xs)
      simp only [List.intercalate, List.cons_append, List.intersperse, List.flatten_cons,
        List.append_assoc] at hrest ⊢
      rw [hrest]

/-- A file above the parent's marker is above the path itself. -/
lemma prefix_of_parentDir {path parent p : Path} (hparent : parentDir path = some parent)
    (h : (p ++ ['/']) <+: parent ++ ['/']) (hfile : isFolderPath p = false) :
    (p ++ ['/']) <+: path := by
  have hpath : ['/'].intercalate (path.splitOn '/') = path := List.intercalate_splitOn '/'
  unfold parentDir at hparent
  split at hparent
  · cases hparent
  · case h_2 first rest hsplit =>
    dsimp only at hparent
    split at hparent
    · cases hparent
    · case h_2 body hsome =>
      generalize hkept : dropTrailingEmpty (dropTrailingEmpty rest).dropLast = kept at hparent
      obtain ⟨ys, hys, hrest⟩ : ∃ ys, ys ≠ [] ∧ kept ++ ys = rest := by
        have hdrop : kept <+: (dropTrailingEmpty rest).dropLast := hkept ▸ List.rdropWhile_prefix _ _
        have hlast : (dropTrailingEmpty rest).dropLast <+: dropTrailingEmpty rest :=
          List.dropLast_prefix _
        have hbody : dropTrailingEmpty rest <+: rest := List.rdropWhile_prefix _ _
        obtain ⟨ys, hys⟩ := (hdrop.trans hlast).trans hbody
        refine ⟨ys, ?_, hys⟩
        rintro rfl
        have hlength := congrArg List.length hys
        have hpos : 0 < (dropTrailingEmpty rest).length := List.length_pos_iff.mpr hsome
        have hle := hdrop.length_le
        have hle' := hbody.length_le
        rw [List.length_append, List.length_nil] at hlength
        rw [List.length_dropLast] at hle
        omega
      rw [hsplit, ← hrest, ← List.cons_append,
        intercalate_append (List.cons_ne_nil first kept) hys] at hpath
      split at hparent
      · case isTrue hfirst =>
        subst hfirst
        cases hparent
        cases kept with
        | nil =>
          -- the parent is the root, whose marker has two slashes
          have hp : p = [] ∨ p = ['/'] := by
            cases p with
            | nil => exact Or.inl rfl
            | cons c p =>
              obtain ⟨rfl, hp⟩ := List.cons_prefix_cons.mp h
              cases p with
              | nil => exact Or.inr rfl
              | cons d p =>
                have hlength := hp.length_le
                simp [List.intercalate] at hlength
          cases hp with
          | inl hp =>
            subst hp
            rw [← hpath]
            exact List.prefix_append _ _
          | inr hp =>
            subst hp
            cases hfile
        | cons k kept =>
          have hroot : ['/'].intercalate ([] :: k :: kept) = '/' :: ['/'].intercalate (k :: kept) := rfl
          rw [hroot] at hpath
          rw [← hpath]
          exact h.trans (List.prefix_append _ _)
      · cases hparent
        rw [← hpath]
        exact h.trans (List.prefix_append _ _)

/-! ## What a statement leaves of the live paths -/

variable {s : Uuid} {db db' : Db} {p : Path}

lemma mem_livePaths : p ∈ livePaths s db ↔ ∃ r ∈ db.files, r.storageId = s ∧ r.Live ∧ r.path = p := by
  rw [livePaths, List.mem_map]
  constructor
  · intro h
    obtain ⟨r, hr, hp⟩ := h
    obtain ⟨hr, hkept⟩ := List.mem_filter.mp hr
    exact ⟨r, hr, (of_decide_eq_true hkept).1, (of_decide_eq_true hkept).2, hp⟩
  · intro h
    obtain ⟨r, hr, hs, hl, hp⟩ := h
    exact ⟨r, List.mem_filter.mpr ⟨hr, decide_eq_true ⟨hs, hl⟩⟩, hp⟩

/-- Where an `UPDATE` stands: the rows with these ids are still to be visited, the others it chose are
    changed. -/
def Db.Visited (choose : FileRow → Bool) (f : FileRow → FileRow) (db : Db) (ids : List Uuid) (d : Db) : Prop :=
  ∀ r ∈ d.files, ∃ q ∈ db.files, q.id = r.id ∧ r = if r.id ∉ ids ∧ choose q = true then f q else q

namespace Db.Visited

variable {choose : FileRow → Bool} {f : FileRow → FileRow} {ids : List Uuid} {d d' : Db} {old : FileRow}

lemma mem (h : Visited choose f db (old.id :: ids) d) (hold : old ∈ d.files) : old ∈ db.files := by
  obtain ⟨q, hq, hid, heq⟩ := h old hold
  have hsame : old = q := by
    simpa only [List.mem_cons, true_or, not_true_eq_false, false_and, if_false] using heq
  exact hsame ▸ hq

lemma skip {id : Uuid} (h : Visited choose f db (id :: ids) d) (hnone : d.fileById id = none) :
    Visited choose f db ids d := by
  intro r hr
  obtain ⟨q, hq, hid, heq⟩ := h r hr
  have hne : r.id ≠ id := by
    simpa using List.find?_eq_none.mp hnone r hr
  refine ⟨q, hq, hid, ?_⟩
  simpa only [List.mem_cons, hne, false_or] using heq

lemma visit (h : Visited choose f db (old.id :: ids) d) (hd : d.Wf) (hf : KeepsKey f) (hnotin : old.id ∉ ids)
    (hold : old ∈ d.files) (hchosen : choose old = true) (hrep : d.replaceFile old (f old) = .ok d') :
    Visited choose f db ids d' := by
  intro r hr
  cases (Db.mem_replaceFile hd hold hrep).mp hr with
  | inl hnew =>
    subst hnew
    refine ⟨old, h.mem hold, ((hf old).1).symm, ?_⟩
    rw [(hf old).1, if_pos ⟨hnotin, hchosen⟩]
  | inr hother =>
    obtain ⟨hr, hne⟩ := hother
    obtain ⟨q, hq, hid, heq⟩ := h r hr
    have hid' : r.id ≠ old.id := fun he => hne (hd.idUnique r hr old hold he)
    refine ⟨q, hq, hid, ?_⟩
    simpa only [List.mem_cons, hid', false_or] using heq

lemma start (hwf : db.Wf) (order : List Uuid) :
    Visited choose f db (visitOrder order (db.idsWhere choose)) db := by
  intro r hr
  refine ⟨r, hr, rfl, ?_⟩
  split
  · case isTrue h => exact absurd ((mem_visited hwf hr).mpr h.2) h.1
  · rfl

end Db.Visited

lemma Db.mem_updateFiles (hwf : db.Wf) {order : List Uuid} {choose : FileRow → Bool}
    {f : FileRow → FileRow} (hf : KeepsKey f) (hok : db.updateFiles order choose f = .ok db') :
    ∀ r ∈ db'.files, ∃ q ∈ db.files, r = if choose q then f q else q := by
  have hend := Db.updateEach_induct
    (P := fun ids d => d.Wf ∧ ids.Nodup ∧ (∀ i ∈ ids, i ∈ visitOrder order (db.idsWhere choose)) ∧
      Db.Visited choose f db ids d) ?_ ?_ hok
    ⟨hwf, visitOrder_nodup _ _, fun _ hi => hi, .start hwf order⟩
  · intro r hr
    obtain ⟨q, hq, -, heq⟩ := hend.2.2.2 r hr
    refine ⟨q, hq, ?_⟩
    simpa only [List.not_mem_nil, not_false_eq_true, true_and] using heq
  · intro id ids d hnone h
    obtain ⟨hd, hnodup, hsub, hrows⟩ := h
    exact ⟨hd, hnodup.of_cons, fun i hi => hsub i (List.mem_cons_of_mem id hi), hrows.skip hnone⟩
  · intro id ids d d' old hsome hrep h
    obtain ⟨hd, hnodup, hsub, hrows⟩ := h
    obtain ⟨hold, rfl⟩ := Db.fileById_some hsome
    have hchosen := (mem_visited hwf (hrows.mem hold)).mp (hsub old.id List.mem_cons_self)
    exact ⟨hd.replaceFile hold hrep (hf old).1 (hf old).2, hnodup.of_cons,
      fun i hi => hsub i (List.mem_cons_of_mem _ hi), hrows.visit hd hf hnodup.notMem hold hchosen hrep⟩

lemma livePaths_insertFile {row : FileRow} (hok : db.insertFile row = .ok db')
    (h : p ∈ livePaths s db') : p ∈ livePaths s db ∨ row.storageId = s ∧ row.Live ∧ row.path = p := by
  obtain ⟨r, hr, hs, hl, hp⟩ := mem_livePaths.mp h
  cases (Db.mem_insertFile hok).mp hr with
  | inl hr => exact Or.inl (mem_livePaths.mpr ⟨r, hr, hs, hl, hp⟩)
  | inr hr =>
    subst hr
    exact Or.inr ⟨hs, hl, hp⟩

lemma livePaths_updateFiles (hwf : db.Wf) {order : List Uuid} {choose : FileRow → Bool}
    {f : FileRow → FileRow} (hok : db.updateFiles order choose f = .ok db') (hf : KeepsKey f)
    (h : p ∈ livePaths s db') : ∃ q ∈ db.files, q.storageId = s ∧
      (choose q = false ∧ q.Live ∧ q.path = p ∨ choose q = true ∧ (f q).Live ∧ (f q).path = p) := by
  obtain ⟨r, hr, hs, hl, hp⟩ := mem_livePaths.mp h
  obtain ⟨q, hq, heq⟩ := Db.mem_updateFiles hwf hf hok r hr
  cases hchoose : choose q with
  | false =>
    rw [hchoose, if_neg Bool.false_ne_true] at heq
    subst heq
    exact ⟨r, hq, hs, Or.inl ⟨hchoose, hl, hp⟩⟩
  | true =>
    rw [hchoose, if_pos rfl] at heq
    subst heq
    exact ⟨q, hq, (hf q).2.symm.trans hs, Or.inr ⟨hchoose, hl, hp⟩⟩

lemma livePaths_updateFiles_sub (hwf : db.Wf) {order : List Uuid} {choose : FileRow → Bool}
    {f : FileRow → FileRow} (hok : db.updateFiles order choose f = .ok db') (hf : KeepsKey f)
    (hsame : ∀ r, choose r = true → (f r).Live → r.Live ∧ (f r).path = r.path) (h : p ∈ livePaths s db') :
    p ∈ livePaths s db := by
  obtain ⟨q, hq, hs, hcase⟩ := livePaths_updateFiles hwf hok hf h
  cases hcase with
  | inl hkept => exact mem_livePaths.mpr ⟨q, hq, hs, hkept.2⟩
  | inr hchosen =>
    obtain ⟨hchosen, hl, hp⟩ := hchosen
    obtain ⟨hl', hpath⟩ := hsame q hchosen hl
    exact mem_livePaths.mpr ⟨q, hq, hs, hl', hpath.symm.trans hp⟩

lemma livePaths_updateById (hwf : db.Wf) {id : Uuid} {f : FileRow → FileRow} (hf : Db.InPlace f)
    (hok : db.updateById id f = .ok db') (h : p ∈ livePaths s db') : p ∈ livePaths s db := by
  have hkeeps : KeepsKey f := fun r => ⟨(hf r).1, (hf r).2.1⟩
  refine livePaths_updateFiles_sub hwf (Db.updateById_inv hok) hkeeps (fun r _ hl => ?_) h
  exact ⟨(hf r).2.2.2.symm.trans hl, (hf r).2.2.1⟩

lemma livePaths_delete (hwf : db.Wf) {path : Path} {storageId markerId : Uuid} {now : Instant}
    {order : List Uuid} (hok : db.delete path storageId now markerId order = .ok db')
    (h : p ∈ livePaths s db') : p ∈ livePaths s db ∨
      isFolderPath p = true ∧ ∀ q, Clash q p → ∃ q' ∈ livePaths s db, Clash q q' := by
  obtain ⟨db₁, hupd, hsome, hparent⟩ := Db.delete_inv hok
  have hsub : ∀ q, q ∈ livePaths s db₁ → q ∈ livePaths s db := fun q hq =>
    livePaths_updateFiles_sub hwf hupd (fun _ => ⟨rfl, rfl⟩)
      (fun _ _ hl => absurd hl (Option.some_ne_none now)) hq
  obtain ⟨id, hid⟩ := List.exists_mem_of_ne_nil _ hsome
  obtain ⟨r, hr, hhit, -⟩ := mem_idsWhere.mp hid
  obtain ⟨hst, hl, hat⟩ := of_decide_eq_true hhit
  rcases Db.recreateParent_inv hparent with ⟨rfl, -⟩ | ⟨parent, hparent, -, hins⟩
  · exact Or.inl (hsub p h)
  · cases livePaths_insertFile hins h with
    | inl h => exact Or.inl (hsub p h)
    | inr hmarker =>
      obtain ⟨hs, -, rfl⟩ := hmarker
      refine Or.inr ⟨?_, fun q hclash => ?_⟩
      · show ((parent ++ ['/']).getLast? == some '/') = true
        rw [List.getLast?_concat]
        rfl
      · have habove := prefix_of_parentDir hparent hclash.2 hclash.1
        refine ⟨r.path, mem_livePaths.mpr ⟨r, hr, hst.trans hs, of_decide_eq_true hl, rfl⟩, hclash.1, ?_⟩
        split at habove
        · case isTrue hnone =>
          rw [if_pos hnone] at hat
          rwa [hat]
        · case isFalse hfolder =>
          rw [if_neg hfolder] at hat
          have htrim : trimEndSlashes (db.folderPrefix storageId path fun r => r.Live) <+:
              db.folderPrefix storageId path fun r => r.Live :=
            List.rdropWhile_prefix (· = '/') _
          exact habove.trans (htrim.trans (prefix_of_startsWith hat))

lemma livePaths_restore (hwf : db.Wf) {path : Path} {storageId : Uuid} {order : List Uuid}
    (hok : db.restore path storageId order = .ok db') (h : p ∈ livePaths s db') :
    p ∈ livePaths s db ∨ p ∈ arrivals s db (.row (.restore path storageId order)) := by
  rcases Db.restore_inv hok with rfl | hupd
  · exact Or.inl h
  · obtain ⟨q, hq, hs, hcase⟩ := livePaths_updateFiles hwf hupd (fun _ => ⟨rfl, rfl⟩) h
    cases hcase with
    | inl hkept => exact Or.inl (mem_livePaths.mpr ⟨q, hq, hs, hkept.2⟩)
    | inr hchosen =>
      obtain ⟨hchosen, -, hp⟩ := hchosen
      have hst : storageId = s := (of_decide_eq_true hchosen).1.symm.trans hs
      subst hst
      refine Or.inr ?_
      rw [arrivals, if_pos rfl]
      exact List.mem_map.mpr ⟨q, List.mem_filter.mpr ⟨hq, hchosen⟩, hp⟩

lemma livePaths_rewritePaths (hwf : db.Wf) {oldPath newPath : Path} {storageId : Uuid}
    {order : List Uuid} (hok : db.rewritePaths oldPath newPath storageId true order = .ok db')
    (h : p ∈ livePaths s db') :
    p ∈ livePaths s db ∧ ¬ Leaves s p (.row (.updatePath oldPath newPath storageId order)) ∨
      p ∈ arrivals s db (.row (.updatePath oldPath newPath storageId order)) := by
  obtain ⟨q, hq, hs, hcase⟩ :=
    livePaths_updateFiles hwf (Db.rewritePaths_inv hok) (fun _ => ⟨rfl, rfl⟩) h
  cases hcase with
  | inl hkept =>
    obtain ⟨hnot, hl, rfl⟩ := hkept
    refine Or.inl ⟨mem_livePaths.mpr ⟨q, hq, hs, hl, rfl⟩, fun hleaves => ?_⟩
    obtain ⟨hst, hat⟩ := hleaves
    refine of_decide_eq_false hnot ⟨hs.trans hst.symm, ?_, ?_⟩
    · rw [if_pos rfl]
      exact hl
    · split
      · case isTrue hfolder => rwa [if_pos hfolder] at hat
      · case isFalse hfile =>
        rw [if_neg hfile] at hat
        exact decide_eq_true hat
  | inr hchosen =>
    obtain ⟨hchosen, -, hp⟩ := hchosen
    have hst : storageId = s := (of_decide_eq_true hchosen).1.symm.trans hs
    subst hst
    refine Or.inr ?_
    rw [arrivals, if_pos rfl]
    exact List.mem_map.mpr ⟨q, List.mem_filter.mpr ⟨hq, hchosen⟩, hp⟩

lemma livePaths_rewriteTrashed (hwf : db.Wf) {oldPath newPath : Path} {storageId : Uuid}
    {order : List Uuid} (hok : db.rewritePaths oldPath newPath storageId false order = .ok db')
    (h : p ∈ livePaths s db') : p ∈ livePaths s db := by
  refine livePaths_updateFiles_sub hwf (Db.rewritePaths_inv hok) (fun _ => ⟨rfl, rfl⟩) (fun r hchosen hl => ?_) h
  have htrash := (of_decide_eq_true hchosen).2.1
  rw [if_neg Bool.false_ne_true] at htrash
  exact absurd hl htrash

lemma foldl_choice {α : Type} {f : Option α → α → Option α} (hf : ∀ best a, f best a = some a ∨ f best a = best)
    {l : List α} {best : Option α} {chosen : α} (h : l.foldl f best = some chosen) :
    chosen ∈ l ∨ best = some chosen := by
  induction l generalizing best with
  | nil => exact Or.inr h
  | cons a l ih =>
    cases ih h with
    | inl hmem => exact Or.inl (List.mem_cons_of_mem a hmem)
    | inr hnew =>
      cases hf best a with
      | inl htake =>
        have ha : a = chosen := Option.some.inj (htake.symm.trans hnew)
        exact Or.inl (ha ▸ List.mem_cons_self)
      | inr hkeep => exact Or.inr (hkeep.symm.trans hnew)

lemma Db.latestTrashed_spec {storageId : Uuid} {path : Path} {order : List Uuid} {marker : FileRow}
    (h : db.latestTrashed storageId path order = some marker) :
    ∃ q ∈ db.files, q.id = marker.id ∧ q.storageId = storageId ∧ ¬ q.Live ∧ q.path = path := by
  unfold Db.latestTrashed at h
  dsimp only at h
  have hcase := foldl_choice (by
    intro best r
    cases best with
    | none => exact Or.inl rfl
    | some b =>
      dsimp only
      split
      · exact Or.inl rfl
      · exact Or.inr rfl) h
  cases hcase with
  | inr hno => cases hno
  | inl hmem =>
    obtain ⟨id, hid, hrow⟩ := List.mem_filterMap.mp hmem
    obtain ⟨-, rfl⟩ := Db.fileById_some hrow
    obtain ⟨q, hq, hchosen, hqid⟩ := mem_idsWhere.mp (mem_visitOrder.mp hid)
    exact ⟨q, hq, hqid, of_decide_eq_true hchosen⟩

lemma livePaths_ensureLiveFolder (hwf : db.Wf) {folder : Path} {storageId id : Uuid}
    {order : List Uuid} (hok : db.ensureLiveFolder folder storageId id order = .ok db')
    (h : p ∈ livePaths s db') : p ∈ livePaths s db ∨ storageId = s ∧ p = folder := by
  rcases Db.ensureLiveFolder_inv hok with rfl | ⟨marker, hmarker, hupd⟩ | hins
  · exact Or.inl h
  · obtain ⟨q, hq, hs, hcase⟩ := livePaths_updateFiles hwf hupd (fun _ => ⟨rfl, rfl⟩) h
    cases hcase with
    | inl hkept => exact Or.inl (mem_livePaths.mpr ⟨q, hq, hs, hkept.2⟩)
    | inr hchosen =>
      obtain ⟨hid, -, hp⟩ := hchosen
      obtain ⟨q', hq', hid', hst, -, hpath⟩ := Db.latestTrashed_spec hmarker
      rw [hwf.idUnique q hq q' hq' ((of_decide_eq_true hid).trans hid'.symm)] at hs hp
      exact Or.inr ⟨hst.symm.trans hs, hp.symm.trans hpath⟩
  · cases livePaths_insertFile hins h with
    | inl h => exact Or.inl h
    | inr hmarker => exact Or.inr ⟨hmarker.1, hmarker.2.2.symm⟩

lemma livePaths_ensureFolders {storageId : Uuid} {order : List Uuid} (folders : List (Path × Uuid)) :
    ∀ {db : Db}, db.Wf → (Db.ensureFolders storageId order folders db).Wf ∧
      ∀ p ∈ livePaths s (Db.ensureFolders storageId order folders db),
        p ∈ livePaths s db ∨ storageId = s ∧ p ∈ folders.map (·.1) := by
  induction folders with
  | nil => exact fun hwf => ⟨hwf, fun p hp => Or.inl hp⟩
  | cons folder folders ih =>
    intro db hwf
    unfold Db.ensureFolders
    split
    · case h_1 db₁ hone =>
      have hwf₁ : db₁.Wf :=
        (Truthful.ensureLiveFolder hone Mirror.empty s ⟨hwf, Nat.zero_le _⟩).1.wf
      obtain ⟨hwf', hpaths⟩ := ih hwf₁
      refine ⟨hwf', fun p hp => ?_⟩
      cases hpaths p hp with
      | inl hp =>
        cases livePaths_ensureLiveFolder hwf hone hp with
        | inl hp => exact Or.inl hp
        | inr hnew => exact Or.inr ⟨hnew.1, hnew.2 ▸ List.mem_cons_self⟩
      | inr hlater => exact Or.inr ⟨hlater.1, List.mem_cons_of_mem _ hlater.2⟩
    · exact ⟨hwf, fun p hp => Or.inl hp⟩

lemma livePaths_replaceContent (hwf : db.Wf) {fileId retiredId : Uuid} {expected : Option ContentHash}
    {retiredPath : Path} {incoming : InFile} {now : Instant}
    (hok : db.replaceContent fileId expected retiredPath incoming retiredId now = .ok db')
    (h : p ∈ livePaths s db') : p ∈ livePaths s db := by
  obtain ⟨current, -, -, -, -, db₁, hret, hupd⟩ := Db.replaceContent_inv hok
  have hwf₁ : db₁.Wf := (Truthful.retire hret Mirror.empty s ⟨hwf, Nat.zero_le _⟩).1.wf
  have hmid := livePaths_updateById hwf₁ (Db.inPlace_incoming incoming) hupd h
  rcases Db.retire_inv hret with ⟨-, rfl⟩ | ⟨-, db₂, hins, rfl⟩
  · exact hmid
  · cases livePaths_insertFile hins hmid with
    | inl hmid => exact hmid
    | inr hretired => exact absurd hretired.2.1 (Option.some_ne_none now)

/-- What an operation on rows leaves. -/
lemma livePaths_row (hwf : db.Wf) {op : RowOp} (hok : attempt db op = .ok db')
    (h : p ∈ livePaths s db') :
    p ∈ livePaths s db ∧ ¬ Leaves s p (.row op) ∨ p ∈ arrivals s db (.row op) ∨
      arrivals s db (.row op) = [] ∧ isFolderPath p = true ∧
        ∀ q, Clash q p → ∃ q' ∈ livePaths s db, Clash q q' := by
  cases op with
  | createFile inObj newId =>
    cases livePaths_insertFile (Db.createFileRow_ok hok) h with
    | inl h => exact Or.inl ⟨h, id⟩
    | inr hnew =>
      obtain ⟨hs, -, rfl⟩ := hnew
      have hs' : inObj.storageId = s := hs
      refine Or.inr (Or.inl ?_)
      rw [arrivals, if_pos hs']
      exact List.mem_singleton_self _
  | createFolder inObj newId =>
    cases livePaths_insertFile (Db.createFileRow_ok hok) h with
    | inl h => exact Or.inl ⟨h, id⟩
    | inr hnew =>
      obtain ⟨hs, -, rfl⟩ := hnew
      have hs' : inObj.storageId = s := hs
      refine Or.inr (Or.inl ?_)
      rw [arrivals, if_pos hs']
      exact List.mem_singleton_self _
  | setAsUploaded fileId =>
    exact Or.inl ⟨livePaths_updateById hwf Db.inPlace_uploaded hok h, id⟩
  | setThumb fileId telegramFileId messageId =>
    refine Or.inl ⟨livePaths_updateById hwf ?_ hok h, id⟩
    exact fun _ => ⟨rfl, rfl, rfl, rfl⟩
  | setPreview fileId telegramFileId messageId =>
    refine Or.inl ⟨livePaths_updateById hwf ?_ hok h, id⟩
    exact fun _ => ⟨rfl, rfl, rfl, rfl⟩
  | delete path storageId now markerId order =>
    cases livePaths_delete hwf hok h with
    | inl h => exact Or.inl ⟨h, id⟩
    | inr hmarker => exact Or.inr (Or.inr ⟨rfl, hmarker⟩)
  | restore path storageId order =>
    cases livePaths_restore hwf hok h with
    | inl h => exact Or.inl ⟨h, id⟩
    | inr hnew => exact Or.inr (Or.inl hnew)
  | ensureLiveParentFolders path storageId ids order =>
    cases hok
    cases (livePaths_ensureFolders _ hwf).2 p h with
    | inl h => exact Or.inl ⟨h, id⟩
    | inr hnew =>
      obtain ⟨hs, hmem⟩ := hnew
      have hfolder : p ∈ Db.parentFolders path := by
        obtain ⟨folder, hfolder, rfl⟩ := List.mem_map.mp hmem
        exact (List.of_mem_zip hfolder).1
      cases hlive : db.liveAt s p with
      | some r =>
        obtain ⟨hr, hs', hp, hl⟩ := Db.liveAt_some hlive
        exact Or.inl ⟨mem_livePaths.mpr ⟨r, hr, hs', hl, hp⟩, id⟩
      | none =>
        refine Or.inr (Or.inl ?_)
        rw [arrivals, if_pos hs]
        refine List.mem_filter.mpr ⟨hfolder, ?_⟩
        rw [Db.livePathExists, hlive]
        rfl
  | updatePath oldPath newPath storageId order =>
    cases livePaths_rewritePaths hwf hok h with
    | inl h => exact Or.inl h
    | inr hnew => exact Or.inr (Or.inl hnew)
  | updateTrashedPath oldPath newPath storageId order =>
    exact Or.inl ⟨livePaths_rewriteTrashed hwf hok h, id⟩
  | replaceContent fileId expectedHash retiredPath incoming retiredId now =>
    exact Or.inl ⟨livePaths_replaceContent hwf hok h, id⟩
  | hardDeleteIds ids order =>
    cases hok
    obtain ⟨r, hr, hs, hl, hp⟩ := mem_livePaths.mp h
    exact Or.inl ⟨mem_livePaths.mpr ⟨r, (Mirror.mem_deleteEach.mp hr).1, hs, hl, hp⟩, id⟩

/-! ## The statements and the calls -/

lemma createChunks_rows (chunks : List FileChunk) : ∀ {db db' : Db}, db.createChunks chunks = .ok db' →
    ∃ rows, db' = { db with chunks := rows } := by
  induction chunks with
  | nil =>
    intro db db' hok
    cases hok
    exact ⟨_, rfl⟩
  | cons chunk chunks ih =>
    intro db db' hok
    unfold Db.createChunks at hok
    split at hok
    · cases hok
    · obtain ⟨rows, rfl⟩ := ih hok
      exact ⟨rows, rfl⟩

lemma insertReplicas_rows (replicas : List ChunkReplica) : ∀ {db db' : Db},
    db.insertReplicas replicas = .ok db' → ∃ rows, db' = { db with replicas := rows } := by
  induction replicas with
  | nil =>
    intro db db' hok
    cases hok
    exact ⟨_, rfl⟩
  | cons replica replicas ih =>
    intro db db' hok
    unfold Db.insertReplicas at hok
    split at hok
    · case h_1 db₁ hone =>
      obtain ⟨rows, rfl⟩ := ih hok
      unfold Db.insertReplica at hone
      split at hone
      · cases hone
        exact ⟨rows, rfl⟩
      · split at hone
        · cases hone
        · cases hone
          exact ⟨rows, rfl⟩
    · cases hok

lemma createChunksBatch_rows {maxVariables : Nat} {chunks : List FileChunk}
    (hok : db.createChunksBatch maxVariables chunks = .ok db') : ∃ rows, db' = { db with chunks := rows } := by
  unfold Db.createChunksBatch at hok
  split at hok
  · cases hok
    exact ⟨_, rfl⟩
  · split at hok
    · cases hok
    · exact createChunks_rows chunks hok

lemma insertBatch_rows {maxVariables : Nat} {replicas : List ChunkReplica}
    (hok : db.insertBatch maxVariables replicas = .ok db') : ∃ rows, db' = { db with replicas := rows } := by
  unfold Db.insertBatch at hok
  split at hok
  · cases hok
    exact ⟨_, rfl⟩
  · split at hok
    · cases hok
    · exact insertReplicas_rows replicas hok

lemma wf_of_rows (hwf : db.Wf) (chunks : List FileChunk) (replicas : List ChunkReplica) :
    Db.Wf { db with chunks := chunks, replicas := replicas } :=
  ⟨hwf.idUnique, hwf.aliveUnique, hwf.storageExists, hwf.eventsGrow, hwf.eventsSeen⟩

lemma livePaths_attempt (hwf : db.Wf) {maxVariables : Nat} {st : Statement}
    (hok : st.attempt maxVariables db = .ok db') : db'.Wf ∧ ∀ p ∈ livePaths s db',
      p ∈ livePaths s db ∧ ¬ Leaves s p st ∨ p ∈ arrivals s db st ∨
        arrivals s db st = [] ∧ isFolderPath p = true ∧
          ∀ q, Clash q p → ∃ q' ∈ livePaths s db, Clash q q' := by
  cases st with
  | row op =>
    have hexec : exec db op = db' := by
      have hok' : attempt db op = .ok db' := hok
      rw [exec, hok']
    refine ⟨?_, fun p hp => livePaths_row hwf hok hp⟩
    rw [← hexec]
    exact (sane_exec (μ := Mirror.empty) ⟨hwf, Nat.zero_le _⟩ op).wf
  | insertClonedFile source destPath id =>
    have hins := Db.insertClonedFile_ok hok
    refine ⟨hwf.insertFile hins, fun p hp => ?_⟩
    cases livePaths_insertFile hins hp with
    | inl hp => exact Or.inl ⟨hp, fun hno => hno⟩
    | inr hnew =>
      obtain ⟨hs, -, rfl⟩ := hnew
      have hs' : source.storageId = s := hs
      refine Or.inr (Or.inl ?_)
      rw [arrivals, if_pos hs']
      exact List.mem_singleton_self _
  | createChunksBatch chunks =>
    obtain ⟨rows, rfl⟩ := createChunksBatch_rows hok
    exact ⟨wf_of_rows hwf rows db.replicas, fun p hp => Or.inl ⟨hp, fun hno => hno⟩⟩
  | insertBatch replicas =>
    obtain ⟨rows, rfl⟩ := insertBatch_rows hok
    exact ⟨wf_of_rows hwf db.chunks rows, fun p hp => Or.inl ⟨hp, fun hno => hno⟩⟩

/-- The schema holds, and no live file has live rows under it. -/
structure CleanNames (s : Uuid) (db : Db) : Prop where
  wf : db.Wf
  unambiguous : Unambiguous s db

lemma CleanNames.apply {maxVariables : Nat} {st : Statement} (h : CleanNames s db)
    (hfits : NamesFit s db st) : CleanNames s (Script.apply (Statement.attempt maxVariables) db st) := by
  cases hok : st.attempt maxVariables db with
  | error e =>
    rw [Script.apply, hok]
    exact h
  | ok db' =>
    rw [Script.apply, hok]
    obtain ⟨hwf, hpaths⟩ := livePaths_attempt (s := s) h.wf hok
    refine ⟨hwf, fun p hp q hq hclash => ?_⟩
    have hold : ∀ q ∈ livePaths s db', ∀ p ∈ livePaths s db, ¬ Leaves s p st → ¬ Clash p q := by
      intro q hq p hp hstay hclash
      rcases hpaths q hq with ⟨hq, -⟩ | hq | ⟨-, -, hmarker⟩
      · exact h.unambiguous p hp q hq hclash
      · exact ((hfits q hq).1 p hp hstay).2 hclash
      · obtain ⟨q', hq', hclash'⟩ := hmarker p hclash
        exact h.unambiguous p hp q' hq' hclash'
    rcases hpaths p hp with ⟨hp, hstay⟩ | hp | ⟨-, hfolder, -⟩
    · exact hold q hq p hp hstay hclash
    · rcases hpaths q hq with ⟨hq, hstay⟩ | hq | ⟨hnone, -⟩
      · exact ((hfits p hp).1 q hq hstay).1 hclash
      · exact ((hfits p hp).2 q hq).1 hclash
      · rw [hnone] at hp
        cases hp
    · exact Bool.noConfusion (hfolder.symm.trans hclash.1)

/-- What a storage's calls do: each comes with what it takes from elsewhere. -/
abbrev storageCall (s : Uuid) (c : World × Call) : Service Unit :=
  c.2.script c.1 s

/-- Calls whose statements fit never leave a name that is a file and a folder, not even between two
    statements of one call. -/
theorem names_unambiguous (maxVariables : Nat) (s : Uuid) (db : Db) (hwf : db.Wf)
    (hnames : Unambiguous s db) (calls : List (World × Call))
    (hfits : AllOk (Script.apply (Statement.attempt maxVariables)) (NamesFit s) db
      (Script.traces (Statement.attempt maxVariables) (storageCall s) db calls)) :
    Always (Script.call (Statement.attempt maxVariables) (storageCall s)) (Unambiguous s) db calls ∧
      Always (Script.apply (Statement.attempt maxVariables)) (Unambiguous s) db
        (Script.traces (Statement.attempt maxVariables) (storageCall s) db calls) := by
  have hkeep : ∀ d st, CleanNames s d → NamesFit s d st →
      CleanNames s (Script.apply (Statement.attempt maxVariables) d st) :=
    fun d st h hst => h.apply hst
  have hclean := always_of_allOk hkeep ⟨hwf, hnames⟩ hfits
  have hstatements := hclean.mono fun d h => h.unambiguous
  exact ⟨Script.always_calls hstatements, hstatements⟩

/-! ### Two small storages -/

def smallWorld : World where
  freshId := fun db n => (db.files.map (·.id)).foldl max 0 + 1 + n
  order := fun _ => []
  now := fun db => db.files.length
  stamp := fun _ => []

def emptyStorage : Db :=
  { Db.fresh [⟨1, 1⟩] with workers := [⟨1, some 1⟩] }

def uploadOf (path : Path) (isFile : isFolderPath path = false) : Call :=
  .upload ⟨[], true, true, .ok ()⟩ ⟨1, path, [7], 1, none, none, none, false, isFile, Nat.zero_lt_one⟩

/-- Every call, each on names that are free in both forms. -/
def tidyCalls : List (World × Call) :=
  [uploadOf ['a', '/', 'x'] rfl, .createFolder [] ['b'], .moveTo ['a', '/', 'x'] ['b'] none,
    .copyTo ['b'] ['c'] none, .rename ['b', '/', 'x'] ['b', '/', 'y'], .delete ['b', '/', 'y'],
    .restore ['b', '/', 'y'] none].map (smallWorld, ·)

lemma emptyStorage_wf : emptyStorage.Wf :=
  have h := Db.fresh_wf [⟨1, 1⟩]
  ⟨h.idUnique, h.aliveUnique, h.storageExists, h.eventsGrow, h.eventsSeen⟩

theorem tidyCalls_unambiguous :
    Always (Script.call (Statement.attempt 1000) (storageCall 1)) (Unambiguous 1) emptyStorage tidyCalls ∧
      Always (Script.apply (Statement.attempt 1000)) (Unambiguous 1) emptyStorage
        (Script.traces (Statement.attempt 1000) (storageCall 1) emptyStorage tidyCalls) :=
  names_unambiguous 1000 1 emptyStorage emptyStorage_wf (by decide) tidyCalls (by decide +kernel)

/-- A file, and then a folder of the same name. -/
def docsTwice : List (World × Call) :=
  [(smallWorld, uploadOf "docs".toList rfl), (smallWorld, .createFolder [] "docs".toList)]

/-- Both are live. -/
theorem docsTwice_ambiguous :
    ¬ Always (Script.call (Statement.attempt 1000) (storageCall 1)) (Unambiguous 1) emptyStorage
      docsTwice := by
  intro h
  have hend : ¬ Unambiguous 1
      (run (Script.call (Statement.attempt 1000) (storageCall 1)) emptyStorage docsTwice) := by
    decide +kernel
  exact hend h.last

end Sarca.Server
