import Sarca.Client.Candidates
import Sarca.Client.UploadPath
import Sarca.Server.Names

/-!
# The pictures that Android lists

`mediastore.rs`: the candidate of an item of MediaStore (`candidateFromItem`) and the items of a folder under
`DCIM` (`filterToDcimSubfolder`). `MediaFile` is what MediaStore has on a volume, of which an item tells the
folder and the name.

`candidates_exact` says when a listing from either source is what a pass relies on.
-/

namespace Sarca.Client.Candidates
open Sarca.Lib

/-! ## Items and candidates -/

/-- One item as reported by `listDcimMedia`. -/
structure MediaStoreItem where
  uri : List Char
  displayName : List Char
  relativePath : List Char
  size : Int
  dateModifiedMs : Int
  /-- where MediaStore says it lies, if that can be read -/
  path : Option (List Char)
deriving DecidableEq, Repr

def dcim : List Char := ['D', 'C', 'I', 'M']

/-- Rust `strip_dcim_prefix`. -/
def stripDcimPrefix (relativePath : List Char) : List Char :=
  let r := trimSlashes (trim relativePath)
  match r.dropPrefix? (dcim ++ ['/']) with
  | some rest => trimSlashes rest
  | none => if r = dcim then [] else r

/-- Rust `media_item_relative_path`. -/
def mediaItemRelativePath (relativePath displayName : List Char) : List Char :=
  stripDcimPrefix (trimSlashes relativePath ++ '/' :: trimSlashes displayName)

/-- Rust `candidate_from_item`. -/
def candidateFromItem (item : MediaStoreItem) : LocalCandidate :=
  match item.path.filter fun path => trim path ≠ [] with
  | some path =>
    { relativePath := mediaItemRelativePath item.relativePath item.displayName
      absolutePath := OsPath.ofText path
      size := item.size
      mtimeMs := item.dateModifiedMs
      ephemeral := false
      sourceUri := none }
  | none =>
    { relativePath := mediaItemRelativePath item.relativePath item.displayName
      absolutePath := OsPath.ofText item.displayName
      size := item.size
      mtimeMs := item.dateModifiedMs
      ephemeral := false
      sourceUri := some item.uri }

/-! ## The folder of a binding -/

def segmentsOf (localPath : List Char) : List (List Char) :=
  (((trim localPath).rdropWhile (· = '/')).splitOn '/').filter (· ≠ [])

/-- Rust `dcim_path_segments`. -/
def dcimPathSegments (localPath : List Char) : Option (List Char) :=
  match (segmentsOf localPath).dropWhile (· ≠ dcim) with
  | [] => none
  | _ :: subfolder => some (['/'].intercalate subfolder)

/-- Rust `is_dcim_local_path`. -/
def isDcimLocalPath (localPath : List Char) : Bool :=
  (dcimPathSegments localPath).isSome

/-- Rust `filter_to_dcim_subfolder`. -/
def filterToDcimSubfolder (candidates : List LocalCandidate) (localPath : List Char) : List LocalCandidate :=
  match (dcimPathSegments localPath).filter fun subfolder => subfolder ≠ [] with
  | none => candidates
  | some subfolder => candidates.filter fun c => (subfolder ++ ['/']).isPrefixOf c.relativePath

/-! ## What MediaStore has -/

/-- A picture or a video under the `DCIM` of a volume. -/
structure MediaFile (V : Type*) where
  volume : V
  /-- the folders below `DCIM` -/
  folders : List (List Char)
  name : List Char
  uri : List Char
  size : Int
  dateModifiedMs : Int
  path : Option (List Char)
  folders_proper : ∀ folder ∈ folders, folder ≠ [] ∧ '/' ∉ folder
  name_proper : '/' ∉ name
  /-- a name that ends in an extension is not blank -/
  name_spelled : ∃ c ∈ name, isWhitespace c = false

section Files

variable {V : Type*}

def MediaFile.item (f : MediaFile V) : MediaStoreItem where
  uri := f.uri
  displayName := f.name
  relativePath := ['/'].intercalate (dcim :: f.folders) ++ ['/']
  size := f.size
  dateModifiedMs := f.dateModifiedMs
  path := f.path

def MediaFile.candidate (f : MediaFile V) : LocalCandidate :=
  candidateFromItem f.item

def MediaFile.stem (f : MediaFile V) : List Char :=
  f.name.rdropWhile isWhitespace

/-- The relative paths of the items are different. -/
def Distinct (files : List (MediaFile V)) : Prop :=
  (files.map MediaFile.candidate).Pairwise fun c c' => c.relativePath ≠ c'.relativePath

/-- No two of them are in folders of one name under names that differ in blanks at the end at most. -/
def Apart (files : List (MediaFile V)) : Prop :=
  files.Pairwise fun f f' => ¬ (f.folders = f'.folders ∧ f.stem = f'.stem)

variable (mounted : List (List Char) → V)

/-- It is under the folder of a binding, where `mounted` is the volume of what stands before `DCIM`. -/
def IsUnder (localPath : List Char) (f : MediaFile V) : Prop :=
  f.volume = mounted ((segmentsOf localPath).takeWhile (· ≠ dcim)) ∧
    ((segmentsOf localPath).dropWhile (· ≠ dcim)).tail <+: f.folders

instance [DecidableEq V] (localPath : List Char) (f : MediaFile V) : Decidable (IsUnder mounted localPath f) :=
  inferInstanceAs (Decidable (_ ∧ _))

/-- The filter keeps exactly the items under the folder. -/
def KeepsExactly [DecidableEq V] (files : List (MediaFile V)) (localPath : List Char) : Prop :=
  filterToDcimSubfolder (files.map MediaFile.candidate) localPath =
    (files.filter fun f => IsUnder mounted localPath f).map MediaFile.candidate

/-- What lies in a folder of that name is on its volume. -/
def OneVolume (files : List (MediaFile V)) (localPath : List Char) : Prop :=
  ∀ f ∈ files, ((segmentsOf localPath).dropWhile (· ≠ dcim)).tail <+: f.folders →
    f.volume = mounted ((segmentsOf localPath).takeWhile (· ≠ dcim))

end Files

/-! ## The path of an item -/

section Path

variable {V : Type*} {f : MediaFile V} {pieces pieces' : List (List Char)}

lemma MediaFile.stem_ne_nil : f.stem ≠ [] := by
  obtain ⟨c, hc, hblank⟩ := f.name_spelled
  intro h
  have := List.rdropWhile_eq_nil_iff.mp h c hc
  exact Bool.false_ne_true (hblank.symm.trans this)

lemma MediaFile.stem_noSlash : '/' ∉ f.stem := fun h =>
  f.name_proper ((List.rdropWhile_prefix isWhitespace f.name).mem h)

lemma MediaFile.properPieces (f : MediaFile V) : ∀ piece ∈ f.folders ++ [f.stem], piece ≠ [] ∧ '/' ∉ piece := by
  intro piece hpiece
  rcases List.mem_append.mp hpiece with h | h
  · exact f.folders_proper piece h
  · rw [List.mem_singleton.mp h]
    exact ⟨f.stem_ne_nil, f.stem_noSlash⟩

section Pieces

variable {p : Char → Bool} {pieces : List (List Char)} (hpieces : ∀ piece ∈ pieces, piece ≠ [] ∧ '/' ∉ piece)
include hpieces

lemma intercalate_ne_nil (hne : pieces ≠ []) : ['/'].intercalate pieces ≠ [] := by
  obtain ⟨piece, hpiece⟩ := List.exists_mem_of_ne_nil _ hne
  obtain ⟨c, hc⟩ := List.exists_mem_of_ne_nil _ (hpieces piece hpiece).1
  exact List.ne_nil_of_mem (mem_intercalate hpiece hc)

lemma head_intercalate : ∀ c ∈ (['/'].intercalate pieces).head?, c ≠ '/' := by
  cases pieces with
  | nil => exact nofun
  | cons piece pieces =>
    obtain ⟨hne, hslash⟩ := hpieces piece List.mem_cons_self
    obtain ⟨d, rest, rfl⟩ := List.exists_cons_of_ne_nil hne
    have hhead : (['/'].intercalate ((d :: rest) :: pieces)).head? = some d := by
      cases pieces with
      | nil => rw [List.intercalate_singleton, List.head?_cons]
      | cons next pieces => rw [List.intercalate_cons_cons, List.cons_append, List.cons_append, List.head?_cons]
    rintro c hc rfl
    rw [hhead] at hc
    cases hc
    exact hslash List.mem_cons_self

lemma getLast_intercalate : ∀ c ∈ (['/'].intercalate pieces).getLast?, c ≠ '/' := by
  induction pieces with
  | nil => exact nofun
  | cons piece pieces ih =>
    cases pieces with
    | nil =>
      rw [List.intercalate_singleton]
      rintro c hc rfl
      exact (hpieces piece List.mem_cons_self).2 (List.mem_of_getLast? hc)
    | cons next pieces =>
      have hrest : ∀ piece ∈ next :: pieces, piece ≠ [] ∧ '/' ∉ piece := fun q hq =>
        hpieces q (List.mem_cons_of_mem _ hq)
      rw [List.intercalate_cons_cons, List.getLast?_append_of_ne_nil _
        (intercalate_ne_nil hrest (List.cons_ne_nil _ _))]
      exact ih hrest

lemma trimSlashes_pieces : trimSlashes (['/'].intercalate pieces) = ['/'].intercalate pieces :=
  trimBy_eq_self (fun c hc => beq_eq_false_iff_ne.mpr (head_intercalate hpieces c hc))
    fun c hc => beq_eq_false_iff_ne.mpr (getLast_intercalate hpieces c hc)

end Pieces

lemma rdropWhile_append {p : Char → Bool} {before text : List Char} (h : text.rdropWhile p ≠ []) :
    (before ++ text).rdropWhile p = before ++ text.rdropWhile p := by
  rw [List.rdropWhile, List.reverse_append, List.dropWhile_append, if_neg, List.reverse_append,
    List.reverse_reverse]
  · rfl
  · rw [List.isEmpty_iff]
    exact fun hnil => h (congrArg List.reverse hnil)

lemma candidateFromItem_relativePath (item : MediaStoreItem) : (candidateFromItem item).relativePath =
    mediaItemRelativePath item.relativePath item.displayName := by
  unfold candidateFromItem
  split <;> dsimp only

lemma intercalate_dcim (pieces : List (List Char)) :
    ∃ rest, ['/'].intercalate (dcim :: pieces) = 'D' :: rest := by
  cases pieces with
  | nil => exact ⟨_, List.intercalate_singleton ..⟩
  | cons piece pieces => exact ⟨_, List.intercalate_cons_cons ..⟩

lemma candidate_relativePath :
    f.candidate.relativePath = ['/'].intercalate (f.folders ++ [f.stem]) := by
  have hdcim : ∀ piece ∈ dcim :: f.folders, piece ≠ [] ∧ '/' ∉ piece := by
    intro piece hpiece
    rcases List.mem_cons.mp hpiece with rfl | h
    · decide
    · exact f.folders_proper piece h
  have hall : ∀ piece ∈ dcim :: (f.folders ++ [f.stem]), piece ≠ [] ∧ '/' ∉ piece := by
    intro piece hpiece
    rcases List.mem_cons.mp hpiece with rfl | h
    · decide
    · exact f.properPieces piece h
  have hjoined : trimSlashes f.item.relativePath ++ '/' :: trimSlashes f.item.displayName =
      ['/'].intercalate (dcim :: f.folders) ++ ['/'] ++ f.name := by
    rw [MediaFile.item, trimSlashes_slash, trimSlashes_pieces hdcim, trimSlashes_of_noSlash f.name_proper,
      List.append_assoc]
    rfl
  have htrim : trim (['/'].intercalate (dcim :: f.folders) ++ ['/'] ++ f.name) =
      ['/'].intercalate (dcim :: (f.folders ++ [f.stem])) := by
    have hdrop : (['/'].intercalate (dcim :: f.folders) ++ ['/'] ++ f.name).dropWhile isWhitespace =
        ['/'].intercalate (dcim :: f.folders) ++ ['/'] ++ f.name := by
      obtain ⟨rest, hrest⟩ := intercalate_dcim f.folders
      rw [hrest]
      exact List.dropWhile_cons_of_neg (by decide)
    rw [trim, trimBy, hdrop, rdropWhile_append f.stem_ne_nil]
    have := @Server.intercalate_append ['/'] _ _ (List.cons_ne_nil dcim f.folders) (List.cons_ne_nil f.stem [])
    rw [List.cons_append, List.intercalate_singleton] at this
    exact this.symm
  have hbegins : ['/'].intercalate (dcim :: (f.folders ++ [f.stem])) =
      dcim ++ ['/'] ++ ['/'].intercalate (f.folders ++ [f.stem]) := by
    have := @Server.intercalate_append ['/'] [dcim] (f.folders ++ [f.stem]) (List.cons_ne_nil _ _)
      (List.append_ne_nil_of_right_ne_nil _ (List.cons_ne_nil _ _))
    rwa [List.intercalate_singleton] at this
  have hstrip : (['/'].intercalate (dcim :: (f.folders ++ [f.stem]))).dropPrefix? (dcim ++ ['/']) =
      some (['/'].intercalate (f.folders ++ [f.stem])) := by
    rw [hbegins]
    exact List.dropPrefix?_append_of_beq _ (beq_self_eq_true _)
  rw [MediaFile.candidate, candidateFromItem_relativePath, mediaItemRelativePath, hjoined, stripDcimPrefix,
    htrim, trimSlashes_pieces hall]
  rw [hstrip]
  exact trimSlashes_pieces f.properPieces

lemma splitOn_pieces (hne : pieces ≠ []) (h : ∀ piece ∈ pieces, piece ≠ [] ∧ '/' ∉ piece) :
    (['/'].intercalate pieces).splitOn '/' = pieces :=
  List.splitOn_intercalate '/' (fun piece hpiece => (h piece hpiece).2) hne

lemma relativePath_eq_iff {f f' : MediaFile V} : f.candidate.relativePath = f'.candidate.relativePath ↔
    f.folders = f'.folders ∧ f.stem = f'.stem := by
  rw [candidate_relativePath, candidate_relativePath]
  constructor
  · intro h
    have := congrArg (List.splitOn '/') h
    rw [splitOn_pieces (by simp) f.properPieces, splitOn_pieces (by simp) f'.properPieces] at this
    obtain ⟨hfolders, hstem⟩ := List.append_inj' this rfl
    exact ⟨hfolders, List.singleton_inj.mp hstem⟩
  · rintro ⟨hfolders, hstem⟩
    rw [hfolders, hstem]

lemma distinct_iff (files : List (MediaFile V)) : Distinct files ↔ Apart files := by
  rw [Distinct, Apart, List.pairwise_map]
  exact List.Pairwise.iff fun _ _ => not_congr relativePath_eq_iff

lemma prefix_candidate_iff {subfolder : List (List Char)} (hne : subfolder ≠ [])
    (h : ∀ piece ∈ subfolder, piece ≠ [] ∧ '/' ∉ piece) :
    ['/'].intercalate subfolder ++ ['/'] <+: f.candidate.relativePath ↔ subfolder <+: f.folders := by
  rw [candidate_relativePath]
  constructor
  · rintro ⟨rest, hrest⟩
    have hsplit := congrArg (List.splitOn '/') hrest
    rw [List.append_assoc, List.singleton_append, List.splitOn_append_cons_self, splitOn_pieces hne h,
      splitOn_pieces (by simp) f.properPieces] at hsplit
    obtain ⟨init, last, hlast⟩ :=
      (List.eq_nil_or_concat' (rest.splitOn '/')).resolve_left (List.splitOn_ne_nil _ _)
    rw [hlast, ← List.append_assoc] at hsplit
    exact ⟨init, (List.append_inj' hsplit rfl).1⟩
  · rintro ⟨rest, hrest⟩
    rw [← hrest, List.append_assoc, Server.intercalate_append hne (by simp)]
    exact List.prefix_append _ _

end Path

/-! ## The filter -/

section Filter

variable {V : Type*} {files : List (MediaFile V)} {localPath : List Char}

lemma mem_segmentsOf {segment : List Char} (h : segment ∈ segmentsOf localPath) :
    segment ≠ [] ∧ '/' ∉ segment := by
  obtain ⟨hmem, hne⟩ := List.mem_filter.mp h
  refine ⟨of_decide_eq_true hne, fun hslash => ?_⟩
  rw [List.splitOn_eq_splitOnP] at hmem
  have := Server.splitOnP_pieces segment hmem '/' hslash
  exact absurd this (by decide)

lemma filterToDcimSubfolder_files (h : isDcimLocalPath localPath = true) :
    filterToDcimSubfolder (files.map MediaFile.candidate) localPath =
      (files.filter fun f => ((segmentsOf localPath).dropWhile (· ≠ dcim)).tail <+: f.folders).map
        MediaFile.candidate := by
  rw [isDcimLocalPath, dcimPathSegments] at h
  rw [filterToDcimSubfolder, dcimPathSegments]
  have hmem : ∀ segment ∈ (segmentsOf localPath).dropWhile (· ≠ dcim), segment ≠ [] ∧ '/' ∉ segment :=
    fun segment hs => mem_segmentsOf ((List.dropWhile_sublist _).mem hs)
  cases hdrop : (segmentsOf localPath).dropWhile (· ≠ dcim) with
  | nil =>
    rw [hdrop] at h
    exact absurd h Bool.false_ne_true
  | cons d subfolder =>
    rw [hdrop] at hmem
    have hpieces : ∀ piece ∈ subfolder, piece ≠ [] ∧ '/' ∉ piece := fun piece hp =>
      hmem piece (List.mem_cons_of_mem _ hp)
    by_cases hne : subfolder = []
    · subst hne
      have hall : (files.filter fun f => ([] : List (List Char)) <+: f.folders) = files :=
        List.filter_eq_self.mpr fun f _ => decide_eq_true List.nil_prefix
      exact congrArg _ hall.symm
    · have hspelled := intercalate_ne_nil hpieces hne
      have hsome : (some (['/'].intercalate subfolder)).filter (fun s => decide (s ≠ [])) =
          some (['/'].intercalate subfolder) := if_pos (decide_eq_true hspelled)
      dsimp only
      rw [hsome]
      dsimp only
      rw [List.filter_map]
      refine congrArg _ (List.filter_congr fun f _ => ?_)
      rw [Function.comp_apply, List.tail_cons, Bool.eq_iff_iff, List.isPrefixOf_iff_prefix, decide_eq_true_iff]
      exact prefix_candidate_iff hne hpieces

lemma keepsExactly_iff [DecidableEq V] {mounted : List (List Char) → V} (h : isDcimLocalPath localPath = true) :
    KeepsExactly mounted files localPath ↔ OneVolume mounted files localPath := by
  set volume := mounted ((segmentsOf localPath).takeWhile (· ≠ dcim)) with hvolume
  set subfolder := ((segmentsOf localPath).dropWhile (· ≠ dcim)).tail with hsubfolder
  have hunder : (files.filter fun f => IsUnder mounted localPath f) =
      (files.filter fun f => subfolder <+: f.folders).filter fun f => f.volume = volume := by
    rw [List.filter_filter]
    exact List.filter_congr fun f _ => Bool.decide_and ..
  rw [KeepsExactly, filterToDcimSubfolder_files h, hunder]
  constructor
  · intro heq f hf hbegins
    have hlength := congrArg List.length heq
    rw [List.length_map, List.length_map] at hlength
    have hall := List.length_filter_eq_length_iff.mp hlength.symm
    exact of_decide_eq_true (hall f (List.mem_filter.mpr ⟨hf, decide_eq_true hbegins⟩))
  · intro hone
    refine congrArg _ (List.filter_eq_self.mpr fun f hf => ?_).symm
    obtain ⟨hfile, hbegins⟩ := List.mem_filter.mp hf
    exact decide_eq_true (hone f hfile (of_decide_eq_true hbegins))

end Filter

/-- A listing of a folder is what a pass relies on just when the names of its files are plain, the paths of
    items are different just when they lie apart, and the filter is exact just when one volume has the
    folder. -/
theorem candidates_exact {V : Type*} [DecidableEq V] (mounted : List (List Char) → V) :
    (∀ (disk : Disk) (root : OsPath) (mediaOnly : Bool),
        Listed disk root mediaOnly ↔ PlainFolder disk root mediaOnly) ∧
      (∀ files : List (MediaFile V), Distinct files ↔ Apart files) ∧
      ∀ (files : List (MediaFile V)) (localPath : List Char), isDcimLocalPath localPath = true →
        (KeepsExactly mounted files localPath ↔ OneVolume mounted files localPath) :=
  ⟨fun _ _ _ => listed_iff, distinct_iff, fun _ _ h => keepsExactly_iff h⟩

/-! ## Two files under one path -/

def picsDirs : List (List OsName) :=
  [[], [ofText "pics".toList], [ofText "pics".toList, ofText "a".toList]]

/-- A file in a folder, and one whose name has a backslash in the slash's place. -/
def picsFiles : List (List OsName) :=
  [[ofText "pics".toList, ofText "a".toList, ofText "b.jpg".toList],
    [ofText "pics".toList, ofText "a\\b.jpg".toList]]

lemma pics_nested : ∀ p ∈ picsDirs ++ picsFiles, p.dropLast ∈ picsDirs := by decide

lemma pics_proper : ∀ p ∈ picsDirs ++ picsFiles, ∀ name ∈ p,
    name ≠ [] ∧ name ≠ curDir ∧ name ≠ parentDir ∧ .char '/' ∉ name := by decide

lemma pics_shallow : ∀ p ∈ picsDirs ++ picsFiles, p.length ≤ 3 := by decide

def picsNode (p : List OsName) : Option FsNode :=
  if picsDirs.contains p then some .dir else if picsFiles.contains p then some .file else none

lemma picsNode_isSome {p : List OsName} : (picsNode p).isSome ↔ p ∈ picsDirs ++ picsFiles := by
  rw [picsNode, List.mem_append]
  split
  case isTrue h => exact iff_of_true rfl (Or.inl (List.contains_iff_mem.mp h))
  case isFalse h =>
    rw [List.contains_iff_mem] at h
    split
    case isTrue hfile => exact iff_of_true rfl (Or.inr (List.contains_iff_mem.mp hfile))
    case isFalse hfile =>
      rw [List.contains_iff_mem] at hfile
      exact iff_of_false Bool.false_ne_true (not_or.mpr ⟨h, hfile⟩)

def picsEntries (p : List OsName) : List OsName :=
  (picsDirs ++ picsFiles).filterMap fun q => if q.dropLast = p then q.getLast? else none

lemma mem_picsEntries (p : List OsName) (name : OsName) :
    name ∈ picsEntries p ↔ (picsNode (p ++ [name])).isSome := by
  rw [picsNode_isSome, picsEntries, List.mem_filterMap]
  constructor
  · rintro ⟨q, hq, hname⟩
    split at hname
    case isFalse => cases hname
    case isTrue h =>
      rw [← h, List.dropLast_append_getLast? name hname]
      exact hq
  · intro h
    exact ⟨_, h, by rw [List.dropLast_concat, if_pos rfl, List.getLast?_concat]⟩

lemma picsEntries_nodup (p : List OsName) : (picsEntries p).Nodup := by
  refine List.Nodup.filterMap (fun q q' name hq hq' => ?_) (by decide)
  have hsplit {q : List OsName} (h : name ∈ if q.dropLast = p then q.getLast? else none) : q = p ++ [name] := by
    split at h
    case isFalse => cases h
    case isTrue hp => rw [← hp, List.dropLast_append_getLast? name h]
  rw [hsplit hq, hsplit hq']

def picsDisk : Disk where
  node := picsNode
  cwd := []
  maxLinks := 40
  root := rfl
  cwdDir := rfl
  nested p name h := by
    have hp := pics_nested _ (picsNode_isSome.mp h)
    rw [List.dropLast_concat] at hp
    exact if_pos (List.contains_iff_mem.mpr hp)
  proper p name h := by
    obtain ⟨hnil, hcur, hparent, hslash⟩ := pics_proper _ (picsNode_isSome.mp h) name
      (List.mem_append_right p (List.mem_singleton.mpr rfl))
    exact ⟨hnil, hcur, hparent, hslash⟩
  entries := picsEntries
  mem_entries := mem_picsEntries
  entries_nodup := picsEntries_nodup
  depth := 3
  shallow p h := pics_shallow p (picsNode_isSome.mp h)
  opens _ := true
  metadata _ := some ⟨1, some 0⟩
  creates _ := false

def cameraPicture (volume : Bool) : MediaFile Bool where
  volume := volume
  folders := ["Camera".toList]
  name := "IMG_1.jpg".toList
  uri := if volume then "content://media/external/images/media/7".toList
    else "content://media/external/images/media/8".toList
  size := 10
  dateModifiedMs := 1000
  path := none
  folders_proper := by decide
  name_proper := by decide
  name_spelled := ⟨'I', by decide, by decide⟩

/-- The backslash becomes a slash and two files have one path; so have the pictures of one name on the phone
    and on its card, and a binding of the phone's camera keeps that of the card. -/
lemma candidates_mistaken :
    ¬ Listed picsDisk (OsPath.ofText "/pics".toList) true ∧
      ¬ Distinct [cameraPicture true, cameraPicture false] ∧
      ¬ KeepsExactly (fun before => decide (before = ["storage".toList, "emulated".toList, "0".toList]))
        [cameraPicture true, cameraPicture false] "/storage/emulated/0/DCIM/Camera".toList := by
  refine ⟨fun h => ?_, fun h => ?_, fun h => ?_⟩
  · have hplain := listed_iff.mp h [ofText "pics".toList] rfl [ofText "a\\b.jpg".toList]
      ⟨List.cons_ne_nil _ _, Or.inl rfl, fun _ _ _ => rfl, rfl, fun _ => by decide⟩
    exact (hplain _ List.mem_cons_self).2 (by decide)
  · exact List.rel_of_pairwise_cons h List.mem_cons_self (relativePath_eq_iff.mpr ⟨rfl, rfl⟩)
  · have hone := (keepsExactly_iff (by decide)).mp h _ (List.mem_cons_of_mem _ List.mem_cons_self) (by decide)
    exact absurd hone (by decide)

end Sarca.Client.Candidates
