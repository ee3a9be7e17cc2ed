import Sarca.Client.LocalFolder

/-!
# The files that a pass finds in a folder

`collect_fs_candidates` of `candidate.rs` on Unix: the walk of `WalkDir`, which enters no link, the check of a
link's target, and the relative path under which a file is uploaded. What the operating system answers is
part of `Disk`.

`Listed` is what a pass relies on, and `listed_iff` says for which names it holds.
-/

namespace Sarca.Client.Candidates
open Sarca.Lib

/-! ## The folder on disk -/

/-- What `std::fs::metadata` tells of a file. -/
structure Metadata where
  len : Nat
  modifiedMs : Option Int
deriving DecidableEq, Repr

/-- A file system of a bounded depth, with what can be read of it. -/
structure Disk extends FileSystem where
  /-- the entries of a folder in the order of `read_dir` -/
  entries : List OsName → List OsName
  mem_entries : ∀ p name, name ∈ entries p ↔ (node (p ++ [name])).isSome
  entries_nodup : ∀ p, (entries p).Nodup
  depth : Nat
  shallow : ∀ p, (node p).isSome → p.length ≤ depth
  opens : List OsName → Bool
  /-- of what an entry is or leads to -/
  metadata : List OsName → Option Metadata
  /-- `create_dir_all` succeeds -/
  creates : OsPath → Bool

structure LocalCandidate where
  relativePath : List Char
  absolutePath : OsPath
  size : Int
  mtimeMs : Int
  ephemeral : Bool
  sourceUri : Option (List Char)
deriving DecidableEq, Repr

/-- The path of what lies below a folder, as `WalkDir` gives it. -/
def below (root : OsPath) (names : List OsName) : OsPath :=
  { root with names := root.names ++ names }

/-- Rust `Path::display`. -/
def display (path : OsPath) : String :=
  String.ofList (['/'].intercalate (path.names.map toStringLossy))

/-- Rust `Path::join`. -/
def join (root path : OsPath) : OsPath :=
  if path.isAbsolute then path else below root path.names

/-- Rust `Path::eq`. -/
def SamePath (path path' : OsPath) : Prop :=
  path.isAbsolute = path'.isAbsolute ∧ normalComponents path.names = normalComponents path'.names

/-- Rust `Path::extension`, of a file name. -/
def extension (name : OsName) : Option OsName :=
  match name.rdropWhile (· ≠ .char '.') with
  | [] | [_] => none
  | _ => some (name.rtakeWhile (· ≠ .char '.'))

/-- The extensions of `is_media_file`. -/
def mediaExtensions : List String :=
  ["jpg", "jpeg", "png", "gif", "webp", "heic", "heif", "tif", "tiff", "bmp", "avif", "mp4", "mov", "m4v",
    "mkv", "webm", "avi", "3gp", "3gpp"]

/-- Rust `is_media_file`. -/
def isMediaFile (path : OsPath) : Bool :=
  ((normalComponents path.names).getLast?.filter (· ≠ parentDir) >>= extension).any fun ext =>
    ofText (toStringLossy ext) = ext && String.ofList ((toStringLossy ext).map Char.toLower) ∈ mediaExtensions

def relative (names : List OsName) : List Char :=
  (['/'].intercalate (names.map toStringLossy)).map fun c => if c = '\\' then '/' else c

/-! ## The walk -/

section Walk

variable (disk : Disk) (root : OsPath) (mediaOnly : Bool) (place : List OsName)

/-- What `WalkDir` yields below a folder: the entries, and an error for a folder that does not open. -/
def walkDir : Nat → List OsName → List (Option (List OsName))
  | 0, _ => []
  | fuel + 1, names =>
    if disk.opens (place ++ names) then
      (disk.entries (place ++ names)).flatMap fun name =>
        some (names ++ [name]) ::
          if disk.node (place ++ (names ++ [name])) = some .dir then walkDir fuel (names ++ [name]) else []
    else [none]

def walked : List (Option (List OsName)) :=
  some [] :: if disk.node place = some .dir then walkDir disk place (disk.depth + 1) [] else []

/-- Whether the entry is a file, or a link to a file in the folder. -/
def isFile (names : List OsName) : Except Unit Bool :=
  match disk.node (place ++ names) with
  | some (.link _) =>
    match disk.canonicalize (below root names) with
    | some target => .ok (place <+: target ∧ disk.node target = some .file)
    | none => .error ()
  | node => .ok (node = some .file)

def candidateAt (names : List OsName) (found : Metadata) : LocalCandidate where
  relativePath := relative names
  absolutePath := below root names
  size := found.len
  mtimeMs := found.modifiedMs.getD 0
  ephemeral := false
  sourceUri := none

/-- An entry of the walk: a candidate, nothing, or one more error. -/
def visit : Option (List OsName) → Except Unit (Option LocalCandidate)
  | none => .error ()
  | some names =>
    match isFile disk root place names with
    | .error () => .error ()
    | .ok false => .ok none
    | .ok true =>
      if mediaOnly && !isMediaFile (below root names) then .ok none
      else if relative names = [] then .ok none
      else
        match disk.metadata (place ++ names) with
        | none => .error ()
        | some found => .ok (some (candidateAt root names found))

def candidate? : Except Unit (Option LocalCandidate) → Option LocalCandidate
  | .ok found => found
  | .error () => none

/-- Rust `collect_fs_candidates`. -/
def collectFsCandidates : Except String (List LocalCandidate) :=
  match disk.canonicalize root with
  | none => if disk.creates root then .ok [] else .error ("recreate local folder: " ++ display root)
  | some place =>
    let visits := (walked disk place).map (visit disk root mediaOnly place)
    let out := visits.filterMap candidate?
    let walkErrors := visits.countP fun visited => visited matches .error ()
    if out = [] ∧ 0 < walkErrors then
      .error ("failed to walk " ++ display root ++ " (" ++ toString walkErrors ++ " error(s), 0 files found)")
    else .ok out

end Walk

/-! ## What a pass relies on -/

section Listed

variable (disk : Disk) (root : OsPath) (mediaOnly : Bool)

/-- A file in the folder, or a link in it to one. -/
def IsFile (place names : List OsName) : Prop :=
  disk.node (place ++ names) = some .file ∨ ∃ target, disk.node (place ++ names) = some (.link target) ∧
    ∃ real, disk.canonicalize (below root names) = some real ∧ place <+: real ∧ disk.node real = some .file

/-- A file below the folder that can be read and that the mode accepts. -/
structure Accepted (place names : List OsName) : Prop where
  isBelow : names ≠ []
  isFile : IsFile disk root place names
  opens : ∀ folder, folder <+: names → folder ≠ names → disk.opens (place ++ folder) = true
  metadata : (disk.metadata (place ++ names)).isSome
  mode : mediaOnly = true → isMediaFile (below root names) = true

/-- The listing names every file once, by a path that leads to it, and only files in the folder. -/
structure Listed : Prop where
  different : ∀ out, collectFsCandidates disk root mediaOnly = .ok out →
    out.Pairwise fun c c' => c.relativePath ≠ c'.relativePath
  confined : ∀ out, collectFsCandidates disk root mediaOnly = .ok out → ∀ c ∈ out,
    ∃ place real, disk.canonicalize root = some place ∧ disk.canonicalize c.absolutePath = some real ∧
      place <+: real ∧ disk.node real = some .file
  joins : ∀ out, collectFsCandidates disk root mediaOnly = .ok out → ∀ c ∈ out,
    SamePath (join root (OsPath.ofText c.relativePath)) c.absolutePath
  complete : ∀ place, disk.canonicalize root = some place → ∀ names, Accepted disk root mediaOnly place names →
    ∃ out, collectFsCandidates disk root mediaOnly = .ok out ∧ ∃ c ∈ out, c.absolutePath = below root names

/-- The names are text, with no character that a relative path writes as a slash. -/
def Plain (names : List OsName) : Prop :=
  ∀ name ∈ names, IsText name ∧ '\\' ∉ toStringLossy name

end Listed

/-! ## The walk -/

section Walk

variable {disk : Disk} {place names : List OsName}

lemma of_mem_walkDir {fuel : Nat} {found : List OsName} (h : some found ∈ walkDir disk place fuel names) :
    ∃ rest, rest ≠ [] ∧ found = names ++ rest ∧ (disk.node (place ++ found)).isSome ∧
      ∀ folder, folder <+: rest → folder ≠ rest → disk.opens (place ++ (names ++ folder)) = true := by
  induction fuel generalizing names with
  | zero => exact absurd h List.not_mem_nil
  | succ fuel ih =>
    rw [walkDir] at h
    split at h
    case isFalse => simp at h
    case isTrue hopens =>
      obtain ⟨name, hname, h⟩ := List.mem_flatMap.mp h
      rw [disk.mem_entries, List.append_assoc] at hname
      rcases List.mem_cons.mp h with h | h
      · obtain rfl := Option.some.inj h
        refine ⟨[name], List.cons_ne_nil _ _, rfl, hname, fun folder hle hne => ?_⟩
        obtain rfl | ⟨_, rfl, hnil⟩ := List.prefix_cons_iff.mp hle
        · rw [List.append_nil]
          exact hopens
        · rw [List.prefix_nil.mp hnil] at hne
          exact absurd rfl hne
      · split at h
        case isFalse => exact absurd h List.not_mem_nil
        case isTrue hdir =>
          obtain ⟨rest, -, rfl, hsome, hrest⟩ := ih h
          refine ⟨name :: rest, List.cons_ne_nil _ _, List.append_assoc .., hsome, fun folder hle hne => ?_⟩
          obtain rfl | ⟨folder, rfl, htail⟩ := List.prefix_cons_iff.mp hle
          · rw [List.append_nil]
            exact hopens
          · have := hrest folder htail fun heq => hne (heq ▸ rfl)
            rwa [List.append_assoc] at this

lemma mem_walkDir {fuel : Nat} (hfuel : disk.depth < fuel + (place ++ names).length) {rest : List OsName}
    (hne : rest ≠ []) (hsome : (disk.node (place ++ (names ++ rest))).isSome)
    (hopens : ∀ folder, folder <+: rest → folder ≠ rest → disk.opens (place ++ (names ++ folder)) = true) :
    some (names ++ rest) ∈ walkDir disk place fuel names := by
  induction fuel generalizing names rest with
  | zero =>
    have hle := disk.shallow _ hsome
    simp only [List.length_append] at hle hfuel
    omega
  | succ fuel ih =>
    have hopen := hopens [] List.nil_prefix hne.symm
    rw [List.append_nil] at hopen
    rw [walkDir, if_pos hopen]
    cases rest with
    | nil => exact absurd rfl hne
    | cons name rest =>
      have happend : names ++ name :: rest = names ++ [name] ++ rest := List.append_cons ..
      rw [happend] at hsome ⊢
      by_cases hrest : rest = []
      · rw [hrest, List.append_nil] at hsome ⊢
        refine List.mem_flatMap.mpr ⟨name, ?_, List.mem_cons_self⟩
        rw [disk.mem_entries, List.append_assoc]
        exact hsome
      · have hdir : disk.node (place ++ (names ++ [name])) = some .dir :=
          FileSystem.dir_of_append hrest ((List.append_assoc ..).symm ▸ hsome)
        refine List.mem_flatMap.mpr ⟨name, ?_, ?_⟩
        · rw [disk.mem_entries, List.append_assoc, hdir]
          rfl
        · rw [if_pos hdir]
          refine List.mem_cons_of_mem _ (ih ?_ hrest hsome fun folder hle hne => ?_)
          · simp only [List.length_append, List.length_singleton] at hfuel ⊢
            omega
          · rw [List.append_assoc]
            exact hopens (name :: folder) (List.cons_prefix_cons.mpr ⟨rfl, hle⟩) fun heq =>
              hne (List.cons.inj heq).2

lemma walkDir_pairwise {fuel : Nat} :
    (walkDir disk place fuel names).Pairwise fun entry entry' => ∀ found ∈ entry, found ∉ entry' := by
  induction fuel generalizing names with
  | zero => exact List.Pairwise.nil
  | succ fuel ih =>
    rw [walkDir]
    split
    case isFalse => exact List.pairwise_singleton _ _
    case isTrue =>
      have hbelow {name : OsName} {found : List OsName} (h : some found ∈ some (names ++ [name]) ::
          if disk.node (place ++ (names ++ [name])) = some .dir then
            walkDir disk place fuel (names ++ [name]) else []) :
          ∃ rest, found = names ++ name :: rest := by
        rcases List.mem_cons.mp h with h | h
        · exact ⟨[], Option.some.inj h⟩
        · split at h
          case isFalse => exact absurd h List.not_mem_nil
          case isTrue =>
            obtain ⟨rest, -, rfl, -⟩ := of_mem_walkDir h
            exact ⟨rest, List.append_assoc ..⟩
      refine List.pairwise_flatMap.mpr ⟨fun name _ => List.pairwise_cons.mpr ⟨?_, ?_⟩, ?_⟩
      · rintro entry hentry found hfound rfl
        obtain rfl := Option.some.inj hfound
        split at hentry
        case isFalse => exact absurd hentry List.not_mem_nil
        case isTrue =>
          obtain ⟨rest, hne, heq, -⟩ := of_mem_walkDir hentry
          exact hne (List.append_cancel_left ((List.append_nil _).trans heq)).symm
      · split
        case isFalse => exact List.Pairwise.nil
        case isTrue => exact ih
      · refine (disk.entries_nodup _).imp ?_
        intro name name' hne entry hentry entry' hentry' found hfound hfound'
        obtain rfl := hfound
        obtain rfl := hfound'
        obtain ⟨rest, rfl⟩ := hbelow hentry
        obtain ⟨rest', heq⟩ := hbelow hentry'
        exact hne (List.cons.inj (List.append_cancel_left heq)).1

lemma mem_walked : some names ∈ walked disk place ↔ names = [] ∨ names ≠ [] ∧
    (disk.node (place ++ names)).isSome ∧
      ∀ folder, folder <+: names → folder ≠ names → disk.opens (place ++ folder) = true := by
  rw [walked, List.mem_cons]
  refine or_congr Option.some_inj ?_
  constructor
  · intro h
    split at h
    case isFalse => exact absurd h List.not_mem_nil
    case isTrue =>
      obtain ⟨rest, hne, rfl, h⟩ := of_mem_walkDir h
      exact ⟨hne, h⟩
  · rintro ⟨hne, hsome, hopens⟩
    rw [if_pos (FileSystem.dir_of_append hne hsome)]
    exact mem_walkDir (by simp only [List.length_append]; omega) hne hsome hopens

lemma walked_pairwise :
    (walked disk place).Pairwise fun entry entry' => ∀ found ∈ entry, found ∉ entry' := by
  rw [walked]
  refine List.pairwise_cons.mpr ⟨?_, ?_⟩
  · rintro entry hentry found hfound rfl
    obtain rfl := Option.some.inj hfound
    split at hentry
    case isFalse => exact absurd hentry List.not_mem_nil
    case isTrue =>
      obtain ⟨rest, hne, heq, -⟩ := of_mem_walkDir hentry
      exact hne heq.symm
  · split
    case isFalse => exact List.Pairwise.nil
    case isTrue => exact walkDir_pairwise

end Walk

/-! ## Where an entry lies -/

section Place

variable {fs : FileSystem} {folder place : List OsName} {names rest : List OsName}

lemma walk_append (h : fs.walk folder names = .arrived place) (hdir : fs.node place = some .dir) :
    fs.walk folder (names ++ rest) = fs.walk place rest := by
  induction names generalizing folder with
  | nil =>
    rw [FileSystem.walk] at h
    cases h
    rfl
  | cons name names ih =>
    rw [FileSystem.walk] at h
    rw [List.cons_append, FileSystem.walk]
    split at h
    case isTrue hskip => rw [if_pos hskip, ih h]
    case isFalse hskip =>
      rw [if_neg hskip]
      split at h
      case isTrue hparent => rw [if_pos hparent, ih h]
      case isFalse hparent =>
        rw [if_neg hparent]
        cases hnode : fs.node (folder ++ [name]) with
        | none =>
          rw [hnode] at h
          cases h
        | some node =>
          rw [hnode] at h
          cases node with
          | file =>
            dsimp only at h
            split at h
            · cases h
              exact absurd (hnode.symm.trans hdir) (by decide)
            · cases h
          | dir => exact ih h
          | link target => cases h

lemma walk_append_link {target : OsPath} {after : List OsName} {at' : List OsName}
    (h : fs.walk folder names = .atLink at' target after) :
    fs.walk folder (names ++ rest) = .atLink at' target (after ++ rest) := by
  induction names generalizing folder with
  | nil =>
    rw [FileSystem.walk] at h
    cases h
  | cons name names ih =>
    rw [FileSystem.walk] at h
    rw [List.cons_append, FileSystem.walk]
    split at h
    case isTrue hskip => rw [if_pos hskip, ih h]
    case isFalse hskip =>
      rw [if_neg hskip]
      split at h
      case isTrue hparent => rw [if_pos hparent, ih h]
      case isFalse hparent =>
        rw [if_neg hparent]
        cases hnode : fs.node (folder ++ [name]) with
        | none =>
          rw [hnode] at h
          cases h
        | some node =>
          rw [hnode] at h
          cases node with
          | file =>
            dsimp only at h
            split at h <;> cases h
          | dir => exact ih h
          | link target' =>
            cases h
            rfl

lemma resolve_append {real : List OsName} (hdir : fs.node place = some .dir)
    (hrest : fs.walk place rest = .arrived real) {links : Nat}
    (h : fs.resolve links folder names = some place) : fs.resolve links folder (names ++ rest) = some real := by
  induction links generalizing folder names with
  | zero =>
    rw [FileSystem.resolve] at h ⊢
    cases hwalk : fs.walk folder names with
    | arrived p =>
      rw [hwalk] at h
      cases h
      rw [walk_append hwalk hdir, hrest]
    | missing =>
      rw [hwalk] at h
      cases h
    | atLink p target after =>
      rw [hwalk] at h
      cases h
  | succ links ih =>
    rw [FileSystem.resolve] at h ⊢
    cases hwalk : fs.walk folder names with
    | arrived p =>
      rw [hwalk] at h
      cases h
      rw [walk_append hwalk hdir, hrest]
    | missing =>
      rw [hwalk] at h
      cases h
    | atLink p target after =>
      rw [hwalk] at h
      rw [walk_append_link hwalk]
      have := ih h
      rwa [List.append_assoc] at this

lemma walk_file (h : fs.node (folder ++ names) = some .file) (hne : names ≠ []) :
    fs.walk folder names = .arrived (folder ++ names) := by
  obtain ⟨init, name, rfl⟩ := (List.eq_nil_or_concat' names).resolve_left hne
  have hsome : (fs.node (folder ++ init ++ [name])).isSome := by
    rw [List.append_assoc, h]
    rfl
  have hdir := fs.nested _ _ hsome
  have hname := fs.proper _ _ hsome
  have hinit : normalComponents init = init := normalComponents_of_proper fun n hn =>
    FileSystem.proper_of_mem (Option.isSome_iff_exists.mpr ⟨_, hdir⟩) (List.mem_append_right _ hn)
  have hwalk : fs.walk folder init = .arrived (folder ++ init) := by
    have := @FileSystem.walk_dir fs folder init (hinit.symm ▸ hdir)
    rwa [hinit] at this
  have hlast : fs.node (folder ++ init ++ [name]) = some .file := (List.append_assoc ..).symm ▸ h
  rw [walk_append hwalk hdir, FileSystem.walk, if_neg, if_neg hname.notParentDir, hlast]
  · exact congrArg _ (List.append_assoc ..)
  · exact not_or.mpr ⟨hname.nonempty, hname.notCurDir⟩

lemma canonicalize_below {root : OsPath} (hroot : fs.canonicalize root = some place)
    (h : fs.node (place ++ names) = some .file) (hne : names ≠ []) :
    fs.canonicalize (below root names) = some (place ++ names) :=
  resolve_append (FileSystem.dir_of_append hne (Option.isSome_iff_exists.mpr ⟨_, h⟩)) (walk_file h hne) hroot

end Place

/-! ## Relative paths -/

section Relative

variable {pieces : List (List Char)} {c : Char} {names names' : List OsName}

lemma of_mem_intercalate (h : c ∈ ['/'].intercalate pieces) : c = '/' ∨ ∃ piece ∈ pieces, c ∈ piece := by
  induction pieces with
  | nil => exact absurd h List.not_mem_nil
  | cons piece pieces ih =>
    cases pieces with
    | nil =>
      rw [List.intercalate_singleton] at h
      exact Or.inr ⟨piece, List.mem_cons_self, h⟩
    | cons next pieces =>
      rw [List.intercalate_cons_cons, List.append_assoc, List.mem_append, List.mem_append] at h
      rcases h with h | h | h
      · exact Or.inr ⟨piece, List.mem_cons_self, h⟩
      · exact Or.inl (List.mem_singleton.mp h)
      · exact (ih h).imp_right fun ⟨p, hp, hc⟩ => ⟨p, List.mem_cons_of_mem _ hp, hc⟩

lemma mem_intercalate {piece : List Char} (h : piece ∈ pieces) (hc : c ∈ piece) :
    c ∈ ['/'].intercalate pieces := by
  induction pieces with
  | nil => exact absurd h List.not_mem_nil
  | cons first pieces ih =>
    cases pieces with
    | nil =>
      rw [List.intercalate_singleton]
      rwa [List.mem_singleton.mp h] at hc
    | cons next pieces =>
      rw [List.intercalate_cons_cons]
      rcases List.mem_cons.mp h with rfl | h
      · exact List.mem_append_left _ (List.mem_append_left _ hc)
      · exact List.mem_append_right _ (ih h)

lemma backslash_not_mem : '\\' ∉ relative names := by
  intro h
  obtain ⟨c, -, hc⟩ := List.mem_map.mp h
  split at hc
  · exact absurd hc (by decide)
  · case isFalse hne => exact hne hc

lemma plain_of_mem {name : OsName} (h : name ∈ normalComponents (OsPath.ofText (relative names)).names) :
    IsText name ∧ '\\' ∉ toStringLossy name := by
  obtain ⟨piece, hpiece, rfl⟩ := List.mem_map.mp (List.mem_filter.mp h).1
  have hback : toStringLossy (ofText piece) = piece := by
    rw [toStringLossy, ofText, List.map_map]
    exact List.map_id piece
  refine ⟨congrArg ofText hback, ?_⟩
  rw [hback]
  intro hc
  have := mem_intercalate hpiece hc
  rw [List.intercalate_splitOn] at this
  exact backslash_not_mem this

lemma relative_plain (h : Plain names) : relative names = ['/'].intercalate (names.map toStringLossy) := by
  rw [relative]
  refine (List.map_congr_left fun c hc => if_neg ?_).trans (List.map_id _)
  rintro rfl
  obtain hslash | ⟨piece, hpiece, hc⟩ := of_mem_intercalate hc
  · exact absurd hslash (by decide)
  · obtain ⟨name, hname, rfl⟩ := List.mem_map.mp hpiece
    exact (h name hname).2 hc

lemma ofText_relative (h : Plain names) (hproper : ∀ name ∈ names, ProperName name) (hne : names ≠ []) :
    ((relative names).splitOn '/').map ofText = names := by
  rw [relative_plain h, List.splitOn_intercalate]
  · exact ofText_toStringLossy fun name hname => (h name hname).1
  · intro piece hpiece
    obtain ⟨name, hname, rfl⟩ := List.mem_map.mp hpiece
    exact slash_not_mem (hproper name hname)
  · exact fun hnil => hne (List.map_eq_nil_iff.mp hnil)

lemma normalComponents_below {root : OsPath} (hproper : ∀ name ∈ names, ProperName name) :
    normalComponents (below root names).names = normalComponents root.names ++ names := by
  have := normalComponents_of_proper hproper
  rw [below, normalComponents, List.filter_append]
  exact congrArg _ this

lemma samePath_iff {root : OsPath} (hproper : ∀ name ∈ names, ProperName name) (hne : names ≠ []) :
    SamePath (join root (OsPath.ofText (relative names))) (below root names) ↔ Plain names := by
  rw [SamePath, normalComponents_below hproper]
  constructor
  · rintro ⟨-, hsame⟩ name hname
    rw [join] at hsame
    split at hsame
    · have := List.mem_append_right (normalComponents root.names) hname
      rw [← hsame] at this
      exact plain_of_mem this
    · rw [below, normalComponents, List.filter_append] at hsame
      rw [← List.append_cancel_left hsame] at hname
      exact plain_of_mem hname
  · intro hplain
    have hnames := ofText_relative hplain hproper hne
    have hhead : ¬(OsPath.ofText (relative names)).isAbsolute = true := by
      intro h
      obtain ⟨after, hafter⟩ := List.head?_eq_some_iff.mp (of_decide_eq_true h)
      -- the first name would be empty
      have hsplit : ('/' :: after).splitOn '/' = [] :: after.splitOn '/' :=
        (List.splitOn_cons_eq_if_modifyHead _ _).trans (if_pos (beq_self_eq_true _))
      rw [hafter, hsplit, List.map_cons] at hnames
      exact (hproper [] (hnames ▸ List.mem_cons_self)).nonempty rfl
    rw [join, if_neg hhead]
    refine ⟨rfl, ?_⟩
    rw [OsPath.ofText, hnames]
    exact normalComponents_below hproper

end Relative

/-! ## The listing -/

section Listing

variable {disk : Disk} {root : OsPath} {mediaOnly : Bool} {place names : List OsName}

lemma isFile_ok : isFile disk root place names = .ok true ↔ IsFile disk root place names := by
  unfold isFile IsFile
  cases hnode : disk.node (place ++ names) with
  | none => simp
  | some node =>
    cases node with
    | file => simp
    | dir => simp
    | link target =>
      cases hreal : disk.canonicalize (below root names) with
      | none => simp
      | some real => simp

lemma visit_ok {c : LocalCandidate} : visit disk root mediaOnly place (some names) = .ok (some c) ↔
    IsFile disk root place names ∧ (mediaOnly = true → isMediaFile (below root names) = true) ∧
      relative names ≠ [] ∧
        ∃ found, disk.metadata (place ++ names) = some found ∧ c = candidateAt root names found := by
  rw [visit, ← isFile_ok]
  cases hfile : isFile disk root place names with
  | error => simp
  | ok file =>
    cases file with
    | false => simp
    | true =>
      have hiff : (mediaOnly && !isMediaFile (below root names)) = true ↔
          ¬(mediaOnly = true → isMediaFile (below root names) = true) := by simp
      by_cases hmode : mediaOnly = true → isMediaFile (below root names) = true
      · by_cases hrel : relative names = []
        · simp [hrel]
        · cases hfound : disk.metadata (place ++ names) with
          | none => simp [mt hiff.mp (not_not.mpr hmode), hrel]
          | some found =>
            dsimp only
            rw [if_neg (mt hiff.mp (not_not.mpr hmode)), if_neg hrel]
            constructor
            · intro h
              cases h
              exact ⟨rfl, hmode, hrel, found, rfl, rfl⟩
            · rintro ⟨-, -, -, found', hsome, rfl⟩
              cases hsome
              rfl
      · simp [hiff.mpr hmode, hmode]

lemma IsFile.isSome (h : IsFile disk root place names) : (disk.node (place ++ names)).isSome := by
  rcases h with h | ⟨target, h, -⟩
  · exact Option.isSome_iff_exists.mpr ⟨_, h⟩
  · exact Option.isSome_iff_exists.mpr ⟨_, h⟩

lemma IsFile.proper (h : IsFile disk root place names) : ∀ name ∈ names, ProperName name :=
  fun _ hname => FileSystem.proper_of_mem h.isSome (List.mem_append_right _ hname)

lemma relative_ne_nil (h : IsFile disk root place names) : relative names ≠ [] ↔ names ≠ [] := by
  rw [relative, ne_eq, List.map_eq_nil_iff]
  constructor
  · rintro hne rfl
    exact hne rfl
  · intro hne hnil
    cases names with
    | nil => exact hne rfl
    | cons name rest =>
      have hname := (h.proper name List.mem_cons_self).nonempty
      cases rest with
      | nil =>
        have hspelled : toStringLossy name = [] := by simpa using hnil
        exact hname (List.map_eq_nil_iff.mp hspelled)
      | cons next rest => simp [List.intercalate] at hnil

lemma Accepted.of_visit {c : LocalCandidate} (hwalked : some names ∈ walked disk place)
    (hvisit : visit disk root mediaOnly place (some names) = .ok (some c)) :
    Accepted disk root mediaOnly place names ∧ ∃ found, c = candidateAt root names found := by
  obtain ⟨hfile, hmode, hrel, found, hfound, rfl⟩ := visit_ok.mp hvisit
  have hne := (relative_ne_nil hfile).mp hrel
  obtain ⟨-, -, hopens⟩ := (mem_walked.mp hwalked).resolve_left hne
  exact ⟨⟨hne, hfile, hopens, Option.isSome_iff_exists.mpr ⟨_, hfound⟩, hmode⟩, found, rfl⟩

lemma Accepted.visited (h : Accepted disk root mediaOnly place names) : some names ∈ walked disk place ∧
    ∃ found, visit disk root mediaOnly place (some names) = .ok (some (candidateAt root names found)) := by
  obtain ⟨found, hfound⟩ := Option.isSome_iff_exists.mp h.metadata
  exact ⟨mem_walked.mpr (Or.inr ⟨h.isBelow, h.isFile.isSome, h.opens⟩), found,
    visit_ok.mpr ⟨h.isFile, h.mode, (relative_ne_nil h.isFile).mpr h.isBelow, found, hfound, rfl⟩⟩

def listing (disk : Disk) (root : OsPath) (mediaOnly : Bool) (place : List OsName) : List LocalCandidate :=
  ((walked disk place).map (visit disk root mediaOnly place)).filterMap candidate?

lemma candidate_some {visited : Except Unit (Option LocalCandidate)} {c : LocalCandidate} :
    candidate? visited = some c ↔ visited = .ok (some c) := by
  cases visited with
  | error => simp [candidate?]
  | ok found => simp [candidate?]

lemma mem_listing {c : LocalCandidate} : c ∈ listing disk root mediaOnly place ↔
    ∃ names, some names ∈ walked disk place ∧ visit disk root mediaOnly place (some names) = .ok (some c) := by
  rw [listing, List.filterMap_map, List.mem_filterMap]
  constructor
  · rintro ⟨entry, hentry, hc⟩
    cases entry with
    | none => cases hc
    | some names => exact ⟨names, hentry, candidate_some.mp hc⟩
  · rintro ⟨names, hwalked, hvisit⟩
    exact ⟨some names, hwalked, candidate_some.mpr hvisit⟩

lemma collectFsCandidates_ok {out : List LocalCandidate}
    (h : collectFsCandidates disk root mediaOnly = .ok out) :
    out = [] ∨ ∃ place, disk.canonicalize root = some place ∧ out = listing disk root mediaOnly place := by
  rw [collectFsCandidates] at h
  split at h
  · split at h
    · exact Or.inl (Except.ok.inj h).symm
    · cases h
  · case h_2 place hplace =>
    dsimp only at h
    split at h
    · cases h
    · exact Or.inr ⟨place, hplace, (Except.ok.inj h).symm⟩

lemma collectFsCandidates_of_listing (hplace : disk.canonicalize root = some place)
    (hne : listing disk root mediaOnly place ≠ []) :
    collectFsCandidates disk root mediaOnly = .ok (listing disk root mediaOnly place) := by
  rw [collectFsCandidates, hplace]
  exact if_neg fun h => hne h.1

/-- The names of the files that a listing takes are plain. -/
def PlainFolder (disk : Disk) (root : OsPath) (mediaOnly : Bool) : Prop :=
  ∀ place, disk.canonicalize root = some place → ∀ names, Accepted disk root mediaOnly place names → Plain names

lemma listing_pairwise (hplain : ∀ names, Accepted disk root mediaOnly place names → Plain names) :
    (listing disk root mediaOnly place).Pairwise fun c c' => c.relativePath ≠ c'.relativePath := by
  rw [listing, List.filterMap_map, List.pairwise_filterMap]
  refine List.Pairwise.imp_of_mem (fun {entry entry'} hentry hentry' hne c hc c' hc' heq => ?_) walked_pairwise
  cases entry with
  | none => cases hc
  | some names =>
    cases entry' with
    | none => cases hc'
    | some names' =>
      obtain ⟨h, _, rfl⟩ := Accepted.of_visit hentry (candidate_some.mp hc)
      obtain ⟨h', _, rfl⟩ := Accepted.of_visit hentry' (candidate_some.mp hc')
      have hnames := ofText_relative (hplain _ h) h.isFile.proper h.isBelow
      have hnames' := ofText_relative (hplain _ h') h'.isFile.proper h'.isBelow
      have heq : relative names = relative names' := heq
      rw [heq, hnames'] at hnames
      exact hne names rfl (congrArg some hnames)

lemma Accepted.confined (hplace : disk.canonicalize root = some place)
    (h : Accepted disk root mediaOnly place names) : ∃ real, disk.canonicalize (below root names) = some real ∧
      place <+: real ∧ disk.node real = some .file := by
  rcases h.isFile with hfile | ⟨target, -, hreal⟩
  · exact ⟨_, canonicalize_below hplace hfile h.isBelow, List.prefix_append _ _, hfile⟩
  · exact hreal

lemma Accepted.listed (hplace : disk.canonicalize root = some place)
    (h : Accepted disk root mediaOnly place names) :
    ∃ out, collectFsCandidates disk root mediaOnly = .ok out ∧ ∃ found, candidateAt root names found ∈ out := by
  obtain ⟨hwalked, found, hvisit⟩ := h.visited
  have hmem := mem_listing.mpr ⟨names, hwalked, hvisit⟩
  exact ⟨_, collectFsCandidates_of_listing hplace (List.ne_nil_of_mem hmem), found, hmem⟩

lemma accepted_of_listed {out : List LocalCandidate} (h : collectFsCandidates disk root mediaOnly = .ok out)
    {c : LocalCandidate} (hc : c ∈ out) : ∃ place names, disk.canonicalize root = some place ∧
      Accepted disk root mediaOnly place names ∧ ∃ found, c = candidateAt root names found := by
  obtain rfl | ⟨place, hplace, rfl⟩ := collectFsCandidates_ok h
  · exact absurd hc List.not_mem_nil
  · obtain ⟨names, hwalked, hvisit⟩ := mem_listing.mp hc
    exact ⟨place, names, hplace, Accepted.of_visit hwalked hvisit⟩

lemma listed_iff : Listed disk root mediaOnly ↔ PlainFolder disk root mediaOnly := by
  constructor
  · intro h place hplace names haccepted
    obtain ⟨out, hout, found, hmem⟩ := haccepted.listed hplace
    exact (samePath_iff haccepted.isFile.proper haccepted.isBelow).mp (h.joins out hout _ hmem)
  · intro hplain
    refine ⟨fun out hout => ?_, fun out hout c hc => ?_, fun out hout c hc => ?_,
      fun place hplace names h => ?_⟩
    · obtain rfl | ⟨place, hplace, rfl⟩ := collectFsCandidates_ok hout
      · exact List.Pairwise.nil
      · exact listing_pairwise (hplain place hplace)
    · obtain ⟨place, names, hplace, h, found, rfl⟩ := accepted_of_listed hout hc
      obtain ⟨real, hreal⟩ := h.confined hplace
      exact ⟨place, real, hplace, hreal⟩
    · obtain ⟨place, names, hplace, h, found, rfl⟩ := accepted_of_listed hout hc
      exact (samePath_iff h.isFile.proper h.isBelow).mpr (hplain place hplace names h)
    · obtain ⟨out, hout, found, hmem⟩ := h.listed hplace
      exact ⟨out, hout, _, hmem, rfl⟩

end Listing

end Sarca.Client.Candidates
