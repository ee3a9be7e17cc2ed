import Mathlib.Data.List.Infix
import Sarca.Lib.Text
import Sarca.Lib.Utf8

/-!
# The folder of a binding

`validate_local_dir` of `paths.rs` over a file system with links, and the walk of `collect_fs_candidates` from
the folder it returns. `FileSystem.canonicalize` resolves a path as `realpath` does: `walk` goes from folder to
folder up to a link, and `resolve` enters a link up to `maxLinks` times.

A name on disk need not be text, but the folder is returned as text. `confined_iff` says when the folder that
comes back is one that a sync may walk.
-/

namespace Sarca.Client
open Sarca.Lib

/-! ## Names and paths -/

/-- A character of a name on disk, or bytes that are no text. -/
inductive OsChar where
  | char (c : Char)
  | invalid (bytes : List UInt8)
deriving DecidableEq, Repr

abbrev OsName := List OsChar

/-- Rust `to_string_lossy`. -/
def toStringLossy (name : OsName) : List Char :=
  name.map fun
    | .char c => c
    | .invalid _ => '\uFFFD'

def ofText (text : List Char) : OsName :=
  text.map .char

def IsText (name : OsName) : Prop :=
  ofText (toStringLossy name) = name

def curDir : OsName :=
  ofText ['.']

def parentDir : OsName :=
  ofText ['.', '.']

/-- A path, with all that stands between its slashes. -/
structure OsPath where
  isAbsolute : Bool
  names : List OsName
deriving DecidableEq, Repr

/-- Rust `PathBuf::from`. -/
def OsPath.ofText (text : List Char) : OsPath where
  isAbsolute := text.head? = some '/'
  names := (text.splitOn '/').map Client.ofText

/-- Rust `Path::components`, without the root. -/
def normalComponents (names : List OsName) : List OsName :=
  names.filter fun name => name ≠ [] ∧ name ≠ curDir

/-! ## The file system -/

inductive FsNode where
  | file
  | dir
  | link (target : OsPath)
deriving DecidableEq, Repr

structure ProperName (name : OsName) : Prop where
  nonempty : name ≠ []
  notCurDir : name ≠ curDir
  notParentDir : name ≠ parentDir
  noSlash : .char '/' ∉ name

/-- A file system, with the links as they lie in it. -/
structure FileSystem where
  node : List OsName → Option FsNode
  cwd : List OsName
  /-- the links that a path may lead through -/
  maxLinks : Nat
  root : node [] = some .dir
  cwdDir : node cwd = some .dir
  nested : ∀ p name, (node (p ++ [name])).isSome → node p = some .dir
  proper : ∀ p name, (node (p ++ [name])).isSome → ProperName name

/-- Where a path leads without entering a link. -/
inductive Walk where
  | arrived (place : List OsName)
  | missing
  | atLink (folder : List OsName) (target : OsPath) (rest : List OsName)

namespace FileSystem

variable (fs : FileSystem)

def walk (folder : List OsName) : List OsName → Walk
  | [] => .arrived folder
  | name :: rest =>
    if name = [] ∨ name = curDir then walk folder rest
    else if name = parentDir then walk folder.dropLast rest
    else
      match fs.node (folder ++ [name]) with
      | none => .missing
      | some .file => if rest = [] then .arrived (folder ++ [name]) else .missing
      | some .dir => walk (folder ++ [name]) rest
      | some (.link target) => .atLink folder target rest

/-- The place of a path from a folder on, with so many links to enter. -/
def resolve : Nat → List OsName → List OsName → Option (List OsName)
  | 0, folder, names =>
    match fs.walk folder names with
    | .arrived place => some place
    | .missing | .atLink .. => none
  | links + 1, folder, names =>
    match fs.walk folder names with
    | .arrived place => some place
    | .missing => none
    | .atLink folder target rest =>
      resolve links (if target.isAbsolute then [] else folder) (target.names ++ rest)

/-- Rust `std::fs::canonicalize`. -/
def canonicalize (path : OsPath) : Option (List OsName) :=
  fs.resolve fs.maxLinks (if path.isAbsolute then [] else fs.cwd) path.names

end FileSystem

/-! ## The validation -/

/-- Rust `MAX_PATH_LEN`. -/
def maxPathLen : Nat := 4096

/-- A component that `has_hidden_component` finds. -/
def isHidden (name : OsName) : Bool :=
  1 < (utf8 (toStringLossy name)).length && (toStringLossy name).head? = some '.'

/-- Rust `has_hidden_component`. -/
def hasHiddenComponent (names : List OsName) : Option (List Char) :=
  (names.find? isHidden).map toStringLossy

/-- Rust `RESERVED`. -/
def reserved : List String :=
  ["AppData", "Library", "Application Data", "node_modules"]

/-- Rust `is_reserved_component`. -/
def isReservedComponent (names : List OsName) : Option String :=
  names.findSome? fun name => reserved.find? fun r => eqIgnoreAsciiCase r.toList (toStringLossy name)

section Validate

variable (fs : FileSystem)

/-- The names of a root in its canonical form, or as it is spelled where it has none. -/
def rootNames (root : OsPath) : Option (List OsName) :=
  match fs.canonicalize root with
  | some place => some place
  | none => if root.isAbsolute then some (normalComponents root.names) else none

/-- Rust `is_under`, of a canonical path. -/
def isUnder (place : List OsName) (root : OsPath) : Bool :=
  (rootNames fs root).any fun names => decide (names <+: place)

/-- A canonical path as text (Rust `to_string_lossy`). -/
def spell (place : List OsName) : List Char :=
  '/' :: ['/'].intercalate (place.map toStringLossy)

/-- The part of a canonical path below the first root that it is under. -/
def belowRoot (place : List OsName) (roots : List OsPath) : List OsName :=
  match roots.find? fun root => isUnder fs place root with
  | some root => place.drop ((rootNames fs root).getD []).length
  | none => place

/-- Rust `validate_local_dir`. -/
def validateLocalDir (raw : List Char) (allowedRoots deniedRoots : List OsPath) : Except String (List Char) :=
  let trimmed := trim raw
  if trimmed = [] then .error "Local folder is required"
  else if maxPathLen < (utf8 trimmed).length then .error "Local folder path is too long"
  else if '\x00' ∈ trimmed then .error "Local folder path contains a NUL byte"
  else if !(OsPath.ofText trimmed).isAbsolute then
    .error ("Local folder must be an absolute path: " ++ String.ofList trimmed)
  else
    match fs.canonicalize (OsPath.ofText trimmed) with
    | none => .error ("Local folder does not exist: " ++ String.ofList trimmed)
    | some real =>
      if fs.node real ≠ some .dir then .error ("Local path is not a folder: " ++ String.ofList trimmed)
      else if allowedRoots = [] then .error "Could not resolve a user folder to sync from"
      else if deniedRoots.any fun root => isUnder fs real root then
        .error "That folder belongs to Sarca itself and cannot be synced"
      else if !allowedRoots.any fun root => isUnder fs real root then
        .error ("Local folder must be inside your own user folder: " ++ String.ofList trimmed)
      else
        match hasHiddenComponent (belowRoot fs real allowedRoots) with
        | some name => .error ("Hidden folders can hold credentials and cannot be synced: " ++ String.ofList name)
        | none =>
          match isReservedComponent (belowRoot fs real allowedRoots) with
          | some name => .error ("System folders cannot be synced: " ++ name)
          | none => .ok (spell real)

/-! ## What a sync walks -/

/-- What `collect_fs_candidates` comes upon from a folder: what lies in it, and the files that its links lead
    to, where these lie in it too. -/
inductive Walked (folder : List OsName) : List OsName → Prop
  | root : Walked folder folder
  | child {p : List OsName} (name : OsName) : Walked folder p → fs.node p = some .dir →
      (fs.node (p ++ [name])).isSome → Walked folder (p ++ [name])
  | linked {p place : List OsName} {target : OsPath} : Walked folder p → fs.node p = some (.link target) →
      fs.canonicalize ⟨true, p⟩ = some place → folder <+: place → fs.node place = some .file →
      Walked folder place

/-- A folder below an allowed root, with neither a hidden nor a reserved component in between. -/
def Permitted (allowedRoots : List OsPath) (place : List OsName) : Prop :=
  ∃ root ∈ allowedRoots, ∃ base, fs.canonicalize root = some base ∧ base <+: place ∧
    ∀ name ∈ place.drop base.length, isHidden name = false ∧
      ∀ r ∈ reserved, ¬eqIgnoreAsciiCase r.toList (toStringLossy name)

/-- The folder that a text names may be walked: it exists, it is permitted, and nothing that the walk comes
    upon is at or under a denied root. -/
def Confined (allowedRoots deniedRoots : List OsPath) (folder : List Char) : Prop :=
  ∃ place, fs.canonicalize (OsPath.ofText folder) = some place ∧ fs.node place = some .dir ∧
    Permitted fs allowedRoots place ∧
    ∀ root ∈ deniedRoots, ∀ p, Walked fs place p → isUnder fs p root = false

end Validate

/-! ## Folders and their names -/

namespace FileSystem

variable {fs : FileSystem} {folder place : List OsName} {names : List OsName}

lemma dir_of_append (hne : names ≠ []) (h : (fs.node (folder ++ names)).isSome) :
    fs.node folder = some .dir := by
  induction names using List.reverseRecOn with
  | nil => exact absurd rfl hne
  | append_singleton names name ih =>
    rw [← List.append_assoc] at h
    have hdir := fs.nested _ _ h
    by_cases hnil : names = []
    · rw [hnil, List.append_nil] at hdir
      exact hdir
    · exact ih hnil (Option.isSome_iff_exists.mpr ⟨_, hdir⟩)

lemma proper_of_mem {name : OsName} (h : (fs.node place).isSome) (hname : name ∈ place) : ProperName name := by
  obtain ⟨before, after, rfl⟩ := List.append_of_mem hname
  cases after with
  | nil => exact fs.proper before name h
  | cons next after =>
    have hsome : (fs.node (before ++ [name] ++ next :: after)).isSome := by
      rw [List.append_assoc]
      exact h
    have hdir := dir_of_append (List.cons_ne_nil next after) hsome
    exact fs.proper before name (Option.isSome_iff_exists.mpr ⟨_, hdir⟩)

lemma walk_dir (h : fs.node (folder ++ normalComponents names) = some .dir) :
    fs.walk folder names = .arrived (folder ++ normalComponents names) := by
  induction names generalizing folder with
  | nil => rw [walk, normalComponents, List.filter_nil, List.append_nil]
  | cons name rest ih =>
    by_cases hskip : name = [] ∨ name = curDir
    · have hrest : normalComponents (name :: rest) = normalComponents rest :=
        List.filter_cons_of_neg (by rw [decide_eq_true_iff, ← not_or]; exact not_not.mpr hskip)
      rw [hrest] at h ⊢
      rw [walk, if_pos hskip]
      exact ih h
    · have hrest : folder ++ normalComponents (name :: rest) = folder ++ [name] ++ normalComponents rest := by
        rw [normalComponents, List.filter_cons_of_pos (by rw [decide_eq_true_iff, ← not_or]; exact hskip),
          List.append_assoc]
        rfl
      have hname : ProperName name := by
        refine proper_of_mem (Option.isSome_iff_exists.mpr ⟨_, h⟩) ?_
        rw [hrest]
        exact List.mem_append_left _ (List.mem_append_right _ (List.mem_singleton.mpr rfl))
      rw [hrest] at h ⊢
      have hdir : fs.node (folder ++ [name]) = some .dir := by
        by_cases hnil : normalComponents rest = []
        · rw [hnil, List.append_nil] at h
          exact h
        · exact dir_of_append hnil (Option.isSome_iff_exists.mpr ⟨_, h⟩)
      rw [walk, if_neg hskip, if_neg hname.notParentDir, hdir]
      exact ih h

lemma resolve_arrived (h : fs.walk folder names = .arrived place) (links : Nat) :
    fs.resolve links folder names = some place := by
  cases links with
  | zero => rw [resolve, h]
  | succ links => rw [resolve, h]

lemma canonicalize_dir {path : OsPath} (habsolute : path.isAbsolute = true)
    (h : fs.node (normalComponents path.names) = some .dir) :
    fs.canonicalize path = some (normalComponents path.names) := by
  unfold canonicalize
  rw [habsolute, if_pos rfl]
  exact resolve_arrived (@walk_dir fs [] path.names h) _

end FileSystem

section Spelling

variable {fs : FileSystem} {place : List OsName} {name : OsName}

lemma ofText_toStringLossy (h : ∀ name ∈ place, IsText name) : (place.map toStringLossy).map ofText = place := by
  rw [List.map_map]
  exact (List.map_congr_left h).trans (List.map_id place)

lemma slash_not_mem (hname : ProperName name) : '/' ∉ toStringLossy name := by
  intro h
  obtain ⟨c, hc, heq⟩ := List.mem_map.mp h
  cases c with
  | char c =>
    obtain rfl : c = '/' := heq
    exact hname.noSlash hc
  | invalid bytes =>
    have hne : '\uFFFD' ≠ '/' := by decide
    exact hne heq

lemma normalComponents_of_proper (h : ∀ name ∈ place, ProperName name) : normalComponents place = place :=
  List.filter_eq_self.mpr fun name hname => decide_eq_true ⟨(h name hname).nonempty, (h name hname).notCurDir⟩

lemma normalComponents_spell (hproper : ∀ name ∈ place, ProperName name) (htext : ∀ name ∈ place, IsText name) :
    normalComponents (OsPath.ofText (spell place)).names = place := by
  have hsplit : (spell place).splitOn '/' = [] :: (['/'].intercalate (place.map toStringLossy)).splitOn '/' :=
    (List.splitOnP_cons_eq_if_modifyHead _ _).trans (if_pos (beq_self_eq_true _))
  unfold OsPath.ofText
  rw [hsplit, List.map_cons]
  cases place with
  | nil => rfl
  | cons name place =>
    rw [List.splitOn_intercalate, ofText_toStringLossy htext]
    · exact normalComponents_of_proper hproper
    · intro l hl
      obtain ⟨name, hname, rfl⟩ := List.mem_map.mp hl
      exact slash_not_mem (hproper name hname)
    · exact List.cons_ne_nil _ _

lemma canonicalize_spell (hdir : fs.node place = some .dir) (htext : ∀ name ∈ place, IsText name) :
    fs.canonicalize (OsPath.ofText (spell place)) = some place := by
  have hproper : ∀ name ∈ place, ProperName name :=
    fun name => FileSystem.proper_of_mem (Option.isSome_iff_exists.mpr ⟨_, hdir⟩)
  have hnames := normalComponents_spell hproper htext
  rw [← hnames] at hdir
  exact (FileSystem.canonicalize_dir rfl hdir).trans (congrArg some hnames)

end Spelling

/-! ## What a sync walks -/

section Walked

variable {fs : FileSystem} {place p : List OsName} {root : OsPath}

lemma Walked.inside (h : Walked fs place p) : place <+: p := by
  induction h with
  | root => exact List.prefix_refl place
  | child name _ _ _ ih => exact ih.trans (List.prefix_append _ _)
  | linked _ _ _ hbelow _ => exact hbelow

lemma walked_of_isSome (h : place <+: p) (hsome : (fs.node p).isSome) : Walked fs place p := by
  obtain ⟨names, rfl⟩ := h
  induction names using List.reverseRecOn with
  | nil =>
    rw [List.append_nil]
    exact .root
  | append_singleton names name ih =>
    rw [← List.append_assoc] at hsome ⊢
    have hdir := fs.nested _ _ hsome
    exact .child name (ih (Option.isSome_iff_exists.mpr ⟨_, hdir⟩)) hdir hsome

lemma Walked.isSome (hplace : (fs.node place).isSome) (h : Walked fs place p) : (fs.node p).isSome := by
  cases h with
  | root => exact hplace
  | child name _ _ hsome => exact hsome
  | linked _ _ _ _ hfile => exact Option.isSome_iff_exists.mpr ⟨_, hfile⟩

lemma isUnder_iff : isUnder fs place root = true ↔ ∃ names, rootNames fs root = some names ∧ names <+: place := by
  unfold isUnder
  rw [Option.any_eq_true]
  simp only [decide_eq_true_eq]

/-- The walk from a folder stays clear of a root just when the folder is not under it, and what there is of
    the root is not below the folder. -/
lemma walked_clear (hplace : (fs.node place).isSome) :
    (∀ p, Walked fs place p → isUnder fs p root = false) ↔ isUnder fs place root = false ∧
      ∀ names, rootNames fs root = some names → place <+: names → fs.node names = none := by
  constructor
  · refine fun h => ⟨h place .root, fun names hnames hbelow => ?_⟩
    by_contra hsome
    have hwalked := walked_of_isSome hbelow (Option.isSome_iff_ne_none.mpr hsome)
    have hunder : isUnder fs names root = true := isUnder_iff.mpr ⟨names, hnames, List.prefix_refl names⟩
    exact Bool.false_ne_true ((h names hwalked).symm.trans hunder)
  · rintro ⟨hclear, hnone⟩ p hp
    rw [← Bool.not_eq_true, isUnder_iff]
    rintro ⟨names, hnames, hprefix⟩
    obtain hle | hle := List.prefix_or_prefix_of_prefix hprefix hp.inside
    · exact Bool.false_ne_true (hclear.symm.trans (isUnder_iff.mpr ⟨names, hnames, hle⟩))
    · obtain ⟨rest, rfl⟩ := hprefix
      have hsome := hp.isSome hplace
      by_cases hnil : rest = []
      · rw [hnil, List.append_nil, hnone names hnames hle] at hsome
        exact Bool.false_ne_true hsome
      · have hdir := FileSystem.dir_of_append hnil hsome
        exact Option.some_ne_none _ (hdir.symm.trans (hnone names hnames hle))

end Walked

/-! ## What the validation accepts -/

section Accepted

variable {fs : FileSystem} {place : List OsName} {roots : List OsPath} {raw folder : List Char}

lemma canonicalize_of_rootNames {root : OsPath} {names : List OsName} (h : rootNames fs root = some names)
    (hle : names <+: place) (hdir : fs.node place = some .dir) : fs.canonicalize root = some names := by
  unfold rootNames at h
  split at h
  · case h_1 base hbase => rw [hbase, h]
  · case h_2 hnone =>
    split at h
    · case isTrue habsolute =>
      obtain rfl := Option.some.inj h
      obtain ⟨rest, rfl⟩ := hle
      refine FileSystem.canonicalize_dir habsolute ?_
      by_cases hnil : rest = []
      · rw [hnil, List.append_nil] at hdir
        exact hdir
      · exact FileSystem.dir_of_append hnil (Option.isSome_iff_exists.mpr ⟨_, hdir⟩)
    · exact absurd h.symm (Option.some_ne_none _)

lemma permitted_of_checks (hdir : fs.node place = some .dir)
    (hunder : (roots.any fun root => isUnder fs place root) = true)
    (hhidden : hasHiddenComponent (belowRoot fs place roots) = none)
    (hreserved : isReservedComponent (belowRoot fs place roots) = none) : Permitted fs roots place := by
  cases hfind : roots.find? fun root => isUnder fs place root with
  | none =>
    obtain ⟨root, hroot, hplace⟩ := List.any_eq_true.mp hunder
    exact absurd hplace (List.find?_eq_none.mp hfind root hroot)
  | some root =>
    obtain ⟨names, hnames, hle⟩ := isUnder_iff.mp (List.find?_some hfind)
    have hbelow : belowRoot fs place roots = place.drop names.length := by
      unfold belowRoot
      rw [hfind]
      simp only [hnames, Option.getD_some]
    rw [hbelow] at hhidden hreserved
    refine ⟨root, List.mem_of_find?_eq_some hfind, names, canonicalize_of_rootNames hnames hle hdir, hle,
      fun name hname => ⟨?_, fun r hr => ?_⟩⟩
    · rw [← Bool.not_eq_true]
      exact List.find?_eq_none.mp (Option.map_eq_none_iff.mp hhidden) name hname
    · have hnone := List.find?_eq_none.mp (List.findSome?_eq_none_iff.mp hreserved name hname) r hr
      simpa using hnone

lemma validateLocalDir_ok {allowedRoots deniedRoots : List OsPath}
    (h : validateLocalDir fs raw allowedRoots deniedRoots = .ok folder) :
    ∃ real, fs.canonicalize (OsPath.ofText (trim raw)) = some real ∧ folder = spell real ∧
      fs.node real = some .dir ∧ Permitted fs allowedRoots real ∧
      ∀ root ∈ deniedRoots, isUnder fs real root = false := by
  unfold validateLocalDir at h
  dsimp only at h
  iterate 4
    split at h
    · cases h
  split at h
  · cases h
  · case h_2 real hreal =>
    split at h
    · cases h
    · case isFalse hdir =>
      split at h
      · cases h
      · split at h
        · cases h
        · case isFalse hdenied =>
          split at h
          · cases h
          · case isFalse hallowed =>
            split at h
            · cases h
            · case h_2 hhidden =>
              split at h
              · cases h
              · case h_2 hreserved =>
                have hdir : fs.node real = some .dir := not_not.mp hdir
                refine ⟨real, hreal, (Except.ok.inj h).symm, hdir, ?_, fun root hroot => ?_⟩
                · exact permitted_of_checks hdir (by simpa using hallowed) hhidden hreserved
                · rw [← Bool.not_eq_true]
                  exact fun hunder => hdenied (List.any_eq_true.mpr ⟨root, hroot, hunder⟩)

end Accepted

section Confined

variable (fs : FileSystem) (raw folder : List Char) (allowedRoots deniedRoots : List OsPath)

def Legible : Prop :=
  ∀ real, fs.canonicalize (OsPath.ofText (trim raw)) = some real → ∀ name ∈ real, IsText name

/-- A folder that passes the checks, as it is named. -/
def Passes : Prop :=
  ∃ place, fs.canonicalize (OsPath.ofText folder) = some place ∧ fs.node place = some .dir ∧
    Permitted fs allowedRoots place ∧ ∀ root ∈ deniedRoots, isUnder fs place root = false

/-- No denied root that is there lies in the folder. -/
def NoneInside : Prop :=
  ∀ place, fs.canonicalize (OsPath.ofText folder) = some place → ∀ root ∈ deniedRoots, ∀ names,
    rootNames fs root = some names → place <+: names → fs.node names = none

/-- The folder that comes back may be walked just when no denied root lies in it and, where its canonical form
    is no text, the folder that its spelling happens to name passes the checks as well. -/
theorem confined_iff (h : validateLocalDir fs raw allowedRoots deniedRoots = .ok folder) :
    Confined fs allowedRoots deniedRoots folder ↔
      (Legible fs raw ∨ Passes fs folder allowedRoots deniedRoots) ∧ NoneInside fs folder deniedRoots := by
  obtain ⟨real, hreal, rfl, hdir, hpermitted, hclear⟩ := validateLocalDir_ok h
  have hiff : Confined fs allowedRoots deniedRoots (spell real) ↔
      Passes fs (spell real) allowedRoots deniedRoots ∧ NoneInside fs (spell real) deniedRoots := by
    constructor
    · rintro ⟨place, hplace, hdir, hpermitted, hwalk⟩
      have hsome : (fs.node place).isSome := Option.isSome_iff_exists.mpr ⟨_, hdir⟩
      refine ⟨⟨place, hplace, hdir, hpermitted, fun root hroot => ((walked_clear hsome).mp (hwalk root hroot)).1⟩,
        fun place' hplace' root hroot => ?_⟩
      obtain rfl := Option.some.inj (hplace.symm.trans hplace')
      exact ((walked_clear hsome).mp (hwalk root hroot)).2
    · rintro ⟨⟨place, hplace, hdir, hpermitted, hclear⟩, hnone⟩
      have hsome : (fs.node place).isSome := Option.isSome_iff_exists.mpr ⟨_, hdir⟩
      exact ⟨place, hplace, hdir, hpermitted, fun root hroot =>
        (walked_clear hsome).mpr ⟨hclear root hroot, hnone place hplace root hroot⟩⟩
  have hlegible : Legible fs raw → Passes fs (spell real) allowedRoots deniedRoots := fun htext =>
    ⟨real, canonicalize_spell hdir (htext real hreal), hdir, hpermitted, hclear⟩
  rw [hiff]
  exact and_congr_left' ⟨.inr, fun hor => hor.elim hlegible id⟩

end Confined

/-- A home folder with the folder of the application in it. -/
def homeFolders : List (List OsName) :=
  [[], [ofText "ann".toList], [ofText "ann".toList, ofText "sarca".toList]]

lemma homeFolders_nested : ∀ p ∈ homeFolders, p.dropLast ∈ homeFolders := by decide

lemma homeFolders_proper : ∀ p ∈ homeFolders, ∀ name ∈ p,
    name ≠ [] ∧ name ≠ curDir ∧ name ≠ parentDir ∧ .char '/' ∉ name := by decide

def homeDisk : FileSystem where
  node p := if p ∈ homeFolders then some .dir else none
  cwd := []
  maxLinks := 40
  root := rfl
  cwdDir := rfl
  nested p name h := by
    have hmem : p ++ [name] ∈ homeFolders := by
      by_contra hnot
      rw [if_neg hnot] at h
      exact Bool.false_ne_true h
    have hp := homeFolders_nested _ hmem
    rw [List.dropLast_concat] at hp
    exact if_pos hp
  proper p name h := by
    have hmem : p ++ [name] ∈ homeFolders := by
      by_contra hnot
      rw [if_neg hnot] at h
      exact Bool.false_ne_true h
    obtain ⟨hnil, hcur, hparent, hslash⟩ :=
      homeFolders_proper _ hmem name (List.mem_append_right p (List.mem_singleton.mpr rfl))
    exact ⟨hnil, hcur, hparent, hslash⟩

def home : OsPath := OsPath.ofText "/ann".toList

/-- A home folder on a machine whose application keeps its files elsewhere. -/
theorem home_accepted :
    validateLocalDir homeDisk "/ann".toList [home] [OsPath.ofText "/opt/sarca".toList] = .ok "/ann".toList ∧
    (Confined homeDisk [home] [OsPath.ofText "/opt/sarca".toList] "/ann".toList ↔
      (Legible homeDisk "/ann".toList ∨
        Passes homeDisk "/ann".toList [home] [OsPath.ofText "/opt/sarca".toList]) ∧
      NoneInside homeDisk "/ann".toList [OsPath.ofText "/opt/sarca".toList]) :=
  ⟨rfl, confined_iff _ _ _ _ _ rfl⟩

/-- The home folder is accepted, and the sync walks the application's own folder in it. -/
theorem home_with_data :
    validateLocalDir homeDisk "/ann".toList [home] [OsPath.ofText "/ann/sarca".toList] = .ok "/ann".toList ∧
    ¬Confined homeDisk [home] [OsPath.ofText "/ann/sarca".toList] "/ann".toList := by
  refine ⟨rfl, ?_⟩
  rintro ⟨place, hplace, -, -, hclear⟩
  obtain rfl : [ofText "ann".toList] = place := Option.some.inj (Eq.trans rfl hplace)
  have hwalked : Walked homeDisk [ofText "ann".toList] [ofText "ann".toList, ofText "sarca".toList] :=
    .child _ .root rfl rfl
  have hunder := hclear _ (List.mem_singleton.mpr rfl) _ hwalked
  exact absurd hunder (by decide)

end Sarca.Client
