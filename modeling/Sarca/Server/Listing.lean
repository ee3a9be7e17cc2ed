import Mathlib.Algebra.BigOperators.Group.List.Basic
import Mathlib.Algebra.Order.Ring.Int
import Sarca.Server.SqlPrefix

/-!
# Listing a folder

`list_dir` reads the uploaded live rows under a folder, and `aggregate_dir_listing` collects them in a map by
the next segment of their paths: the row of that very path makes the entry a file, the others add up to the
size of a folder. The database chooses the order of the rows and the map that of the entries
(`Db.ListDir`).

A file and a folder of one name share an entry of the map, and then there is no entry for the folder.
`listDir_exact_iff` says when a listing is complete (`Complete`).
-/

namespace Sarca.Server

/-! ## The repository -/

/-- An entry of a listing (Rust `FSElement`). -/
structure FSElement where
  path : Path
  name : Path
  isFile : Bool
  size : Int
  hasThumb : Bool
deriving DecidableEq, Repr

/-- What `aggregate_dir_listing` collects for a name. -/
structure Acc where
  isFile : Bool
  fileSize : Int
  folderSizeSum : Int
  hasThumb : Bool
deriving DecidableEq, Repr

/-- `Acc::default()` -/
def Acc.empty : Acc :=
  ⟨false, 0, 0, false⟩

/-- The `i64` that a sum wraps to. -/
def wrapI64 (n : Int) : Int :=
  n.bmod 18446744073709551616

/-- The next segment of a path behind a prefix (Rust `next_segment`). -/
def nextSegment (path dir : Path) : Option Path :=
  if dir <+: path then
    let segment := (path.drop dir.length).takeWhile (· ≠ '/')
    if segment = [] then none else some segment
  else none

def Acc.add (dir name : Path) (acc : Acc) (r : FileRow) : Acc :=
  if dir ++ name = r.path then
    { acc with isFile := true, fileSize := r.size, hasThumb := r.thumbTelegramFileId.isSome }
  else
    { acc with folderSizeSum := wrapI64 (acc.folderSizeSum + r.size) }

/-- `entries.entry(name).or_default()`, changed. -/
def upsert (name : Path) (f : Acc → Acc) : List (Path × Acc) → List (Path × Acc)
  | [] => [(name, f .empty)]
  | (key, acc) :: entries =>
    if key = name then (key, f acc) :: entries else (key, acc) :: upsert name f entries

def addRow (dir : Path) (entries : List (Path × Acc)) (r : FileRow) : List (Path × Acc) :=
  match nextSegment r.path dir with
  | none => entries
  | some name => upsert name (fun acc => acc.add dir name r) entries

def Acc.element (dir name : Path) (acc : Acc) : FSElement where
  path := dir ++ name
  name := name
  isFile := acc.isFile
  size := if acc.isFile then acc.fileSize else acc.folderSizeSum
  hasThumb := acc.hasThumb

/-- Rust `aggregate_dir_listing`. -/
def aggregateDirListing (rows : List FileRow) (dir : Path) : List FSElement :=
  (rows.foldl (addRow dir) []).map fun entry => entry.2.element dir entry.1

/-- The prefix of the paths in a folder, which is given without slashes at its ends. -/
def dirPrefix (folder : Path) : Path :=
  if folder = [] then [] else folder ++ ['/']

namespace Db

/-- The rows that the statement of `list_dir` answers, where `dir` is empty or ends with a slash. -/
def listedRows (db : Db) (storageId : Uuid) (dir : Path) : List FileRow :=
  db.files.filter fun r =>
    r.storageId = storageId ∧ (dir = [] ∨ startsWith r.path dir = true) ∧ r.isUploaded = true ∧ r.Live

/-- The listing is one that `list_dir` may answer. -/
def ListDir (db : Db) (storageId : Uuid) (folder : Path) (elements : List FSElement) : Prop :=
  ∃ rows, rows.Perm (db.listedRows storageId (dirPrefix folder)) ∧
    elements.Perm (aggregateDirListing rows (dirPrefix folder))

end Db

/-! ## The map -/

variable {dir name path : Path} {rows : List FileRow}

def collected (rows : List FileRow) (dir name : Path) : List FileRow :=
  rows.filter fun r => nextSegment r.path dir = some name

def accOf (rows : List FileRow) (dir name : Path) : Acc :=
  (collected rows dir name).foldl (Acc.add dir name) .empty

lemma upsert_of_not_mem {f : Acc → Acc} {entries : List (Path × Acc)} (h : name ∉ entries.map Prod.fst) :
    upsert name f entries = entries ++ [(name, f .empty)] := by
  induction entries with
  | nil => rfl
  | cons entry entries ih =>
    rw [List.map_cons, List.mem_cons, not_or] at h
    rw [upsert, if_neg (Ne.symm h.1), ih h.2]
    rfl

lemma map_fst_upsert_of_mem {f : Acc → Acc} {entries : List (Path × Acc)} (h : name ∈ entries.map Prod.fst) :
    (upsert name f entries).map Prod.fst = entries.map Prod.fst := by
  induction entries with
  | nil => cases h
  | cons entry entries ih =>
    rw [upsert]
    split
    · rfl
    · case isFalse hkey =>
      rw [List.map_cons, List.map_cons, ih ((List.mem_cons.mp h).resolve_left (Ne.symm hkey))]

lemma mem_upsert_of_mem {f : Acc → Acc} {entries : List (Path × Acc)} {acc acc' : Acc} {key : Path}
    (hnodup : (entries.map Prod.fst).Nodup) (h : (name, acc) ∈ entries) :
    (key, acc') ∈ upsert name f entries ↔ if key = name then acc' = f acc else (key, acc') ∈ entries := by
  induction entries with
  | nil => cases h
  | cons entry entries ih =>
    obtain ⟨head, first⟩ := entry
    obtain ⟨hout, hrest⟩ := List.nodup_cons.mp hnodup
    rw [upsert]
    obtain heq | hmem := List.mem_cons.mp h
    · obtain ⟨rfl, rfl⟩ := Prod.mk.inj heq
      rw [if_pos rfl, List.mem_cons, Prod.mk.injEq]
      by_cases hkey : key = name
      · subst hkey
        have hno : (key, acc') ∉ entries := fun hin => hout (List.mem_map.mpr ⟨_, hin, rfl⟩)
        simp [hno]
      · simp [hkey]
    · have hne : head ≠ name := by
        rintro rfl
        exact hout (List.mem_map.mpr ⟨_, hmem, rfl⟩)
      rw [if_neg hne, List.mem_cons, ih hrest hmem]
      by_cases hkey : key = name
      · subst hkey
        simp [Ne.symm hne]
      · simp [hkey]

/-- The map holds an entry for each name that a row has, with what the rows of that name add up to. -/
lemma foldl_addRow (rows : List FileRow) (dir : Path) :
    ((rows.foldl (addRow dir) []).map Prod.fst).Nodup ∧
      ∀ name acc, (name, acc) ∈ rows.foldl (addRow dir) [] ↔
        collected rows dir name ≠ [] ∧ acc = accOf rows dir name := by
  induction rows using List.reverseRecOn with
  | nil => simp [collected]
  | append_singleton rows r ih =>
    obtain ⟨hnodup, hentries⟩ := ih
    rw [List.foldl_append, List.foldl_cons, List.foldl_nil]
    generalize rows.foldl (addRow dir) [] = entries at hnodup hentries ⊢
    have hcollected (key : Path) : collected (rows ++ [r]) dir key =
        if nextSegment r.path dir = some key then collected rows dir key ++ [r]
        else collected rows dir key := by
      unfold collected
      rw [List.filter_append, List.filter_singleton]
      split <;> simp_all
    have hacc (key : Path) : accOf (rows ++ [r]) dir key =
        if nextSegment r.path dir = some key then (accOf rows dir key).add dir key r
        else accOf rows dir key := by
      unfold accOf
      rw [hcollected]
      split
      · rw [List.foldl_append, List.foldl_cons, List.foldl_nil]
      · rfl
    simp only [hcollected, hacc, addRow]
    cases hseg : nextSegment r.path dir with
    | none =>
      simp only [reduceCtorEq, if_false]
      exact ⟨hnodup, hentries⟩
    | some name =>
      simp only [Option.some.injEq]
      by_cases hmem : name ∈ entries.map Prod.fst
      · -- the row goes into an entry that is there
        obtain ⟨⟨found, acc⟩, hin, hfound⟩ := List.mem_map.mp hmem
        obtain rfl : found = name := hfound
        refine ⟨by rwa [map_fst_upsert_of_mem hmem], fun key acc' => ?_⟩
        rw [mem_upsert_of_mem hnodup hin, hentries]
        by_cases hkey : key = found
        · subst hkey
          simp [((hentries _ _).mp hin).2]
        · simp [hkey, Ne.symm hkey]
      · -- or into a new one
        have hnone : collected rows dir name = [] := by
          by_contra hsome
          exact hmem (List.mem_map.mpr ⟨_, (hentries name _).mpr ⟨hsome, rfl⟩, rfl⟩)
        have hempty : accOf rows dir name = .empty := by
          rw [accOf, hnone, List.foldl_nil]
        rw [upsert_of_not_mem hmem, List.map_append]
        refine ⟨?_, fun key acc' => ?_⟩
        · exact List.nodup_append.mpr ⟨hnodup, List.nodup_singleton _, by
            rintro key hkey _ hname rfl
            obtain rfl : key = name := List.mem_singleton.mp hname
            exact hmem hkey⟩
        · rw [List.mem_append, List.mem_singleton, Prod.mk.injEq, hentries]
          by_cases hkey : key = name
          · subst hkey
            simp [hnone, hempty]
          · simp [hkey, Ne.symm hkey]

/-! ## An entry -/

lemma nextSegment_iff : nextSegment path dir = some name ↔
    name ≠ [] ∧ '/' ∉ name ∧ (path = dir ++ name ∨ dir ++ name ++ ['/'] <+: path) := by
  have htake {seg rest : Path} (hslash : '/' ∉ seg) (hrest : rest = [] ∨ ∃ t, rest = '/' :: t) :
      (seg ++ rest).takeWhile (· ≠ '/') = seg := by
    have hplain : ∀ c ∈ seg, decide (c ≠ '/') = true := by
      intro c hc
      rw [decide_eq_true_eq]
      rintro rfl
      exact hslash hc
    rw [List.takeWhile_append_of_pos hplain]
    obtain rfl | ⟨t, rfl⟩ := hrest <;> simp
  unfold nextSegment
  constructor
  · intro h
    split at h
    · case isTrue hdir =>
      obtain ⟨rest, rfl⟩ := hdir
      dsimp only at h
      rw [List.drop_left] at h
      split at h
      · cases h
      · case isFalse hne =>
        obtain rfl := Option.some.inj h
        refine ⟨hne, fun hmem => by simpa using List.mem_takeWhile_imp hmem, ?_⟩
        have hparts := List.takeWhile_append_dropWhile (p := (· ≠ '/')) (l := rest)
        cases hbehind : rest.dropWhile (· ≠ '/') with
        | nil =>
          rw [hbehind, List.append_nil] at hparts
          exact .inl (by rw [hparts])
        | cons c t =>
          have hslash := List.head?_dropWhile_not (· ≠ '/') rest
          rw [hbehind] at hslash
          obtain rfl : c = '/' := not_not.mp (of_decide_eq_false hslash)
          right
          rw [hbehind] at hparts
          refine ⟨t, ?_⟩
          rw [List.append_assoc, List.append_assoc, List.singleton_append, hparts]
    · cases h
  · rintro ⟨hne, hslash, rfl | ⟨t, rfl⟩⟩
    · rw [if_pos (List.prefix_append _ _), List.drop_left]
      have := htake hslash (.inl rfl)
      rw [List.append_nil] at this
      dsimp only
      rw [this, if_neg hne]
    · rw [List.append_assoc, List.append_assoc, if_pos (List.prefix_append _ _), List.drop_left,
        List.singleton_append]
      dsimp only
      rw [htake hslash (.inr ⟨t, rfl⟩), if_neg hne]

variable {r₀ : FileRow}

lemma foldl_add_file (hpath : dir ++ name = r₀.path) {l : List FileRow} (acc : Acc)
    (honly : ∀ r ∈ l, dir ++ name = r.path → r = r₀) :
    let acc' := l.foldl (Acc.add dir name) acc
    if r₀ ∈ l then acc'.isFile = true ∧ acc'.fileSize = r₀.size ∧
      acc'.hasThumb = r₀.thumbTelegramFileId.isSome
    else acc'.isFile = acc.isFile ∧ acc'.fileSize = acc.fileSize ∧ acc'.hasThumb = acc.hasThumb := by
  induction l generalizing acc with
  | nil => exact ⟨rfl, rfl, rfl⟩
  | cons r l ih =>
    rw [List.forall_mem_cons] at honly
    have hrest := ih (acc.add dir name r) honly.2
    rw [List.foldl_cons]
    by_cases hr : dir ++ name = r.path
    · obtain rfl := honly.1 hr
      have hadd : acc.add dir name r =
          { acc with isFile := true, fileSize := r.size, hasThumb := r.thumbTelegramFileId.isSome } := if_pos hr
      rw [if_pos List.mem_cons_self]
      by_cases hmem : r ∈ l
      · rwa [if_pos hmem] at hrest
      · rw [if_neg hmem, hadd] at hrest
        rwa [hadd]
    · have hne : r₀ ≠ r := fun h => hr (h ▸ hpath)
      have hadd : acc.add dir name r =
          { acc with folderSizeSum := wrapI64 (acc.folderSizeSum + r.size) } := if_neg hr
      simp only [List.mem_cons, hne, false_or]
      rw [hadd] at hrest ⊢
      exact hrest

lemma foldl_add_below {l : List FileRow} (acc : Acc) (hno : ∀ r ∈ l, dir ++ name ≠ r.path) :
    (l.foldl (Acc.add dir name) acc).isFile = acc.isFile ∧
      (l.foldl (Acc.add dir name) acc).hasThumb = acc.hasThumb := by
  induction l generalizing acc with
  | nil => exact ⟨rfl, rfl⟩
  | cons r l ih =>
    rw [List.forall_mem_cons] at hno
    have hrest := ih (acc.add dir name r) hno.2
    have hadd : acc.add dir name r =
        { acc with folderSizeSum := wrapI64 (acc.folderSizeSum + r.size) } := if_neg hno.1
    rw [hadd] at hrest
    rwa [List.foldl_cons, hadd]

lemma foldl_add_folder {l : List FileRow} (acc : Acc) (total : Int) (hacc : acc.folderSizeSum = wrapI64 total) :
    (l.foldl (Acc.add dir name) acc).folderSizeSum =
      wrapI64 (total + ((l.filter fun r => dir ++ name ≠ r.path).map (·.size)).sum) := by
  induction l generalizing acc total with
  | nil => simpa using hacc
  | cons r l ih =>
    rw [List.foldl_cons]
    by_cases hpath : dir ++ name = r.path
    · rw [ih (acc.add dir name r) total (by rw [Acc.add, if_pos hpath]; exact hacc)]
      simp [hpath]
    · have hsum : (acc.add dir name r).folderSizeSum = wrapI64 (total + r.size) := by
        rw [Acc.add, if_neg hpath]
        show wrapI64 (acc.folderSizeSum + r.size) = _
        rw [hacc]
        unfold wrapI64
        exact Int.bmod_add_bmod
      rw [ih _ _ hsum]
      simp [hpath, add_assoc]

lemma mem_collected {r : FileRow} : r ∈ collected rows dir name ↔
    r ∈ rows ∧ name ≠ [] ∧ '/' ∉ name ∧ (r.path = dir ++ name ∨ dir ++ name ++ ['/'] <+: r.path) := by
  rw [collected, List.mem_filter, decide_eq_true_eq, nextSegment_iff]

/-- The sizes of the rows under a folder, whose path ends with a slash, that satisfy `p`. -/
def sizeUnder (rows : List FileRow) (folder : Path) (p : Path → Bool) : Int :=
  ((rows.filter fun r => folder <+: r.path ∧ p r.path = true).map (·.size)).sum

def bytesUnder (rows : List FileRow) (folder : Path) : Int :=
  sizeUnder rows folder fun path => !isFolderPath path

/-- The sizes that the markers of folders below a folder, and its own, have. -/
def markerBytesUnder (rows : List FileRow) (folder : Path) : Int :=
  sizeUnder rows folder isFolderPath

lemma sum_under (rows : List FileRow) (folder : Path) :
    ((rows.filter fun r => folder <+: r.path).map (·.size)).sum =
      bytesUnder rows folder + markerBytesUnder rows folder := by
  unfold bytesUnder markerBytesUnder sizeUnder
  induction rows with
  | nil => rfl
  | cons r rows ih =>
    by_cases hin : folder <+: r.path
    · cases hkind : isFolderPath r.path <;> simp [hin, hkind, ih] <;> omega
    · simp [hin, ih]

lemma element_file (hname : name ≠ []) (hslash : '/' ∉ name) (hmem : r₀ ∈ rows) (hpath : dir ++ name = r₀.path)
    (honly : ∀ r ∈ rows, dir ++ name = r.path → r = r₀) :
    (accOf rows dir name).element dir name =
      ⟨dir ++ name, name, true, r₀.size, r₀.thumbTelegramFileId.isSome⟩ := by
  have hfold := foldl_add_file hpath (l := collected rows dir name) .empty
    fun r hr => honly r (mem_collected.mp hr).1
  have hin : r₀ ∈ collected rows dir name := mem_collected.mpr ⟨hmem, hname, hslash, .inl hpath.symm⟩
  obtain ⟨hfile, hsize, hthumb⟩ := (if_pos hin).mp hfold
  unfold Acc.element accOf
  rw [hfile, hsize, hthumb, if_pos rfl]

lemma element_folder (hname : name ≠ []) (hslash : '/' ∉ name) (hno : ∀ r ∈ rows, dir ++ name ≠ r.path) :
    (accOf rows dir name).element dir name =
      ⟨dir ++ name, name, false,
        wrapI64 (bytesUnder rows (dir ++ name ++ ['/']) + markerBytesUnder rows (dir ++ name ++ ['/'])),
        false⟩ := by
  have hcollected : collected rows dir name = rows.filter fun r => dir ++ name ++ ['/'] <+: r.path := by
    refine List.filter_congr fun r hr => ?_
    rw [decide_eq_decide, nextSegment_iff, or_iff_right (Ne.symm (hno r hr))]
    tauto
  have hall : (collected rows dir name).filter (fun r => dir ++ name ≠ r.path) = collected rows dir name :=
    List.filter_eq_self.mpr fun r hr => decide_eq_true (hno r (mem_collected.mp hr).1)
  obtain ⟨hfile, hthumb⟩ := foldl_add_below (l := collected rows dir name) .empty
    fun r hr => hno r (mem_collected.mp hr).1
  have hsum : ((collected rows dir name).foldl (Acc.add dir name) .empty).folderSizeSum = _ :=
    foldl_add_folder .empty 0 rfl
  rw [hall, Int.zero_add, hcollected, sum_under] at hsum
  unfold Acc.element accOf
  rw [hfile, hthumb]
  show FSElement.mk _ _ _ (if false = true then _ else _) _ = _
  rw [if_neg Bool.false_ne_true, hcollected, hsum]
  rfl

/-! ## Complete listings -/

/-- The entry of a file in the folder, with its own size, or of a folder in it, with the sizes of the files
    below: one that has a row or is above one. -/
def FSElement.Stands (e : FSElement) (rows : List FileRow) (dir : Path) : Prop :=
  e.path = dir ++ e.name ∧ e.name ≠ [] ∧ '/' ∉ e.name ∧
    ((e.isFile = true ∧
        ∃ r ∈ rows, r.path = e.path ∧ e.size = r.size ∧ e.hasThumb = r.thumbTelegramFileId.isSome) ∨
      (e.isFile = false ∧ (∃ r ∈ rows, e.path ++ ['/'] <+: r.path) ∧
        e.size = bytesUnder rows (e.path ++ ['/']) ∧ e.hasThumb = false))

instance FSElement.Stands.decidable (e : FSElement) (rows : List FileRow) (dir : Path) :
    Decidable (e.Stands rows dir) :=
  inferInstanceAs (Decidable (_ ∧ _ ∧ _ ∧ (_ ∨ _)))

/-- The listing has each of these entries once, and no others. -/
def Complete (rows : List FileRow) (dir : Path) (elements : List FSElement) : Prop :=
  elements.Nodup ∧ ∀ e, e ∈ elements ↔ e.Stands rows dir

/-- No file has the name of a folder beside it, no name in a folder starts with the last code point, and the
    sizes of the files below a folder are an `i64` to which the markers add nothing. -/
structure Listable (rows : List FileRow) (dir : Path) : Prop where
  apart : ∀ name, name ≠ [] → '/' ∉ name → (∃ r ∈ rows, r.path = dir ++ name) →
    ¬∃ r ∈ rows, dir ++ name ++ ['/'] <+: r.path
  inRange : dir ≠ [] → ∀ r ∈ rows, ¬dir ++ [maxChar] <+: r.path
  sums : ∀ name, name ≠ [] → '/' ∉ name → (∃ r ∈ rows, dir ++ name ++ ['/'] <+: r.path) →
    (-9223372036854775808 ≤ bytesUnder rows (dir ++ name ++ ['/']) ∧
      bytesUnder rows (dir ++ name ++ ['/']) < 9223372036854775808) ∧
    18446744073709551616 ∣ markerBytesUnder rows (dir ++ name ++ ['/'])

lemma wrapI64_eq_iff {n k : Int} : wrapI64 (n + k) = n ↔
    (-9223372036854775808 ≤ n ∧ n < 9223372036854775808) ∧ 18446744073709551616 ∣ k := by
  unfold wrapI64
  rw [Int.bmod_def]
  omega

section Answer

variable {uploaded : List FileRow} {elements : List FSElement} {e : FSElement}
  (hrows : rows.Perm (uploaded.filter fun r => dir = [] ∨ startsWith r.path dir = true))
  (helements : elements.Perm (aggregateDirListing rows dir))
  (hunique : ∀ r ∈ uploaded, ∀ r' ∈ uploaded, r.path = r'.path → r = r')

include helements in
lemma mem_elements : e ∈ elements ↔
    ∃ name, collected rows dir name ≠ [] ∧ e = (accOf rows dir name).element dir name := by
  rw [helements.mem_iff, aggregateDirListing, List.mem_map]
  constructor
  · rintro ⟨⟨name, acc⟩, hmem, rfl⟩
    obtain ⟨hsome, rfl⟩ := ((foldl_addRow rows dir).2 name acc).mp hmem
    exact ⟨name, hsome, rfl⟩
  · rintro ⟨name, hsome, rfl⟩
    exact ⟨(name, accOf rows dir name), ((foldl_addRow rows dir).2 _ _).mpr ⟨hsome, rfl⟩, rfl⟩

include helements in
lemma elements_nodup : elements.Nodup ∧ ∀ e ∈ elements, ∀ e' ∈ elements, e.name = e'.name → e = e' := by
  constructor
  · rw [helements.nodup_iff]
    refine List.Nodup.of_map FSElement.name ?_
    rw [aggregateDirListing, List.map_map]
    exact (foldl_addRow rows dir).1
  · intro e he e' he' hname
    obtain ⟨name, -, rfl⟩ := (mem_elements helements).mp he
    obtain ⟨name', -, rfl⟩ := (mem_elements helements).mp he'
    obtain rfl : name = name' := hname
    rfl

include hrows in
lemma mem_rows {r : FileRow} : r ∈ rows ↔ r ∈ uploaded ∧ (dir = [] ∨ startsWith r.path dir = true) := by
  rw [hrows.mem_iff, List.mem_filter, decide_eq_true_eq]

include hrows in
lemma mem_rows_iff (hrange : dir ≠ [] → ∀ r ∈ uploaded, ¬dir ++ [maxChar] <+: r.path) {r : FileRow} :
    r ∈ rows ↔ r ∈ uploaded ∧ dir <+: r.path := by
  rw [mem_rows hrows]
  refine and_congr_right fun hr => ?_
  by_cases hdir : dir = []
  · simp [hdir]
  · rw [or_iff_right hdir]
    exact startsWith_iff_begins.mpr (hrange hdir r hr)

include hrows in
lemma sizeUnder_rows (hrange : dir ≠ [] → ∀ r ∈ uploaded, ¬dir ++ [maxChar] <+: r.path) {folder : Path}
    (hfolder : dir <+: folder) (p : Path → Bool) : sizeUnder rows folder p = sizeUnder uploaded folder p := by
  unfold sizeUnder
  refine (((hrows.filter _).map _).sum_eq).trans ?_
  rw [List.filter_filter]
  refine congrArg (fun l : List FileRow => (l.map (·.size)).sum) (List.filter_congr fun r hr => ?_)
  rw [Bool.eq_iff_iff, Bool.and_eq_true, decide_eq_true_eq, decide_eq_true_eq, and_iff_left_iff_imp]
  intro hin
  have := (mem_rows_iff hrows hrange).mpr ⟨hr, hfolder.trans hin.1⟩
  exact ((mem_rows hrows).mp this).2

include hrows helements hunique in
/-- Where the rows are listable, the listing has the entries that stand there. -/
lemma Listable.mem_elements (h : Listable uploaded dir) : e ∈ elements ↔ e.Stands uploaded dir := by
  have hbelow (name : Path) (p : Path → Bool) :
      sizeUnder rows (dir ++ name ++ ['/']) p = sizeUnder uploaded (dir ++ name ++ ['/']) p :=
    sizeUnder_rows hrows h.inRange ⟨name ++ ['/'], by simp⟩ p
  rw [Sarca.Server.mem_elements helements]
  constructor
  · rintro ⟨name, hsome, rfl⟩
    obtain ⟨r, hr⟩ := List.exists_mem_of_ne_nil _ hsome
    obtain ⟨hmem, hname, hslash, hat⟩ := mem_collected.mp hr
    refine ⟨rfl, hname, hslash, ?_⟩
    by_cases hfile : ∃ r₀ ∈ rows, dir ++ name = r₀.path
    · obtain ⟨r₀, hr₀, hpath⟩ := hfile
      have hup := ((mem_rows hrows).mp hr₀).1
      rw [element_file hname hslash hr₀ hpath fun r hr h =>
        hunique r ((mem_rows hrows).mp hr).1 r₀ hup (h.symm.trans hpath)]
      exact .inl ⟨rfl, r₀, hup, hpath.symm, rfl, rfl⟩
    · have hno : ∀ r ∈ rows, dir ++ name ≠ r.path := fun r hr h => hfile ⟨r, hr, h⟩
      have hunder : ∃ r ∈ uploaded, dir ++ name ++ ['/'] <+: r.path :=
        ⟨r, ((mem_rows hrows).mp hmem).1, hat.resolve_left (Ne.symm (hno r hmem))⟩
      rw [element_folder hname hslash hno]
      refine .inr ⟨rfl, hunder, ?_, rfl⟩
      show wrapI64 (_ + _) = _
      unfold bytesUnder markerBytesUnder
      rw [hbelow, hbelow]
      exact wrapI64_eq_iff.mpr (h.sums name hname hslash hunder)
  · obtain ⟨path, name, isFile, size, hasThumb⟩ := e
    rintro ⟨hpath, hname, hslash, hkind⟩
    obtain rfl : path = dir ++ name := hpath
    refine ⟨name, ?_, ?_⟩
    · obtain ⟨-, r, hr, hat, -⟩ | ⟨-, ⟨r, hr, hat⟩, -⟩ := hkind
      · have hmem := (mem_rows_iff hrows h.inRange).mpr ⟨hr, ⟨name, hat.symm⟩⟩
        exact List.ne_nil_of_mem (mem_collected.mpr ⟨hmem, hname, hslash, .inl hat⟩)
      · have hdir : dir <+: r.path := List.IsPrefix.trans ⟨name ++ ['/'], by simp⟩ hat
        have hmem := (mem_rows_iff hrows h.inRange).mpr ⟨hr, hdir⟩
        exact List.ne_nil_of_mem (mem_collected.mpr ⟨hmem, hname, hslash, .inr hat⟩)
    · obtain ⟨hfile, r, hr, hat, hsize, hthumb⟩ | ⟨hfolder, hunder, hsize, hthumb⟩ := hkind
      · have hmem := (mem_rows_iff hrows h.inRange).mpr ⟨hr, ⟨name, hat.symm⟩⟩
        rw [element_file hname hslash hmem hat.symm fun r' hr' h' =>
          hunique r' ((mem_rows hrows).mp hr').1 r hr (h'.symm.trans hat.symm)]
        simp only [FSElement.mk.injEq, true_and]
        exact ⟨hfile, hsize, hthumb⟩
      · have hno : ∀ r ∈ rows, dir ++ name ≠ r.path := fun r hr hat =>
          h.apart name hname hslash ⟨r, ((mem_rows hrows).mp hr).1, hat.symm⟩ hunder
        rw [element_folder hname hslash hno]
        simp only [FSElement.mk.injEq, true_and]
        refine ⟨hfolder, ?_, hthumb⟩
        unfold bytesUnder markerBytesUnder
        rw [hbelow, hbelow]
        exact hsize.trans (wrapI64_eq_iff.mpr (h.sums name hname hslash hunder)).symm

include hrows helements hunique in
/-- A listing is complete exactly when the rows are listable. -/
lemma complete_iff : Complete uploaded dir elements ↔ Listable uploaded dir := by
  constructor
  · rintro ⟨-, h⟩
    -- what stands there has an entry of its name
    have hentry {name : Path} {isFile : Bool} {size : Int} {hasThumb : Bool}
        (hstands : (FSElement.mk (dir ++ name) name isFile size hasThumb).Stands uploaded dir) :
        collected rows dir name ≠ [] ∧
          FSElement.mk (dir ++ name) name isFile size hasThumb = (accOf rows dir name).element dir name := by
      obtain ⟨name', hsome, heq⟩ := (Sarca.Server.mem_elements helements).mp ((h _).mpr hstands)
      obtain rfl : name = name' := congrArg FSElement.name heq
      exact ⟨hsome, heq⟩
    have hfile {name : Path} {r : FileRow} (hname : name ≠ []) (hslash : '/' ∉ name) (hr : r ∈ uploaded)
        (hat : r.path = dir ++ name) : collected rows dir name ≠ [] ∧
          FSElement.mk (dir ++ name) name true r.size r.thumbTelegramFileId.isSome =
            (accOf rows dir name).element dir name :=
      hentry ⟨rfl, hname, hslash, .inl ⟨rfl, r, hr, hat, rfl, rfl⟩⟩
    have hfolder {name : Path} (hname : name ≠ []) (hslash : '/' ∉ name)
        (hunder : ∃ r ∈ uploaded, dir ++ name ++ ['/'] <+: r.path) : collected rows dir name ≠ [] ∧
          FSElement.mk (dir ++ name) name false (bytesUnder uploaded (dir ++ name ++ ['/'])) false =
            (accOf rows dir name).element dir name :=
      hentry ⟨rfl, hname, hslash, .inr ⟨rfl, hunder, rfl, rfl⟩⟩
    have hapart : ∀ name, name ≠ [] → '/' ∉ name → (∃ r ∈ uploaded, r.path = dir ++ name) →
        ¬∃ r ∈ uploaded, dir ++ name ++ ['/'] <+: r.path := by
      rintro name hname hslash ⟨r, hr, hat⟩ hunder
      have hone := (hfile hname hslash hr hat).2.trans (hfolder hname hslash hunder).2.symm
      exact Bool.noConfusion (congrArg FSElement.isFile hone)
    have hrange : dir ≠ [] → ∀ r ∈ uploaded, ¬dir ++ [maxChar] <+: r.path := by
      rintro hdir r hr ⟨t, ht⟩
      have hseg : nextSegment r.path dir = some (maxChar :: t.takeWhile (· ≠ '/')) := by
        rw [← ht, List.append_assoc, nextSegment, if_pos (List.prefix_append _ _), List.drop_left]
        rfl
      obtain ⟨hname, hslash, hat⟩ := nextSegment_iff.mp hseg
      have hsome : collected rows dir (maxChar :: t.takeWhile (· ≠ '/')) ≠ [] := by
        obtain hat | hat := hat
        · exact (hfile hname hslash hr hat).1
        · exact (hfolder hname hslash ⟨r, hr, hat⟩).1
      -- but the range holds no such row
      obtain ⟨r', hr'⟩ := List.exists_mem_of_ne_nil _ hsome
      obtain ⟨hmem, -, -, hat'⟩ := mem_collected.mp hr'
      have hin := ((mem_rows hrows).mp hmem).2.resolve_left hdir
      have hcontinues : dir ++ [maxChar] <+: r'.path := by
        obtain hat' | ⟨rest, hat'⟩ := hat'
        · exact ⟨t.takeWhile (· ≠ '/'), by rw [hat']; simp⟩
        · exact ⟨t.takeWhile (· ≠ '/') ++ ['/'] ++ rest, by rw [← hat']; simp⟩
      rw [(continues_iff.mp hcontinues).2] at hin
      cases hin
    refine ⟨hapart, hrange, fun name hname hslash hunder => ?_⟩
    have hno : ∀ r ∈ rows, dir ++ name ≠ r.path := fun r hr hat =>
      hapart name hname hslash ⟨r, ((mem_rows hrows).mp hr).1, hat.symm⟩ hunder
    have hsize := congrArg FSElement.size (hfolder hname hslash hunder).2
    have hdir : dir <+: dir ++ name ++ ['/'] := ⟨name ++ ['/'], by simp⟩
    rw [element_folder hname hslash hno] at hsize
    unfold bytesUnder markerBytesUnder at hsize
    rw [sizeUnder_rows hrows hrange hdir, sizeUnder_rows hrows hrange hdir] at hsize
    exact wrapI64_eq_iff.mp hsize.symm
  · intro h
    exact ⟨(elements_nodup helements).1, fun e => h.mem_elements hrows helements hunique⟩

end Answer

def Db.uploadedRows (db : Db) (storageId : Uuid) : List FileRow :=
  db.files.filter fun r => r.storageId = storageId ∧ r.isUploaded = true ∧ r.Live

/-- Every listing of a folder is complete exactly when its rows are listable. -/
theorem listDir_exact_iff {db : Db} {storageId : Uuid} (folder : Path) {elements : List FSElement}
    (hwf : db.Wf) (hanswer : db.ListDir storageId folder elements) :
    Complete (db.uploadedRows storageId) (dirPrefix folder) elements ↔
      Listable (db.uploadedRows storageId) (dirPrefix folder) := by
  obtain ⟨rows, hrows, helements⟩ := hanswer
  have hstored : db.listedRows storageId (dirPrefix folder) = (db.uploadedRows storageId).filter fun r =>
      dirPrefix folder = [] ∨ startsWith r.path (dirPrefix folder) = true := by
    unfold Db.listedRows Db.uploadedRows
    rw [List.filter_filter]
    refine List.filter_congr fun r _ => ?_
    rw [Bool.eq_iff_iff, Bool.and_eq_true, decide_eq_true_eq, decide_eq_true_eq, decide_eq_true_eq]
    tauto
  rw [hstored] at hrows
  refine complete_iff hrows helements fun r hr r' hr' hpath => ?_
  obtain ⟨hmem, hin⟩ := List.mem_filter.mp hr
  obtain ⟨hmem', hin'⟩ := List.mem_filter.mp hr'
  obtain ⟨hs, -, hl⟩ := of_decide_eq_true hin
  obtain ⟨hs', -, hl'⟩ := of_decide_eq_true hin'
  exact hwf.aliveUnique r hmem r' hmem' hl hl' (hs.trans hs'.symm) hpath

/-! ## A file and a folder of one name -/

def sevenBytes (id : Uuid) (path : String) : FileRow :=
  (InFile.new path.toList 7 1).toRow id true

def loneFile : Db :=
  { Db.fresh [⟨1, 0⟩] with files := [sevenBytes 1 "a"] }

/-- The file with another one in a folder of its name. -/
def fileAndFolder : Db :=
  { Db.fresh [⟨1, 0⟩] with files := [sevenBytes 1 "a", sevenBytes 2 "a/b"] }

lemma loneFile_wf : loneFile.Wf where
  idUnique := by simp [loneFile]
  aliveUnique := by simp [loneFile]
  storageExists := by decide
  eventsGrow := List.Pairwise.nil
  eventsSeen := fun _ he => absurd he List.not_mem_nil

lemma loneFile_listable : Listable (loneFile.uploadedRows 1) [] := by
  have hrows : loneFile.uploadedRows 1 = [sevenBytes 1 "a"] := by decide
  -- nothing is below a folder
  have hnone (name : Path) : ¬∃ r ∈ loneFile.uploadedRows 1, [] ++ name ++ ['/'] <+: r.path := by
    rw [hrows]
    rintro ⟨r, hr, hin⟩
    obtain rfl := List.mem_singleton.mp hr
    have hslash : '/' ∈ (sevenBytes 1 "a").path := hin.subset (List.mem_append_right _ List.mem_cons_self)
    revert hslash
    decide
  exact ⟨fun name _ _ _ => hnone name, fun h => absurd rfl h, fun name _ _ h => absurd h (hnone name)⟩

/-- The listing of the file alone is complete. -/
theorem loneFile_complete :
    Complete (loneFile.uploadedRows 1) [] (aggregateDirListing (loneFile.listedRows 1 []) []) :=
  (listDir_exact_iff [] loneFile_wf ⟨_, .refl _, .refl _⟩).mpr loneFile_listable

/-- The folder beside the file has no entry. -/
theorem fileAndFolder_hides :
    ∃ elements, fileAndFolder.ListDir 1 [] elements ∧ ¬Complete (fileAndFolder.uploadedRows 1) [] elements := by
  refine ⟨_, ⟨_, .refl _, .refl _⟩, fun h => ?_⟩
  have hfolder := (h.2 ⟨['a'], ['a'], false, 7, false⟩).mpr (by decide)
  revert hfolder
  decide

end Sarca.Server
