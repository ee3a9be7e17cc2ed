import Sarca.Server.Paths

/-!
# Where an upload lands

The path a sync client names for a local file (`joinRemote`, `splitParentName` of `engine.rs`), the
path at which the server stores the upload it sends (`uploadPath`: the form fields of
`upload_file_metered`, read by `FilesRouter::upload`), and the path the server looks at when the
client's preflight asks for it (`preflightPath`: `remote_file`, urlencoded segment by segment).

`upload_lands_iff` says for which files the three agree.
-/

namespace Sarca.Client
open Sarca.Lib Sarca.Server

/-- `trim_matches('/')` -/
def trimSlashes (path : Path) : Path :=
  trimBy (· == '/') path

/-- The remote path of a local one (Rust `join_remote`). -/
def joinRemote (remoteRoot rel : Path) : Path :=
  let root := trimSlashes (trim remoteRoot)
  let rel := trimSlashes rel
  if root = [] then rel else if rel = [] then root else root ++ '/' :: rel

/-- The parent folder and the name of a relative path (Rust `split_parent_name`). -/
def splitParentName (rel : Path) : Path × Path :=
  (rsplitOnce '/' rel).getD ([], rel)

/-- A form value that counts unless it is blank. -/
def nonBlank (text : Path) : Option Path :=
  if trim text = [] then none else some text

/-- The path at which the server stores the upload of a local file. `partName` is what the multipart
    reader finds as the file name of the part for the name the client wrote there. -/
def uploadPath (partName : Path → Option Path) (remoteRoot rel : Path) : Except SarcaError Path :=
  let (parent, filename) := splitParentName rel
  let filenameField := nonBlank (percentDecode filename)
  let filenameFromFile := (partName filename).bind nonBlank
  constructPath (percentDecode (joinRemote remoteRoot parent))
    ((filenameField.or filenameFromFile).getD "unnamed".toList)

lemma uploadPath_eq (partName : Path → Option Path) (remoteRoot rel : Path) :
    uploadPath partName remoteRoot rel =
      constructPath (percentDecode (joinRemote remoteRoot (splitParentName rel).1))
        (((nonBlank (percentDecode (splitParentName rel).2)).or
          ((partName (splitParentName rel).2).bind nonBlank)).getD "unnamed".toList) := rfl

/-- The path the server looks at when the preflight asks for `remotePath`. -/
def preflightPath (remotePath : Path) : Option Path :=
  infoLookup ((remotePath.splitOn '/').map percentEncode)

/-- The file has a name, and the remote path holds no percent escape, no `..` and no segment that
    `construct_path` would change: blank, with outer blanks, with a backslash or a dot. -/
structure Portable (remoteRoot rel : Path) : Prop where
  named : (splitParentName rel).2 ≠ []
  noEscape : NoEscape (joinRemote remoteRoot rel)
  noDots : ¬ ['.', '.'] <:+: joinRemote remoteRoot rel
  canonical : CanonicalPath (joinRemote remoteRoot rel)

/-! ## Joining and splitting -/

lemma splitParentName_cases (rel : Path) :
    ∃ parent name, splitParentName rel = (parent, name) ∧ '/' ∉ name ∧
      (parent = [] ∧ rel = name ∨ rel = parent ++ '/' :: name) := by
  unfold splitParentName
  cases hsplit : rsplitOnce '/' rel with
  | none => exact ⟨[], rel, rfl, rsplitOnce_none hsplit, Or.inl ⟨rfl, rfl⟩⟩
  | some found =>
    obtain ⟨parent, name⟩ := found
    obtain ⟨heq, hno⟩ := rsplitOnce_some hsplit
    exact ⟨parent, name, rfl, hno, Or.inr heq⟩

lemma trimSlashes_of_noSlash {name : Path} (h : '/' ∉ name) : trimSlashes name = name := by
  have hne : ∀ c ∈ name, (c == '/') = false := by
    intro c hc
    apply beq_eq_false_iff_ne.mpr
    rintro rfl
    exact h hc
  apply trimBy_eq_self
  · intro c hc
    exact hne c (List.mem_of_mem_head? hc)
  · intro c hc
    exact hne c (List.mem_of_mem_getLast? hc)

lemma dropWhile_join (parent name : Path) (h : '/' ∉ name) :
    (parent ++ '/' :: name).dropWhile (· == '/') =
      if parent.dropWhile (· == '/') = [] then name
      else parent.dropWhile (· == '/') ++ '/' :: name := by
  have hname : ('/' :: name).dropWhile (· == '/') = name := by
    cases name with
    | nil => rfl
    | cons c rest =>
      have hc : (c == '/') = false := by
        apply beq_eq_false_iff_ne.mpr
        rintro rfl
        exact h List.mem_cons_self
      simp [hc]
  rw [List.dropWhile_append, hname]
  simp only [List.isEmpty_iff]

lemma trimSlashes_join {parent name : Path} (h : '/' ∉ name) (hne : name ≠ []) :
    trimSlashes (parent ++ '/' :: name) =
      if parent.dropWhile (· == '/') = [] then name
      else parent.dropWhile (· == '/') ++ '/' :: name := by
  have hlast : ∀ before : Path, (before ++ name).rdropWhile (· == '/') = before ++ name := by
    intro before
    apply List.rdropWhile_eq_self_iff.mpr
    intro hne'
    rw [List.getLast_append_of_ne_nil _ hne]
    intro hc
    exact h (beq_iff_eq.mp hc ▸ List.getLast_mem hne)
  unfold trimSlashes trimBy
  rw [dropWhile_join parent name h]
  split
  · exact hlast []
  · have hcons := hlast (parent.dropWhile (· == '/') ++ ['/'])
    simpa using hcons

lemma trimSlashes_slash (parent : Path) : trimSlashes (parent ++ ['/']) = trimSlashes parent := by
  unfold trimSlashes trimBy
  rw [dropWhile_join parent [] List.not_mem_nil]
  split
  · case isTrue hnil => rw [hnil]
  · exact List.rdropWhile_concat_pos _ _ _ rfl

@[simp] lemma trimSlashes_nil : trimSlashes [] = [] := rfl

lemma joinRemote_congr {remoteRoot rel rel' : Path} (h : trimSlashes rel = trimSlashes rel') :
    joinRemote remoteRoot rel = joinRemote remoteRoot rel' := by
  unfold joinRemote
  rw [h]

lemma joinRemote_unnamed {remoteRoot rel : Path} (h : (splitParentName rel).2 = []) :
    joinRemote remoteRoot rel = joinRemote remoteRoot (splitParentName rel).1 := by
  obtain ⟨parent, name, hsplit, -, hrel⟩ := splitParentName_cases rel
  rw [hsplit] at h ⊢
  obtain rfl : name = [] := h
  apply joinRemote_congr
  rcases hrel with ⟨rfl, rfl⟩ | rfl
  · rfl
  · exact trimSlashes_slash parent

lemma joinRemote_named {remoteRoot rel : Path} (hname : (splitParentName rel).2 ≠ [])
    (hcanon : CanonicalPath (joinRemote remoteRoot rel)) :
    '/' ∉ (splitParentName rel).2 ∧
      joinRemote remoteRoot rel =
        if joinRemote remoteRoot (splitParentName rel).1 = [] then (splitParentName rel).2
        else joinRemote remoteRoot (splitParentName rel).1 ++ '/' :: (splitParentName rel).2 := by
  obtain ⟨parent, name, hsplit, hno, hrel⟩ := splitParentName_cases rel
  rw [hsplit] at hname ⊢
  have hname' : name ≠ [] := hname
  refine ⟨hno, ?_⟩
  rcases hrel with ⟨rfl, rfl⟩ | rfl
  · simp only [joinRemote, trimSlashes_of_noSlash hno, hname', if_false]
    by_cases hroot : trimSlashes (trim remoteRoot) = [] <;> simp [hroot]
  · by_cases hq : parent.dropWhile (· == '/') = []
    · have hparent : trimSlashes parent = [] := by
        unfold trimSlashes trimBy
        rw [hq]
        rfl
      simp only [joinRemote, trimSlashes_join hno hname', hq, if_true, hparent, hname', if_false]
      by_cases hroot : trimSlashes (trim remoteRoot) = [] <;> simp [hroot]
    · -- no slash ends the parent, since the canonical path would hold two in a row
      have hjoin : trimSlashes (parent ++ '/' :: name) =
          parent.dropWhile (· == '/') ++ '/' :: name := by
        rw [trimSlashes_join hno hname', if_neg hq]
      have hcanonq : CanonicalPath (parent.dropWhile (· == '/')) := by
        simp only [joinRemote, hjoin] at hcanon
        split at hcanon
        · exact (canonicalPath_append.mp hcanon).1
        · rw [if_neg (by simp)] at hcanon
          exact (canonicalPath_append.mp (canonicalPath_append.mp hcanon).2).1
      have hparent : trimSlashes parent = parent.dropWhile (· == '/') := by
        unfold trimSlashes trimBy
        apply List.rdropWhile_eq_self_iff.mpr
        intro hne hlast
        have hget := List.getLast?_eq_some_getLast hne
        rw [beq_iff_eq.mp hlast] at hget
        exact hcanonq.slashes.2.1 hget
      simp only [joinRemote, hjoin, hparent, hq, if_false]
      by_cases hroot : trimSlashes (trim remoteRoot) = [] <;> simp [hroot, hq]

/-! ## The three paths of a file -/

lemma preflightPath_canonical_iff {path : Path} (h : CanonicalPath path) :
    preflightPath path = some path ↔ NoEscape path ∧ ¬ ['.', '.'] <:+: path := by
  have hdots : ∀ seg ∈ (path.splitOn '/').map percentEncode, seg ≠ ['.'] ∧ seg ≠ ['.', '.'] := by
    intro seg hseg
    obtain ⟨plain, hplain, rfl⟩ := List.mem_map.mp hseg
    have hback := percentDecode_percentEncode plain
    constructor
    · intro he
      rw [he] at hback
      exact (h plain hplain).notDot hback.symm
    · intro he
      rw [he] at hback
      exact (h plain hplain).notDots hback.symm
  have hrouted : percentDecode (['/'].intercalate ((path.splitOn '/').map percentEncode)) = path := by
    rw [percentDecode_intercalate (by decide) (by decide), List.map_map]
    have hid : (percentDecode ∘ percentEncode) = id := funext percentDecode_percentEncode
    rw [hid, List.map_id]
    exact List.intercalate_splitOn '/'
  have hnoLead : path.dropWhile (· = '/') = path := by
    cases path with
    | nil => rfl
    | cons c rest =>
      have hc : c ≠ '/' := fun he => h.slashes.1 (by rw [he]; rfl)
      simp [hc]
  unfold preflightPath infoLookup
  rw [removeDots_of_noDots hdots]
  simp only [List.reverse_nil, List.nil_append, hrouted]
  constructor
  · intro hfound
    split at hfound
    · cases hfound
    · case isFalse hplain =>
      split at hfound
      · cases hfound
      · have heq := Option.some.inj hfound
        have hno : NoEscape path := by
          by_contra hesc
          have hlt := length_decodeFrom_lt (Nat.le_refl _) hesc []
          have hle := (List.dropWhile_sublist (l := percentDecode path) (· = '/')).length_le
          have hlen := congrArg List.length heq
          simp only [percentDecode, List.length_nil, Nat.zero_add] at hlt hle hlen
          omega
        rw [percentDecode_eq_self_iff.mpr hno, hnoLead] at hplain
        exact ⟨hno, fun hd => hplain (Or.inr (holdsPattern_iff.mpr hd))⟩
  · rintro ⟨hno, hnodots⟩
    rw [percentDecode_eq_self_iff.mpr hno, hnoLead, if_neg, if_neg]
    · rintro (hnil | hfolder)
      · exact h.ne_nil hnil
      · exact h.slashes.2.1 (beq_iff_eq.mp hfolder)
    · rintro (hss | hdd)
      · exact h.slashes.2.2 (holdsPattern_iff.mp hss)
      · exact hnodots (holdsPattern_iff.mp hdd)

lemma uploadPath_portable {partName : Path → Option Path} {remoteRoot rel : Path}
    (h : Portable remoteRoot rel) :
    uploadPath partName remoteRoot rel = .ok (joinRemote remoteRoot rel) := by
  obtain ⟨hno, hjoin⟩ := joinRemote_named h.named h.canonical
  have hcanon := h.canonical
  have hesc := h.noEscape
  rw [hjoin] at hcanon hesc ⊢
  -- the name and the parent inherit what the whole path has
  have hparts : CanonicalPath (splitParentName rel).2 ∧ NoEscape (splitParentName rel).2 ∧
      (joinRemote remoteRoot (splitParentName rel).1 = [] ∨
        CanonicalPath (joinRemote remoteRoot (splitParentName rel).1)) ∧
      NoEscape (joinRemote remoteRoot (splitParentName rel).1) := by
    split at hcanon
    · case isTrue hnil =>
      rw [if_pos hnil] at hesc
      exact ⟨hcanon, hesc, Or.inl hnil, hnil ▸ trivial⟩
    · case isFalse hne =>
      rw [if_neg hne] at hesc
      obtain ⟨hc, hc'⟩ := canonicalPath_append.mp hcanon
      obtain ⟨he, he'⟩ := hesc.of_append
      exact ⟨hc', he'.2, Or.inr hc, he⟩
  obtain ⟨hname, hnameEsc, hparent, hparentEsc⟩ := hparts
  have hseg : Canonical (splitParentName rel).2 := hname.segment hno
  have hblank : nonBlank (percentDecode (splitParentName rel).2) =
      some (splitParentName rel).2 := by
    rw [percentDecode_eq_self_iff.mpr hnameEsc, nonBlank, hseg.trimmed, if_neg hseg.nonempty]
  rw [uploadPath_eq, hblank, percentDecode_eq_self_iff.mpr hparentEsc]
  exact constructPath_canonical hseg hparent

lemma trimSlashes_named {rel : Path} (h : (splitParentName rel).2 ≠ []) : trimSlashes rel ≠ [] := by
  obtain ⟨parent, name, hsplit, hno, hrel⟩ := splitParentName_cases rel
  rw [hsplit] at h
  rcases hrel with ⟨-, rfl⟩ | rfl
  · rwa [trimSlashes_of_noSlash hno]
  · rw [trimSlashes_join hno h]
    split
    · exact h
    · simp

lemma joinRemote_inj {remoteRoot rel rel' : Path} (h : (splitParentName rel).2 ≠ [])
    (h' : (splitParentName rel').2 ≠ []) (heq : joinRemote remoteRoot rel = joinRemote remoteRoot rel') :
    trimSlashes rel = trimSlashes rel' := by
  simp only [joinRemote, trimSlashes_named h, trimSlashes_named h', if_false] at heq
  split at heq
  · exact heq
  · simpa using heq

end Sarca.Client
