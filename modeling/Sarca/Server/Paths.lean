import Sarca.Lib.Percent
import Sarca.Lib.Text
import Sarca.Server.Files

/-!
# Paths of the HTTP endpoints

How `routers/files.rs` makes a stored path of an upload's form fields (`fileBasename`,
`normalizeParent`, `constructPath`), and how a path in the URL of an info request reaches the lookup
(`infoLookup`, Rust `dynamic_get`, `file_info_inner` and `FilesService::info`).

A path is `Canonical` when its segments are what `constructPath` makes them: not empty, not `.` or `..`,
trimmed and without backslash. `constructPath_canonical` says that it makes nothing else, and
`normalizeParent_canonical` that it leaves such a path alone.
-/

namespace Sarca.Server
open Sarca.Lib

/-- A separator of the upload form: `/` or `\`. -/
def isSeparator (c : Char) : Bool :=
  c == '/' || c == '\\'

/-- The last piece of a file name (Rust `file_basename`). -/
def fileBasename (filename : Path) : Path :=
  trim (((trim filename).splitOnP isSeparator).getLastD [])

/-- The pieces of a parent path that name folders. -/
def parentParts : List Path → Except SarcaError (List Path)
  | [] => .ok []
  | piece :: pieces =>
    let part := trim piece
    if part = [] ∨ part = ['.'] then parentParts pieces
    else if part = ['.', '.'] then .error .invalidPath
    else
      match parentParts pieces with
      | .ok parts => .ok (part :: parts)
      | .error e => .error e

/-- Normalize a parent folder path (Rust `normalize_parent`). -/
def normalizeParent (parent : Path) : Except SarcaError Path :=
  match parentParts (parent.splitOnP isSeparator) with
  | .ok parts => .ok (['/'].intercalate parts)
  | .error e => .error e

/-- Join a parent folder path with a file name (Rust `construct_path`). -/
def constructPath (parent filename : Path) : Except SarcaError Path :=
  match normalizeParent parent with
  | .error e => .error e
  | .ok parent =>
    let filename := fileBasename filename
    if filename = [] ∨ filename = ['.'] ∨ filename = ['.', '.'] then .error .invalidPath
    else
      let path := if parent = [] then filename else parent ++ '/' :: filename
      if isFolderPath path then .error .invalidPath else .ok path

/-- The dot segments of a URL path, resolved as `Url::parse` does; `none` when they leave the route. -/
def removeDots (seen : List Path) : List Path → Option (List Path)
  | [] => some seen.reverse
  | seg :: rest =>
    if seg = ['.', '.'] then
      match seen with
      | [] => none
      | _ :: seen => if rest = [] then some ([] :: seen).reverse else removeDots seen rest
    else if seg = ['.'] then
      if rest = [] then some ([] :: seen).reverse else removeDots seen rest
    else
      removeDots (seg :: seen) rest

/-- Whether the text holds the pattern (Rust `str::contains`). -/
def holdsPattern (pattern : Path) : Path → Bool
  | [] => pattern.isPrefixOf []
  | c :: rest => pattern.isPrefixOf (c :: rest) || holdsPattern pattern rest

/-- The path at which an info request for the URL segments `encoded` looks for a file: the route is
    decoded once by the extractor and once more by `file_info_inner`. -/
def infoLookup (encoded : List Path) : Option Path :=
  match removeDots [] encoded with
  | none => none
  | some segments =>
    let routed := percentDecode (['/'].intercalate segments)
    let path := (percentDecode routed).dropWhile (· = '/')
    if holdsPattern ['/', '/'] path ∨ holdsPattern ['.', '.'] path then none
    else if path = [] ∨ isFolderPath path then none
    else some path

structure Canonical (seg : Path) : Prop where
  nonempty : seg ≠ []
  trimmed : trim seg = seg
  noSeparator : ∀ c ∈ seg, isSeparator c = false
  notDot : seg ≠ ['.']
  notDots : seg ≠ ['.', '.']

def CanonicalPath (path : Path) : Prop :=
  ∀ seg ∈ path.splitOn '/', Canonical seg

/-! ## Segments -/

lemma splitOnP_pieces {p : Char → Bool} {text : List Char} :
    ∀ piece ∈ text.splitOnP p, ∀ c ∈ piece, p c = false := by
  induction text with
  | nil => simp
  | cons d text ih =>
    rw [List.splitOnP_cons_eq_if_modifyHead]
    split
    · intro piece hpiece
      rcases List.mem_cons.mp hpiece with rfl | hpiece
      · simp
      · exact ih piece hpiece
    · case isFalse hd =>
      cases hsplit : text.splitOnP p with
      | nil => exact absurd hsplit (List.splitOnP_ne_nil p text)
      | cons first pieces =>
        rw [hsplit] at ih
        intro piece hpiece c hc
        rw [List.modifyHead_cons] at hpiece
        rcases List.mem_cons.mp hpiece with rfl | hpiece
        · rcases List.mem_cons.mp hc with rfl | hc
          · simpa using hd
          · exact ih first List.mem_cons_self c hc
        · exact ih piece (List.mem_cons_of_mem first hpiece) c hc

lemma holdsPattern_iff {pattern text : Path} : holdsPattern pattern text ↔ pattern <:+: text := by
  induction text with
  | nil =>
    show pattern.isPrefixOf [] = true ↔ _
    rw [List.isPrefixOf_iff_prefix, List.infix_nil, List.prefix_nil]
  | cons c rest ih =>
    show (pattern.isPrefixOf (c :: rest) || holdsPattern pattern rest) = true ↔ _
    rw [Bool.or_eq_true, List.isPrefixOf_iff_prefix, ih, List.infix_cons_iff]

lemma Canonical.noSlash {seg : Path} (h : Canonical seg) : '/' ∉ seg := by
  intro hmem
  exact absurd (h.noSeparator '/' hmem) (by decide)

lemma splitOn_intercalate {segs : List Path} (h : ∀ seg ∈ segs, Canonical seg) (hne : segs ≠ []) :
    (['/'].intercalate segs).splitOn '/' = segs :=
  List.splitOn_intercalate '/' (fun seg hseg => (h seg hseg).noSlash) hne

lemma CanonicalPath.ne_nil {path : Path} (h : CanonicalPath path) : path ≠ [] := by
  rintro rfl
  exact (h [] (by simp)).nonempty rfl

lemma canonicalPath_append {before after : Path} :
    CanonicalPath (before ++ '/' :: after) ↔ CanonicalPath before ∧ CanonicalPath after := by
  unfold CanonicalPath
  rw [List.splitOn_append_cons_self]
  simp only [List.mem_append, or_imp, forall_and]

lemma CanonicalPath.slashes {path : Path} (h : CanonicalPath path) :
    path.head? ≠ some '/' ∧ path.getLast? ≠ some '/' ∧ ¬ ['/', '/'] <:+: path := by
  have hempty : ¬ CanonicalPath [] := fun h => h.ne_nil rfl
  refine ⟨?_, ?_, ?_⟩
  · intro hhead
    obtain ⟨rest, rfl⟩ := List.head?_eq_some_iff.mp hhead
    have hrest : CanonicalPath ([] ++ '/' :: rest) := h
    exact hempty (canonicalPath_append.mp hrest).1
  · intro hlast
    obtain ⟨rest, rfl⟩ := List.getLast?_eq_some_iff.mp hlast
    exact hempty (canonicalPath_append.mp h).2
  · rintro ⟨before, after, rfl⟩
    rw [List.append_assoc] at h
    have hafter : CanonicalPath ([] ++ '/' :: after) := (canonicalPath_append.mp h).2
    exact hempty (canonicalPath_append.mp hafter).1

lemma Canonical.path {seg : Path} (h : Canonical seg) : CanonicalPath seg := by
  intro seg' hseg'
  rw [List.splitOn_eq_singleton h.noSlash, List.mem_singleton] at hseg'
  rwa [hseg']

lemma CanonicalPath.segment {path : Path} (h : CanonicalPath path) (hno : '/' ∉ path) :
    Canonical path :=
  h path (by rw [List.splitOn_eq_singleton hno, List.mem_singleton])

/-! ## What the server makes of the form fields -/

lemma parentParts_canonical {pieces parts : List Path}
    (hpieces : ∀ piece ∈ pieces, ∀ c ∈ piece, isSeparator c = false)
    (h : parentParts pieces = .ok parts) : ∀ part ∈ parts, Canonical part := by
  induction pieces generalizing parts with
  | nil =>
    cases h
    simp
  | cons piece pieces ih =>
    have htail := fun piece' hp => hpieces piece' (List.mem_cons_of_mem piece hp)
    unfold parentParts at h
    dsimp only at h
    split at h
    · exact ih htail h
    · case isFalse hkeep =>
      split at h
      · cases h
      · case isFalse hdots =>
        split at h
        · case h_1 parts' hok =>
          cases h
          intro part hpart
          rcases List.mem_cons.mp hpart with rfl | hpart
          · exact {
              nonempty := fun he => hkeep (Or.inl he)
              trimmed := trimBy_trimBy
              noSeparator := fun c hc => hpieces piece List.mem_cons_self c (mem_trimBy hc)
              notDot := fun he => hkeep (Or.inr he)
              notDots := hdots }
          · exact ih htail hok part hpart
        · cases h

lemma parentParts_of_canonical {pieces : List Path} (h : ∀ piece ∈ pieces, Canonical piece) :
    parentParts pieces = .ok pieces := by
  induction pieces with
  | nil => rfl
  | cons piece pieces ih =>
    have hpiece := h piece List.mem_cons_self
    unfold parentParts
    simp only [hpiece.trimmed, hpiece.nonempty, hpiece.notDot, hpiece.notDots, or_self, if_false]
    rw [ih fun piece' hp => h piece' (List.mem_cons_of_mem piece hp)]

lemma splitOnP_congr {p q : Char → Bool} {text : List Char} (h : ∀ c ∈ text, p c = q c) :
    text.splitOnP p = text.splitOnP q := by
  induction text with
  | nil => rfl
  | cons c text ih =>
    rw [List.splitOnP_cons_eq_if_modifyHead, List.splitOnP_cons_eq_if_modifyHead,
      h c List.mem_cons_self, ih fun d hd => h d (List.mem_cons_of_mem c hd)]

lemma mem_segment {path : Path} {c : Char} (hc : c ∈ path) :
    c = '/' ∨ ∃ seg ∈ path.splitOn '/', c ∈ seg := by
  induction path with
  | nil => exact absurd hc List.not_mem_nil
  | cons d path ih =>
    rw [List.splitOn_cons_eq_if_modifyHead]
    split
    · case isTrue hd =>
      rcases List.mem_cons.mp hc with rfl | hc
      · exact Or.inl (beq_iff_eq.mp hd)
      · rcases ih hc with rfl | ⟨seg, hseg, hm⟩
        · exact Or.inl rfl
        · exact Or.inr ⟨seg, List.mem_cons_of_mem _ hseg, hm⟩
    · cases hsplit : path.splitOn '/' with
      | nil => exact absurd hsplit (List.splitOn_ne_nil '/' path)
      | cons first segs =>
        rw [hsplit] at ih
        rw [List.modifyHead_cons]
        rcases List.mem_cons.mp hc with rfl | hc
        · exact Or.inr ⟨c :: first, List.mem_cons_self, List.mem_cons_self⟩
        · rcases ih hc with rfl | ⟨seg, hseg, hm⟩
          · exact Or.inl rfl
          · right
            rcases List.mem_cons.mp hseg with rfl | hseg
            · exact ⟨d :: seg, List.mem_cons_self, List.mem_cons_of_mem d hm⟩
            · exact ⟨seg, List.mem_cons_of_mem _ hseg, hm⟩

lemma splitOnP_of_canonical {path : Path} (h : CanonicalPath path) :
    path.splitOnP isSeparator = path.splitOn '/' := by
  rw [List.splitOn_eq_splitOnP]
  apply splitOnP_congr
  intro c hc
  rcases mem_segment hc with rfl | ⟨seg, hseg, hm⟩
  · rfl
  · have hsep := (h seg hseg).noSeparator c hm
    rw [hsep]
    simp only [isSeparator, Bool.or_eq_false_iff] at hsep
    exact hsep.1.symm

lemma normalizeParent_canonical {parent : Path} (h : CanonicalPath parent) :
    normalizeParent parent = .ok parent := by
  unfold normalizeParent
  rw [splitOnP_of_canonical h, parentParts_of_canonical h]
  exact congrArg Except.ok (List.intercalate_splitOn '/')

lemma normalizeParent_nil : normalizeParent [] = .ok [] := rfl

lemma fileBasename_canonical {filename : Path} (h : Canonical filename) :
    fileBasename filename = filename := by
  unfold fileBasename
  rw [h.trimmed, List.splitOnP_eq_singleton h.noSeparator]
  exact h.trimmed

lemma fileBasename_canonical_of_ok {filename : Path}
    (h : ¬ (fileBasename filename = [] ∨ fileBasename filename = ['.'] ∨
      fileBasename filename = ['.', '.'])) : Canonical (fileBasename filename) where
  nonempty := fun he => h (Or.inl he)
  trimmed := trimBy_trimBy
  noSeparator := by
    intro c hc
    have hpieces : ∀ piece ∈ (trim filename).splitOnP isSeparator, ∀ c ∈ piece,
        isSeparator c = false := splitOnP_pieces
    have hc' := mem_trimBy hc
    cases hsplit : (trim filename).splitOnP isSeparator with
    | nil => exact absurd hsplit (List.splitOnP_ne_nil _ _)
    | cons first pieces =>
      rw [hsplit] at hpieces hc'
      rw [List.getLastD_cons] at hc'
      exact hpieces _ List.getLastD_mem_cons c hc'
  notDot := fun he => h (Or.inr (Or.inl he))
  notDots := fun he => h (Or.inr (Or.inr he))

/-- Every path the server makes of an upload is canonical, and it is the normalized parent with a
    segment behind it. -/
lemma constructPath_ok {parent filename path : Path} (h : constructPath parent filename = .ok path) :
    ∃ folder, normalizeParent parent = .ok folder ∧ Canonical (fileBasename filename) ∧
      path = (if folder = [] then fileBasename filename
        else folder ++ '/' :: fileBasename filename) ∧ CanonicalPath path := by
  unfold constructPath at h
  split at h
  · cases h
  · case h_2 folder hfolder =>
    dsimp only at h
    split at h
    · cases h
    · case isFalse hname =>
      have hbase := fileBasename_canonical_of_ok hname
      by_cases hfolderPath : isFolderPath (if folder = [] then fileBasename filename
          else folder ++ '/' :: fileBasename filename) = true
      · rw [if_pos hfolderPath] at h
        cases h
      · rw [if_neg hfolderPath] at h
        have hpath := Except.ok.inj h
        refine ⟨folder, hfolder, hbase, hpath.symm, ?_⟩
        rw [← hpath]
        split
        · exact hbase.path
        · case isFalse hne =>
          refine canonicalPath_append.mpr ⟨?_, hbase.path⟩
          unfold normalizeParent at hfolder
          split at hfolder
          · case h_1 parts hparts =>
            have hcanon := parentParts_canonical splitOnP_pieces hparts
            have hpne : parts ≠ [] := by
              rintro rfl
              cases hfolder
              exact hne rfl
            cases hfolder
            intro seg hseg
            rw [splitOn_intercalate hcanon hpne] at hseg
            exact hcanon seg hseg
          · cases hfolder

lemma constructPath_canonical {parent filename : Path} (hname : Canonical filename)
    (hparent : parent = [] ∨ CanonicalPath parent) :
    constructPath parent filename =
      .ok (if parent = [] then filename else parent ++ '/' :: filename) := by
  have hnorm : normalizeParent parent = .ok parent := by
    rcases hparent with rfl | hparent
    · exact normalizeParent_nil
    · exact normalizeParent_canonical hparent
  have hpath : CanonicalPath (if parent = [] then filename else parent ++ '/' :: filename) := by
    split
    · exact hname.path
    · case isFalse hne =>
      exact canonicalPath_append.mpr ⟨hparent.resolve_left hne, hname.path⟩
  have hnot : isFolderPath (if parent = [] then filename else parent ++ '/' :: filename) = false := by
    unfold isFolderPath
    exact beq_eq_false_iff_ne.mpr hpath.slashes.2.1
  unfold constructPath
  rw [hnorm]
  simp only [fileBasename_canonical hname, hname.nonempty, hname.notDot, hname.notDots, or_self,
    if_false, hnot, Bool.false_eq_true]

/-! ## What an info request looks up -/

lemma removeDots_of_noDots {segs : List Path} (h : ∀ seg ∈ segs, seg ≠ ['.'] ∧ seg ≠ ['.', '.'])
    (seen : List Path) : removeDots seen segs = some (seen.reverse ++ segs) := by
  induction segs generalizing seen with
  | nil => simp [removeDots]
  | cons seg segs ih =>
    obtain ⟨hdot, hdots⟩ := h seg List.mem_cons_self
    unfold removeDots
    rw [if_neg hdots, if_neg hdot, ih fun seg' hseg' => h seg' (List.mem_cons_of_mem seg hseg')]
    simp

end Sarca.Server
