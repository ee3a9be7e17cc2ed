import Sarca.Server.Segments

/-!
# The paths of an import

Where an import puts what it finds (`joinTarget`, `normalizeTarget` of `services/import/mod.rs`), the folders
its scan makes (`ensureFolder`, `scan`) and what it does with one file (`copyItem`), as far as it writes rows
of files.
-/

namespace Sarca.Server
open Sarca.Lib

/-- The parts of a path that `join_target` keeps; `.` and `..` are refused. -/
def targetParts : List Path → Option (List Path)
  | [] => some []
  | piece :: pieces =>
    let segment := trim piece
    if segment = [] then targetParts pieces
    else if segment = ['.'] ∨ segment = ['.', '.'] then none
    else (targetParts pieces).map (segment :: ·)

/-- `target/rel` as a storage path (Rust `join_target`). -/
def joinTarget (target rel : Path) : Option Path :=
  match targetParts (target.splitOnP isSeparator ++ rel.splitOn '/') with
  | some (part :: parts) => some (['/'].intercalate (part :: parts))
  | _ => none

/-- The folder an import lands in (Rust `normalize_target`), which is made as the parent of an upload is. -/
def normalizeTarget (raw : Path) : Except SarcaError Path :=
  normalizeParent raw

/-- A file of the source, with what its download brings. -/
structure ImportItem where
  relPath : Path
  size : Int
  sourceMtime : Option Instant
  body : Bytes
  hash : ContentHash
  chunkSize : Nat
  chunkSize_pos : 0 < chunkSize

/-! ## The parts of a target -/

variable {pieces parts : List Path} {target rel path : Path}

lemma targetParts_plain (hpieces : ∀ piece ∈ pieces, '/' ∉ piece) (h : targetParts pieces = some parts) :
    ∀ part ∈ parts, PlainSegment part ∧ '/' ∉ part := by
  induction pieces generalizing parts with
  | nil =>
    cases h
    exact fun part hpart => absurd hpart List.not_mem_nil
  | cons piece pieces ih =>
    have htail := fun piece' hp => hpieces piece' (List.mem_cons_of_mem piece hp)
    unfold targetParts at h
    dsimp only at h
    split at h
    · exact ih htail h
    · case isFalse hblank =>
      split at h
      · cases h
      · case isFalse hdots =>
        obtain ⟨parts', hparts', rfl⟩ := Option.map_eq_some_iff.mp h
        intro part hpart
        cases List.mem_cons.mp hpart with
        | inr hpart => exact ih htail hparts' part hpart
        | inl heq =>
          subst heq
          refine ⟨⟨?_, fun he => hdots (Or.inl he), fun he => hdots (Or.inr he)⟩, fun hslash => ?_⟩
          · show trim (trim piece) ≠ []
            have htrim : trim (trim piece) = trim piece := trimBy_trimBy
            rwa [htrim]
          · exact hpieces piece List.mem_cons_self (mem_trimBy hslash)

lemma plainPath_intercalate (h : ∀ part ∈ parts, PlainSegment part ∧ '/' ∉ part) (hne : parts ≠ []) :
    PlainPath (['/'].intercalate parts) := by
  unfold PlainPath
  rw [List.splitOn_intercalate '/' (fun part hpart => (h part hpart).2) hne]
  exact fun part hpart => (h part hpart).1

lemma joinTarget_plain (h : joinTarget target rel = some path) : PlainPath path := by
  unfold joinTarget at h
  split at h
  · case h_1 part parts hparts =>
    cases h
    refine plainPath_intercalate (targetParts_plain ?_ hparts) (List.cons_ne_nil part parts)
    intro piece hpiece hslash
    cases List.mem_append.mp hpiece with
    | inl hpiece =>
      have hno := splitOnP_pieces piece hpiece '/' hslash
      cases hno
    | inr hpiece => exact slash_notMem_segment hpiece hslash
  · cases h

lemma CanonicalPath.plain (h : CanonicalPath path) : PlainPath path := by
  intro seg hseg
  have hcanon := h seg hseg
  exact ⟨by rw [hcanon.trimmed]; exact hcanon.nonempty, hcanon.notDot, hcanon.notDots⟩

lemma normalizeTarget_plain (h : normalizeTarget target = .ok path) : path = [] ∨ PlainPath path := by
  unfold normalizeTarget normalizeParent at h
  split at h
  · case h_1 parts hparts =>
    cases h
    have hcanon := parentParts_canonical splitOnP_pieces hparts
    cases parts with
    | nil => exact Or.inl rfl
    | cons part parts =>
      right
      refine plainPath_intercalate (fun part' hpart => ?_) (List.cons_ne_nil part parts)
      have hc := hcanon part' hpart
      exact ⟨⟨by rw [hc.trimmed]; exact hc.nonempty, hc.notDot, hc.notDots⟩, hc.noSlash⟩
  · cases h

/-! ## What the runner does -/

namespace ImportRunner
open Service

/-- A folder is made; one that is there already answers an error, which is passed over. -/
def tryCreateFolder (w : World) (storageId : Uuid) (folder : Path) : Service Unit := do
  let db ← Script.store
  let op := RowOp.createFolder (InFile.new folder 0 storageId) (w.freshId db 0)
  match attempt db op with
  | .ok _ => row op
  | .error _ => pure ()

/-- The folders above and at a path, outermost first; those that were made before are left out. -/
def ensureSegments (w : World) (storageId : Uuid) :
    Path → List Path → List Path → Service (List Path)
  | _, [], created => pure created
  | before, segment :: segments, created =>
    let folder := before ++ segment ++ ['/']
    if folder ∈ created then ensureSegments w storageId folder segments created
    else do
      tryCreateFolder w storageId folder
      ensureSegments w storageId folder segments (folder :: created)

/-- Create a path and every folder above it, once per scan (Rust `ensure_folder`). -/
def ensureFolder (w : World) (storageId : Uuid) (path : Path) (created : List Path) :
    Service (List Path) :=
  ensureSegments w storageId [] ((path.splitOn '/').filter (· ≠ [])) created

/-- The folders of the source, as they are found. -/
def ensureDirs (w : World) (storageId : Uuid) (targetPath : Path) :
    List Path → List Path → Service Unit
  | [], _ => pure ()
  | rel :: rels, created =>
    match joinTarget targetPath rel with
    | some folder => do
      let created ← ensureFolder w storageId folder created
      ensureDirs w storageId targetPath rels created
    | none => ensureDirs w storageId targetPath rels created

/-- The folders that a scan makes (Rust `scan`); `dirs` are the source's folders it came to. -/
def scan (w : World) (storageId : Uuid) (targetPath : Path) (dirs : List Path) : Service Unit := do
  let created ← ensureFolder w storageId targetPath []
  ensureDirs w storageId targetPath dirs created

/-- One file of the source, up to the end of its relay (Rust `copy_item`). -/
def copyItem (w : World) (fate : FilesService.UploadFate) (storageId : Uuid) (targetPath : Path)
    (item : ImportItem) : Service Unit :=
  match h : joinTarget targetPath item.relPath with
  | none => pure ()
  | some path => do
    let db ← Script.store
    -- already here, by its size
    if (db.liveAt storageId path).any fun file => file.isUploaded && file.size = item.size then pure ()
    else
      FilesService.upload w fate
        { storageId := storageId
          path := path
          body := item.body
          chunkSize := item.chunkSize
          sourceCreatedAt := item.sourceMtime
          sourceMtime := item.sourceMtime
          contentHash := some item.hash
          replace := false
          isFile := (joinTarget_plain h).isFile
          chunkSize_pos := item.chunkSize_pos }

end ImportRunner

end Sarca.Server
