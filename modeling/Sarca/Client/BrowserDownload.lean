import Sarca.Client.FileDownload

/-!
# A download in the browser

`downloadWithProgress` of `index.js`: a probe for the size, four requests for the parts of a large file
(`downloadFileRanged`), and one request for all of it where that throws. An `Answer` is sent of the version that
the file has when the request is answered, and its body may be cut short.

The ranges are disjoint and make up the file (`rangesFit`). `oneVersion_iff` says when the blob is a version of
the file.
-/

namespace Sarca.Client.BrowserDownload
open Sarca.Lib Sarca.Server Sarca.Client.FileDownload

/-- A body that ends after so many bytes; `noticed` where the reader throws. -/
structure Cut where
  length : Nat
  noticed : Bool
deriving DecidableEq, Repr

/-- What `fetch` gives for a request. -/
inductive Answer where
  /-- it throws, or the status is neither `ok` nor 206 -/
  | error
  /-- 206, with the range that was asked for -/
  | range (version : Bytes) (cut : Option Cut)
  /-- 200, with the whole body -/
  | whole (version : Bytes) (cut : Option Cut)
deriving DecidableEq, Repr

def Answer.version? : Answer → Option Bytes
  | .error => none
  | .range version _ | .whole version _ => some version

/-- A call, with the versions that the file has during it. -/
structure Call where
  versions : List Bytes
  isFolder : Bool
  /-- there is an access token -/
  token : Bool
  /-- the signal is aborted when the parts have thrown -/
  aborted : Bool
  probe : Answer
  part : Nat → Answer
  /-- the last answer that `apiRequest` has to the request for the whole file -/
  plain : Answer
  probe_served : ∀ v ∈ probe.version?, v ∈ versions
  part_served : ∀ i, ∀ v ∈ (part i).version?, v ∈ versions
  plain_served : ∀ v ∈ plain.version?, v ∈ versions

/-! ## The code -/

/-- What is read of a body, unless the reader throws. -/
def read (body : Bytes) : Option Cut → Option Bytes
  | none => some body
  | some cut => if cut.noticed then none else some (body.take cut.length)

def slice (v : Bytes) (r : Nat × Nat) : Bytes :=
  (v.drop r.1).take (r.2 + 1 - r.1)

/-- JS `fetchRangePart`. -/
def fetchRangePart (answer : Answer) (r : Nat × Nat) : Option Bytes :=
  match answer with
  | .error => none
  | .range v cut => read (slice v r) cut
  | .whole v cut => read v cut

/-- JS `consumeResponseWithProgress`, of an answer to a request without a range. -/
def consumeResponse : Answer → Option Bytes
  | .error => none
  | .range v cut | .whole v cut => read v cut

/-- JS `PARALLEL_DOWNLOAD_PARTS`. -/
def partCount : Nat := 4

/-- The ranges that `downloadFileRanged` asks for; `start <= end` says that there is a byte before `stop`. -/
def browserRanges (total : Nat) : List (Nat × Nat) :=
  let partSize := divCeil total partCount
  (List.range partCount).filterMap fun i =>
    let start := i * partSize
    let stop := min (start + partSize) total
    if start < stop then some (start, stop - 1) else none

/-- JS `Promise.all`, of the parts in the order of their ranges. -/
def fetchParts (part : Nat → Answer) (total : Nat) : Option (List Bytes) :=
  (browserRanges total).zipIdx.mapM fun r => fetchRangePart (part r.2) r.1

/-- JS `downloadFileRanged`. -/
def downloadFileRanged (c : Call) : Option Bytes :=
  if !c.token then none
  else
    match c.probe with
    | .error => none
    | .whole v cut => read v cut
    | .range v _ =>
      if v.length < parallelDownloadThresholdBytes then none
      else (fetchParts c.part v.length).map List.flatten

/-- JS `downloadWithProgress`: the blob, or none where it throws. -/
def downloadWithProgress (c : Call) : Option Bytes :=
  if c.isFolder then consumeResponse c.plain
  else
    match downloadFileRanged c with
    | some blob => some blob
    | none => if c.aborted then none else consumeResponse c.plain

/-! ## What a download is for -/

/-- The ranges of any size are disjoint, in order, and cover it. -/
def BrowserRangesFit : Prop :=
  ∀ total, (browserRanges total).Pairwise (fun r r' => r.2 < r'.1) ∧
    ∀ k, (∃ r ∈ browserRanges total, r.1 ≤ k ∧ k ≤ r.2) ↔ k < total

/-- The blob is a version of the file, and the ranges are those of its parts. -/
structure OneVersion (c : Call) : Prop where
  blob : ∀ blob, downloadWithProgress c = some blob → blob ∈ c.versions
  ranges : BrowserRangesFit

/-- Each body is what the version has where the body comes to lie, and the last one ends with it. -/
def Fits (v : Bytes) : List Bytes → Prop
  | [] => v = []
  | body :: rest => body <+: v ∧ Fits (v.drop body.length) rest

/-- The probe is answered with a range of a file that is large enough. -/
def InParts (c : Call) (total : Nat) : Prop :=
  c.isFolder = false ∧ c.token = true ∧ parallelDownloadThresholdBytes ≤ total ∧
    ∃ v cut, c.probe = .range v cut ∧ v.length = total

/-- The file is asked for as a whole: for a folder, or where what was tried before it throws. -/
def InOne (c : Call) : Prop :=
  c.isFolder = true ∨ c.aborted = false ∧ downloadFileRanged c = none

/-- What is sent fits to a version: the parts where all of them arrive, and otherwise the one body. -/
structure Fitting (c : Call) : Prop where
  parts : ∀ total, InParts c total → ∀ bodies, fetchParts c.part total = some bodies →
    ∃ v ∈ c.versions, Fits v bodies
  probe : c.isFolder = false → c.token = true → ∀ v cut, c.probe = .whole v cut → ∀ body ∈ read v cut,
    ∃ v ∈ c.versions, Fits v [body]
  plain : InOne c → ∀ body ∈ consumeResponse c.plain, ∃ v ∈ c.versions, Fits v [body]

/-- A body that is cut short makes the reader throw. -/
def Answer.Noticed : Answer → Prop
  | .error => True
  | .range _ cut | .whole _ cut => ∀ cut' ∈ cut, cut'.noticed = true

/-- The file is not replaced between the probe and the parts, each part is answered with its range, and no body
    is cut short without notice. -/
structure Steady (c : Call) : Prop where
  parts : ∀ v cut, c.probe = .range v cut → ∀ i, ∀ w ∈ (c.part i).version?, ∃ cut, c.part i = .range v cut
  noticed : c.probe.Noticed ∧ c.plain.Noticed ∧ ∀ i, (c.part i).Noticed

/-! ## The ranges -/

lemma browserRanges_pos {total : Nat} (h : 0 < total) :
    browserRanges total = rangesUpTo total (divCeil total partCount) partCount := by
  have hpos : 0 < divCeil total partCount := divCeil_pos h (by decide)
  rw [browserRanges, rangesUpTo, List.filter_map, ← List.filterMap_eq_map, List.filterMap_filter]
  refine List.filterMap_congr fun i _ => ?_
  have hiff := @rangeAt_nonempty total (divCeil total partCount) hpos h i
  simp only [Function.comp_apply, decide_eq_true_iff]
  refine if_congr (Iff.trans ?_ hiff.symm) rfl rfl
  omega

theorem rangesFit : BrowserRangesFit := by
  intro total
  rcases Nat.eq_zero_or_pos total with rfl | h
  · have : browserRanges 0 = [] := by decide
    rw [this]
    refine ⟨List.Pairwise.nil, fun k => iff_of_false ?_ (Nat.not_lt_zero k)⟩
    exact fun ⟨r, hr, _⟩ => absurd hr List.not_mem_nil
  · have hpos : 0 < divCeil total partCount := divCeil_pos h (by decide)
    rw [browserRanges_pos h]
    refine ⟨rangesUpTo_pairwise hpos h _, fun k => ?_⟩
    rw [mem_rangesUpTo hpos h, Nat.min_eq_right (le_mul_divCeil total (by decide))]

lemma slices_browserRanges (v : Bytes) : ((browserRanges v.length).map (slice v)).flatten = v := by
  rcases Nat.eq_zero_or_pos v.length with h | h
  · rw [h, List.length_eq_zero_iff.mp h]
    decide
  · have hpos : 0 < divCeil v.length partCount := divCeil_pos h (by decide)
    rw [browserRanges_pos h, ← List.flatMap_def]
    exact (slices_rangesUpTo hpos h _).trans (List.take_of_length_le (le_mul_divCeil _ (by decide)))

/-! ## The bodies -/

lemma fits_iff {v : Bytes} {bodies : List Bytes} : Fits v bodies ↔ v = bodies.flatten := by
  induction bodies generalizing v with
  | nil => rfl
  | cons body rest ih =>
    rw [Fits, ih, List.flatten_cons]
    constructor
    · rintro ⟨⟨after, rfl⟩, h⟩
      rw [List.drop_left] at h
      rw [h]
    · rintro rfl
      exact ⟨List.prefix_append _ _, List.drop_left⟩

lemma fits_singleton {v body : Bytes} : Fits v [body] ↔ v = body := by
  rw [fits_iff, List.flatten_singleton]

variable {c : Call} {blob : Bytes}

lemma exists_fits {bodies : List Bytes} : (∃ v ∈ c.versions, Fits v bodies) ↔ bodies.flatten ∈ c.versions := by
  simp only [fits_iff, exists_eq_right]

/-! ## What a call gives -/

lemma downloadFileRanged_probe {v : Bytes} {cut : Option Cut} (htoken : c.token = true)
    (h : c.probe = .whole v cut) : downloadFileRanged c = read v cut := by
  rw [downloadFileRanged, htoken, h]
  rfl

lemma downloadFileRanged_parts {total : Nat} (h : InParts c total) :
    downloadFileRanged c = (fetchParts c.part total).map List.flatten := by
  obtain ⟨-, htoken, hlarge, v, cut, hprobe, rfl⟩ := h
  rw [downloadFileRanged, htoken, hprobe]
  exact if_neg (Nat.not_lt.mpr hlarge)

lemma downloadFileRanged_some (hfile : c.isFolder = false) (h : downloadFileRanged c = some blob) :
    c.token = true ∧ ((∃ v cut, c.probe = .whole v cut ∧ read v cut = some blob) ∨
      ∃ total, InParts c total ∧ ∃ bodies, fetchParts c.part total = some bodies ∧ blob = bodies.flatten) := by
  rw [downloadFileRanged] at h
  split at h
  · cases h
  · case isFalse htoken =>
    have htoken : c.token = true := by simpa using htoken
    refine ⟨htoken, ?_⟩
    cases hprobe : c.probe with
    | error =>
      rw [hprobe] at h
      cases h
    | whole v cut =>
      rw [hprobe] at h
      exact Or.inl ⟨v, cut, rfl, h⟩
    | range v cut =>
      rw [hprobe] at h
      dsimp only at h
      split at h
      · cases h
      · case isFalse hlarge =>
        obtain ⟨bodies, hbodies, rfl⟩ := Option.map_eq_some_iff.mp h
        have hparts : InParts c v.length := ⟨hfile, htoken, Nat.le_of_not_lt hlarge, v, cut, hprobe, rfl⟩
        exact Or.inr ⟨v.length, hparts, bodies, hbodies, rfl⟩

lemma downloadWithProgress_ranged (hfile : c.isFolder = false) (h : downloadFileRanged c = some blob) :
    downloadWithProgress c = some blob := by
  rw [downloadWithProgress, hfile, h]
  rfl

lemma downloadWithProgress_plain (h : InOne c) : downloadWithProgress c = consumeResponse c.plain := by
  rw [downloadWithProgress]
  rcases h with hfolder | ⟨haborted, hranged⟩
  · rw [if_pos hfolder]
  · rw [hranged, haborted]
    split <;> rfl

lemma downloadWithProgress_some (h : downloadWithProgress c = some blob) :
    c.isFolder = false ∧ downloadFileRanged c = some blob ∨ InOne c ∧ consumeResponse c.plain = some blob := by
  rw [downloadWithProgress] at h
  split at h
  case isTrue hfolder => exact Or.inr ⟨Or.inl hfolder, h⟩
  case isFalse hfile =>
    cases hranged : downloadFileRanged c with
    | some found =>
      rw [hranged] at h
      exact Or.inl ⟨by simpa using hfile, h⟩
    | none =>
      rw [hranged] at h
      dsimp only at h
      split at h
      · cases h
      · case isFalse haborted => exact Or.inr ⟨Or.inr ⟨by simpa using haborted, hranged⟩, h⟩

lemma oneVersion_fitting : OneVersion c ↔ Fitting c := by
  constructor
  · rintro ⟨h, -⟩
    refine ⟨fun total hparts bodies hbodies => ?_, fun hfile htoken v cut hprobe body hbody => ?_,
      fun hone body hbody => ?_⟩
    · have hranged := downloadFileRanged_parts hparts
      rw [hbodies] at hranged
      exact exists_fits.mpr (h _ (downloadWithProgress_ranged hparts.1 hranged))
    · have hranged := (downloadFileRanged_probe htoken hprobe).trans hbody
      exact ⟨body, h _ (downloadWithProgress_ranged hfile hranged), fits_singleton.mpr rfl⟩
    · exact ⟨body, h _ ((downloadWithProgress_plain hone).trans hbody), fits_singleton.mpr rfl⟩
  · intro h
    refine ⟨fun blob hblob => ?_, rangesFit⟩
    rcases downloadWithProgress_some hblob with ⟨hfile, hranged⟩ | ⟨hone, hplain⟩
    · obtain ⟨htoken, ⟨v, cut, hprobe, hread⟩ | ⟨total, hparts, bodies, hbodies, rfl⟩⟩ :=
        downloadFileRanged_some hfile hranged
      · obtain ⟨w, hw, hfits⟩ := h.probe hfile htoken v cut hprobe blob hread
        exact fits_singleton.mp hfits ▸ hw
      · exact exists_fits.mp (h.parts total hparts bodies hbodies)
    · obtain ⟨w, hw, hfits⟩ := h.plain hone blob hplain
      exact fits_singleton.mp hfits ▸ hw

/-! ## A file that stays -/

lemma read_noticed {v body : Bytes} {cut : Option Cut} (hcut : ∀ cut' ∈ cut, cut'.noticed = true)
    (h : read v cut = some body) : body = v := by
  cases cut with
  | none => exact (Option.some.inj h).symm
  | some cut =>
    rw [read, if_pos (hcut cut rfl)] at h
    cases h

lemma consumeResponse_noticed {answer : Answer} {body : Bytes} (hnoticed : answer.Noticed)
    (h : consumeResponse answer = some body) : body ∈ answer.version? := by
  cases answer with
  | error => cases h
  | range v cut => exact congrArg some (read_noticed hnoticed h).symm
  | whole v cut => exact congrArg some (read_noticed hnoticed h).symm

lemma mapM_eq_map {α β : Type*} {f : α → Option β} {g : α → β} {xs : List α} {ys : List β}
    (hfg : ∀ x ∈ xs, ∀ y ∈ f x, y = g x) (h : xs.mapM f = some ys) : ys = xs.map g := by
  induction xs generalizing ys with
  | nil => exact (Option.some.inj h).symm
  | cons x xs ih =>
    rw [List.mapM_cons] at h
    obtain ⟨y, hy, h⟩ := Option.bind_eq_some_iff.mp h
    obtain ⟨rest, hrest, h⟩ := Option.bind_eq_some_iff.mp h
    obtain rfl := Option.some.inj h
    rw [List.map_cons, hfg x List.mem_cons_self y hy, ih (fun z hz => hfg z (List.mem_cons_of_mem _ hz)) hrest]

lemma fetchParts_steady (h : Steady c) {v : Bytes} {cut : Option Cut} (hprobe : c.probe = .range v cut)
    {bodies : List Bytes} (hbodies : fetchParts c.part v.length = some bodies) : bodies.flatten = v := by
  have hpart : ∀ r ∈ (browserRanges v.length).zipIdx, ∀ body ∈ fetchRangePart (c.part r.2) r.1,
      body = slice v r.1 := by
    intro r _ body hbody
    cases hanswer : c.part r.2 with
    | error =>
      rw [hanswer] at hbody
      cases hbody
    | whole w cut' =>
      obtain ⟨_, h'⟩ := h.parts v cut hprobe r.2 w (hanswer ▸ rfl)
      rw [hanswer] at h'
      cases h'
    | range w cut' =>
      obtain ⟨_, h'⟩ := h.parts v cut hprobe r.2 w (hanswer ▸ rfl)
      have hnoticed := h.noticed.2.2 r.2
      rw [hanswer] at h' hbody hnoticed
      obtain ⟨rfl, rfl⟩ := Answer.range.inj h'
      exact read_noticed hnoticed hbody
  have heq : (browserRanges v.length).zipIdx.map (fun r => slice v r.1) =
      (browserRanges v.length).map (slice v) := by
    conv_rhs => rw [← List.zipIdx_map_fst 0 (browserRanges v.length), List.map_map]
    rfl
  rw [mapM_eq_map hpart hbodies, heq, slices_browserRanges]

lemma Steady.fitting (h : Steady c) : Fitting c := by
  refine ⟨fun total hparts bodies hbodies => ?_, fun _ _ v cut hprobe body hbody => ?_, fun _ body hbody => ?_⟩
  · obtain ⟨-, -, -, v, cut, hprobe, rfl⟩ := hparts
    refine ⟨v, c.probe_served v (hprobe ▸ rfl), fits_iff.mpr ?_⟩
    exact (fetchParts_steady h hprobe hbodies).symm
  · have hnoticed := h.noticed.1
    rw [hprobe] at hnoticed
    exact ⟨v, c.probe_served v (hprobe ▸ rfl), fits_singleton.mpr (read_noticed hnoticed hbody).symm⟩
  · exact ⟨body, c.plain_served body (consumeResponse_noticed h.noticed.2.1 hbody), fits_singleton.mpr rfl⟩

/-- The blob is a version of the file just when what is sent fits to one, and it does where the file stays, the
    server keeps to the ranges and a body that is cut short is noticed. -/
theorem oneVersion_iff (c : Call) : (OneVersion c ↔ Fitting c) ∧ (Steady c → Fitting c) :=
  ⟨oneVersion_fitting, Steady.fitting⟩

/-! ## Blobs that no version is -/

/-- A file of as many bytes as are fetched in parts. -/
def filled (x : UInt8) : Bytes :=
  List.replicate parallelDownloadThresholdBytes x

/-- A file of zeros that one of ones takes the place of, with the answers to its parts. -/
def callOf (part : Nat → Answer) (hpart : ∀ i, ∀ v ∈ (part i).version?, v ∈ [filled 0, filled 1]) :
    Call where
  versions := [filled 0, filled 1]
  isFolder := false
  token := true
  aborted := false
  probe := .range (filled 0) none
  part := part
  plain := .error
  probe_served _ hv := Option.some.inj hv ▸ List.mem_cons_self
  part_served := hpart
  plain_served := nofun

/-- The other file is there behind the first part. -/
def replaced : Call :=
  callOf (fun i => .range (if i = 0 then filled 0 else filled 1) none) fun i _ hv => by
    rw [← Option.some.inj hv]
    split <;> simp

def unranged : Call :=
  callOf (fun _ => .whole (filled 0) none) fun _ _ hv => Option.some.inj hv ▸ List.mem_cons_self

/-- Nothing arrives of the parts, and nothing tells it. -/
def truncated : Call :=
  callOf (fun _ => .range (filled 0) (some ⟨0, false⟩)) fun _ _ hv => Option.some.inj hv ▸ List.mem_cons_self

lemma filled_length (x : UInt8) : (filled x).length = parallelDownloadThresholdBytes :=
  List.length_replicate

lemma callOf_ranges : browserRanges parallelDownloadThresholdBytes =
    [(0, 2097151), (2097152, 4194303), (4194304, 6291455), (6291456, 8388607)] := by decide

lemma not_oneVersion {part : Nat → Answer} {hpart : ∀ i, ∀ v ∈ (part i).version?, v ∈ [filled 0, filled 1]}
    {bodies : List Bytes} (hbodies : fetchParts part parallelDownloadThresholdBytes = some bodies)
    (h : bodies.flatten ∉ [filled 0, filled 1]) : ¬ OneVersion (callOf part hpart) := by
  intro hone
  have hparts : InParts (callOf part hpart) parallelDownloadThresholdBytes :=
    ⟨rfl, rfl, Nat.le_refl _, filled 0, none, rfl, filled_length 0⟩
  exact h (exists_fits.mp ((oneVersion_fitting.mp hone).parts _ hparts bodies hbodies))

lemma slice_filled {x : UInt8} {r : Nat × Nat} (hr : r.2 < parallelDownloadThresholdBytes) :
    slice (filled x) r = List.replicate (r.2 + 1 - r.1) x := by
  rw [slice, filled, List.drop_replicate, List.take_replicate]
  congr 1
  omega

lemma not_mem_of_length {blob : Bytes} (h : blob.length ≠ parallelDownloadThresholdBytes) :
    blob ∉ [filled 0, filled 1] := by
  intro hmem
  rcases List.mem_pair.mp hmem with rfl | rfl
  · exact h (filled_length 0)
  · exact h (filled_length 1)

/-- A file that is replaced, a range that is ignored and a body that is cut short go unseen. -/
lemma blobs_mixed : ¬ OneVersion replaced ∧ ¬ OneVersion unranged ∧ ¬ OneVersion truncated := by
  have hreplaced : fetchParts (fun i => .range (if i = 0 then filled 0 else filled 1) none)
      parallelDownloadThresholdBytes = some [slice (filled 0) (0, 2097151), slice (filled 1) (2097152, 4194303),
        slice (filled 1) (4194304, 6291455), slice (filled 1) (6291456, 8388607)] := by
    rw [fetchParts, callOf_ranges]
    rfl
  have hunranged : fetchParts (fun _ => .whole (filled 0) none) parallelDownloadThresholdBytes =
      some [filled 0, filled 0, filled 0, filled 0] := by
    rw [fetchParts, callOf_ranges]
    rfl
  have htruncated : fetchParts (fun _ => .range (filled 0) (some ⟨0, false⟩)) parallelDownloadThresholdBytes =
      some [[], [], [], []] := by
    rw [fetchParts, callOf_ranges]
    rfl
  refine ⟨not_oneVersion hreplaced fun hmem => ?_, not_oneVersion hunranged (not_mem_of_length ?_),
    not_oneVersion htruncated (not_mem_of_length (by decide))⟩
  · rw [slice_filled (by decide), slice_filled (by decide), slice_filled (by decide), slice_filled (by decide)]
      at hmem
    have hzero : (0 : UInt8) ∈ [List.replicate 2097152 (0 : UInt8), List.replicate 2097152 1,
        List.replicate 2097152 1, List.replicate 2097152 1].flatten :=
      List.mem_flatten_of_mem List.mem_cons_self (List.mem_replicate.mpr ⟨by decide, rfl⟩)
    have hone : (1 : UInt8) ∈ [List.replicate 2097152 (0 : UInt8), List.replicate 2097152 1,
        List.replicate 2097152 1, List.replicate 2097152 1].flatten :=
      List.mem_flatten_of_mem (List.mem_cons_of_mem _ List.mem_cons_self)
        (List.mem_replicate.mpr ⟨by decide, rfl⟩)
    rcases List.mem_pair.mp hmem with heq | heq
    · exact absurd (List.eq_of_mem_replicate (heq ▸ hone)) (by decide)
    · exact absurd (List.eq_of_mem_replicate (heq ▸ hzero)) (by decide)
  · simp only [List.flatten_cons, List.flatten_nil, List.append_nil, List.length_append, filled_length]
    decide

end Sarca.Client.BrowserDownload
