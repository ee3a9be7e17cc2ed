import Mathlib.Data.List.Basic
import Mathlib.Data.Nat.Init
import Sarca.Lib.Text
import Sarca.Server.Chunks

/-!
# A download and its parts

`download_to` of `api.rs` asks for one byte to learn a file's size, and then for the file: whole, or in up to four
parts at once. `route` is the choice, `downloadTo` what is on disk behind the call. What the server answers and
which calls of the system fail are arguments; `Faults.left` is what the parts have on disk when the first of them
fails, and `Faults.late` the files that a dropped part still makes when they were to be gone.

The ranges are disjoint and make up the file (`ranges_pairwise`, `mem_ranges`, `slices_ranges`).
`oneWholeVersion_iff` says when what is on disk is one version of the file, or what it was.
-/

namespace Sarca.Client
open Sarca.Lib Sarca.Server

namespace FileDownload

/-- Rust `MAX_DOWNLOAD_BYTES`. -/
def maxDownloadBytes : Nat := 16 * 1024 * 1024 * 1024

/-- Rust `PARALLEL_DOWNLOAD_THRESHOLD_BYTES`. -/
def parallelDownloadThresholdBytes : Nat := 8 * 1024 * 1024

/-- Rust `PARALLEL_DOWNLOAD_PARTS`. -/
def parallelDownloadParts : Nat := 4

/-- Rust `div_ceil`. -/
def divCeil (a b : Nat) : Nat :=
  (a + (b - 1)) / b

/-- The `i`-th of the ranges of a size, with its last byte. -/
def rangeAt (total partSize i : Nat) : Nat × Nat :=
  (i * partSize, min (i * partSize + partSize) total - 1)

/-- The ranges that `download_parallel` asks for. -/
def ranges (total : Nat) : List (Nat × Nat) :=
  let parts := min parallelDownloadParts (divCeil total parallelDownloadThresholdBytes)
  ((List.range parts).map (rangeAt total (divCeil total parts))).filter fun r => r.1 ≤ r.2

/-- An answer, with the frames of its body; behind them the stream or the disk fails where it is `broken`. -/
structure Response where
  status : Nat
  contentRange : Option (List Char)
  contentLength : Option Nat
  createFails : Bool
  frames : List Bytes
  broken : Bool

/-- Rust `error_for_status`. -/
def errorForStatus (r : Response) : Option Response :=
  if 400 ≤ r.status ∧ r.status < 600 then none else some r

/-- What the server answers to the probe, to the request for the file, and to those for its parts. -/
structure Answers where
  probe : Option Response
  plain : Option Response
  part : Nat → Option Response

structure Faults where
  createDir : Bool
  rename : Bool
  removeTmp : Bool
  removePart : Nat → Bool
  left : Nat → Option Bytes
  late : Nat → Bool
  /-- the parts cannot be put together, with what was written of them -/
  assemble : Option (Option Bytes)

/-- What a call leaves: its result, the destination, and the scratch files. -/
structure Outcome where
  ok : Bool
  dest : Option Bytes
  scratch : List Bytes
deriving DecidableEq, Repr

/-- The loop of `write_response_body` over the frames. -/
def receive (broken : Bool) : Bytes → List Bytes → Bytes × Bool
  | file, [] => (file, !broken)
  | file, frame :: frames =>
    if maxDownloadBytes < file.length + frame.length then (file, false)
    else receive broken (file ++ frame) frames

/-- Rust `write_response_body`: the file it leaves, and whether it succeeds. -/
def writeResponseBody (r : Response) : Option Bytes × Bool :=
  if (r.contentLength.any fun len => maxDownloadBytes < len) || r.createFails then (none, false)
  else (some (receive r.broken [] r.frames).1, (receive r.broken [] r.frames).2)

/-- Rust `write_response_atomically`. -/
def writeResponseAtomically (dest : Option Bytes) (r : Response) (f : Faults) : Outcome :=
  if (writeResponseBody r).2 && !f.rename then ⟨true, (writeResponseBody r).1, []⟩
  else ⟨false, dest, if f.removeTmp then (writeResponseBody r).1.toList else []⟩

/-- What a part has written when its request and its body went well. -/
def fetchPart (a : Answers) (i : Nat) : Option Bytes :=
  ((a.part i).bind errorForStatus).bind fun r =>
    if (writeResponseBody r).2 then (writeResponseBody r).1 else none

def leftover (f : Faults) (i : Nat) : Option Bytes :=
  if f.late i then some [] else if f.removePart i then f.left i else none

/-- Rust `download_parallel` of so many parts. -/
def downloadParallel (dest : Option Bytes) (n : Nat) (a : Answers) (f : Faults) : Outcome :=
  match (List.range n).mapM (fetchPart a) with
  | none => ⟨false, dest, (List.range n).filterMap (leftover f)⟩
  | some bodies =>
    let kept := (List.range n).filterMap fun i => if f.removePart i then bodies[i]? else none
    let tmp (file : Option Bytes) := if f.removeTmp then file.toList else []
    match f.assemble with
    | some file => ⟨false, dest, tmp file ++ kept⟩
    | none =>
      if f.rename then ⟨false, dest, tmp (some bodies.flatten) ++ kept⟩ else ⟨true, some bodies.flatten, kept⟩

/-- The size in a `Content-Range` header. -/
def totalLen (r : Response) : Option Nat :=
  r.contentRange.bind fun v => parseU64 ((v.splitOn '/').getLastD [])

/-- How the file is fetched, once its size is known. -/
inductive Route where
  | whole (r : Response)
  | parts (n : Nat) (total : Nat)

/-- The choice that `download_to` makes behind the probe, or none where it gives up. -/
def route (a : Answers) : Option Route :=
  (a.probe.bind errorForStatus).bind fun probe =>
    if probe.status ≠ 206 then some (.whole probe)
    else
      (totalLen probe).bind fun total =>
        if maxDownloadBytes < total then none
        else if total < parallelDownloadThresholdBytes then (a.plain.bind errorForStatus).map .whole
        else some (.parts (ranges total).length total)

/-- Rust `download_to`, over what lies at the destination. -/
def downloadTo (dest : Option Bytes) (a : Answers) (f : Faults) : Outcome :=
  if f.createDir then ⟨false, dest, []⟩
  else
    match route a with
    | none => ⟨false, dest, []⟩
    | some (.whole r) => writeResponseAtomically dest r f
    | some (.parts n _) => downloadParallel dest n a f

/-! ## What a download is for -/

/-- The ranges of a file are disjoint, in order, and cover it. -/
def RangesFit : Prop :=
  ∀ total, 0 < total → (ranges total).Pairwise (fun r r' => r.2 < r'.1) ∧
    ∀ k, (∃ r ∈ ranges total, r.1 ≤ k ∧ k ≤ r.2) ↔ k < total

/-- The call leaves one of the versions, or what there was and nothing else. -/
structure OneWholeVersion (versions : List Bytes) (dest : Option Bytes) (a : Answers) (f : Faults) : Prop where
  ok : (downloadTo dest a f).ok = true → ∃ v ∈ versions, (downloadTo dest a f).dest = some v
  err : (downloadTo dest a f).ok = false →
    (downloadTo dest a f).dest = dest ∧ (downloadTo dest a f).scratch = []
  ranges : RangesFit

def Response.body (r : Response) : Bytes :=
  r.frames.flatten

def Arrives (r : Response) : Prop :=
  (∀ len ∈ r.contentLength, len ≤ maxDownloadBytes) ∧ r.createFails = false ∧ r.broken = false ∧
    r.body.length ≤ maxDownloadBytes

def PartsArrive (a : Answers) (n : Nat) : Prop :=
  ∀ i < n, ∃ r, (a.part i).bind errorForStatus = some r ∧ Arrives r

def Succeeds (a : Answers) (f : Faults) : Prop :=
  f.createDir = false ∧ f.rename = false ∧
    ((∃ r, route a = some (.whole r) ∧ Arrives r) ∨
      ∃ n total, route a = some (.parts n total) ∧ PartsArrive a n ∧ f.assemble = none)

def partBody (a : Answers) (i : Nat) : Bytes :=
  (((a.part i).bind errorForStatus).map Response.body).getD []

/-- The bytes that the server sends for the file are a version of it. -/
def AddsUp (versions : List Bytes) (a : Answers) : Prop :=
  (∀ r, route a = some (.whole r) → r.body ∈ versions) ∧
    ∀ n total, route a = some (.parts n total) → (List.range n).flatMap (partBody a) ∈ versions

/-- Each scratch file that was made is removed, and none is made behind its removal. -/
def Cleared (a : Answers) (f : Faults) : Prop :=
  f.createDir = false →
    (∀ r, route a = some (.whole r) → f.removeTmp = true → (writeResponseBody r).1 = none) ∧
    ∀ n total, route a = some (.parts n total) →
      (PartsArrive a n → (∀ i < n, f.removePart i = false) ∧ (f.removeTmp = true → f.assemble = some none)) ∧
      (¬PartsArrive a n → ∀ i < n, f.late i = false ∧ (f.removePart i = true → f.left i = none))

/-- The server sends the file, or the parts of it that it is asked for, as it stands in one version. -/
def Honest (v : Bytes) (a : Answers) : Prop :=
  (∀ r, route a = some (.whole r) → r.body = v) ∧
    ∀ n total, route a = some (.parts n total) → v.length = total ∧
      ∀ i r, (ranges total)[i]? = some r → partBody a i = (v.drop r.1).take (r.2 + 1 - r.1)

/-! ## The ranges -/

section Ranges

variable {total partSize : Nat}

/-- The ranges of the first parts, before the empty ones at the end are left out. -/
def rangesUpTo (total partSize n : Nat) : List (Nat × Nat) :=
  ((List.range n).map (rangeAt total partSize)).filter fun r => r.1 ≤ r.2

lemma rangeAt_nonempty (hpos : 0 < partSize) (htotal : 0 < total) {i : Nat} :
    (rangeAt total partSize i).1 ≤ (rangeAt total partSize i).2 ↔ i * partSize < total := by
  unfold rangeAt
  dsimp only
  omega

lemma rangesUpTo_succ (hpos : 0 < partSize) (htotal : 0 < total) (n : Nat) :
    rangesUpTo total partSize (n + 1) = rangesUpTo total partSize n ++
      if n * partSize < total then [rangeAt total partSize n] else [] := by
  unfold rangesUpTo
  rw [List.range_succ, List.map_append, List.filter_append, List.map_singleton, List.filter_singleton,
    Bool.cond_decide]
  simp only [rangeAt_nonempty hpos htotal]

lemma mem_rangesUpTo_lt (hpos : 0 < partSize) {n : Nat} {r : Nat × Nat} (h : r ∈ rangesUpTo total partSize n) :
    r.2 < n * partSize := by
  obtain ⟨hmem, hle⟩ := List.mem_filter.mp h
  obtain ⟨i, hi, rfl⟩ := List.mem_map.mp hmem
  have hin : i + 1 ≤ n := List.mem_range.mp hi
  have hmul := Nat.mul_le_mul_right partSize hin
  rw [Nat.add_mul, Nat.one_mul] at hmul
  unfold rangeAt
  dsimp only
  omega

lemma rangesUpTo_pairwise (hpos : 0 < partSize) (htotal : 0 < total) (n : Nat) :
    (rangesUpTo total partSize n).Pairwise fun r r' => r.2 < r'.1 := by
  induction n with
  | zero => exact List.Pairwise.nil
  | succ n ih =>
    rw [rangesUpTo_succ hpos htotal]
    refine List.pairwise_append.mpr ⟨ih, ?_, fun r hr r' hr' => ?_⟩
    · split
      · exact List.pairwise_singleton ..
      · exact List.Pairwise.nil
    · split at hr'
      · rw [List.mem_singleton.mp hr']
        exact mem_rangesUpTo_lt hpos hr
      · exact absurd hr' List.not_mem_nil

lemma mem_rangesUpTo (hpos : 0 < partSize) (htotal : 0 < total) (n k : Nat) :
    (∃ r ∈ rangesUpTo total partSize n, r.1 ≤ k ∧ k ≤ r.2) ↔ k < min (n * partSize) total := by
  induction n with
  | zero =>
    rw [Nat.zero_mul, Nat.zero_min]
    exact iff_of_false (fun ⟨r, hr, _⟩ => absurd hr List.not_mem_nil) (Nat.not_lt_zero k)
  | succ n ih =>
    rw [rangesUpTo_succ hpos htotal]
    have hsucc : (n + 1) * partSize = n * partSize + partSize := by rw [Nat.add_mul, Nat.one_mul]
    simp only [List.mem_append, or_and_right, exists_or, ih]
    split
    · case isTrue hlt =>
      simp only [List.mem_singleton, exists_eq_left, rangeAt]
      omega
    · case isFalse hge =>
      simp only [List.not_mem_nil, false_and, exists_false, or_false]
      omega

lemma slices_rangesUpTo (hpos : 0 < partSize) {v : Bytes} (htotal : 0 < v.length) (n : Nat) :
    (rangesUpTo v.length partSize n).flatMap (fun r => (v.drop r.1).take (r.2 + 1 - r.1)) =
      v.take (n * partSize) := by
  induction n with
  | zero => rw [Nat.zero_mul, List.take_zero]; rfl
  | succ n ih =>
    rw [rangesUpTo_succ hpos htotal, List.flatMap_append, ih, Nat.add_mul, Nat.one_mul]
    split
    · case isTrue hlt =>
      have hlen : (rangeAt v.length partSize n).2 + 1 - (rangeAt v.length partSize n).1 =
          min partSize (v.length - n * partSize) := by
        unfold rangeAt
        dsimp only
        omega
      rw [List.flatMap_singleton, hlen, List.take_add]
      unfold rangeAt
      dsimp only
      rw [← List.length_drop]
      exact congrArg (v.take (n * partSize) ++ ·) List.take_eq_take_min.symm
    · case isFalse hge =>
      rw [List.flatMap_nil, List.append_nil, List.take_of_length_le (Nat.le_of_not_lt hge),
        List.take_of_length_le (by omega)]

lemma le_mul_divCeil (a : Nat) {b : Nat} (hb : 0 < b) : a ≤ b * divCeil a b := by
  have hmod := Nat.mod_lt (a + (b - 1)) hb
  have hdiv := Nat.div_add_mod (a + (b - 1)) b
  unfold divCeil
  omega

lemma divCeil_pos {a b : Nat} (ha : 0 < a) (hb : 0 < b) : 0 < divCeil a b :=
  Nat.div_pos (by omega) hb

lemma parts_cover (htotal : 0 < total) : ∃ n partSize, 0 < partSize ∧ total ≤ n * partSize ∧
    ranges total = rangesUpTo total partSize n := by
  have hparts : 0 < min parallelDownloadParts (divCeil total parallelDownloadThresholdBytes) :=
    Nat.lt_min.mpr ⟨by decide, divCeil_pos htotal (by decide)⟩
  exact ⟨_, _, divCeil_pos htotal hparts, le_mul_divCeil total hparts, rfl⟩

/-- The ranges are disjoint, and in the order of the file. -/
theorem ranges_pairwise (htotal : 0 < total) : (ranges total).Pairwise fun r r' => r.2 < r'.1 := by
  obtain ⟨n, partSize, hpos, -, hranges⟩ := parts_cover htotal
  rw [hranges]
  exact rangesUpTo_pairwise hpos htotal n

/-- The ranges cover the bytes of the file, and no more. -/
theorem mem_ranges (htotal : 0 < total) (k : Nat) :
    (∃ r ∈ ranges total, r.1 ≤ k ∧ k ≤ r.2) ↔ k < total := by
  obtain ⟨n, partSize, hpos, hcover, hranges⟩ := parts_cover htotal
  rw [hranges, mem_rangesUpTo hpos htotal, Nat.min_eq_right hcover]

/-- The slices of a file at its ranges make up the file. -/
theorem slices_ranges {v : Bytes} (htotal : 0 < v.length) :
    (ranges v.length).flatMap (fun r => (v.drop r.1).take (r.2 + 1 - r.1)) = v := by
  obtain ⟨n, partSize, hpos, hcover, hranges⟩ := parts_cover htotal
  rw [hranges, slices_rangesUpTo hpos htotal, List.take_of_length_le hcover]

end Ranges

/-! ## The body of an answer -/

lemma receive_snd (broken : Bool) (file : Bytes) (frames : List Bytes) :
    (receive broken file frames).2 = true ↔
      (frames = [] ∨ file.length + frames.flatten.length ≤ maxDownloadBytes) ∧ broken = false := by
  induction frames generalizing file with
  | nil => simp [receive]
  | cons frame frames ih =>
    unfold receive
    split
    · case isTrue hover =>
      refine iff_of_false Bool.false_ne_true fun ⟨hfits, _⟩ => ?_
      rcases hfits with hnil | hfits
      · exact absurd hnil (List.cons_ne_nil _ _)
      · rw [List.flatten_cons, List.length_append] at hfits
        omega
    · case isFalse hfits =>
      rw [ih, List.length_append, List.flatten_cons, List.length_append, ← Nat.add_assoc]
      refine and_congr_left' ⟨fun h => .inr ?_, fun h => .inr (h.resolve_left (List.cons_ne_nil _ _))⟩
      rcases h with rfl | h
      · exact Nat.le_of_not_lt hfits
      · exact h

lemma receive_fst {broken : Bool} {file : Bytes} {frames : List Bytes}
    (h : (receive broken file frames).2 = true) : (receive broken file frames).1 = file ++ frames.flatten := by
  induction frames generalizing file with
  | nil => exact (List.append_nil file).symm
  | cons frame frames ih =>
    unfold receive at h ⊢
    split at h
    · exact absurd h Bool.false_ne_true
    · case isFalse hfits =>
      rw [if_neg hfits, ih h, List.append_assoc, List.flatten_cons]

lemma writeResponseBody_snd (r : Response) : (writeResponseBody r).2 = true ↔ Arrives r := by
  have hempty : r.frames = [] → r.frames.flatten.length ≤ maxDownloadBytes := by
    intro h
    rw [h]
    exact Nat.zero_le _
  have hreceive := receive_snd r.broken [] r.frames
  rw [List.length_nil, Nat.zero_add, or_iff_right_of_imp hempty, And.comm] at hreceive
  unfold writeResponseBody Arrives Response.body
  cases hcreate : r.createFails with
  | true => simp
  | false =>
    cases hlen : r.contentLength with
    | none => simpa using hreceive
    | some len =>
      rcases Nat.lt_or_ge maxDownloadBytes len with hover | hfits
      · simp [hover]
      · simpa [hfits, Nat.not_lt.mpr hfits] using hreceive

lemma writeResponseBody_fst {r : Response} (h : Arrives r) : (writeResponseBody r).1 = some r.body := by
  have hsnd := (writeResponseBody_snd r).mpr h
  unfold writeResponseBody at hsnd ⊢
  split at hsnd
  · exact absurd hsnd Bool.false_ne_true
  · case isFalse hopen =>
    rw [if_neg hopen, receive_fst hsnd]
    rfl

/-! ## The parts -/

lemma fetchPart_eq_some {a : Answers} {i : Nat} {body : Bytes} :
    fetchPart a i = some body ↔
      (∃ r, (a.part i).bind errorForStatus = some r ∧ Arrives r) ∧ body = partBody a i := by
  unfold fetchPart partBody
  cases (a.part i).bind errorForStatus with
  | none => simp
  | some r =>
    simp only [Option.bind_some, Option.map_some, Option.getD_some, Option.some.injEq, exists_eq_left']
    split
    · case isTrue h =>
      have harrives := (writeResponseBody_snd r).mp h
      rw [writeResponseBody_fst harrives, Option.some.injEq]
      exact ⟨fun h => ⟨harrives, h.symm⟩, fun h => h.2.symm⟩
    · case isFalse h =>
      exact iff_of_false (Option.some_ne_none body).symm fun ⟨harrives, _⟩ =>
        h ((writeResponseBody_snd r).mpr harrives)

lemma mapM_fetchPart {a : Answers} {is : List Nat}
    (h : ∀ i ∈ is, ∃ r, (a.part i).bind errorForStatus = some r ∧ Arrives r) :
    is.mapM (fetchPart a) = some (is.map (partBody a)) := by
  induction is with
  | nil => rfl
  | cons i is ih =>
    obtain ⟨hi, his⟩ := List.forall_mem_cons.mp h
    rw [List.mapM_cons, fetchPart_eq_some.mpr ⟨hi, rfl⟩, ih his]
    rfl

lemma mapM_fetchPart_none {a : Answers} {is : List Nat}
    (h : ¬∀ i ∈ is, ∃ r, (a.part i).bind errorForStatus = some r ∧ Arrives r) :
    is.mapM (fetchPart a) = none := by
  induction is with
  | nil => exact absurd (fun _ hi => absurd hi List.not_mem_nil) h
  | cons i is ih =>
    rw [List.mapM_cons]
    cases hi : fetchPart a i with
    | none => rfl
    | some body =>
      have hhead := (fetchPart_eq_some.mp hi).1
      rw [ih fun htail => h (List.forall_mem_cons.mpr ⟨hhead, htail⟩)]
      rfl

variable {versions : List Bytes} {dest : Option Bytes} {a : Answers} {f : Faults}

/-! ## What a call leaves -/

lemma whole_ok {r : Response} : (writeResponseAtomically dest r f).ok = true ↔ f.rename = false ∧ Arrives r := by
  unfold writeResponseAtomically
  split
  · case isTrue h =>
    rw [Bool.and_eq_true, writeResponseBody_snd, Bool.not_eq_true'] at h
    exact iff_of_true rfl h.symm
  · case isFalse h =>
    rw [Bool.and_eq_true, writeResponseBody_snd, Bool.not_eq_true'] at h
    exact iff_of_false Bool.false_ne_true fun h' => h h'.symm

lemma whole_dest {r : Response} (h : f.rename = false ∧ Arrives r) :
    (writeResponseAtomically dest r f).dest = some r.body := by
  unfold writeResponseAtomically
  rw [if_pos (by rw [(writeResponseBody_snd r).mpr h.2, h.1]; rfl), writeResponseBody_fst h.2]

lemma whole_fails {r : Response} (h : ¬(f.rename = false ∧ Arrives r)) :
    writeResponseAtomically dest r f =
      ⟨false, dest, if f.removeTmp then (writeResponseBody r).1.toList else []⟩ := by
  unfold writeResponseAtomically
  rw [if_neg]
  rw [Bool.and_eq_true, writeResponseBody_snd, Bool.not_eq_true']
  exact fun h' => h h'.symm

/-- The part files that are left where every part has arrived. -/
def kept (a : Answers) (f : Faults) (n : Nat) : List Bytes :=
  (List.range n).filterMap fun i => if f.removePart i then ((List.range n).map (partBody a))[i]? else none

lemma kept_eq_nil {n : Nat} : kept a f n = [] ↔ ∀ i < n, f.removePart i = false := by
  unfold kept
  rw [List.filterMap_eq_nil_iff]
  refine forall_congr' fun i => ?_
  rw [List.mem_range]
  refine forall_congr' fun hi => ?_
  cases f.removePart i <;> simp [hi]

lemma parts_ok {n : Nat} : (downloadParallel dest n a f).ok = true ↔
    f.rename = false ∧ PartsArrive a n ∧ f.assemble = none := by
  unfold downloadParallel
  by_cases harrive : PartsArrive a n
  · rw [mapM_fetchPart fun i hi => harrive i (List.mem_range.mp hi)]
    cases f.assemble with
    | some file => simp
    | none => cases f.rename <;> simp [harrive]
  · rw [mapM_fetchPart_none fun h => harrive fun i hi => h i (List.mem_range.mpr hi)]
    simp [harrive]

lemma parts_dest {n : Nat} (h : f.rename = false ∧ PartsArrive a n ∧ f.assemble = none) :
    (downloadParallel dest n a f).dest = some ((List.range n).flatMap (partBody a)) := by
  unfold downloadParallel
  rw [mapM_fetchPart fun i hi => h.2.1 i (List.mem_range.mp hi), h.2.2, h.1, List.flatMap_def]
  rfl

lemma parts_fails {n : Nat} (h : ¬(f.rename = false ∧ PartsArrive a n ∧ f.assemble = none)) :
    (downloadParallel dest n a f).dest = dest ∧
      ((downloadParallel dest n a f).scratch = [] ↔
        (PartsArrive a n → (∀ i < n, f.removePart i = false) ∧ (f.removeTmp = true → f.assemble = some none)) ∧
        (¬PartsArrive a n → ∀ i < n, f.late i = false ∧ (f.removePart i = true → f.left i = none))) := by
  by_cases harrive : PartsArrive a n
  · have heq : ∃ file, downloadParallel dest n a f =
        ⟨false, dest, (if f.removeTmp then file.toList else []) ++ kept a f n⟩ ∧
          (file = none ↔ f.assemble = some none) := by
      unfold downloadParallel kept
      rw [mapM_fetchPart fun i hi => harrive i (List.mem_range.mp hi)]
      cases hasm : f.assemble with
      | some file => exact ⟨file, rfl, by rw [Option.some.injEq]⟩
      | none =>
        have hrename : f.rename = true := by
          rw [← Bool.not_eq_false]
          exact fun hrename => h ⟨hrename, harrive, hasm⟩
        simp only [hrename]
        exact ⟨_, rfl, by simp⟩
    obtain ⟨file, heq, hfile⟩ := heq
    rw [heq, List.append_eq_nil_iff, kept_eq_nil]
    refine ⟨rfl, ?_⟩
    rw [← hfile]
    cases f.removeTmp <;> simp [harrive, and_comm]
  · have heq : downloadParallel dest n a f = ⟨false, dest, (List.range n).filterMap (leftover f)⟩ := by
      unfold downloadParallel
      rw [mapM_fetchPart_none fun h => harrive fun i hi => h i (List.mem_range.mpr hi)]
    rw [heq]
    refine ⟨rfl, ?_⟩
    simp only [harrive, false_imp_iff, true_and, not_false_eq_true, true_imp_iff, List.filterMap_eq_nil_iff,
      List.mem_range]
    refine forall₂_congr fun i _ => ?_
    unfold leftover
    cases f.late i <;> cases f.removePart i <;> simp

lemma downloadTo_ok : (downloadTo dest a f).ok = true ↔ Succeeds a f := by
  unfold downloadTo Succeeds
  cases f.createDir with
  | true => simp
  | false =>
    cases hroute : route a with
    | none => simp
    | some r =>
      cases r with
      | whole r => simp [whole_ok]
      | parts n total => simp [parts_ok]

lemma downloadTo_dest (h : Succeeds a f) :
    (∃ v ∈ versions, (downloadTo dest a f).dest = some v) ↔ AddsUp versions a := by
  obtain ⟨hdir, hrename, ⟨r, hroute, harrives⟩ | ⟨n, total, hroute, harrive, hasm⟩⟩ := h
  · have hdest : (downloadTo dest a f).dest = some r.body := by
      unfold downloadTo
      simp only [hdir, hroute, Bool.false_eq_true, if_false]
      exact whole_dest ⟨hrename, harrives⟩
    simp [hdest, AddsUp, hroute]
  · have hdest : (downloadTo dest a f).dest = some ((List.range n).flatMap (partBody a)) := by
      unfold downloadTo
      simp only [hdir, hroute, Bool.false_eq_true, if_false]
      exact parts_dest ⟨hrename, harrive, hasm⟩
    simp only [hdest, AddsUp, hroute, Option.some.injEq, exists_eq_right', reduceCtorEq, false_imp_iff,
      implies_true, true_and, Route.parts.injEq, and_imp]
    exact ⟨fun h n' total' hn _ => hn ▸ h, fun h => h n total rfl rfl⟩

lemma downloadTo_fails (h : ¬Succeeds a f) :
    (downloadTo dest a f).dest = dest ∧ ((downloadTo dest a f).scratch = [] ↔ Cleared a f) := by
  unfold Succeeds at h
  unfold downloadTo Cleared
  cases hdir : f.createDir with
  | true => simp
  | false =>
    cases hroute : route a with
    | none => simp
    | some r =>
      cases r with
      | whole r =>
        have hfails : ¬(f.rename = false ∧ Arrives r) := fun hs => h ⟨hdir, hs.1, .inl ⟨r, hroute, hs.2⟩⟩
        simp only [Bool.false_eq_true, if_false, whole_fails hfails]
        cases f.removeTmp <;> simp
      | parts n total =>
        have hfails : ¬(f.rename = false ∧ PartsArrive a n ∧ f.assemble = none) := fun hs =>
          h ⟨hdir, hs.1, .inr ⟨n, total, hroute, hs.2⟩⟩
        obtain ⟨hdest, hscratch⟩ := @parts_fails dest a f n hfails
        simp only [Bool.false_eq_true, if_false, hdest, hscratch, true_and, true_imp_iff, Option.some.injEq,
          reduceCtorEq, false_imp_iff, implies_true, Route.parts.injEq]
        exact ⟨fun hclear n' total' hn => hn.1 ▸ hclear, fun hclear => hclear n total ⟨rfl, rfl⟩⟩

/-! ## The claim -/

lemma route_parts {n total : Nat} (h : route a = some (.parts n total)) :
    n = (ranges total).length ∧ 0 < total := by
  unfold route at h
  obtain ⟨probe, -, h⟩ := Option.bind_eq_some_iff.mp h
  split at h
  · cases h
  · obtain ⟨len, -, h⟩ := Option.bind_eq_some_iff.mp h
    split at h
    · cases h
    · split at h
      · obtain ⟨r, -, h⟩ := Option.map_eq_some_iff.mp h
        cases h
      · case isFalse hlarge =>
        obtain ⟨hn, rfl⟩ := Route.parts.inj (Option.some.inj h)
        have hthreshold : 0 < parallelDownloadThresholdBytes := by decide
        exact ⟨hn.symm, hthreshold.trans_le (Nat.le_of_not_lt hlarge)⟩

lemma flatMap_range {α β : Type*} {xs : List α} {g : Nat → List β} {h : α → List β}
    (hgh : ∀ i x, xs[i]? = some x → g i = h x) : (List.range xs.length).flatMap g = xs.flatMap h := by
  rw [List.flatMap_def, List.flatMap_def]
  refine congrArg List.flatten (List.ext_getElem (by simp) fun i hi _ => ?_)
  have hi : i < xs.length := by simpa using hi
  rw [List.getElem_map, List.getElem_map, List.getElem_range]
  exact hgh i _ (List.getElem?_eq_getElem hi)

lemma honest_addsUp {v : Bytes} (hv : v ∈ versions) (h : Honest v a) : AddsUp versions a := by
  obtain ⟨hwhole, hparts⟩ := h
  refine ⟨fun r hroute => hwhole r hroute ▸ hv, fun n total hroute => ?_⟩
  obtain ⟨rfl, hbody⟩ := hparts n total hroute
  obtain ⟨rfl, htotal⟩ := route_parts hroute
  rw [flatMap_range hbody, slices_ranges htotal]
  exact hv

/-- A download leaves one version of the file or what there was just where what the server sends adds up to a
version in a call that succeeds, and what was made is cleared away in one that fails. -/
theorem oneWholeVersion_iff (versions : List Bytes) (dest : Option Bytes) (a : Answers) (f : Faults) :
    (OneWholeVersion versions dest a f ↔
      (Succeeds a f → AddsUp versions a) ∧ (¬Succeeds a f → Cleared a f)) ∧
    ∀ v ∈ versions, Honest v a → AddsUp versions a := by
  refine ⟨⟨fun h => ⟨fun hs => ?_, fun hs => ?_⟩, fun ⟨hok, herr⟩ => ⟨fun hs => ?_, fun hs => ?_, ?_⟩⟩,
    fun v hv => honest_addsUp hv⟩
  · exact (downloadTo_dest hs).mp (h.ok (downloadTo_ok.mpr hs))
  · have hfalse : (downloadTo dest a f).ok = false := by
      rw [← Bool.not_eq_true, downloadTo_ok]
      exact hs
    exact (downloadTo_fails hs).2.mp (h.err hfalse).2
  · have hs := downloadTo_ok.mp hs
    exact (downloadTo_dest hs).mpr (hok hs)
  · have hs : ¬Succeeds a f := by
      rw [← @downloadTo_ok dest a f, hs]
      exact Bool.false_ne_true
    obtain ⟨hdest, hscratch⟩ := @downloadTo_fails dest a f hs
    exact ⟨hdest, hscratch.mpr (herr hs)⟩
  · exact fun total htotal => ⟨ranges_pairwise htotal, mem_ranges htotal⟩

/-- A file of `8388609` bytes that another takes the place of behind the first of its two parts. -/
def replacedInside (first second : Bytes) : Answers where
  probe := some ⟨206, some "bytes 0-0/8388609".toList, some 1, false, [first.take 1], false⟩
  plain := none
  part
    | 0 => some ⟨206, some "bytes 0-4194304/8388609".toList, some 4194305, false, [first], false⟩
    | _ => some ⟨206, some "bytes 4194305-8388608/8388609".toList, some 4194304, false, [second], false⟩

def noFaults : Faults := ⟨false, false, false, fun _ => false, fun _ => none, fun _ => false, none⟩

lemma route_replacedInside (first second : Bytes) :
    route (replacedInside first second) = some (.parts 2 8388609) := by
  have htotal : totalLen ⟨206, some "bytes 0-0/8388609".toList, some 1, false, [first.take 1], false⟩ =
      some 8388609 := by
    unfold totalLen
    exact (by decide : parseU64 (("bytes 0-0/8388609".toList.splitOn '/').getLastD []) = some 8388609)
  have hranges : (ranges 8388609).length = 2 := by decide
  rw [route, replacedInside, Option.bind_some, errorForStatus,
    if_neg fun h => absurd h.1 (by decide : ¬400 ≤ 206), Option.bind_some, if_neg fun h => h rfl, htotal,
    Option.bind_some, if_neg (by decide), if_neg (by decide), hranges]

lemma mixture_not_mem {m n k : Nat} (hm : 0 < m) (hn : 0 < n) {x y : UInt8} (hxy : x ≠ y) :
    List.replicate m x ++ List.replicate n y ∉ [List.replicate k x, List.replicate k y] := by
  intro h
  rcases List.mem_pair.mp h with heq | heq
  · have hy : y ∈ List.replicate k x := heq ▸ List.mem_append_right _ (List.mem_replicate.mpr ⟨hn.ne', rfl⟩)
    exact hxy (List.eq_of_mem_replicate hy).symm
  · have hx : x ∈ List.replicate k y := heq ▸ List.mem_append_left _ (List.mem_replicate.mpr ⟨hm.ne', rfl⟩)
    exact hxy (List.eq_of_mem_replicate hx)

lemma replacedInside_dest {first second : Bytes} (hfirst : first.length = 4194305)
    (hsecond : second.length = 4194304) (h : OneWholeVersion versions dest (replacedInside first second) noFaults) :
    first ++ second ∈ versions := by
  have hroute := route_replacedInside first second
  have hs : Succeeds (replacedInside first second) noFaults := by
    refine ⟨rfl, rfl, .inr ⟨2, 8388609, hroute, fun i _ => ?_, rfl⟩⟩
    cases i with
    | zero => exact ⟨_, rfl, by simp [Arrives, Response.body, maxDownloadBytes, hfirst]⟩
    | succ i => exact ⟨_, rfl, by simp [Arrives, Response.body, maxDownloadBytes, hsecond]⟩
  have hadds := ((downloadTo_dest hs).mp (h.ok (downloadTo_ok.mpr hs))).2 2 8388609 hroute
  simpa [replacedInside, partBody, errorForStatus, Response.body, List.range_succ] using hadds

theorem mixed_download :
    ¬OneWholeVersion [List.replicate 8388609 0, List.replicate 8388609 1] none
      (replacedInside (List.replicate 4194305 0) (List.replicate 4194304 1)) noFaults := fun h =>
  mixture_not_mem (by decide) (by decide) (by decide)
    (replacedInside_dest List.length_replicate List.length_replicate h)

end FileDownload

end Sarca.Client
