import Mathlib.Data.List.Infix
import Sarca.Client.Engine
import Sarca.Lib.Lines
import Sarca.Server.UploadProgress

/-!
# What an upload comes to

`drain_upload_progress` reads the lines that `ndjson_upload_progress_response` writes, in frames that are cut
anywhere, until it knows what became of the upload, its patience is over or the stream ends. `Upload` is the two
ends and the bytes between them. `verdicts_agree` says what each verdict rests on at the server,
`verdict_complete` which verdict a whole response leads to, and `frames_agree` that the frames do not matter.

`serde_json` is an argument, with what it has to do to the lines that were written (`Serde.Fits`).
-/

namespace Sarca.Client
open Sarca.Lib Sarca.Server

/-- `RELAY_CONFIRM_GRACE`, in seconds. -/
def relayConfirmGrace : Nat := 90

/-! ## Lines -/

/-- What the client asks of a JSON value: `phase` and `message`, where they are texts. -/
structure LineValue where
  phase : Option String
  message : Option String
deriving DecidableEq, Repr

/-- `serde_json` at both ends: how a line is written, without its end, and how the bytes of a line are read
    (`from_utf8`, `trim` and `from_str`), which nothing is read from if there are none. -/
structure Serde where
  write : ProgressLine → Bytes
  read : Bytes → Option LineValue
  blank : read [] = none

def newline : UInt8 := 10

def phaseName : ProgressPhase → String
  | .spooled => "spooled"
  | .telegram => "telegram"
  | .waiting => "waiting"
  | .heartbeat => "heartbeat"

def lineValue : ProgressLine → LineValue
  | .event ev => ⟨some (phaseName ev.phase), none⟩
  | .done => ⟨some "done", none⟩
  | .inProgress => ⟨some "in_progress", none⟩
  | .error message => ⟨some "error", some message⟩

/-- A line is an object in one line, which is read as it was written and not before its last brace. -/
structure Serde.Fits (s : Serde) (l : ProgressLine) : Prop where
  plain : newline ∉ s.write l
  ended : s.read (s.write l ++ [newline]) = some (lineValue l)
  whole : s.read (s.write l) = some (lineValue l)
  cut : ∀ p ∈ (s.write l).inits, p ≠ s.write l → s.read p = none

instance Serde.Fits.decidable (s : Serde) (l : ProgressLine) : Decidable (s.Fits l) :=
  decidable_of_iff (newline ∉ s.write l ∧ s.read (s.write l ++ [newline]) = some (lineValue l) ∧
      s.read (s.write l) = some (lineValue l) ∧ ∀ p ∈ (s.write l).inits, p ≠ s.write l → s.read p = none)
    ⟨fun ⟨h1, h2, h3, h4⟩ => ⟨h1, h2, h3, h4⟩, fun ⟨h1, h2, h3, h4⟩ => ⟨h1, h2, h3, h4⟩⟩

variable (s : Serde)

/-- Rust `ndjson_phase_is`. -/
def ndjsonPhaseIs (line : Bytes) (phase : String) : Bool :=
  (s.read line).any fun v => v.phase = some phase

/-- Rust `ndjson_error_message`. -/
def ndjsonErrorMessage (body : Bytes) : Option String :=
  (body.splitOn newline).findSome? fun line =>
    (s.read line).bind fun v =>
      if v.phase = some "error" then some (v.message.getD "Upload failed") else none

/-! ## The client -/

/-- What the loop of `drain_upload_progress` keeps. -/
structure Drain where
  pending : Bytes
  failure : Option String
  spooledAt : Option Nat
  done : Bool
deriving DecidableEq, Repr

/-- How it ends: with an outcome, with the server's error, or with a failure of the stream. -/
inductive DrainEnd where
  | outcome (o : UploadOutcome)
  | failed (message : String)
  | stalled
  | truncated
  | broken (timedOut : Bool)
deriving DecidableEq, Repr

inductive Arrival where
  | frame (chunk : Bytes)
  | end_
  | broken (timedOut : Bool)
  | silence
deriving DecidableEq, Repr

namespace Drain

def start : Drain :=
  ⟨[], none, none, false⟩

/-- A line that is complete; none if another relay has the bytes. -/
def line (now : Nat) (d : Drain) (line : Bytes) : Option Drain :=
  if ndjsonPhaseIs s line "in_progress" then none
  else
    some { d with
      failure := if d.failure = none then ndjsonErrorMessage s line else d.failure
      spooledAt := if d.spooledAt = none ∧ ndjsonPhaseIs s line "spooled" then some now else d.spooledAt
      done := if ndjsonPhaseIs s line "done" then true else d.done }

def frame (now : Nat) (d : Drain) (chunk : Bytes) : Option Drain :=
  let (lines, rest) := cutLines newline [] (d.pending ++ chunk)
  (lines.foldlM (line s now) d).map fun d => { d with pending := rest }

def finish (d : Drain) : DrainEnd :=
  let failure := if d.failure = none then ndjsonErrorMessage s d.pending else d.failure
  let done := d.done || (d.pending ≠ [] && ndjsonPhaseIs s d.pending "done")
  match failure with
  | some message => .failed message
  | none =>
    if done then .outcome .stored
    else if d.spooledAt.isSome then .outcome .handedOff
    else .truncated

/-- The server has had its time to confirm the relay. -/
def GraceOver (grace : Nat) (d : Drain) (now : Nat) : Prop :=
  ∃ at_ ∈ d.spooledAt, grace ≤ now - at_

instance GraceOver.decidable (grace : Nat) (d : Drain) (now : Nat) : Decidable (d.GraceOver grace now) :=
  match h : d.spooledAt with
  | none => isFalse fun ⟨_, hat, _⟩ => by rw [h] at hat; cases hat
  | some at_ =>
    if hle : grace ≤ now - at_ then isTrue ⟨at_, h, hle⟩
    else isFalse fun ⟨at', hat, hle'⟩ => by rw [h] at hat; cases hat; exact hle hle'

/-- One turn of the loop, which begins at `begun` and is woken at `now`. -/
def turn (grace : Nat) (d : Drain) (begun now : Nat) (a : Arrival) : Except DrainEnd Drain :=
  if d.GraceOver grace begun then .error (.outcome .handedOff)
  else
    match a with
    | .frame chunk =>
      match d.frame s now chunk with
      | some d => .ok d
      | none => .error (.outcome .handedOff)
    | .end_ => .error (d.finish s)
    | .broken timedOut => .error (.broken timedOut)
    | .silence => .error (if d.GraceOver grace now then .outcome .handedOff else .stalled)

end Drain

/-! ## Whose failure it is -/

inductive Cause where
  | serverBusy
  | readStalled
  | truncated
  | httpStatus (status : Nat)
  | reqwest (status : Option Nat)
  | uploadStalled
  | timedOut
  | other
deriving DecidableEq, Repr

/-- Rust `scope_for_status`. -/
def scopeForStatus (status : Nat) : FailureScope :=
  if status = 401 ∨ status = 403 then .link
  else if status = 408 ∨ status = 425 ∨ status = 429 then .link
  else if 500 ≤ status then .link
  else .file

/-- Rust `failure_scope`. -/
def failureScope : List Cause → FailureScope
  | [] => .file
  | .serverBusy :: _ => .busy
  | .readStalled :: _ | .truncated :: _ => .link
  | .httpStatus status :: _ => scopeForStatus status
  | .reqwest (some status) :: _ => scopeForStatus status
  | .reqwest none :: _ => .link
  | .uploadStalled :: _ | .timedOut :: _ => .link
  | .other :: causes => failureScope causes

/-- The chain of the error that the loop ends with; the server's words are an error of their own. -/
def DrainEnd.causes : DrainEnd → List Cause
  | .outcome _ => []
  | .failed _ => [.other]
  | .stalled => [.readStalled]
  | .truncated => [.truncated]
  | .broken true => [.timedOut]
  | .broken false => [.other, .reqwest none]

def DrainEnd.result : DrainEnd → Except FailureScope UploadOutcome
  | .outcome o => .ok o
  | e => .error (failureScope e.causes)

/-! ## Both ends -/

/-- The server, the bytes that have arrived, and the client. -/
structure Upload where
  server : UploadResponse
  got : Bytes
  drain : Drain
  verdict : Option DrainEnd

/-- What the client meets: the next bytes of the response, or how its stream ends. -/
inductive ClientArrival where
  | bytes (n : Nat)
  | end_
  | broken (timedOut : Bool)
  | silence

inductive UploadAct where
  | server (a : ResponseAct)
  | client (begun now : Nat) (a : ClientArrival)

namespace Upload

def start : Upload :=
  ⟨.start, [], .start, none⟩

def text (σ : Upload) : Bytes :=
  joinLines newline (σ.server.written.map s.write)

def chunk (σ : Upload) (n : Nat) : Bytes :=
  ((σ.text s).drop σ.got.length).take n

def arrival (σ : Upload) : ClientArrival → Arrival
  | .bytes n => .frame (σ.chunk s n)
  | .end_ => .end_
  | .broken timedOut => .broken timedOut
  | .silence => .silence

def arrived (σ : Upload) : ClientArrival → Bytes
  | .bytes n => σ.got ++ σ.chunk s n
  | .end_ | .broken _ | .silence => σ.got

def step (grace : Nat) (σ : Upload) : UploadAct → Upload
  | .server a => { σ with server := σ.server.step a }
  | .client begun now a =>
    if σ.verdict = none then
      match σ.drain.turn s grace begun now (σ.arrival s a) with
      | .ok d => { σ with got := σ.arrived s a, drain := d }
      | .error e => { σ with verdict := some e }
    else σ

/-- What the caller gets rests on what the server knows: the file is stored if the task said so, handed over if
    its bytes are spooled or another relay has them, and blamed for a failure if the task failed; and once the
    bytes are said to be spooled the task goes on without the client. -/
structure Agrees (σ : Upload) : Prop where
  stored : ∀ e ∈ σ.verdict, e.result = .ok .stored → σ.server.task = .ended .stored
  handedOff : ∀ e ∈ σ.verdict, e.result = .ok .handedOff →
    σ.server.Spooled ∨ σ.server.task = .ended .alreadyInProgress
  blamed : ∀ e ∈ σ.verdict, e.result = .error .file →
    ∃ message, σ.server.task = .ended (.failed message) ∨ σ.server.task = .ended (.panicked message)
  kept : σ.server.Spooled → σ.server.task ≠ .aborted

end Upload

/-- The verdict that the end of a task leads to. -/
def verdictOf : TaskEnd → DrainEnd
  | .stored => .outcome .stored
  | .alreadyInProgress => .outcome .handedOff
  | .failed message | .panicked message => .failed message

/-! ## What the client knows -/

variable {s : Serde} {l : ProgressLine} {d d' : Drain} {ls new : List ProgressLine}

def errorOf : ProgressLine → Option String
  | .error message => some message
  | _ => none

def IsSpooled (l : ProgressLine) : Prop :=
  ∃ ev, l = .event ev ∧ ev.phase = .spooled

lemma phaseIs_iff {line : Bytes} {v : LineValue} {phase : String} (h : s.read line = some v) :
    ndjsonPhaseIs s line phase = true ↔ v.phase = some phase := by
  unfold ndjsonPhaseIs
  rw [h, Option.any_some, decide_eq_true_iff]

lemma value_inProgress : (lineValue l).phase = some "in_progress" ↔ l = .inProgress := by
  cases l with
  | event ev =>
    obtain ⟨phase, _, _, _, _, _⟩ := ev
    cases phase <;> simp [lineValue, phaseName]
  | _ => simp [lineValue]

lemma value_done : (lineValue l).phase = some "done" ↔ l = .done := by
  cases l with
  | event ev =>
    obtain ⟨phase, _, _, _, _, _⟩ := ev
    cases phase <;> simp [lineValue, phaseName]
  | _ => simp [lineValue]

lemma value_spooled : (lineValue l).phase = some "spooled" ↔ IsSpooled l := by
  unfold IsSpooled
  cases l with
  | event ev =>
    obtain ⟨phase, _, _, _, _, _⟩ := ev
    cases phase <;> simp [lineValue, phaseName]
  | _ => simp [lineValue]

lemma value_error : ((if (lineValue l).phase = some "error" then
    some ((lineValue l).message.getD "Upload failed") else none) : Option String) = errorOf l := by
  cases l with
  | event ev =>
    obtain ⟨phase, _, _, _, _, _⟩ := ev
    cases phase <;> simp [lineValue, phaseName, errorOf]
  | _ => simp [lineValue, errorOf]

lemma errorMessage_line (h : s.Fits l) : ndjsonErrorMessage s (s.write l ++ [newline]) = errorOf l := by
  unfold ndjsonErrorMessage
  rw [List.splitOn_append_cons_self, List.splitOn_eq_singleton h.plain]
  simp only [List.splitOn_nil, List.cons_append, List.nil_append, List.findSome?_cons, h.whole, s.blank,
    Option.bind_some, Option.bind_none, value_error]
  cases errorOf l <;> rfl

lemma errorMessage_whole (h : s.Fits l) : ndjsonErrorMessage s (s.write l) = errorOf l := by
  unfold ndjsonErrorMessage
  rw [List.splitOn_eq_singleton h.plain]
  simp only [List.findSome?_cons, List.findSome?_nil, h.whole, Option.bind_some, value_error]
  cases errorOf l <;> rfl

lemma errorMessage_cut {p : Bytes} (hplain : newline ∉ p) (h : s.read p = none) :
    ndjsonErrorMessage s p = none := by
  unfold ndjsonErrorMessage
  rw [List.splitOn_eq_singleton hplain]
  simp only [List.findSome?_cons, List.findSome?_nil, h, Option.bind_none]

/-- What the loop keeps of the lines it has read. -/
structure Knows (d : Drain) (ls : List ProgressLine) : Prop where
  failure : d.failure = ls.findSome? errorOf
  spooled : d.spooledAt.isSome = true ↔ ∃ l ∈ ls, IsSpooled l
  done : d.done = true ↔ .done ∈ ls
  running : .inProgress ∉ ls

lemma Knows.start : Knows .start [] where
  failure := rfl
  spooled := ⟨fun h => Bool.noConfusion h, fun ⟨_, h, _⟩ => absurd h List.not_mem_nil⟩
  done := ⟨fun h => Bool.noConfusion h, fun h => absurd h List.not_mem_nil⟩
  running := List.not_mem_nil

lemma Knows.line (h : Knows d ls) (hfits : s.Fits l) (now : Nat) :
    (l = .inProgress ∧ d.line s now (s.write l ++ [newline]) = none) ∨
      l ≠ .inProgress ∧ ∃ d', d.line s now (s.write l ++ [newline]) = some d' ∧ Knows d' (ls ++ [l]) ∧
        d'.pending = d.pending := by
  unfold Drain.line
  have hphase : ∀ phase, ndjsonPhaseIs s (s.write l ++ [newline]) phase = true ↔
      (lineValue l).phase = some phase := fun phase => phaseIs_iff hfits.ended
  by_cases hrunning : l = .inProgress
  · rw [if_pos ((hphase _).mpr (value_inProgress.mpr hrunning))]
    exact Or.inl ⟨hrunning, rfl⟩
  · rw [if_neg fun htrue => hrunning (value_inProgress.mp ((hphase _).mp htrue))]
    refine Or.inr ⟨hrunning, _, rfl, ⟨?_, ?_, ?_, ?_⟩, rfl⟩
    · rw [errorMessage_line hfits, List.findSome?_append, ← h.failure]
      cases d.failure with
      | none =>
        rw [if_pos rfl, Option.none_or]
        simp only [List.findSome?_cons, List.findSome?_nil]
        cases errorOf l <;> rfl
      | some message =>
        rw [if_neg (Option.some_ne_none message)]
        rfl
    · have hspooled : ndjsonPhaseIs s (s.write l ++ [newline]) "spooled" = true ↔ IsSpooled l :=
        (hphase _).trans value_spooled
      simp only [List.mem_append, List.mem_singleton, or_and_right, exists_or, exists_eq_left]
      rw [← h.spooled, ← hspooled]
      cases hat : d.spooledAt with
      | some at_ => simp
      | none => by_cases hnow : ndjsonPhaseIs s (s.write l ++ [newline]) "spooled" = true <;> simp [hnow]
    · have hdone : ndjsonPhaseIs s (s.write l ++ [newline]) "done" = true ↔ l = .done :=
        (hphase _).trans value_done
      rw [List.mem_append, List.mem_singleton, ← h.done]
      by_cases hnow : ndjsonPhaseIs s (s.write l ++ [newline]) "done" = true
      · rw [if_pos hnow]
        exact iff_of_true rfl (Or.inr (hdone.mp hnow).symm)
      · rw [if_neg hnow]
        refine ⟨Or.inl, fun hor => hor.resolve_right fun heq => hnow (hdone.mpr heq.symm)⟩
    · intro hmem
      cases List.mem_append.mp hmem with
      | inl hold => exact h.running hold
      | inr hnew => exact hrunning (List.mem_singleton.mp hnew).symm

lemma Knows.lines (h : Knows d ls) (hfits : ∀ l ∈ new, s.Fits l) (now : Nat) :
    (.inProgress ∈ new ∧ (new.map fun l => s.write l ++ [newline]).foldlM (Drain.line s now) d = none) ∨
      ∃ d', (new.map fun l => s.write l ++ [newline]).foldlM (Drain.line s now) d = some d' ∧
        Knows d' (ls ++ new) := by
  induction new generalizing d ls with
  | nil => exact Or.inr ⟨d, rfl, (List.append_nil ls).symm ▸ h⟩
  | cons l new ih =>
    rw [List.map_cons, List.foldlM_cons]
    obtain ⟨hrunning, hnone⟩ | ⟨hrunning, d', hsome, hknows, -⟩ :=
      h.line (hfits l List.mem_cons_self) now
    · rw [hnone]
      exact Or.inl ⟨hrunning ▸ List.mem_cons_self, rfl⟩
    · rw [hsome]
      have htail := ih hknows fun l' hl' => hfits l' (List.mem_cons_of_mem l hl')
      rw [List.append_assoc, List.singleton_append] at htail
      exact htail.imp_left fun ⟨hmem, hnone⟩ => ⟨List.mem_cons_of_mem l hmem, hnone⟩

/-- What the client has of the response: the lines `read`, and the beginning of those that are left. -/
structure Heard (s : Serde) (written : List ProgressLine) (got : Bytes) (d : Drain) : Prop where
  prefix_ : got <+: joinLines newline (written.map s.write)
  pending : d.pending = (cutLines newline [] got).2
  knows : ∃ read unread, written = read ++ unread ∧
    (cutLines newline [] got).1 = read.map (fun l => s.write l ++ [newline]) ∧
    d.pending <+: (unread.map s.write).headD [] ∧ Knows d read

lemma Heard.start : Heard s [] [] .start where
  prefix_ := List.nil_prefix
  pending := rfl
  knows := ⟨[], [], rfl, rfl, List.nil_prefix, .start⟩

variable {written more : List ProgressLine} {got chunk : Bytes}

lemma Heard.grows (h : Heard s written got d) : Heard s (written ++ more) got d where
  prefix_ := by
    rw [List.map_append, joinLines_append]
    exact h.prefix_.trans (List.prefix_append _ _)
  pending := h.pending
  knows := by
    obtain ⟨read, unread, rfl, hread, hpending, hknows⟩ := h.knows
    refine ⟨read, unread ++ more, List.append_assoc _ _ _, hread, ?_, hknows⟩
    cases unread with
    | nil =>
      rw [List.prefix_nil.mp hpending]
      exact List.nil_prefix
    | cons l unread => exact hpending

/-- A frame completes the lines that it brings the ends of. -/
lemma Heard.frame (h : Heard s written got d) (hfits : ∀ l ∈ written, s.Fits l)
    (hchunk : got ++ chunk <+: joinLines newline (written.map s.write)) (now : Nat) :
    (.inProgress ∈ written ∧ d.frame s now chunk = none) ∨
      ∃ d', d.frame s now chunk = some d' ∧ Heard s written (got ++ chunk) d' := by
  obtain ⟨read, unread, hwritten, hread, -, hknows⟩ := h.knows
  obtain ⟨read', unread', hwritten', hread', hpending'⟩ := cutLines_prefix (by
    intro line hline
    obtain ⟨l, hl, rfl⟩ := List.mem_map.mp hline
    exact (hfits l hl).plain) hchunk
  -- the lines of the frame are those read now and not before
  have hplain : newline ∉ d.pending := h.pending ▸ cutLines_rest List.not_mem_nil
  have hcut : cutLines newline [] (d.pending ++ chunk) = cutLines newline d.pending chunk := by
    rw [cutLines_append, cutLines_open hplain]
    rfl
  have happend : cutLines newline [] (got ++ chunk) = (read.map (fun l => s.write l ++ [newline]) ++
      (cutLines newline d.pending chunk).1, (cutLines newline d.pending chunk).2) := by
    rw [cutLines_append, hread, ← h.pending]
  obtain ⟨lines', rest', hmap, hlines, hrest⟩ := List.map_eq_append_iff.mp hwritten'
  subst hlines
  rw [List.map_map] at hread'
  have hread'' : (cutLines newline [] (got ++ chunk)).1 = lines'.map fun l => s.write l ++ [newline] := hread'
  have hlen : read.length ≤ lines'.length := by
    have := congrArg List.length (hread''.symm.trans (congrArg Prod.fst happend))
    rw [List.length_map, List.length_append, List.length_map] at this
    omega
  have hprefix : read <+: lines' :=
    List.prefix_of_prefix_length_le (hwritten ▸ List.prefix_append _ _) (hmap ▸ List.prefix_append _ _) hlen
  obtain ⟨new, rfl⟩ := hprefix
  have hnew : (cutLines newline d.pending chunk).1 = new.map fun l => s.write l ++ [newline] := by
    have := (congrArg Prod.fst happend).symm.trans hread''
    rw [List.map_append] at this
    exact List.append_cancel_left this
  have hfitsNew : ∀ l ∈ new, s.Fits l := fun l hl =>
    hfits l (hmap ▸ List.mem_append_left _ (List.mem_append_right _ hl))
  unfold Drain.frame
  rw [hcut, show cutLines newline d.pending chunk = (_, _) from rfl]
  dsimp only
  rw [hnew]
  obtain ⟨hrunning, hnone⟩ | ⟨d', hsome, hknows'⟩ := hknows.lines hfitsNew now
  · rw [hnone]
    exact Or.inl ⟨hmap ▸ List.mem_append_left _ (List.mem_append_right _ hrunning), rfl⟩
  · rw [hsome]
    refine Or.inr ⟨_, rfl, hchunk, ?_, read ++ new, rest', hmap, hread'', ?_, ?_⟩
    · rw [happend]
    · rw [happend] at hpending'
      rw [hrest]
      exact hpending'
    · exact ⟨hknows'.failure, hknows'.spooled, hknows'.done, hknows'.running⟩

/-- What the end of the stream says, by the lines that were written. -/
lemma Heard.finish (h : Heard s written got d) (hfits : ∀ l ∈ written, s.Fits l) :
    (∃ message, d.finish s = .failed message ∧ .error message ∈ written) ∨
      (d.finish s = .outcome .stored ∧ .done ∈ written) ∨
      (d.finish s = .outcome .handedOff ∧ ∃ l ∈ written, IsSpooled l) ∨ d.finish s = .truncated := by
  obtain ⟨read, unread, rfl, -, hpending, hknows⟩ := h.knows
  -- the line that has no end yet says what it is, or nothing
  have hlast : (∃ l ∈ unread, d.pending = s.write l) ∨
      s.read d.pending = none ∧ ndjsonErrorMessage s d.pending = none := by
    have hplain : newline ∉ d.pending := h.pending ▸ cutLines_rest List.not_mem_nil
    cases unread with
    | nil =>
      have hnil : d.pending = [] := List.prefix_nil.mp hpending
      rw [hnil]
      exact Or.inr ⟨s.blank, errorMessage_cut List.not_mem_nil s.blank⟩
    | cons l unread =>
      by_cases hwhole : d.pending = s.write l
      · exact Or.inl ⟨l, List.mem_cons_self, hwhole⟩
      · have hnone : s.read d.pending = none :=
          (hfits l (List.mem_append_right _ List.mem_cons_self)).cut _
            (List.mem_inits _ _ |>.mpr hpending) hwhole
        exact Or.inr ⟨hnone, errorMessage_cut hplain hnone⟩
  unfold Drain.finish
  dsimp only
  cases hfailure : d.failure with
  | some message =>
    rw [if_neg (Option.some_ne_none message)]
    obtain ⟨l, hl, hmessage⟩ := List.exists_of_findSome?_eq_some (hknows.failure.symm.trans hfailure)
    refine Or.inl ⟨message, rfl, List.mem_append_left _ ?_⟩
    cases l with
    | error m =>
      cases hmessage
      exact hl
    | _ => cases hmessage
  | none =>
    rw [if_pos rfl]
    obtain ⟨l, hl, hwhole⟩ | ⟨hnone, hquiet⟩ := hlast
    · have hfitsl := hfits l (List.mem_append_right _ hl)
      rw [hwhole, errorMessage_whole hfitsl]
      cases herror : errorOf l with
      | some message =>
        refine Or.inl ⟨message, rfl, List.mem_append_right _ ?_⟩
        cases l with
        | error m =>
          cases herror
          exact hl
        | _ => cases herror
      | none =>
        dsimp only
        split
        · case isTrue hdone =>
          refine Or.inr (Or.inl ⟨rfl, ?_⟩)
          rw [Bool.or_eq_true, Bool.and_eq_true] at hdone
          cases hdone with
          | inl hold => exact List.mem_append_left _ (hknows.done.mp hold)
          | inr hnow =>
            have heq : l = .done := value_done.mp ((phaseIs_iff hfitsl.whole).mp hnow.2)
            exact List.mem_append_right _ (heq ▸ hl)
        · split
          · case isTrue hspooled =>
            obtain ⟨l', hl', hphase⟩ := hknows.spooled.mp hspooled
            exact Or.inr (Or.inr (Or.inl ⟨rfl, l', List.mem_append_left _ hl', hphase⟩))
          · exact Or.inr (Or.inr (Or.inr rfl))
    · rw [hquiet]
      dsimp only
      split
      · case isTrue hdone =>
        refine Or.inr (Or.inl ⟨rfl, List.mem_append_left _ (hknows.done.mp ?_)⟩)
        rw [Bool.or_eq_true, Bool.and_eq_true] at hdone
        refine hdone.resolve_right fun hnow => ?_
        unfold ndjsonPhaseIs at hnow
        rw [hnone] at hnow
        cases hnow.2
      · split
        · case isTrue hspooled =>
          obtain ⟨l', hl', hphase⟩ := hknows.spooled.mp hspooled
          exact Or.inr (Or.inr (Or.inl ⟨rfl, l', List.mem_append_left _ hl', hphase⟩))
        · exact Or.inr (Or.inr (Or.inr rfl))

/-! ## Both ends agree -/

namespace Upload

variable {grace : Nat} {σ : Upload}

lemma ended_of_line (hs : σ.server.Sound) {r : TaskEnd} (h : r.line ∈ σ.server.written) :
    ∃ r', σ.server.task = .ended r' ∧ r'.line = r.line := by
  obtain ⟨evs, hevents | ⟨-, r', hended, hlast⟩⟩ := hs.shape
  · rw [hevents] at h
    obtain ⟨ev, -, heq⟩ := List.mem_map.mp h
    cases r <;> cases heq
  · rw [hlast] at h
    cases List.mem_append.mp h with
    | inl hevent =>
      obtain ⟨ev, -, heq⟩ := List.mem_map.mp hevent
      cases r <;> cases heq
    | inr hline => exact ⟨r', hended, (List.mem_singleton.mp hline).symm⟩

lemma stored_of_done (hs : σ.server.Sound) (h : .done ∈ σ.server.written) :
    σ.server.task = .ended .stored := by
  obtain ⟨r, hended, hline⟩ := ended_of_line hs (r := .stored) h
  cases r <;> cases hline
  exact hended

lemma other_of_inProgress (hs : σ.server.Sound) (h : .inProgress ∈ σ.server.written) :
    σ.server.task = .ended .alreadyInProgress := by
  obtain ⟨r, hended, hline⟩ := ended_of_line hs (r := .alreadyInProgress) h
  cases r <;> cases hline
  exact hended

lemma failed_of_error (hs : σ.server.Sound) {message : String} (h : .error message ∈ σ.server.written) :
    σ.server.task = .ended (.failed message) ∨ σ.server.task = .ended (.panicked message) := by
  obtain ⟨r, hended, hline⟩ := ended_of_line hs (r := .failed message) h
  cases r with
  | failed m =>
    cases hline
    exact Or.inl hended
  | panicked m =>
    cases hline
    exact Or.inr hended
  | stored => cases hline
  | alreadyInProgress => cases hline

lemma spooled_of_line (h : ∃ l ∈ σ.server.written, IsSpooled l) : σ.server.Spooled := by
  obtain ⟨l, hl, ev, rfl, hphase⟩ := h
  exact ⟨ev, hl, hphase⟩

structure Rests (σ : Upload) : Prop where
  stored : σ.verdict = some (.outcome .stored) → σ.server.task = .ended .stored
  handedOff : σ.verdict = some (.outcome .handedOff) →
    σ.server.Spooled ∨ σ.server.task = .ended .alreadyInProgress
  blamed : ∀ message, σ.verdict = some (.failed message) →
    σ.server.task = .ended (.failed message) ∨ σ.server.task = .ended (.panicked message)
  kept : σ.server.Spooled → σ.server.task ≠ .aborted

lemma result_ok {e : DrainEnd} {o : UploadOutcome} (h : e.result = .ok o) : e = .outcome o := by
  cases e with
  | outcome o' =>
    cases h
    rfl
  | _ => cases h

lemma result_file {e : DrainEnd} (h : e.result = .error .file) : ∃ message, e = .failed message := by
  cases e with
  | failed message => exact ⟨message, rfl⟩
  | broken timedOut => cases timedOut <;> cases h
  | _ => cases h

lemma Rests.agrees (h : σ.Rests) : σ.Agrees where
  stored := by
    intro e he hresult
    exact h.stored (he.trans (congrArg some (result_ok hresult)))
  handedOff := by
    intro e he hresult
    exact h.handedOff (he.trans (congrArg some (result_ok hresult)))
  blamed := by
    intro e he hresult
    obtain ⟨message, rfl⟩ := result_file hresult
    exact ⟨message, h.blamed message he⟩
  kept := h.kept

structure Sound (s : Serde) (σ : Upload) : Prop where
  server : σ.server.Sound
  heard : σ.verdict = none → Heard s σ.server.written σ.got σ.drain
  rests : σ.Rests

lemma Sound.start : Sound s start where
  server := .start
  heard := fun _ => .start
  rests := ⟨nofun, nofun, nofun, fun _ h => TaskState.noConfusion h⟩

lemma Sound.serve (hs : σ.Sound s) (a : ResponseAct) : Sound s { σ with server := σ.server.step a } where
  server := hs.server.step a
  heard := fun h => by
    obtain ⟨more, hmore⟩ := UploadResponse.written_step σ.server a
    rw [← hmore]
    exact (hs.heard h).grows
  rests := {
    stored := fun h => UploadResponse.ended_step (hs.rests.stored h) a
    handedOff := fun h => (hs.rests.handedOff h).imp
      (fun ⟨ev, hev, hphase⟩ => ⟨ev, (UploadResponse.written_step σ.server a).subset hev, hphase⟩)
      fun hended => UploadResponse.ended_step hended a
    blamed := fun message h => (hs.rests.blamed message h).imp
      (fun hended => UploadResponse.ended_step hended a) fun hended => UploadResponse.ended_step hended a
    kept := fun h haborted => ((hs.server.step a).aborted haborted).2 h }

lemma Sound.conclude (hs : σ.Sound s) {e : DrainEnd}
    (hstored : e = .outcome .stored → σ.server.task = .ended .stored)
    (hhanded : e = .outcome .handedOff → σ.server.Spooled ∨ σ.server.task = .ended .alreadyInProgress)
    (hblamed : ∀ message, e = .failed message →
      σ.server.task = .ended (.failed message) ∨ σ.server.task = .ended (.panicked message)) :
    Sound s { σ with verdict := some e } where
  server := hs.server
  heard := fun h => absurd h (Option.some_ne_none e)
  rests := ⟨fun h => hstored (Option.some.inj h), fun h => hhanded (Option.some.inj h),
    fun message h => hblamed message (Option.some.inj h), hs.rests.kept⟩

lemma spooled_of_grace (h : Heard s σ.server.written σ.got σ.drain) {now : Nat}
    (hover : σ.drain.GraceOver grace now) :
    σ.server.Spooled := by
  obtain ⟨read, unread, hwritten, -, -, hknows⟩ := h.knows
  obtain ⟨at_, hat, -⟩ := hover
  obtain ⟨l, hl, hspooled⟩ := hknows.spooled.mp (by rw [show σ.drain.spooledAt = some at_ from hat]; rfl)
  exact spooled_of_line ⟨l, hwritten ▸ List.mem_append_left _ hl, hspooled⟩

lemma next_chunk (h : σ.got <+: σ.text s) (n : Nat) : σ.got ++ σ.chunk s n <+: σ.text s := by
  obtain ⟨tail, htail⟩ := h
  unfold chunk
  rw [← htail, List.drop_left]
  exact List.prefix_append_right_inj _ |>.mpr (List.take_prefix _ _)

lemma Sound.client (hs : σ.Sound s) (hfits : ∀ l ∈ σ.server.written, s.Fits l) (begun now : Nat)
    (a : ClientArrival) : (σ.step s grace (.client begun now a)).Sound s := by
  dsimp only [Upload.step]
  split
  · case isTrue hnone =>
    have hheard := hs.heard hnone
    unfold Drain.turn
    by_cases hover : σ.drain.GraceOver grace begun
    · rw [if_pos hover]
      exact hs.conclude nofun (fun _ => Or.inl (spooled_of_grace hheard hover)) nofun
    · rw [if_neg hover]
      cases a with
      | bytes n =>
        obtain ⟨hrunning, hframe⟩ | ⟨d, hframe, hheard'⟩ :=
          hheard.frame hfits (next_chunk hheard.prefix_ n) now
        · simp only [arrival, hframe]
          exact hs.conclude nofun (fun _ => Or.inr (other_of_inProgress hs.server hrunning)) nofun
        · simp only [arrival, hframe, arrived]
          exact ⟨hs.server, fun _ => hheard', ⟨hs.rests.stored, hs.rests.handedOff, hs.rests.blamed,
            hs.rests.kept⟩⟩
      | end_ =>
        dsimp only [arrival]
        obtain ⟨message, hend, hline⟩ | ⟨hend, hline⟩ | ⟨hend, hline⟩ | hend := hheard.finish hfits
        · rw [hend]
          refine hs.conclude nofun nofun fun m h => ?_
          cases h
          exact failed_of_error hs.server hline
        · rw [hend]
          exact hs.conclude (fun _ => stored_of_done hs.server hline) nofun nofun
        · rw [hend]
          exact hs.conclude nofun (fun _ => Or.inl (spooled_of_line hline)) nofun
        · rw [hend]
          exact hs.conclude nofun nofun nofun
      | broken timedOut => exact hs.conclude nofun nofun nofun
      | silence =>
        dsimp only [arrival]
        split
        · case isTrue hover' => exact hs.conclude nofun (fun _ => Or.inl (spooled_of_grace hheard hover')) nofun
        · exact hs.conclude nofun nofun nofun
  · exact hs

lemma Sound.step (hs : σ.Sound s) {a : UploadAct} (hfits : ∀ l ∈ (σ.step s grace a).server.written, s.Fits l) :
    (σ.step s grace a).Sound s := by
  cases a with
  | server a => exact hs.serve a
  | client begun now a =>
    refine hs.client (fun l hl => hfits l ?_) begun now a
    dsimp only [Upload.step]
    split
    · split <;> exact hl
    · exact hl

lemma written_step (σ : Upload) (a : UploadAct) : σ.server.written <+: (σ.step s grace a).server.written := by
  cases a with
  | server a => exact UploadResponse.written_step σ.server a
  | client begun now a =>
    dsimp only [Upload.step]
    split
    · split <;> exact List.prefix_refl _
    · exact List.prefix_refl _

lemma written_run (σ : Upload) (acts : List UploadAct) :
    σ.server.written <+: (run (step s grace) σ acts).server.written := by
  induction acts generalizing σ with
  | nil => exact List.prefix_refl _
  | cons a acts ih => exact (written_step σ a).trans (ih _)

lemma fits_steps {acts : List UploadAct} (h : ∀ l ∈ (run (step s grace) σ acts).server.written, s.Fits l) :
    AllOk (step s grace) (fun σ a => ∀ l ∈ (σ.step s grace a).server.written, s.Fits l) σ acts := by
  induction acts generalizing σ with
  | nil => trivial
  | cons a acts ih => exact ⟨fun l hl => h l ((written_run _ acts).subset hl), ih h⟩

lemma knows_all (h : Heard s σ.server.written σ.got σ.drain) (hfits : ∀ l ∈ σ.server.written, s.Fits l)
    (hall : σ.got = σ.text s) : Knows σ.drain σ.server.written ∧ σ.drain.pending = [] := by
  obtain ⟨read, unread, hwritten, hread, -, hknows⟩ := h.knows
  have hcut : cutLines newline [] σ.got = ((σ.server.written.map s.write).map (· ++ [newline]), []) := by
    rw [hall]
    refine cutLines_joinLines fun line hline => ?_
    obtain ⟨l, hl, rfl⟩ := List.mem_map.mp hline
    exact (hfits l hl).plain
  have hlen := congrArg List.length hread
  rw [hcut, List.length_map, List.length_map, List.length_map, hwritten, List.length_append] at hlen
  have hunread : unread = [] := List.length_eq_zero_iff.mp (by omega)
  rw [hunread, List.append_nil] at hwritten
  exact ⟨hwritten ▸ hknows, by rw [h.pending, hcut]⟩

lemma findSome_event (evs : List UploadProgressEvent) :
    (evs.map ProgressLine.event).findSome? errorOf = none := by
  rw [List.findSome?_map, List.findSome?_eq_none_iff]
  exact fun _ _ => rfl

def ascii (text : String) : Bytes :=
  text.toList.map fun c => UInt8.ofNat c.toNat

/-- What `serde_json` does to the lines of an upload of three bytes. -/
def twoLines : List (ProgressLine × Bytes) :=
  [(.event (.spooled 3), ascii "\x7b\"phase\":\"spooled\",\"uploaded\":0,\"total\":3\x7d"),
    (.done, ascii "\x7b\"phase\":\"done\"\x7d")]

def twoLineSerde : Serde where
  write l := (twoLines.lookup l).getD []
  read bytes := (twoLines.find? fun e => bytes = e.2 ∨ bytes = e.2 ++ [newline]).map fun e => lineValue e.1
  blank := by decide +kernel

/-- The spool is told, in two frames, then the task stores the file. -/
def storedRun : List UploadAct :=
  [.server (.emit (.spooled 3)), .server .recv, .client 0 0 (.bytes 20), .client 1 1 (.bytes 40),
    .server (.finish .stored), .server .join, .client 2 2 (.bytes 100)]

/-- A client that has the whole response in time comes to what the task came to. -/
theorem verdict_complete {acts : List UploadAct} {r : TaskEnd} {begun now : Nat}
    (hfits : ∀ l ∈ (run (step s grace) start acts).server.written, s.Fits l)
    (hended : r.line ∈ (run (step s grace) start acts).server.written)
    (hall : (run (step s grace) start acts).got = (run (step s grace) start acts).text s)
    (hopen : (run (step s grace) start acts).verdict = none)
    (hgrace : ¬ (run (step s grace) start acts).drain.GraceOver grace begun) :
    (run (step s grace) start (acts ++ [.client begun now .end_])).verdict = some (verdictOf r) := by
  have hs : (run (step s grace) start acts).Sound s :=
    (always_of_allOk (P := Sound s) (fun _ _ hs hfits => hs.step hfits) Sound.start (fits_steps hfits)).last
  rw [run_append]
  generalize run (step s grace) start acts = σ at *
  obtain ⟨hknows, hpending⟩ := knows_all (hs.heard hopen) hfits hall
  obtain ⟨r', -, hline⟩ := ended_of_line hs.server hended
  have hwritten : ∃ evs : List UploadProgressEvent, σ.server.written = evs.map .event ++ [r.line] := by
    obtain ⟨evs, hevents | ⟨-, r'', -, hlast⟩⟩ := hs.server.shape
    · rw [hevents] at hended
      obtain ⟨ev, -, heq⟩ := List.mem_map.mp hended
      cases r <;> cases heq
    · refine ⟨evs, hlast.trans ?_⟩
      rw [hlast] at hended
      cases List.mem_append.mp hended with
      | inl hevent =>
        obtain ⟨ev, -, heq⟩ := List.mem_map.mp hevent
        cases r <;> cases heq
      | inr hlast' => rw [List.mem_singleton.mp hlast']
  obtain ⟨evs, hwritten⟩ := hwritten
  show (σ.step s grace (.client begun now .end_)).verdict = _
  dsimp only [Upload.step]
  rw [if_pos hopen]
  unfold Drain.turn
  rw [if_neg hgrace]
  dsimp only [arrival, Drain.finish]
  have hquiet : ndjsonErrorMessage s σ.drain.pending = none := by
    rw [hpending]
    exact errorMessage_cut List.not_mem_nil s.blank
  have hfailure : σ.drain.failure = errorOf r.line := by
    rw [hknows.failure, hwritten, List.findSome?_append, findSome_event, Option.none_or]
    simp only [List.findSome?_cons, List.findSome?_nil]
    cases errorOf r.line <;> rfl
  rw [hquiet, hfailure]
  cases r with
  | alreadyInProgress => exact absurd hended hknows.running
  | failed message => rfl
  | panicked message => rfl
  | stored =>
    have hdone : σ.drain.done = true := hknows.done.mpr hended
    rw [hdone]
    rfl

theorem storedRun_complete : (run (step twoLineSerde relayConfirmGrace) start
    (storedRun ++ [.client 3 3 .end_])).verdict = some (.outcome .stored) :=
  verdict_complete (r := .stored) (by decide +kernel) (by decide +kernel) (by decide +kernel)
    (by decide +kernel)
    (by decide +kernel)

end Upload

/-! ## The frames do not matter -/

lemma line_pending (d : Drain) (line p : Bytes) (now : Nat) :
    Drain.line s now { d with pending := p } line = (Drain.line s now d line).map
      fun d => { d with pending := p } := by
  unfold Drain.line
  split <;> rfl

lemma lines_pending (lines : List Bytes) (d : Drain) (p : Bytes) (now : Nat) :
    lines.foldlM (Drain.line s now) { d with pending := p } =
      (lines.foldlM (Drain.line s now) d).map fun d => { d with pending := p } := by
  induction lines generalizing d with
  | nil => rfl
  | cons line lines ih =>
    rw [List.foldlM_cons, List.foldlM_cons, line_pending]
    cases hline : Drain.line s now d line with
    | none => rfl
    | some d' => exact ih d'

lemma frame_append (d : Drain) (chunk chunk' : Bytes) (now : Nat) :
    d.frame s now (chunk ++ chunk') = (d.frame s now chunk).bind fun d => d.frame s now chunk' := by
  have hrest : newline ∉ (cutLines newline [] (d.pending ++ chunk)).2 := cutLines_rest List.not_mem_nil
  have hall : cutLines newline [] (d.pending ++ chunk ++ chunk') =
      ((cutLines newline [] (d.pending ++ chunk)).1 ++
        (cutLines newline (cutLines newline [] (d.pending ++ chunk)).2 chunk').1,
      (cutLines newline (cutLines newline [] (d.pending ++ chunk)).2 chunk').2) := cutLines_append _ _ _
  unfold Drain.frame
  dsimp only
  rw [← List.append_assoc, hall]
  generalize cutLines newline [] (d.pending ++ chunk) = cut at hrest
  dsimp only
  rw [List.foldlM_append]
  cases hfirst : cut.1.foldlM (Drain.line s now) d with
  | none => rfl
  | some d' =>
    have hsecond : cutLines newline [] (cut.2 ++ chunk') = cutLines newline cut.2 chunk' := by
      rw [cutLines_append, cutLines_open hrest]
      rfl
    dsimp only [Option.map_some, Option.bind_some]
    rw [hsecond, lines_pending, Option.map_map]
    rfl

/-- What the client makes of bytes that arrive together does not depend on the frames they arrive in. -/
theorem frames_agree (h : newline ∉ d.pending) (pieces : List Bytes) (now : Nat) :
    pieces.foldlM (Drain.frame s now) d = d.frame s now pieces.flatten := by
  induction pieces generalizing d with
  | nil =>
    unfold Drain.frame
    rw [List.flatten_nil, List.append_nil, cutLines_open h]
    rfl
  | cons piece pieces ih =>
    rw [List.foldlM_cons, List.flatten_cons, frame_append]
    cases hpiece : d.frame s now piece with
    | none => rfl
    | some d' =>
      refine ih ?_
      unfold Drain.frame at hpiece
      obtain ⟨d'', -, rfl⟩ := Option.map_eq_some_iff.mp hpiece
      exact cutLines_rest List.not_mem_nil

/-- The spool is told in two pieces. -/
theorem twoPieces_agree : [Upload.ascii "\x7b\"phase\":\"spooled\",",
    Upload.ascii "\"uploaded\":0,\"total\":3\x7d\n"].foldlM
      (Drain.frame Upload.twoLineSerde 5) Drain.start =
    Drain.start.frame Upload.twoLineSerde 5
      [Upload.ascii "\x7b\"phase\":\"spooled\",", Upload.ascii "\"uploaded\":0,\"total\":3\x7d\n"].flatten :=
  frames_agree List.not_mem_nil _ 5

end Sarca.Client
