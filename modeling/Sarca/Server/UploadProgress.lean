import Sarca.Lib.Run

/-!
# The progress of an upload

`ndjson_upload_progress_response` answers an upload with lines of progress and, at the end, with what became of
the upload task. A response that is dropped aborts the task, unless the client was told that its bytes are
`spooled`: the relay then goes on by itself.
-/

namespace Sarca.Server
open Sarca.Lib

inductive ProgressPhase where
  | spooled
  | telegram
  | waiting
  | heartbeat
deriving DecidableEq, Repr

structure UploadProgressEvent where
  phase : ProgressPhase
  uploaded : Nat
  total : Nat
  chunk : Option Nat
  chunks : Option Nat
  retryAfter : Option Nat
deriving DecidableEq, Repr

namespace UploadProgressEvent

def spooled (total : Nat) : UploadProgressEvent :=
  ⟨.spooled, 0, total, none, none, none⟩

def telegram (uploaded total chunk chunks : Nat) : UploadProgressEvent :=
  ⟨.telegram, uploaded, total, some chunk, some chunks, none⟩

def waiting (uploaded total chunk chunks retryAfter : Nat) : UploadProgressEvent :=
  ⟨.waiting, uploaded, total, some chunk, some chunks, some retryAfter⟩

def heartbeat : UploadProgressEvent :=
  ⟨.heartbeat, 0, 0, none, none, none⟩

end UploadProgressEvent

/-- How an upload task ends by itself: `Ok`, `UploadAlreadyInProgress`, another error, or a panic. -/
inductive TaskEnd where
  | stored
  | alreadyInProgress
  | failed (message : String)
  | panicked (message : String)
deriving DecidableEq, Repr

inductive TaskState where
  | running
  | ended (r : TaskEnd)
  | aborted
deriving DecidableEq, Repr

inductive ProgressLine where
  | event (ev : UploadProgressEvent)
  | done
  | inProgress
  | error (message : String)
deriving DecidableEq, Repr

def TaskEnd.line : TaskEnd → ProgressLine
  | .stored => .done
  | .alreadyInProgress => .inProgress
  | .failed message | .panicked message => .error message

/-- The upload task, the events it has sent, and the response: whether a drop aborts the task (`AbortOnDrop`),
    whether it goes on, and its lines so far. -/
structure UploadResponse where
  task : TaskState
  queue : List UploadProgressEvent
  armed : Bool
  streaming : Bool
  written : List ProgressLine
deriving DecidableEq

inductive ResponseAct where
  /-- an event is sent, and the channel is not full -/
  | emit (ev : UploadProgressEvent)
  | finish (r : TaskEnd)
  | recv
  | heartbeat
  /-- the response finds the task at its end -/
  | join
  /-- the connection is gone -/
  | drop

namespace UploadResponse

def start : UploadResponse :=
  ⟨.running, [], true, true, []⟩

/-- The next state (Rust `ndjson_upload_progress_response`). -/
def step (σ : UploadResponse) : ResponseAct → UploadResponse
  | .emit ev => if σ.streaming then { σ with queue := σ.queue ++ [ev] } else σ
  | .finish r => if σ.task = .running then { σ with task := .ended r } else σ
  | .recv =>
    if σ.streaming then
      match σ.queue with
      | ev :: queue =>
        { σ with
          queue := queue
          armed := if ev.phase = .spooled then false else σ.armed
          written := σ.written ++ [.event ev] }
      | [] => σ
    else σ
  | .heartbeat => if σ.streaming then { σ with written := σ.written ++ [.event .heartbeat] } else σ
  | .join =>
    if σ.streaming then
      match σ.task with
      | .ended r =>
        { σ with
          queue := []
          armed := false
          streaming := false
          written := σ.written ++ σ.queue.map .event ++ [r.line] }
      | _ => σ
    else σ
  | .drop =>
    if σ.streaming then
      { σ with
        task := if σ.armed ∧ σ.task = .running then .aborted else σ.task
        queue := []
        armed := false
        streaming := false }
    else σ

/-- The client was told that its bytes are spooled. -/
def Spooled (σ : UploadResponse) : Prop :=
  ∃ ev, .event ev ∈ σ.written ∧ ev.phase = .spooled

/-- The response ends with what became of the task, and says so only at its end; while a drop aborts the task,
    nothing was said of a spool. -/
structure Sound (σ : UploadResponse) : Prop where
  shape : ∃ evs : List UploadProgressEvent, σ.written = evs.map .event ∨
    σ.streaming = false ∧ ∃ r, σ.task = .ended r ∧ σ.written = evs.map .event ++ [r.line]
  armed : σ.armed = true → ¬ σ.Spooled
  aborted : σ.task = .aborted → σ.streaming = false ∧ ¬ σ.Spooled

variable {σ : UploadResponse}

lemma Sound.start : start.Sound where
  shape := ⟨[], Or.inl rfl⟩
  armed := fun _ ⟨_, h, _⟩ => absurd h List.not_mem_nil
  aborted := fun h => TaskState.noConfusion h

lemma Sound.events (hs : σ.Sound) (h : σ.streaming = true) :
    ∃ evs : List UploadProgressEvent, σ.written = evs.map .event := by
  obtain ⟨evs, hevents | ⟨hclosed, -⟩⟩ := hs.shape
  · exact ⟨evs, hevents⟩
  · rw [h] at hclosed
    cases hclosed

lemma spooled_event {ev : UploadProgressEvent} {queue : List UploadProgressEvent} {armed : Bool}
    (h : Spooled { σ with queue := queue, armed := armed, written := σ.written ++ [.event ev] }) :
    σ.Spooled ∨ ev.phase = .spooled := by
  obtain ⟨ev', hev, hphase⟩ := h
  cases List.mem_append.mp hev with
  | inl hold => exact Or.inl ⟨ev', hold, hphase⟩
  | inr hnew =>
    cases List.mem_singleton.mp hnew
    exact Or.inr hphase

lemma Sound.event (hs : σ.Sound) (hopen : σ.streaming = true) {ev : UploadProgressEvent}
    {queue : List UploadProgressEvent} {armed : Bool}
      (harmed : armed = true → σ.armed = true ∧ ev.phase ≠ .spooled) :
    Sound { σ with queue := queue, armed := armed, written := σ.written ++ [.event ev] } where
  shape := by
    obtain ⟨evs, hevents⟩ := hs.events hopen
    refine ⟨evs ++ [ev], Or.inl ?_⟩
    rw [List.map_append, ← hevents]
    rfl
  armed := fun h hspooled => by
    obtain ⟨hold, hphase⟩ := harmed h
    exact (spooled_event hspooled).elim (hs.armed hold) hphase
  aborted := fun h => by
    have hclosed := (hs.aborted h).1
    rw [hopen] at hclosed
    cases hclosed

lemma Sound.step (hs : σ.Sound) (a : ResponseAct) : (σ.step a).Sound := by
  cases a with
  | emit ev =>
    dsimp only [UploadResponse.step]
    split
    · exact ⟨hs.shape, hs.armed, hs.aborted⟩
    · exact hs
  | finish r =>
    dsimp only [UploadResponse.step]
    split
    · case isTrue hrunning =>
      refine ⟨?_, hs.armed, fun h => TaskState.noConfusion h⟩
      obtain ⟨evs, hevents | ⟨-, r', hended, -⟩⟩ := hs.shape
      · exact ⟨evs, Or.inl hevents⟩
      · rw [hrunning] at hended
        cases hended
    · exact hs
  | recv =>
    dsimp only [UploadResponse.step]
    split
    · case isTrue hopen =>
      split
      · refine hs.event hopen fun harmed => ?_
        split at harmed
        · cases harmed
        · case isFalse hphase => exact ⟨harmed, hphase⟩
      · exact hs
    · exact hs
  | heartbeat =>
    dsimp only [UploadResponse.step]
    split
    · case isTrue hopen => exact hs.event hopen fun harmed => ⟨harmed, by decide⟩
    · exact hs
  | join =>
    dsimp only [UploadResponse.step]
    split
    · case isTrue hopen =>
      split
      · case h_1 r hended =>
        obtain ⟨evs, hevents⟩ := hs.events hopen
        refine ⟨⟨evs ++ σ.queue, Or.inr ⟨rfl, r, hended, ?_⟩⟩, fun h => Bool.noConfusion h, fun h => ?_⟩
        · rw [List.map_append, ← hevents]
        · rw [hended] at h
          cases h
      · exact hs
    · exact hs
  | drop =>
    dsimp only [UploadResponse.step]
    split
    · case isTrue hopen =>
      obtain ⟨evs, hevents⟩ := hs.events hopen
      refine ⟨⟨evs, Or.inl hevents⟩, fun h => Bool.noConfusion h, fun h => ⟨rfl, ?_⟩⟩
      dsimp only at h
      split at h
      · case isTrue harmed => exact hs.armed harmed.1
      · exact (hs.aborted h).2
    · exact hs

lemma written_step (σ : UploadResponse) (a : ResponseAct) : σ.written <+: (σ.step a).written := by
  cases a with
  | emit ev => dsimp only [UploadResponse.step]; split <;> exact List.prefix_refl _
  | finish r => dsimp only [UploadResponse.step]; split <;> exact List.prefix_refl _
  | drop => dsimp only [UploadResponse.step]; split <;> exact List.prefix_refl _
  | heartbeat =>
    dsimp only [UploadResponse.step]
    split
    · exact List.prefix_append _ _
    · exact List.prefix_refl _
  | recv =>
    dsimp only [UploadResponse.step]
    split
    · split
      · exact List.prefix_append _ _
      · exact List.prefix_refl _
    · exact List.prefix_refl _
  | join =>
    dsimp only [UploadResponse.step]
    split
    · split
      · rw [List.append_assoc]
        exact List.prefix_append _ _
      · exact List.prefix_refl _
    · exact List.prefix_refl _

lemma ended_step {r : TaskEnd} (h : σ.task = .ended r) (a : ResponseAct) : (σ.step a).task = .ended r := by
  cases a with
  | emit ev => dsimp only [UploadResponse.step]; split <;> exact h
  | heartbeat => dsimp only [UploadResponse.step]; split <;> exact h
  | finish r' =>
    dsimp only [UploadResponse.step]
    rw [if_neg (by rw [h]; exact TaskState.noConfusion)]
    exact h
  | recv =>
    dsimp only [UploadResponse.step]
    split
    · split <;> exact h
    · exact h
  | join =>
    dsimp only [UploadResponse.step]
    split
    · split <;> exact h
    · exact h
  | drop =>
    dsimp only [UploadResponse.step]
    split
    · dsimp only
      rw [if_neg fun hrunning => by rw [h] at hrunning; cases hrunning.2]
      exact h
    · exact h

end UploadResponse

end Sarca.Server
