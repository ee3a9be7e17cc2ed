import Sarca.Client.Engine
import Sarca.Client.Transfer

/-!
# What a batch leaves behind

Every pending file has a slot in the transfer queue, and some files are copies in a cache that the batch is to
remove. `pushOneAt` is `push_one` with both, where the index, the media source and the file system may fail at
each point; `pushLocalIn` is `push_local`.

`TidyTurn` says that a turn takes one of the exits that clean up. `pushLocalIn_tidy`: a batch leaves nothing
behind when its turns are tidy and nothing else fails, and, where the files of the batch are files of their
own, only then.
-/

namespace Sarca.Client
open Sarca.Lib Sarca.Server

/-- A candidate with where its bytes are (Rust `LocalCandidate`). -/
structure SourceCandidate extends LocalCandidate where
  absolutePath : Path
  ephemeral : Bool
  sourceUri : Option Path
deriving DecidableEq

structure TurnWorld where
  getEntryFails : Bool
  remote : Option RemoteFileStatus
  /-- what `materialize` returns, if it does -/
  materialized : Option (Path × Bool)
  content : Option Bytes
  upsertFails : Bool
  getCursorFails : Bool
  parents : Except FailureScope Unit
  upload : Except FailureScope UploadOutcome
  /-- `remove_file` fails for the file, attempted or not -/
  removeFails : Bool
  /-- the failure row cannot be written -/
  noteFails : Bool
  nowMs : Int
  queueMs : Int64

structure BatchWorld where
  loadBackoffFails : Bool
  /-- `get_entry` fails for a candidate of the scan -/
  scanFails : Nat → Bool
  scanMs : Int
  /-- `remove_file` fails for a candidate that was not selected -/
  unselectedFails : Nat → Bool
  queueMs : Int64
  turn : Nat → TurnWorld

/-- The index, the queue, the copies in the cache, and those that `materialize` made in this batch. -/
structure Uploader where
  index : LocalIndex
  queue : TransferQueue
  cache : List Path
  made : List Path

namespace Uploader

variable (σ : Uploader)

/-- Rust `transfer_promote`. -/
def transferPromote (waitingId : Uuid) (b : Binding) (c : SourceCandidate) (now : Int64) : Uuid × Uploader :=
  match σ.queue.promote waitingId now with
  | (true, q) => (waitingId, { σ with queue := q })
  | (false, q) =>
    let (tid, q) := q.begin b.id .upload c.relativePath (some (.ofInt c.size)) now
    (tid, { σ with queue := q })

/-- Rust `transfer_abandon`. -/
def transferAbandon (tid : Uuid) : Uploader :=
  { σ with queue := σ.queue.abandon tid }

/-- Rust `transfer_complete`. -/
def transferComplete (tid : Uuid) (now : Int64) : Uploader :=
  { σ with queue := σ.queue.complete tid now }

/-- `remove_file(path).await.ok()` of an ephemeral file. -/
def cleanUp (ephemeral : Bool) (path : Path) (fails : Bool) : Uploader :=
  if ephemeral && !fails then { σ with cache := σ.cache.filter (· ≠ path) } else σ

/-- A copy that `materialize` made is in the cache. -/
def located (c : SourceCandidate) (path : Path) (ephemeral : Bool) : Uploader :=
  if c.sourceUri.isSome && ephemeral then { σ with cache := path :: σ.cache, made := path :: σ.made } else σ

end Uploader

def TurnWorld.relaying (w : TurnWorld) (c : SourceCandidate) : Bool :=
  w.remote.any fun r => r.stillRelaying && r.size = c.size

/-- The bytes of a candidate, and whether they are a copy. -/
def TurnWorld.locate (w : TurnWorld) (c : SourceCandidate) : Option (Path × Bool) :=
  if c.sourceUri.isSome then w.materialized else some (c.absolutePath, c.ephemeral)

section Push

variable (sha256 : Bytes → ContentHash) (b : Binding)

/-- Rust `push_one`. -/
def pushOneAt (c : SourceCandidate) (waitingId : Uuid) (w : TurnWorld) (σ : Uploader) :
    Uploader × Except FailureScope PushOutcome :=
  if w.getEntryFails then (σ, .error .file)
  else
    let existing := σ.index.getEntry b.id c.relativePath
    let (tid, σ) := σ.transferPromote waitingId b c w.queueMs
    if w.relaying c then
      ((σ.transferAbandon tid).cleanUp c.ephemeral c.absolutePath w.removeFails, .ok .relaying)
    else
      match w.locate c with
      | none => (σ.transferAbandon tid, .error .file)
      | some (path, ephemeral) =>
        let σ := σ.located c path ephemeral
        match w.content with
        | none => ((σ.transferAbandon tid).cleanUp ephemeral path w.removeFails, .error .file)
        | some bytes =>
          let hash := sha256 bytes
          if existing.bind (·.contentHash) = some hash then
            if w.upsertFails && existing.isSome then (σ, .error .file)
            else
              let σ := match existing with
                | some e =>
                  { σ with index :=
                      σ.index.upsertEntry b.id c.relativePath { e with size := c.size, mtimeMs := c.mtimeMs } }
                | none => σ
              ((σ.transferComplete tid w.queueMs).cleanUp ephemeral path w.removeFails, .ok .skipped)
          else if w.remote.any fun r => r.isUploaded && r.contentHash = some hash then
            if w.getCursorFails || w.upsertFails then (σ, .error .file)
            else
              let σ := { σ with
                index :=
                  σ.index.upsertEntry b.id c.relativePath (pushedEntry b c.toLocalCandidate hash σ.index) }
              ((σ.transferComplete tid w.queueMs).cleanUp ephemeral path w.removeFails, .ok .skipped)
          else
            match w.parents with
            | .error scope => ((σ.transferAbandon tid).cleanUp ephemeral path w.removeFails, .error scope)
            | .ok () =>
              let σ := { σ with queue := σ.queue.meter tid }
              match w.upload with
              | .error scope => ((σ.transferAbandon tid).cleanUp ephemeral path w.removeFails, .error scope)
              | .ok outcome =>
                let σ := (σ.transferComplete tid w.queueMs).cleanUp ephemeral path w.removeFails
                match outcome with
                | .handedOff => (σ, .ok .handedOff)
                | .stored =>
                  if w.getCursorFails || w.upsertFails then (σ, .error .file)
                  else
                    ({ σ with
                      index := σ.index.upsertEntry b.id c.relativePath
                        (pushedEntry b c.toLocalCandidate hash σ.index) }, .ok .stored)

/-- A pending file, its place in the queue, and what it meets. -/
structure PendingTurn where
  candidate : SourceCandidate
  waitingId : Uuid
  world : TurnWorld

/-- The loop of `push_local`; `left` is what the iterator still has when it stops. -/
structure PushLoop where
  uploader : Uploader
  result : PushLocalResult
  consecutive : Nat
  stopped : Bool
  left : List PendingTurn

def PushLoop.step (l : PushLoop) (p : PendingTurn) : PushLoop :=
  if l.stopped then { l with left := l.left ++ [p] }
  else
    let rel := p.candidate.relativePath
    match pushOneAt sha256 b p.candidate p.waitingId p.world l.uploader with
    | (σ, .ok outcome) =>
      { l with
        uploader := if p.world.noteFails then σ else { σ with index := σ.index.clearUploadFailure b.id rel }
        result := l.result.count outcome
        consecutive := 0 }
    | (σ, .error .busy) => { l with uploader := σ }
    | (σ, .error .link) =>
      { l with uploader := σ, result := { l.result with firstError := true }, stopped := true }
    | (σ, .error .file) =>
      { l with
        uploader :=
          if p.world.noteFails then σ else { σ with index := noteUploadFailure σ.index b.id rel p.world.nowMs }
        result := { l.result with failed := l.result.failed + 1, firstError := true }
        consecutive := l.consecutive + 1
        stopped := l.consecutive + 1 ≥ maxConsecutiveUploadFailures }

/-- Rust `filter_pending_candidates`. -/
def filterPending (w : BatchWorld) (candidates : List SourceCandidate) (ix : LocalIndex) :
    Option (List SourceCandidate) :=
  if w.loadBackoffFails || (List.range candidates.length).any w.scanFails then none
  else some (candidates.filter fun c =>
    ((ix.getEntry b.id c.relativePath).all fun e => e.size ≠ c.size ∨ e.mtimeMs ≠ c.mtimeMs) &&
      !(ix.getUploadFailure b.id c.relativePath).any fun f => f.nextAttemptMs > w.scanMs)

/-- The candidate is a copy, and no pending file has it. -/
def unselected (pending : List SourceCandidate) (c : SourceCandidate) : Bool :=
  c.ephemeral && !(pending.any fun d => d.ephemeral && d.absolutePath = c.absolutePath)

/-- The copies of candidates that were not selected are removed. -/
def removeUnselected (w : BatchWorld) (candidates pending : List SourceCandidate) (σ : Uploader) : Uploader :=
  candidates.zipIdx.foldl
    (fun σ ci => σ.cleanUp (unselected pending ci.1) ci.1.absolutePath (w.unselectedFails ci.2)) σ

/-- Each pending file gets a place in the queue. -/
def enqueueAll (w : BatchWorld) :
    List (SourceCandidate × Nat) → TransferQueue → List PendingTurn × TransferQueue
  | [], q => ([], q)
  | (c, i) :: rest, q =>
    let (id, q) := q.enqueueWaiting b.id .upload c.relativePath (some (.ofInt c.size)) w.queueMs
    let (turns, q) := enqueueAll w rest q
    (⟨c, id, w.turn i⟩ :: turns, q)

def releaseLeft (left : List PendingTurn) (σ : Uploader) : Uploader :=
  let σ := { σ with queue := left.foldl (fun q p => q.abandon p.waitingId) σ.queue }
  left.foldl (fun σ p => σ.cleanUp p.candidate.ephemeral p.candidate.absolutePath p.world.removeFails) σ

def startLoop (w : BatchWorld) (candidates pending : List SourceCandidate) (σ : Uploader) : PushLoop where
  uploader :=
    { removeUnselected w candidates pending σ with queue := (enqueueAll b w pending.zipIdx σ.queue).2 }
  result := ⟨0, candidates.length, pending.length, 0, false, 0⟩
  consecutive := 0
  stopped := false
  left := []

def endLoop (w : BatchWorld) (candidates pending : List SourceCandidate) (σ : Uploader) : PushLoop :=
  run (PushLoop.step sha256 b) (startLoop b w candidates pending σ) (enqueueAll b w pending.zipIdx σ.queue).1

/-- Rust `push_local`, from what the media source lists; without a result where it returns early. -/
def pushLocalIn (w : BatchWorld) (listed : Option (List SourceCandidate)) (σ : Uploader) :
    Uploader × Option PushLocalResult :=
  let σ := { σ with made := [] }
  match listed with
  | none => (σ, none)
  | some candidates =>
    match filterPending b w candidates σ.index with
    | none => (σ, none)
    | some pending =>
      let l := endLoop sha256 b w candidates pending σ
      (releaseLeft l.left l.uploader, some l.result)

/-- The index cannot be told that a file is up to date. -/
def unrecorded (c : SourceCandidate) (w : TurnWorld) (ix : LocalIndex) : Bool :=
  match w.content with
  | none => false
  | some bytes =>
    if (ix.getEntry b.id c.relativePath).bind (·.contentHash) = some (sha256 bytes) then w.upsertFails
    else (w.remote.any fun r => r.isUploaded && r.contentHash = some (sha256 bytes)) &&
      (w.getCursorFails || w.upsertFails)

/-- A turn takes an exit that cleans up: the entry can be read, and written where the file is up to date; a
    copy is the file that is sent, or the server has it already; and what is to be removed can be. -/
def tidy (c : SourceCandidate) (w : TurnWorld) (ix : LocalIndex) : Bool :=
  !w.getEntryFails &&
    if w.relaying c then !(c.ephemeral && w.removeFails)
    else
      match w.locate c with
      | none => !c.ephemeral
      | some (path, ephemeral) =>
        !unrecorded sha256 b c w ix && !(ephemeral && w.removeFails) &&
          (!c.ephemeral || ephemeral && path = c.absolutePath)

/-- The turn is tidy, or the loop has stopped and what is to be removed can be. -/
def TidyTurn (l : PushLoop) (p : PendingTurn) : Prop :=
  if l.stopped then (p.candidate.ephemeral && p.world.removeFails) = false
  else tidy sha256 b p.candidate p.world l.uploader.index = true

instance (l : PushLoop) (p : PendingTurn) : Decidable (TidyTurn sha256 b l p) :=
  inferInstanceAs (Decidable (if l.stopped then _ = _ else _ = _))

/-- What is to be removed can be, and each turn is tidy in the state it finds. -/
def TidyBatch (w : BatchWorld) (listed : Option (List SourceCandidate)) (σ : Uploader) : Prop :=
  ∀ candidates ∈ listed,
    match filterPending b w candidates σ.index with
    | none => ∀ c ∈ candidates, c.ephemeral = false
    | some pending =>
      (∀ ci ∈ candidates.zipIdx, unselected pending ci.1 = true → w.unselectedFails ci.2 = false) ∧
      AllOk (PushLoop.step sha256 b)
        (TidyTurn sha256 b)
        (startLoop b w candidates pending { σ with made := [] }) (enqueueAll b w pending.zipIdx σ.queue).1

end Push

/-- No upload of the batch is left in the queue, and no copy in the cache: neither one that was listed, nor
    one that was made. -/
structure NothingLeft (listed : Option (List SourceCandidate)) (σ σ' : Uploader) : Prop where
  slots : ∀ item ∈ σ'.queue.unfinished, item.id < σ.queue.nextId
  copies : ∀ candidates ∈ listed, ∀ c ∈ candidates, c.ephemeral = true → c.absolutePath ∉ σ'.cache
  made : ∀ path ∈ σ'.made, path ∉ σ'.cache

def copiesOf (c : SourceCandidate) (w : TurnWorld) : List Path :=
  (if c.ephemeral then [c.absolutePath] else []) ++
    (if c.sourceUri.isSome then (w.materialized.filter fun m => m.2).toList.map Prod.fst else [])

/-- Each file of the batch has a place in the queue and copies of its own, and the copies that were listed are
    there. -/
structure OwnFiles (b : Binding) (w : BatchWorld) (candidates pending : List SourceCandidate)
    (σ : Uploader) : Prop where
  keys : (pending.map fun c => TransferQueue.keyAt b.id .upload c.relativePath).Nodup
  listed : ∀ c ∈ candidates, c.ephemeral = true → c.absolutePath ∈ σ.cache
  apart : (pending.zipIdx.map fun ci => copiesOf ci.1 (w.turn ci.2)).Pairwise List.Disjoint
  unselected :
    ((candidates.zipIdx.filter fun ci => unselected pending ci.1).map fun ci => ci.1.absolutePath).Nodup
  elsewhere : ∀ c ∈ candidates, Client.unselected pending c = true →
    ∀ ci ∈ pending.zipIdx, c.absolutePath ∉ copiesOf ci.1 (w.turn ci.2)

/-! ## The queue -/

namespace TransferQueue

variable {q q' : TransferQueue} {id tid : Uuid}

def Waits (q : TransferQueue) (id : Uuid) : Prop :=
  ∃ item ∈ q.waiting, item.id = id

def Moves (q : TransferQueue) (id : Uuid) : Prop :=
  ∃ item ∈ q.active, item.id = id

/-- The transfer with an id is in neither list any more. -/
structure Freed (q : TransferQueue) (tid : Uuid) (q' : TransferQueue) : Prop where
  invariant : q'.Invariant
  next : q'.nextId = q.nextId
  waits : ∀ id, q'.Waits id ↔ q.Waits id ∧ id ≠ tid
  moves : ∀ id, q'.Moves id ↔ q.Moves id ∧ id ≠ tid

lemma exists_filter {l : List TransferItem} : (∃ item ∈ l.filter (·.id ≠ tid), item.id = id) ↔
    (∃ item ∈ l, item.id = id) ∧ id ≠ tid := by
  constructor
  · rintro ⟨item, hitem, rfl⟩
    obtain ⟨hmem, hne⟩ := List.mem_filter.mp hitem
    exact ⟨⟨item, hmem, rfl⟩, of_decide_eq_true hne⟩
  · rintro ⟨⟨item, hmem, rfl⟩, hne⟩
    exact ⟨item, List.mem_filter.mpr ⟨hmem, decide_eq_true hne⟩, rfl⟩

lemma waits_of_perm (h : q'.waiting.Perm (q.waiting.filter (·.id ≠ tid))) :
    q'.Waits id ↔ q.Waits id ∧ id ≠ tid :=
  (exists_congr fun _ => and_congr_left' h.mem_iff).trans exists_filter

lemma moves_of_eq (h : q'.active = q.active.filter (·.id ≠ tid)) : q'.Moves id ↔ q.Moves id ∧ id ≠ tid := by
  unfold Moves
  rw [h]
  exact exists_filter

lemma abandon_freed (h : q.Invariant) (tid : Uuid) : q.Freed tid (q.abandon tid) := by
  obtain ⟨hspec, hinv⟩ := abandon_spec h tid
  have hcase := waitingRemoveById_case
    (q := { q with meters := q.meters.erase tid, active := q.active.filter fun i => i.id ≠ tid })
    h.indexed tid
  obtain ⟨-, -, helse⟩ := hcase.leaves h.indexed h.by_id.nodup
  exact ⟨hinv, helse.next, fun _ => waits_of_perm hspec.waiting, fun _ => moves_of_eq hspec.active⟩

lemma complete_freed (h : q.Invariant) (tid : Uuid) (now : Int64) : q.Freed tid (q.complete tid now) := by
  obtain ⟨hspec, hinv, -⟩ := complete_spec h tid now
  refine ⟨hinv, ?_, fun _ => waits_of_perm hspec.waiting, fun _ => moves_of_eq hspec.active⟩
  have h' : { q with meters := q.meters.erase tid }.Invariant := { h with }
  have hcase := takeActiveOrWaiting_case h' tid
  simp only [complete]
  generalize { q with meters := q.meters.erase tid }.takeActiveOrWaiting tid = res at hcase
  cases hcase with
  | absent hnone => rfl
  | found item q' hnamed hactive hwaiting hindex helse =>
    dsimp only
    split
    · exact helse.next
    · exact helse.next

lemma promote_of_waits (h : q.Invariant) (hwaits : q.Waits tid) (now : Int64) :
    (q.promote tid now).1 = true ∧ (q.promote tid now).2.Invariant ∧
      (q.promote tid now).2.nextId = q.nextId ∧
      (∀ id, (q.promote tid now).2.Waits id ↔ q.Waits id ∧ id ≠ tid) ∧
      ∀ id, (q.promote tid now).2.Moves id ↔ q.Moves id ∨ id = tid := by
  obtain ⟨hspec, hinv⟩ := promote_spec h tid now
  have hnext : (q.promote tid now).2.nextId = q.nextId := by
    have hcase := waitingRemoveById_case h.indexed tid
    unfold promote
    generalize q.waitingRemoveById tid = res at hcase
    cases hcase with
    | absent hnone => rfl
    | found item q' hkey hperm hindex helse => exact helse.next
  refine ⟨hspec.answer.mpr hwaits, hinv, hnext, fun _ => waits_of_perm hspec.waiting, fun id => ?_⟩
  unfold Moves
  rw [hspec.active]
  constructor
  · rintro ⟨item, hitem, rfl⟩
    obtain hitem | hitem := List.mem_append.mp hitem
    · exact .inl ⟨item, hitem, rfl⟩
    · obtain ⟨waited, hwaited, rfl⟩ := List.mem_map.mp hitem
      exact .inr (of_decide_eq_true (List.mem_filter.mp hwaited).2)
  · rintro (⟨item, hitem, rfl⟩ | rfl)
    · exact ⟨item, List.mem_append_left _ hitem, rfl⟩
    · obtain ⟨item, hitem, rfl⟩ := hwaits
      refine ⟨item.mark .active now, List.mem_append_right _ (List.mem_map_of_mem ?_), rfl⟩
      exact List.mem_filter.mpr ⟨hitem, decide_eq_true rfl⟩

lemma promote_of_not_waits (h : q.Invariant) (hnone : ¬ q.Waits tid) (now : Int64) :
    q.promote tid now = (false, q) := by
  have hcase := waitingRemoveById_case h.indexed tid
  unfold promote
  generalize q.waitingRemoveById tid = res at hcase
  cases hcase with
  | absent _ => rfl
  | found item q' hkey hperm hindex helse =>
    exact absurd ⟨item, hperm.mem_iff.mp List.mem_cons_self, hkey⟩ hnone

lemma dropKey_mem (h : q.Invariant) (key : WaitingKey) :
    (∀ item ∈ (q.dropKey key).waiting, item ∈ q.waiting) ∧ (∀ item ∈ (q.dropKey key).active, item ∈ q.active) ∧
      (∀ item ∈ q.waiting, keyOf item ≠ key → item ∈ (q.dropKey key).waiting) ∧
      (q.dropKey key).nextId = q.nextId := by
  obtain ⟨hperm, -, helse⟩ := dropKey_spec h key
  have hactive : (q.dropKey key).active = q.active.filter (keyOf · ≠ key) := helse.active
  have hwaiting : (q.dropKey key).waiting.Perm (q.waiting.filter (keyOf · ≠ key)) := by
    unfold unfinished at hperm
    rw [List.filter_append, hactive] at hperm
    exact (List.perm_append_left_iff _).mp hperm
  refine ⟨fun item hitem => ?_, fun item hitem => ?_, fun item hitem hne => ?_, helse.next⟩
  · exact (List.mem_filter.mp (hwaiting.mem_iff.mp hitem)).1
  · rw [hactive] at hitem
    exact (List.mem_filter.mp hitem).1
  · exact hwaiting.mem_iff.mpr (List.mem_filter.mpr ⟨hitem, decide_eq_true hne⟩)

lemma begin_mem (h : q.Invariant) (b : BindingId) (d : TransferDirection) (path : Path) (size : Option Int64)
    (now : Int64) : (q.begin b d path size now).1 = q.nextId ∧ (q.begin b d path size now).2.Invariant ∧
      (q.begin b d path size now).2.nextId = q.nextId + 1 ∧
      (∀ id, (q.begin b d path size now).2.Waits id → q.Waits id) ∧
      ∀ id, (q.begin b d path size now).2.Moves id → q.Moves id ∨ id = q.nextId := by
  obtain ⟨hwaiting, hactive, -, hnext⟩ := dropKey_mem h (keyAt b d path)
  refine ⟨hnext, begin_invariant h b d path size now, congrArg (· + 1) hnext, ?_, ?_⟩
  · rintro id ⟨item, hitem, rfl⟩
    exact ⟨item, hwaiting item hitem, rfl⟩
  · rintro id ⟨item, hitem, rfl⟩
    obtain hitem | hitem := List.mem_append.mp hitem
    · exact .inl ⟨item, hactive item hitem, rfl⟩
    · rw [List.mem_singleton.mp hitem]
      exact .inr hnext

lemma enqueueWaiting_mem (h : q.Invariant) (b : BindingId) (d : TransferDirection) (path : Path)
    (size : Option Int64) (now : Int64) :
    (q.enqueueWaiting b d path size now).1 = q.nextId ∧ (q.enqueueWaiting b d path size now).2.Invariant ∧
      (q.enqueueWaiting b d path size now).2.nextId = q.nextId + 1 ∧
      (∀ id, (q.enqueueWaiting b d path size now).2.Waits id → q.Waits id ∨ id = q.nextId) ∧
      (∀ id, (q.enqueueWaiting b d path size now).2.Moves id → q.Moves id) ∧
      (∀ item ∈ q.waiting, keyOf item ≠ keyAt b d path →
        item ∈ (q.enqueueWaiting b d path size now).2.waiting) ∧
      newItem q.nextId (keyAt b d path) size .waiting now ∈ (q.enqueueWaiting b d path size now).2.waiting := by
  obtain ⟨hwaiting, hactive, hkept, hnext⟩ := dropKey_mem h (keyAt b d path)
  refine ⟨hnext, enqueueWaiting_invariant h b d path size now, congrArg (· + 1) hnext, ?_, ?_, ?_, ?_⟩
  · rintro id ⟨item, hitem, rfl⟩
    obtain hitem | hitem := List.mem_append.mp hitem
    · exact .inl ⟨item, hwaiting item hitem, rfl⟩
    · rw [List.mem_singleton.mp hitem]
      exact .inr hnext
  · rintro id ⟨item, hitem, rfl⟩
    exact ⟨item, hactive item hitem, rfl⟩
  · exact fun item hitem hne => List.mem_append_left _ (hkept item hitem hne)
  · rw [← hnext]
    exact List.mem_append_right _ (List.mem_singleton_self _)

end TransferQueue

open TransferQueue

variable {sha256 : Bytes → ContentHash} {b : Binding} {w : BatchWorld} {σ σ' : Uploader} {base : Uuid}
  {turns : List PendingTurn}

/-! ## The places in the queue -/

/-- What the queue is once each pending file has its place. -/
structure Enqueued (q : TransferQueue) (turns : List PendingTurn) (q' : TransferQueue) : Prop where
  invariant : q'.Invariant
  next : q.nextId ≤ q'.nextId
  ids : ∀ p ∈ turns, q.nextId ≤ p.waitingId ∧ p.waitingId < q'.nextId
  nodup : (turns.map PendingTurn.waitingId).Nodup
  waits : ∀ id, q'.Waits id → q.Waits id ∨ id ∈ turns.map PendingTurn.waitingId
  moves : ∀ id, q'.Moves id → q.Moves id

lemma enqueueAll_enqueued (l : List (SourceCandidate × Nat)) : ∀ {q : TransferQueue}, q.Invariant →
    Enqueued q (enqueueAll b w l q).1 (enqueueAll b w l q).2 := by
  induction l with
  | nil =>
    intro q h
    exact ⟨h, Nat.le_refl _, fun _ hp => absurd hp List.not_mem_nil, List.nodup_nil, fun _ => .inl, fun _ => id⟩
  | cons ci l ih =>
    intro q h
    obtain ⟨c, i⟩ := ci
    obtain ⟨hid, hinv, hnext, hwaits, hmoves, -, -⟩ :=
      enqueueWaiting_mem h b.id .upload c.relativePath (some (.ofInt c.size)) w.queueMs
    have hrest := ih hinv
    simp only [enqueueAll]
    generalize q.enqueueWaiting b.id .upload c.relativePath (some (.ofInt c.size)) w.queueMs = enqueued at *
    obtain ⟨id, q₁⟩ := enqueued
    dsimp only at hid hinv hnext hwaits hmoves hrest ⊢
    subst hid
    generalize enqueueAll b w l q₁ = all at hrest ⊢
    have hgrows := hrest.next
    rw [hnext] at hgrows
    constructor
    · exact hrest.invariant
    · exact (Nat.le_succ _).trans hgrows
    · intro p hp
      obtain rfl | hp := List.mem_cons.mp hp
      · exact ⟨Nat.le_refl _, hgrows⟩
      · obtain ⟨hle, hlt⟩ := hrest.ids p hp
        rw [hnext] at hle
        exact ⟨(Nat.le_succ _).trans hle, hlt⟩
    · refine List.nodup_cons.mpr ⟨fun hin => ?_, hrest.nodup⟩
      obtain ⟨p, hp, hpid⟩ := List.mem_map.mp hin
      have hle := (hrest.ids p hp).1
      rw [hnext, hpid] at hle
      exact Nat.not_succ_le_self _ hle
    · intro id hid
      obtain hid | hid := hrest.waits id hid
      · obtain hid | rfl := hwaits id hid
        · exact .inl hid
        · exact .inr List.mem_cons_self
      · exact .inr (List.mem_cons_of_mem _ hid)
    · exact fun id hid => hmoves id (hrest.moves id hid)

lemma enqueueAll_turns (l : List (SourceCandidate × Nat)) : ∀ q : TransferQueue,
    (enqueueAll b w l q).1.map (fun p => (p.candidate, p.world)) = l.map fun ci => (ci.1, w.turn ci.2) := by
  induction l with
  | nil => exact fun q => rfl
  | cons ci l ih => exact fun q => congrArg (_ :: ·) (ih _)

def SourceCandidate.key (b : Binding) (c : SourceCandidate) : WaitingKey :=
  keyAt b.id .upload c.relativePath

lemma enqueueAll_waits (l : List (SourceCandidate × Nat)) : ∀ {q : TransferQueue}, q.Invariant →
    (l.map fun ci => ci.1.key b).Nodup →
    (∀ item ∈ q.waiting, (keyOf item ∉ l.map fun ci => ci.1.key b) → item ∈ (enqueueAll b w l q).2.waiting) ∧
      ∀ p ∈ (enqueueAll b w l q).1, (enqueueAll b w l q).2.Waits p.waitingId := by
  induction l with
  | nil => exact fun _ _ => ⟨fun item hitem _ => hitem, fun p hp => absurd hp List.not_mem_nil⟩
  | cons ci l ih =>
    intro q h hkeys
    obtain ⟨c, i⟩ := ci
    obtain ⟨hnew, hkeys⟩ := List.nodup_cons.mp hkeys
    obtain ⟨hid, hinv, -, -, -, hkept, hitem⟩ :=
      enqueueWaiting_mem h b.id .upload c.relativePath (some (.ofInt c.size)) w.queueMs
    obtain ⟨hold, hrest⟩ := ih hinv hkeys
    constructor
    · intro item hmem hkey
      obtain ⟨hne, hkey⟩ := not_or.mp (mt List.mem_cons.mpr hkey)
      exact hold item (hkept item hmem hne) hkey
    · intro p hp
      obtain rfl | hp := List.mem_cons.mp hp
      · exact ⟨_, hold _ hitem hnew, hid.symm⟩
      · exact hrest p hp

/-- The places of the batch are those of the files to come. -/
structure Places (base : Uuid) (q : TransferQueue) (ids : List Uuid) : Prop where
  invariant : q.Invariant
  only : ∀ id, base ≤ id → q.Waits id ∨ q.Moves id → id ∈ ids
  drawn : ∀ id ∈ ids, id < q.nextId
  idle : ∀ id ∈ ids, ¬ q.Moves id
  nodup : ids.Nodup

lemma Places.enqueued {q q' : TransferQueue} (hq : q.Invariant) (h : Enqueued q turns q') :
    Places q.nextId q' (turns.map PendingTurn.waitingId) where
  invariant := h.invariant
  only id hbase hin := by
    have hdrawn : ¬ (q.Waits id ∨ q.Moves id) := by
      rintro (⟨item, hitem, rfl⟩ | ⟨item, hitem, rfl⟩)
      · exact absurd (hq.drawn item (List.mem_append_right _ hitem)) (Nat.not_lt.mpr hbase)
      · exact absurd (hq.drawn item (List.mem_append_left _ hitem)) (Nat.not_lt.mpr hbase)
    obtain hin | hin := hin
    · exact (h.waits id hin).resolve_left fun hold => hdrawn (.inl hold)
    · exact absurd (.inr (h.moves id hin)) hdrawn
  drawn id hid := by
    obtain ⟨p, hp, rfl⟩ := List.mem_map.mp hid
    exact (h.ids p hp).2
  idle id hid hmoves := by
    obtain ⟨p, hp, rfl⟩ := List.mem_map.mp hid
    obtain ⟨item, hitem, heq⟩ := h.moves _ hmoves
    have hlt := hq.drawn item (List.mem_append_left _ hitem)
    rw [heq] at hlt
    exact absurd (h.ids p hp).1 (Nat.not_le.mpr hlt)
  nodup := h.nodup

lemma transferPromote_of_waits {tid : Uuid} {c : SourceCandidate} {now : Int64} (h : σ.queue.Invariant)
    (hwaits : σ.queue.Waits tid) :
    σ.transferPromote tid b c now = (tid, { σ with queue := (σ.queue.promote tid now).2 }) := by
  have hok := (promote_of_waits h hwaits now).1
  unfold Uploader.transferPromote
  generalize σ.queue.promote tid now = promoted at hok ⊢
  obtain ⟨ok, q⟩ := promoted
  subst hok
  rfl

/-- A file whose transfer is freed has no place any more. -/
lemma Places.turn {tid : Uuid} {ids : List Uuid} (h : Places base σ.queue (tid :: ids)) (c : SourceCandidate)
    (now : Int64) {q : TransferQueue}
    (hfreed : (σ.transferPromote tid b c now).2.queue.Freed (σ.transferPromote tid b c now).1 q) :
    Places base q ids := by
  obtain ⟨hnew, hnodup⟩ := List.nodup_cons.mp h.nodup
  by_cases hwaits : σ.queue.Waits tid
  · obtain ⟨-, hinv, hnext, hwaits', hmoves'⟩ := promote_of_waits h.invariant hwaits now
    rw [transferPromote_of_waits h.invariant hwaits] at hfreed
    constructor
    · exact hfreed.invariant
    · intro id hbase hin
      rw [hfreed.waits, hfreed.moves, ← or_and_right] at hin
      obtain ⟨hin, hne⟩ := hin
      have hold : σ.queue.Waits id ∨ σ.queue.Moves id := by
        obtain hin | hin := hin
        · exact .inl ((hwaits' id).mp hin).1
        · exact .inr (((hmoves' id).mp hin).resolve_right hne)
      exact (List.mem_cons.mp (h.only id hbase hold)).resolve_left hne
    · intro id hid
      rw [hfreed.next]
      exact hnext ▸ h.drawn id (List.mem_cons_of_mem _ hid)
    · intro id hid hmoves
      obtain ⟨hmoves, hne⟩ := (hfreed.moves id).mp hmoves
      exact h.idle id (List.mem_cons_of_mem _ hid) (((hmoves' id).mp hmoves).resolve_right hne)
    · exact hnodup
  · obtain ⟨hid, hinv, hnext, hwaits', hmoves'⟩ :=
      begin_mem h.invariant b.id .upload c.relativePath (some (.ofInt c.size)) now
    have hpromote : σ.transferPromote tid b c now =
        ((σ.queue.begin b.id .upload c.relativePath (some (.ofInt c.size)) now).1,
          { σ with queue := (σ.queue.begin b.id .upload c.relativePath (some (.ofInt c.size)) now).2 }) := by
      unfold Uploader.transferPromote
      rw [promote_of_not_waits h.invariant hwaits]
    rw [hpromote] at hfreed
    constructor
    · exact hfreed.invariant
    · intro id hbase hin
      rw [hfreed.waits, hfreed.moves, ← or_and_right] at hin
      obtain ⟨hin, hne⟩ := hin
      have hold : σ.queue.Waits id ∨ σ.queue.Moves id := by
        obtain hin | hin := hin
        · exact .inl (hwaits' id hin)
        · exact .inr ((hmoves' id hin).resolve_right fun heq => hne (heq.trans hid.symm))
      have hself : id ≠ tid := by
        rintro rfl
        exact hold.elim hwaits (h.idle id List.mem_cons_self)
      exact (List.mem_cons.mp (h.only id hbase hold)).resolve_left hself
    · intro id hin
      rw [hfreed.next, hnext]
      exact Nat.lt_succ_of_lt (h.drawn id (List.mem_cons_of_mem _ hin))
    · intro id hin hmoves
      obtain ⟨hmoves, hne⟩ := (hfreed.moves id).mp hmoves
      obtain hmoves | rfl := hmoves' id hmoves
      · exact h.idle id (List.mem_cons_of_mem _ hin) hmoves
      · exact hne hid.symm
    · exact hnodup

/-! ## One turn -/

/-- What is in the cache after a copy is to be removed. -/
def cleaned (cache : List Path) (ephemeral : Bool) (path : Path) (fails : Bool) : List Path :=
  if ephemeral && !fails then cache.filter (· ≠ path) else cache

lemma mem_cleaned {cache : List Path} {ephemeral fails : Bool} {path p : Path} :
    p ∈ cleaned cache ephemeral path fails ↔
    p ∈ cache ∧ (ephemeral = true → fails = false → p ≠ path) := by
  unfold cleaned
  cases ephemeral with
  | false => simp
  | true => cases fails <;> simp

@[simp] lemma cleanUp_cache (ephemeral : Bool) (path : Path) (fails : Bool) :
    (σ.cleanUp ephemeral path fails).cache = cleaned σ.cache ephemeral path fails := by
  unfold Uploader.cleanUp cleaned
  split
  · rfl
  · rfl

@[simp] lemma cleanUp_queue (ephemeral : Bool) (path : Path) (fails : Bool) :
    (σ.cleanUp ephemeral path fails).queue = σ.queue := by
  unfold Uploader.cleanUp
  split
  · rfl
  · rfl

@[simp] lemma cleanUp_made (ephemeral : Bool) (path : Path) (fails : Bool) :
    (σ.cleanUp ephemeral path fails).made = σ.made := by
  unfold Uploader.cleanUp
  split
  · rfl
  · rfl

lemma located_queue (c : SourceCandidate) (path : Path) (ephemeral : Bool) :
    (σ.located c path ephemeral).queue = σ.queue := by
  unfold Uploader.located
  split
  · rfl
  · rfl

/-- What a turn leaves: `tid` is the transfer it promotes, and `τ` is the state in which it has. -/
inductive TurnEnd (sha256 : Bytes → ContentHash) (b : Binding) (c : SourceCandidate) (w : TurnWorld)
    (σ : Uploader)
    (tid : Uuid) (τ σ' : Uploader) : Prop where
  | unread (hread : w.getEntryFails = true) (hsame : σ' = σ)
  | relaying (hread : w.getEntryFails = false) (hrelaying : w.relaying c = true)
      (hfreed : τ.queue.Freed tid σ'.queue)
      (hcache : σ'.cache = cleaned τ.cache c.ephemeral c.absolutePath w.removeFails) (hmade : σ'.made = τ.made)
  | unmade (hread : w.getEntryFails = false) (hrelaying : w.relaying c = false) (hlocate : w.locate c = none)
      (hfreed : τ.queue.Freed tid σ'.queue) (hcache : σ'.cache = τ.cache) (hmade : σ'.made = τ.made)
  | kept {path ephemeral} (hread : w.getEntryFails = false) (hrelaying : w.relaying c = false)
      (hlocate : w.locate c = some (path, ephemeral)) (hunrecorded : unrecorded sha256 b c w σ.index = true)
      (hqueue : σ'.queue = τ.queue) (hcache : σ'.cache = (τ.located c path ephemeral).cache)
      (hmade : σ'.made = (τ.located c path ephemeral).made)
  | ended {path ephemeral} (hread : w.getEntryFails = false) (hrelaying : w.relaying c = false)
      (hlocate : w.locate c = some (path, ephemeral)) (hrecorded : unrecorded sha256 b c w σ.index = false)
      (hfreed : τ.queue.Freed tid σ'.queue)
      (hcache : σ'.cache = cleaned (τ.located c path ephemeral).cache ephemeral path w.removeFails)
      (hmade : σ'.made = (τ.located c path ephemeral).made)

lemma TransferQueue.Freed.of_meter {q q' : TransferQueue} {id tid : Uuid} (h : (q.meter id).Freed tid q') :
    q.Freed tid q' := by
  have hframe := meter_frame id q
  rw [hframe] at h
  exact ⟨h.invariant, h.next, h.waits, h.moves⟩

lemma transferPromote_spec (h : σ.queue.Invariant) (tid : Uuid) (c : SourceCandidate) (now : Int64) :
    (σ.transferPromote tid b c now).2.queue.Invariant ∧
      (σ.transferPromote tid b c now).2 = { σ with queue := (σ.transferPromote tid b c now).2.queue } := by
  have hpromote := (promote_spec h tid now).2
  unfold Uploader.transferPromote
  generalize σ.queue.promote tid now = promoted at hpromote ⊢
  obtain ⟨ok, q⟩ := promoted
  cases ok with
  | true => exact ⟨hpromote, rfl⟩
  | false => exact ⟨begin_invariant hpromote b.id .upload c.relativePath (some (.ofInt c.size)) now, rfl⟩

lemma TurnEnd.of_freed {c : SourceCandidate} {w : TurnWorld} {tid : Uuid} {τ ρ : Uploader} {path : Path}
    {ephemeral : Bool} (hread : w.getEntryFails = false) (hrelaying : w.relaying c = false)
    (hlocate : w.locate c = some (path, ephemeral)) (hrecorded : unrecorded sha256 b c w σ.index = false)
    (hfreed : τ.queue.Freed tid ρ.queue) (hcache : ρ.cache = (τ.located c path ephemeral).cache)
    (hmade : ρ.made = (τ.located c path ephemeral).made) :
    TurnEnd sha256 b c w σ tid τ (ρ.cleanUp ephemeral path w.removeFails) := by
  refine .ended hread hrelaying hlocate hrecorded ?_ ?_ ?_
  · rwa [cleanUp_queue]
  · rw [cleanUp_cache, hcache]
  · rw [cleanUp_made, hmade]

variable (sha256) in
/-- Every exit of a turn is of one of these kinds. -/
lemma pushOneAt_end (h : σ.queue.Invariant) (c : SourceCandidate) (waitingId : Uuid) (w : TurnWorld) :
    TurnEnd sha256 b c w σ (σ.transferPromote waitingId b c w.queueMs).1
      (σ.transferPromote waitingId b c w.queueMs).2 (pushOneAt sha256 b c waitingId w σ).1 := by
  obtain ⟨hinv, hframe⟩ := transferPromote_spec (b := b) h waitingId c w.queueMs
  unfold pushOneAt
  generalize σ.transferPromote waitingId b c w.queueMs = promoted at hinv hframe ⊢
  obtain ⟨tid, τ⟩ := promoted
  dsimp only at hinv hframe ⊢
  split
  · case isTrue hread => exact .unread hread rfl
  · case isFalse hread =>
    have hread := Bool.eq_false_iff.mpr hread
    split
    · case isTrue hrelaying =>
      refine .relaying hread hrelaying ?_ (cleanUp_cache _ _ _) (cleanUp_made _ _ _)
      rw [cleanUp_queue]
      exact abandon_freed hinv tid
    · case isFalse hrelaying =>
      have hrelaying := Bool.eq_false_iff.mpr hrelaying
      split
      · case h_1 hlocate => exact .unmade hread hrelaying hlocate (abandon_freed hinv tid) rfl rfl
      · case h_2 path ephemeral hlocate =>
        have hqueue := located_queue (σ := τ) c path ephemeral
        have habandon : τ.queue.Freed tid ((τ.located c path ephemeral).queue.abandon tid) :=
          hqueue ▸ abandon_freed hinv tid
        have hcomplete : τ.queue.Freed tid ((τ.located c path ephemeral).queue.complete tid w.queueMs) :=
          hqueue ▸ complete_freed hinv tid w.queueMs
        cases hcontent : w.content with
        | none =>
          have hrecorded : unrecorded sha256 b c w σ.index = false := by rw [unrecorded, hcontent]
          exact .of_freed hread hrelaying hlocate hrecorded habandon rfl rfl
        | some bytes =>
          dsimp only
          split
          · case isTrue hsame =>
            have hsome : (σ.index.getEntry b.id c.relativePath).isSome = true := by
              obtain ⟨e, he, -⟩ := Option.bind_eq_some_iff.mp hsame
              rw [he]
              rfl
            have hunrecorded : unrecorded sha256 b c w σ.index = w.upsertFails := by
              rw [unrecorded, hcontent]
              exact if_pos hsame
            rw [hsome, Bool.and_true]
            split
            · case isTrue hfails =>
              exact .kept hread hrelaying hlocate (hunrecorded.trans hfails) hqueue rfl rfl
            · case isFalse hwrites =>
              have hrecorded := hunrecorded.trans (Bool.eq_false_iff.mpr hwrites)
              obtain ⟨e, he⟩ := Option.isSome_iff_exists.mp hsome
              rw [he]
              exact .of_freed hread hrelaying hlocate hrecorded hcomplete rfl rfl
          · case isFalse hnew =>
            have hunrecorded : unrecorded sha256 b c w σ.index =
                ((w.remote.any fun r => r.isUploaded && r.contentHash = some (sha256 bytes)) &&
                  (w.getCursorFails || w.upsertFails)) := by
              rw [unrecorded, hcontent]
              exact if_neg hnew
            split
            · case isTrue hconfirmed =>
              rw [hconfirmed, Bool.true_and] at hunrecorded
              split
              · case isTrue hfails =>
                exact .kept hread hrelaying hlocate (hunrecorded.trans hfails) hqueue rfl rfl
              · case isFalse hwrites =>
                have hrecorded := hunrecorded.trans (Bool.eq_false_iff.mpr hwrites)
                exact .of_freed hread hrelaying hlocate hrecorded hcomplete rfl rfl
            · case isFalse hconfirmed =>
              rw [Bool.eq_false_iff.mpr hconfirmed, Bool.false_and] at hunrecorded
              cases hparents : w.parents with
              | error scope => exact .of_freed hread hrelaying hlocate hunrecorded habandon rfl rfl
              | ok done =>
                have hmeter := meter_invariant hinv tid
                have habandon' : τ.queue.Freed tid
                    (((τ.located c path ephemeral).queue.meter tid).abandon tid) :=
                  hqueue ▸ (abandon_freed hmeter tid).of_meter
                have hcomplete' :
                    τ.queue.Freed tid (((τ.located c path ephemeral).queue.meter tid).complete tid w.queueMs) :=
                  hqueue ▸ (complete_freed hmeter tid w.queueMs).of_meter
                cases hupload : w.upload with
                | error scope => exact .of_freed hread hrelaying hlocate hunrecorded habandon' rfl rfl
                | ok outcome =>
                  -- the upload is over: the copy is gone before the index is written
                  have hsent : TurnEnd sha256 b c w σ tid τ
                      ((Uploader.transferComplete
                        { τ.located c path ephemeral with
                          queue := (τ.located c path ephemeral).queue.meter tid } tid
                        w.queueMs).cleanUp ephemeral path w.removeFails) :=
                    .of_freed hread hrelaying hlocate hunrecorded hcomplete' rfl rfl
                  cases outcome with
                  | handedOff => exact hsent
                  | stored =>
                    dsimp only
                    split
                    · exact hsent
                    · refine
                        .ended hread hrelaying hlocate hunrecorded ?_ (cleanUp_cache _ _ _) (cleanUp_made _ _ _)
                      show τ.queue.Freed tid (Uploader.cleanUp _ ephemeral path w.removeFails).queue
                      rw [cleanUp_queue]
                      exact hcomplete'

section Turn

variable {c : SourceCandidate} {w : TurnWorld} {tid : Uuid} {τ : Uploader} {path p : Path} {ephemeral : Bool}

lemma mem_located_cache : p ∈ (τ.located c path ephemeral).cache ↔
    p ∈ τ.cache ∨ (c.sourceUri.isSome && ephemeral) = true ∧ p = path := by
  unfold Uploader.located
  split
  · case isTrue hmade =>
    rw [hmade, List.mem_cons, eq_self, true_and]
    exact Or.comm
  · case isFalse hmade => exact (or_iff_left fun h => hmade h.1).symm

lemma mem_located_made : p ∈ (τ.located c path ephemeral).made ↔
    p ∈ τ.made ∨ (c.sourceUri.isSome && ephemeral) = true ∧ p = path := by
  unfold Uploader.located
  split
  · case isTrue hmade =>
    rw [hmade, List.mem_cons, eq_self, true_and]
    exact Or.comm
  · case isFalse hmade => exact (or_iff_left fun h => hmade h.1).symm

lemma listed_mem_copiesOf (h : c.ephemeral = true) : c.absolutePath ∈ copiesOf c w := by
  unfold copiesOf
  rw [if_pos h]
  exact List.mem_append_left _ (List.mem_singleton_self _)

lemma located_mem_copiesOf (h : w.locate c = some (path, true)) : path ∈ copiesOf c w := by
  unfold TurnWorld.locate at h
  split at h
  · case isTrue huri =>
    unfold copiesOf
    rw [if_pos huri, h]
    exact List.mem_append_right _ (List.mem_singleton_self _)
  · obtain ⟨rfl, hephemeral⟩ := Prod.mk.inj (Option.some.inj h)
    exact listed_mem_copiesOf hephemeral

/-- A tidy turn frees its transfer and leaves no copy of its file. -/
lemma TurnEnd.of_tidy (h : TurnEnd sha256 b c w σ tid τ σ') (hcaches : τ.cache = σ.cache)
    (hmades : τ.made = σ.made)
    (htidy : tidy sha256 b c w σ.index = true) :
    τ.queue.Freed tid σ'.queue ∧ (∀ p ∈ σ'.cache, p ∈ σ.cache) ∧
      (c.ephemeral = true → c.absolutePath ∉ σ'.cache) ∧ ∀ p ∈ σ'.made, p ∈ σ.made ∨ p ∉ σ'.cache := by
  unfold tidy at htidy
  cases h with
  | unread hread hsame =>
    rw [hread] at htidy
    exact absurd htidy Bool.false_ne_true
  | relaying hread hrelaying hfreed hcache hmade =>
    rw [hread, if_pos hrelaying] at htidy
    refine ⟨hfreed, fun p hp => ?_, fun hephemeral hin => ?_, fun p hp => ?_⟩
    · rw [hcache, hcaches] at hp
      exact (mem_cleaned.mp hp).1
    · rw [hcache] at hin
      have hremoved : w.removeFails = false := by simpa [hephemeral] using htidy
      exact (mem_cleaned.mp hin).2 hephemeral hremoved rfl
    · exact .inl (hmades ▸ hmade ▸ hp)
  | unmade hread hrelaying hlocate hfreed hcache hmade =>
    rw [hread, if_neg (Bool.eq_false_iff.mp hrelaying), hlocate] at htidy
    have hplain : c.ephemeral = false := by simpa using htidy
    refine ⟨hfreed, fun p hp => hcaches ▸ hcache ▸ hp, fun hephemeral => ?_,
      fun p hp => .inl (hmades ▸ hmade ▸ hp)⟩
    rw [hplain] at hephemeral
    exact absurd hephemeral Bool.false_ne_true
  | kept hread hrelaying hlocate hunrecorded hqueue hcache hmade =>
    rw [hread, if_neg (Bool.eq_false_iff.mp hrelaying), hlocate, hunrecorded] at htidy
    exact absurd htidy Bool.false_ne_true
  | @ended path ephemeral hread hrelaying hlocate hrecorded hfreed hcache hmade =>
    rw [hread, if_neg (Bool.eq_false_iff.mp hrelaying), hlocate, hrecorded] at htidy
    obtain ⟨hremove, hself⟩ : (ephemeral = true → w.removeFails = false) ∧
        (c.ephemeral = true → ephemeral = true ∧ path = c.absolutePath) := by
      constructor
      · intro he
        simp [he] at htidy
        exact htidy.1
      · intro he
        simp [he] at htidy
        exact htidy.2
    have hclean : ∀ p ∈ σ'.cache, p ∈ σ.cache ∧ (ephemeral = true → p ≠ path) := by
      intro p hp
      rw [hcache, mem_cleaned, mem_located_cache, hcaches] at hp
      obtain ⟨hin, hne⟩ := hp
      refine ⟨hin.resolve_right fun hnew => ?_, fun he => hne he (hremove he)⟩
      have he : ephemeral = true := (Bool.and_eq_true _ _ ▸ hnew.1).2
      exact hne he (hremove he) hnew.2
    refine ⟨hfreed, fun p hp => (hclean p hp).1, fun hephemeral hin => ?_, fun p hp => ?_⟩
    · obtain ⟨he, hpath⟩ := hself hephemeral
      exact (hclean _ hin).2 he hpath.symm
    · rw [hmade, mem_located_made, hmades] at hp
      refine hp.imp_right fun hnew hin => ?_
      have he : ephemeral = true := (Bool.and_eq_true _ _ ▸ hnew.1).2
      exact (hclean p hin).2 he hnew.2

/-- A turn that is not tidy leaves its transfer, or a copy of its file. -/
lemma TurnEnd.of_untidy (h : TurnEnd sha256 b c w σ tid τ σ') (hcaches : τ.cache = σ.cache)
    (hlisted : c.ephemeral = true → c.absolutePath ∈ σ.cache) (htidy : tidy sha256 b c w σ.index = false) :
    σ' = σ ∨ σ'.queue = τ.queue ∨
      ∃ path ∈ σ'.cache, path ∈ copiesOf c w ∧
        (c.ephemeral = true ∧ path = c.absolutePath ∨ path ∈ σ'.made) := by
  unfold tidy at htidy
  cases h with
  | unread hread hsame => exact .inl hsame
  | kept hread hrelaying hlocate hunrecorded hqueue hcache hmade => exact .inr (.inl hqueue)
  | relaying hread hrelaying hfreed hcache hmade =>
    rw [hread, if_pos hrelaying] at htidy
    obtain ⟨hephemeral, hfails⟩ : c.ephemeral = true ∧ w.removeFails = true := by simpa using htidy
    refine .inr (.inr ⟨c.absolutePath, ?_, listed_mem_copiesOf hephemeral, .inl ⟨hephemeral, rfl⟩⟩)
    rw [hcache, mem_cleaned, hcaches, hfails]
    exact ⟨hlisted hephemeral, fun _ h => absurd h.symm Bool.false_ne_true⟩
  | unmade hread hrelaying hlocate hfreed hcache hmade =>
    rw [hread, if_neg (Bool.eq_false_iff.mp hrelaying), hlocate] at htidy
    have hephemeral : c.ephemeral = true := by simpa using htidy
    refine .inr (.inr ⟨c.absolutePath, ?_, listed_mem_copiesOf hephemeral, .inl ⟨hephemeral, rfl⟩⟩)
    rw [hcache, hcaches]
    exact hlisted hephemeral
  | @ended path ephemeral hread hrelaying hlocate hrecorded hfreed hcache hmade =>
    rw [hread, if_neg (Bool.eq_false_iff.mp hrelaying), hlocate, hrecorded] at htidy
    have hkept : ∀ p, (p ∈ σ.cache ∨ (c.sourceUri.isSome && ephemeral) = true ∧ p = path) →
        (ephemeral = true → w.removeFails = false → p ≠ path) → p ∈ σ'.cache := by
      intro p hin hne
      rw [hcache, mem_cleaned, mem_located_cache, hcaches]
      exact ⟨hin, hne⟩
    by_cases hfails : ephemeral = true ∧ w.removeFails = true
    · -- the copy that was sent cannot be removed
      obtain ⟨rfl, hfails⟩ := hfails
      have hstuck : ∀ p, true = true → w.removeFails = false → p ≠ path := by
        intro p _ hremoves
        rw [hfails] at hremoves
        exact absurd hremoves.symm Bool.false_ne_true
      cases huri : c.sourceUri.isSome with
      | true =>
        have hnew : path ∈ (τ.located c path true).made := mem_located_made.mpr (.inr ⟨by rw [huri]; rfl, rfl⟩)
        refine .inr (.inr
          ⟨path, hkept path (.inr ⟨by rw [huri]; rfl, rfl⟩) (hstuck path), ?_, .inr (hmade ▸ hnew)⟩)
        exact located_mem_copiesOf hlocate
      | false =>
        rw [TurnWorld.locate, huri, if_neg Bool.false_ne_true] at hlocate
        obtain ⟨rfl, hephemeral⟩ := Prod.mk.inj (Option.some.inj hlocate)
        exact .inr (.inr ⟨c.absolutePath, hkept _ (.inl (hlisted hephemeral)) (hstuck _),
          listed_mem_copiesOf hephemeral, .inl ⟨hephemeral, rfl⟩⟩)
    · -- another copy was listed than the one that was sent
      have hother : c.ephemeral = true ∧ ¬ (ephemeral = true ∧ path = c.absolutePath) := by
        have hremoves : (ephemeral && w.removeFails) = false := by
          cases hremove : ephemeral && w.removeFails with
          | false => rfl
          | true => exact absurd ((Bool.and_eq_true _ _).mp hremove) hfails
        dsimp only at htidy
        rw [hremoves] at htidy
        simpa using htidy
      refine .inr (.inr ⟨c.absolutePath, hkept _ (.inl (hlisted hother.1)) fun he _ heq => ?_,
        listed_mem_copiesOf hother.1, .inl ⟨hother.1, rfl⟩⟩)
      exact hother.2 ⟨he, heq.symm⟩

lemma TurnEnd.keeps_copy (h : TurnEnd sha256 b c w σ tid τ σ') (hcaches : τ.cache = σ.cache) (hin : p ∈ σ.cache)
    (hout : p ∉ copiesOf c w) : p ∈ σ'.cache := by
  cases h with
  | unread hread hsame => rwa [hsame]
  | relaying hread hrelaying hfreed hcache hmade =>
    rw [hcache, mem_cleaned, hcaches]
    refine ⟨hin, ?_⟩
    rintro hephemeral - rfl
    exact hout (listed_mem_copiesOf hephemeral)
  | unmade hread hrelaying hlocate hfreed hcache hmade => rwa [hcache, hcaches]
  | kept hread hrelaying hlocate hunrecorded hqueue hcache hmade =>
    rw [hcache, mem_located_cache, hcaches]
    exact .inl hin
  | ended hread hrelaying hlocate hrecorded hfreed hcache hmade =>
    rw [hcache, mem_cleaned, mem_located_cache, hcaches]
    refine ⟨.inl hin, ?_⟩
    rintro rfl - rfl
    exact hout (located_mem_copiesOf hlocate)

lemma TurnEnd.keeps_made (h : TurnEnd sha256 b c w σ tid τ σ') (hmades : τ.made = σ.made) (hin : p ∈ σ.made) :
    p ∈ σ'.made := by
  cases h with
  | unread hread hsame => rwa [hsame]
  | relaying hread hrelaying hfreed hcache hmade => rwa [hmade, hmades]
  | unmade hread hrelaying hlocate hfreed hcache hmade => rwa [hmade, hmades]
  | kept hread hrelaying hlocate hunrecorded hqueue hcache hmade =>
    rw [hmade, mem_located_made, hmades]
    exact .inl hin
  | ended hread hrelaying hlocate hrecorded hfreed hcache hmade =>
    rw [hmade, mem_located_made, hmades]
    exact .inl hin

lemma TurnEnd.keeps_place (hinv : σ.queue.Invariant) (hwaits : σ.queue.Waits tid)
    (h : TurnEnd sha256 b c w σ
      (σ.transferPromote tid b c w.queueMs).1 (σ.transferPromote tid b c w.queueMs).2 σ') :
    σ'.queue.Invariant ∧ ∀ id, id ≠ tid →
      (σ.queue.Waits id → σ'.queue.Waits id) ∧ (σ.queue.Moves id → σ'.queue.Moves id) := by
  obtain ⟨-, hinv', -, hwaits', hmoves'⟩ := promote_of_waits hinv hwaits w.queueMs
  rw [transferPromote_of_waits hinv hwaits] at h
  have hplaces : ∀ id, id ≠ tid → (σ.queue.Waits id → (σ.queue.promote tid w.queueMs).2.Waits id) ∧
      (σ.queue.Moves id → (σ.queue.promote tid w.queueMs).2.Moves id) := fun id hne =>
    ⟨fun hid => (hwaits' id).mpr ⟨hid, hne⟩, fun hid => (hmoves' id).mpr (.inl hid)⟩
  have hfree : (σ.queue.promote tid w.queueMs).2.Freed tid σ'.queue → σ'.queue.Invariant ∧ ∀ id, id ≠ tid →
      (σ.queue.Waits id → σ'.queue.Waits id) ∧ (σ.queue.Moves id → σ'.queue.Moves id) := fun hfreed =>
    ⟨hfreed.invariant, fun id hne => ⟨fun hid => (hfreed.waits id).mpr ⟨(hplaces id hne).1 hid, hne⟩,
      fun hid => (hfreed.moves id).mpr ⟨(hplaces id hne).2 hid, hne⟩⟩⟩
  cases h with
  | unread hread hsame =>
    subst hsame
    exact ⟨hinv, fun _ _ => ⟨id, id⟩⟩
  | relaying hread hrelaying hfreed hcache hmade => exact hfree hfreed
  | unmade hread hrelaying hlocate hfreed hcache hmade => exact hfree hfreed
  | ended hread hrelaying hlocate hrecorded hfreed hcache hmade => exact hfree hfreed
  | kept hread hrelaying hlocate hunrecorded hqueue hcache hmade =>
    rw [hqueue]
    exact ⟨hinv', hplaces⟩

end Turn

/-! ## The loop -/

section Loop

variable {l : PushLoop} {p : PendingTurn}

variable (sha256) in
lemma step_stopped (h : l.stopped = true) : l.step sha256 b p = { l with left := l.left ++ [p] } := by
  rw [PushLoop.step, if_pos h]

variable (sha256) in
lemma step_going (h : l.stopped = false) : (l.step sha256 b p).left = l.left ∧
    (l.step sha256 b p).uploader.queue =
      (pushOneAt sha256 b p.candidate p.waitingId p.world l.uploader).1.queue ∧
    (l.step sha256 b p).uploader.cache =
      (pushOneAt sha256 b p.candidate p.waitingId p.world l.uploader).1.cache ∧
    (l.step sha256 b p).uploader.made =
      (pushOneAt sha256 b p.candidate p.waitingId p.world l.uploader).1.made := by
  rw [PushLoop.step, if_neg (Bool.eq_false_iff.mp h)]
  generalize pushOneAt sha256 b p.candidate p.waitingId p.world l.uploader = pushed
  obtain ⟨σ, verdict⟩ := pushed
  cases verdict with
  | ok outcome =>
    dsimp only
    split
    · exact ⟨rfl, rfl, rfl, rfl⟩
    · exact ⟨rfl, rfl, rfl, rfl⟩
  | error scope =>
    cases scope with
    | busy | link => exact ⟨rfl, rfl, rfl, rfl⟩
    | file =>
      dsimp only
      split
      · exact ⟨rfl, rfl, rfl, rfl⟩
      · exact ⟨rfl, rfl, rfl, rfl⟩

/-- What the loop leaves when every turn is tidy. -/
structure TidyLoop (base : Uuid) (l : PushLoop) (turns : List PendingTurn) (l' : PushLoop) : Prop where
  places : Places base l'.uploader.queue (l'.left.map PendingTurn.waitingId)
  cache : ∀ path ∈ l'.uploader.cache, path ∈ l.uploader.cache
  copies : ∀ p ∈ l.left ++ turns, p.candidate.ephemeral = true →
    p ∈ l'.left ∨ p.candidate.absolutePath ∉ l'.uploader.cache
  made : ∀ path ∈ l'.uploader.made, path ∈ l.uploader.made ∨ path ∉ l'.uploader.cache
  left : ∀ p ∈ l'.left, p ∈ l.left ∨ (p.candidate.ephemeral && p.world.removeFails) = false

lemma loop_tidy (turns : List PendingTurn) : ∀ {l : PushLoop}, (l.stopped = false → l.left = []) →
    Places base l.uploader.queue ((l.left ++ turns).map PendingTurn.waitingId) →
    AllOk (PushLoop.step sha256 b) (TidyTurn sha256 b) l turns →
    TidyLoop base l turns (run (PushLoop.step sha256 b) l turns) := by
  induction turns with
  | nil =>
    intro l _ hplaces _
    rw [List.append_nil] at hplaces
    refine ⟨hplaces, fun _ h => h, fun p hp _ => .inl ?_, fun _ h => .inl h, fun _ h => .inl h⟩
    rwa [List.append_nil] at hp
  | cons p turns ih =>
    intro l hquiet hplaces hok
    obtain ⟨htidy, hok⟩ := hok
    rw [run_cons]
    unfold TidyTurn at htidy
    cases hstopped : l.stopped with
    | true =>
      rw [hstopped, if_pos rfl] at htidy
      have hstep := step_stopped sha256 (b := b) (p := p) hstopped
      have hmoved : (l.step sha256 b p).left ++ turns = l.left ++ p :: turns := by
        rw [hstep]
        exact List.append_assoc _ _ _
      have hrest := ih (l := l.step sha256 b p) (fun hgoes => ?_) ?_ hok
      · rw [hstep] at hrest ⊢
        refine ⟨hrest.places, hrest.cache, fun q hq => ?_, hrest.made, fun q hq => ?_⟩
        · refine hrest.copies q ?_
          rwa [← hstep, hmoved]
        · obtain hq | hq := hrest.left q hq
          · obtain hq | hq := List.mem_append.mp hq
            · exact .inl hq
            · rw [List.mem_singleton.mp hq]
              exact .inr htidy
          · exact .inr hq
      · rw [hstep] at hgoes
        exact absurd (hstopped.symm.trans hgoes).symm Bool.false_ne_true
      · rwa [hmoved, hstep]
    | false =>
      rw [hstopped, if_neg Bool.false_ne_true] at htidy
      have hnil := hquiet hstopped
      rw [hnil, List.nil_append, List.map_cons] at hplaces
      obtain ⟨hleft, hqueue, hcache, hmade⟩ := step_going sha256 (b := b) (p := p) hstopped
      obtain ⟨-, hframe⟩ :=
        transferPromote_spec (b := b) hplaces.invariant p.waitingId p.candidate p.world.queueMs
      have hend := pushOneAt_end sha256 (b := b) hplaces.invariant p.candidate p.waitingId p.world
      obtain ⟨hfreed, hshrinks, hgone, hnew⟩ := hend.of_tidy (hframe ▸ rfl) (hframe ▸ rfl) htidy
      rw [← hqueue] at hfreed
      rw [← hcache] at hshrinks hgone hnew
      rw [← hmade] at hnew
      have hplaces' := hplaces.turn p.candidate p.world.queueMs hfreed
      have hrest := ih (l := l.step sha256 b p) (fun _ => hleft.trans hnil) ?_ hok
      · refine ⟨hrest.places, fun path hp => hshrinks path (hrest.cache path hp), fun q hq hephemeral => ?_,
          fun path hp => ?_, fun q hq => ?_⟩
        · rw [hnil, List.nil_append] at hq
          obtain rfl | hq := List.mem_cons.mp hq
          · exact .inr fun hin => hgone hephemeral (hrest.cache _ hin)
          · exact hrest.copies q (List.mem_append_right _ hq) hephemeral
        · obtain hp | hp := hrest.made path hp
          · refine (hnew path hp).imp_right fun hout hin => hout (hrest.cache path hin)
          · exact .inr hp
        · rw [← hleft]
          exact hrest.left q hq
      · rwa [hleft, hnil, List.nil_append]

end Loop

/-! ## The clean-ups of the batch -/

section CleanUps

variable {α : Type*} (ephemeral : α → Bool) (path : α → Path) (fails : α → Bool)

lemma foldl_cleanUp (xs : List α) : ∀ σ : Uploader,
    (xs.foldl (fun σ x => σ.cleanUp (ephemeral x) (path x) (fails x)) σ).queue = σ.queue ∧
      (xs.foldl (fun σ x => σ.cleanUp (ephemeral x) (path x) (fails x)) σ).made = σ.made ∧
      ∀ p, p ∈ (xs.foldl (fun σ x => σ.cleanUp (ephemeral x) (path x) (fails x)) σ).cache ↔
        p ∈ σ.cache ∧ ∀ x ∈ xs, ephemeral x = true → fails x = false → p ≠ path x := by
  induction xs with
  | nil => exact fun σ => ⟨rfl, rfl, fun p => (and_iff_left fun _ hx => absurd hx List.not_mem_nil).symm⟩
  | cons x xs ih =>
    intro σ
    obtain ⟨hqueue, hmade, hcache⟩ := ih (σ.cleanUp (ephemeral x) (path x) (fails x))
    refine ⟨hqueue.trans (cleanUp_queue _ _ _), hmade.trans (cleanUp_made _ _ _), fun p => ?_⟩
    rw [List.foldl_cons, hcache, cleanUp_cache, mem_cleaned, List.forall_mem_cons, and_assoc]

end CleanUps

lemma foldl_abandon (left : List PendingTurn) : ∀ {q : TransferQueue}, q.Invariant →
    (left.foldl (fun q p => q.abandon p.waitingId) q).Invariant ∧
      (∀ id, (left.foldl (fun q p => q.abandon p.waitingId) q).Waits id ↔
        q.Waits id ∧ ∀ p ∈ left, id ≠ p.waitingId) ∧
      ∀ id, (left.foldl (fun q p => q.abandon p.waitingId) q).Moves id ↔
        q.Moves id ∧ ∀ p ∈ left, id ≠ p.waitingId := by
  induction left with
  | nil =>
    intro q h
    exact ⟨h, fun id => (and_iff_left fun _ hp => absurd hp List.not_mem_nil).symm,
      fun id => (and_iff_left fun _ hp => absurd hp List.not_mem_nil).symm⟩
  | cons p left ih =>
    intro q h
    have hfreed := abandon_freed h p.waitingId
    obtain ⟨hinv, hwaits, hmoves⟩ := ih hfreed.invariant
    refine ⟨hinv, fun id => ?_, fun id => ?_⟩
    · rw [List.foldl_cons, hwaits, hfreed.waits, List.forall_mem_cons, and_assoc]
    · rw [List.foldl_cons, hmoves, hfreed.moves, List.forall_mem_cons, and_assoc]

lemma releaseLeft_spec (left : List PendingTurn) (h : σ.queue.Invariant) :
    (∀ id, (releaseLeft left σ).queue.Waits id ↔ σ.queue.Waits id ∧ ∀ p ∈ left, id ≠ p.waitingId) ∧
      (∀ id, (releaseLeft left σ).queue.Moves id ↔ σ.queue.Moves id ∧ ∀ p ∈ left, id ≠ p.waitingId) ∧
      (releaseLeft left σ).made = σ.made ∧
      ∀ path, path ∈ (releaseLeft left σ).cache ↔ path ∈ σ.cache ∧ ∀ p ∈ left, p.candidate.ephemeral = true →
        p.world.removeFails = false → path ≠ p.candidate.absolutePath := by
  obtain ⟨-, hwaits, hmoves⟩ := foldl_abandon left h
  obtain ⟨hqueue, hmade, hcache⟩ := foldl_cleanUp (fun p : PendingTurn => p.candidate.ephemeral)
    (fun p => p.candidate.absolutePath) (fun p => p.world.removeFails) left
    { σ with queue := left.foldl (fun q p => q.abandon p.waitingId) σ.queue }
  refine ⟨fun id => ?_, fun id => ?_, hmade, hcache⟩
  · rw [← hwaits]
    exact iff_of_eq (congrArg (TransferQueue.Waits · id) hqueue)
  · rw [← hmoves]
    exact iff_of_eq (congrArg (TransferQueue.Moves · id) hqueue)

lemma removeUnselected_spec (candidates pending : List SourceCandidate) (σ : Uploader) :
    (removeUnselected w candidates pending σ).made = σ.made ∧
      ∀ path, path ∈ (removeUnselected w candidates pending σ).cache ↔ path ∈ σ.cache ∧
        ∀ ci ∈ candidates.zipIdx, unselected pending ci.1 = true → w.unselectedFails ci.2 = false →
          path ≠ ci.1.absolutePath := by
  obtain ⟨-, hmade, hcache⟩ := foldl_cleanUp (fun ci : SourceCandidate × Nat => unselected pending ci.1)
    (fun ci => ci.1.absolutePath) (fun ci => w.unselectedFails ci.2) candidates.zipIdx σ
  exact ⟨hmade, hcache⟩

lemma mem_turns {pending : List SourceCandidate} {q : TransferQueue} {c : SourceCandidate} (hc : c ∈ pending) :
    ∃ p ∈ (enqueueAll b w pending.zipIdx q).1, p.candidate = c := by
  obtain ⟨i, hi⟩ := List.mem_iff_getElem?.mp hc
  have hmem : (c, i) ∈ pending.zipIdx := List.mem_zipIdx_iff_getElem?.mpr hi
  have hmap : (c, w.turn i) ∈ (enqueueAll b w pending.zipIdx q).1.map fun p => (p.candidate, p.world) := by
    rw [enqueueAll_turns]
    exact List.mem_map_of_mem hmem
  obtain ⟨p, hp, heq⟩ := List.mem_map.mp hmap
  exact ⟨p, hp, congrArg Prod.fst heq⟩

/-- A batch whose turns are tidy leaves nothing. -/
lemma nothingLeft_of_tidy {listed : Option (List SourceCandidate)} (h : σ.queue.Invariant)
    (htidy : TidyBatch sha256 b w listed σ) :
    NothingLeft listed σ (pushLocalIn sha256 b w listed σ).1 := by
  have hold : ∀ item ∈ σ.queue.unfinished, item.id < σ.queue.nextId := h.drawn
  unfold pushLocalIn
  cases listed with
  | none => exact ⟨hold, fun _ hc => absurd hc (Option.not_mem_none _), fun _ hp => absurd hp List.not_mem_nil⟩
  | some candidates =>
    have htidy := htidy candidates rfl
    cases hpending : filterPending b w candidates σ.index with
    | none =>
      rw [hpending] at htidy
      dsimp only
      rw [hpending]
      refine ⟨hold, fun candidates' hc c hmem hephemeral => ?_, fun _ hp => absurd hp List.not_mem_nil⟩
      obtain rfl := Option.some.inj hc
      exact absurd (hephemeral.symm.trans (htidy c hmem)) Bool.noConfusion
    | some pending =>
      rw [hpending] at htidy
      obtain ⟨hunselected, hok⟩ := htidy
      dsimp only
      rw [hpending]
      dsimp only
      have henqueued := enqueueAll_enqueued (b := b) (w := w) pending.zipIdx h
      obtain ⟨hmade₀, hcache₀⟩ := removeUnselected_spec (w := w) candidates pending { σ with made := [] }
      have hloop : TidyLoop σ.queue.nextId (startLoop b w candidates pending { σ with made := [] })
          (enqueueAll b w pending.zipIdx σ.queue).1
          (endLoop sha256 b w candidates pending { σ with made := [] }) := by
        refine loop_tidy _ (fun _ => rfl) ?_ hok
        exact Places.enqueued h henqueued
      generalize endLoop sha256 b w candidates pending { σ with made := [] } = l at hloop ⊢
      obtain ⟨hwaits, hmoves, hmade, hcache⟩ := releaseLeft_spec l.left hloop.places.invariant
      constructor
      · intro item hitem
        by_contra hbase
        have hnone : ∀ id, σ.queue.nextId ≤ id → (l.uploader.queue.Waits id ∨ l.uploader.queue.Moves id) →
            ¬ ∀ p ∈ l.left, id ≠ p.waitingId := by
          intro id hid hin hall
          obtain ⟨p, hp, rfl⟩ := List.mem_map.mp (hloop.places.only id hid hin)
          exact hall p hp rfl
        obtain hitem | hitem := List.mem_append.mp hitem
        · obtain ⟨hin, hall⟩ := (hmoves item.id).mp ⟨item, hitem, rfl⟩
          exact hnone item.id (Nat.not_lt.mp hbase) (.inr hin) hall
        · obtain ⟨hin, hall⟩ := (hwaits item.id).mp ⟨item, hitem, rfl⟩
          exact hnone item.id (Nat.not_lt.mp hbase) (.inl hin) hall
      · intro candidates' hc c hmem hephemeral hin
        obtain rfl := Option.some.inj hc
        obtain ⟨hin, hleft⟩ := (hcache _).mp hin
        cases hchosen : unselected pending c with
        | true =>
          obtain ⟨i, hi⟩ := List.mem_iff_getElem?.mp hmem
          have hci : (c, i) ∈ candidates.zipIdx := List.mem_zipIdx_iff_getElem?.mpr hi
          exact ((hcache₀ _).mp (hloop.cache _ hin)).2 (c, i) hci hchosen (hunselected (c, i) hci hchosen) rfl
        | false =>
          obtain ⟨d, hd, hd_ephemeral, hpath⟩ :
              ∃ d ∈ pending, d.ephemeral = true ∧ d.absolutePath = c.absolutePath := by
            unfold unselected at hchosen
            rw [hephemeral, Bool.true_and, Bool.not_eq_false'] at hchosen
            simpa using hchosen
          obtain ⟨p, hp, rfl⟩ := mem_turns (b := b) (w := w) (q := σ.queue) hd
          rw [← hpath] at hin hleft
          obtain hp | hout := hloop.copies p hp hd_ephemeral
          · obtain hq | hq := hloop.left p hp
            · exact absurd hq List.not_mem_nil
            · rw [hd_ephemeral, Bool.true_and] at hq
              exact hleft p hp hd_ephemeral hq rfl
          · exact hout hin
      · intro path hpath hin
        rw [hmade] at hpath
        obtain hpath | hout := hloop.made path hpath
        · change path ∈ (removeUnselected w candidates pending { σ with made := [] }).made at hpath
          rw [hmade₀] at hpath
          exact absurd hpath List.not_mem_nil
        · exact hout ((hcache path).mp hin).1

/-! ## Files of their own -/

section Exact

variable {l : PushLoop} {p : PendingTurn} {path : Path}

/-- What a loop and the clean-up after it leave. -/
def leftBy (sha256 : Bytes → ContentHash) (b : Binding) (l : PushLoop) (turns : List PendingTurn) : Uploader :=
  releaseLeft (run (PushLoop.step sha256 b) l turns).left (run (PushLoop.step sha256 b) l turns).uploader

/-- The files to come have their places, and each file has copies of its own. -/
structure Proper (l : PushLoop) (turns : List PendingTurn) : Prop where
  invariant : l.uploader.queue.Invariant
  waits : ∀ p ∈ turns, l.uploader.queue.Waits p.waitingId
  nodup : ((l.left ++ turns).map PendingTurn.waitingId).Nodup
  listed : ∀ p ∈ turns, p.candidate.ephemeral = true → p.candidate.absolutePath ∈ l.uploader.cache
  apart : ((l.left ++ turns).map fun p => copiesOf p.candidate p.world).Pairwise List.Disjoint
  quiet : l.stopped = false → l.left = []

variable (sha256) in
lemma Proper.turn (h : Proper l (p :: turns)) (hgoes : l.stopped = false) :
    TurnEnd sha256 b p.candidate p.world l.uploader
        (l.uploader.transferPromote p.waitingId b p.candidate p.world.queueMs).1
        (l.uploader.transferPromote p.waitingId b p.candidate p.world.queueMs).2
        (pushOneAt sha256 b p.candidate p.waitingId p.world l.uploader).1 ∧
      (l.uploader.transferPromote p.waitingId b p.candidate p.world.queueMs).2.cache = l.uploader.cache ∧
      (l.uploader.transferPromote p.waitingId b p.candidate p.world.queueMs).2.made = l.uploader.made ∧
      (∀ q ∈ turns, q.waitingId ≠ p.waitingId) ∧
      ∀ q ∈ turns, List.Disjoint (copiesOf q.candidate q.world) (copiesOf p.candidate p.world) := by
  have hnil := h.quiet hgoes
  have hnodup := h.nodup
  have hapart := h.apart
  rw [hnil, List.nil_append, List.map_cons] at hnodup hapart
  obtain ⟨-, hframe⟩ := transferPromote_spec (b := b) h.invariant p.waitingId p.candidate p.world.queueMs
  refine ⟨pushOneAt_end sha256 h.invariant p.candidate p.waitingId p.world, hframe ▸ rfl, hframe ▸ rfl, ?_, ?_⟩
  · intro q hq heq
    exact (List.nodup_cons.mp hnodup).1 (heq ▸ List.mem_map_of_mem hq)
  · intro q hq
    exact ((List.pairwise_cons.mp hapart).1 _ (List.mem_map_of_mem hq)).symm

lemma Proper.step (h : Proper l (p :: turns)) : Proper (l.step sha256 b p) turns := by
  cases hstopped : l.stopped with
  | true =>
    have hmoved : l.left ++ [p] ++ turns = l.left ++ p :: turns := List.append_assoc _ _ _
    rw [step_stopped sha256 hstopped]
    refine ⟨h.invariant, fun q hq => h.waits q (List.mem_cons_of_mem p hq), ?_,
      fun q hq => h.listed q (List.mem_cons_of_mem p hq), ?_, fun hgoes => ?_⟩
    · exact hmoved ▸ h.nodup
    · exact hmoved ▸ h.apart
    · exact absurd (hgoes.symm.trans hstopped) Bool.false_ne_true
  | false =>
    obtain ⟨hleft, hqueue, hcache, -⟩ := step_going sha256 (b := b) (p := p) hstopped
    obtain ⟨hend, hcaches, -, hids, hcopies⟩ := h.turn sha256 (b := b) hstopped
    obtain ⟨hinv, hkeeps⟩ := hend.keeps_place h.invariant (h.waits p List.mem_cons_self)
    have hnil := h.quiet hstopped
    have hnodup := h.nodup
    have hapart := h.apart
    rw [hnil, List.nil_append, List.map_cons] at hnodup hapart
    constructor
    · rwa [hqueue]
    · intro q hq
      rw [hqueue]
      exact (hkeeps _ (hids q hq)).1 (h.waits q (List.mem_cons_of_mem p hq))
    · rw [hleft, hnil]
      exact (List.nodup_cons.mp hnodup).2
    · intro q hq hephemeral
      rw [hcache]
      refine hend.keeps_copy hcaches (h.listed q (List.mem_cons_of_mem p hq) hephemeral) fun hin => ?_
      exact hcopies q hq (listed_mem_copiesOf hephemeral) hin
    · rw [hleft, hnil]
      exact (List.pairwise_cons.mp hapart).2
    · exact fun _ => hleft.trans hnil

lemma mem_of_mem_step {q : PendingTurn} (h : q ∈ (l.step sha256 b p).left ++ turns) :
    q ∈ l.left ++ p :: turns := by
  cases hstopped : l.stopped with
  | true =>
    rw [step_stopped sha256 hstopped, List.append_assoc] at h
    exact h
  | false =>
    rw [(step_going sha256 hstopped).1] at h
    exact (List.mem_append.mp h).elim (List.mem_append_left _) fun h =>
      List.mem_append_right _ (List.mem_cons_of_mem p h)

lemma Proper.keeps_place {id : Uuid} :
    ∀ {l : PushLoop}, Proper l turns → (∀ p ∈ l.left ++ turns, id ≠ p.waitingId) →
    l.uploader.queue.Waits id ∨ l.uploader.queue.Moves id →
    (leftBy sha256 b l turns).queue.Waits id ∨ (leftBy sha256 b l turns).queue.Moves id := by
  induction turns with
  | nil =>
    intro l h hother hin
    obtain ⟨hwaits, hmoves, -, -⟩ := releaseLeft_spec l.left h.invariant
    rw [List.append_nil] at hother
    exact hin.imp (fun hin => (hwaits id).mpr ⟨hin, hother⟩) fun hin => (hmoves id).mpr ⟨hin, hother⟩
  | cons p turns ih =>
    intro l h hother hin
    refine ih h.step (fun q hq => hother q (mem_of_mem_step hq)) ?_
    cases hstopped : l.stopped with
    | true =>
      rw [step_stopped sha256 hstopped]
      exact hin
    | false =>
      rw [(step_going sha256 hstopped).2.1]
      obtain ⟨hend, -⟩ := h.turn sha256 (b := b) hstopped
      obtain ⟨-, hkeeps⟩ := hend.keeps_place h.invariant (h.waits p List.mem_cons_self)
      have hne := hother p (List.mem_append_right _ List.mem_cons_self)
      exact hin.imp (hkeeps id hne).1 (hkeeps id hne).2

lemma Proper.keeps_copy : ∀ {l : PushLoop}, Proper l turns →
    (∀ p ∈ l.left ++ turns, path ∉ copiesOf p.candidate p.world) → path ∈ l.uploader.cache →
    path ∈ (leftBy sha256 b l turns).cache := by
  induction turns with
  | nil =>
    intro l h hother hin
    obtain ⟨-, -, -, hcache⟩ := releaseLeft_spec l.left h.invariant
    rw [List.append_nil] at hother
    refine (hcache path).mpr ⟨hin, fun p hp hephemeral _ heq => hother p hp ?_⟩
    exact heq ▸ listed_mem_copiesOf hephemeral
  | cons p turns ih =>
    intro l h hother hin
    refine ih h.step (fun q hq => hother q (mem_of_mem_step hq)) ?_
    cases hstopped : l.stopped with
    | true =>
      rw [step_stopped sha256 hstopped]
      exact hin
    | false =>
      rw [(step_going sha256 hstopped).2.2.1]
      obtain ⟨hend, hcaches, -⟩ := h.turn sha256 (b := b) hstopped
      exact hend.keeps_copy hcaches hin (hother p (List.mem_append_right _ List.mem_cons_self))

lemma Proper.keeps_made : ∀ {l : PushLoop}, Proper l turns → path ∈ l.uploader.made →
    path ∈ (leftBy sha256 b l turns).made := by
  induction turns with
  | nil =>
    intro l h hin
    obtain ⟨-, -, hmade, -⟩ := releaseLeft_spec l.left h.invariant
    exact hmade.symm ▸ hin
  | cons p turns ih =>
    intro l h hin
    refine ih h.step ?_
    cases hstopped : l.stopped with
    | true =>
      rw [step_stopped sha256 hstopped]
      exact hin
    | false =>
      rw [(step_going sha256 hstopped).2.2.2]
      obtain ⟨hend, -, hmades, -⟩ := h.turn sha256 (b := b) hstopped
      exact hend.keeps_made hmades hin

lemma Proper.keeps_stuck : ∀ {l : PushLoop}, Proper l turns → l.stopped = true → path ∈ l.uploader.cache →
    (∀ p ∈ l.left ++ turns, p.candidate.ephemeral = true → p.world.removeFails = false →
      path ≠ p.candidate.absolutePath) → path ∈ (leftBy sha256 b l turns).cache := by
  induction turns with
  | nil =>
    intro l h _ hin hother
    obtain ⟨-, -, -, hcache⟩ := releaseLeft_spec l.left h.invariant
    rw [List.append_nil] at hother
    exact (hcache path).mpr ⟨hin, hother⟩
  | cons p turns ih =>
    intro l h hstopped hin hother
    have hstep := step_stopped sha256 (b := b) (p := p) hstopped
    refine ih h.step ?_ ?_ fun q hq => hother q (mem_of_mem_step hq)
    · rw [hstep]
      exact hstopped
    · rw [hstep]
      exact hin

/-- Files of their own of which nothing is left had tidy turns. -/
lemma Proper.allOk : ∀ {l : PushLoop}, Proper l turns →
    (∀ p ∈ turns, ¬ ((leftBy sha256 b l turns).queue.Waits p.waitingId ∨
      (leftBy sha256 b l turns).queue.Moves p.waitingId)) →
    (∀ p ∈ turns, p.candidate.ephemeral = true → p.candidate.absolutePath ∉ (leftBy sha256 b l turns).cache) →
    (∀ path ∈ (leftBy sha256 b l turns).made, path ∉ (leftBy sha256 b l turns).cache) →
    AllOk (PushLoop.step sha256 b) (TidyTurn sha256 b) l turns := by
  induction turns with
  | nil => exact fun _ _ _ _ => trivial
  | cons p turns ih =>
    intro l h hslots hcopies hmade
    refine ⟨?_, ih h.step (fun q hq => hslots q (List.mem_cons_of_mem p hq))
      (fun q hq => hcopies q (List.mem_cons_of_mem p hq)) hmade⟩
    unfold TidyTurn
    cases hstopped : l.stopped with
    | true =>
      rw [if_pos rfl]
      by_contra hstuck
      obtain ⟨hephemeral, hfails⟩ := (Bool.and_eq_true _ _).mp (eq_true_of_ne_false hstuck)
      refine hcopies p List.mem_cons_self hephemeral (h.keeps_stuck hstopped ?_ fun q hq he hremoves heq => ?_)
      · exact h.listed p List.mem_cons_self hephemeral
      · -- only the file itself has this copy, and it cannot be removed
        obtain rfl | hne := eq_or_ne q p
        · exact absurd (hremoves.symm.trans hfails) Bool.false_ne_true
        · have hsymm : Std.Symm fun q p : PendingTurn =>
              List.Disjoint (copiesOf q.candidate q.world) (copiesOf p.candidate p.world) :=
            ⟨fun _ _ hd => hd.symm⟩
          have hdisjoint : List.Disjoint (copiesOf q.candidate q.world) (copiesOf p.candidate p.world) :=
            (List.pairwise_map.mp h.apart).forall hq (List.mem_append_right _ List.mem_cons_self) hne
          exact hdisjoint (listed_mem_copiesOf he) (heq ▸ listed_mem_copiesOf hephemeral)
    | false =>
      rw [if_neg Bool.false_ne_true]
      by_contra huntidy
      obtain ⟨hend, hcaches, hmades, hids, hapart⟩ := h.turn sha256 (b := b) hstopped
      obtain ⟨hleft, hqueue, hcache, hmade'⟩ := step_going sha256 (b := b) (p := p) hstopped
      have hnil := h.quiet hstopped
      have hrest : (l.step sha256 b p).left ++ turns = turns := by rw [hleft, hnil, List.nil_append]
      have hother : ∀ q ∈ (l.step sha256 b p).left ++ turns, p.waitingId ≠ q.waitingId := by
        rw [hrest]
        exact fun q hq heq => hids q hq heq.symm
      have hwaits := h.waits p List.mem_cons_self
      obtain hsame | hsame | ⟨path, hin, hown, hleaks⟩ := hend.of_untidy hcaches
        (h.listed p List.mem_cons_self) (Bool.not_eq_true _ ▸ huntidy)
      · -- the entry could not be read: the file still waits
        refine hslots p List.mem_cons_self (h.step.keeps_place hother (.inl ?_))
        rwa [hqueue, hsame]
      · -- the index could not be written: the transfer is still active
        refine hslots p List.mem_cons_self (h.step.keeps_place hother (.inr ?_))
        rw [hqueue, hsame, transferPromote_of_waits h.invariant hwaits]
        exact ((promote_of_waits h.invariant hwaits p.world.queueMs).2.2.2.2 p.waitingId).mpr (.inr rfl)
      · have hfinal : path ∈ (leftBy sha256 b (l.step sha256 b p) turns).cache := by
          refine h.step.keeps_copy ?_ (hcache ▸ hin)
          rw [hrest]
          exact fun q hq hin => hapart q hq hin hown
        obtain ⟨hephemeral, rfl⟩ | hnew := hleaks
        · exact hcopies p List.mem_cons_self hephemeral hfinal
        · exact hmade path (h.step.keeps_made (hmade' ▸ hnew)) hfinal

lemma OwnFiles.proper {candidates pending : List SourceCandidate} (h : σ.queue.Invariant)
    (hown : OwnFiles b w candidates pending σ) (hsub : ∀ c ∈ pending, c ∈ candidates) :
    Proper (startLoop b w candidates pending { σ with made := [] })
        (enqueueAll b w pending.zipIdx σ.queue).1 := by
  have henqueued := enqueueAll_enqueued (b := b) (w := w) pending.zipIdx h
  have hkeys : (pending.zipIdx.map fun ci => ci.1.key b).Nodup := by
    have hmap : (pending.zipIdx.map Prod.fst).map (SourceCandidate.key b) =
        pending.zipIdx.map fun ci => ci.1.key b :=
      List.map_map
    rw [← hmap, List.zipIdx_map_fst]
    exact hown.keys
  have hturns := enqueueAll_turns (b := b) (w := w) pending.zipIdx σ.queue
  obtain ⟨-, hcache₀⟩ := removeUnselected_spec (w := w) candidates pending { σ with made := [] }
  constructor
  · exact henqueued.invariant
  · exact (enqueueAll_waits pending.zipIdx h hkeys).2
  · exact henqueued.nodup
  · intro p hp hephemeral
    have hmem : (p.candidate, p.world) ∈ pending.zipIdx.map fun ci => (ci.1, w.turn ci.2) :=
      hturns ▸ List.mem_map_of_mem hp
    obtain ⟨ci, hci, heq⟩ := List.mem_map.mp hmem
    have hcandidate : ci.1 = p.candidate := congrArg Prod.fst heq
    have hpending : p.candidate ∈ pending := hcandidate ▸ List.fst_mem_of_mem_zipIdx hci
    refine (hcache₀ _).mpr ⟨hown.listed _ (hsub _ hpending) hephemeral, fun dj hdj hchosen _ heq => ?_⟩
    -- a pending file's copy is not an unselected one
    have hnone : ¬ (pending.any fun c => c.ephemeral && c.absolutePath = dj.1.absolutePath) = true := by
      simpa using ((Bool.and_eq_true _ _).mp hchosen).2
    apply hnone
    refine List.any_eq_true.mpr ⟨p.candidate, hpending, ?_⟩
    rw [hephemeral, Bool.true_and]
    exact decide_eq_true heq
  · have hmap : (enqueueAll b w pending.zipIdx σ.queue).1.map (fun p => copiesOf p.candidate p.world) =
        pending.zipIdx.map fun ci => copiesOf ci.1 (w.turn ci.2) := by
      have hcopies := congrArg (List.map fun cw : SourceCandidate × TurnWorld => copiesOf cw.1 cw.2) hturns
      rwa [List.map_map, List.map_map] at hcopies
    show
      (((enqueueAll b w pending.zipIdx σ.queue).1).map fun p => copiesOf p.candidate p.world).Pairwise
        List.Disjoint
    rw [hmap]
    exact hown.apart
  · exact fun _ => rfl

end Exact

lemma filterPending_subset {candidates pending : List SourceCandidate} {ix : LocalIndex}
    (h : filterPending b w candidates ix = some pending) : ∀ c ∈ pending, c ∈ candidates := by
  unfold filterPending at h
  split at h
  · cases h
  · intro c hc
    rw [← Option.some.inj h] at hc
    exact (List.mem_filter.mp hc).1

/-- A batch over files of their own that leaves nothing had tidy turns. -/
lemma tidy_of_nothingLeft {listed : Option (List SourceCandidate)} (h : σ.queue.Invariant)
    (hown : ∀ candidates ∈ listed, OwnFiles b w candidates ((filterPending b w candidates σ.index).getD []) σ)
    (hnothing : NothingLeft listed σ (pushLocalIn sha256 b w listed σ).1) : TidyBatch sha256 b w listed σ := by
  intro candidates hlisted
  have hfiles := hown candidates hlisted
  obtain rfl := hlisted
  have hcopies := hnothing.copies candidates rfl
  cases hpending : filterPending b w candidates σ.index with
  | none =>
    intro c hc
    rw [pushLocalIn] at hcopies
    dsimp only at hcopies
    rw [hpending] at hcopies
    cases hephemeral : c.ephemeral with
    | false => rfl
    | true => exact absurd (hfiles.listed c hc hephemeral) (hcopies c hc hephemeral)
  | some pending =>
    rw [hpending, Option.getD_some] at hfiles
    have hproper := hfiles.proper h (filterPending_subset hpending)
    have hpush : (pushLocalIn sha256 b w (some candidates) σ).1 =
        leftBy sha256 b (startLoop b w candidates pending { σ with made := [] })
          (enqueueAll b w pending.zipIdx σ.queue).1 := by
      rw [pushLocalIn]
      dsimp only
      rw [hpending]
      rfl
    rw [hpush] at hnothing hcopies
    obtain ⟨-, hcache₀⟩ := removeUnselected_spec (w := w) candidates pending { σ with made := [] }
    have henqueued := enqueueAll_enqueued (b := b) (w := w) pending.zipIdx h
    have hturns := enqueueAll_turns (b := b) (w := w) pending.zipIdx σ.queue
    have hfrom : ∀ p ∈ (enqueueAll b w pending.zipIdx σ.queue).1, ∃ ci ∈ pending.zipIdx,
        ci.1 = p.candidate ∧ w.turn ci.2 = p.world := by
      intro p hp
      have hmem : (p.candidate, p.world) ∈ pending.zipIdx.map fun ci => (ci.1, w.turn ci.2) :=
        hturns ▸ List.mem_map_of_mem hp
      obtain ⟨ci, hci, heq⟩ := List.mem_map.mp hmem
      exact ⟨ci, hci, Prod.mk.inj heq⟩
    constructor
    · intro ci hci hchosen
      have hmem : ci.1 ∈ candidates := List.fst_mem_of_mem_zipIdx hci
      have hephemeral : ci.1.ephemeral = true := ((Bool.and_eq_true _ _).mp hchosen).1
      by_contra hfails
      refine hcopies ci.1 hmem hephemeral (hproper.keeps_copy (fun p hp hin => ?_) ?_)
      · obtain ⟨dj, hdj, hcandidate, hworld⟩ := hfrom p hp
        exact hfiles.elsewhere ci.1 hmem hchosen dj hdj (by rwa [hcandidate, hworld])
      · refine (hcache₀ _).mpr ⟨hfiles.listed ci.1 hmem hephemeral, fun dj hdj hother hremoves heq => ?_⟩
        have hsame : ci = dj := List.inj_on_of_nodup_map hfiles.unselected
          (List.mem_filter.mpr ⟨hci, hchosen⟩) (List.mem_filter.mpr ⟨hdj, hother⟩) heq
        exact hfails (hsame ▸ hremoves)
    · refine hproper.allOk (fun p hp hin => ?_) (fun p hp hephemeral => ?_) hnothing.made
      · have hle := (henqueued.ids p hp).1
        have hlt : p.waitingId < σ.queue.nextId := by
          obtain ⟨item, hitem, hid⟩ | ⟨item, hitem, hid⟩ := hin
          · exact hid ▸ hnothing.slots item (List.mem_append_right _ hitem)
          · exact hid ▸ hnothing.slots item (List.mem_append_left _ hitem)
        exact absurd hlt (Nat.not_lt.mpr hle)
      · obtain ⟨ci, hci, hcandidate, -⟩ := hfrom p hp
        have hmem : p.candidate ∈ candidates :=
          filterPending_subset hpending _ (hcandidate ▸ List.fst_mem_of_mem_zipIdx hci)
        exact hcopies p.candidate hmem hephemeral

/-- A batch leaves no upload in the queue and no copy in the cache when its turns are tidy and what is to be
    removed can be; and where each file has a place and copies of its own, only then. -/
theorem pushLocalIn_tidy (sha256 : Bytes → ContentHash) (b : Binding) (w : BatchWorld)
    (listed : Option (List SourceCandidate)) (h : σ.queue.Invariant) :
    (TidyBatch sha256 b w listed σ → NothingLeft listed σ (pushLocalIn sha256 b w listed σ).1) ∧
      ((∀ candidates ∈ listed, OwnFiles b w candidates ((filterPending b w candidates σ.index).getD []) σ) →
        NothingLeft listed σ (pushLocalIn sha256 b w listed σ).1 → TidyBatch sha256 b w listed σ) :=
  ⟨nothingLeft_of_tidy h, tidy_of_nothingLeft h⟩

/-! ## A touched picture -/

def cameraBinding : Binding :=
  ⟨"camera", 1, "Photos".toList, "/DCIM".toList, .autoUpload, true⟩

/-- A cache copy of a picture whose time changed, and whose bytes did not. -/
def touchedPicture : SourceCandidate :=
  ⟨⟨"a.jpg".toList, 1, 5⟩, "/cache/a.jpg".toList, true, none⟩

def touchedDevice : Uploader where
  index := LocalIndex.new.upsertEntry cameraBinding.id "a.jpg".toList ⟨1, 0, some "h", none, 0⟩
  queue := .empty
  cache := ["/cache/a.jpg".toList]
  made := []

/-- The entry of the picture can be written, or not. -/
def touchedWorld (upsertFails : Bool) : BatchWorld where
  loadBackoffFails := false
  scanFails _ := false
  scanMs := 0
  unselectedFails _ := false
  queueMs := 0
  turn _ :=
    { getEntryFails := false, remote := none, materialized := none, content := some [1],
      upsertFails := upsertFails, getCursorFails := false, parents := .ok (), upload := .ok .stored,
      removeFails := false, noteFails := false,
      nowMs := 0, queueMs := 0 }

/-- With a writable index nothing is left of it. -/
theorem touchedPicture_nothingLeft : NothingLeft (some [touchedPicture]) touchedDevice
    (pushLocalIn (fun _ => "h") cameraBinding (touchedWorld false) (some [touchedPicture])
      touchedDevice).1 := by
  apply (pushLocalIn_tidy (fun _ => "h") cameraBinding (touchedWorld false) (some [touchedPicture])
    TransferQueue.empty_invariant).1
  rintro candidates ⟨⟩
  show (_ ∧ AllOk (PushLoop.step (fun _ => "h") cameraBinding) _ _ _)
  decide

/-- When its entry cannot be written, its transfer stays active and the copy stays in the cache. -/
theorem touchedPicture_left :
    ((pushLocalIn (fun _ => "h") cameraBinding (touchedWorld true) (some [touchedPicture])
      touchedDevice).1.queue.active.map
      (·.status) = [.active]) ∧
    ¬ NothingLeft (some [touchedPicture]) touchedDevice
      (pushLocalIn (fun _ => "h") cameraBinding (touchedWorld true) (some [touchedPicture])
        touchedDevice).1 := by
  refine ⟨by decide, fun h => ?_⟩
  have hgone := h.copies [touchedPicture] rfl touchedPicture List.mem_cons_self rfl
  revert hgone
  decide

end Sarca.Client
