import Sarca.Lib.Run
import Sarca.Server.StoragePurge

/-!
# The purger

`StoragePurgeService::run_once` works the purge tables off: it gives back what a crash left claimed, claims
a batch, deletes each message of it in Telegram and marks it, and completes the jobs that have nothing
left. `PurgeQueue` is the two tables with the statements of `StoragePurgeRepository`; `Purger` is the tables
and the loop, which can end between any two statements, each of which can fail. `Purger.Sound` is what
holds in every run, and `Purger.good_iff_dated` says in which runs the lease of a claim is kept as well:
`updated_at` and the bound of the lease are texts of two forms, which compare by their days.

`Site.purge` has the same statements inside the whole server (`Site.queue_purge`).
-/

namespace Sarca.Server
open Sarca.Lib

/-- Rust `PURGE_BATCH_SIZE`. -/
def purgeBatchSize : Nat := 10

/-- Rust `MAX_ATTEMPTS`. -/
def maxAttempts : Nat := 8

/-- Rust `IN_PROGRESS_LEASE`, in nanoseconds. -/
def inProgressLease : Nat := 600 * second

/-- Rust `REQUEUE_INTERVAL`, in nanoseconds. -/
def requeueInterval : Nat := 60 * second

/-- Rust `is_terminal_attempt`. -/
def isTerminalAttempt (attempts : Nat) : Prop :=
  maxAttempts ≤ attempts

instance isTerminalAttempt.decidable (attempts : Nat) : Decidable (isTerminalAttempt attempts) :=
  inferInstanceAs (Decidable (_ ≤ _))

/-- What `datetime('now')` writes, in seconds. -/
def datetimeNow (now : UtcTime) : Instant :=
  (now.nanos / second : Nat)

/-! ## Tables -/

/-- The purge tables, with the ids that are next. -/
structure PurgeQueue where
  jobs : List PurgeJob
  messages : List PurgeMessage
  nextJob : Uuid
  nextMessage : Nat
deriving DecidableEq

namespace PurgeQueue

/-- Rust `enqueue_in_tx`; the second statement binds three values for each message, and no two messages
    of a job are the same. -/
def enqueueInTx (q : PurgeQueue) (maxVariables : Nat) (storageId : Uuid) (bot : StorageWorker)
    (messages : List (Int × Int)) (now : Instant) : Except SarcaError PurgeQueue :=
  if maxVariables < 3 * messages.length ∨ ¬messages.Nodup then .error .unknown
  else
    .ok {
      jobs := q.jobs ++ [⟨q.nextJob, storageId, bot, false⟩]
      messages := q.messages ++ newPurgeMessages q.nextJob now q.nextMessage messages
      nextJob := q.nextJob + 1
      nextMessage := q.nextMessage + messages.length }

/-- The rows that a claim takes: pending, of a job that is not completed, the first ones by id. -/
def claimable (q : PurgeQueue) : List PurgeMessage :=
  ((q.messages.filter fun m => m.status = .pending ∧
    ∃ j ∈ q.jobs, j.id = m.jobId ∧ j.completed = false).insertionSort fun m m' => m.id ≤ m'.id).take
      purgeBatchSize

def claim (now : Instant) (m : PurgeMessage) : PurgeMessage :=
  { m with status := .inProgress, attempts := m.attempts + 1, updatedAt := now }

/-- Rust `claim_pending`. -/
def claimPending (q : PurgeQueue) (now : Instant) : PurgeQueue × List PurgeMessage :=
  let claimed := q.claimable
  ({ q with messages := q.messages.map fun m => if m ∈ claimed then claim now m else m },
    claimed.map (claim now))

/-- Rust `requeue_stale_in_progress`. -/
def requeueStaleInProgress (q : PurgeQueue) (cutoff : Nat) (now : Instant) : PurgeQueue :=
  { q with messages := q.messages.map fun m =>
      if m.Stale cutoff then { m with status := .pending, updatedAt := now } else m }

def mark (q : PurgeQueue) (id : Nat) (status : PurgeStatus) (now : Instant) : PurgeQueue :=
  { q with messages := q.messages.map fun m =>
      if m.id = id then { m with status := status, updatedAt := now } else m }

/-- Rust `mark_done`. -/
def markDone (q : PurgeQueue) (id : Nat) (now : Instant) : PurgeQueue :=
  q.mark id .done now

/-- Rust `mark_retry`. -/
def markRetry (q : PurgeQueue) (id : Nat) (now : Instant) : PurgeQueue :=
  q.mark id .pending now

/-- Rust `mark_failed`. -/
def markFailed (q : PurgeQueue) (id : Nat) (now : Instant) : PurgeQueue :=
  q.mark id .failed now

/-- Rust `try_complete_jobs`. -/
def tryCompleteJobs (q : PurgeQueue) : PurgeQueue :=
  { q with jobs := q.jobs.map fun j =>
      if ∃ m ∈ q.messages, m.jobId = j.id ∧ (m.status = .pending ∨ m.status = .inProgress) then j
      else { j with completed := true } }

end PurgeQueue

/-! ## The loop -/

/-- Where the loop stands, with what it holds of its batch. -/
inductive TickPhase where
  | sleeping
  | requeueing
  | claiming
  | deleting (m : PurgeMessage) (rest : List PurgeMessage)
  | marking (m : PurgeMessage) (deleted : Bool) (rest : List PurgeMessage)
  | completing
deriving DecidableEq

def TickPhase.held : TickPhase → List PurgeMessage
  | .deleting m rest | .marking m _ rest => m :: rest
  | _ => []

/-- The loop goes on with the rest of its batch. -/
def TickPhase.next : List PurgeMessage → TickPhase
  | [] => .completing
  | m :: rest => .deleting m rest

/-- The tables and the loop. `enqueued`, `claims` and `requeues` are what happened: the messages a job was
    made for, which row was claimed when, and when a claimed row was given back, with its claim. -/
structure Purger where
  maxVariables : Nat
  queue : PurgeQueue
  lastRequeue : Option Nat
  phase : TickPhase
  enqueued : List (Uuid × Int × Int)
  claims : List (Nat × Nat)
  requeues : List (Nat × Nat)
deriving DecidableEq

/-- What can happen next. A statement can fail; `clock` is the one of `tokio::time::Instant`. -/
inductive PurgerAct where
  /-- a storage is deleted -/
  | enqueue (storageId : Uuid) (bot : StorageWorker) (messages : List (Int × Int)) (now : UtcTime)
  | begin (clock : Nat)
  | requeue (ok : Bool) (now : UtcTime) (clock : Nat)
  | claim (ok : Bool) (now : UtcTime)
  /-- `delete_message_with_token` returns -/
  | delete (ok : Bool)
  | mark (ok : Bool) (now : UtcTime)
  | complete (ok : Bool)
  /-- the process ends, or the supervisor starts the loop again -/
  | crash

namespace Purger

def fresh (maxVariables : Nat) : Purger :=
  ⟨maxVariables, ⟨[], [], 0, 0⟩, none, .sleeping, [], [], []⟩

def claimedAt (σ : Purger) (id : Nat) : Option Nat :=
  σ.claims.lookup id

/-- A tick that begins now gives back stale rows. -/
def RequeueDue (σ : Purger) (clock : Nat) : Prop :=
  ∀ at_ ∈ σ.lastRequeue, at_ + requeueInterval ≤ clock

instance RequeueDue.decidable (σ : Purger) (clock : Nat) : Decidable (σ.RequeueDue clock) :=
  inferInstanceAs (Decidable (∀ at_ ∈ σ.lastRequeue, _))

/-- The rows that the requeue statement gives back. -/
def staleRows (σ : Purger) (now : UtcTime) : List PurgeMessage :=
  σ.queue.messages.filter fun m => m.Stale (now.nanos - inProgressLease)

/-- The requeue of a tick; it counts as done if it fails. -/
def requeue (σ : Purger) (ok : Bool) (now : UtcTime) (clock : Nat) : Purger :=
  if σ.phase = .requeueing then
    if ok then
      { σ with
        queue := σ.queue.requeueStaleInProgress (now.nanos - inProgressLease) (datetimeNow now)
        requeues := σ.requeues ++ (σ.staleRows now).flatMap fun m =>
          (σ.claimedAt m.id).toList.map fun claimed => (claimed, now.nanos)
        lastRequeue := some clock
        phase := .claiming }
    else { σ with lastRequeue := some clock, phase := .claiming }
  else σ

/-- The claim of a tick, which ends the tick if it fails. -/
def claim (σ : Purger) (ok : Bool) (now : UtcTime) : Purger :=
  if σ.phase = .claiming then
    if ok then
      let (queue, batch) := σ.queue.claimPending (datetimeNow now)
      { σ with
        queue := queue
        claims := batch.map (fun m => (m.id, now.nanos)) ++ σ.claims
        phase := .next batch }
    else { σ with phase := .sleeping }
  else σ

/-- A row of the batch is marked by what Telegram answered. -/
def mark (σ : Purger) (ok : Bool) (now : UtcTime) : Purger :=
  match σ.phase with
  | .marking m deleted rest =>
    if ok then
      { σ with
        queue :=
          if deleted then σ.queue.markDone m.id (datetimeNow now)
          else if isTerminalAttempt m.attempts then σ.queue.markFailed m.id (datetimeNow now)
          else σ.queue.markRetry m.id (datetimeNow now)
        phase := .next rest }
    else { σ with phase := .next rest }
  | _ => σ

def step (σ : Purger) : PurgerAct → Purger
  | .enqueue storageId bot messages now =>
    match σ.queue.enqueueInTx σ.maxVariables storageId bot messages (datetimeNow now) with
    | .error _ => σ
    | .ok queue =>
      { σ with
        queue := queue
        enqueued := σ.enqueued ++ messages.map fun target => (σ.queue.nextJob, target) }
  | .begin clock =>
    if σ.phase = .sleeping then
      { σ with phase := if σ.RequeueDue clock then .requeueing else .claiming }
    else σ
  | .requeue ok now clock => σ.requeue ok now clock
  | .claim ok now => σ.claim ok now
  | .delete ok =>
    match σ.phase with
    | .deleting m rest => { σ with phase := .marking m ok rest }
    | _ => σ
  | .mark ok now => σ.mark ok now
  | .complete ok =>
    if σ.phase = .completing then
      { σ with
        queue := if ok then σ.queue.tryCompleteJobs else σ.queue
        phase := .sleeping }
    else σ
  | .crash => { σ with lastRequeue := none, phase := .sleeping }

/-! ## What is asked of a run -/

/-- A row is in progress, and no tick works on it. -/
structure Stranded (σ : Purger) (m : PurgeMessage) : Prop where
  mem : m ∈ σ.queue.messages
  status : m.status = .inProgress
  free : ∀ h ∈ σ.phase.held, h.id ≠ m.id

/-- The message of a row is to be deleted again. -/
def Waits (σ : Purger) (m : PurgeMessage) : Prop :=
  ∃ row ∈ σ.queue.messages, row.id = m.id ∧ row.jobId = m.jobId ∧ row.target = m.target ∧
    row.status = .pending

/-- Whatever happens, a stranded row waits again by the end of the first tick that may give rows back at
    least the lease behind its claim. -/
def Recovers (σ : Purger) : Prop :=
  ∀ m, σ.Stranded m → ∀ acts clock clock' now, (run step σ acts).phase = .sleeping →
    (run step σ acts).RequeueDue clock → (∀ claimed ∈ σ.claimedAt m.id,
      claimed + inProgressLease ≤ now.nanos) →
    ∃ pre, pre <+: acts ++ [.begin clock, .requeue true now clock'] ∧ (run step σ pre).Waits m

/-- A job is completed when its messages are settled, a message failed when it was tried often enough, none
    is lost or stranded for good, and a claim keeps its lease. -/
structure Good (σ : Purger) : Prop where
  completed : ∀ j ∈ σ.queue.jobs, j.completed = true → ∀ m ∈ σ.queue.messages, m.jobId = j.id →
    m.status = .done ∨ m.status = .failed
  failed : ∀ m ∈ σ.queue.messages, m.status = .failed →
    maxAttempts ≤ σ.claims.countP fun claim => claim.1 = m.id
  kept : ∀ e ∈ σ.enqueued, ∃ m ∈ σ.queue.messages, m.jobId = e.1 ∧ m.target = e.2
  recovers : σ.Recovers
  leased : ∀ r ∈ σ.requeues, r.1 + inProgressLease ≤ r.2

end Purger

/-- A requeue that finds a row in progress whose lease has not run out has its bound on a day before the
    row's claim. -/
def PurgerAct.Dated (σ : Purger) : PurgerAct → Prop
  | .requeue true now _ => σ.phase = .requeueing → ∀ m ∈ σ.queue.messages, m.status = .inProgress →
    ∀ claimed ∈ σ.claimedAt m.id, now.nanos < claimed + inProgressLease →
      dayOf (now.nanos - inProgressLease) < dayOf claimed
  | _ => True

/-! ## What holds in every run -/

namespace Purger

/-- The invariant of the tables, the loop and what happened. -/
structure Sound (σ : Purger) : Prop where
  jobBelow : ∀ j ∈ σ.queue.jobs, j.id < σ.queue.nextJob
  named : ∀ m ∈ σ.queue.messages, m.jobId < σ.queue.nextJob
  ids : (σ.queue.messages.map (·.id)).Nodup
  below : ∀ m ∈ σ.queue.messages, m.id < σ.queue.nextMessage
  claimBelow : ∀ c ∈ σ.claims, c.1 < σ.queue.nextMessage
  counted : ∀ m ∈ σ.queue.messages, m.attempts = σ.claims.countP fun claim => claim.1 = m.id
  timed : ∀ m ∈ σ.queue.messages, m.status = .inProgress → ∃ claimed, σ.claimedAt m.id = some claimed ∧
    m.updatedAt = (claimed / second : Nat) ∧ InCalendar claimed
  held : ∀ h ∈ σ.phase.held, h.status = .inProgress ∧ h ∈ σ.queue.messages
  heldOnce : (σ.phase.held.map (·.id)).Nodup
  completed : ∀ j ∈ σ.queue.jobs, j.completed = true → ∀ m ∈ σ.queue.messages, m.jobId = j.id →
    m.status = .done ∨ m.status = .failed
  failed : ∀ m ∈ σ.queue.messages, m.status = .failed → maxAttempts ≤ m.attempts
  kept : ∀ e ∈ σ.enqueued, ∃ m ∈ σ.queue.messages, m.jobId = e.1 ∧ m.target = e.2

variable {σ τ : Purger}

lemma Sound.fresh (maxVariables : Nat) : Sound (fresh maxVariables) where
  jobBelow _ h := absurd h List.not_mem_nil
  named _ h := absurd h List.not_mem_nil
  ids := List.nodup_nil
  below _ h := absurd h List.not_mem_nil
  claimBelow _ h := absurd h List.not_mem_nil
  counted _ h := absurd h List.not_mem_nil
  timed _ h := absurd h List.not_mem_nil
  held _ h := absurd h List.not_mem_nil
  heldOnce := List.nodup_nil
  completed _ h := absurd h List.not_mem_nil
  failed _ h := absurd h List.not_mem_nil
  kept _ h := absurd h List.not_mem_nil

lemma Sound.eq_of_id (hs : σ.Sound) {m m' : PurgeMessage} (hm : m ∈ σ.queue.messages)
    (hm' : m' ∈ σ.queue.messages) (h : m.id = m'.id) : m = m' :=
  List.inj_on_of_nodup_map hs.ids hm hm' h

lemma Sound.setPhase (hs : σ.Sound) {phase : TickPhase} {lastRequeue : Option Nat}
    (h : phase.held.Sublist σ.phase.held) :
    Sound { σ with phase := phase, lastRequeue := lastRequeue } :=
  { hs with
    held := fun m hm => hs.held m (h.subset hm)
    heldOnce := hs.heldOnce.sublist (h.map _) }

/-- What an update of a claimed row leaves of it. -/
structure Settles (m m' : PurgeMessage) : Prop where
  id : m'.id = m.id
  jobId : m'.jobId = m.jobId
  target : m'.target = m.target
  attempts : m'.attempts = m.attempts
  was : m.status = .inProgress
  status : m'.status ≠ .inProgress
  failed : m'.status = .failed → maxAttempts ≤ m.attempts

lemma Sound.settle (hs : σ.Sound) {f : PurgeMessage → PurgeMessage} {phase : TickPhase}
    {lastRequeue : Option Nat} {requeues : List (Nat × Nat)}
    (hf : ∀ m ∈ σ.queue.messages, f m = m ∨ Settles m (f m))
    (hphase : phase.held.Sublist σ.phase.held) (hheld : ∀ h ∈ phase.held, f h = h) :
    Sound { σ with
      queue := { σ.queue with messages := σ.queue.messages.map f }
      lastRequeue := lastRequeue
      requeues := requeues
      phase := phase } := by
  have hid : ∀ m ∈ σ.queue.messages, (f m).id = m.id ∧ (f m).jobId = m.jobId ∧
      (f m).target = m.target ∧ (f m).attempts = m.attempts := by
    intro m hm
    obtain h | h := hf m hm
    · rw [h]
      exact ⟨rfl, rfl, rfl, rfl⟩
    · exact ⟨h.id, h.jobId, h.target, h.attempts⟩
  constructor
  case jobBelow => exact hs.jobBelow
  case claimBelow => exact hs.claimBelow
  case heldOnce => exact hs.heldOnce.sublist (hphase.map _)
  case ids =>
    have hmap : (σ.queue.messages.map f).map (·.id) = σ.queue.messages.map (·.id) := by
      rw [List.map_map]
      exact List.map_congr_left fun m hm => (hid m hm).1
    exact hmap ▸ hs.ids
  case held =>
    intro h hh
    obtain ⟨hstatus, hmem⟩ := hs.held h (hphase.subset hh)
    exact ⟨hstatus, hheld h hh ▸ List.mem_map_of_mem hmem⟩
  case kept =>
    intro e he
    obtain ⟨m, hm, hjob, htarget⟩ := hs.kept e he
    exact ⟨f m, List.mem_map_of_mem hm, (hid m hm).2.1.trans hjob, (hid m hm).2.2.1.trans htarget⟩
  all_goals
    simp only [List.forall_mem_map]
  case named => exact fun m hm => (hid m hm).2.1 ▸ hs.named m hm
  case below => exact fun m hm => (hid m hm).1 ▸ hs.below m hm
  case counted =>
    intro m hm
    obtain ⟨hmid, _, _, hattempts⟩ := hid m hm
    rw [hattempts, hmid]
    exact hs.counted m hm
  case timed =>
    intro m hm hstatus
    obtain h | h := hf m hm
    · rw [h] at hstatus ⊢
      exact hs.timed m hm hstatus
    · exact absurd hstatus h.status
  case completed =>
    intro j hj hcompleted m hm hjob
    have hsettled := hs.completed j hj hcompleted m hm ((hid m hm).2.1.symm.trans hjob)
    obtain h | h := hf m hm
    · rw [h]
      exact hsettled
    · rw [h.was] at hsettled
      exact absurd hsettled nofun
  case failed =>
    intro m hm hstatus
    obtain h | h := hf m hm
    · rw [h] at hstatus ⊢
      exact hs.failed m hm hstatus
    · exact h.attempts ▸ h.failed hstatus

lemma ids_newPurgeMessages (jobId : Uuid) (now : Instant) (id : Nat) (messages : List (Int × Int)) :
    (newPurgeMessages jobId now id messages).map (·.id) = List.range' id messages.length := by
  induction messages generalizing id with
  | nil => rfl
  | cons m messages ih => rw [newPurgeMessages, List.map_cons, ih]; rfl

lemma id_newPurgeMessages {jobId : Uuid} {now : Instant} {id : Nat} {messages : List (Int × Int)}
    {row : PurgeMessage} (h : row ∈ newPurgeMessages jobId now id messages) :
    id ≤ row.id ∧ row.id < id + messages.length := by
  have hrow : row.id ∈ List.range' id messages.length :=
    ids_newPurgeMessages jobId now id messages ▸ List.mem_map_of_mem h
  exact List.mem_range'_1.mp hrow

lemma Sound.countP_eq_zero (hs : σ.Sound) {id : Nat} (h : σ.queue.nextMessage ≤ id) :
    (σ.claims.countP fun claim => claim.1 = id) = 0 := by
  rw [List.countP_eq_zero]
  intro c hc heq
  have := hs.claimBelow c hc
  have := of_decide_eq_true heq
  omega

/-- A new job. -/
lemma Sound.enqueue (hs : σ.Sound) {storageId : Uuid} {bot : StorageWorker}
    {messages : List (Int × Int)} {now : Instant} {queue : PurgeQueue}
    (h : σ.queue.enqueueInTx σ.maxVariables storageId bot messages now = .ok queue) :
    Sound { σ with
      queue := queue
      enqueued := σ.enqueued ++ messages.map fun target => (σ.queue.nextJob, target) } := by
  unfold PurgeQueue.enqueueInTx at h
  split at h
  · cases h
  cases h
  constructor
  case heldOnce => exact hs.heldOnce
  case jobBelow =>
    intro j hj
    obtain hj | rfl := List.mem_append.mp hj |>.imp_right List.mem_singleton.mp
    · exact Nat.lt_succ_of_lt (hs.jobBelow j hj)
    · exact Nat.lt_succ_self _
  case named =>
    intro m hm
    obtain hm | hm := List.mem_append.mp hm
    · exact Nat.lt_succ_of_lt (hs.named m hm)
    · rw [(mem_newPurgeMessages hm).1]
      exact Nat.lt_succ_self _
  case ids =>
    rw [List.map_append, ids_newPurgeMessages, List.nodup_append]
    refine ⟨hs.ids, List.nodup_range', ?_⟩
    intro id hid id' hid' heq
    obtain ⟨m, hm, rfl⟩ := List.mem_map.mp hid
    have := hs.below m hm
    have := (List.mem_range'_1.mp hid').1
    omega
  case below =>
    intro m hm
    obtain hm | hm := List.mem_append.mp hm
    · exact Nat.lt_add_right _ (hs.below m hm)
    · exact (id_newPurgeMessages hm).2
  case claimBelow => exact fun c hc => Nat.lt_add_right _ (hs.claimBelow c hc)
  case counted =>
    intro m hm
    obtain hm | hm := List.mem_append.mp hm
    · exact hs.counted m hm
    · rw [(mem_newPurgeMessages hm).2.2, hs.countP_eq_zero (id_newPurgeMessages hm).1]
  case timed =>
    intro m hm hstatus
    obtain hm | hm := List.mem_append.mp hm
    · exact hs.timed m hm hstatus
    · rw [(mem_newPurgeMessages hm).2.1] at hstatus
      cases hstatus
  case held => exact fun h hh => ⟨(hs.held h hh).1, List.mem_append_left _ (hs.held h hh).2⟩
  case completed =>
    intro j hj hcompleted m hm hjob
    obtain hj | rfl := List.mem_append.mp hj |>.imp_right List.mem_singleton.mp
    · obtain hm | hm := List.mem_append.mp hm
      · exact hs.completed j hj hcompleted m hm hjob
      · -- the ids of jobs are new
        exact absurd (hjob.symm.trans (mem_newPurgeMessages hm).1) (Nat.ne_of_lt (hs.jobBelow j hj))
    · cases hcompleted
  case failed =>
    intro m hm hstatus
    obtain hm | hm := List.mem_append.mp hm
    · exact hs.failed m hm hstatus
    · rw [(mem_newPurgeMessages hm).2.1] at hstatus
      cases hstatus
  case kept =>
    intro e he
    obtain he | he := List.mem_append.mp he
    · obtain ⟨m, hm, h⟩ := hs.kept e he
      exact ⟨m, List.mem_append_left _ hm, h⟩
    · obtain ⟨target, htarget, rfl⟩ := List.mem_map.mp he
      rw [← target_newPurgeMessages σ.queue.nextJob now σ.queue.nextMessage messages] at htarget
      obtain ⟨row, hrow, rfl⟩ := List.mem_map.mp htarget
      exact ⟨row, List.mem_append_right _ hrow, (mem_newPurgeMessages hrow).1, rfl⟩

lemma mem_claimable {q : PurgeQueue} {m : PurgeMessage} (h : m ∈ q.claimable) :
    m ∈ q.messages ∧ m.status = .pending ∧ ∃ j ∈ q.jobs, j.id = m.jobId ∧ j.completed = false := by
  have hsorted := List.mem_insertionSort _ |>.mp (List.mem_of_mem_take h)
  obtain ⟨hm, hcond⟩ := List.mem_filter.mp hsorted
  obtain ⟨hstatus, hjob⟩ := of_decide_eq_true hcond
  exact ⟨hm, hstatus, hjob⟩

lemma Sound.nodup_claimable (hs : σ.Sound) : (σ.queue.claimable.map (·.id)).Nodup := by
  have hperm := (List.perm_insertionSort (fun m m' : PurgeMessage => m.id ≤ m'.id)
    (σ.queue.messages.filter fun m => m.status = .pending ∧
      ∃ j ∈ σ.queue.jobs, j.id = m.jobId ∧ j.completed = false)).map (·.id)
  have hsorted := hperm.nodup_iff.mpr (hs.ids.sublist (List.filter_sublist.map _))
  exact hsorted.sublist ((List.take_sublist _ _).map _)

lemma held_next (rest : List PurgeMessage) : (TickPhase.next rest).held = rest := by
  cases rest <;> rfl

lemma Sound.countP_claimed (hs : σ.Sound) (now : Instant) (nanos : Nat) {m : PurgeMessage}
    (hm : m ∈ σ.queue.messages) :
    (((σ.queue.claimPending now).2.map fun m => (m.id, nanos)).countP fun claim => claim.1 = m.id) =
      if m ∈ σ.queue.claimable then 1 else 0 := by
  have hcount : (((σ.queue.claimPending now).2.map fun m => (m.id, nanos)).countP
      fun claim => claim.1 = m.id) = (σ.queue.claimable.map (·.id)).count m.id := by
    simp only [PurgeQueue.claimPending, List.map_map, List.countP_map, List.count]
    congr 1
  rw [hcount]
  split
  · case isTrue h => exact List.count_eq_one_of_mem hs.nodup_claimable (List.mem_map_of_mem h)
  · case isFalse h =>
    rw [List.count_eq_zero]
    intro hmem
    obtain ⟨m', hm', hid⟩ := List.mem_map.mp hmem
    exact h (hs.eq_of_id (mem_claimable hm').1 hm hid ▸ hm')

lemma Sound.lookup_claimed (hs : σ.Sound) (now : Instant) (nanos : Nat) {m : PurgeMessage}
    (hm : m ∈ σ.queue.messages) :
    (((σ.queue.claimPending now).2.map fun m => (m.id, nanos)) ++ σ.claims).lookup m.id =
      if m ∈ σ.queue.claimable then some nanos else σ.claimedAt m.id := by
  rw [List.lookup_append]
  split
  · case isTrue h =>
    have hsome : ((σ.queue.claimPending now).2.map fun m => (m.id, nanos)).lookup m.id =
        some nanos := by
      have hin : (m.id, nanos) ∈ (σ.queue.claimPending now).2.map fun m => (m.id, nanos) := by
        simp only [PurgeQueue.claimPending, List.map_map]
        exact List.mem_map_of_mem (f := fun m : PurgeMessage => (m.id, nanos)) h
      cases hlookup : ((σ.queue.claimPending now).2.map fun m => (m.id, nanos)).lookup m.id with
      | none => exact absurd (List.lookup_eq_none_iff.mp hlookup _ hin) (by simp)
      | some claimed =>
        obtain ⟨l, r, heq, _⟩ := List.lookup_eq_some_iff.mp hlookup
        have hpair : (m.id, claimed) ∈ (σ.queue.claimPending now).2.map fun m => (m.id, nanos) :=
          heq ▸ List.mem_append_right l List.mem_cons_self
        obtain ⟨_, _, hc⟩ := List.mem_map.mp hpair
        exact congrArg some (congrArg Prod.snd hc).symm
    rw [hsome]
    rfl
  · case isFalse h =>
    have hnone : ((σ.queue.claimPending now).2.map fun m => (m.id, nanos)).lookup m.id = none := by
      rw [List.lookup_eq_none_iff]
      intro c hc
      simp only [PurgeQueue.claimPending, List.map_map, List.mem_map] at hc
      obtain ⟨m', hm', rfl⟩ := hc
      refine bne_iff_ne.mpr fun hid => h ?_
      exact hs.eq_of_id (mem_claimable hm').1 hm hid.symm ▸ hm'
    rw [hnone]
    rfl

/-- A claim that succeeds. -/
lemma Sound.claimPending (hs : σ.Sound) (now : UtcTime) :
    Sound { σ with
      queue := (σ.queue.claimPending (datetimeNow now)).1
      claims := ((σ.queue.claimPending (datetimeNow now)).2.map fun m => (m.id, now.nanos)) ++ σ.claims
      phase := .next (σ.queue.claimPending (datetimeNow now)).2 } := by
  have hsame : ∀ m, (if m ∈ σ.queue.claimable then PurgeQueue.claim (datetimeNow now) m else m).id = m.id ∧
      (if m ∈ σ.queue.claimable then PurgeQueue.claim (datetimeNow now) m else m).jobId = m.jobId ∧
      (if m ∈ σ.queue.claimable then PurgeQueue.claim (datetimeNow now) m else m).target = m.target := by
    intro m
    split <;> exact ⟨rfl, rfl, rfl⟩
  constructor
  case jobBelow => exact hs.jobBelow
  case ids =>
    have hmap : ((σ.queue.claimPending (datetimeNow now)).1.messages).map (·.id) =
        σ.queue.messages.map (·.id) := by
      simp only [PurgeQueue.claimPending, List.map_map]
      exact List.map_congr_left fun m _ => (hsame m).1
    exact hmap ▸ hs.ids
  case claimBelow =>
    intro c hc
    obtain hc | hc := List.mem_append.mp hc
    · simp only [PurgeQueue.claimPending, List.map_map, List.mem_map] at hc
      obtain ⟨m, hm, rfl⟩ := hc
      exact hs.below m (mem_claimable hm).1
    · exact hs.claimBelow c hc
  case heldOnce =>
    rw [held_next]
    simp only [PurgeQueue.claimPending, List.map_map]
    exact hs.nodup_claimable
  case held =>
    rw [held_next]
    intro h hh
    obtain ⟨m, hm, rfl⟩ := List.mem_map.mp hh
    refine ⟨rfl, List.mem_map.mpr ⟨m, (mem_claimable hm).1, if_pos hm⟩⟩
  case kept =>
    intro e he
    obtain ⟨m, hm, hjob, htarget⟩ := hs.kept e he
    exact ⟨_, List.mem_map_of_mem hm, (hsame m).2.1.trans hjob, (hsame m).2.2.trans htarget⟩
  all_goals
    simp only [PurgeQueue.claimPending, List.forall_mem_map]
  case named => exact fun m hm => (hsame m).2.1 ▸ hs.named m hm
  case below => exact fun m hm => (hsame m).1 ▸ hs.below m hm
  case counted =>
    intro m hm
    rw [(hsame m).1, List.countP_append]
    have hclaimed := hs.countP_claimed (datetimeNow now) now.nanos hm
    simp only [PurgeQueue.claimPending, List.map_map] at hclaimed
    simp only [List.map_map, hclaimed, ← hs.counted m hm]
    split
    · exact Nat.add_comm m.attempts 1
    · exact (Nat.zero_add m.attempts).symm
  case timed =>
    intro m hm hstatus
    have hlookup := hs.lookup_claimed (datetimeNow now) now.nanos hm
    simp only [PurgeQueue.claimPending, List.map_map] at hlookup
    simp only [claimedAt, (hsame m).1, List.map_map, hlookup]
    split
    · exact ⟨now.nanos, rfl, rfl, now.inCalendar⟩
    · case isFalse h =>
      rw [if_neg h] at hstatus
      exact hs.timed m hm hstatus
  case completed =>
    intro j hj hcompleted m hm hjob
    rw [(hsame m).2.1] at hjob
    split
    · case isTrue h =>
      -- the jobs of claimed rows are open, and no other job has their id
      obtain hdone | hfailed := hs.completed j hj hcompleted m hm hjob
      · exact absurd ((mem_claimable h).2.1.symm.trans hdone) nofun
      · exact absurd ((mem_claimable h).2.1.symm.trans hfailed) nofun
    · exact hs.completed j hj hcompleted m hm hjob
  case failed =>
    intro m hm hstatus
    split at hstatus
    · cases hstatus
    · case isFalse h =>
      rw [if_neg h]
      exact hs.failed m hm hstatus

lemma Sound.claim (hs : σ.Sound) (ok : Bool) (now : UtcTime) : (σ.claim ok now).Sound := by
  unfold Purger.claim
  split
  · cases ok with
    | false => exact hs.setPhase (List.nil_sublist _)
    | true => exact hs.claimPending now
  · exact hs

lemma Sound.requeue (hs : σ.Sound) (ok : Bool) (now : UtcTime) (clock : Nat) :
    (σ.requeue ok now clock).Sound := by
  unfold Purger.requeue
  split
  · cases ok with
    | false => exact hs.setPhase (List.nil_sublist _)
    | true =>
      refine hs.settle ?_ (List.nil_sublist _) fun _ h => absurd h List.not_mem_nil
      intro m _
      split
      · case isTrue h => exact .inr ⟨rfl, rfl, rfl, rfl, h.1, nofun, nofun⟩
      · exact .inl rfl
  · exact hs

lemma Sound.mark (hs : σ.Sound) (ok : Bool) (now : UtcTime) : (σ.mark ok now).Sound := by
  unfold Purger.mark
  split
  · case h_1 m deleted rest hphase =>
    have hsub : (TickPhase.next rest).held.Sublist σ.phase.held := by
      rw [held_next, hphase]
      exact List.sublist_cons_self m rest
    cases ok with
    | false => exact hs.setPhase hsub
    | true =>
      have hin : m ∈ σ.phase.held := hphase ▸ List.mem_cons_self
      obtain ⟨hstatus, hm⟩ := hs.held m hin
      have hrest : ∀ h ∈ (TickPhase.next rest).held, h.id ≠ m.id := by
        have honce := hs.heldOnce
        rw [hphase] at honce
        rw [held_next]
        intro h hh heq
        exact (List.nodup_cons.mp honce).1 (List.mem_map.mpr ⟨h, hh, heq⟩)
      have hsettle : ∀ status, status ≠ .inProgress → (status = .failed → maxAttempts ≤ m.attempts) →
          Sound { σ with
            queue := σ.queue.mark m.id status (datetimeNow now)
            phase := .next rest } := by
        intro status hnot hfailed
        refine hs.settle ?_ hsub fun h hh => if_neg (hrest h hh)
        intro m' hm'
        split
        · case isTrue hid =>
          obtain rfl := hs.eq_of_id hm' hm hid
          exact .inr ⟨rfl, rfl, rfl, rfl, hstatus, hnot, hfailed⟩
        · exact .inl rfl
      rw [if_pos rfl]
      split
      · exact hsettle .done nofun nofun
      · split
        · case isTrue h => exact hsettle .failed nofun fun _ => h
        · exact hsettle .pending nofun nofun
  · exact hs

lemma Sound.tryCompleteJobs (hs : σ.Sound) :
    Sound { σ with queue := σ.queue.tryCompleteJobs, phase := .sleeping } := by
  have hid : ∀ j ∈ σ.queue.tryCompleteJobs.jobs, ∃ j' ∈ σ.queue.jobs, j.id = j'.id ∧
      (j.completed = true → j'.completed = true ∨
        ∀ m ∈ σ.queue.messages, m.jobId = j.id → m.status = .done ∨ m.status = .failed) := by
    intro j hj
    obtain ⟨j', hj', rfl⟩ := List.mem_map.mp hj
    refine ⟨j', hj', ?_⟩
    split
    · exact ⟨rfl, .inl⟩
    · case isFalse hnone =>
      refine ⟨rfl, fun _ => .inr ?_⟩
      intro m hm hjob
      cases hstatus : m.status with
      | pending => exact absurd ⟨m, hm, hjob, .inl hstatus⟩ hnone
      | inProgress => exact absurd ⟨m, hm, hjob, .inr hstatus⟩ hnone
      | done => exact .inl rfl
      | failed => exact .inr rfl
  have hrest : Sound { σ with phase := .sleeping } := hs.setPhase (List.nil_sublist _)
  refine { hrest with jobBelow := ?_, completed := ?_ }
  · intro j hj
    obtain ⟨j', hj', hid, _⟩ := hid j hj
    exact hid ▸ hs.jobBelow j' hj'
  · intro j hj hcompleted m hm hjob
    obtain ⟨j', hj', hid, hdone⟩ := hid j hj
    obtain hold | hnew := hdone hcompleted
    · exact hs.completed j' hj' hold m hm (hjob.trans hid)
    · exact hnew m hm hjob

lemma Sound.step (hs : σ.Sound) (a : PurgerAct) : (σ.step a).Sound := by
  cases a with
  | enqueue storageId bot messages now =>
    simp only [Purger.step]
    cases h : σ.queue.enqueueInTx σ.maxVariables storageId bot messages (datetimeNow now) with
    | error _ => exact hs
    | ok queue => exact hs.enqueue h
  | begin clock =>
    simp only [Purger.step]
    split
    · refine hs.setPhase ?_
      split <;> exact List.nil_sublist _
    · exact hs
  | requeue ok now clock => exact hs.requeue ok now clock
  | claim ok now => exact hs.claim ok now
  | delete ok =>
    simp only [Purger.step]
    cases hphase : σ.phase with
    | deleting m rest =>
      have hheld : (TickPhase.marking m ok rest).held.Sublist σ.phase.held := hphase ▸ List.Sublist.refl _
      exact hs.setPhase hheld
    | _ => exact hs
  | mark ok now => exact hs.mark ok now
  | complete ok =>
    simp only [Purger.step]
    split
    · cases ok with
      | false => exact hs.setPhase (List.nil_sublist _)
      | true => exact hs.tryCompleteJobs
    · exact hs
  | crash => exact hs.setPhase (List.nil_sublist _)

/-! ## What a crash strands -/

variable {m : PurgeMessage}

lemma Sound.stale_iff (hs : σ.Sound) (hm : m ∈ σ.queue.messages) (hstatus : m.status = .inProgress)
    {claimed : Nat} (hclaimed : σ.claimedAt m.id = some claimed) (now : UtcTime) :
    m.Stale (now.nanos - inProgressLease) ↔ dayOf claimed ≤ dayOf (now.nanos - inProgressLease) := by
  obtain ⟨claimed', hclaimed', hupdated, hcalendar⟩ := hs.timed m hm hstatus
  obtain rfl : claimed = claimed' := Option.some.inj (hclaimed.symm.trans hclaimed')
  have hcutoff : InCalendar (now.nanos - inProgressLease) :=
    now.inCalendar.mono (Nat.sub_le _ _)
  unfold PurgeMessage.Stale
  rw [hupdated, Int.toNat_natCast, datetimeText_lt_rfc3339Text hcalendar.second hcutoff, dayOf_second]
  exact and_iff_right hstatus

/-- A stranded row stays so, or waits again. -/
lemma Sound.stranded_step (hs : σ.Sound) (h : σ.Stranded m) (a : PurgerAct) :
    (σ.step a).Stranded m ∨ (σ.step a).Waits m := by
  have hfree (phase : TickPhase) (hphase : phase.held.Sublist σ.phase.held) :
      ∀ h ∈ phase.held, h.id ≠ m.id := fun b hb => h.free b (hphase.subset hb)
  cases a with
  | enqueue storageId bot messages now =>
    left
    simp only [Purger.step]
    cases hq : σ.queue.enqueueInTx σ.maxVariables storageId bot messages (datetimeNow now) with
    | error _ => exact h
    | ok queue =>
      unfold PurgeQueue.enqueueInTx at hq
      split at hq
      · cases hq
      · cases hq
        exact ⟨List.mem_append_left _ h.mem, h.status, h.free⟩
  | begin clock =>
    left
    simp only [Purger.step]
    split
    · refine ⟨h.mem, h.status, hfree _ ?_⟩
      split <;> exact List.nil_sublist _
    · exact h
  | requeue ok now clock =>
    simp only [Purger.step, Purger.requeue]
    split
    · cases ok with
      | false => exact .inl ⟨h.mem, h.status, hfree _ (List.nil_sublist _)⟩
      | true =>
        by_cases hstale : m.Stale (now.nanos - inProgressLease)
        · right
          refine ⟨_, List.mem_map_of_mem h.mem, ?_⟩
          rw [if_pos hstale]
          exact ⟨rfl, rfl, rfl, rfl⟩
        · left
          refine ⟨List.mem_map.mpr ⟨m, h.mem, if_neg hstale⟩, h.status, hfree _ (List.nil_sublist _)⟩
    · exact .inl h
  | claim ok now =>
    left
    simp only [Purger.step, Purger.claim]
    split
    · cases ok with
      | false => exact ⟨h.mem, h.status, hfree _ (List.nil_sublist _)⟩
      | true =>
        -- a claim takes pending rows only
        have hnot : ∀ b ∈ σ.queue.claimable, b.id ≠ m.id := by
          intro b hb hid
          have heq := hs.eq_of_id (mem_claimable hb).1 h.mem hid
          have hpending := (mem_claimable hb).2.1
          rw [heq, h.status] at hpending
          cases hpending
        refine ⟨List.mem_map.mpr ⟨m, h.mem, if_neg fun hin => hnot m hin rfl⟩, h.status, ?_⟩
        change ∀ b ∈ (TickPhase.next (σ.queue.claimPending (datetimeNow now)).2).held, b.id ≠ m.id
        rw [held_next]
        intro b hb
        obtain ⟨b', hb', rfl⟩ := List.mem_map.mp hb
        exact hnot b' hb'
    · exact h
  | delete ok =>
    left
    simp only [Purger.step]
    cases hphase : σ.phase with
    | deleting b rest =>
      exact ⟨h.mem, h.status, hfree (.marking b ok rest) (hphase ▸ List.Sublist.refl _)⟩
    | _ => exact h
  | mark ok now =>
    left
    simp only [Purger.step, Purger.mark]
    cases hphase : σ.phase with
    | marking b deleted rest =>
      have hnext := hfree (.next rest) (by rw [held_next, hphase]; exact List.sublist_cons_self b rest)
      have hid : m.id ≠ b.id := fun heq => h.free b (hphase ▸ List.mem_cons_self) heq.symm
      have hmark : ∀ status, m ∈ (σ.queue.mark b.id status (datetimeNow now)).messages :=
        fun status => List.mem_map.mpr ⟨m, h.mem, if_neg hid⟩
      cases ok with
      | false => exact ⟨h.mem, h.status, hnext⟩
      | true =>
        refine ⟨?_, h.status, hnext⟩
        simp only [if_true]
        split
        · exact hmark .done
        · split
          · exact hmark .failed
          · exact hmark .pending
    | _ => exact h
  | complete ok =>
    left
    simp only [Purger.step]
    split
    · refine ⟨?_, h.status, hfree _ (List.nil_sublist _)⟩
      cases ok <;> exact h.mem
    · exact h
  | crash => exact .inl ⟨h.mem, h.status, hfree _ (List.nil_sublist _)⟩

lemma Sound.stranded_run (hs : σ.Sound) (h : σ.Stranded m) (acts : List PurgerAct) :
    (∃ pre, pre <+: acts ∧ (run Purger.step σ pre).Waits m) ∨ (run Purger.step σ acts).Stranded m := by
  induction acts generalizing σ with
  | nil => exact .inr h
  | cons a acts ih =>
    obtain hstep | hwaits := hs.stranded_step h a
    · obtain ⟨pre, hpre, hwaits⟩ | hend := ih (hs.step a) hstep
      · exact .inl ⟨a :: pre, List.cons_prefix_cons.mpr ⟨rfl, hpre⟩, hwaits⟩
      · exact .inr hend
    · exact .inl ⟨[a], List.cons_prefix_cons.mpr ⟨rfl, List.nil_prefix⟩, hwaits⟩

lemma Sound.recovers (hs : σ.Sound) : σ.Recovers := by
  intro m hstranded acts clock clock' now hsleeping hdue hlease
  obtain ⟨pre, hpre, hwaits⟩ | hend := hs.stranded_run hstranded acts
  · exact ⟨pre, hpre.trans (List.prefix_append _ _), hwaits⟩
  · refine ⟨_, List.prefix_refl _, ?_⟩
    obtain ⟨claimed, hclaimed, hupdated, hcalendar⟩ := hs.timed m hstranded.mem hstranded.status
    have hstale : m.Stale (now.nanos - inProgressLease) := by
      rw [hs.stale_iff hstranded.mem hstranded.status hclaimed]
      apply dayOf_mono
      have := hlease claimed hclaimed
      omega
    rw [run_append]
    simp only [run_cons, run_nil, Purger.step, if_pos hsleeping, if_pos hdue, Purger.requeue, if_true]
    refine ⟨_, List.mem_map_of_mem hend.mem, ?_⟩
    rw [if_pos hstale]
    exact ⟨rfl, rfl, rfl, rfl⟩

lemma Sound.good (hs : σ.Sound) (hleased : ∀ r ∈ σ.requeues, r.1 + inProgressLease ≤ r.2) : σ.Good where
  completed := hs.completed
  failed m hm hstatus := hs.counted m hm ▸ hs.failed m hm hstatus
  kept := hs.kept
  recovers := hs.recovers
  leased := hleased

/-! ## The leases -/

/-- A step gives back no row before its lease has run out just when it is dated. -/
lemma Sound.leased_step_iff (hs : σ.Sound) (h : ∀ r ∈ σ.requeues, r.1 + inProgressLease ≤ r.2)
    (a : PurgerAct) :
    (∀ r ∈ (σ.step a).requeues, r.1 + inProgressLease ≤ r.2) ↔ a.Dated σ := by
  cases a with
  | requeue ok now clock =>
    simp only [Purger.step, Purger.requeue]
    by_cases hphase : σ.phase = .requeueing
    · rw [if_pos hphase]
      cases ok with
      | false => exact iff_of_true h trivial
      | true =>
        simp only [if_true, PurgerAct.Dated, hphase, true_implies]
        constructor
        · intro hall m hm hstatus claimed hclaimed hearly
          by_contra hday
          have hstale := (hs.stale_iff hm hstatus hclaimed now).mpr (Nat.le_of_not_lt hday)
          have hrow : m ∈ σ.staleRows now := List.mem_filter.mpr ⟨hm, decide_eq_true hstale⟩
          have := hall (claimed, now.nanos) <| List.mem_append_right _ <|
            List.mem_flatMap.mpr ⟨m, hrow, List.mem_map_of_mem (Option.mem_toList.mpr hclaimed)⟩
          exact absurd hearly (Nat.not_lt.mpr this)
        · intro hdated r hr
          obtain hr | hr := List.mem_append.mp hr
          · exact h r hr
          · obtain ⟨m, hrow, hr⟩ := List.mem_flatMap.mp hr
            obtain ⟨claimed, hclaimed, rfl⟩ := List.mem_map.mp hr
            obtain ⟨hm, hstale⟩ := List.mem_filter.mp hrow
            have hstale := of_decide_eq_true hstale
            have hclaimed := Option.mem_toList.mp hclaimed
            by_contra hearly
            have hday := hdated m hm hstale.1 claimed hclaimed (Nat.lt_of_not_le hearly)
            exact absurd ((hs.stale_iff hm hstale.1 hclaimed now).mp hstale) (Nat.not_le.mpr hday)
    · rw [if_neg hphase]
      cases ok with
      | false => exact iff_of_true h trivial
      | true => exact iff_of_true h fun hin => absurd hin hphase
  | enqueue storageId bot messages now =>
    simp only [Purger.step]
    cases σ.queue.enqueueInTx σ.maxVariables storageId bot messages (datetimeNow now) <;>
      exact iff_of_true h trivial
  | begin clock =>
    simp only [Purger.step]
    split <;> exact iff_of_true h trivial
  | claim ok now =>
    simp only [Purger.step, Purger.claim]
    split
    · cases ok <;> exact iff_of_true h trivial
    · exact iff_of_true h trivial
  | delete ok =>
    simp only [Purger.step]
    cases σ.phase <;> exact iff_of_true h trivial
  | mark ok now =>
    simp only [Purger.step, Purger.mark]
    cases σ.phase with
    | marking m deleted rest => cases ok <;> exact iff_of_true h trivial
    | _ => exact iff_of_true h trivial
  | complete ok =>
    simp only [Purger.step]
    split <;> exact iff_of_true h trivial
  | crash => exact iff_of_true h trivial

/-- A run keeps the purge jobs whole, and the leases of its claims, just when every requeue of it is
    dated. -/
theorem good_iff_dated (maxVariables : Nat) (acts : List PurgerAct) :
    Always step Good (fresh maxVariables) acts ↔
      AllOk step (fun σ a => a.Dated σ) (fresh maxVariables) acts := by
  refine always_iff_allOk (I := Sound) (fun σ a hs _ => hs.step a) ?_ (.fresh maxVariables)
    ((Sound.fresh maxVariables).good fun _ h => absurd h List.not_mem_nil)
  intro σ a hs hgood
  rw [← hs.leased_step_iff hgood.leased a]
  exact ⟨Good.leased, (hs.step a).good⟩

/-! ## A lease that is not kept -/

lemma noon_le : 86400 * second ≤ 1789992000 * second := by decide

lemma noon_inCalendar : InCalendar (1789992005 * second) := by decide +kernel

def noon : UtcTime :=
  ⟨1789992000 * second, noon_le, noon_inCalendar.mono (Nat.mul_le_mul_right _ (Nat.le_add_right _ 5))⟩

def pastNoon : UtcTime :=
  ⟨1789992005 * second, noon_le.trans (Nat.mul_le_mul_right _ (Nat.le_add_right _ 5)), noon_inCalendar⟩

/-- A message is claimed at noon, the process ends, and the first tick of the next one follows. -/
def restartAtNoon : List PurgerAct :=
  [.enqueue 1 ⟨7, some 1⟩ [(-100, 5)] noon, .begin 0, .requeue true noon 0, .claim true noon, .crash,
    .begin 0, .requeue true pastNoon 0]

/-- It gives back the row that was claimed five seconds before. -/
theorem restartAtNoon_early :
    ¬∀ maxVariables acts, Always step Good (fresh maxVariables) acts := by
  intro h
  have hleased := (h 32766 restartAtNoon).last.leased (1789992000 * second, 1789992005 * second)
    (by decide +kernel)
  exact absurd hleased (by decide)

end Purger

/-! ## The purger within the server -/

def Site.queue (σ : Site) : PurgeQueue :=
  ⟨σ.jobs, σ.messages, σ.nextJob, σ.nextMessage⟩

/-- What a turn of the purger does to the tables, with the batch it holds. -/
def PurgeAct.onQueue (batch : List PurgeMessage) (q : PurgeQueue) : PurgeAct → PurgeQueue
  | .requeueStale now => q.requeueStaleInProgress ((now - 600).toNat * second) now
  | .claim now => if batch = [] then (q.claimPending now).1 else q
  | .answer a now =>
    match batch with
    | [] => q
    | m :: _ =>
      if a = .refused then
        if isTerminalAttempt m.attempts then q.markFailed m.id now else q.markRetry m.id now
      else q.markDone m.id now
  | .complete => q.tryCompleteJobs

/-- The statements of the server's purger are those of the queue. -/
theorem Site.queue_purge (σ : Site) (a : PurgeAct) : (σ.purge a).queue = a.onQueue σ.batch σ.queue := by
  cases a with
  | requeueStale now => rfl
  | claim now =>
    unfold Site.purge PurgeAct.onQueue
    dsimp only
    split <;> rfl
  | answer a now =>
    unfold Site.purge PurgeAct.onQueue
    cases σ.batch with
    | nil => rfl
    | cons m batch =>
      cases a with
      | erased => rfl
      | notThere => rfl
      | refused =>
        simp only [if_true]
        by_cases h : isTerminalAttempt m.attempts
        · have h8 : 8 ≤ m.attempts := h
          simp only [if_pos h, if_pos h8]
          rfl
        · have h8 : ¬8 ≤ m.attempts := h
          simp only [if_neg h, if_neg h8]
          rfl
  | complete => rfl

end Sarca.Server
