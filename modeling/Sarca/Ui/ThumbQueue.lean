import Mathlib.Algebra.BigOperators.Group.List.Basic
import Mathlib.Algebra.Order.Ring.Nat
import Mathlib.Data.List.Count
import Mathlib.Data.List.Nodup
import Mathlib.Data.List.Perm.Basic
import Mathlib.Logic.Function.Basic
import Sarca.Lib.Run

/-!
# The thumbnail queue of the browser

`common/thumbQueue.js`: entries wait, hold one of `maxConcurrent` slots while an attempt runs, or sleep between
attempts. The event loop runs one callback at a time, and which one comes next is left open: an `Event` is a
call from outside, an answer of a fetch, or the callback of a promise or timer that is due (`Queue.jobs`).
`Loose` is the invariant without the promise that no slot stays free, with the entries a callback has in its
hands; `pump` restores that promise. `thumbQueue_sound` is the result over every run, and it includes that what
is due runs out after finitely many callbacks, with every promise settled.
-/

namespace Sarca.Ui.ThumbQueue
open Sarca.Lib

def maxConcurrent : Nat := 6

def retryMaxAttempts : Nat := 8

/-- How a fetch ends: with a picture, a 503, an `AbortError` or another error. -/
inductive Answer where
  | ok
  | busy
  | aborted
  | failed
deriving DecidableEq, Repr

/-- What an entry waits for, when it is not in `waiters`. -/
inductive Stage where
  /-- `runAttempt` was called, and its first callback is due -/
  | starting
  /-- the fetch is under way, or about to be, and an abort is listened to -/
  | fetching
  /-- the attempt's promise is settled, and its callback is due -/
  | ended (answer : Answer)
  /-- the timer of `delay` runs, and an abort is listened to -/
  | sleeping
  /-- the timer fired, and the callback that pushes the entry is due -/
  | waking
  /-- an abort ended the sleep, and the callback that settles the entry is due -/
  | roused
deriving DecidableEq, Repr

def Stage.running : Stage → Bool
  | .starting | .fetching | .ended _ => true
  | .sleeping | .waking | .roused => false

/-- What the `abort` listeners of an attempt and of a delay do. -/
def Stage.abort : Stage → Stage
  | .fetching => .ended .aborted
  | .sleeping => .roused
  | stage => stage

/-- The fields of a `ThumbQueueEntry` that change, how often `settle` ran for it, and how often `runAttempt`
    did. -/
structure Entry where
  attempt : Nat
  aborted : Bool
  settles : Nat
  tries : Nat
deriving DecidableEq, Repr

def Entry.new : Entry :=
  ⟨0, false, 0, 0⟩

/-- The module's variables, and the callbacks that are due or will be; entries are numbered. -/
structure Queue where
  waiters : List Nat
  liveEntries : List Nat
  active : Int
  pauseHolds : Nat
  jobs : List (Nat × Stage)
  entry : Nat → Entry
  count : Nat

namespace Queue

def empty : Queue :=
  ⟨[], [], 0, 0, [], fun _ => .new, 0⟩

def modify (q : Queue) (id : Nat) (f : Entry → Entry) : Queue :=
  { q with entry := Function.update q.entry id (f (q.entry id)) }

def settle (q : Queue) (id : Nat) : Queue :=
  { q with liveEntries := q.liveEntries.filter (· ≠ id) }.modify id fun e =>
    { e with settles := e.settles + 1 }

def runAttempt (q : Queue) (id : Nat) : Queue :=
  { q with jobs := (id, .starting) :: q.jobs }.modify id fun e => { e with tries := e.tries + 1 }

/-- The loop of `pump`, as often as there may be waiters. -/
def pumpLoop : Nat → Queue → Queue
  | 0, q => q
  | n + 1, q =>
    match q.waiters with
    | [] => q
    | id :: waiters =>
      if q.pauseHolds = 0 ∧ q.active < maxConcurrent then
        if (q.entry id).aborted then pumpLoop n ({ q with waiters := waiters }.settle id)
        else pumpLoop n ({ q with waiters := waiters, active := q.active + 1 }.runAttempt id)
      else q

def pump (q : Queue) : Queue :=
  pumpLoop q.waiters.length q

/-- `ac.abort()`: the listeners run at once, that of `waiters` first; a second abort does nothing. -/
def abort (q : Queue) (id : Nat) : Queue :=
  if (q.entry id).aborted then q
  else
    let q := q.modify id fun e => { e with aborted := true }
    let q := if id ∈ q.waiters then { q with waiters := q.waiters.erase id }.settle id else q
    { q with jobs := q.jobs.map fun job => if job.1 = id then (job.1, job.2.abort) else job }

/-- The first loop of `clearThumbQueue`, as often as there may be waiters. -/
def clearWaiters : Nat → Queue → Queue
  | 0, q => q
  | n + 1, q =>
    match q.waiters with
    | [] => q
    | id :: waiters => clearWaiters n (({ q with waiters := waiters }.abort id).settle id)

def clearThumbQueue (q : Queue) : Queue :=
  let q := clearWaiters q.waiters.length q
  q.liveEntries.foldl abort q

def pauseThumbQueue (q : Queue) : Queue :=
  { q with pauseHolds := q.pauseHolds + 1 }

def resumeThumbQueue (q : Queue) : Queue :=
  if q.pauseHolds = 0 then q
  else
    let q := { q with pauseHolds := q.pauseHolds - 1 }
    if q.pauseHolds = 0 then q.pump else q

/-- A promise is made; that of a caller who has aborted already is rejected on the spot. -/
def enqueueThumbFetch (q : Queue) (parentAborted : Bool) : Queue :=
  if parentAborted then
    { q with count := q.count + 1 }.modify q.count fun _ => { Entry.new with settles := 1 }
  else
    ({ q with
      count := q.count + 1
      liveEntries := q.liveEntries ++ [q.count]
      waiters := q.waiters ++ [q.count] }.modify q.count fun _ => .new).pump

/-- Settle a failed attempt, or sleep before the next one. -/
def onAttemptFailed (q : Queue) (id : Nat) (answer : Answer) : Queue :=
  if (q.entry id).aborted ∨ answer = .aborted then q.settle id
  else if answer ≠ .busy ∨ retryMaxAttempts - 1 ≤ (q.entry id).attempt then q.settle id
  else { q with jobs := (id, .sleeping) :: q.jobs }.modify id fun e => { e with attempt := e.attempt + 1 }

/-- The callback of a job that was due, which is off the list. -/
def callback (q : Queue) (id : Nat) : Stage → Queue
  | .starting =>
    { q with jobs := (id, if (q.entry id).aborted then .ended .aborted else .fetching) :: q.jobs }
  -- the fetch answers, not a callback of the queue
  | .fetching => { q with jobs := (id, .fetching) :: q.jobs }
  | .ended answer =>
    let q := { q with active := q.active - 1 }.pump
    if answer = .ok then q.settle id else q.onAttemptFailed id answer
  | .sleeping => { q with jobs := (id, .waking) :: q.jobs }
  | .waking => { q with waiters := q.waiters ++ [id] }.pump
  | .roused => q.settle id

end Queue

inductive Event where
  | enqueue (parentAborted : Bool)
  /-- the caller aborts -/
  | abort (id : Nat)
  | clear
  | pause
  | resume
  /-- the fetch of an attempt ends -/
  | answer (id : Nat) (answer : Answer)
  /-- a timer fires, or a callback that is due runs -/
  | callback (id : Nat) (stage : Stage)
deriving DecidableEq, Repr

/-- One event; an answer or a callback that nothing waits for does nothing. -/
def Queue.step (q : Queue) : Event → Queue
  | .enqueue parentAborted => q.enqueueThumbFetch parentAborted
  | .abort id => q.abort id
  | .clear => q.clearThumbQueue
  | .pause => q.pauseThumbQueue
  | .resume => q.resumeThumbQueue
  | .answer id answer =>
    if (id, .fetching) ∈ q.jobs then
      { q with jobs := (id, .ended answer) :: q.jobs.erase (id, .fetching) }
    else q
  | .callback id stage =>
    if (id, stage) ∈ q.jobs then { q with jobs := q.jobs.erase (id, stage) }.callback id stage else q

/-- A callback of the queue, a timer or an answer that is due: no call from outside. -/
def Due (q : Queue) : Event → Prop
  | .answer id _ => (id, .fetching) ∈ q.jobs
  | .callback id stage => (id, stage) ∈ q.jobs ∧ stage ≠ .fetching
  | _ => False

/-! ## What holds of the queue -/

/-- The steps an entry has left before its next attempt, when it waits for it. -/
def stepsOf (e : Entry) : Nat :=
  6 * (retryMaxAttempts - e.attempt)

/-- The steps of a stage before its entry waits again; those of an attempt are taken from its round. -/
def Stage.steps (e : Entry) : Stage → Nat
  | .starting => stepsOf e
  | .fetching => stepsOf e - 1
  | .ended _ => stepsOf e - 2
  | .sleeping => stepsOf e + 2
  | .waking => stepsOf e + 1
  | .roused => 1

def Queue.work (q : Queue) : Nat :=
  (q.waiters.map fun id => stepsOf (q.entry id)).sum +
    (q.jobs.map fun job => job.2.steps (q.entry job.1)).sum

/-- What is due runs out, however the answers and callbacks come, and when nothing is due and nobody holds the
    queue, every promise is settled. -/
def Queue.Drains (q : Queue) : Prop :=
  ∀ events, AllOk Queue.step Due q events → events.length ≤ q.work ∧
    ((∀ event, ¬ Due (run Queue.step q events) event) → (run Queue.step q events).pauseHolds = 0 →
      ∀ id < (run Queue.step q events).count, ((run Queue.step q events).entry id).settles = 1)

def Queue.running (q : Queue) : Nat :=
  q.jobs.countP fun job => job.2.running

/-- Where an entry is: how often among the waiters, the running attempts and the sleeping ones. -/
def Queue.places (q : Queue) (id : Nat) : Nat :=
  q.waiters.count id + q.jobs.countP fun job => job.1 = id

structure Queue.Sound (q : Queue) : Prop where
  /-- no promise is settled twice -/
  once : ∀ id, (q.entry id).settles ≤ 1
  /-- a settled one has no attempt that runs or is still to come -/
  spent : ∀ id, 0 < (q.entry id).settles → q.places id = 0
  /-- one that is not settled is waiting, running or sleeping, and in one place only -/
  unsettled : ∀ id, id < q.count → (q.entry id).settles = 0 → q.places id = 1
  slots : q.active = q.running
  bounded : q.active ≤ maxConcurrent
  attempts : ∀ id, (q.entry id).tries ≤ retryMaxAttempts
  /-- no slot stays free -/
  busy : q.pauseHolds = 0 → q.active < maxConcurrent → q.waiters = []

namespace Queue

variable {q : Queue} {hand : List Nat} {id id' : Nat} {f : Entry → Entry}

@[simp] lemma modify_waiters : (q.modify id f).waiters = q.waiters := rfl
@[simp] lemma modify_active : (q.modify id f).active = q.active := rfl
@[simp] lemma modify_pauseHolds : (q.modify id f).pauseHolds = q.pauseHolds := rfl
@[simp] lemma modify_jobs : (q.modify id f).jobs = q.jobs := rfl
@[simp] lemma modify_count : (q.modify id f).count = q.count := rfl
@[simp] lemma modify_self : (q.modify id f).entry id = f (q.entry id) := Function.update_self ..
@[simp] lemma modify_other (h : id' ≠ id) : (q.modify id f).entry id' = q.entry id' :=
  Function.update_of_ne h ..

lemma modify_field {α : Type} (g : Entry → α) (hg : ∀ e, g (f e) = g e) (id' : Nat) :
    g ((q.modify id f).entry id') = g (q.entry id') := by
  by_cases he : id' = id
  · rw [he, modify_self, hg]
  · rw [modify_other he]

def placed (q : Queue) : List Nat :=
  q.waiters ++ q.jobs.map Prod.fst

lemma places_eq : q.places id = q.placed.count id := by
  rw [placed, List.count_append, places, List.count_eq_countP (l := q.jobs.map Prod.fst), List.countP_map]
  rfl

/-- What holds while a callback has the entries of `hand`: nothing is in two places, and what is not settled is
    in one. -/
structure Loose (hand : List Nat) (q : Queue) : Prop where
  nodup : (q.placed ++ hand).Nodup
  mem : ∀ id, id ∈ q.placed ++ hand ↔ id < q.count ∧ (q.entry id).settles = 0
  once : ∀ id, (q.entry id).settles ≤ 1
  slots : q.active = q.running
  bounded : q.active ≤ maxConcurrent
  attempts : ∀ id, (q.entry id).attempt < retryMaxAttempts ∧ (q.entry id).tries ≤ (q.entry id).attempt + 1
  idle : ∀ id ∈ q.waiters, (q.entry id).tries ≤ (q.entry id).attempt
  asleep : ∀ job ∈ q.jobs, job.2.running = false → (q.entry job.1).tries ≤ (q.entry job.1).attempt

def Busy (q : Queue) : Prop :=
  q.pauseHolds = 0 → q.active < maxConcurrent → q.waiters = []

lemma Loose.sound (h : Loose [] q) (hbusy : q.Busy) : q.Sound where
  once := h.once
  spent := by
    intro id hsettled
    rw [places_eq]
    refine List.count_eq_zero.mpr fun hmem => ?_
    have hopen := ((h.mem id).mp (by rwa [List.append_nil])).2
    omega
  unsettled := by
    intro id hid hopen
    have hmem := (h.mem id).mpr ⟨hid, hopen⟩
    have hnodup := h.nodup
    rw [List.append_nil] at hmem hnodup
    rw [places_eq]
    exact List.count_eq_one_of_mem hnodup hmem
  slots := h.slots
  bounded := h.bounded
  attempts := by
    intro id
    obtain ⟨hattempt, htries⟩ := h.attempts id
    omega
  busy := hbusy

lemma Loose.settle (h : Loose (id :: hand) q) : Loose hand (q.settle id) := by
  have hne : ∀ id' ∈ q.placed ++ hand, id' ≠ id := by
    intro id' hmem he
    subst he
    exact (List.nodup_middle.mp h.nodup).notMem hmem
  have hattempt : ∀ id', ((q.settle id).entry id').attempt = (q.entry id').attempt :=
    modify_field Entry.attempt fun _ => rfl
  have htries : ∀ id', ((q.settle id).entry id').tries = (q.entry id').tries :=
    modify_field Entry.tries fun _ => rfl
  refine {
    nodup := (List.nodup_middle.mp h.nodup).of_cons
    mem := ?_
    once := ?_
    slots := h.slots
    bounded := h.bounded
    attempts := ?_
    idle := ?_
    asleep := ?_ }
  · intro id'
    have hold := h.mem id'
    rw [List.mem_append, List.mem_cons] at hold
    show id' ∈ q.placed ++ hand ↔ id' < q.count ∧ ((q.settle id).entry id').settles = 0
    by_cases he : id' = id
    · subst he
      constructor
      · exact fun hmem => absurd rfl (hne id' hmem)
      · intro hopen
        have hsettled : ((q.settle id').entry id').settles = (q.entry id').settles + 1 :=
          congrArg Entry.settles modify_self
        omega
    · have hsame : (q.settle id).entry id' = q.entry id' := modify_other he
      rw [hsame, ← hold, List.mem_append]
      simp [he]
  · intro id'
    by_cases he : id' = id
    · subst he
      have hopen := ((h.mem id').mp (by simp)).2
      have hsettled : ((q.settle id').entry id').settles = (q.entry id').settles + 1 :=
        congrArg Entry.settles modify_self
      omega
    · have hsame : (q.settle id).entry id' = q.entry id' := modify_other he
      rw [hsame]
      exact h.once id'
  · intro id'
    rw [hattempt, htries]
    exact h.attempts id'
  · intro id' hmem
    rw [hattempt, htries]
    exact h.idle id' hmem
  · intro job hjob hstage
    rw [hattempt, htries]
    exact h.asleep job hjob hstage

lemma Loose.move {q' : Queue} {hand' : List Nat} (h : Loose hand q)
    (hperm : (q'.placed ++ hand').Perm (q.placed ++ hand)) (hcount : q'.count = q.count)
    (hsettles : ∀ id, (q'.entry id).settles = (q.entry id).settles)
    (hslots : q'.active = q'.running) (hbounded : q'.active ≤ maxConcurrent)
    (hattempts : ∀ id, (q'.entry id).attempt < retryMaxAttempts ∧
      (q'.entry id).tries ≤ (q'.entry id).attempt + 1)
    (hidle : ∀ id ∈ q'.waiters, (q'.entry id).tries ≤ (q'.entry id).attempt)
    (hasleep : ∀ job ∈ q'.jobs, job.2.running = false →
      (q'.entry job.1).tries ≤ (q'.entry job.1).attempt) : Loose hand' q' where
  nodup := hperm.nodup_iff.mpr h.nodup
  mem := by
    intro id
    rw [hperm.mem_iff, h.mem, hcount, hsettles]
  once := by
    intro id
    rw [hsettles]
    exact h.once id
  slots := hslots
  bounded := hbounded
  attempts := hattempts
  idle := hidle
  asleep := hasleep

lemma Loose.shift {waiters : List Nat} (h : Loose hand q) (hq : q.waiters = id :: waiters) :
    Loose (id :: hand) { q with waiters := waiters } := by
  refine h.move ?_ rfl (fun _ => rfl) h.slots h.bounded h.attempts ?_ h.asleep
  · rw [placed, placed, hq]
    exact List.perm_middle
  · intro id' hmem
    exact h.idle id' (by rw [hq]; exact List.mem_cons_of_mem id hmem)

lemma Loose.runAttempt (h : Loose (id :: hand) q) (hidle : (q.entry id).tries ≤ (q.entry id).attempt)
    (hfree : q.active < maxConcurrent) : Loose hand ({ q with active := q.active + 1 }.runAttempt id) := by
  have hattempt : ∀ id', (({ q with active := q.active + 1 }.runAttempt id).entry id').attempt =
      (q.entry id').attempt := modify_field Entry.attempt fun _ => rfl
  have hother : ∀ id', id' ≠ id →
      ({ q with active := q.active + 1 }.runAttempt id).entry id' = q.entry id' :=
    fun id' hne => modify_other hne
  have hself : ({ q with active := q.active + 1 }.runAttempt id).entry id =
      { q.entry id with tries := (q.entry id).tries + 1 } := modify_self
  have hne : ∀ id' ∈ q.placed, id' ≠ id := by
    intro id' hmem he
    subst he
    exact (List.nodup_middle.mp h.nodup).notMem (List.mem_append_left hand hmem)
  refine h.move ?_ rfl (modify_field Entry.settles fun _ => rfl) ?_ ?_ ?_ ?_ ?_
  · show ((q.waiters ++ id :: q.jobs.map Prod.fst) ++ hand).Perm
      ((q.waiters ++ q.jobs.map Prod.fst) ++ id :: hand)
    exact (List.perm_middle.append_right hand).trans List.perm_middle.symm
  · show q.active + 1 = (((id, Stage.starting) :: q.jobs).countP fun job => job.2.running : Nat)
    rw [List.countP_cons_of_pos rfl, h.slots]
    rfl
  · show q.active + 1 ≤ maxConcurrent
    omega
  · intro id'
    by_cases he : id' = id
    · subst he
      rw [hself]
      have hold := (h.attempts id').1
      exact ⟨hold, Nat.succ_le_succ hidle⟩
    · rw [hother id' he]
      exact h.attempts id'
  · intro id' hmem
    rw [hother id' (hne id' (List.mem_append_left _ hmem))]
    exact h.idle id' hmem
  · intro job hjob hstage
    cases List.mem_cons.mp hjob with
    | inl hjob =>
      subst hjob
      cases hstage
    | inr hjob =>
      rw [hother job.1 (hne job.1 (List.mem_append_right _ (List.mem_map_of_mem hjob)))]
      exact h.asleep job hjob hstage

lemma Loose.pumpLoop (n : Nat) : ∀ {q : Queue}, Loose hand q → q.waiters.length ≤ n →
    Loose hand (pumpLoop n q) ∧ (pumpLoop n q).Busy := by
  induction n with
  | zero =>
    intro q h hlength
    exact ⟨h, fun _ _ => List.length_eq_zero_iff.mp (Nat.le_zero.mp hlength)⟩
  | succ n ih =>
    intro q h hlength
    unfold Queue.pumpLoop
    split
    · case h_1 hnil => exact ⟨h, fun _ _ => hnil⟩
    · case h_2 id waiters hcons =>
      have hshift := h.shift hcons
      have hshort : waiters.length ≤ n := by
        rw [hcons, List.length_cons] at hlength
        exact Nat.le_of_succ_le_succ hlength
      split
      · case isTrue hopen =>
        split
        · exact ih hshift.settle hshort
        · have hidle := h.idle id (by rw [hcons]; exact List.mem_cons_self)
          exact ih (hshift.runAttempt hidle hopen.2) hshort
      · case isFalse hclosed => exact ⟨h, fun hholds hactive => absurd ⟨hholds, hactive⟩ hclosed⟩

lemma Loose.pump (h : Loose hand q) : Loose hand q.pump ∧ q.pump.Busy :=
  Loose.pumpLoop q.waiters.length h (Nat.le_refl _)

lemma stage_abort_running (stage : Stage) : stage.abort.running = stage.running := by
  cases stage <;> rfl

lemma Loose.flag (h : Loose hand q) (id : Nat) :
    Loose hand (q.modify id fun e => { e with aborted := true }) := by
  have hattempt : ∀ id', ((q.modify id fun e => { e with aborted := true }).entry id').attempt =
      (q.entry id').attempt := modify_field Entry.attempt fun _ => rfl
  have htries : ∀ id', ((q.modify id fun e => { e with aborted := true }).entry id').tries =
      (q.entry id').tries := modify_field Entry.tries fun _ => rfl
  refine h.move (List.Perm.refl _) rfl (modify_field Entry.settles fun _ => rfl) h.slots h.bounded ?_ ?_ ?_
  · intro id'
    rw [hattempt, htries]
    exact h.attempts id'
  · intro id' hmem
    rw [hattempt, htries]
    exact h.idle id' hmem
  · intro job hjob hstage
    rw [hattempt, htries]
    exact h.asleep job hjob hstage

lemma Loose.drop (h : Loose hand q) (hmem : id ∈ q.waiters) :
    Loose hand ({ q with waiters := q.waiters.erase id }.settle id) := by
  refine Loose.settle (h.move ?_ rfl (fun _ => rfl) h.slots h.bounded h.attempts ?_ h.asleep)
  · show ((q.waiters.erase id ++ q.jobs.map Prod.fst) ++ id :: hand).Perm
      ((q.waiters ++ q.jobs.map Prod.fst) ++ hand)
    refine List.perm_middle.trans ?_
    exact (((List.perm_cons_erase hmem).append_right _).append_right hand).symm
  · exact fun id' hid' => h.idle id' (List.mem_of_mem_erase hid')

lemma Loose.abortJobs (h : Loose hand q) (id : Nat) : Loose hand
    { q with jobs := q.jobs.map fun job => if job.1 = id then (job.1, job.2.abort) else job } := by
  have hkey : (Prod.fst ∘ fun job : Nat × Stage => if job.1 = id then (job.1, job.2.abort) else job) =
      Prod.fst := by
    funext job
    show (if job.1 = id then (job.1, job.2.abort) else job).1 = job.1
    split <;> rfl
  have hstage : ((fun job : Nat × Stage => job.2.running) ∘ fun job : Nat × Stage =>
      if job.1 = id then (job.1, job.2.abort) else job) = fun job => job.2.running := by
    funext job
    show (if job.1 = id then (job.1, job.2.abort) else job).2.running = job.2.running
    split
    · exact stage_abort_running job.2
    · rfl
  refine h.move ?_ rfl (fun _ => rfl) ?_ h.bounded h.attempts h.idle ?_
  · rw [placed, placed, List.map_map, hkey]
  · rw [h.slots, running, running, List.countP_map, hstage]
  · intro job' hjob' hidle
    obtain ⟨job, hjob, rfl⟩ := List.mem_map.mp hjob'
    have hsame := congrFun hstage job
    have hkeys := congrFun hkey job
    simp only [Function.comp_apply] at hsame hkeys
    rw [hsame] at hidle
    rw [hkeys]
    exact h.asleep job hjob hidle

lemma Loose.abort (h : Loose hand q) (id : Nat) :
    Loose hand (q.abort id) ∧ (q.abort id).waiters ⊆ q.waiters ∧ (q.abort id).active = q.active ∧
      (q.abort id).pauseHolds = q.pauseHolds := by
  unfold Queue.abort
  dsimp only
  split
  · exact ⟨h, List.Subset.refl _, rfl, rfl⟩
  · have hflag := h.flag id
    split
    · case isTrue hmem =>
      exact ⟨(hflag.drop hmem).abortJobs id, List.erase_subset, rfl, rfl⟩
    · exact ⟨hflag.abortJobs id, List.Subset.refl _, rfl, rfl⟩

lemma Loose.abort_busy (h : Loose hand q) (hbusy : q.Busy) (id : Nat) : (q.abort id).Busy := by
  obtain ⟨-, hsub, hactive, hholds⟩ := h.abort id
  intro hzero hfree
  rw [hholds] at hzero
  rw [hactive] at hfree
  exact List.subset_nil.mp (hbusy hzero hfree ▸ hsub)

lemma Loose.clearWaiters (n : Nat) : ∀ {q : Queue}, Loose hand q → q.waiters.length ≤ n →
    Loose hand (clearWaiters n q) ∧ (clearWaiters n q).waiters = [] := by
  induction n with
  | zero => exact fun h hlength => ⟨h, List.length_eq_zero_iff.mp (Nat.le_zero.mp hlength)⟩
  | succ n ih =>
    intro q h hlength
    unfold Queue.clearWaiters
    split
    · case h_1 hnil => exact ⟨h, hnil⟩
    · case h_2 id waiters hcons =>
      obtain ⟨haborted, hsub, -, -⟩ := (h.shift hcons).abort id
      refine ih haborted.settle ?_
      have hnodup : ({ q with waiters := waiters }.abort id).waiters.Nodup :=
        (haborted.nodup.sublist (List.sublist_append_left _ _)).sublist (List.sublist_append_left _ _)
      rw [hcons, List.length_cons] at hlength
      exact (hnodup.length_le_of_subset hsub).trans (Nat.le_of_succ_le_succ hlength)

lemma Loose.clearThumbQueue (h : Loose hand q) :
    Loose hand q.clearThumbQueue ∧ q.clearThumbQueue.Busy := by
  obtain ⟨hclear, hnil⟩ := Loose.clearWaiters q.waiters.length h (Nat.le_refl _)
  have hbusy : (Queue.clearWaiters q.waiters.length q).Busy := fun _ _ => hnil
  unfold Queue.clearThumbQueue
  dsimp only
  generalize (Queue.clearWaiters q.waiters.length q).liveEntries = live
  generalize Queue.clearWaiters q.waiters.length q = q' at hclear hbusy
  induction live generalizing q' with
  | nil => exact ⟨hclear, hbusy⟩
  | cons id live ih => exact ih _ (hclear.abort id).1 (hclear.abort_busy hbusy id)

lemma Loose.onAttemptFailed (h : Loose (id :: hand) q) (answer : Answer) :
    Loose hand (q.onAttemptFailed id answer) := by
  unfold Queue.onAttemptFailed
  split
  · exact h.settle
  · split
    · exact h.settle
    · case isFalse hretry =>
      have hagain : (q.entry id).attempt < retryMaxAttempts - 1 := by
        rw [not_or, not_le] at hretry
        exact hretry.2
      have hself : ({ q with jobs := (id, .sleeping) :: q.jobs }.modify id fun e =>
          { e with attempt := e.attempt + 1 }).entry id =
            { q.entry id with attempt := (q.entry id).attempt + 1 } := modify_self
      have hother : ∀ id', id' ≠ id → ({ q with jobs := (id, .sleeping) :: q.jobs }.modify id fun e =>
          { e with attempt := e.attempt + 1 }).entry id' = q.entry id' := fun id' hne => modify_other hne
      have hne : ∀ id' ∈ q.placed, id' ≠ id := by
        intro id' hmem he
        subst he
        exact (List.nodup_middle.mp h.nodup).notMem (List.mem_append_left hand hmem)
      obtain ⟨hattempt, htries⟩ := h.attempts id
      refine h.move ?_ rfl (modify_field Entry.settles fun _ => rfl) ?_ h.bounded ?_ ?_ ?_
      · show ((q.waiters ++ id :: q.jobs.map Prod.fst) ++ hand).Perm
          ((q.waiters ++ q.jobs.map Prod.fst) ++ id :: hand)
        exact (List.perm_middle.append_right hand).trans List.perm_middle.symm
      · show q.active = (((id, Stage.sleeping) :: q.jobs).countP fun job => job.2.running : Nat)
        rw [List.countP_cons_of_neg (by simp [Stage.running])]
        exact h.slots
      · intro id'
        by_cases he : id' = id
        · subst he
          rw [hself]
          exact ⟨Nat.lt_of_lt_of_le (Nat.succ_lt_succ hagain) (by decide), by dsimp only; omega⟩
        · rw [hother id' he]
          exact h.attempts id'
      · intro id' hmem
        rw [hother id' (hne id' (List.mem_append_left _ hmem))]
        exact h.idle id' hmem
      · intro job hjob hstage
        cases List.mem_cons.mp hjob with
        | inl hjob =>
          subst hjob
          rw [hself]
          exact htries
        | inr hjob =>
          rw [hother job.1 (hne job.1 (List.mem_append_right _ (List.mem_map_of_mem hjob)))]
          exact h.asleep job hjob hstage

lemma jobs_perm {job : Nat × Stage} (hjob : job ∈ q.jobs) :
    (q.placed ++ hand).Perm ({ q with jobs := q.jobs.erase job }.placed ++ job.1 :: hand) := by
  have hkeys : (q.jobs.map Prod.fst).Perm (job.1 :: (q.jobs.erase job).map Prod.fst) :=
    (List.perm_cons_erase hjob).map Prod.fst
  have hplaced : q.placed.Perm (job.1 :: { q with jobs := q.jobs.erase job }.placed) :=
    (hkeys.append_left q.waiters).trans List.perm_middle
  exact (hplaced.append_right hand).trans List.perm_middle.symm

lemma running_erase {job : Nat × Stage} (hjob : job ∈ q.jobs) :
    q.running = (q.jobs.erase job).countP (fun job => job.2.running) +
      if job.2.running = true then 1 else 0 := by
  rw [running, (List.perm_cons_erase hjob).countP_eq, List.countP_cons]

lemma Loose.next (h : Loose hand q) {stage stage' : Stage} (hjob : (id, stage) ∈ q.jobs)
    (hsame : stage'.running = stage.running) :
    Loose hand { q with jobs := (id, stage') :: q.jobs.erase (id, stage) } := by
  refine h.move ?_ rfl (fun _ => rfl) ?_ h.bounded h.attempts h.idle ?_
  · refine List.Perm.trans ?_ (jobs_perm hjob).symm
    show ((q.waiters ++ id :: (q.jobs.erase (id, stage)).map Prod.fst) ++ hand).Perm _
    exact (List.perm_middle.append_right hand).trans List.perm_middle.symm
  · rw [h.slots, running_erase hjob, running, List.countP_cons, hsame]
  · intro job hmem hstage
    cases List.mem_cons.mp hmem with
    | inl heq =>
      subst heq
      exact h.asleep (id, stage) hjob (hsame.symm.trans hstage)
    | inr hmem => exact h.asleep job (List.mem_of_mem_erase hmem) hstage

lemma Loose.take (h : Loose hand q) {stage : Stage} (hjob : (id, stage) ∈ q.jobs)
    (hasleep : stage.running = false) : Loose (id :: hand) { q with jobs := q.jobs.erase (id, stage) } := by
  refine h.move (jobs_perm hjob).symm rfl (fun _ => rfl) ?_ h.bounded h.attempts h.idle ?_
  · rw [h.slots, running_erase hjob, hasleep]
    rfl
  · exact fun job hmem => h.asleep job (List.mem_of_mem_erase hmem)

lemma Loose.release (h : Loose hand q) {stage : Stage} (hjob : (id, stage) ∈ q.jobs)
    (hrunning : stage.running = true) :
    Loose (id :: hand) { q with jobs := q.jobs.erase (id, stage), active := q.active - 1 } := by
  have hactive : q.active - 1 = ((q.jobs.erase (id, stage)).countP fun job => job.2.running : Nat) := by
    rw [h.slots, running_erase hjob, hrunning]
    simp
  refine h.move (jobs_perm hjob).symm rfl (fun _ => rfl) hactive ?_ h.attempts h.idle ?_
  · have hbounded := h.bounded
    show q.active - 1 ≤ maxConcurrent
    omega
  · exact fun job hmem => h.asleep job (List.mem_of_mem_erase hmem)

lemma Loose.push (h : Loose (id :: hand) q) (hidle : (q.entry id).tries ≤ (q.entry id).attempt) :
    Loose hand { q with waiters := q.waiters ++ [id] } := by
  refine h.move ?_ rfl (fun _ => rfl) h.slots h.bounded h.attempts ?_ h.asleep
  · show ((q.waiters ++ [id] ++ q.jobs.map Prod.fst) ++ hand).Perm
      ((q.waiters ++ q.jobs.map Prod.fst) ++ id :: hand)
    rw [List.append_assoc q.waiters]
    exact (List.perm_middle.append_right hand).trans List.perm_middle.symm
  · intro id' hmem
    cases List.mem_append.mp hmem with
    | inl hmem => exact h.idle id' hmem
    | inr hmem =>
      rw [List.mem_singleton.mp hmem]
      exact hidle

lemma settle_busy (h : q.Busy) : (q.settle id).Busy := h

lemma onAttemptFailed_busy (h : q.Busy) (answer : Answer) : (q.onAttemptFailed id answer).Busy := by
  unfold Queue.onAttemptFailed
  split
  · exact h
  · split
    · exact h
    · exact h

lemma Loose.callback (h : Loose [] q) (hbusy : q.Busy) {stage : Stage} (hjob : (id, stage) ∈ q.jobs) :
    Loose [] ({ q with jobs := q.jobs.erase (id, stage) }.callback id stage) ∧
      ({ q with jobs := q.jobs.erase (id, stage) }.callback id stage).Busy := by
  cases stage with
  | starting =>
    refine ⟨h.next hjob ?_, hbusy⟩
    dsimp only
    split <;> rfl
  | fetching => exact ⟨h.next hjob rfl, hbusy⟩
  | ended answer =>
    obtain ⟨hpump, hfull⟩ := (h.release hjob rfl).pump
    unfold Queue.callback
    dsimp only
    split
    · exact ⟨hpump.settle, settle_busy hfull⟩
    · exact ⟨hpump.onAttemptFailed answer, onAttemptFailed_busy hfull answer⟩
  | sleeping => exact ⟨h.next hjob rfl, hbusy⟩
  | waking =>
    have hidle := h.asleep _ hjob rfl
    exact ((h.take hjob rfl).push hidle).pump
  | roused => exact ⟨(h.take hjob rfl).settle, hbusy⟩

lemma Loose.make (h : Loose hand q) {new : Entry} {hand' : List Nat}
    (hnew : new.attempt < retryMaxAttempts ∧ new.tries ≤ new.attempt + 1)
    (hhand : new.settles = 1 ∧ hand' = hand ∨ new.settles = 0 ∧ hand' = q.count :: hand) :
    Loose hand' ({ q with count := q.count + 1 }.modify q.count fun _ => new) := by
  have hne : ∀ id ∈ q.placed ++ hand, id ≠ q.count := fun id hmem => ((h.mem id).mp hmem).1.ne
  have hself : ({ q with count := q.count + 1 }.modify q.count fun _ => new).entry q.count = new :=
    modify_self
  have hother : ∀ id, id ≠ q.count →
      ({ q with count := q.count + 1 }.modify q.count fun _ => new).entry id = q.entry id :=
    fun id hne => modify_other hne
  refine {
    nodup := ?_
    mem := ?_
    once := ?_
    slots := h.slots
    bounded := h.bounded
    attempts := ?_
    idle := ?_
    asleep := ?_ }
  · rcases hhand with ⟨-, rfl⟩ | ⟨-, rfl⟩
    · exact h.nodup
    · exact List.nodup_middle.mpr (List.nodup_cons.mpr ⟨fun hmem => hne _ hmem rfl, h.nodup⟩)
  · intro id
    show id ∈ q.placed ++ hand' ↔ id < q.count + 1 ∧ _
    have hold := h.mem id
    by_cases he : id = q.count
    · subst he
      rw [hself]
      have hnone : ¬ q.count ∈ q.placed ++ hand := fun hmem => hne _ hmem rfl
      rcases hhand with ⟨hone, rfl⟩ | ⟨hzero, rfl⟩
      · rw [hone]
        exact ⟨fun hmem => absurd hmem hnone, fun hopen => absurd hopen.2 Nat.one_ne_zero⟩
      · refine ⟨fun _ => ⟨Nat.lt_succ_self _, hzero⟩, fun _ => ?_⟩
        exact List.mem_append_right _ List.mem_cons_self
    · rw [hother id he]
      have hcount : id < q.count + 1 ↔ id < q.count := by
        omega
      rw [hcount, ← hold]
      rcases hhand with ⟨-, rfl⟩ | ⟨-, rfl⟩
      · rfl
      · rw [List.mem_append, List.mem_append, List.mem_cons]
        simp [he]
  · intro id
    by_cases he : id = q.count
    · subst he
      rw [hself]
      rcases hhand with ⟨hone, -⟩ | ⟨hzero, -⟩
      · omega
      · omega
    · rw [hother id he]
      exact h.once id
  · intro id
    by_cases he : id = q.count
    · subst he
      rw [hself]
      exact hnew
    · rw [hother id he]
      exact h.attempts id
  · intro id hmem
    rw [hother id (hne id (List.mem_append_left _ (List.mem_append_left _ hmem)))]
    exact h.idle id hmem
  · intro job hjob hstage
    have hplaced : job.1 ∈ q.placed ++ hand :=
      List.mem_append_left _ (List.mem_append_right _ (List.mem_map_of_mem hjob))
    rw [hother job.1 (hne job.1 hplaced)]
    exact h.asleep job hjob hstage

lemma Loose.enqueueThumbFetch (h : Loose [] q) (hbusy : q.Busy) (parentAborted : Bool) :
    Loose [] (q.enqueueThumbFetch parentAborted) ∧ (q.enqueueThumbFetch parentAborted).Busy := by
  unfold Queue.enqueueThumbFetch
  split
  · exact ⟨h.make ⟨by decide, by decide⟩ (Or.inl ⟨rfl, rfl⟩), hbusy⟩
  · have hmade : Loose [q.count] ({ q with count := q.count + 1 }.modify q.count fun _ => .new) :=
      h.make ⟨by decide, by decide⟩ (Or.inr ⟨rfl, rfl⟩)
    have hidle : (({ q with count := q.count + 1 }.modify q.count fun _ => Entry.new).entry q.count).tries ≤
        (({ q with count := q.count + 1 }.modify q.count fun _ => Entry.new).entry q.count).attempt := by
      rw [modify_self]
      exact Nat.le_refl _
    have hpushed := hmade.push hidle
    refine Loose.pump (hpushed.move (List.Perm.refl _) rfl (fun _ => rfl) hpushed.slots hpushed.bounded
      hpushed.attempts hpushed.idle hpushed.asleep)

lemma Loose.step (h : Loose [] q) (hbusy : q.Busy) (event : Event) :
    Loose [] (q.step event) ∧ (q.step event).Busy := by
  cases event with
  | enqueue parentAborted => exact h.enqueueThumbFetch hbusy parentAborted
  | abort id => exact ⟨(h.abort id).1, h.abort_busy hbusy id⟩
  | clear => exact h.clearThumbQueue
  | pause =>
    have hpaused : Loose [] q.pauseThumbQueue := h.move (List.Perm.refl _) rfl (fun _ => rfl) h.slots
      h.bounded h.attempts h.idle h.asleep
    exact ⟨hpaused, fun hzero => absurd hzero (Nat.succ_ne_zero _)⟩
  | resume =>
    show Loose [] q.resumeThumbQueue ∧ q.resumeThumbQueue.Busy
    have hresumed : Loose [] { q with pauseHolds := q.pauseHolds - 1 } := h.move (List.Perm.refl _) rfl
      (fun _ => rfl) h.slots h.bounded h.attempts h.idle h.asleep
    unfold Queue.resumeThumbQueue
    dsimp only
    split
    · exact ⟨h, hbusy⟩
    · split
      · exact hresumed.pump
      · case isFalse hheld => exact ⟨hresumed, fun hzero => absurd hzero hheld⟩
  | answer id answer =>
    show Loose [] (if _ then _ else _) ∧ (if _ then _ else _ : Queue).Busy
    split
    · case isTrue hjob => exact ⟨h.next hjob rfl, hbusy⟩
    · exact ⟨h, hbusy⟩
  | callback id stage =>
    show Loose [] (if _ then _ else _) ∧ (if _ then _ else _ : Queue).Busy
    split
    · case isTrue hjob => exact h.callback hbusy hjob
    · exact ⟨h, hbusy⟩

lemma loose_empty : Loose [] empty where
  nodup := List.nodup_nil
  mem := fun id => ⟨fun hmem => absurd hmem List.not_mem_nil, fun hlt => absurd hlt.1 (Nat.not_lt_zero id)⟩
  once := fun _ => Nat.zero_le 1
  slots := rfl
  bounded := by decide
  attempts := fun _ => ⟨Nat.zero_lt_succ 7, Nat.zero_le 1⟩
  idle := fun id hmem => absurd hmem List.not_mem_nil
  asleep := fun job hmem => absurd hmem List.not_mem_nil

/-! ### What is due runs out -/

lemma settle_attempt (id' : Nat) : ((q.settle id).entry id').attempt = (q.entry id').attempt :=
  modify_field (q := { q with liveEntries := q.liveEntries.filter (· ≠ id) })
    (f := fun e => { e with settles := e.settles + 1 }) Entry.attempt (fun _ => rfl) id'

lemma runAttempt_attempt (id' : Nat) : ((q.runAttempt id).entry id').attempt = (q.entry id').attempt :=
  modify_field (q := { q with jobs := (id, .starting) :: q.jobs })
    (f := fun e => { e with tries := e.tries + 1 }) Entry.attempt (fun _ => rfl) id'

lemma pumpLoop_attempt (n : Nat) (id' : Nat) : ∀ q : Queue,
    ((pumpLoop n q).entry id').attempt = (q.entry id').attempt := by
  induction n with
  | zero => exact fun q => rfl
  | succ n ih =>
    intro q
    unfold Queue.pumpLoop
    split
    · rfl
    · split
      · split
        · rw [ih, settle_attempt]
        · rw [ih, runAttempt_attempt]
      · rfl

lemma work_congr {q' : Queue} (hwaiters : q'.waiters = q.waiters) (hjobs : q'.jobs = q.jobs)
    (hattempt : ∀ id ∈ q.placed, (q'.entry id).attempt = (q.entry id).attempt) : q'.work = q.work := by
  have hsteps : ∀ id ∈ q.placed, stepsOf (q'.entry id) = stepsOf (q.entry id) := by
    intro id hmem
    rw [stepsOf, stepsOf, hattempt id hmem]
  have hstage : ∀ job ∈ q.jobs, job.2.steps (q'.entry job.1) = job.2.steps (q.entry job.1) := by
    intro job hjob
    have hsame := hsteps job.1 (List.mem_append_right _ (List.mem_map_of_mem hjob))
    cases job.2 <;> simp only [Stage.steps, hsame]
  rw [work, work, hwaiters, hjobs]
  congr 2
  · exact List.map_congr_left fun id hmem => hsteps id (List.mem_append_left _ hmem)
  · exact List.map_congr_left hstage

lemma settle_work : (q.settle id).work = q.work :=
  work_congr rfl rfl fun id' _ => settle_attempt id'

lemma pumpLoop_work (n : Nat) : ∀ q : Queue, (pumpLoop n q).work ≤ q.work := by
  induction n with
  | zero => exact fun q => Nat.le_refl _
  | succ n ih =>
    intro q
    unfold Queue.pumpLoop
    split
    · exact Nat.le_refl _
    · case h_2 id waiters hcons =>
      have hwork : q.work = stepsOf (q.entry id) + { q with waiters := waiters }.work := by
        rw [work, work, hcons, List.map_cons, List.sum_cons, Nat.add_assoc]
      split
      · split
        · refine (ih _).trans ?_
          rw [settle_work, hwork]
          exact Nat.le_add_left _ _
        · refine (ih _).trans (Nat.le_of_eq ?_)
          have hattempt : ({ q with waiters := waiters, active := q.active + 1 }.runAttempt id).work =
              { q with waiters := waiters, jobs := (id, .starting) :: q.jobs }.work :=
            work_congr rfl rfl fun id' _ => runAttempt_attempt id'
          rw [hattempt, hwork, work, work, List.map_cons, List.sum_cons]
          exact Nat.add_left_comm _ _ _
      · exact Nat.le_refl _

lemma pump_work : q.pump.work ≤ q.work :=
  pumpLoop_work _ q

lemma work_erase {job : Nat × Stage} (hjob : job ∈ q.jobs) :
    q.work = { q with jobs := q.jobs.erase job }.work + job.2.steps (q.entry job.1) := by
  have hsum := ((List.perm_cons_erase hjob).map fun job => job.2.steps (q.entry job.1)).sum_eq
  rw [List.map_cons, List.sum_cons] at hsum
  rw [work, work, hsum, Nat.add_assoc, Nat.add_comm (job.2.steps _)]

lemma work_cons {job : Nat × Stage} (jobs : List (Nat × Stage)) :
    { q with jobs := job :: jobs }.work = { q with jobs := jobs }.work + job.2.steps (q.entry job.1) := by
  rw [work, work, List.map_cons, List.sum_cons, Nat.add_assoc, Nat.add_comm (job.2.steps _)]

lemma onAttemptFailed_work (h : Loose (id :: hand) q) (answer : Answer) :
    (q.onAttemptFailed id answer).work + 4 ≤ q.work + stepsOf (q.entry id) := by
  have hround : 6 ≤ stepsOf (q.entry id) := by
    have hattempt := (h.attempts id).1
    unfold stepsOf
    omega
  unfold Queue.onAttemptFailed
  split
  · rw [settle_work]
    omega
  · split
    · rw [settle_work]
      omega
    · case isFalse hretry =>
      have hagain : (q.entry id).attempt < retryMaxAttempts - 1 := by
        rw [not_or, not_le] at hretry
        exact hretry.2
      have hne : ∀ id' ∈ q.placed, id' ≠ id := by
        intro id' hmem he
        subst he
        exact (List.nodup_middle.mp h.nodup).notMem (List.mem_append_left hand hmem)
      have hrest : (q.modify id fun e => { e with attempt := e.attempt + 1 }).work = q.work :=
        work_congr rfl rfl fun id' hmem => by rw [modify_other (hne id' hmem)]
      have hsteps : Stage.steps ((q.modify id fun e =>
          { e with attempt := e.attempt + 1 }).entry id) .sleeping + 4 = stepsOf (q.entry id) := by
        rw [modify_self, Stage.steps, stepsOf, stepsOf]
        dsimp only
        omega
      have hcons : ({ q with jobs := (id, .sleeping) :: q.jobs }.modify id fun e =>
          { e with attempt := e.attempt + 1 }).work = (q.modify id fun e =>
            { e with attempt := e.attempt + 1 }).work + Stage.steps ((q.modify id fun e =>
              { e with attempt := e.attempt + 1 }).entry id) .sleeping :=
        work_cons (q := q.modify id fun e => { e with attempt := e.attempt + 1 }) q.jobs
      rw [hcons, hrest]
      omega

/-- What is due costs a step. -/
lemma Loose.step_work (h : Loose [] q) {event : Event} (hdue : Due q event) :
    (q.step event).work < q.work := by
  have hround : ∀ id, 6 ≤ stepsOf (q.entry id) := by
    intro id
    have hattempt := (h.attempts id).1
    unfold stepsOf
    omega
  cases event with
  | enqueue | abort | clear | pause | resume => exact hdue.elim
  | answer id answer =>
    have hjob : (id, Stage.fetching) ∈ q.jobs := hdue
    have hround := hround id
    have hstep : q.step (.answer id answer) =
        { q with jobs := (id, .ended answer) :: q.jobs.erase (id, .fetching) } := if_pos hjob
    rw [hstep, work_cons, work_erase hjob]
    simp only [Stage.steps]
    omega
  | callback id stage =>
    obtain ⟨hjob, hstage⟩ := hdue
    have hround := hround id
    have hwork := work_erase hjob
    have hstep : q.step (.callback id stage) =
        ({ q with jobs := q.jobs.erase (id, stage) } : Queue).callback id stage := if_pos hjob
    rw [hstep]
    cases stage with
    | starting =>
      show { q with jobs := _ :: q.jobs.erase (id, .starting) }.work < _
      rw [work_cons, hwork]
      split
      · simp only [Stage.steps]
        omega
      · simp only [Stage.steps]
        omega
    | fetching => exact absurd rfl hstage
    | ended answer =>
      have hrelease := h.release hjob rfl
      have hpump := (hrelease.pump).1
      have hle : { q with jobs := q.jobs.erase (id, .ended answer), active := q.active - 1 }.pump.work ≤
          { q with jobs := q.jobs.erase (id, .ended answer) }.work := pump_work
      have hsteps : stepsOf ({ q with
          jobs := q.jobs.erase (id, .ended answer)
          active := q.active - 1 }.pump.entry id) = stepsOf (q.entry id) := by
        rw [stepsOf, stepsOf, Queue.pump, pumpLoop_attempt]
      unfold Queue.callback
      dsimp only
      simp only [Stage.steps] at hwork
      split
      · rw [settle_work]
        omega
      · have hfailed := onAttemptFailed_work hpump answer
        rw [hsteps] at hfailed
        omega
    | sleeping =>
      show { q with jobs := _ :: q.jobs.erase (id, .sleeping) }.work < _
      rw [work_cons, hwork]
      simp only [Stage.steps]
      omega
    | waking =>
      refine Nat.lt_of_le_of_lt pump_work ?_
      have hpushed : { q with
          jobs := q.jobs.erase (id, .waking)
          waiters := q.waiters ++ [id] }.work =
            { q with jobs := q.jobs.erase (id, .waking) }.work + stepsOf (q.entry id) := by
        rw [work, work, List.map_append, List.sum_append, List.map_singleton, List.sum_singleton]
        exact Nat.add_right_comm _ _ _
      rw [hpushed, hwork]
      exact Nat.add_lt_add_left (Nat.lt_add_one _) _
    | roused =>
      show ({ q with jobs := q.jobs.erase (id, .roused) }.settle id).work < _
      rw [settle_work, hwork]
      exact Nat.lt_add_one _

lemma Loose.drains (h : Loose [] q) (hbusy : q.Busy) : q.Drains := by
  intro events hdue
  induction events generalizing q with
  | nil =>
    refine ⟨Nat.zero_le _, fun hnone hzero id hid => ?_⟩
    have hjobs : q.jobs = [] := by
      refine List.eq_nil_iff_forall_not_mem.mpr fun job hjob => ?_
      by_cases hfetching : job.2 = .fetching
      · have hdue : (job.1, Stage.fetching) ∈ q.jobs := hfetching ▸ hjob
        exact hnone (.answer job.1 .ok) hdue
      · exact hnone (.callback job.1 job.2) ⟨hjob, hfetching⟩
    have hactive : q.active = 0 := by
      rw [h.slots, running, hjobs]
      rfl
    have hwaiters := hbusy hzero (by rw [hactive]; decide)
    have hid' : id < q.count := hid
    have honce := h.once id
    show (q.entry id).settles = 1
    by_contra hopen
    have hmem := (h.mem id).mpr ⟨hid', by omega⟩
    rw [placed, hwaiters, hjobs] at hmem
    exact absurd hmem List.not_mem_nil
  | cons event events ih =>
    obtain ⟨hone, hrest⟩ := hdue
    obtain ⟨hstep, hfull⟩ := h.step hbusy event
    obtain ⟨hlength, hend⟩ := ih hstep hfull hrest
    have hless := h.step_work hone
    refine ⟨?_, hend⟩
    rw [List.length_cons]
    omega

end Queue

end Sarca.Ui.ThumbQueue
