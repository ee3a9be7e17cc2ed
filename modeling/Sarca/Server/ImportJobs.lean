import Sarca.Lib.Run
import Sarca.Server.ImportScan
import Sarca.Server.Spool

/-!
# The jobs of the importer

`ImportRunner` of `services/import/mod.rs` works one job at a time: it lists the source into `import_items`,
claims the items one by one, downloads each into the spool and leaves it to a relay, which reports when Telegram
has the file. `ImportService` is what the API does with the jobs meanwhile. `Importer` is the two tables with
the statements of `ImportsRepository`, the runner between any two of them, the relays and the calls under way.

The folders that a scan makes are in `Import`, its order and its end in `ImportScan`.
-/

namespace Sarca.Server
open Sarca.Lib

namespace ImportJobs
open ImportScan

/-- Rust `MAX_ATTEMPTS`. -/
def maxAttempts : Nat := 3

/-- Rust `NO_SECRET`. -/
def noSecret : String :=
  "the password is not stored on this server (it was restored from a backup) — enter it again to continue"

/-- Rust `AUTH_REJECTED`. -/
def authRejected : String :=
  "the server rejected the username or password (for Nextcloud with two-factor sign-in, use an app password)"

def invalidFileName : String := "invalid file name"

def notEnoughSpace : String := "not enough free space under WORK_DIR for this file"

inductive JobStatus where
  | scanning
  | running
  | paused
  | done
  | failed
  | cancelled
deriving DecidableEq, Repr

inductive ItemStatus where
  | pending
  | inProgress
  | done
  | skipped
  | failed
deriving DecidableEq, Repr

/-- A row of `import_jobs`. -/
structure ImportJob where
  id : Uuid
  targetPath : Path
  secret : Option String
  scanned : Bool
  status : JobStatus
  lastError : Option String
  createdAt : Instant
deriving DecidableEq, Repr

/-- A row of `import_items`. -/
structure ImportItem where
  id : Nat
  jobId : Uuid
  relPath : Path
  size : Int
  sourceMtime : Option Instant
  status : ItemStatus
  attempts : Nat
  lastError : Option String
deriving DecidableEq, Repr

def ImportJob.Active (j : ImportJob) : Prop :=
  j.status = .scanning ∨ j.status = .running

instance ImportJob.Active.decidable (j : ImportJob) : Decidable j.Active :=
  inferInstanceAs (Decidable (_ ∨ _))

def ImportItem.Settled (it : ImportItem) : Prop :=
  it.status ≠ .pending ∧ it.status ≠ .inProgress

instance ImportItem.Settled.decidable (it : ImportItem) : Decidable it.Settled :=
  inferInstanceAs (Decidable (_ ∧ _))

/-! ## Tables -/

/-- The import tables, with the ids that are next; those of the items are `AUTOINCREMENT`. -/
structure Tables where
  jobs : List ImportJob
  items : List ImportItem
  nextJob : Uuid
  nextItem : Nat
deriving DecidableEq

namespace Tables

variable (t : Tables)

/-- Rust `get_job`. -/
def getJob (id : Uuid) : Option ImportJob :=
  t.jobs.find? fun j => j.id = id

/-- Rust `create_job`. -/
def createJob (targetPath : Path) (secret : String) (now : Instant) : Tables :=
  { t with
    jobs := t.jobs ++ [⟨t.nextJob, targetPath, some secret, false, .scanning, none, now⟩]
    nextJob := t.nextJob + 1 }

/-- The oldest job that is active (Rust `next_active_job`). -/
def nextActiveJob : Option ImportJob :=
  ((t.jobs.filter fun j => j.Active).insertionSort fun j j' =>
    j.createdAt < j'.createdAt ∨ j.createdAt = j'.createdAt ∧ j.id ≤ j'.id).head?

def updateJob (id : Uuid) (f : ImportJob → ImportJob) : Tables :=
  { t with jobs := t.jobs.map fun j => if j.id = id then f j else j }

def updateItem (id : Nat) (f : ImportItem → ImportItem) : Tables :=
  { t with items := t.items.map fun it => if it.id = id then f it else it }

/-- Rust `transition`. -/
def transition (id : Uuid) (from_ : List JobStatus) (to_ : JobStatus) (lastError : Option String) : Tables :=
  t.updateJob id fun j => if j.status ∈ from_ then { j with status := to_, lastError := lastError } else j

/-- Rust `set_secret`. -/
def setSecret (id : Uuid) (secret : String) : Tables :=
  t.updateJob id fun j => { j with secret := some secret }

/-- Rust `finish_scan`. -/
def finishScan (id : Uuid) : Tables :=
  t.updateJob id fun j => if j.status = .scanning then { j with scanned := true, status := .running } else j

/-- The first statement of `delete_job`. -/
def deleteItems (id : Uuid) : Tables :=
  { t with items := t.items.filter fun it => it.jobId ≠ id }

/-- The second statement of `delete_job`; the items of the job go with it. -/
def deleteJob (id : Uuid) : Tables :=
  { t.deleteItems id with jobs := t.jobs.filter fun j => j.id ≠ id }

/-- One row of `INSERT OR IGNORE`: a path that the job has is left as it is. -/
def insertItem (jobId : Uuid) (t : Tables) (item : NewImportItem) : Tables :=
  if t.items.any fun it => it.jobId = jobId ∧ it.relPath = item.relPath then t
  else
    { t with
      items := t.items ++ [⟨t.nextItem, jobId, item.relPath, item.size, item.sourceMtime, .pending, 0, none⟩]
      nextItem := t.nextItem + 1 }

/-- One statement of `insert_items`. -/
def insertItems (jobId : Uuid) (batch : List NewImportItem) : Tables :=
  batch.foldl (insertItem jobId) t

/-- The item of a job that is next: pending, with the fewest attempts. -/
def nextItemOf (jobId : Uuid) : Option ImportItem :=
  ((t.items.filter fun it => it.jobId = jobId ∧ it.status = .pending).insertionSort fun it it' =>
    it.attempts < it'.attempts ∨ it.attempts = it'.attempts ∧ it.id ≤ it'.id).head?

def claimed (it : ImportItem) : ImportItem :=
  { it with status := .inProgress, attempts := it.attempts + 1 }

/-- Rust `claim_next_item`. -/
def claimNextItem (jobId : Uuid) : Option (Tables × ImportItem) :=
  (t.nextItemOf jobId).map fun it => (t.updateItem it.id claimed, claimed it)

/-- Rust `finish_item`. -/
def finishItem (id : Nat) (status : ItemStatus) (lastError : Option String) : Tables :=
  t.updateItem id fun it => { it with status := status, lastError := lastError }

/-- Rust `release_item`. -/
def releaseItem (id : Nat) : Tables :=
  t.updateItem id fun it => { it with status := .pending, attempts := it.attempts - 1 }

/-- An item as `retry_failed` leaves it. -/
def retried (jobId : Uuid) (it : ImportItem) : ImportItem :=
  if it.jobId = jobId ∧ it.status = .failed then
    { it with status := .pending, attempts := 0, lastError := none }
  else it

/-- Rust `retry_failed`. -/
def retryFailed (jobId : Uuid) : Tables :=
  { t with items := t.items.map (retried jobId) }

/-- An item as `requeue_in_progress` leaves it. -/
def requeued (it : ImportItem) : ImportItem :=
  if it.status = .inProgress then { it with status := .pending } else it

/-- Rust `requeue_in_progress`. -/
def requeueInProgress : Tables :=
  { t with items := t.items.map requeued }

/-- Nothing of the job is left to be done (Rust `is_drained`). -/
def IsDrained (jobId : Uuid) : Prop :=
  ∀ it ∈ t.items, it.jobId = jobId → it.Settled

instance IsDrained.decidable (jobId : Uuid) : Decidable (t.IsDrained jobId) :=
  inferInstanceAs (Decidable (∀ it ∈ t.items, _))

/-- Rust `count_failed`. -/
def countFailed (jobId : Uuid) : Nat :=
  t.items.countP fun it => it.jobId = jobId ∧ it.status = .failed

def Recorded (jobId : Uuid) (relPath : Path) : Prop :=
  ∃ it ∈ t.items, it.jobId = jobId ∧ it.relPath = relPath

end Tables

/-- What a job that is done says of the files that failed. -/
def failedNote (failed : Nat) : Option String :=
  if 0 < failed then some (toString failed ++ " file(s) could not be copied") else none

/-- The status of an item whose copy failed (Rust `settle_failure`). -/
def settleFailure (item : ImportItem) : ItemStatus :=
  if maxAttempts ≤ item.attempts then .failed else .pending

/-! ## The runner -/

/-- Where the runner stands, with the job as it read it. `stack` are the folders to be listed, `found` the files
    listed so far, and `files` those still to be recorded. -/
inductive RunnerPhase where
  /-- the task is not running -/
  | down
  | idle
  | preparing (job : ImportJob)
  | failing (job : ImportJob) (from_ : List JobStatus) (message : String)
  | checking (job : ImportJob) (dir : Path) (stack found : List Path)
  | listing (job : ImportJob) (dir : Path) (stack found : List Path)
  | recording (job : ImportJob) (stack found : List Path) (files : List NewImportItem)
  | endingScan (job : ImportJob) (found : List Path)
  | claiming (job : ImportJob)
  | draining (job : ImportJob)
  | counting (job : ImportJob)
  | finishing (job : ImportJob) (note : Option String)
  | placing (job : ImportJob) (item : ImportItem)
  | admitting (job : ImportJob) (item : ImportItem)
  | waiting (job : ImportJob) (item : ImportItem)
  | downloading (job : ImportJob) (item : ImportItem)
  | settling (job : ImportJob) (item : ImportItem) (status : ItemStatus) (lastError : Option String)
  | releasing (job : ImportJob) (item : ImportItem) (stop : Option String)
  /-- the relay has not said `spooled` yet -/
  | handing (job : ImportJob)
deriving DecidableEq

/-- The loop of `scan` goes on with the next folder. -/
def RunnerPhase.nextDir (job : ImportJob) (found : List Path) : List Path → RunnerPhase
  | [] => .endingScan job found
  | dir :: stack => .checking job dir stack found

/-- `insert_items` goes on with its next batch. -/
def RunnerPhase.nextBatch (job : ImportJob) (stack found : List Path) : List NewImportItem → RunnerPhase
  | [] => .nextDir job found stack
  | file :: files => .recording job stack found (file :: files)

/-- An item is handed back, and a password that was refused stops the job. -/
def RunnerPhase.released (job : ImportJob) : Option String → RunnerPhase
  | some message => .failing job [.running] message
  | none => .idle

/-- What the runner is told by its next statement or its next request. A statement can fail. -/
inductive RunnerAct where
  | nextActiveJob (ok : Bool)
  /-- the account, the address and the client are in order, or the message why not -/
  | prepare (refused : Option String)
  /-- the job is read again -/
  | getJob (ok : Bool)
  | list (answer : Except String (List DavEntry))
  | insertItems (ok : Bool)
  | finishScan (ok : Bool)
  | claimNextItem (ok : Bool)
  | isDrained (ok : Bool)
  | countFailed (ok : Bool)
  | transition (ok : Bool)
  /-- the file that is at the item's path -/
  | place (existing : Option FileRow)
  | spoolAdmits (answer : SpoolAdmission)
  /-- the download is in the spool, or it failed -/
  | download (failure : Option String)
  | finishItem (ok : Bool)
  | releaseItem (ok : Bool)
  | spooled

/-- A call of the API between its statements; the status is what the job is to become. -/
inductive ApiCall where
  | move (id : Uuid) (from_ : List JobStatus) (to_ : JobStatus)
  | setSecret (id : Uuid) (secret : String) (to_ : JobStatus)
  | retryFailed (id : Uuid) (to_ : Option JobStatus)
  | deleteItems (id : Uuid)
  | deleteJob (id : Uuid)
deriving DecidableEq

/-- What the API is asked for; a password may be empty. -/
inductive ApiRequest where
  | pause
  | resume (password : Option String)
  | retry
  | cancel
  | delete
deriving DecidableEq

/-- The server as far as imports go. `copied` and `skipped` are the items that were marked so, `listed` the
    files that a scan came to which was finished, and `claims` the jobs of which an item was claimed. -/
structure Importer where
  tables : Tables
  phase : RunnerPhase
  relays : List ImportItem
  calls : List ApiCall
  copied : List Nat
  skipped : List Nat
  listed : List (Uuid × Path)
  claims : List Uuid
deriving DecidableEq

inductive ImportAct where
  | create (targetPath : Path) (secret : String) (now : Instant)
  /-- the supervisor starts the runner, whose first statement may fail -/
  | start (ok : Bool)
  /-- the runner ends in a panic, and the relays go on -/
  | panic
  /-- the process ends -/
  | crash
  | runner (a : RunnerAct)
  /-- a relay ends, and says so with a statement that may fail -/
  | relay (item : ImportItem) (failure : Option String) (ok : Bool)
  | request (id : Uuid) (r : ApiRequest)
  /-- the next statement of a call, which ends the call if it fails -/
  | serve (c : ApiCall) (ok : Bool)

namespace Importer

variable (σ : Importer)

def fresh : Importer :=
  ⟨⟨[], [], 0, 0⟩, .down, [], [], [], [], [], []⟩

/-- The job is still what the loop needs it to be. -/
def JobIs (id : Uuid) (status : JobStatus) : Prop :=
  ∃ j ∈ σ.tables.getJob id, j.status = status

instance JobIs.decidable (id : Uuid) (status : JobStatus) : Decidable (σ.JobIs id status) :=
  match h : σ.tables.getJob id with
  | none => isFalse fun ⟨j, hj, _⟩ => by rw [h] at hj; cases hj
  | some j =>
    if hs : j.status = status then isTrue ⟨j, h, hs⟩
    else isFalse fun ⟨j', hj', hs'⟩ => hs (by rw [h] at hj'; cases hj'; exact hs')

def nextActiveJob (ok : Bool) : Importer :=
  match σ.phase with
  | .idle =>
    match (if ok then σ.tables.nextActiveJob else none) with
    | some job => { σ with phase := .preparing job }
    | none => σ
  | _ => σ

/-- Rust `prepare`. -/
def prepare (refused : Option String) : Importer :=
  match σ.phase with
  | .preparing job =>
    match job.secret, refused with
    | none, _ => { σ with phase := .failing job [.scanning, .running] noSecret }
    | some _, some message => { σ with phase := .failing job [.scanning, .running] message }
    | some _, none =>
      { σ with phase := if job.status = .scanning then .nextDir job [] [[]] else .claiming job }
  | _ => σ

/-- The job is read again, before a folder is listed or after a wait for the spool. -/
def getJob (ok : Bool) : Importer :=
  match σ.phase with
  | .checking job dir stack found =>
    { σ with phase := if ok ∧ σ.JobIs job.id .scanning then .listing job dir stack found else .idle }
  | .waiting job item =>
    { σ with phase := if ok ∧ σ.JobIs job.id .running then .admitting job item else .releasing job item none }
  | _ => σ

def list (answer : Except String (List DavEntry)) : Importer :=
  match σ.phase with
  | .listing job _ stack found =>
    match answer with
    | .error message => { σ with phase := .failing job [.scanning] message }
    | .ok entries =>
      let dirs := (entries.filter (·.isDir)).map (·.relPath)
      let files := (entries.filter fun e => !e.isDir).map DavEntry.item
      { σ with phase := .nextBatch job (dirs.reverse ++ stack) (found ++ files.map (·.relPath)) files }
  | _ => σ

/-- A batch of a listing is recorded; the job must still be there. -/
def insertItems (ok : Bool) : Importer :=
  match σ.phase with
  | .recording job stack found files =>
    if ok ∧ (σ.tables.getJob job.id).isSome then
      { σ with
        tables := σ.tables.insertItems job.id (files.take 200)
        phase := .nextBatch job stack found (files.drop 200) }
    else { σ with phase := .failing job [.scanning] "could not record the listing: unknown error" }
  | _ => σ

def finishScan (ok : Bool) : Importer :=
  match σ.phase with
  | .endingScan job found =>
    if ok then
      { σ with
        tables := σ.tables.finishScan job.id
        listed := if σ.JobIs job.id .scanning then σ.listed ++ found.map fun p => (job.id, p) else σ.listed
        phase := .idle }
    else { σ with phase := .idle }
  | _ => σ

/-- An item is claimed; the status of the job is not looked at. -/
def claimNextItem (ok : Bool) : Importer :=
  match σ.phase with
  | .claiming job =>
    if ok then
      match σ.tables.claimNextItem job.id with
      | some (tables, item) =>
        { σ with tables := tables, phase := .placing job item, claims := σ.claims ++ [job.id] }
      | none => { σ with phase := .draining job }
    else { σ with phase := .idle }
  | _ => σ

def isDrained (ok : Bool) : Importer :=
  match σ.phase with
  | .draining job => { σ with phase := if ok ∧ σ.tables.IsDrained job.id then .counting job else .idle }
  | _ => σ

/-- The failed files are counted; a count that fails is none. -/
def countFailed (ok : Bool) : Importer :=
  match σ.phase with
  | .counting job =>
    { σ with phase := .finishing job (failedNote (if ok then σ.tables.countFailed job.id else 0)) }
  | _ => σ

def transition (ok : Bool) : Importer :=
  match σ.phase with
  | .failing job from_ message =>
    { σ with
      tables := if ok then σ.tables.transition job.id from_ .failed (some message) else σ.tables
      phase := .idle }
  | .finishing job note =>
    { σ with
      tables := if ok then σ.tables.transition job.id [.running] .done note else σ.tables
      phase := .idle }
  | _ => σ

/-- The item has a path, and no file of its size is there. -/
def place (existing : Option FileRow) : Importer :=
  match σ.phase with
  | .placing job item =>
    match joinTarget job.targetPath item.relPath with
    | none => { σ with phase := .settling job item .failed (some invalidFileName) }
    | some _ =>
      if existing.any fun file => file.isUploaded ∧ file.size = item.size then
        { σ with phase := .settling job item .skipped none }
      else { σ with phase := .admitting job item }
  | _ => σ

def spoolAdmits (answer : SpoolAdmission) : Importer :=
  match σ.phase with
  | .admitting job item =>
    match answer with
    | .admitted => { σ with phase := .downloading job item }
    | .busy => { σ with phase := .waiting job item }
    | .noRoom => { σ with phase := .settling job item .failed (some notEnoughSpace) }
  | _ => σ

/-- The file is downloaded, and left to a relay. A password that is refused stops the job. -/
def download (failure : Option String) : Importer :=
  match σ.phase with
  | .downloading job item =>
    match failure with
    | none => { σ with phase := .handing job, relays := σ.relays ++ [item] }
    | some message =>
      { σ with
        phase :=
          if message = authRejected then .releasing job item (some message)
          else .settling job item (settleFailure item) (some message) }
  | _ => σ

/-- The item is what the runner or a relay says it is. -/
def settle (item : ImportItem) (status : ItemStatus) (lastError : Option String) : Importer :=
  { σ with tables := σ.tables.finishItem item.id status lastError }

def finishItem (ok : Bool) : Importer :=
  match σ.phase with
  | .settling _ item status lastError =>
    if ok then
      { σ.settle item status lastError with
        phase := .idle
        skipped := if status = .skipped then σ.skipped ++ [item.id] else σ.skipped }
    else { σ with phase := .idle }
  | _ => σ

def releaseItem (ok : Bool) : Importer :=
  match σ.phase with
  | .releasing job item stop =>
    { σ with
      tables := if ok then σ.tables.releaseItem item.id else σ.tables
      phase := .released job stop }
  | _ => σ

def spooled : Importer :=
  match σ.phase with
  | .handing _ => { σ with phase := .idle }
  | _ => σ

/-- The next statement or request of the runner (Rust `run_once`, `scan` and `copy_item`). -/
def runner : RunnerAct → Importer
  | .nextActiveJob ok => σ.nextActiveJob ok
  | .prepare refused => σ.prepare refused
  | .getJob ok => σ.getJob ok
  | .list answer => σ.list answer
  | .insertItems ok => σ.insertItems ok
  | .finishScan ok => σ.finishScan ok
  | .claimNextItem ok => σ.claimNextItem ok
  | .isDrained ok => σ.isDrained ok
  | .countFailed ok => σ.countFailed ok
  | .transition ok => σ.transition ok
  | .place existing => σ.place existing
  | .spoolAdmits answer => σ.spoolAdmits answer
  | .download failure => σ.download failure
  | .finishItem ok => σ.finishItem ok
  | .releaseItem ok => σ.releaseItem ok
  | .spooled => σ.spooled

def relay (item : ImportItem) (failure : Option String) (ok : Bool) : Importer :=
  if item ∈ σ.relays then
    let σ' := { σ with relays := σ.relays.erase item }
    if ok then
      match failure with
      | none => { σ'.settle item .done none with copied := σ.copied ++ [item.id] }
      | some message => σ'.settle item (settleFailure item) (some message)
    else σ'
  else σ

def goesOn (job : ImportJob) : JobStatus :=
  if job.scanned then .running else .scanning

/-- The call that a request makes once it has read the job (Rust `pause`, `resume`, `retry_failed`, `cancel` and
    `delete` of `ImportService`). -/
def call (job : ImportJob) : ApiRequest → Option ApiCall
  | .pause => some (.move job.id [.scanning, .running] .paused)
  | .resume password =>
    match password.filter (· ≠ "") with
    | some password => some (.setSecret job.id password (goesOn job))
    | none => if job.secret = none then none else some (.move job.id [.paused, .failed] (goesOn job))
  | .retry =>
    some (.retryFailed job.id (if job.status = .done ∨ job.status = .failed then some (goesOn job) else none))
  | .cancel => some (.move job.id [.scanning, .running, .paused] .cancelled)
  | .delete => if job.Active then none else some (.deleteItems job.id)

def request (id : Uuid) (r : ApiRequest) : Importer :=
  match σ.tables.getJob id with
  | some job => { σ with calls := σ.calls ++ (call job r).toList }
  | none => σ

def serve (c : ApiCall) (ok : Bool) : Importer :=
  if c ∈ σ.calls then
    let σ' := { σ with calls := σ.calls.erase c }
    if ok then
      match c with
      | .move id from_ to_ => { σ' with tables := σ.tables.transition id from_ to_ none }
      | .setSecret id secret to_ =>
        { σ' with
          tables := σ.tables.setSecret id secret
          calls := σ'.calls ++ [.move id [.paused, .failed] to_] }
      | .retryFailed id to_ =>
        { σ' with
          tables := σ.tables.retryFailed id
          calls := σ'.calls ++ (to_.map fun to_ => .move id [.done, .failed] to_).toList }
      | .deleteItems id =>
        { σ' with tables := σ.tables.deleteItems id, calls := σ'.calls ++ [.deleteJob id] }
      | .deleteJob id => { σ' with tables := σ.tables.deleteJob id }
    else σ'
  else σ

def step : ImportAct → Importer
  | .create targetPath secret now => { σ with tables := σ.tables.createJob targetPath secret now }
  | .start ok =>
    if σ.phase = .down then
      { σ with tables := if ok then σ.tables.requeueInProgress else σ.tables, phase := .idle }
    else σ
  | .panic => { σ with phase := .down }
  | .crash => { σ with phase := .down, relays := [], calls := [] }
  | .runner a => σ.runner a
  | .relay item failure ok => σ.relay item failure ok
  | .request id r => σ.request id r
  | .serve c ok => σ.serve c ok

/-! ## What the statements find -/

variable {t : Tables} {id : Uuid}

lemma mem_of_getJob {j : ImportJob} (h : t.getJob id = some j) : j ∈ t.jobs ∧ j.id = id :=
  ⟨List.mem_of_find?_eq_some h, of_decide_eq_true
    (List.find?_some (p := fun j : ImportJob => decide (j.id = id)) h)⟩

lemma nextActiveJob_spec {job : ImportJob} (h : t.nextActiveJob = some job) : job ∈ t.jobs ∧ job.Active := by
  have hmem := List.mem_of_mem_head? h
  rw [List.mem_insertionSort, List.mem_filter] at hmem
  exact ⟨hmem.1, of_decide_eq_true hmem.2⟩

lemma nextItemOf_spec {it : ImportItem} (h : t.nextItemOf id = some it) :
    it ∈ t.items ∧ it.jobId = id ∧ it.status = .pending := by
  have hmem := List.mem_of_mem_head? h
  rw [List.mem_insertionSort, List.mem_filter] at hmem
  obtain ⟨hit, hcond⟩ := hmem
  exact ⟨hit, of_decide_eq_true hcond⟩

end Importer

end ImportJobs
end Sarca.Server
