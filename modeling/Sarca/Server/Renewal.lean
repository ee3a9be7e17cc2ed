import Mathlib.Algebra.Order.Ring.Int
import Sarca.Lib.Run

/-!
# Certificate renewal

The renewal task looks at the stored certificate, and either asks the CA for a new one or sleeps until a day
before it expires, a day at most. After a failure it sleeps for a back-off that doubles. Both sleeps end early
when a renewal is requested: by the watch of the public address, or after failures of HTTP/3.

`Orderly` says when the CA is to be asked; `Manageable` is what a step has to be for it.
-/

namespace Sarca.Server.Renewal
open Sarca.Lib

def second : Int := 1000000000

/-- Rust `RENEW_BEFORE_EXPIRY`. -/
def renewBeforeExpiry : Int := 86400 * second

/-- Rust `MIN_RETRY_BACKOFF`. -/
def minRetryBackoff : Int := 300 * second

/-- Rust `MAX_RETRY_BACKOFF`. -/
def maxRetryBackoff : Int := 21600 * second

/-- The longest sleep of `sleep_until_utc`. -/
def recheckAfter : Int := 86400 * second

/-- Rust `H3_FAILURE_THRESHOLD`. -/
def h3FailureThreshold : Nat := 3

/-- Rust `IpAddr`. -/
inductive IpAddr where
  | v4 (bits : BitVec 32)
  | v6 (bits : BitVec 128)
deriving DecidableEq

/-- Rust `TlsIdentity`. -/
inductive TlsIdentity where
  | dns (name : String)
  | ip (addr : IpAddr)
deriving DecidableEq

/-- What `parse_x509_pem` finds in a certificate. -/
structure X509 where
  /-- the issuer is the subject -/
  selfSigned : Bool
  notAfter : Int
  identities : List TlsIdentity
deriving DecidableEq

/-- The file `cert.pem`. -/
inductive CertFile where
  | missing
  /-- no PEM block, or no certificate in it -/
  | unparsable
  | cert (c : X509)
deriving DecidableEq

/-- What came of `issue_and_save`. -/
inductive IssueOutcome where
  /-- the CA issues a certificate; `installed` when the listeners take it -/
  | issued (notAfter : Int) (installed : Bool)
  | refused
  /-- `save_cert` fails, and leaves something in the file -/
  | certUnsaved (left : CertFile)
  /-- `save_key` fails, behind `save_cert` -/
  | keyUnsaved (notAfter : Int)

inductive Phase where
  /-- at the head of the loop -/
  | checking
  /-- in `issue_and_save`, for this identity -/
  | issuing (asked : TlsIdentity)
  /-- after a failure, until this time -/
  | backingOff (wake : Int)
  /-- in `sleep_until_utc`, until this time -/
  | sleeping (wake : Int)
deriving DecidableEq

/-- What the watch has done about a new address, and the task has not. -/
inductive Move where
  | settled
  /-- the identity is another one -/
  | changed
  /-- a renewal was requested since -/
  | requested
deriving DecidableEq

structure Attempt where
  started : Int
  /-- the file, and the identity, as they are then -/
  stored : CertFile
  identity : TlsIdentity
  asked : TlsIdentity
  /-- when the attempt was over, and whether it succeeded -/
  ended : Option (Int × Bool)
deriving DecidableEq

/-- The task, what it shares with the rest of the server, and the attempts so far, the last one first. -/
structure RenewalTask where
  now : Int
  stored : CertFile
  identity : TlsIdentity
  /-- the permit of the `Notify` -/
  permit : Bool
  h3Failures : Nat
  failureBackoff : Int
  phase : Phase
  /-- the watch has written the identity, and its request is still to come -/
  announcing : Bool
  move : Move
  log : List Attempt

inductive Act where
  | tick (nanos : Nat)
  /-- the head of the loop, where the file may be unreadable -/
  | check (readable : Bool)
  | answer (o : IssueOutcome)
  /-- the sleep is over -/
  | wakeUp
  /-- `notified` wins the `select!` -/
  | notified
  /-- a call of `request_renewal` -/
  | request
  | h3Failure
  | h3Success
  /-- the watch has looked the address up -/
  | watch (found : Option IpAddr)
  | announce

/-! ## The task -/

/-- Rust `renew_at`. -/
def renewAt (notAfter now : Int) : Int :=
  let target := notAfter - renewBeforeExpiry
  if target ≤ now then now else target

/-- Rust `due_for_renewal`. -/
def dueForRenewal (notAfter now : Int) : Bool :=
  notAfter - now ≤ renewBeforeExpiry

/-- Rust `stored_not_after`. -/
def storedNotAfter (stored : CertFile) (readable : Bool) : Option Int :=
  if readable then
    match stored with
    | .cert c => if c.selfSigned then none else some c.notAfter
    | .missing | .unparsable => none
  else none

/-- `should_issue_now`. -/
def shouldIssueNow (existingNotAfter : Option Int) (now : Int) : Bool :=
  existingNotAfter.all fun notAfter => dueForRenewal notAfter now

/-- When the sleep of `sleep_until_utc` is over. -/
def sleepUntilUtc (target now : Int) : Int :=
  now + min (max (target - now) 0) recheckAfter

/-- Rust `failure_backoff.saturating_mul(2).min(MAX_RETRY_BACKOFF)`. -/
def doubled (failureBackoff : Int) : Int :=
  min (failureBackoff * 2) maxRetryBackoff

def endLast (now : Int) (success : Bool) : List Attempt → List Attempt
  | [] => []
  | a :: older => { a with ended := some (now, success) } :: older

namespace RenewalTask

/-- The server starts, with whatever is in the file. -/
def start (stored : CertFile) (identity : TlsIdentity) (now : Int) : RenewalTask :=
  ⟨now, stored, identity, false, 0, minRetryBackoff, .checking, false, .settled, []⟩

variable (σ : RenewalTask)

/-- Rust `request_renewal`. -/
def requestRenewal : RenewalTask :=
  { σ with permit := true, move := if σ.move = .settled then .settled else .requested }

/-- Rust `note_h3_failure`. -/
def noteH3Failure : RenewalTask :=
  if σ.h3Failures + 1 < h3FailureThreshold then { σ with h3Failures := σ.h3Failures + 1 }
  else { σ with h3Failures := 0 }.requestRenewal

/-- Rust `spawn_public_ip_watch`, up to the request. -/
def watchIp (ip : IpAddr) : RenewalTask :=
  if σ.identity = .ip ip then σ
  else { σ with identity := .ip ip, announcing := true, move := .changed }

def round (readable : Bool) : RenewalTask :=
  let existing := storedNotAfter σ.stored readable
  if shouldIssueNow existing σ.now then
    { σ with
      phase := .issuing σ.identity
      move := .settled
      log := ⟨σ.now, σ.stored, σ.identity, σ.identity, none⟩ :: σ.log }
  else
    { σ with phase := .sleeping (sleepUntilUtc (renewAt (existing.getD σ.now) σ.now) σ.now) }

/-- `issue_and_save` fails, and leaves this in the file. -/
def failed (left : CertFile) : RenewalTask :=
  { σ with
    stored := left
    phase := .backingOff (σ.now + σ.failureBackoff)
    log := endLast σ.now false σ.log }

/-- `issue_and_save` is over. -/
def answered (asked : TlsIdentity) : IssueOutcome → RenewalTask
  | .issued notAfter installed =>
    { σ with
      stored := .cert ⟨false, notAfter, [asked]⟩
      h3Failures := if installed then 0 else σ.h3Failures
      failureBackoff := minRetryBackoff
      phase := .sleeping (sleepUntilUtc (renewAt notAfter σ.now) σ.now)
      log := endLast σ.now true σ.log }
  | .refused => σ.failed σ.stored
  | .certUnsaved left => σ.failed left
  | .keyUnsaved notAfter => σ.failed (.cert ⟨false, notAfter, [asked]⟩)

def awake : RenewalTask :=
  match σ.phase with
  | .backingOff _ => { σ with phase := .checking, failureBackoff := doubled σ.failureBackoff }
  | .sleeping _ => { σ with phase := .checking }
  | _ => σ

def wake? : Option Int :=
  match σ.phase with
  | .backingOff wake | .sleeping wake => some wake
  | _ => none

/-- Rust `spawn_renewal_task`, and what goes on around it. -/
def step : Act → RenewalTask
  | .tick nanos => { σ with now := σ.now + nanos }
  | .check readable => if σ.phase = .checking then σ.round readable else σ
  | .answer o =>
    match σ.phase with
    | .issuing asked => σ.answered asked o
    | _ => σ
  | .wakeUp => if σ.wake?.any (· ≤ σ.now) then σ.awake else σ
  | .notified => if σ.permit ∧ σ.wake?.isSome then { σ with permit := false }.awake else σ
  | .request => σ.requestRenewal
  | .h3Failure => σ.noteH3Failure
  | .h3Success => { σ with h3Failures := 0 }
  | .watch found =>
    match found with
    | some ip => if σ.announcing then σ else σ.watchIp ip
    | none => σ
  | .announce => if σ.announcing then { σ with announcing := false }.requestRenewal else σ

end RenewalTask

/-! ## When the CA is asked -/

/-- The identities that the certificate in the file is for. -/
def CertFile.identities : CertFile → List TlsIdentity
  | .cert c => c.identities
  | _ => []

/-- The certificate in the file is missing, self-signed, within a day of expiry, or for other identities. -/
def CertFile.Due (stored : CertFile) (identity : TlsIdentity) (now : Int) : Prop :=
  stored = .missing ∨
    (∃ c, stored = .cert c ∧ (c.selfSigned = true ∨ c.notAfter ≤ now + renewBeforeExpiry)) ∨
    identity ∉ stored.identities

def failures (log : List Attempt) : Nat :=
  (log.takeWhile fun a => a.ended.any fun e => !e.2).length

/-- The back-off behind a failure, after some others: five minutes, doubled for each, and six hours at most. -/
def backoff (others : Nat) : Int :=
  min (minRetryBackoff * 2 ^ others) maxRetryBackoff

/-- An attempt keeps its distance from the one before it: the back-off from a failure, and some time from a
    success. -/
def Apart (started : Int) : List Attempt → Prop
  | [] => True
  | last :: older =>
    ∃ e ∈ last.ended, if e.2 then e.1 < started else e.1 + backoff (failures older) ≤ started

def Spaced : List Attempt → Prop
  | [] => True
  | a :: older => Apart a.started older ∧ Spaced older

/-- The CA is asked when the stored certificate calls for it, for the identity there is, and not too often; and
    the task does not go on sleeping on a certificate for another identity, when a renewal was requested. -/
structure Orderly (σ : RenewalTask) : Prop where
  due : ∀ a ∈ σ.log, a.stored.Due a.identity a.started
  named : ∀ a ∈ σ.log, a.asked = a.identity
  spaced : Spaced σ.log
  heeded : σ.move = .requested → σ.identity ∉ σ.stored.identities → ∀ wake, σ.phase = .sleeping wake →
    σ.permit = true

/-- Requests leave a back-off alone; a certificate that is issued lasts more than a day; a file that calls for
    nothing can be read; and when the identity has changed, the certificate for the old one is within a day of
    its expiry. -/
def Manageable (σ : RenewalTask) : Act → Prop
  | .notified => ∀ wake, σ.phase = .backingOff wake → wake ≤ σ.now
  | .answer (.issued notAfter _) => ¬ dueForRenewal notAfter σ.now
  | .check readable =>
    shouldIssueNow (storedNotAfter σ.stored true) σ.now = true ∨
      readable = true ∧ (σ.move = .requested → σ.identity ∈ σ.stored.identities)
  | _ => True

/-! ## The back-off -/

lemma backoff_zero : backoff 0 = minRetryBackoff := by decide

lemma doubled_backoff (n : Nat) : doubled (backoff n) = backoff (n + 1) := by
  have hpos : 0 ≤ maxRetryBackoff := by decide
  rw [doubled, backoff, backoff, pow_succ, ← mul_assoc]
  omega

variable {a : Attempt} {older log : List Attempt} {stored : CertFile} {now now' : Int}

lemma failures_of_failed {at_ : Int} (h : a.ended = some (at_, false)) :
    failures (a :: older) = failures older + 1 := by
  rw [failures, List.takeWhile_cons_of_pos (by simp [h]), List.length_cons, failures]

lemma failures_of_succeeded {at_ : Int} (h : a.ended = some (at_, true)) : failures (a :: older) = 0 := by
  rw [failures, List.takeWhile_cons_of_neg (by simp [h]), List.length_nil]

/-! ## What holds between two steps -/

/-- The certificate in the file is from the CA, and not due at a time. -/
def CertFile.Lasts (stored : CertFile) (at_ : Int) : Prop :=
  ∃ c, stored = .cert c ∧ c.selfSigned = false ∧ ¬ dueForRenewal c.notAfter at_

/-- The last attempt is far enough away: it failed, and its back-off is over, or it succeeded, and its
    certificate was not due then. -/
def Rested (stored : CertFile) (now : Int) : List Attempt → Prop
  | [] => True
  | last :: older =>
    ∃ e ∈ last.ended, if e.2 then stored.Lasts e.1 ∧ e.1 ≤ now else e.1 + backoff (failures older) ≤ now

/-- What the log says, at each place of the loop. -/
def Fits (σ : RenewalTask) : Prop :=
  match σ.phase with
  | .checking | .sleeping _ => Rested σ.stored σ.now σ.log ∧ σ.failureBackoff = backoff (failures σ.log)
  | .issuing _ =>
    ∃ a older, σ.log = a :: older ∧ a.ended = none ∧ σ.failureBackoff = backoff (failures older)
  | .backingOff wake =>
    ∃ a older at_, σ.log = a :: older ∧ a.ended = some (at_, false) ∧ at_ ≤ σ.now ∧
      wake = at_ + backoff (failures older) ∧ σ.failureBackoff = backoff (failures older)

/-- The task is in order, the log is what the phase says, and a request during an attempt is kept. -/
structure Sound (σ : RenewalTask) : Prop extends Orderly σ where
  fits : Fits σ
  kept : ∀ asked, σ.phase = .issuing asked → σ.move = .requested → σ.permit = true

lemma Rested.mono (h : Rested stored now log) (hle : now ≤ now') : Rested stored now' log := by
  cases log with
  | nil => trivial
  | cons last older =>
    obtain ⟨e, he, hrest⟩ := h
    refine ⟨e, he, ?_⟩
    split at hrest
    · case isTrue hsuccess =>
      rw [if_pos hsuccess]
      exact ⟨hrest.1, hrest.2.trans hle⟩
    · case isFalse hfailure =>
      rw [if_neg hfailure]
      exact hrest.trans hle

lemma CertFile.Lasts.lt {at_ : Int} (h : stored.Lasts at_)
    (hissue : shouldIssueNow (storedNotAfter stored true) now = true) : at_ < now := by
  obtain ⟨c, rfl, hca, hlasts⟩ := h
  simp only [storedNotAfter, if_true, hca, Bool.false_eq_true, if_false, shouldIssueNow, Option.all_some,
    dueForRenewal, decide_eq_true_eq] at hissue hlasts
  omega

lemma Rested.apart (h : Rested stored now log)
    (hissue : shouldIssueNow (storedNotAfter stored true) now = true) : Apart now log := by
  cases log with
  | nil => trivial
  | cons last older =>
    obtain ⟨e, he, hrest⟩ := h
    refine ⟨e, he, ?_⟩
    split at hrest
    · case isTrue hsuccess =>
      rw [if_pos hsuccess]
      exact hrest.1.lt hissue
    · case isFalse hfailure =>
      rw [if_neg hfailure]
      exact hrest

lemma due_of_shouldIssueNow (identity : TlsIdentity)
    (hissue : shouldIssueNow (storedNotAfter stored true) now = true) : stored.Due identity now := by
  cases stored with
  | missing => exact .inl rfl
  | unparsable => exact .inr (.inr List.not_mem_nil)
  | cert c =>
    refine .inr (.inl ⟨c, rfl, ?_⟩)
    cases hself : c.selfSigned with
    | true => exact .inl rfl
    | false =>
      simp only [storedNotAfter, if_true, hself, Bool.false_eq_true, if_false, shouldIssueNow, Option.all_some,
        dueForRenewal, decide_eq_true_eq] at hissue
      exact .inr (by omega)

lemma forall_endLast {P : Attempt → Prop} {success : Bool} (hP : ∀ a e, P a → P { a with ended := e })
    (h : ∀ a ∈ log, P a) : ∀ a ∈ endLast now success log, P a := by
  cases log with
  | nil => exact h
  | cons last older =>
    intro a ha
    cases List.mem_cons.mp ha with
    | inl heq => exact heq ▸ hP last _ (h last List.mem_cons_self)
    | inr hmem => exact h a (List.mem_cons_of_mem _ hmem)

lemma spaced_endLast {success : Bool} (h : Spaced log) : Spaced (endLast now success log) := by
  cases log with
  | nil => trivial
  | cons last older => exact h

variable {σ σ' : RenewalTask}

lemma Sound.of_same (h : Sound σ) (hphase : σ'.phase = σ.phase) (hlog : σ'.log = σ.log)
    (hstored : σ'.stored = σ.stored) (hbackoff : σ'.failureBackoff = σ.failureBackoff) (hnow : σ.now ≤ σ'.now)
    (hkept : σ'.move = .requested → σ'.permit = true ∨
      σ.move = .requested ∧ σ'.permit = σ.permit ∧ σ'.identity = σ.identity) : Sound σ' where
  due := hlog ▸ h.due
  named := hlog ▸ h.named
  spaced := hlog ▸ h.spaced
  heeded := by
    intro hmove hother wake hsleeps
    cases hkept hmove with
    | inl hpermit => exact hpermit
    | inr hsame =>
      obtain ⟨hmove, hpermit, hidentity⟩ := hsame
      rw [hidentity, hstored] at hother
      rw [hpermit]
      exact h.heeded hmove hother wake (hphase ▸ hsleeps)
  fits := by
    have hfits := h.fits
    rw [Fits] at hfits ⊢
    rw [hphase, hlog, hstored, hbackoff]
    cases hp : σ.phase with
    | checking =>
      rw [hp] at hfits
      exact ⟨hfits.1.mono hnow, hfits.2⟩
    | sleeping wake =>
      rw [hp] at hfits
      exact ⟨hfits.1.mono hnow, hfits.2⟩
    | issuing asked =>
      rw [hp] at hfits
      exact hfits
    | backingOff wake =>
      rw [hp] at hfits
      obtain ⟨a, older, at_, hlog, hended, hle, hwake⟩ := hfits
      exact ⟨a, older, at_, hlog, hended, Int.le_trans hle hnow, hwake⟩
  kept := by
    intro asked hissuing hmove
    cases hkept hmove with
    | inl hpermit => exact hpermit
    | inr hsame => exact hsame.2.1 ▸ h.kept asked (hphase ▸ hissuing) hsame.1

lemma Sound.requestRenewal (h : Sound σ) : Sound σ.requestRenewal :=
  h.of_same rfl rfl rfl rfl (Int.le_refl _) fun _ => .inl rfl

lemma Sound.noteH3Failure (h : Sound σ) : Sound σ.noteH3Failure := by
  rw [RenewalTask.noteH3Failure]
  split
  · exact h.of_same rfl rfl rfl rfl (Int.le_refl _) fun hmove => .inr ⟨hmove, rfl, rfl⟩
  · exact h.of_same rfl rfl rfl rfl (Int.le_refl _) fun _ => .inl rfl

lemma Sound.watchIp (h : Sound σ) (ip : IpAddr) : Sound (σ.watchIp ip) := by
  rw [RenewalTask.watchIp]
  split
  · exact h
  · exact h.of_same rfl rfl rfl rfl (Int.le_refl _) fun hmove => nomatch hmove

lemma Sound.round (h : Sound σ) (hphase : σ.phase = .checking) {readable : Bool}
    (hok : Manageable σ (.check readable)) : Sound (σ.round readable) := by
  have hfits := h.fits
  rw [Fits, hphase] at hfits
  obtain ⟨hrested, hbackoff⟩ := hfits
  rw [RenewalTask.round]
  split
  · case isTrue hissue =>
    have hissue : shouldIssueNow (storedNotAfter σ.stored true) σ.now = true := by
      cases hok with
      | inl hissue => exact hissue
      | inr hread => exact hread.1 ▸ hissue
    exact {
      due := List.forall_mem_cons.mpr ⟨due_of_shouldIssueNow σ.identity hissue, h.due⟩
      named := List.forall_mem_cons.mpr ⟨rfl, h.named⟩
      spaced := ⟨hrested.apart hissue, h.spaced⟩
      heeded := fun hmove => nomatch hmove
      fits := ⟨_, _, rfl, rfl, hbackoff⟩
      kept := fun _ _ hmove => nomatch hmove }
  · case isFalse hrest =>
    have hread : readable = true ∧ (σ.move = .requested → σ.identity ∈ σ.stored.identities) := by
      cases hok with
      | inr hread => exact hread
      | inl hissue =>
        cases readable with
        | true => exact absurd hissue hrest
        | false => exact absurd rfl hrest
    exact {
      due := h.due
      named := h.named
      spaced := h.spaced
      heeded := fun hmove hother => absurd (hread.2 hmove) hother
      fits := ⟨hrested, hbackoff⟩
      kept := fun _ hissuing => nomatch hissuing }

lemma Sound.failed (h : Sound σ) {asked : TlsIdentity} (hphase : σ.phase = .issuing asked) (left : CertFile) :
    Sound (σ.failed left) := by
  have hfits := h.fits
  rw [Fits, hphase] at hfits
  obtain ⟨a, older, hlog, -, hbackoff⟩ := hfits
  exact {
    due := forall_endLast (fun _ _ hdue => hdue) h.due
    named := forall_endLast (fun _ _ hnamed => hnamed) h.named
    spaced := spaced_endLast h.spaced
    heeded := fun _ _ _ hsleeps => nomatch hsleeps
    fits :=
      ⟨{ a with ended := some (σ.now, false) }, older, σ.now, by rw [RenewalTask.failed, hlog]; rfl, rfl,
        Int.le_refl _, by rw [← hbackoff], hbackoff⟩
    kept := fun _ hissuing => nomatch hissuing }

lemma Sound.answered (h : Sound σ) {asked : TlsIdentity} (hphase : σ.phase = .issuing asked)
    {o : IssueOutcome} (hok : Manageable σ (.answer o)) : Sound (σ.answered asked o) := by
  cases o with
  | refused => exact h.failed hphase _
  | certUnsaved left => exact h.failed hphase _
  | keyUnsaved notAfter => exact h.failed hphase _
  | issued notAfter installed =>
    have hfits := h.fits
    rw [Fits, hphase] at hfits
    obtain ⟨a, older, hlog, -, -⟩ := hfits
    have hended : endLast σ.now true σ.log = { a with ended := some (σ.now, true) } :: older := by
      rw [hlog]
      rfl
    exact {
      due := forall_endLast (fun _ _ hdue => hdue) h.due
      named := forall_endLast (fun _ _ hnamed => hnamed) h.named
      spaced := spaced_endLast h.spaced
      heeded := fun hmove _ _ _ => h.kept asked hphase hmove
      fits := by
        refine ⟨?_, ?_⟩
        · show Rested _ _ (endLast σ.now true σ.log)
          rw [hended]
          exact ⟨(σ.now, true), rfl, ⟨_, rfl, rfl, hok⟩, Int.le_refl _⟩
        · show minRetryBackoff = backoff (failures (endLast σ.now true σ.log))
          rw [hended, failures_of_succeeded rfl, backoff_zero]
      kept := fun _ hissuing => nomatch hissuing }

lemma Sound.awake (h : Sound σ) (hslept : σ.wake?.isSome = true)
    (hover : ∀ wake, σ.phase = .backingOff wake → wake ≤ σ.now) (permit : Bool) :
    Sound ({ σ with permit := permit } : RenewalTask).awake := by
  have hfits := h.fits
  rw [Fits] at hfits
  rw [RenewalTask.wake?] at hslept
  rw [RenewalTask.awake]
  dsimp only
  cases hphase : σ.phase with
  | checking =>
    rw [hphase] at hslept
    cases hslept
  | issuing asked =>
    rw [hphase] at hslept
    cases hslept
  | sleeping wake =>
    rw [hphase] at hfits
    exact ⟨⟨h.due, h.named, h.spaced, fun _ _ _ hsleeps => nomatch hsleeps⟩, hfits, fun _ hp => nomatch hp⟩
  | backingOff wake =>
    rw [hphase] at hfits
    obtain ⟨a, older, at_, hlog, hended, -, hwake, hbackoff⟩ := hfits
    have hfits' : Rested σ.stored σ.now σ.log ∧ doubled σ.failureBackoff = backoff (failures σ.log) := by
      rw [hlog, failures_of_failed hended, hbackoff, doubled_backoff]
      refine ⟨⟨(at_, false), hended, ?_⟩, rfl⟩
      exact hwake ▸ hover wake hphase
    exact ⟨⟨h.due, h.named, h.spaced, fun _ _ _ hsleeps => nomatch hsleeps⟩, hfits', fun _ hp => nomatch hp⟩

lemma Sound.step (h : Sound σ) {act : Act} (hok : Manageable σ act) : Sound (σ.step act) := by
  cases act with
  | tick nanos =>
    refine h.of_same rfl rfl rfl rfl ?_ fun hmove => .inr ⟨hmove, rfl, rfl⟩
    exact Int.le_add_of_nonneg_right (Int.natCast_nonneg nanos)
  | check readable =>
    rw [RenewalTask.step]
    split
    · case isTrue hphase => exact h.round hphase hok
    · exact h
  | answer o =>
    rw [RenewalTask.step]
    split
    · case h_1 asked hphase => exact h.answered hphase hok
    · exact h
  | wakeUp =>
    rw [RenewalTask.step]
    split
    · case isTrue hover =>
      obtain ⟨wake, hwake, hle⟩ := (Option.any_eq_true _ _).mp hover
      refine h.awake (Option.isSome_of_mem hwake) (fun wake' hphase => ?_) σ.permit
      rw [RenewalTask.wake?, hphase] at hwake
      cases hwake
      exact of_decide_eq_true hle
    · exact h
  | notified =>
    rw [RenewalTask.step]
    split
    · case isTrue hsleeps => exact h.awake hsleeps.2 hok false
    · exact h
  | request => exact h.requestRenewal
  | h3Failure => exact h.noteH3Failure
  | h3Success => exact h.of_same rfl rfl rfl rfl (Int.le_refl _) fun hmove => .inr ⟨hmove, rfl, rfl⟩
  | watch found =>
    cases found with
    | none => exact h
    | some ip =>
      rw [RenewalTask.step]
      split
      · exact h
      · exact h.watchIp ip
  | announce =>
    rw [RenewalTask.step]
    split
    · exact h.of_same rfl rfl rfl rfl (Int.le_refl _) fun _ => .inl rfl
    · exact h

lemma sound_start (stored : CertFile) (identity : TlsIdentity) (now : Int) :
    Sound (.start stored identity now) where
  due _ ha := absurd ha List.not_mem_nil
  named _ ha := absurd ha List.not_mem_nil
  spaced := trivial
  heeded hmove := nomatch hmove
  fits := ⟨trivial, backoff_zero.symm⟩
  kept _ hphase := nomatch hphase

/-- In a run whose steps are all manageable, whatever is in the file at the start, the CA is asked just as it
    should be. -/
theorem renewal_orderly (stored : CertFile) (identity : TlsIdentity) (now : Int) (acts : List Act)
    (hok : AllOk RenewalTask.step Manageable (.start stored identity now) acts) :
    Always RenewalTask.step Orderly (.start stored identity now) acts :=
  (always_of_allOk (fun _ _ h => h.step) (sound_start stored identity now) hok).mono fun _ => Sound.toOrderly

/-- A certificate fails to come, comes after the back-off, and is not asked for again when HTTP/3 fails. -/
def calmRun : List Act :=
  [.check true, .answer .refused, .tick 300000000000, .wakeUp, .check true,
    .answer (.issued (144 * 3600 * second) true), .h3Failure, .h3Failure, .h3Failure, .notified, .check true]

theorem calmRun_orderly :
    Always RenewalTask.step Orderly (.start .missing (.dns "sarca.example") 0) calmRun :=
  renewal_orderly .missing (.dns "sarca.example") 0 calmRun
    ⟨.inl (by decide), trivial, trivial, trivial, .inl (by decide), by show ¬ _; decide,
      trivial, trivial, trivial, (fun _ hbackingOff => nomatch hbackingOff), .inr ⟨rfl, by decide⟩, trivial⟩

def addressBits (last : Nat) : IpAddr :=
  .v4 (.ofNat 32 last)

/-- A failure, and a request that cuts its back-off short. -/
def hastyRun : List Act :=
  [.check true, .answer .refused, .request, .notified, .check true]

/-- A certificate for less than a day, and the next attempt at once. -/
def shortRun : List Act :=
  [.check true, .answer (.issued (3600 * second) true), .wakeUp, .check true]

/-- The address changes under a certificate for six days. -/
def movedRun : List Act :=
  [.check true, .watch (some (addressBits 2)), .announce, .notified, .check true]

/-- A back-off is cut short, an attempt follows a success at once, and a new identity waits for the old
    certificate to expire. -/
theorem hasty_short_moved :
    ¬ Always RenewalTask.step Orderly (.start .missing (.ip (addressBits 1)) 0) hastyRun ∧
      ¬ Always RenewalTask.step Orderly (.start .missing (.ip (addressBits 1)) 0) shortRun ∧
      ¬ Always RenewalTask.step Orderly
        (.start (.cert ⟨false, 144 * 3600 * second, [.ip (addressBits 1)]⟩) (.ip (addressBits 1)) 0)
        movedRun := by
  refine ⟨fun h => ?_, fun h => ?_, fun h => ?_⟩
  · obtain ⟨⟨e, he, hlater⟩, -⟩ := h.last.spaced
    cases he
    exact absurd hlater (by decide)
  · obtain ⟨⟨e, he, hlater⟩, -⟩ := h.last.spaced
    cases he
    exact absurd hlater (by decide)
  · have hpermit := h.last.heeded rfl (by decide) _ rfl
    cases hpermit

end Sarca.Server.Renewal
