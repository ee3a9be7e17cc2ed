import Sarca.Lib.Calendar
import Sarca.Lib.Family
import Sarca.Lib.Run
import Sarca.Lib.Semaphore
import Sarca.Lib.Text
import Sarca.Server.Paths

/-!
# The gate in front of a chat

Every `sendDocument`, `copyMessage` and `deleteMessage` passes the `TokenSendGate` of its token and chat. A
call that finds the chat in a flood window asks for all the slots, any other one for a single slot; behind the
slots it keeps a distance from the last success, and with its slots it sends until Telegram accepts, or
until it has failed often enough.

`SendGate` is one gate with its calls and the clock; what each start found (`SendStart`) and until when Telegram
asked to wait are only there to say what is promised. `Polite` is the promise. No more calls send than there
are slots and nobody waits at a free gate, always (`SendGate.Sound`); the rest of it is kept by runs that
are careful where a flood begins (`SendGate.Calm`).
-/

namespace Sarca.Server
open Sarca.Lib

def milli : Nat := 1000000

/-- What the environment says about sends: `SARCA_TELEGRAM_PACING_MS`, `TELEGRAM_SEND_GAP_MS` and
    `TELEGRAM_SEND_CONCURRENCY`, where they hold numbers. -/
structure SendEnv where
  pacingMs : Option Nat
  gapMs : Option Nat
  concurrency : Option Nat
deriving DecidableEq, Repr

namespace SendEnv

variable (e : SendEnv)

/-- Rust `send_concurrency`. -/
def sendConcurrency : Nat :=
  max 1 (min 16 (e.concurrency.getD 3))

/-- Rust `min_send_gap`. -/
def minSendGap : Nat :=
  (e.pacingMs.or e.gapMs).getD 50 * milli

/-- Rust `min_send_gap_after_flood`. -/
def minSendGapAfterFlood : Nat :=
  e.pacingMs.getD 3000 * milli

/-- Rust `post_flood_extra_cooldown`. -/
def postFloodExtraCooldown : Nat :=
  e.pacingMs.getD 7000 * milli

lemma sendConcurrency_pos : 0 < e.sendConcurrency :=
  Nat.le_max_left 1 _

lemma gap_le_cooldown : e.minSendGapAfterFlood ≤ e.postFloodExtraCooldown := by
  unfold minSendGapAfterFlood postFloodExtraCooldown
  apply Nat.mul_le_mul_right
  cases e.pacingMs with
  | none => decide
  | some ms => exact Nat.le_refl ms

end SendEnv

inductive SendAnswer where
  | response (status : Nat) (body : List Char)
  | networkError
deriving DecidableEq, Repr

/-- The number behind the first occurrence of a text, if it is a `u64`. -/
def numberAfter (pattern text : List Char) : Option Nat :=
  (findAfter pattern text).bind fun rest =>
    parseU64 ((rest.dropWhile fun c => !c.isDigit).takeWhile Char.isDigit)

/-- Rust `flood_wait_secs`. -/
def floodWaitSecs (status : Nat) (body : List Char) : Option Nat :=
  let lower := body.map Char.toLower
  if status = 429 ∨ holdsPattern "too many requests".toList lower ∨
      holdsPattern "retry after".toList lower ∨ holdsPattern "\"retry_after\"".toList lower then
    match (numberAfter "\"retry_after\"".toList lower).or (numberAfter "retry after".toList lower) with
    | some n => some (max 1 (min 900 n))
    | none => some 8
  else none

/-- The wait in seconds that an answer asks for. -/
def SendAnswer.floodWait : SendAnswer → Option Nat
  | .response status body => if 200 ≤ status ∧ status < 300 then none else floodWaitSecs status body
  | .networkError => none

/-- Rust `flood_sleep_duration`; the jitter comes from the nanoseconds of the system clock, if it is past the
    epoch. -/
def floodSleepDuration (waitSecs : Nat) (subsecNanos : Option Nat) : Nat :=
  let jitterCapMs := max 100 (min 2000 (waitSecs * 100))
  waitSecs * second + (subsecNanos.map (· % jitterCapMs)).getD 100 * milli

/-- Rust `server_backoff_ms`. -/
def serverBackoffMs (attempt : Nat) : Nat :=
  min (200 * 2 ^ attempt) 30000

/-- Rust `FLOOD_PACING_WINDOW`. -/
def floodPacingWindow : Nat := 300 * second

inductive SendPhase where
  | arrived
  | sampled
  | waiting
  /-- before an attempt: the gap, a backoff, or the cooldown behind a flood wait -/
  | sleeping (until_ : Nat)
  | sending
  /-- `mark_ok` is still to come -/
  | accepted
  | floodWait (deadline : Nat)
  | over
deriving DecidableEq, Repr

def SendPhase.Active : SendPhase → Prop
  | .sleeping _ | .sending | .accepted | .floodWait _ => True
  | _ => False

instance SendPhase.Active.decidable : DecidablePred SendPhase.Active
  | .sleeping _ | .sending | .accepted | .floodWait _ => isTrue trivial
  | .arrived | .sampled | .waiting | .over => isFalse not_false

def SendPhase.deadline? : SendPhase → Option Nat
  | .floodWait deadline => some deadline
  | _ => none

/-- A call to `SendPermit::acquire` and the attempts behind it. -/
structure SendCall where
  phase : SendPhase
  slots : Nat
  otherTries : Nat
deriving DecidableEq, Repr

/-- What the start of an attempt found: until when Telegram had asked to wait, whether a flood window was in
    force, and the last success. -/
structure SendStart where
  at_ : Nat
  bannedUntil : Nat
  inFlood : Bool
  lastSuccess : Option Nat
deriving DecidableEq, Repr

/-- One `TokenSendGate`. `bannedUntil`, `lastSuccess` and `starts` are what happened. -/
structure SendGate where
  now : Nat
  sem : Semaphore Nat
  lastOk : Option Nat
  floodCooldownUntil : Option Nat
  calls : List SendCall
  bannedUntil : Nat
  lastSuccess : Option Nat
  starts : List SendStart

inductive SendStep where
  | sample
  | enqueue
  /-- behind the slots: how long to keep away from the last success -/
  | pace
  | start
  | answer (a : SendAnswer) (subsecNanos : Option Nat)
  | markOk
  | noteFlood
  /-- the future of the call is dropped -/
  | drop

inductive SendAct where
  | tick (elapsed : Nat)
  | arrive
  | call (i : Nat) (a : SendStep)

namespace SendGate

def fresh (e : SendEnv) : SendGate :=
  ⟨0, .idle e.sendConcurrency, none, none, [], 0, none, []⟩

variable (e : SendEnv) (σ : SendGate)

def InFlood : Prop :=
  ∃ until_ ∈ σ.floodCooldownUntil, σ.now < until_

instance InFlood.decidable : Decidable σ.InFlood :=
  match h : σ.floodCooldownUntil with
  | none => isFalse fun hin => by
    obtain ⟨until_, huntil, -⟩ := hin
    rw [h] at huntil
    cases huntil
  | some until_ => decidable_of_iff (σ.now < until_) <| by
    unfold InFlood
    rw [h]
    exact ⟨fun hlt => ⟨until_, rfl, hlt⟩, fun ⟨_, heq, hlt⟩ => Option.some.inj heq ▸ hlt⟩

def setCall (i : Nat) (c : SendCall) : SendGate :=
  { σ with calls := σ.calls.set i c }

def finish (i : Nat) (c : SendCall) : SendGate :=
  { σ.setCall i { c with phase := .over } with sem := σ.sem.leave i }

def start (i : Nat) (c : SendCall) : SendGate :=
  { σ.setCall i { c with phase := .sending } with
    starts := σ.starts ++ [⟨σ.now, σ.bannedUntil, σ.InFlood, σ.lastSuccess⟩] }

/-- An attempt failed for the network or the server: the call tries again, or gives up. -/
def tryAgain (i : Nat) (c : SendCall) : SendGate :=
  if c.otherTries + 1 < 5 then
    σ.setCall i { c with
      phase := .sleeping (σ.now + serverBackoffMs c.otherTries * milli)
      otherTries := c.otherTries + 1 }
  else σ.finish i c

/-- Rust `send_with_retries` and `send_upload_part_with_retries` on an answer. -/
def answer (i : Nat) (c : SendCall) (subsecNanos : Option Nat) : SendAnswer → SendGate
  | .response status body =>
    if 200 ≤ status ∧ status < 300 then
      { σ.setCall i { c with phase := .accepted } with lastSuccess := some σ.now }
    else
      match floodWaitSecs status body with
      | some waitSecs =>
        { σ.setCall i { c with phase := .floodWait (σ.now + floodSleepDuration waitSecs subsecNanos) } with
          bannedUntil := max σ.bannedUntil (σ.now + waitSecs * second) }
      | none => if 500 ≤ status ∧ status < 600 then σ.tryAgain i c else σ.finish i c
  | .networkError => σ.tryAgain i c

def take (i : Nat) (c : SendCall) : SendStep → SendGate
  | .sample =>
    if c.phase = .arrived then
      σ.setCall i { c with phase := .sampled, slots := if σ.InFlood then e.sendConcurrency else 1 }
    else σ
  | .enqueue =>
    if c.phase = .sampled then
      { σ.setCall i { c with phase := .waiting } with sem := σ.sem.enqueue i c.slots }
    else σ
  | .pace =>
    if c.phase = .waiting ∧ σ.sem.Holds i then
      let gap := if σ.InFlood then e.minSendGapAfterFlood else e.minSendGap
      σ.setCall i { c with phase := .sleeping (max σ.now ((σ.lastOk.map (· + gap)).getD 0)) }
    else σ
  | .start =>
    match c.phase with
    | .sleeping until_ => if until_ ≤ σ.now then σ.start i c else σ
    | _ => σ
  | .answer a subsecNanos => if c.phase = .sending then σ.answer i c subsecNanos a else σ
  | .markOk => if c.phase = .accepted then { σ.finish i c with lastOk := some σ.now } else σ
  | .noteFlood =>
    match c.phase with
    | .floodWait deadline =>
      if deadline ≤ σ.now then
        { σ.setCall i { c with phase := .sleeping (σ.now + e.postFloodExtraCooldown) } with
          floodCooldownUntil := some (σ.now + floodPacingWindow) }
      else σ
    | _ => σ
  | .drop => σ.finish i c

def step : SendAct → SendGate
  | .tick elapsed => { σ with now := σ.now + elapsed }
  | .arrive => { σ with calls := σ.calls ++ [⟨.arrived, 0, 0⟩] }
  | .call i a =>
    match σ.calls[i]? with
    | some c => σ.take e i c a
    | none => σ

def inFlight : List Nat :=
  (List.range σ.calls.length).filter fun i => (σ.calls[i]?).any fun c => c.phase = .sending

/-- No more calls send than there are slots, and where somebody waits for slots somebody holds some. -/
structure Bounded : Prop where
  inFlight : σ.inFlight.length ≤ e.sendConcurrency
  held : σ.sem.queue ≠ [] → σ.sem.held ≠ []

/-- What the gate promises: no attempt starts before the wait that Telegram asked for is over, and within a flood
    window one call sends at a time and keeps its distance from the last success. -/
structure Polite : Prop extends Bounded e σ where
  waited : ∀ s ∈ σ.starts, s.bannedUntil ≤ s.at_
  alone : σ.InFlood → σ.inFlight.length ≤ 1
  spaced : ∀ s ∈ σ.starts, s.inFlood = true → ∀ t ∈ s.lastSuccess, t + e.minSendGapAfterFlood ≤ s.at_

/-- A flood window is in force, or is to be once a call has slept out its flood wait. -/
def Flooded : Prop :=
  σ.InFlood ∨ ∃ c ∈ σ.calls, c.phase.deadline? ≠ none

/-- The side condition of a step. A flood answer finds no other call past the gate; while the chat is flooded a
    call passes with all slots only; and no call is dropped that has to wait or to mark its success. -/
def Careful : SendAct → Prop
  | .call i (.answer a _) => ∀ c ∈ σ.calls[i]?, c.phase = .sending → a.floodWait ≠ none →
    ∀ j ≠ i, ∀ c' ∈ σ.calls[j]?, ¬c'.phase.Active
  | .call i .pace => ∀ c ∈ σ.calls[i]?, c.phase = .waiting → σ.sem.Holds i → σ.Flooded →
    c.slots = e.sendConcurrency
  | .call i .drop => ∀ c ∈ σ.calls[i]?, c.phase ≠ .accepted ∧
    (c.phase.deadline? ≠ none → σ.bannedUntil ≤ σ.now)
  | _ => True

instance Flooded.decidable : Decidable σ.Flooded :=
  inferInstanceAs (Decidable (_ ∨ _))

instance Careful.decidable : DecidablePred (Careful e σ)
  | .tick _ | .arrive => isTrue trivial
  | .call i a =>
    match a with
    | .answer a _ =>
      decidable_of_iff (∀ c ∈ σ.calls[i]?.toList, c.phase = .sending → a.floodWait ≠ none →
          ∀ j < σ.calls.length, j ≠ i → ∀ c' ∈ σ.calls[j]?.toList, ¬c'.phase.Active) <| by
        simp only [Option.mem_toList]
        refine forall₂_congr fun c _ => forall₂_congr fun _ _ => forall_congr' fun j => ⟨?_, fun h _ => h⟩
        exact fun h hne c' hc' => h (List.getElem?_eq_some_iff.mp hc').1 hne c' hc'
    | .pace => decideMem _ _
    | .drop => decideMem _ _
    | .sample | .enqueue | .start | .markOk | .noteFlood => isTrue trivial

/-- When a call may start its next attempt, or has started it. -/
def readyAt (now : Nat) : SendPhase → Option Nat
  | .sleeping until_ => some until_
  | .sending => some now
  | _ => none

variable {e σ}

/-! ## The slots -/

/-- The semaphore knows the calls that wait or have passed, each with the slots it asked for. -/
structure Sound (e : SendEnv) (σ : SendGate) : Prop where
  capacity : σ.sem.capacity = e.sendConcurrency
  fair : σ.sem.Fair
  users : ∀ w ∈ σ.sem.users, ∃ c, σ.calls[w.1]? = some c ∧ c.slots = w.2 ∧
    (c.phase = .waiting ∨ c.phase.Active)
  holding : ∀ i c, σ.calls[i]? = some c → c.phase.Active → σ.sem.Holds i
  slots : ∀ c ∈ σ.calls, c.phase = .sampled → 0 < c.slots ∧ c.slots ≤ e.sendConcurrency

lemma Sound.fresh (e : SendEnv) : (fresh e).Sound e where
  capacity := rfl
  fair := .idle _
  users _ hw := absurd hw List.not_mem_nil
  holding _ c hc := absurd (hc.symm.trans List.getElem?_nil) (Option.some_ne_none c)
  slots _ hc := absurd hc List.not_mem_nil

variable {τ : SendGate} {i j : Nat} {c c' d : SendCall}

lemma Sound.congr (h : σ.Sound e) (hsem : τ.sem = σ.sem) (hcalls : τ.calls = σ.calls) : τ.Sound e := by
  obtain ⟨hcapacity, hfair, husers, hholding, hslots⟩ := h
  rw [← hsem, ← hcalls] at *
  exact ⟨hcapacity, hfair, husers, hholding, hslots⟩

lemma getElem?_setCall {calls : List SendCall} (h : (calls.set i c')[j]? = some d) :
    j = i ∧ d = c' ∨ j ≠ i ∧ calls[j]? = some d := by
  rw [List.getElem?_set] at h
  split at h
  · case isTrue heq =>
    split at h
    · exact .inl ⟨heq.symm, (Option.some.inj h).symm⟩
    · cases h
  · case isFalse hne => exact .inr ⟨Ne.symm hne, h⟩

lemma set_getElem? {calls : List SendCall} (hc : calls[i]? = some c) : (calls.set i c')[i]? = some c' := by
  rw [List.getElem?_set_self (List.getElem?_eq_some_iff.mp hc).1]

lemma Sound.holds (h : σ.Sound e) (hc : σ.calls[i]? = some c) (hi : σ.sem.Holds i) :
    (i, c.slots) ∈ σ.sem.held := by
  obtain ⟨w, hw, rfl⟩ := List.mem_map.mp hi
  obtain ⟨c', hc', hslots, -⟩ := h.users w (List.mem_append_left _ hw)
  obtain rfl := Option.some.inj (hc.symm.trans hc')
  rw [hslots]
  exact hw

lemma Sound.setCall (h : σ.Sound e) (hc : σ.calls[i]? = some c)
    (huser : c.phase = .waiting ∨ c.phase.Active → c'.slots = c.slots ∧ c'.phase.Active)
    (hactive : c'.phase.Active → σ.sem.Holds i)
    (hslots : c'.phase = .sampled → 0 < c'.slots ∧ c'.slots ≤ e.sendConcurrency) :
    (σ.setCall i c').Sound e := by
  refine ⟨h.capacity, h.fair, ?_, ?_, ?_⟩
  · intro w hw
    obtain ⟨d, hd, hdslots, hdphase⟩ := h.users w hw
    obtain heq | hne := eq_or_ne w.1 i
    · rw [heq] at hd ⊢
      obtain rfl := Option.some.inj (hc.symm.trans hd)
      obtain ⟨hsame, hphase⟩ := huser hdphase
      exact ⟨c', set_getElem? hc, hsame.trans hdslots, .inr hphase⟩
    · exact ⟨d, (List.getElem?_set_ne (Ne.symm hne)).trans hd, hdslots, hdphase⟩
  · intro j d hd hphase
    obtain ⟨rfl, rfl⟩ | ⟨-, hd⟩ := getElem?_setCall hd
    · exact hactive hphase
    · exact h.holding j d hd hphase
  · intro d hd hphase
    obtain hd | rfl := List.mem_or_eq_of_mem_set hd
    · exact h.slots d hd hphase
    · exact hslots hphase

lemma Sound.advance (h : σ.Sound e) (hc : σ.calls[i]? = some c) (hactive : c.phase.Active)
    (hactive' : c'.phase.Active) (hslots : c'.slots = c.slots) : (σ.setCall i c').Sound e := by
  refine h.setCall hc (fun _ => ⟨hslots, hactive'⟩) (fun _ => h.holding i c hc hactive) fun hsampled => ?_
  rw [hsampled] at hactive'
  exact absurd hactive' not_false

lemma Sound.finish (h : σ.Sound e) (hc : σ.calls[i]? = some c) : (σ.finish i c).Sound e := by
  refine ⟨h.capacity, h.fair.leave i, ?_, ?_, ?_⟩
  · intro w hw
    obtain ⟨hw, hne⟩ := List.mem_filter.mp (σ.sem.leave_users i ▸ hw)
    obtain ⟨d, hd, hslots, hphase⟩ := h.users w hw
    exact ⟨d, (List.getElem?_set_ne (Ne.symm (of_decide_eq_true hne))).trans hd, hslots, hphase⟩
  · intro j d hd hphase
    obtain ⟨rfl, rfl⟩ | ⟨hne, hd⟩ := getElem?_setCall hd
    · exact absurd hphase not_false
    · obtain ⟨w, hw, rfl⟩ := List.mem_map.mp (h.holding j d hd hphase)
      exact List.mem_map_of_mem (Semaphore.mem_leave_held hw hne)
  · intro d hd hphase
    obtain hd | rfl := List.mem_or_eq_of_mem_set hd
    · exact h.slots d hd hphase
    · cases hphase

lemma Sound.tryAgain (h : σ.Sound e) (hc : σ.calls[i]? = some c) (hactive : c.phase.Active) :
    (σ.tryAgain i c).Sound e := by
  unfold SendGate.tryAgain
  split
  · exact h.advance hc hactive trivial rfl
  · exact h.finish hc

lemma answer_cases (σ : SendGate) (i : Nat) (c : SendCall) (subsecNanos : Option Nat) (a : SendAnswer) :
    a.floodWait = none ∧ σ.answer i c subsecNanos a =
        { σ.setCall i { c with phase := .accepted } with lastSuccess := some σ.now } ∨
      (∃ waitSecs, a.floodWait = some waitSecs ∧ σ.answer i c subsecNanos a =
        { σ.setCall i { c with phase := .floodWait (σ.now + floodSleepDuration waitSecs subsecNanos) } with
          bannedUntil := max σ.bannedUntil (σ.now + waitSecs * second) }) ∨
      a.floodWait = none ∧
        (σ.answer i c subsecNanos a = σ.tryAgain i c ∨ σ.answer i c subsecNanos a = σ.finish i c) := by
  cases a with
  | networkError => exact .inr (.inr ⟨rfl, .inl rfl⟩)
  | response status body =>
    simp only [SendGate.answer, SendAnswer.floodWait]
    by_cases hsuccess : 200 ≤ status ∧ status < 300
    · simp only [if_pos hsuccess]
      exact .inl ⟨trivial, trivial⟩
    · simp only [if_neg hsuccess]
      cases floodWaitSecs status body with
      | some waitSecs => exact .inr (.inl ⟨waitSecs, rfl, rfl⟩)
      | none =>
        refine .inr (.inr ⟨rfl, ?_⟩)
        by_cases hserver : 500 ≤ status ∧ status < 600
        · exact .inl (if_pos hserver)
        · exact .inr (if_neg hserver)

lemma Sound.answer (h : σ.Sound e) (hc : σ.calls[i]? = some c) (hactive : c.phase.Active)
    (subsecNanos : Option Nat) (a : SendAnswer) : (σ.answer i c subsecNanos a).Sound e := by
  have hadvance : ∀ phase : SendPhase, phase.Active → (σ.setCall i { c with phase := phase }).Sound e :=
    fun _ hphase => h.advance hc hactive hphase rfl
  obtain ⟨-, heq⟩ | ⟨waitSecs, -, heq⟩ | ⟨-, heq | heq⟩ := answer_cases σ i c subsecNanos a
  · rw [heq]
    exact (hadvance .accepted trivial).congr rfl rfl
  · rw [heq]
    exact (hadvance (.floodWait _) trivial).congr rfl rfl
  · rw [heq]
    exact h.tryAgain hc hactive
  · rw [heq]
    exact h.finish hc

lemma Sound.take (h : σ.Sound e) (hc : σ.calls[i]? = some c) (a : SendStep) : (σ.take e i c a).Sound e := by
  cases a with
  | sample =>
    simp only [SendGate.take]
    split
    · case isTrue hphase =>
      refine h.setCall hc (fun huser => ?_) (fun hactive => absurd hactive not_false) fun _ => ?_
      · rw [hphase] at huser
        exact (huser.elim nofun fun hactive => hactive.elim)
      · dsimp only
        split
        · exact ⟨e.sendConcurrency_pos, Nat.le_refl _⟩
        · exact ⟨Nat.one_pos, e.sendConcurrency_pos⟩
    · exact h
  | enqueue =>
    simp only [SendGate.take]
    split
    · case isTrue hphase =>
      obtain ⟨hpos, hle⟩ := h.slots c (List.mem_of_getElem? hc) hphase
      have hnew : i ∉ σ.sem.users.map Prod.fst := by
        intro hi
        obtain ⟨w, hw, rfl⟩ := List.mem_map.mp hi
        obtain ⟨d, hd, -, hdphase⟩ := h.users w hw
        obtain rfl := Option.some.inj (hc.symm.trans hd)
        rw [hphase] at hdphase
        exact hdphase.elim nofun fun hactive => hactive.elim
      refine ⟨h.capacity, h.fair.enqueue hpos (h.capacity ▸ hle) hnew, ?_, ?_, ?_⟩
      · intro w hw
        obtain hw | hw := List.mem_append.mp (σ.sem.enqueue_users i c.slots ▸ hw)
        · obtain ⟨d, hd, hslots, hdphase⟩ := h.users w hw
          have hne : i ≠ w.1 := fun heq => hnew (heq ▸ List.mem_map_of_mem hw)
          exact ⟨d, (List.getElem?_set_ne hne).trans hd, hslots, hdphase⟩
        · obtain rfl := List.mem_singleton.mp hw
          exact ⟨_, set_getElem? hc, rfl, .inl rfl⟩
      · intro j d hd hactive
        obtain ⟨rfl, rfl⟩ | ⟨-, hd⟩ := getElem?_setCall hd
        · exact absurd hactive not_false
        · exact List.map_subset _ (σ.sem.subset_enqueue_held i c.slots) (h.holding j d hd hactive)
      · intro d hd hsampled
        obtain hd | rfl := List.mem_or_eq_of_mem_set hd
        · exact h.slots d hd hsampled
        · cases hsampled
    · exact h
  | pace =>
    simp only [SendGate.take]
    split
    · case isTrue hpace => exact h.setCall hc (fun _ => ⟨rfl, trivial⟩) (fun _ => hpace.2) nofun
    · exact h
  | start =>
    cases hphase : c.phase with
    | sleeping until_ =>
      simp only [SendGate.take, hphase]
      split
      · have hsending : (σ.setCall i { c with phase := .sending }).Sound e :=
          h.advance hc (by rw [hphase]; trivial) trivial rfl
        exact hsending.congr rfl rfl
      · exact h
    | _ => simpa only [SendGate.take, hphase] using h
  | answer a subsecNanos =>
    simp only [SendGate.take]
    split
    · case isTrue hphase => exact h.answer hc (by rw [hphase]; trivial) subsecNanos a
    · exact h
  | markOk =>
    simp only [SendGate.take]
    split
    · exact (h.finish hc).congr rfl rfl
    · exact h
  | noteFlood =>
    cases hphase : c.phase with
    | floodWait deadline =>
      simp only [SendGate.take, hphase]
      split
      · have hsleeping : (σ.setCall i { c with
            phase := .sleeping (σ.now + e.postFloodExtraCooldown) }).Sound e :=
          h.advance hc (by rw [hphase]; trivial) trivial rfl
        exact hsleeping.congr rfl rfl
      · exact h
    | _ => simpa only [SendGate.take, hphase] using h
  | drop => exact h.finish hc

lemma Sound.step (h : σ.Sound e) (a : SendAct) : (σ.step e a).Sound e := by
  cases a with
  | tick elapsed => exact h.congr rfl rfl
  | arrive =>
    have hnew : ∀ (j : Nat) (d : SendCall), (σ.calls ++ [⟨.arrived, 0, 0⟩])[j]? = some d →
        σ.calls[j]? = some d ∨ d.phase = .arrived := by
      intro j d hd
      rw [List.getElem?_append] at hd
      split at hd
      · exact .inl hd
      · exact .inr (List.mem_singleton.mp (List.mem_of_getElem? hd) ▸ rfl)
    refine ⟨h.capacity, h.fair, ?_, ?_, ?_⟩
    · intro w hw
      obtain ⟨d, hd, hrest⟩ := h.users w hw
      exact ⟨d, (List.getElem?_append_left (List.getElem?_eq_some_iff.mp hd).1).trans hd, hrest⟩
    · intro j d hd hactive
      obtain hd | hphase := hnew j d hd
      · exact h.holding j d hd hactive
      · rw [hphase] at hactive
        exact absurd hactive not_false
    · intro d hd hsampled
      obtain hd | hd := List.mem_append.mp hd
      · exact h.slots d hd hsampled
      · obtain rfl := List.mem_singleton.mp hd
        cases hsampled
  | call i a =>
    simp only [SendGate.step]
    cases hc : σ.calls[i]? with
    | none => exact h
    | some c => exact h.take hc a

lemma mem_inFlight : i ∈ σ.inFlight ↔ ∃ c, σ.calls[i]? = some c ∧ c.phase = .sending := by
  unfold SendGate.inFlight
  rw [List.mem_filter, List.mem_range]
  constructor
  · intro h
    cases hc : σ.calls[i]? with
    | none =>
      rw [hc] at h
      exact absurd h.2 Bool.false_ne_true
    | some c =>
      rw [hc] at h
      exact ⟨c, rfl, of_decide_eq_true h.2⟩
  · intro ⟨c, hc, hphase⟩
    refine ⟨(List.getElem?_eq_some_iff.mp hc).1, ?_⟩
    rw [hc]
    exact decide_eq_true hphase

lemma inFlight_nodup (σ : SendGate) : σ.inFlight.Nodup :=
  List.nodup_range.filter _

lemma Sound.bounded (h : σ.Sound e) : σ.Bounded e where
  inFlight := by
    have hsub : σ.inFlight ⊆ σ.sem.held.map Prod.fst := by
      intro i hi
      obtain ⟨c, hc, hphase⟩ := mem_inFlight.mp hi
      exact h.holding i c hc (by rw [hphase]; trivial)
    have hle := (List.subperm_of_subset (inFlight_nodup σ) hsub).length_le
    rw [List.length_map] at hle
    exact hle.trans (h.fair.length_held_le.trans_eq h.capacity)
  held := h.fair.held_ne_nil

/-! ## Careful runs -/

/-- While the chat is flooded one call is past the gate, and where it stands it keeps its distance; a wait that is
    not over is being slept out. -/
structure Calm (e : SendEnv) (σ : SendGate) : Prop where
  past : ∀ t ∈ σ.lastSuccess, t ≤ σ.now
  marked : (∀ c ∈ σ.calls, c.phase ≠ .accepted) → ∀ t ∈ σ.lastSuccess, ∃ u ∈ σ.lastOk, t ≤ u
  alone : σ.Flooded → ∀ (i j : Nat) (c d : SendCall), σ.calls[i]? = some c → σ.calls[j]? = some d →
    c.phase.Active → d.phase.Active → i = j
  ready : σ.InFlood → ∀ c ∈ σ.calls, ∀ at_ ∈ readyAt σ.now c.phase, ∀ t ∈ σ.lastSuccess,
    t + e.minSendGapAfterFlood ≤ at_
  banned : σ.now < σ.bannedUntil → ∃ c ∈ σ.calls, ∃ deadline ∈ c.phase.deadline?, σ.bannedUntil ≤ deadline
  waited : ∀ s ∈ σ.starts, s.bannedUntil ≤ s.at_
  spaced : ∀ s ∈ σ.starts, s.inFlood = true → ∀ t ∈ s.lastSuccess, t + e.minSendGapAfterFlood ≤ s.at_

lemma Calm.fresh (e : SendEnv) : Calm e (fresh e) where
  past _ ht := absurd ht (Option.not_mem_none _)
  marked _ _ ht := absurd ht (Option.not_mem_none _)
  alone _ _ _ c _ hc := absurd (hc.symm.trans List.getElem?_nil) (Option.some_ne_none c)
  ready _ _ hc := absurd hc List.not_mem_nil
  banned h := absurd h (Nat.lt_irrefl 0)
  waited _ hs := absurd hs List.not_mem_nil
  spaced _ hs := absurd hs List.not_mem_nil

lemma active_of_deadline {phase : SendPhase} (h : phase.deadline? ≠ none) : phase.Active := by
  cases phase with
  | floodWait deadline => trivial
  | _ => exact absurd rfl h

lemma active_of_readyAt {phase : SendPhase} {now at_ : Nat} (h : at_ ∈ readyAt now phase) : phase.Active := by
  cases phase with
  | sleeping until_ => trivial
  | sending => trivial
  | _ => exact absurd h (Option.not_mem_none _)

lemma Calm.others (h : σ.Calm e) (hc : σ.calls[i]? = some c) (hactive : c.phase.Active) (hflooded : σ.Flooded) :
    ∀ j ≠ i, ∀ d ∈ σ.calls[j]?, ¬d.phase.Active :=
  fun j hne d hd hdactive => hne (h.alone hflooded j i d c hd hc hdactive hactive)

lemma Calm.marked_set (h : σ.Calm e) (hc : σ.calls[i]? = some c)
    (haccepted : c.phase = .accepted → c'.phase = .accepted)
    (hnone : ∀ d ∈ σ.calls.set i c', d.phase ≠ .accepted) :
    ∀ t ∈ σ.lastSuccess, ∃ u ∈ σ.lastOk, t ≤ u := by
  refine h.marked fun d hd => ?_
  obtain ⟨j, hj⟩ := List.mem_iff_getElem?.mp hd
  obtain rfl | hne := eq_or_ne j i
  · obtain rfl := Option.some.inj (hc.symm.trans hj)
    exact fun hphase => hnone c' (List.mem_of_getElem? (set_getElem? hc)) (haccepted hphase)
  · exact hnone d (List.mem_of_getElem? ((List.getElem?_set_ne hne.symm).trans hj))

lemma Calm.setCall (h : σ.Calm e) (hc : σ.calls[i]? = some c)
    (hdeadline : c'.phase.deadline? ≠ none → c.phase.deadline? ≠ none)
    (halone : σ.Flooded → c'.phase.Active → ∀ j ≠ i, ∀ d ∈ σ.calls[j]?, ¬d.phase.Active)
    (hready : σ.InFlood → ∀ at_ ∈ readyAt σ.now c'.phase, ∀ t ∈ σ.lastSuccess,
      t + e.minSendGapAfterFlood ≤ at_)
    (hbanned : σ.now < σ.bannedUntil → ∀ deadline ∈ c.phase.deadline?, c'.phase.deadline? = some deadline)
    {lastOk : Option Nat} (hmarked : (∀ d ∈ σ.calls.set i c', d.phase ≠ .accepted) →
      ∀ t ∈ σ.lastSuccess, ∃ u ∈ lastOk, t ≤ u) (sem : Semaphore Nat) :
    Calm e { σ.setCall i c' with sem := sem, lastOk := lastOk } := by
  have hflooded : ({ σ.setCall i c' with sem := sem, lastOk := lastOk } : SendGate).Flooded → σ.Flooded := by
    refine Or.imp_right fun ⟨d, hd, hdd⟩ => ?_
    obtain hd | rfl := List.mem_or_eq_of_mem_set hd
    · exact ⟨d, hd, hdd⟩
    · exact ⟨c, List.mem_of_getElem? hc, hdeadline hdd⟩
  refine ⟨h.past, hmarked, ?_, ?_, ?_, h.waited, h.spaced⟩
  · intro hfl j k d d' hd hd' hactive hactive'
    obtain ⟨rfl, rfl⟩ | ⟨hj, hold⟩ := getElem?_setCall hd
    · obtain ⟨rfl, rfl⟩ | ⟨hk, hold'⟩ := getElem?_setCall hd'
      · rfl
      · exact absurd hactive' (halone (hflooded hfl) hactive k hk d' hold')
    · obtain ⟨rfl, rfl⟩ | ⟨hk, hold'⟩ := getElem?_setCall hd'
      · exact absurd hactive (halone (hflooded hfl) hactive' j hj d hold)
      · exact h.alone (hflooded hfl) j k d d' hold hold' hactive hactive'
  · intro hfl d hd
    obtain hd | rfl := List.mem_or_eq_of_mem_set hd
    · exact h.ready hfl d hd
    · exact hready hfl
  · intro hnow
    obtain ⟨d, hd, deadline, hdd, hle⟩ := h.banned hnow
    obtain ⟨j, hj⟩ := List.mem_iff_getElem?.mp hd
    obtain rfl | hne := eq_or_ne j i
    · obtain rfl := Option.some.inj (hc.symm.trans hj)
      exact ⟨c', List.mem_of_getElem? (set_getElem? hc), deadline, hbanned hnow deadline hdd, hle⟩
    · exact ⟨d, List.mem_of_getElem? ((List.getElem?_set_ne hne.symm).trans hj), deadline, hdd, hle⟩

lemma Calm.finish (h : σ.Calm e) (hc : σ.calls[i]? = some c) (haccepted : c.phase ≠ .accepted)
    (hdeadline : c.phase.deadline? ≠ none → σ.bannedUntil ≤ σ.now) : (σ.finish i c).Calm e := by
  refine h.setCall hc ?_ ?_ ?_ ?_ (h.marked_set hc fun hphase => absurd hphase haccepted) _
  · exact fun hnone => absurd rfl hnone
  · exact fun _ hactive => absurd hactive not_false
  · exact fun _ _ hat => absurd hat (Option.not_mem_none _)
  · intro hnow deadline hd
    have hle := hdeadline fun hnone => Option.some_ne_none deadline (hd.symm.trans hnone)
    exact absurd hnow (Nat.not_lt.mpr hle)

lemma Calm.ofSending (h : σ.Calm e) (hc : σ.calls[i]? = some c) (hphase : c.phase = .sending)
    (hdeadline : c'.phase.deadline? = none)
    (hready : σ.InFlood → ∀ at_ ∈ readyAt σ.now c'.phase, ∀ t ∈ σ.lastSuccess,
      t + e.minSendGapAfterFlood ≤ at_) (hmarked : (∀ d ∈ σ.calls.set i c', d.phase ≠ .accepted) →
      ∀ t ∈ σ.lastSuccess, ∃ u ∈ σ.lastOk, t ≤ u) (sem : Semaphore Nat) :
    Calm e { σ.setCall i c' with sem := sem } := by
  refine h.setCall hc (fun hsome => absurd hdeadline hsome) (fun hfl _ => ?_) hready (fun _ deadline hd => ?_)
    hmarked sem
  · exact h.others hc (by rw [hphase]; trivial) hfl
  · rw [hphase] at hd
    cases hd

lemma Calm.sending_spaced (h : σ.Calm e) (hc : σ.calls[i]? = some c) (hphase : c.phase = .sending)
    (hfl : σ.InFlood) : ∀ t ∈ σ.lastSuccess, t + e.minSendGapAfterFlood ≤ σ.now :=
  h.ready hfl c (List.mem_of_getElem? hc) σ.now (by rw [hphase]; rfl)

lemma Calm.tryAgain (h : σ.Calm e) (hc : σ.calls[i]? = some c) (hphase : c.phase = .sending) :
    (σ.tryAgain i c).Calm e := by
  unfold SendGate.tryAgain
  split
  · refine h.ofSending hc hphase rfl (fun hfl at_ hat t ht => ?_) (h.marked_set hc fun haccepted => ?_) _
    · obtain rfl := Option.some.inj hat
      exact (h.sending_spaced hc hphase hfl t ht).trans (Nat.le_add_right _ _)
    · rw [hphase] at haccepted
      cases haccepted
  · refine h.finish hc (fun haccepted => ?_) fun hsome => ?_
    · rw [hphase] at haccepted
      cases haccepted
    · rw [hphase] at hsome
      exact absurd rfl hsome

/-- An answer, where a flood answer finds no other call past the gate. -/
lemma Calm.answer (h : σ.Calm e) (hc : σ.calls[i]? = some c) (hphase : c.phase = .sending)
    (subsecNanos : Option Nat) (a : SendAnswer)
    (hcareful : a.floodWait ≠ none → ∀ j ≠ i, ∀ d ∈ σ.calls[j]?, ¬d.phase.Active) :
    (σ.answer i c subsecNanos a).Calm e := by
  have hactive : c.phase.Active := by rw [hphase]; trivial
  obtain ⟨-, heq⟩ | ⟨waitSecs, hflood, heq⟩ | ⟨-, heq | heq⟩ := answer_cases σ i c subsecNanos a
  · rw [heq]
    have hmoved : Calm e (σ.setCall i { c with phase := .accepted }) := by
      refine h.ofSending hc hphase rfl (fun _ _ hat => absurd hat (Option.not_mem_none _)) (fun hnone => ?_) σ.sem
      exact absurd rfl (hnone _ (List.mem_of_getElem? (set_getElem? hc)))
    refine ⟨fun t ht => (Option.some.inj ht).ge, fun hnone => ?_, hmoved.alone, ?_, hmoved.banned,
      hmoved.waited, hmoved.spaced⟩
    · exact absurd rfl (hnone _ (List.mem_of_getElem? (set_getElem? hc)))
    · intro hfl d hd at_ hat
      obtain ⟨j, hj⟩ := List.mem_iff_getElem?.mp hd
      obtain ⟨rfl, rfl⟩ | ⟨hne, hj⟩ := getElem?_setCall hj
      · exact absurd hat (Option.not_mem_none _)
      -- within a window, the other calls have not passed
      · exact absurd (active_of_readyAt hat) (h.others hc hactive (.inl hfl) j hne d hj)
  · rw [heq]
    have hothers := hcareful fun hnone => Option.some_ne_none waitSecs (hflood.symm.trans hnone)
    have hpast : σ.bannedUntil ≤ σ.now := by
      refine Nat.le_of_not_lt fun hnow => ?_
      obtain ⟨d, hd, deadline, hdd, -⟩ := h.banned hnow
      obtain ⟨j, hj⟩ := List.mem_iff_getElem?.mp hd
      have hdactive := active_of_deadline fun hnone => Option.some_ne_none deadline (hdd.symm.trans hnone)
      obtain rfl | hne := eq_or_ne j i
      · obtain rfl := Option.some.inj (hc.symm.trans hj)
        rw [hphase] at hdd
        cases hdd
      · exact hothers j hne d hj hdactive
    refine ⟨h.past, fun hnone => h.marked_set hc (fun haccepted => ?_) hnone, ?_, ?_, ?_, h.waited, h.spaced⟩
    · rw [hphase] at haccepted
      cases haccepted
    · intro _ j k d d' hd hd' hdactive hdactive'
      obtain ⟨rfl, -⟩ | ⟨hj, hd⟩ := getElem?_setCall hd
      · obtain ⟨rfl, -⟩ | ⟨hk, hd'⟩ := getElem?_setCall hd'
        · rfl
        · exact absurd hdactive' (hothers k hk d' hd')
      · exact absurd hdactive (hothers j hj d hd)
    · intro hfl d hd
      obtain hd | rfl := List.mem_or_eq_of_mem_set hd
      · exact h.ready hfl d hd
      · exact fun _ hat => absurd hat (Option.not_mem_none _)
    · intro _
      refine ⟨_, List.mem_of_getElem? (set_getElem? hc), _, rfl, ?_⟩
      have hwait : waitSecs * second ≤ floodSleepDuration waitSecs subsecNanos := Nat.le_add_right _ _
      exact Nat.max_le.mpr ⟨by omega, Nat.add_le_add_left hwait σ.now⟩
  · rw [heq]
    exact h.tryAgain hc hphase
  · rw [heq]
    refine h.finish hc (fun haccepted => ?_) fun hsome => ?_
    · rw [hphase] at haccepted
      cases haccepted
    · rw [hphase] at hsome
      exact absurd rfl hsome

lemma Calm.inFront (h : σ.Calm e) (hc : σ.calls[i]? = some c) (hphase : ¬c.phase.Active)
    (hphase' : ¬c'.phase.Active) (sem : Semaphore Nat) : Calm e { σ.setCall i c' with sem := sem } := by
  refine h.setCall hc ?_ ?_ ?_ ?_ (h.marked_set hc fun haccepted => ?_) sem
  · exact fun hsome => absurd (active_of_deadline hsome) hphase'
  · exact fun _ hactive => absurd hactive hphase'
  · exact fun _ _ hat => absurd (active_of_readyAt hat) hphase'
  · intro _ deadline hd
    exact absurd (active_of_deadline fun hnone => Option.some_ne_none deadline (hd.symm.trans hnone)) hphase
  · exact absurd (haccepted ▸ trivial) hphase

lemma Calm.pace (h : σ.Calm e) (hs : σ.Sound e) (hc : σ.calls[i]? = some c) (hphase : c.phase = .waiting)
    (hi : σ.sem.Holds i) (hcareful : σ.Flooded → c.slots = e.sendConcurrency) :
    (σ.take e i c .pace).Calm e := by
  have htake : σ.take e i c .pace = σ.setCall i { c with
      phase := .sleeping (max σ.now ((σ.lastOk.map
        (· + if σ.InFlood then e.minSendGapAfterFlood else e.minSendGap)).getD 0)) } := by
    simp only [SendGate.take, if_pos (And.intro hphase hi)]
  -- one that has all slots finds nobody past the gate
  have hnobody : σ.Flooded → ∀ (j : Nat) (d : SendCall), σ.calls[j]? = some d → ¬d.phase.Active := by
    intro hfl j d hd hactive
    have hall : (i, σ.sem.capacity) ∈ σ.sem.held := by
      rw [hs.capacity, ← hcareful hfl]
      exact hs.holds hc hi
    have hj := hs.holds hd (hs.holding j d hd hactive)
    rw [hs.fair.sole hall] at hj
    obtain ⟨rfl, -⟩ := Prod.mk.inj (List.mem_singleton.mp hj)
    obtain rfl := Option.some.inj (hc.symm.trans hd)
    rw [hphase] at hactive
    exact hactive
  rw [htake]
  refine h.setCall hc ?_ ?_ ?_ ?_ (h.marked_set hc fun haccepted => ?_) σ.sem
  · exact fun hsome => absurd rfl hsome
  · exact fun hfl _ j _ d hd => hnobody hfl j d hd
  · intro hfl at_ hat t ht
    obtain rfl := Option.some.inj hat
    have hnone : ∀ d ∈ σ.calls, d.phase ≠ .accepted := by
      intro d hd haccepted
      obtain ⟨j, hj⟩ := List.mem_iff_getElem?.mp hd
      exact hnobody (.inl hfl) j d hj (by rw [haccepted]; trivial)
    obtain ⟨u, hu, htu⟩ := h.marked hnone t ht
    rw [hu, if_pos hfl, Option.map_some, Option.getD_some]
    exact (Nat.add_le_add_right htu _).trans (Nat.le_max_right _ _)
  · intro _ deadline hd
    rw [hphase] at hd
    cases hd
  · rw [hphase] at haccepted
    cases haccepted

lemma Calm.start (h : σ.Calm e) (hc : σ.calls[i]? = some c) {until_ : Nat} (hphase : c.phase = .sleeping until_)
    (hready : until_ ≤ σ.now) : (σ.start i c).Calm e := by
  have hactive : c.phase.Active := by rw [hphase]; trivial
  have hspaced : σ.InFlood → ∀ t ∈ σ.lastSuccess, t + e.minSendGapAfterFlood ≤ σ.now := by
    intro hfl t ht
    have hat : until_ ∈ readyAt σ.now c.phase := by rw [hphase]; rfl
    exact (h.ready hfl c (List.mem_of_getElem? hc) until_ hat t ht).trans hready
  have hmoved : Calm e (σ.setCall i { c with phase := .sending }) := by
    refine h.setCall hc ?_ ?_ ?_ ?_ (h.marked_set hc fun haccepted => ?_) σ.sem
    · exact fun hsome => absurd rfl hsome
    · exact fun hfl _ => h.others hc hactive hfl
    · intro hfl at_ hat
      obtain rfl := Option.some.inj hat
      exact hspaced hfl
    · intro _ deadline hd
      rw [hphase] at hd
      cases hd
    · rw [hphase] at haccepted
      cases haccepted
  refine ⟨hmoved.past, hmoved.marked, hmoved.alone, hmoved.ready, hmoved.banned, ?_, ?_⟩
  · intro s hstart
    obtain hstart | hstart := List.mem_append.mp hstart
    · exact h.waited s hstart
    · obtain rfl := List.mem_singleton.mp hstart
      -- the call that sleeps out the wait would be this one
      refine Nat.le_of_not_lt fun hnow => ?_
      obtain ⟨d, hd, deadline, hdd, -⟩ := h.banned hnow
      have hsome : d.phase.deadline? ≠ none := fun hnone => Option.some_ne_none deadline (hdd.symm.trans hnone)
      obtain ⟨j, hj⟩ := List.mem_iff_getElem?.mp hd
      have heq := h.alone (.inr ⟨d, hd, hsome⟩) j i d c hj hc (active_of_deadline hsome) hactive
      rw [heq] at hj
      obtain rfl := Option.some.inj (hc.symm.trans hj)
      rw [hphase] at hdd
      cases hdd
  · intro s hstart
    obtain hstart | hstart := List.mem_append.mp hstart
    · exact h.spaced s hstart
    · obtain rfl := List.mem_singleton.mp hstart
      exact fun hfl => hspaced (of_decide_eq_true hfl)

lemma Calm.noteFlood (h : σ.Calm e) (hc : σ.calls[i]? = some c) {deadline : Nat}
    (hphase : c.phase = .floodWait deadline) (hnow : deadline ≤ σ.now) :
    (σ.take e i c .noteFlood).Calm e := by
  have htake : σ.take e i c .noteFlood =
      { σ.setCall i { c with phase := .sleeping (σ.now + e.postFloodExtraCooldown) } with
        floodCooldownUntil := some (σ.now + floodPacingWindow) } := by
    simp only [SendGate.take, hphase, if_pos hnow]
  have hactive : c.phase.Active := by rw [hphase]; trivial
  have hfl : σ.Flooded := .inr ⟨c, List.mem_of_getElem? hc, by rw [hphase]; exact Option.some_ne_none deadline⟩
  have hothers := h.others hc hactive hfl
  rw [htake]
  refine ⟨h.past, fun hnone => h.marked_set hc (fun haccepted => ?_) hnone, ?_, ?_, ?_, h.waited, h.spaced⟩
  · rw [hphase] at haccepted
    cases haccepted
  · intro _ j k d d' hd hd' hdactive hdactive'
    obtain ⟨rfl, -⟩ | ⟨hj, hd⟩ := getElem?_setCall hd
    · obtain ⟨rfl, -⟩ | ⟨hk, hd'⟩ := getElem?_setCall hd'
      · rfl
      · exact absurd hdactive' (hothers k hk d' hd')
    · exact absurd hdactive (hothers j hj d hd)
  · intro _ d hd at_ hat t ht
    obtain ⟨j, hj⟩ := List.mem_iff_getElem?.mp hd
    obtain ⟨rfl, rfl⟩ | ⟨hne, hj⟩ := getElem?_setCall hj
    · obtain rfl := Option.some.inj hat
      exact Nat.add_le_add (h.past t ht) e.gap_le_cooldown
    · exact absurd (active_of_readyAt hat) (hothers j hne d hj)
  · intro hbanned
    obtain ⟨d, hd, deadline', hdd, hle⟩ := h.banned hbanned
    obtain ⟨j, hj⟩ := List.mem_iff_getElem?.mp hd
    obtain rfl | hne := eq_or_ne j i
    · obtain rfl := Option.some.inj (hc.symm.trans hj)
      rw [hphase] at hdd
      obtain rfl := Option.some.inj hdd
      exact absurd hbanned (Nat.not_lt.mpr (hle.trans hnow))
    · have hsome : d.phase.deadline? ≠ none := fun hnone => Option.some_ne_none deadline' (hdd.symm.trans hnone)
      exact absurd (active_of_deadline hsome) (hothers j hne d hj)

lemma Calm.take (h : σ.Calm e) (hs : σ.Sound e) (hc : σ.calls[i]? = some c) (a : SendStep)
    (hcareful : σ.Careful e (.call i a)) : (σ.take e i c a).Calm e := by
  cases a with
  | sample =>
    simp only [SendGate.take]
    split
    · case isTrue hphase =>
      refine h.inFront hc (by rw [hphase]; exact not_false) ?_ σ.sem
      exact not_false
    · exact h
  | enqueue =>
    simp only [SendGate.take]
    split
    · case isTrue hphase =>
      refine h.inFront hc (by rw [hphase]; exact not_false) ?_ _
      exact not_false
    · exact h
  | pace =>
    by_cases hpace : c.phase = .waiting ∧ σ.sem.Holds i
    · exact h.pace hs hc hpace.1 hpace.2 (hcareful c hc hpace.1 hpace.2)
    · simpa only [SendGate.take, if_neg hpace] using h
  | start =>
    cases hphase : c.phase with
    | sleeping until_ =>
      simp only [SendGate.take, hphase]
      split
      · case isTrue hready => exact h.start hc hphase hready
      · exact h
    | _ => simpa only [SendGate.take, hphase] using h
  | answer a subsecNanos =>
    simp only [SendGate.take]
    split
    · case isTrue hphase => exact h.answer hc hphase subsecNanos a (hcareful c hc hphase)
    · exact h
  | markOk =>
    simp only [SendGate.take]
    split
    · case isTrue hphase =>
      refine h.setCall hc ?_ ?_ ?_ ?_ (fun _ t ht => ⟨σ.now, rfl, h.past t ht⟩) _
      · exact fun hsome => absurd rfl hsome
      · exact fun _ hactive => absurd hactive not_false
      · exact fun _ _ hat => absurd hat (Option.not_mem_none _)
      · intro _ deadline hd
        rw [hphase] at hd
        cases hd
    · exact h
  | noteFlood =>
    cases hphase : c.phase with
    | floodWait deadline =>
      by_cases hnow : deadline ≤ σ.now
      · exact h.noteFlood hc hphase hnow
      · simpa only [SendGate.take, hphase, if_neg hnow] using h
    | _ => simpa only [SendGate.take, hphase] using h
  | drop => exact h.finish hc (hcareful c hc).1 (hcareful c hc).2

lemma Calm.step (h : σ.Calm e) (hs : σ.Sound e) (a : SendAct) (hcareful : σ.Careful e a) :
    (σ.step e a).Calm e := by
  cases a with
  | tick elapsed =>
    have hnow : σ.now ≤ σ.now + elapsed := Nat.le_add_right _ _
    have hin : (σ.step e (.tick elapsed)).InFlood → σ.InFlood :=
      fun ⟨until_, huntil, hlt⟩ => ⟨until_, huntil, Nat.lt_of_le_of_lt hnow hlt⟩
    refine ⟨fun t ht => (h.past t ht).trans hnow, h.marked, fun hfl => h.alone (hfl.imp_left hin), ?_,
      fun hlt => h.banned (Nat.lt_of_le_of_lt hnow hlt), h.waited, h.spaced⟩
    intro hfl c hc at_ hat t ht
    cases hphase : c.phase with
    | sleeping until_ =>
      rw [hphase] at hat
      exact h.ready (hin hfl) c hc at_ (by rw [hphase]; exact hat) t ht
    | sending =>
      rw [hphase] at hat
      obtain rfl := Option.some.inj hat
      exact (h.ready (hin hfl) c hc σ.now (by rw [hphase]; rfl) t ht).trans hnow
    | _ =>
      rw [hphase] at hat
      cases hat
  | arrive =>
    have hold : ∀ d ∈ σ.calls ++ [⟨.arrived, 0, 0⟩], d.phase.Active → d ∈ σ.calls := by
      intro d hd hactive
      obtain hd | hd := List.mem_append.mp hd
      · exact hd
      · obtain rfl := List.mem_singleton.mp hd
        exact absurd hactive not_false
    have hat : ∀ (j : Nat) (d : SendCall), (σ.calls ++ [⟨.arrived, 0, 0⟩])[j]? = some d → d.phase.Active →
        σ.calls[j]? = some d := by
      intro j d hd hactive
      rw [List.getElem?_append] at hd
      split at hd
      · exact hd
      · obtain rfl := List.mem_singleton.mp (List.mem_of_getElem? hd)
        exact absurd hactive not_false
    have hflooded : (σ.step e .arrive).Flooded → σ.Flooded :=
      Or.imp_right fun ⟨d, hd, hsome⟩ => ⟨d, hold d hd (active_of_deadline hsome), hsome⟩
    refine ⟨h.past, ?_, ?_, ?_, ?_, h.waited, h.spaced⟩
    · exact fun hnone => h.marked fun d hd => hnone d (List.mem_append_left _ hd)
    · intro hfl j k d d' hd hd' hactive hactive'
      exact h.alone (hflooded hfl) j k d d' (hat j d hd hactive) (hat k d' hd' hactive') hactive hactive'
    · intro hfl d hd at_ hready
      exact h.ready hfl d (hold d hd (active_of_readyAt hready)) at_ hready
    · intro hnow
      obtain ⟨d, hd, hrest⟩ := h.banned hnow
      exact ⟨d, List.mem_append_left _ hd, hrest⟩
  | call i a =>
    simp only [SendGate.step]
    cases hc : σ.calls[i]? with
    | none => exact h
    | some c => exact h.take hs hc a hcareful

lemma Calm.polite (h : σ.Calm e) (hs : σ.Sound e) : σ.Polite e where
  toBounded := hs.bounded
  waited := h.waited
  spaced := h.spaced
  alone hfl := by
    have hone : ∀ i ∈ σ.inFlight, ∀ j ∈ σ.inFlight, i = j := by
      intro i hi j hj
      obtain ⟨c, hc, hphase⟩ := mem_inFlight.mp hi
      obtain ⟨d, hd, hdphase⟩ := mem_inFlight.mp hj
      exact h.alone (.inl hfl) i j c d hc hd (by rw [hphase]; trivial) (by rw [hdphase]; trivial)
    have hnodup := inFlight_nodup σ
    cases hlist : σ.inFlight with
    | nil => exact Nat.zero_le 1
    | cons i rest =>
      rw [hlist] at hone hnodup
      have hrest : rest = [] := List.eq_nil_iff_forall_not_mem.mpr fun j hj =>
        (List.nodup_cons.mp hnodup).1 (hone i List.mem_cons_self j (List.mem_cons_of_mem i hj) ▸ hj)
      rw [hrest]
      exact Nat.le_refl 1

lemma polite_run (e : SendEnv) (acts : List SendAct) :
    Always (step e) (Bounded e) (SendGate.fresh e) acts ∧
      (AllOk (step e) (Careful e) (SendGate.fresh e) acts →
        Always (step e) (Polite e) (SendGate.fresh e) acts) := by
  have hbounded : ∀ pre, (run (step e) (SendGate.fresh e) pre).Sound e := fun pre =>
    run_invariant (fun _ a hs => hs.step a) (.fresh e) pre
  refine ⟨always_iff_prefixes.mpr fun pre _ => (hbounded pre).bounded, fun hok => ?_⟩
  have hcalm := always_of_allOk (P := fun σ => σ.Sound e ∧ σ.Calm e)
    (fun _ a h hcareful => ⟨h.1.step a, h.2.step h.1 a hcareful⟩) ⟨.fresh e, .fresh e⟩ hok
  exact hcalm.mono fun _ h => h.2.polite h.1

lemma Sound.careful_of_single (h : σ.Sound e) (hsingle : e.sendConcurrency = 1) {a : SendAct}
    (hdrop : ∀ i, a ≠ .call i .drop) : σ.Careful e a := by
  have hone : ∀ {i j : Nat} {c d : SendCall}, σ.calls[i]? = some c → σ.calls[j]? = some d → c.phase.Active →
      d.phase.Active → i = j := fun hc hd hactive hdactive =>
    h.fair.holder_unique (h.capacity.trans hsingle) (h.holding _ _ hc hactive) (h.holding _ _ hd hdactive)
  cases a with
  | tick elapsed => trivial
  | arrive => trivial
  | call i a =>
    cases a with
    | answer a subsecNanos =>
      intro c hc hphase _ j hne d hd hactive
      exact hne (hone hd hc hactive (by rw [hphase]; trivial))
    | pace =>
      intro c hc _ hi _
      have hmem : (i, c.slots) ∈ σ.sem.users := List.mem_append_left _ (h.holds hc hi)
      have hpos := h.fair.wants _ hmem
      have hle := h.fair.within _ hmem
      rw [h.capacity, hsingle] at hle
      rw [hsingle]
      exact Nat.le_antisymm hle hpos
    | drop => exact absurd rfl (hdrop i)
    | _ => trivial

/-- With one slot the gate keeps its promise where no call is dropped. -/
theorem polite_of_single (e : SendEnv) (hsingle : e.sendConcurrency = 1) (acts : List SendAct)
    (hdrop : ∀ a ∈ acts, ∀ i, a ≠ .call i .drop) : Always (step e) (Polite e) (SendGate.fresh e) acts := by
  have hkeep : ∀ σ a, σ.Sound e ∧ σ.Calm e → (∀ i, a ≠ .call i .drop) →
      (step e σ a).Sound e ∧ (step e σ a).Calm e :=
    fun _ a h hok => ⟨h.1.step a, h.2.step h.1 a (h.1.careful_of_single hsingle hok)⟩
  have hkept : Always (step e) (fun σ => σ.Sound e ∧ σ.Calm e) (SendGate.fresh e) acts :=
    always_of_allOk (s := .fresh e) hkeep ⟨.fresh e, .fresh e⟩ (allOk_of_forall hdrop)
  exact hkept.mono fun _ h => h.2.polite h.1

/-- Telegram asks the first of two calls to wait for five seconds. -/
def oneSlotRun : List SendAct :=
  [.arrive, .arrive, .call 0 .sample, .call 0 .enqueue, .call 1 .sample, .call 1 .enqueue, .call 0 .pace,
    .call 0 .start, .call 1 .pace, .call 0 (.answer (.response 429 "retry after 5".toList) none),
    .tick (6 * second), .call 0 .noteFlood, .tick (7 * second), .call 0 .start,
    .call 0 (.answer (.response 200 []) none), .call 0 .markOk, .call 1 .pace]

theorem oneSlotRun_polite : Always (step ⟨none, none, some 1⟩) (Polite ⟨none, none, some 1⟩)
    (SendGate.fresh ⟨none, none, some 1⟩) oneSlotRun :=
  polite_of_single ⟨none, none, some 1⟩ rfl oneSlotRun (by simp [oneSlotRun])

end SendGate

/-! ## The gates of all chats -/

/-- The key of a gate (Rust `format!("{token}:{chat_id}")`). -/
def sendKey (token : List Char) (chatId : Int) : List Char :=
  token ++ ':' :: decimal chatId

lemma sendKey_inj {token token' : List Char} {chatId chatId' : Int} :
    sendKey token chatId = sendKey token' chatId' ↔ token = token' ∧ chatId = chatId' := by
  have hsplit : ∀ token chatId, rsplitOnce ':' (sendKey token chatId) = some (token, decimal chatId) := by
    intro token chatId
    refine rsplitOnce_append fun hmem => ?_
    exact (mem_decimal hmem).elim (absurd · (by decide)) (absurd · (by decide))
  constructor
  · intro h
    have heq := (hsplit token chatId).symm.trans ((congrArg (rsplitOnce ':') h).trans (hsplit token' chatId'))
    obtain ⟨htoken, hchat⟩ := Prod.mk.inj (Option.some.inj heq)
    exact ⟨htoken, decimal_injective hchat⟩
  · rintro ⟨rfl, rfl⟩
    rfl

inductive GatesAct where
  | tick (elapsed : Nat)
  | arrive (token : List Char) (chatId : Int)
  | call (token : List Char) (chatId : Int) (i : Nat) (a : SendStep)

def GatesAct.route : GatesAct → FamilyAct (List Char) SendAct
  | .tick elapsed => .all (.tick elapsed)
  | .arrive token chatId => .one (sendKey token chatId) .arrive
  | .call token chatId i a => .one (sendKey token chatId) (.call i a)

def GatesAct.at? (token : List Char) (chatId : Int) : GatesAct → Option SendAct
  | .tick elapsed => some (.tick elapsed)
  | .arrive token' chatId' => if token' = token ∧ chatId' = chatId then some .arrive else none
  | .call token' chatId' i a => if token' = token ∧ chatId' = chatId then some (.call i a) else none

lemma GatesAct.at?_route (token : List Char) (chatId : Int) (a : GatesAct) :
    a.route.at? (sendKey token chatId) = a.at? token chatId := by
  cases a with
  | tick elapsed => rfl
  | arrive token' chatId' => simp only [route, FamilyAct.at?, at?, sendKey_inj]
  | call token' chatId' i a => simp only [route, FamilyAct.at?, at?, sendKey_inj]

/-- Rust `send_gates`: a gate is made when it is first asked for. -/
def stepGates (e : SendEnv) (gates : List Char → SendGate) (a : GatesAct) : List Char → SendGate :=
  stepFamily (SendGate.step e) gates a.route

lemma run_stepGates (e : SendEnv) (gates : List Char → SendGate) (acts : List GatesAct) (token : List Char)
    (chatId : Int) : run (stepGates e) gates acts (sendKey token chatId) =
      run (SendGate.step e) (gates (sendKey token chatId)) (acts.filterMap (GatesAct.at? token chatId)) := by
  have hmap : run (stepGates e) gates acts =
      run (stepFamily (SendGate.step e)) gates (acts.map GatesAct.route) := by
    unfold run
    rw [List.foldl_map]
    rfl
  rw [hmap, run_stepFamily, List.filterMap_map]
  congr 2
  exact funext (GatesAct.at?_route token chatId)

/-- In every run the gate of a token and chat does what its own calls make of it, never has more of them send
    than there are slots, and is never waited at while it is free; and in every run that is careful there it
    keeps the rest of its promise. -/
theorem gate_polite (e : SendEnv) (acts : List GatesAct) (token : List Char) (chatId : Int) :
    let own := acts.filterMap (GatesAct.at? token chatId)
    run (stepGates e) (fun _ => .fresh e) acts (sendKey token chatId) =
        run (SendGate.step e) (.fresh e) own ∧
      Always (SendGate.step e) (SendGate.Bounded e) (.fresh e) own ∧
      (AllOk (SendGate.step e) (SendGate.Careful e) (.fresh e) own →
        Always (SendGate.step e) (SendGate.Polite e) (.fresh e) own) :=
  ⟨run_stepGates e _ acts token chatId, SendGate.polite_run e _⟩

/-! ### A flood with the default slots -/

def plainEnv : SendEnv := ⟨none, none, none⟩

def sendUp (token : List Char) (chatId : Int) (i : Nat) : List GatesAct :=
  [.arrive token chatId, .call token chatId i .sample, .call token chatId i .enqueue,
    .call token chatId i .pace, .call token chatId i .start]

/-- Telegram asks the first call to a chat to wait for thirty seconds, which it does. -/
def floodFirst (token : List Char) (chatId : Int) : List GatesAct :=
  sendUp token chatId 0 ++
    [.call token chatId 0 (.answer (.response 429 "Too Many Requests: retry after 30".toList) (some 0))]

/-- It is accepted then, and another call takes its distance. -/
def sendOn (token : List Char) (chatId : Int) : List GatesAct :=
  [.tick (30 * second), .call token chatId 0 .noteFlood, .tick (7 * second), .call token chatId 0 .start,
    .tick second, .call token chatId 0 (.answer (.response 200 []) none)] ++
  sendUp token chatId 1 ++
  [.call token chatId 0 .markOk, .call token chatId 1 .pace, .tick (3 * second), .call token chatId 1 .start]

/-- A chat that has to wait, and one that sends meanwhile. -/
def twoChats : List GatesAct :=
  floodFirst "123:abc".toList (-100) ++ sendUp "123:abc".toList (-200) 0 ++ sendOn "123:abc".toList (-100)

theorem twoChats_polite :
    Always (SendGate.step plainEnv) (SendGate.Polite plainEnv) (.fresh plainEnv)
      (twoChats.filterMap (GatesAct.at? "123:abc".toList (-100))) :=
  (gate_polite plainEnv twoChats "123:abc".toList (-100)).2.2 (by decide +kernel)

/-- Telegram asks a call to wait for thirty seconds, and a second later another call to the chat sends. -/
def sendInto : List GatesAct :=
  floodFirst "123:abc".toList (-100) ++ [.tick second] ++ sendUp "123:abc".toList (-100) 1

/-- It starts twenty-nine seconds early. -/
theorem sendInto_early :
    ¬∀ (e : SendEnv) (acts : List GatesAct) token chatId, Always (SendGate.step e) (SendGate.Polite e) (.fresh e)
      (acts.filterMap (GatesAct.at? token chatId)) := by
  intro h
  have hwaited := (h plainEnv sendInto "123:abc".toList (-100)).last.waited ⟨second, 30 * second, false, none⟩
    (by decide +kernel)
  exact absurd hwaited (by decide)

end Sarca.Server
