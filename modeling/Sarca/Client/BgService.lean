import Sarca.Lib.Run

/-!
# The foreground service of the phone

`bg_service.rs` keeps what was last asked of the service (`wanted`) and the number of passes in flight, and
sends a command to the phone when either changes. Every command goes through a thread of its own, so they
arrive in any order; a start is carried out later, or refused, and a stop acts on a service that is there.

`FollowsAtRest` is what should hold when nothing is on its way, and `StepOk` what a step has to meet for it:
commands of one kind arrive in their order, a stop arrives when the start before it has run, and a start is not
refused on top of one that was accepted (`service_follows`).
-/

namespace Sarca.Client.BgService
open Sarca.Lib

/-- The states of `wanted`. -/
inductive Wanted where
  | unknown
  | stopped
  | running
deriving DecidableEq, Repr

inductive Command where
  | start
  | stop
  | setBusy (busy : Bool)
deriving DecidableEq, Repr

/-- The command is one to start or stop the service. -/
def Command.isRun : Command → Bool
  | .start | .stop => true
  | .setBusy _ => false

def Command.busy? : Command → Option Bool
  | .start | .stop => none
  | .setBusy busy => some busy

/-- What became of the last command to start or stop. -/
inductive Fate where
  | accepted
  | refused
  | stopped
deriving DecidableEq, Repr

/-- `BgService`, the threads of `call`, and `SyncForegroundService`. `asked` and `last` are noted for the
    statements. -/
structure BgState where
  wanted : Wanted
  guards : Nat
  /-- the threads whose command has not arrived, in the order they were started -/
  threads : List Command
  /-- the threads whose start was refused, before their `compare_exchange` -/
  refusals : Nat
  driven : Bool
  /-- there is an instance of the service -/
  service : Bool
  /-- the starts whose `onStartCommand` has not run -/
  starts : Nat
  busy : Bool
  /-- the instance holds its locks -/
  locks : Bool
  asked : Option Bool
  last : Option Fate
deriving DecidableEq, Repr

namespace BgState

def new : BgState where
  wanted := .unknown
  guards := 0
  threads := []
  refusals := 0
  driven := false
  service := false
  starts := 0
  busy := false
  locks := false
  asked := none
  last := none

def call (σ : BgState) (command : Command) : BgState :=
  { σ with threads := σ.threads ++ [command] }

def setRunning (σ : BgState) (on : Bool) : BgState :=
  let next := if on then Wanted.running else .stopped
  let σ' := { σ with wanted := next, asked := some on }
  if σ.wanted ≠ next then σ'.call (if on then .start else .stop) else σ'

/-- Rust `busy`, which takes a guard. -/
def takeGuard (σ : BgState) : BgState :=
  let σ' := { σ with guards := σ.guards + 1 }
  if σ.guards = 0 then σ'.call (.setBusy true) else σ'

/-- Rust `BusyGuard::drop`. -/
def dropGuard (σ : BgState) : BgState :=
  let σ' := { σ with guards := σ.guards - 1 }
  if σ.guards = 1 then σ'.call (.setBusy false) else σ'

/-- A command on the main looper; `refused` is what becomes of a start. -/
def arrive (σ : BgState) (refused : Bool) : Command → BgState
  | .start =>
    if refused then { σ with driven := true, refusals := σ.refusals + 1, last := some .refused }
    else { σ with driven := true, starts := σ.starts + 1, last := some .accepted }
  | .stop =>
    if σ.service then { σ with service := false, locks := false, last := some .stopped }
    else { σ with last := some .stopped }
  | .setBusy busy => { σ with busy := busy, locks := if σ.service then busy else σ.locks }

def deliver (σ : BgState) (i : Nat) (refused : Bool) : BgState :=
  match σ.threads[i]? with
  | none => σ
  | some command => { σ with threads := σ.threads.eraseIdx i }.arrive refused command

/-- The `compare_exchange` behind a refused start. -/
def noteRefusal (σ : BgState) : BgState :=
  if σ.refusals = 0 then σ
  else
    { σ with
      refusals := σ.refusals - 1
      wanted := if σ.wanted = .running then .unknown else σ.wanted }

/-- `onCreate`, where there is no instance, and `onStartCommand`. -/
def runStart (σ : BgState) : BgState :=
  if σ.starts = 0 then σ
  else if σ.driven then { σ with starts := σ.starts - 1, service := true, locks := σ.busy }
  else { σ with starts := σ.starts - 1, service := false, locks := false }

end BgState

inductive Step where
  | setRunning (on : Bool)
  | takeGuard
  | dropGuard
  | deliver (i : Nat) (refused : Bool)
  | noteRefusal
  | runStart
deriving DecidableEq, Repr

def step (σ : BgState) : Step → BgState
  | .setRunning on => σ.setRunning on
  | .takeGuard => σ.takeGuard
  | .dropGuard => if σ.guards = 0 then σ else σ.dropGuard
  | .deliver i refused => σ.deliver i refused
  | .noteRefusal => σ.noteRefusal
  | .runStart => σ.runStart

/-- The commands to start and stop that are on their way. -/
def BgState.runs (σ : BgState) : List Command :=
  σ.threads.filter Command.isRun

/-- The service does what was asked for last, unless its start was refused and is sent again when it is asked
    for; the flag and the locks go with the guards. -/
structure Follows (σ : BgState) : Prop where
  running : σ.service = true ↔ σ.asked = some true ∧ σ.last ≠ some .refused
  retried : σ.asked = some true → σ.last = some .refused → .start ∈ (σ.setRunning true).threads
  busy : σ.busy = true ↔ 0 < σ.guards
  locks : σ.locks = true ↔ σ.service = true ∧ 0 < σ.guards

def FollowsAtRest (σ : BgState) : Prop :=
  σ.threads = [] → σ.starts = 0 → σ.refusals = 0 → Follows σ

/-- A command arrives behind those of its kind, a stop behind the start that is to run, and a start is refused
    only where none is in effect. -/
def StepOk (σ : BgState) : Step → Prop
  | .deliver i refused => ∀ command ∈ σ.threads[i]?,
    (∀ earlier ∈ σ.threads.take i, earlier.isRun ≠ command.isRun) ∧ (command = .stop → σ.starts = 0) ∧
      (command = .start → refused = true → σ.last ≠ some .accepted)
  | _ => True

instance StepOk.decidable (σ : BgState) : (s : Step) → Decidable (StepOk σ s)
  | .deliver i refused => decideMem σ.threads[i]? fun command =>
    (∀ earlier ∈ σ.threads.take i, earlier.isRun ≠ command.isRun) ∧ (command = .stop → σ.starts = 0) ∧
      (command = .start → refused = true → σ.last ≠ some .accepted)
  | .setRunning _ | .takeGuard | .dropGuard | .noteRefusal | .runStart => instDecidableTrue

/-- What arrived last stands for the command behind which the others are sent. -/
def BgState.line (σ : BgState) : List Command :=
  (if σ.last = some .accepted then .start else .stop) :: σ.runs

/-- Whether the flag is set, and the changes of it that are on their way. -/
def BgState.marks (σ : BgState) : List Bool :=
  σ.busy :: σ.threads.filterMap Command.busy?

/-- What is kept of `wanted`: the command sent last, or the start that was refused. -/
def BgState.Sent (σ : BgState) : Prop :=
  match σ.wanted with
  | .running => σ.asked = some true ∧
    (σ.line.getLast? = some .start ∨ σ.runs = [] ∧ σ.last = some .refused ∧ 0 < σ.refusals)
  | .stopped => σ.asked = some false ∧ σ.line.getLast? = some .stop
  | .unknown => σ.asked = none ∧ σ.runs = [] ∧ σ.last = none ∨ σ.asked = some true ∧
    (σ.line.getLast? = some .start ∨ σ.runs = [] ∧ σ.last = some .refused)

/-- The invariant of a run whose steps meet `StepOk`. -/
structure Sound (σ : BgState) : Prop where
  sent : σ.Sent
  accepted : σ.last = some .accepted → σ.service = true ∨ 0 < σ.starts
  idle : σ.last ≠ some .accepted → σ.service = false ∧ σ.starts = 0
  driven : 0 < σ.starts → σ.driven = true
  locks : σ.locks = (σ.service && σ.busy)
  marked : σ.marks.getLast? = some (decide (0 < σ.guards))

lemma Sound.new : Sound BgState.new where
  sent := Or.inl ⟨rfl, rfl, rfl⟩
  accepted := nofun
  idle := fun _ => ⟨rfl, rfl⟩
  driven := nofun
  locks := rfl
  marked := rfl

/-! ### Commands are sent -/

lemma runs_call (σ : BgState) (c : Command) : (σ.call c).runs = σ.runs ++ [c].filter Command.isRun :=
  List.filter_append ..

lemma marks_call (σ : BgState) (c : Command) : (σ.call c).marks = σ.marks ++ [c].filterMap Command.busy? := by
  rw [BgState.marks, BgState.marks, BgState.call, List.filterMap_append, List.cons_append]

lemma line_call (σ : BgState) {c : Command} (hc : c.isRun = true) : (σ.call c).line = σ.line ++ [c] := by
  have h : [c].filter Command.isRun = [c] := List.filter_cons_of_pos hc
  rw [BgState.line, BgState.line, runs_call, h, List.cons_append]
  rfl

lemma runs_setBusy (σ : BgState) (busy : Bool) : (σ.call (.setBusy busy)).runs = σ.runs := by
  rw [runs_call, List.filter_cons_of_neg Bool.false_ne_true, List.filter_nil, List.append_nil]

lemma line_setBusy (σ : BgState) (busy : Bool) : (σ.call (.setBusy busy)).line = σ.line :=
  congrArg (List.cons _) (runs_setBusy σ busy)

lemma setRunning_again {σ : BgState} {on : Bool} (h : σ.wanted = if on then .running else .stopped) :
    σ.setRunning on = { σ with wanted := if on then .running else .stopped, asked := some on } :=
  if_neg (not_not_intro h)

lemma setRunning_sends {σ : BgState} {on : Bool} (h : σ.wanted ≠ if on then .running else .stopped) :
    σ.setRunning on = BgState.call { σ with wanted := if on then .running else .stopped, asked := some on }
      (if on then .start else .stop) :=
  if_pos h

lemma Sound.setRunning {σ : BgState} (hσ : Sound σ) (on : Bool) : Sound (σ.setRunning on) := by
  by_cases h : σ.wanted = if on then .running else .stopped
  · rw [setRunning_again h]
    have hs := hσ.sent
    rw [BgState.Sent, h] at hs
    refine ⟨?_, hσ.accepted, hσ.idle, hσ.driven, hσ.locks, hσ.marked⟩
    cases on with
    | true => exact ⟨rfl, hs.2⟩
    | false => exact ⟨rfl, hs.2⟩
  · rw [setRunning_sends h]
    have hr : Command.isRun (if on then .start else .stop) = true := by cases on <;> rfl
    have hl := line_call { σ with wanted := if on then .running else .stopped, asked := some on } hr
    have hm : Command.busy? (if on then .start else .stop) = none := by cases on <;> rfl
    refine ⟨?_, hσ.accepted, hσ.idle, hσ.driven, hσ.locks, ?_⟩
    · cases on with
      | true => exact ⟨rfl, Or.inl (by rw [hl]; exact List.getLast?_concat ..)⟩
      | false => exact ⟨rfl, by rw [hl]; exact List.getLast?_concat ..⟩
    · rw [marks_call, List.filterMap_cons_none hm, List.filterMap_nil, List.append_nil]
      exact hσ.marked

lemma Sound.call_setBusy {σ : BgState} (hσ : Sound σ) {n : Nat} {b : Bool} (h : b = decide (0 < n)) :
    Sound (BgState.call { σ with guards := n } (.setBusy b)) where
  sent := by
    have hr := runs_setBusy { σ with guards := n } b
    have hl := line_setBusy { σ with guards := n } b
    rw [BgState.Sent, hl, hr]
    exact hσ.sent
  accepted := hσ.accepted
  idle := hσ.idle
  driven := hσ.driven
  locks := hσ.locks
  marked := by
    rw [marks_call]
    exact (List.getLast?_concat ..).trans (congrArg some h)

lemma Sound.takeGuard {σ : BgState} (hσ : Sound σ) : Sound σ.takeGuard := by
  rw [BgState.takeGuard]
  split
  case isTrue h => exact hσ.call_setBusy (decide_eq_true (Nat.succ_pos _)).symm
  case isFalse h =>
    refine ⟨hσ.sent, hσ.accepted, hσ.idle, hσ.driven, hσ.locks, ?_⟩
    refine hσ.marked.trans (congrArg some ?_)
    exact decide_eq_decide.mpr ⟨fun _ => Nat.succ_pos _, fun _ => Nat.pos_of_ne_zero h⟩

lemma Sound.dropGuard {σ : BgState} (hσ : Sound σ) : Sound σ.dropGuard := by
  rw [BgState.dropGuard]
  split
  case isTrue h => exact hσ.call_setBusy (by rw [h]; rfl)
  case isFalse h =>
    refine ⟨hσ.sent, hσ.accepted, hσ.idle, hσ.driven, hσ.locks, ?_⟩
    refine hσ.marked.trans (congrArg some (decide_eq_decide.mpr ?_))
    show 0 < σ.guards ↔ 0 < σ.guards - 1
    omega

/-! ### Commands arrive -/

section Arrival
variable {threads : List Command} {i : Nat} {c : Command}

lemma threads_split (h : threads[i]? = some c) :
    threads = threads.take i ++ c :: threads.drop (i + 1) := by
  obtain ⟨hi, rfl⟩ := List.getElem?_eq_some_iff.mp h
  rw [← List.drop_eq_getElem_cons hi, List.take_append_drop]

lemma filter_arrival (h : threads[i]? = some c) (hok : ∀ a ∈ threads.take i, a.isRun ≠ c.isRun) :
    threads.filter Command.isRun = [c].filter Command.isRun ++ (threads.eraseIdx i).filter Command.isRun := by
  rw [List.eraseIdx_eq_take_drop_succ]
  conv_lhs => rw [threads_split h]
  rw [List.filter_append, List.filter_append, List.filter_cons]
  cases hc : c.isRun with
  | true =>
    have : (threads.take i).filter Command.isRun = [] :=
      List.filter_eq_nil_iff.mpr fun a ha hr => hok a ha (hr.trans hc.symm)
    simp [this, hc]
  | false => simp [hc]

lemma filterMap_arrival (h : threads[i]? = some c) (hok : ∀ a ∈ threads.take i, a.isRun ≠ c.isRun) :
    threads.filterMap Command.busy? =
      [c].filterMap Command.busy? ++ (threads.eraseIdx i).filterMap Command.busy? := by
  rw [List.eraseIdx_eq_take_drop_succ]
  conv_lhs => rw [threads_split h]
  rw [List.filterMap_append, List.filterMap_append, List.filterMap_cons]
  cases c with
  | start => simp [Command.busy?]
  | stop => simp [Command.busy?]
  | setBusy busy =>
    have : (threads.take i).filterMap Command.busy? = [] := by
      refine List.filterMap_eq_nil_iff.mpr fun a ha => ?_
      have := hok a ha
      cases a with
      | start => rfl
      | stop => rfl
      | setBusy _ => exact absurd rfl this
    simp [this, Command.busy?]

end Arrival

variable {σ σ' : BgState} {c : Command}

/-- The command at the head of those on their way takes its place in the line, or leaves a stop's there. -/
structure Arrived (σ σ' : BgState) (c : Command) : Prop where
  runs : σ.runs = c :: σ'.runs
  wanted : σ'.wanted = σ.wanted
  asked : σ'.asked = σ.asked
  line : σ'.line = c :: σ'.runs ∨ c = .start ∧ σ'.last = some .refused ∧ 0 < σ'.refusals

lemma line_of_refused (h : σ.last = some .refused) : σ.line = .stop :: σ.runs := by
  rw [BgState.line, h]
  rfl

lemma Arrived.last_start (h : Arrived σ σ' c) (hl : (c :: σ'.runs).getLast? = some .start) :
    σ'.line.getLast? = some .start ∨ σ'.runs = [] ∧ σ'.last = some .refused ∧ 0 < σ'.refusals := by
  rcases h.line with hc | ⟨-, hc, hn⟩
  · rw [hc]
    exact Or.inl hl
  · cases hr : σ'.runs with
    | nil => exact Or.inr ⟨rfl, hc, hn⟩
    | cons d rest =>
      rw [hr, List.getLast?_cons_cons] at hl
      rw [line_of_refused hc, hr, List.getLast?_cons_cons]
      exact Or.inl hl

lemma Arrived.last_stop (h : Arrived σ σ' c) (hl : (c :: σ'.runs).getLast? = some .stop) :
    σ'.line.getLast? = some .stop := by
  rcases h.line with hc | ⟨rfl, hc, -⟩
  · rw [hc]
    exact hl
  · cases hr : σ'.runs with
    | nil =>
      rw [hr] at hl
      exact absurd hl (by decide)
    | cons d rest =>
      rw [hr, List.getLast?_cons_cons] at hl
      rw [line_of_refused hc, hr, List.getLast?_cons_cons]
      exact hl

lemma Sound.sent_arrival (hσ : Sound σ) (h : Arrived σ σ' c) : σ'.Sent := by
  have hs := hσ.sent
  have hl : σ.line.getLast? = (c :: σ'.runs).getLast? := by
    rw [BgState.line, h.runs, List.getLast?_cons_cons]
  rw [BgState.Sent, hl, h.runs] at hs
  rw [BgState.Sent, h.wanted, h.asked]
  cases hw : σ.wanted with
  | running =>
    rw [hw] at hs
    obtain ⟨ha, hs | ⟨hn, -⟩⟩ := hs
    · exact ⟨ha, h.last_start hs⟩
    · exact absurd hn (List.cons_ne_nil _ _)
  | stopped =>
    rw [hw] at hs
    exact ⟨hs.1, h.last_stop hs.2⟩
  | unknown =>
    rw [hw] at hs
    obtain ⟨-, hn, -⟩ | ⟨ha, hs | ⟨hn, -⟩⟩ := hs
    · exact absurd hn (List.cons_ne_nil _ _)
    · exact Or.inr ⟨ha, (h.last_start hs).imp_right fun ⟨hr, hf, _⟩ => ⟨hr, hf⟩⟩
    · exact absurd hn (List.cons_ne_nil _ _)

lemma arrive_stop (h : σ.locks = (σ.service && σ.busy)) (refused : Bool) :
    σ.arrive refused .stop = { σ with service := false, locks := false, last := some .stopped } := by
  rw [BgState.arrive]
  split
  case isTrue => rfl
  case isFalse hs =>
    have hs := Bool.eq_false_iff.mpr hs
    rw [hs, Bool.false_and] at h
    rw [hs, h]

lemma Sound.deliver (hσ : Sound σ) {i : Nat} {refused : Bool} (hok : StepOk σ (.deliver i refused)) :
    Sound (σ.deliver i refused) := by
  rw [BgState.deliver]
  cases h : σ.threads[i]? with
  | none => exact hσ
  | some c =>
    obtain ⟨hfirst, hstop, hstart⟩ := hok c h
    have hr := filter_arrival h hfirst
    have hm : σ.marks = σ.busy :: ([c].filterMap Command.busy? ++ _) :=
      congrArg (List.cons _) (filterMap_arrival h hfirst)
    have hmarked := hσ.marked
    rw [hm] at hmarked
    cases c with
    | start =>
      cases refused with
      | true =>
        have ha : Arrived σ (BgState.arrive { σ with threads := σ.threads.eraseIdx i } true .start) .start :=
          ⟨hr, rfl, rfl, Or.inr ⟨rfl, rfl, Nat.succ_pos _⟩⟩
        exact ⟨hσ.sent_arrival ha, nofun, fun _ => hσ.idle (hstart rfl rfl), fun _ => rfl, hσ.locks, hmarked⟩
      | false =>
        have ha : Arrived σ (BgState.arrive { σ with threads := σ.threads.eraseIdx i } false .start) .start :=
          ⟨hr, rfl, rfl, Or.inl rfl⟩
        exact ⟨hσ.sent_arrival ha, fun _ => Or.inr (Nat.succ_pos _), fun h => absurd rfl h, fun _ => rfl,
          hσ.locks, hmarked⟩
    | stop =>
      have hl := arrive_stop (σ := { σ with threads := σ.threads.eraseIdx i }) hσ.locks refused
      have ha : Arrived σ (BgState.arrive { σ with threads := σ.threads.eraseIdx i } refused .stop) .stop := by
        rw [hl]
        exact ⟨hr, rfl, rfl, Or.inl rfl⟩
      have hsent := hσ.sent_arrival ha
      show Sound (BgState.arrive { σ with threads := σ.threads.eraseIdx i } refused .stop)
      rw [hl] at hsent ⊢
      exact ⟨hsent, nofun, fun _ => ⟨rfl, hstop rfl⟩, hσ.driven, rfl, hmarked⟩
    | setBusy busy =>
      have hruns : (BgState.arrive { σ with threads := σ.threads.eraseIdx i } refused
          (.setBusy busy)).runs = σ.runs := hr.symm
      refine ⟨?_, hσ.accepted, hσ.idle, hσ.driven, ?_, ?_⟩
      · have hs := hσ.sent
        rw [BgState.Sent, BgState.line, ← hruns] at hs
        exact hs
      · show (if σ.service then busy else σ.locks) = (σ.service && busy)
        have hl := hσ.locks
        cases hs : σ.service with
        | true => rfl
        | false =>
          rw [hs, Bool.false_and] at hl
          exact hl
      · exact List.getLast?_cons_cons ▸ hmarked

/-! ### The other steps -/

lemma Sound.noteRefusal (hσ : Sound σ) : Sound σ.noteRefusal := by
  rw [BgState.noteRefusal]
  split
  case isTrue => exact hσ
  case isFalse =>
    refine ⟨?_, hσ.accepted, hσ.idle, hσ.driven, hσ.locks, hσ.marked⟩
    have hs := hσ.sent
    rw [BgState.Sent] at hs ⊢
    cases hw : σ.wanted with
    | running =>
      rw [hw] at hs
      obtain ⟨ha, hl | ⟨hr, hl, -⟩⟩ := hs
      · exact Or.inr ⟨ha, Or.inl hl⟩
      · exact Or.inr ⟨ha, Or.inr ⟨hr, hl⟩⟩
    | stopped =>
      rw [hw] at hs
      exact hs
    | unknown =>
      rw [hw] at hs
      exact hs

lemma Sound.runStart (hσ : Sound σ) : Sound σ.runStart := by
  rw [BgState.runStart]
  split
  case isTrue => exact hσ
  case isFalse h =>
    rw [if_pos (hσ.driven (Nat.pos_of_ne_zero h))]
    refine ⟨hσ.sent, fun _ => Or.inl rfl, fun hl => ?_, fun hn => ?_, ?_, hσ.marked⟩
    · exact absurd (hσ.idle hl).2 h
    · exact hσ.driven (Nat.pos_of_ne_zero h)
    · exact (Bool.true_and σ.busy).symm

lemma Sound.step (hσ : Sound σ) (s : Step) (hok : StepOk σ s) : Sound (step σ s) := by
  cases s with
  | setRunning on => exact hσ.setRunning on
  | takeGuard => exact hσ.takeGuard
  | dropGuard =>
    rw [BgService.step]
    split
    case isTrue => exact hσ
    case isFalse => exact hσ.dropGuard
  | deliver i refused => exact hσ.deliver hok
  | noteRefusal => exact hσ.noteRefusal
  | runStart => exact hσ.runStart

/-! ### At rest -/

lemma Sound.service_iff (hσ : Sound σ) (hs : σ.starts = 0) : σ.service = true ↔ σ.last = some .accepted := by
  constructor
  · intro h
    by_contra hl
    rw [(hσ.idle hl).1] at h
    exact Bool.false_ne_true h
  · intro h
    exact (hσ.accepted h).resolve_right (hs ▸ Nat.lt_irrefl 0)

lemma line_start (h : σ.runs = []) : σ.line.getLast? = some .start ↔ σ.last = some .accepted := by
  rw [BgState.line, h]
  split
  case isTrue hl => exact iff_of_true rfl hl
  case isFalse hl => exact iff_of_false (by decide) hl

/-- What `wanted` knows then: the start was accepted, the service is not wanted, or the next `set_running`
    sends its command. -/
lemma Sound.at_rest (hσ : Sound σ) (ht : σ.threads = []) (hr : σ.refusals = 0) :
    σ.asked = some true ∧ σ.last = some .accepted ∨ σ.asked ≠ some true ∧ σ.last ≠ some .accepted ∨
      σ.wanted = .unknown ∧ σ.asked = some true ∧ σ.last = some .refused := by
  have hruns : σ.runs = [] := by rw [BgState.runs, ht, List.filter_nil]
  have hsent := hσ.sent
  rw [BgState.Sent] at hsent
  cases hw : σ.wanted with
  | running =>
    rw [hw] at hsent
    obtain ⟨ha, hl | ⟨-, -, hn⟩⟩ := hsent
    · exact Or.inl ⟨ha, (line_start hruns).mp hl⟩
    · exact absurd hn (hr ▸ Nat.lt_irrefl 0)
  | stopped =>
    rw [hw] at hsent
    obtain ⟨ha, hl⟩ := hsent
    refine Or.inr (Or.inl ⟨ha ▸ by decide, fun h => ?_⟩)
    rw [(line_start hruns).mpr h] at hl
    exact absurd hl (by decide)
  | unknown =>
    rw [hw] at hsent
    obtain ⟨ha, -, hl⟩ | ⟨ha, hl | ⟨-, hl⟩⟩ := hsent
    · exact Or.inr (Or.inl ⟨ha ▸ by decide, hl ▸ by decide⟩)
    · exact Or.inl ⟨ha, (line_start hruns).mp hl⟩
    · exact Or.inr (Or.inr ⟨rfl, ha, hl⟩)

lemma Sound.busy_iff (hσ : Sound σ) (ht : σ.threads = []) : σ.busy = true ↔ 0 < σ.guards := by
  have hm := hσ.marked
  rw [BgState.marks, ht] at hm
  have hb : σ.busy = decide (0 < σ.guards) := Option.some.inj hm
  rw [hb]
  exact decide_eq_true_iff

lemma Sound.follows (hσ : Sound σ) : FollowsAtRest σ := by
  intro ht hs hr
  have hi := hσ.service_iff hs
  have hb := hσ.busy_iff ht
  refine ⟨?_, ?_, hb, ?_⟩
  · rw [hi]
    rcases hσ.at_rest ht hr with ⟨ha, hl⟩ | ⟨ha, hl⟩ | ⟨-, -, hl⟩
    · rw [ha, hl]
      decide
    · exact ⟨fun h => absurd h hl, fun h => absurd h.1 ha⟩
    · rw [hl]
      exact ⟨nofun, fun h => absurd rfl h.2⟩
  · intro ha hl
    rcases hσ.at_rest ht hr with ⟨-, h⟩ | ⟨h, -⟩ | ⟨hw, -, -⟩
    · exact absurd (h.symm.trans hl) (by decide)
    · exact absurd ha h
    · rw [@setRunning_sends σ true (by rw [hw]; decide)]
      exact List.mem_append_right _ (List.mem_singleton_self _)
  · rw [hσ.locks, Bool.and_eq_true, hb]

/-- The service follows what is wanted, in every run of commands that arrive in order. -/
theorem service_follows (steps : List Step) (hok : AllOk step StepOk BgState.new steps) :
    Always step FollowsAtRest BgState.new steps :=
  (always_of_allOk (fun _ s hσ hs => hσ.step s hs) Sound.new hok).mono fun _ hσ => hσ.follows

/-- A refused start that the next request sends again, a pass under way, and a stop at the end. -/
lemma service_follows_retry :
    Always step FollowsAtRest BgState.new
        [.setRunning true, .takeGuard, .deliver 0 true, .deliver 0 false, .noteRefusal, .setRunning true,
          .deliver 0 false, .runStart, .dropGuard, .setRunning false, .deliver 1 false, .deliver 0 false] ∧
      (run step BgState.new [.setRunning true, .takeGuard, .deliver 0 true, .deliver 0 false, .noteRefusal,
        .setRunning true, .deliver 0 false, .runStart]).locks = true :=
  ⟨service_follows _ (by decide), by decide⟩

/-- The stop arrives before the start, or before the start has run: the service stays. The flag cleared before
    it is set: the locks are held with no guard. -/
lemma service_strays :
    ¬ FollowsAtRest (run step BgState.new [.setRunning true, .setRunning false, .deliver 1 false,
        .deliver 0 false, .runStart]) ∧
      ¬ FollowsAtRest (run step BgState.new [.setRunning true, .deliver 0 false, .setRunning false,
        .deliver 0 false, .runStart]) ∧
      ¬ FollowsAtRest (run step BgState.new [.setRunning true, .deliver 0 false, .runStart, .takeGuard,
        .dropGuard, .deliver 1 false, .deliver 0 false]) := by
  refine ⟨fun h => ?_, fun h => ?_, fun h => ?_⟩
  · exact absurd ((h rfl rfl rfl).running.mp rfl).1 (by decide)
  · exact absurd ((h rfl rfl rfl).running.mp rfl).1 (by decide)
  · exact absurd ((h rfl rfl rfl).locks.mp rfl).2 (by decide)

end Sarca.Client.BgService
