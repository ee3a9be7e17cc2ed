import Mathlib.Logic.Function.Basic
import Sarca.Lib.Run
import Sarca.Lib.Semaphore

/-!
# The binding scheduler

`BindingScheduler::run` runs a body for a binding unless a run of the same binding is on its way. The binding
is marked before the call waits for a permit, and the mark is the guard's to remove, whichever way the call
ends: the body returns or panics, or the future is dropped, during the body or before it.

A call is named by its binding and a number. `Sound` ties the marks and the permits to where the calls stand.
-/

namespace Sarca.Client
open Sarca.Lib

/-- A call to `run`: its binding, and its number among the calls for that binding. -/
abbrev RunCall := String × Nat

inductive RunExit where
  /-- `None`: a run of the binding is in flight -/
  | skipped
  | returned
  | panicked
  /-- the future is dropped -/
  | cancelled
deriving DecidableEq, Repr

inductive RunPhase where
  | idle
  /-- the binding is in the map, and the guard is built -/
  | marked
  /-- `acquire_owned` waits, or has its permit -/
  | asked
  /-- the body has begun -/
  | running
  /-- the body is over, and the permit is not dropped yet -/
  | ended (exit : RunExit)
  /-- there is no permit, and the guard is not dropped yet -/
  | released (exit : RunExit)
  | over (exit : RunExit)
deriving DecidableEq, Repr

def RunPhase.guards : RunPhase → Bool
  | .idle | .over _ => false
  | _ => true

/-- The call has asked for a permit and not given it back. -/
def RunPhase.asks : RunPhase → Bool
  | .asked | .running | .ended _ => true
  | _ => false

def RunPhase.permitted : RunPhase → Bool
  | .running | .ended _ => true
  | _ => false

/-- Rust `BindingScheduler`, and the calls. -/
structure BindingScheduler where
  inFlight : List String
  slots : Semaphore RunCall
  phase : RunCall → RunPhase

inductive RunOp where
  /-- the test and the insertion, under the lock of the map -/
  | enter
  | acquire
  /-- the call sees its permit and polls the body -/
  | begin
  | finish (exit : RunExit)
  /-- the future is dropped in `acquire_owned` -/
  | cancel
  /-- the permit is dropped -/
  | release
  /-- the guard is dropped -/
  | unmark

structure RunAct where
  call : RunCall
  op : RunOp

namespace BindingScheduler

/-- Rust `BindingScheduler::new`. -/
def new (maxConcurrent : Nat) : BindingScheduler :=
  ⟨[], .idle (max 1 maxConcurrent), fun _ => .idle⟩

variable (σ : BindingScheduler)

def goOn (c : RunCall) (phase : RunPhase) : BindingScheduler :=
  { σ with phase := Function.update σ.phase c phase }

/-- Rust `run`, one step of one call; the semaphore is never closed. -/
def step (a : RunAct) : BindingScheduler :=
  match a.op, σ.phase a.call with
  | .enter, .idle =>
    if a.call.1 ∈ σ.inFlight then σ.goOn a.call (.over .skipped)
    else { σ.goOn a.call .marked with inFlight := a.call.1 :: σ.inFlight }
  | .acquire, .marked => { σ.goOn a.call .asked with slots := σ.slots.enqueue a.call 1 }
  | .begin, .asked => if σ.slots.Holds a.call then σ.goOn a.call .running else σ
  | .finish exit, .running => σ.goOn a.call (.ended exit)
  | .cancel, .asked => { σ.goOn a.call (.released .cancelled) with slots := σ.slots.leave a.call }
  | .release, .ended exit => { σ.goOn a.call (.released exit) with slots := σ.slots.leave a.call }
  | .unmark, .released exit => { σ.goOn a.call (.over exit) with inFlight := σ.inFlight.erase a.call.1 }
  | _, _ => σ

def Runs (c : RunCall) : Prop :=
  σ.phase c = .running

/-- A call is in progress: it has entered, and has not returned yet. -/
def InProgress (c : RunCall) : Prop :=
  (σ.phase c).guards = true

/-- The bodies of a binding run one at a time, no more bodies run than the limit says, a binding is skipped for
    a call in progress only, and calls that are over leave nothing behind. -/
structure Orderly (maxConcurrent : Nat) (σ : BindingScheduler) : Prop where
  alone : ∀ c d, σ.Runs c → σ.Runs d → c.1 = d.1 → c = d
  few : ∀ cs : List RunCall, cs.Nodup → (∀ c ∈ cs, σ.Runs c) → cs.length ≤ max 1 maxConcurrent
  skips : ∀ c, σ.phase c = .idle →
    ((σ.step ⟨c, .enter⟩).phase c = .over .skipped ↔ ∃ d, d.1 = c.1 ∧ σ.InProgress d)
  drained : (∀ c, ¬ σ.InProgress c) → σ.inFlight = [] ∧ σ.slots = .idle (max 1 maxConcurrent)

/-- The marks are those of the calls in progress, one for a binding, and the semaphore knows those that ask. -/
structure Sound (maxConcurrent : Nat) (σ : BindingScheduler) : Prop where
  once : σ.inFlight.Nodup
  marked : ∀ id, id ∈ σ.inFlight ↔ ∃ c, c.1 = id ∧ σ.InProgress c
  sole : ∀ c d, σ.InProgress c → σ.InProgress d → c.1 = d.1 → c = d
  fair : σ.slots.Fair
  capacity : σ.slots.capacity = max 1 maxConcurrent
  users : ∀ c, c ∈ σ.slots.users.map Prod.fst ↔ (σ.phase c).asks = true
  holds : ∀ c, (σ.phase c).permitted = true → σ.slots.Holds c

variable {σ : BindingScheduler} {maxConcurrent : Nat} {c d : RunCall} {phase : RunPhase}

@[simp] lemma goOn_inFlight : (σ.goOn c phase).inFlight = σ.inFlight := rfl

@[simp] lemma goOn_slots : (σ.goOn c phase).slots = σ.slots := rfl

@[simp] lemma goOn_self : (σ.goOn c phase).phase c = phase := by
  show Function.update σ.phase c phase c = phase
  rw [Function.update_self]

lemma goOn_other (h : d ≠ c) : (σ.goOn c phase).phase d = σ.phase d := by
  show Function.update σ.phase c phase d = σ.phase d
  rw [Function.update_of_ne h]

lemma RunPhase.guards_of_asks {p : RunPhase} (h : p.asks = true) : p.guards = true := by
  cases p with
  | asked | running | ended => rfl
  | _ => exact absurd h Bool.false_ne_true

lemma Sound.new (maxConcurrent : Nat) : Sound maxConcurrent (new maxConcurrent) where
  once := List.nodup_nil
  marked _ := iff_of_false List.not_mem_nil fun ⟨_, _, h⟩ => absurd h Bool.false_ne_true
  sole _ _ h := absurd h Bool.false_ne_true
  fair := .idle _
  capacity := rfl
  users _ := iff_of_false List.not_mem_nil Bool.false_ne_true
  holds _ h := absurd h Bool.false_ne_true

/-! ## What a step does -/

lemma Sound.serve (h : σ.Sound maxConcurrent) (hguards : phase.guards = (σ.phase c).guards)
    {slots : Semaphore RunCall} (hfair : slots.Fair) (hcapacity : slots.capacity = σ.slots.capacity)
    (hself : c ∈ slots.users.map Prod.fst ↔ phase.asks = true)
    (husers : ∀ d, d ≠ c → (d ∈ slots.users.map Prod.fst ↔ d ∈ σ.slots.users.map Prod.fst))
    (hholds : phase.permitted = true → slots.Holds c)
    (hkept : ∀ d, d ≠ c → σ.slots.Holds d → slots.Holds d) :
    Sound maxConcurrent { σ.goOn c phase with slots := slots } := by
  have hprogress : ∀ d, InProgress { σ.goOn c phase with slots := slots } d ↔ σ.InProgress d := by
    intro d
    show ((σ.goOn c phase).phase d).guards = true ↔ (σ.phase d).guards = true
    obtain rfl | hne := eq_or_ne d c
    · rw [goOn_self, hguards]
    · rw [goOn_other hne]
  constructor
  · exact h.once
  · intro id
    exact (h.marked id).trans (exists_congr fun d => and_congr_right' (hprogress d).symm)
  · intro d e hd he
    exact h.sole d e ((hprogress d).mp hd) ((hprogress e).mp he)
  · exact hfair
  · exact hcapacity.trans h.capacity
  · intro d
    show d ∈ slots.users.map Prod.fst ↔ ((σ.goOn c phase).phase d).asks = true
    obtain rfl | hne := eq_or_ne d c
    · rw [goOn_self]
      exact hself
    · rw [goOn_other hne]
      exact (husers d hne).trans (h.users d)
  · intro d hd
    change ((σ.goOn c phase).phase d).permitted = true at hd
    show slots.Holds d
    obtain rfl | hne := eq_or_ne d c
    · rw [goOn_self] at hd
      exact hholds hd
    · rw [goOn_other hne] at hd
      exact hkept d hne (h.holds d hd)

lemma Sound.mark (h : σ.Sound maxConcurrent) (hasks : (σ.phase c).asks = false) (hphase : phase.asks = false)
    (hpermitted : phase.permitted = false) {inFlight : List String} (honce : inFlight.Nodup)
    (hself : c.1 ∈ inFlight ↔ phase.guards = true) (hkept : ∀ id, id ≠ c.1 → (id ∈ inFlight ↔ id ∈ σ.inFlight))
    (hsole : ∀ d, σ.InProgress d → d.1 = c.1 → d = c) :
    Sound maxConcurrent { σ.goOn c phase with inFlight := inFlight } := by
  have hprogress : ∀ d, d ≠ c →
      (InProgress { σ.goOn c phase with inFlight := inFlight } d ↔ σ.InProgress d) := by
    intro d hne
    show ((σ.goOn c phase).phase d).guards = true ↔ (σ.phase d).guards = true
    rw [goOn_other hne]
  have hcall : InProgress { σ.goOn c phase with inFlight := inFlight } c ↔ phase.guards = true := by
    show ((σ.goOn c phase).phase c).guards = true ↔ _
    rw [goOn_self]
  constructor
  · exact honce
  · intro id
    obtain rfl | hid := eq_or_ne id c.1
    · constructor
      · intro hin
        exact ⟨c, rfl, hcall.mpr (hself.mp hin)⟩
      · rintro ⟨d, hd, hprog⟩
        obtain rfl | hne := eq_or_ne d c
        · exact hself.mpr (hcall.mp hprog)
        · exact absurd (hsole d ((hprogress d hne).mp hprog) hd) hne
    · refine (hkept id hid).trans ((h.marked id).trans (exists_congr fun d => and_congr_right ?_))
      rintro rfl
      exact (hprogress d fun heq => hid (congrArg Prod.fst heq)).symm
  · intro d e hd he hid
    obtain rfl | hdc := eq_or_ne d c
    · obtain rfl | hec := eq_or_ne e d
      · rfl
      · exact absurd (hsole e ((hprogress e hec).mp he) hid.symm) hec
    · obtain rfl | hec := eq_or_ne e c
      · exact absurd (hsole d ((hprogress d hdc).mp hd) hid) hdc
      · exact h.sole d e ((hprogress d hdc).mp hd) ((hprogress e hec).mp he) hid
  · exact h.fair
  · exact h.capacity
  · intro d
    show d ∈ σ.slots.users.map Prod.fst ↔ ((σ.goOn c phase).phase d).asks = true
    obtain rfl | hne := eq_or_ne d c
    · rw [goOn_self, hphase, ← hasks]
      exact h.users d
    · rw [goOn_other hne]
      exact h.users d
  · intro d hd
    change ((σ.goOn c phase).phase d).permitted = true at hd
    obtain rfl | hne := eq_or_ne d c
    · rw [goOn_self, hpermitted] at hd
      exact absurd hd Bool.false_ne_true
    · rw [goOn_other hne] at hd
      exact h.holds d hd

lemma Sound.leave (h : σ.Sound maxConcurrent) (hguards : (σ.phase c).guards = true) (exit : RunExit) :
    Sound maxConcurrent { σ.goOn c (.released exit) with slots := σ.slots.leave c } := by
  have hmem : ∀ d, d ∈ (σ.slots.leave c).users.map Prod.fst ↔ d ∈ σ.slots.users.map Prod.fst ∧ d ≠ c := by
    intro d
    rw [Semaphore.leave_users]
    constructor
    · rintro hd
      obtain ⟨w, hw, rfl⟩ := List.mem_map.mp hd
      obtain ⟨hw, hne⟩ := List.mem_filter.mp hw
      exact ⟨List.mem_map_of_mem hw, of_decide_eq_true hne⟩
    · rintro ⟨hd, hne⟩
      obtain ⟨w, hw, rfl⟩ := List.mem_map.mp hd
      exact List.mem_map_of_mem (List.mem_filter.mpr ⟨hw, decide_eq_true hne⟩)
  have hkeeps : (RunPhase.released exit).guards = (σ.phase c).guards := hguards.symm
  apply h.serve hkeeps (h.fair.leave c) (Semaphore.leave_capacity σ.slots c)
  · exact iff_of_false (fun hc => ((hmem c).mp hc).2 rfl) Bool.false_ne_true
  · intro d hne
    exact (hmem d).trans (and_iff_left hne)
  · intro hp
    exact absurd hp Bool.false_ne_true
  · intro d hne hd
    obtain ⟨w, hw, rfl⟩ := List.mem_map.mp hd
    exact List.mem_map_of_mem (Semaphore.mem_leave_held hw hne)

lemma Sound.idle_mark (h : σ.Sound maxConcurrent) : c.1 ∉ σ.inFlight ↔ ∀ d, σ.InProgress d → d.1 ≠ c.1 := by
  rw [h.marked]
  exact ⟨fun hnone d hd hid => hnone ⟨d, hid, hd⟩, fun hnone ⟨d, hid, hd⟩ => hnone d hd hid⟩

/-- What is true of the marks and the permits stays true. -/
lemma Sound.step (h : σ.Sound maxConcurrent) (a : RunAct) : (σ.step a).Sound maxConcurrent := by
  obtain ⟨c, op⟩ := a
  simp only [BindingScheduler.step]
  split
  case h_1 hphase =>
    have hasks : (σ.phase c).asks = false := by rw [hphase]; rfl
    split
    · have hguards : (RunPhase.over .skipped).guards = (σ.phase c).guards := by rw [hphase]; rfl
      have hnew : c ∉ σ.slots.users.map Prod.fst := by
        rw [h.users, hasks]
        exact Bool.false_ne_true
      exact h.serve hguards h.fair rfl (iff_of_false hnew Bool.false_ne_true) (fun _ _ => Iff.rfl)
        (fun hp => absurd hp Bool.false_ne_true) (fun _ _ hd => hd)
    · case isFalse hfree =>
      have hsole := h.idle_mark.mp hfree
      apply h.mark hasks rfl rfl (List.nodup_cons.mpr ⟨hfree, h.once⟩)
      · exact iff_of_true List.mem_cons_self rfl
      · intro id hid
        exact List.mem_cons.trans (or_iff_right hid)
      · exact fun d hd hid => absurd hid (hsole d hd)
  case h_2 hphase =>
    have hguards : RunPhase.asked.guards = (σ.phase c).guards := by rw [hphase]; rfl
    have hnew : c ∉ σ.slots.users.map Prod.fst := by
      rw [h.users, hphase]
      exact Bool.false_ne_true
    have hpermit : 1 ≤ σ.slots.capacity := h.capacity ▸ Nat.le_max_left 1 maxConcurrent
    have husers : ∀ d,
        d ∈ (σ.slots.enqueue c 1).users.map Prod.fst ↔ d ∈ σ.slots.users.map Prod.fst ∨ d = c := by
      intro d
      rw [Semaphore.enqueue_users, List.map_append, List.mem_append]
      exact or_congr_right List.mem_singleton
    apply h.serve hguards (h.fair.enqueue Nat.one_pos hpermit hnew) (Semaphore.enqueue_capacity _ _ _)
    · exact iff_of_true ((husers c).mpr (.inr rfl)) rfl
    · exact fun d hne => (husers d).trans (or_iff_left hne)
    · exact fun hp => absurd hp Bool.false_ne_true
    · intro d _ hd
      exact List.map_subset _ (Semaphore.subset_enqueue_held σ.slots c 1) hd
  case h_3 hphase =>
    have hguards : RunPhase.running.guards = (σ.phase c).guards := by rw [hphase]; rfl
    have hasks : (σ.phase c).asks = true := by rw [hphase]; rfl
    split
    · case isTrue hholds =>
      exact h.serve hguards h.fair rfl (iff_of_true ((h.users c).mpr hasks) rfl) (fun _ _ => Iff.rfl)
        (fun _ => hholds) (fun _ _ hd => hd)
    · exact h
  case h_4 exit hphase =>
    have hguards : (RunPhase.ended exit).guards = (σ.phase c).guards := by rw [hphase]; rfl
    have hasks : (σ.phase c).asks = true := by rw [hphase]; rfl
    have hholds : σ.slots.Holds c := h.holds c (by rw [hphase]; rfl)
    exact h.serve hguards h.fair rfl (iff_of_true ((h.users c).mpr hasks) rfl) (fun _ _ => Iff.rfl)
      (fun _ => hholds) (fun _ _ hd => hd)
  case h_5 hphase =>
    exact h.leave (by rw [hphase]; rfl) .cancelled
  case h_6 exit hphase =>
    exact h.leave (by rw [hphase]; rfl) exit
  case h_7 exit hphase =>
    have hguards : σ.InProgress c := by
      show (σ.phase c).guards = true
      rw [hphase]
      rfl
    have hasks : (σ.phase c).asks = false := by rw [hphase]; rfl
    apply h.mark hasks rfl rfl (h.once.erase c.1)
    · exact iff_of_false (fun hin => (h.once.mem_erase_iff.mp hin).1 rfl) Bool.false_ne_true
    · intro id hid
      exact h.once.mem_erase_iff.trans (and_iff_right hid)
    · exact fun d hd hid => h.sole d c hd hguards hid
  case h_8 => exact h

/-! ## What the calls can rely on -/

lemma Sound.orderly (h : σ.Sound maxConcurrent) : σ.Orderly maxConcurrent where
  alone c d hc hd hid := by
    have hguards : ∀ c, σ.Runs c → σ.InProgress c := by
      intro c hc
      show (σ.phase c).guards = true
      rw [hc]
      rfl
    exact h.sole c d (hguards c hc) (hguards d hd) hid
  few cs hnodup hruns := by
    have hsub : cs ⊆ σ.slots.held.map Prod.fst := by
      intro c hc
      apply h.holds c
      rw [hruns c hc]
      rfl
    calc cs.length
      _ ≤ (σ.slots.held.map Prod.fst).length := (List.subperm_of_subset hnodup hsub).length_le
      _ = σ.slots.held.length := List.length_map _
      _ ≤ σ.slots.capacity := h.fair.length_held_le
      _ = max 1 maxConcurrent := h.capacity
  skips c hidle := by
    rw [← h.marked]
    simp only [BindingScheduler.step, hidle]
    split
    · case isTrue hbusy => exact iff_of_true goOn_self hbusy
    · case isFalse hfree =>
      refine iff_of_false (fun hskip => ?_) hfree
      change (σ.goOn c .marked).phase c = .over .skipped at hskip
      rw [goOn_self] at hskip
      exact RunPhase.noConfusion hskip
  drained hdone := by
    constructor
    · apply List.eq_nil_iff_forall_not_mem.mpr
      intro id hid
      obtain ⟨c, -, hc⟩ := (h.marked id).mp hid
      exact hdone c hc
    · rw [← h.capacity]
      apply Semaphore.eq_idle
      apply List.map_eq_nil_iff.mp
      apply List.eq_nil_iff_forall_not_mem.mpr
      intro c hc
      exact hdone c (RunPhase.guards_of_asks ((h.users c).mp hc))

lemma Sound.unblocked (h : σ.Sound maxConcurrent) (hwaits : σ.phase c = .asked) (hnone : ¬ σ.slots.Holds c) :
    ∃ d, d ≠ c ∧ σ.slots.Holds d ∧ (σ.phase d).asks = true := by
  have huser : c ∈ σ.slots.users.map Prod.fst := (h.users c).mpr (by rw [hwaits]; rfl)
  have hqueue : σ.slots.queue ≠ [] := by
    intro hnil
    rw [Semaphore.users, hnil, List.append_nil] at huser
    exact hnone huser
  obtain ⟨w, rest, hw⟩ := List.exists_cons_of_ne_nil (h.fair.held_ne_nil hqueue)
  have hholds : σ.slots.Holds w.1 := by
    show w.1 ∈ σ.slots.held.map Prod.fst
    rw [hw]
    exact List.mem_cons_self
  refine ⟨w.1, ?_, hholds, ?_⟩
  · rintro rfl
    exact hnone hholds
  · apply (h.users w.1).mp
    rw [Semaphore.users, List.map_append]
    exact List.mem_append_left _ hholds

/-- The next step of a call that has a permit. -/
lemma goes_on_of_holds {d : RunCall} (hholds : σ.slots.Holds d) (hasks : (σ.phase d).asks = true) :
    ∃ op, op ≠ .cancel ∧ (σ.step ⟨d, op⟩).phase d ≠ σ.phase d := by
  cases hd : σ.phase d with
  | asked => exact ⟨.begin, nofun, by simp [step, hd, hholds]⟩
  | running => exact ⟨.finish .returned, nofun, by simp [step, hd]⟩
  | ended exit => exact ⟨.release, nofun, by simp [step, hd, goOn]⟩
  | _ => rw [hd] at hasks; cases hasks

/-- However the calls interleave and end, the scheduler is in order after every step. -/
theorem scheduler_orderly (maxConcurrent : Nat) (acts : List RunAct) :
    Always step (Orderly maxConcurrent) (new maxConcurrent) acts :=
  (always_of_invariant (fun _ a h => h.step a) (Sound.new maxConcurrent) acts).mono fun _ h => h.orderly

end BindingScheduler

end Sarca.Client
