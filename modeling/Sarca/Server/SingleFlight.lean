import Mathlib.Data.List.Lookmap
import Mathlib.Data.List.Nodup
import Mathlib.Logic.Function.Basic
import Sarca.Lib.Run
import Sarca.Lib.Semaphore

/-!
# One flight at a time

`SingleFlight` hands out a mutex for a key. Its map holds weak references only: a slot lives while somebody has an
`Arc` of it, a dead one is replaced when its key is asked for, and all dead ones go when the map is full.

`SingleFlight` here is the map with the slots that were ever made, each with those who have an `Arc` of it and
its mutex; a call is named by its key and a number. `Lane` is what it is for: one mutex for each key, as
if there were no other key. `SingleFlight.lane` reads a lane off the slots, and `Sound.lane_step` says that each
step is a step of the lane of its key and of no other.
-/

namespace Sarca.Server
open Sarca.Lib

/-- A call to `acquire`: its key, and its number among the calls with that key. -/
abbrev FlightCall (κ : Type*) := κ × Nat

inductive FlightPhase where
  | idle
  /-- `slot_for` has returned, and the wait has not begun -/
  | slotted (slot : Nat)
  | asked (slot : Nat)
  | over
deriving DecidableEq, Repr

/-- The slot that a call has an `Arc` of. -/
def FlightPhase.slot? : FlightPhase → Option Nat
  | .slotted slot | .asked slot => some slot
  | _ => none

/-- A slot: who has an `Arc` of it, and its mutex. -/
structure FlightSlot (κ : Type*) where
  owners : List (FlightCall κ)
  mutex : Semaphore (FlightCall κ)

/-- The map of weak references, every slot that was made, and the calls. -/
structure SingleFlight (κ : Type*) where
  slots : List (κ × Nat)
  heap : List (FlightSlot κ)
  phase : FlightCall κ → FlightPhase

inductive FlightOp where
  | slotFor
  /-- `lock_owned` begins to wait -/
  | lock
  /-- the guard, or the future that waits for it, is dropped -/
  | drop

structure FlightAct (κ : Type*) where
  call : FlightCall κ
  op : FlightOp

/-- Rust `PRUNE_THRESHOLD`. -/
def pruneThreshold : Nat := 1024

namespace SingleFlight

variable {κ : Type*} [DecidableEq κ]

def fresh : SingleFlight κ :=
  ⟨[], [], fun _ => .idle⟩

variable (σ : SingleFlight κ)

/-- Rust `strong_count() > 0`. -/
def alive (slot : Nat) : Bool :=
  σ.heap[slot]?.any fun s => !s.owners.isEmpty

def existing (key : κ) : Option Nat :=
  (σ.slots.lookup key).filter σ.alive

def pruned : List (κ × Nat) :=
  if pruneThreshold ≤ σ.slots.length then σ.slots.filter fun entry => σ.alive entry.2 else σ.slots

/-- Rust `slot_for`. -/
def slotFor (key : κ) : SingleFlight κ × Nat :=
  match σ.existing key with
  | some slot => (σ, slot)
  | none =>
    ({ σ with
        slots := (key, σ.heap.length) :: σ.pruned.filter fun entry => entry.1 ≠ key
        heap := σ.heap ++ [⟨[], .idle 1⟩] },
      σ.heap.length)

/-- A slot changes, and a call stands elsewhere. -/
def move (slot : Nat) (f : FlightSlot κ → FlightSlot κ) (c : FlightCall κ) (phase : FlightPhase) :
    SingleFlight κ :=
  { σ with heap := σ.heap.modify slot f, phase := Function.update σ.phase c phase }

def step (a : FlightAct κ) : SingleFlight κ :=
  match a.op with
  | .slotFor =>
    if σ.phase a.call = .idle then
      (σ.slotFor a.call.1).1.move (σ.slotFor a.call.1).2 (fun s => { s with owners := a.call :: s.owners })
        a.call (.slotted (σ.slotFor a.call.1).2)
    else σ
  | .lock =>
    match σ.phase a.call with
    | .slotted slot =>
      σ.move slot (fun s => { s with mutex := s.mutex.enqueue a.call 1 }) a.call (.asked slot)
    | _ => σ
  | .drop =>
    match (σ.phase a.call).slot? with
    | some slot =>
      σ.move slot (fun s => ⟨s.owners.erase a.call, s.mutex.leave a.call⟩) a.call .over
    | none => σ

omit [DecidableEq κ] in
def Guards (c : FlightCall κ) : Prop :=
  ∃ slot, σ.phase c = .asked slot ∧ ∃ s ∈ σ.heap[slot]?, s.mutex.Holds c

end SingleFlight

/-! ## What it is for -/

inductive LaneStage where
  | idle
  | ready
  | asked
  | over
deriving DecidableEq, Repr

/-- The mutex of a key, and the calls with that key. -/
structure Lane (κ : Type*) where
  mutex : Semaphore (FlightCall κ)
  stage : Nat → LaneStage

namespace Lane

variable {κ : Type*} [DecidableEq κ]

def fresh : Lane κ :=
  ⟨.idle 1, fun _ => .idle⟩

def step (key : κ) (l : Lane κ) (a : Nat × FlightOp) : Lane κ :=
  match a.2, l.stage a.1 with
  | .slotFor, .idle => { l with stage := Function.update l.stage a.1 .ready }
  | .lock, .ready => ⟨l.mutex.enqueue (key, a.1) 1, Function.update l.stage a.1 .asked⟩
  | .drop, .ready | .drop, .asked => ⟨l.mutex.leave (key, a.1), Function.update l.stage a.1 .over⟩
  | _, _ => l

end Lane

def FlightPhase.stage : FlightPhase → LaneStage
  | .idle => .idle
  | .slotted _ => .ready
  | .asked _ => .asked
  | .over => .over

def FlightAct.at? {κ : Type*} [DecidableEq κ] (key : κ) (a : FlightAct κ) : Option (Nat × FlightOp) :=
  if a.call.1 = key then some (a.call.2, a.op) else none

/-- The lane of a key; without a slot nobody holds it or waits for it. -/
def SingleFlight.lane {κ : Type*} [DecidableEq κ] (σ : SingleFlight κ) (key : κ) : Lane κ where
  mutex := (((σ.existing key).bind fun slot => σ.heap[slot]?).map FlightSlot.mutex).getD (.idle 1)
  stage i := (σ.phase (key, i)).stage

namespace SingleFlight

variable {κ : Type*} [DecidableEq κ] {σ : SingleFlight κ} {c d : FlightCall κ} {slot : Nat}

/-! ## The slots -/

/-- Every slot that somebody has is the one of its key in the map, and its mutex knows its owners only. -/
structure Sound (σ : SingleFlight κ) : Prop where
  keys : (σ.slots.map Prod.fst).Nodup
  slotsOnce : (σ.slots.map Prod.snd).Nodup
  known : ∀ entry ∈ σ.slots, entry.2 < σ.heap.length
  owners : ∀ slot s, σ.heap[slot]? = some s → ∀ c, c ∈ s.owners ↔ (σ.phase c).slot? = some slot
  ownersOnce : ∀ s ∈ σ.heap, s.owners.Nodup
  listed : ∀ c slot, (σ.phase c).slot? = some slot → slot < σ.heap.length ∧ (c.1, slot) ∈ σ.slots
  fair : ∀ s ∈ σ.heap, s.mutex.Fair
  single : ∀ s ∈ σ.heap, s.mutex.capacity = 1
  users : ∀ slot s, σ.heap[slot]? = some s → ∀ w ∈ s.mutex.users, σ.phase w.1 = .asked slot

omit [DecidableEq κ] in
lemma Sound.fresh : Sound (fresh (κ := κ)) where
  keys := List.nodup_nil
  slotsOnce := List.nodup_nil
  known _ h := absurd h List.not_mem_nil
  owners _ _ h := absurd (h.symm.trans List.getElem?_nil) (Option.some_ne_none _)
  ownersOnce _ h := absurd h List.not_mem_nil
  listed _ _ h := absurd h.symm (Option.some_ne_none _)
  fair _ h := absurd h List.not_mem_nil
  single _ h := absurd h List.not_mem_nil
  users _ _ h := absurd (h.symm.trans List.getElem?_nil) (Option.some_ne_none _)

lemma lookup_eq_some_iff {α β : Type*} [DecidableEq α] {l : List (α × β)} (hkeys : (l.map Prod.fst).Nodup)
    {k : α} {v : β} : l.lookup k = some v ↔ (k, v) ∈ l := by
  induction l with
  | nil => exact iff_of_false (Option.some_ne_none v).symm List.not_mem_nil
  | cons entry l ih =>
    obtain ⟨hnew, hkeys⟩ := List.nodup_cons.mp hkeys
    rw [List.lookup_cons, List.mem_cons]
    obtain rfl | hne := eq_or_ne k entry.1
    · rw [beq_self_eq_true]
      constructor
      · intro h
        exact .inl (Option.some.inj h ▸ rfl)
      · rintro (h | h)
        · exact congrArg (some ·.2) h.symm
        · exact absurd (List.mem_map_of_mem h) hnew
    · rw [beq_false_of_ne hne]
      refine (ih hkeys).trans ?_
      exact ⟨.inr, fun h => h.resolve_left fun heq => hne (congrArg Prod.fst heq)⟩

omit [DecidableEq κ] in
lemma alive_iff : σ.alive slot = true ↔ ∃ s, σ.heap[slot]? = some s ∧ s.owners ≠ [] := by
  unfold alive
  cases σ.heap[slot]? with
  | none => exact iff_of_false Bool.false_ne_true fun ⟨_, h, _⟩ => Option.some_ne_none _ h.symm
  | some s => simp

lemma Sound.existing_iff (h : σ.Sound) {key : κ} :
    σ.existing key = some slot ↔ (key, slot) ∈ σ.slots ∧ σ.alive slot = true := by
  unfold existing
  rw [Option.filter_eq_some_iff, lookup_eq_some_iff h.keys]

lemma Sound.existing_of_slot (h : σ.Sound) (hc : (σ.phase c).slot? = some slot) :
    σ.existing c.1 = some slot := by
  obtain ⟨hlt, hmem⟩ := h.listed c slot hc
  have hs := List.getElem?_eq_getElem hlt
  have howner := (h.owners slot _ hs c).mpr hc
  exact h.existing_iff.mpr ⟨hmem, alive_iff.mpr ⟨_, hs, List.ne_nil_of_mem howner⟩⟩

omit [DecidableEq κ] in
lemma Sound.key_inj (h : σ.Sound) {key key' : κ} (hkey : (key, slot) ∈ σ.slots)
    (hkey' : (key', slot) ∈ σ.slots) : key = key' :=
  congrArg Prod.fst (List.inj_on_of_nodup_map h.slotsOnce hkey hkey' rfl)

/-! ## What a step does to them -/

lemma slotFor_cases (σ : SingleFlight κ) (key : κ) :
    (∃ slot, σ.existing key = some slot ∧ σ.slotFor key = (σ, slot)) ∨
      σ.existing key = none ∧ σ.slotFor key =
        ({ σ with
            slots := (key, σ.heap.length) :: σ.pruned.filter fun entry => entry.1 ≠ key
            heap := σ.heap ++ [⟨[], .idle 1⟩] }, σ.heap.length) := by
  cases hexisting : σ.existing key with
  | some slot =>
    refine .inl ⟨slot, rfl, ?_⟩
    simp only [slotFor, hexisting]
  | none =>
    refine .inr ⟨rfl, ?_⟩
    simp only [slotFor, hexisting]

omit [DecidableEq κ] in
lemma pruned_sublist (σ : SingleFlight κ) : σ.pruned.Sublist σ.slots := by
  unfold pruned
  split
  · exact List.filter_sublist
  · exact List.Sublist.refl _

omit [DecidableEq κ] in
lemma mem_pruned {entry : κ × Nat} (h : entry ∈ σ.slots) (halive : σ.alive entry.2 = true) : entry ∈ σ.pruned := by
  unfold pruned
  split
  · exact List.mem_filter.mpr ⟨h, halive⟩
  · exact h

/-- A new slot for a key that has no live one. -/
lemma Sound.newSlot (h : σ.Sound) {key : κ} (hnone : σ.existing key = none) : Sound
    { σ with
      slots := (key, σ.heap.length) :: σ.pruned.filter fun entry => entry.1 ≠ key
      heap := σ.heap ++ [⟨[], .idle 1⟩] } := by
  have hsub : (σ.pruned.filter fun entry => entry.1 ≠ key).Sublist σ.slots :=
    List.filter_sublist.trans σ.pruned_sublist
  have hheap : ∀ (slot : Nat) (s : FlightSlot κ), (σ.heap ++ [⟨[], .idle 1⟩])[slot]? = some s →
      σ.heap[slot]? = some s ∨ slot = σ.heap.length ∧ s = ⟨[], .idle 1⟩ := by
    intro slot s hs
    rw [List.getElem?_append] at hs
    split at hs
    · exact .inl hs
    · obtain ⟨hlt, hs⟩ := List.getElem?_eq_some_iff.mp hs
      rw [List.length_singleton] at hlt
      refine .inr ⟨by omega, ?_⟩
      rw [← hs]
      exact List.getElem_singleton _
  have hfresh : ∀ c, (σ.phase c).slot? ≠ some σ.heap.length := fun c hc =>
    Nat.lt_irrefl _ (h.listed c _ hc).1
  constructor
  · refine List.nodup_cons.mpr ⟨fun hin => ?_, h.keys.sublist (hsub.map Prod.fst)⟩
    obtain ⟨entry, hentry, hkey⟩ := List.mem_map.mp hin
    exact absurd hkey (of_decide_eq_true (List.mem_filter.mp hentry).2)
  · refine List.nodup_cons.mpr ⟨fun hin => ?_, h.slotsOnce.sublist (hsub.map Prod.snd)⟩
    obtain ⟨entry, hentry, hslot⟩ := List.mem_map.mp hin
    exact absurd hslot (Nat.ne_of_lt (h.known entry (hsub.subset hentry)))
  · intro entry hentry
    rw [List.length_append]
    obtain rfl | hentry := List.mem_cons.mp hentry
    · exact Nat.lt_succ_self _
    · exact Nat.lt_succ_of_lt (h.known entry (hsub.subset hentry))
  · intro slot s hs c
    obtain hs | ⟨rfl, rfl⟩ := hheap slot s hs
    · exact h.owners slot s hs c
    · exact iff_of_false List.not_mem_nil (hfresh c)
  · intro s hs
    obtain hs | hs := List.mem_append.mp hs
    · exact h.ownersOnce s hs
    · rw [List.mem_singleton.mp hs]
      exact List.nodup_nil
  · intro c slot hc
    obtain ⟨hlt, hmem⟩ := h.listed c slot hc
    have hexisting := h.existing_of_slot hc
    refine ⟨?_, List.mem_cons_of_mem _ (List.mem_filter.mpr ⟨?_, ?_⟩)⟩
    · rw [List.length_append]
      exact Nat.lt_succ_of_lt hlt
    · exact mem_pruned hmem (h.existing_iff.mp hexisting).2
    · refine decide_eq_true fun hkey : c.1 = key => ?_
      rw [hkey, hnone] at hexisting
      cases hexisting
  · intro s hs
    obtain hs | hs := List.mem_append.mp hs
    · exact h.fair s hs
    · rw [List.mem_singleton.mp hs]
      exact .idle 1
  · intro s hs
    obtain hs | hs := List.mem_append.mp hs
    · exact h.single s hs
    · rw [List.mem_singleton.mp hs]
      rfl
  · intro slot s hs w hw
    obtain hs | ⟨-, rfl⟩ := hheap slot s hs
    · exact h.users slot s hs w hw
    · exact absurd hw List.not_mem_nil

lemma getElem?_move {f : FlightSlot κ → FlightSlot κ} {phase : FlightPhase} {slot' : Nat} {s' : FlightSlot κ}
    (hs' : (σ.move slot f c phase).heap[slot']? = some s') :
    ∃ s, σ.heap[slot']? = some s ∧ s' = if slot = slot' then f s else s := by
  have heq : (σ.move slot f c phase).heap[slot']? =
      (fun s => if slot = slot' then f s else s) <$> σ.heap[slot']? := List.getElem?_modify ..
  rw [heq] at hs'
  obtain ⟨s, hs, rfl⟩ := Option.map_eq_some_iff.mp hs'
  exact ⟨s, hs, rfl⟩

/-- A call and its slot change together: who has the slot, what its mutex knows, and where the call stands. -/
lemma Sound.move (h : σ.Sound) {f : FlightSlot κ → FlightSlot κ} {phase : FlightPhase}
    (hentry : (c.1, slot) ∈ σ.slots) (hbefore : ∀ slot' ∈ (σ.phase c).slot?, slot' = slot)
    (hafter : ∀ slot' ∈ phase.slot?, slot' = slot)
    (howners : ∀ s, σ.heap[slot]? = some s → ∀ d, d ∈ (f s).owners ↔
      if d = c then phase.slot? = some slot else d ∈ s.owners)
    (hnodup : ∀ s, σ.heap[slot]? = some s → (f s).owners.Nodup)
    (hfair : ∀ s, σ.heap[slot]? = some s → (f s).mutex.Fair ∧ (f s).mutex.capacity = 1)
    (husers : ∀ s, σ.heap[slot]? = some s → ∀ w ∈ (f s).mutex.users,
      if w.1 = c then phase = .asked slot else w ∈ s.mutex.users) :
    (σ.move slot f c phase).Sound := by
  have hlength : (σ.move slot f c phase).heap.length = σ.heap.length := List.length_modify ..
  have hphase : ∀ d, (σ.move slot f c phase).phase d = if d = c then phase else σ.phase d := fun d =>
    Function.update_apply ..
  -- what holds of every slot holds of the changed one and of the others
  have hall : ∀ P : FlightSlot κ → Prop, (∀ s, σ.heap[slot]? = some s → P (f s)) → (∀ s ∈ σ.heap, P s) →
      ∀ s' ∈ (σ.move slot f c phase).heap, P s' := by
    intro P hP hold s' hs'
    obtain ⟨slot', hslot'⟩ := List.mem_iff_getElem?.mp hs'
    obtain ⟨s, hs, rfl⟩ := getElem?_move hslot'
    split
    · case isTrue heq => exact hP s (heq ▸ hs)
    · exact hold s (List.mem_of_getElem? hs)
  refine ⟨h.keys, h.slotsOnce, fun entry hmem => hlength ▸ h.known entry hmem, ?_, ?_, ?_, ?_, ?_, ?_⟩
  · intro slot' s' hs' d
    obtain ⟨s, hs, rfl⟩ := getElem?_move hs'
    rw [hphase]
    obtain rfl | hne := eq_or_ne slot slot'
    · rw [if_pos rfl, howners s hs d]
      split
      · exact Iff.rfl
      · exact h.owners slot s hs d
    · rw [if_neg hne, h.owners slot' s hs d]
      split
      · case isTrue heq =>
        rw [heq]
        exact iff_of_false (fun hb => hne (hbefore slot' hb).symm) fun ha => hne (hafter slot' ha).symm
      · exact Iff.rfl
  · exact hall _ hnodup h.ownersOnce
  · intro d slot' hd
    rw [hphase] at hd
    rw [hlength]
    split at hd
    · case isTrue heq =>
      rw [hafter slot' hd, heq]
      exact ⟨h.known _ hentry, hentry⟩
    · exact h.listed d slot' hd
  · exact hall _ (fun s hs => (hfair s hs).1) h.fair
  · exact hall _ (fun s hs => (hfair s hs).2) h.single
  · intro slot' s' hs' w hw
    obtain ⟨s, hs, rfl⟩ := getElem?_move hs'
    rw [hphase]
    obtain rfl | hne := eq_or_ne slot slot'
    · rw [if_pos rfl] at hw
      have hw' := husers s hs w hw
      split
      · case isTrue heq => rwa [if_pos heq] at hw'
      · case isFalse hother =>
        rw [if_neg hother] at hw'
        exact h.users slot s hs w hw'
    · rw [if_neg hne] at hw
      have hasked := h.users slot' s hs w hw
      split
      · case isTrue heq =>
        rw [heq] at hasked
        exact absurd (hbefore slot' (by rw [hasked]; rfl)).symm hne
      · exact hasked

omit [DecidableEq κ] in
lemma Sound.mutex_idle (h : σ.Sound) {s : FlightSlot κ} (hs : σ.heap[slot]? = some s) (hdead : s.owners = []) :
    s.mutex = .idle 1 := by
  have husers : s.mutex.users = [] := by
    refine List.eq_nil_iff_forall_not_mem.mpr fun w hw => ?_
    have howner := (h.owners slot s hs w.1).mpr (by rw [h.users slot s hs w hw]; rfl)
    rw [hdead] at howner
    exact absurd howner List.not_mem_nil
  rw [Semaphore.eq_idle husers, h.single s (List.mem_of_getElem? hs)]

omit [DecidableEq κ] in
lemma Sound.notUser (h : σ.Sound) {s : FlightSlot κ} (hs : σ.heap[slot]? = some s)
    (hphase : ∀ slot, σ.phase c ≠ .asked slot) : c ∉ s.mutex.users.map Prod.fst := by
  intro hin
  obtain ⟨w, hw, rfl⟩ := List.mem_map.mp hin
  exact hphase slot (h.users slot s hs w hw)

lemma Sound.own (h : σ.Sound) (hidle : σ.phase c = .idle) (hentry : (c.1, slot) ∈ σ.slots) :
    (σ.move slot (fun s => { s with owners := c :: s.owners }) c (.slotted slot)).Sound := by
  refine h.move hentry ?_ ?_ ?_ ?_ ?_ ?_
  · rw [hidle]
    exact fun _ hb => absurd hb (Option.not_mem_none _)
  · exact fun _ ha => (Option.some.inj ha).symm
  · intro s _ d
    rw [List.mem_cons]
    split
    · case isTrue heq => exact iff_of_true (.inl heq) rfl
    · case isFalse hne => exact ⟨fun hd => hd.resolve_left hne, .inr⟩
  · intro s hs
    refine List.nodup_cons.mpr ⟨fun howner => ?_, h.ownersOnce s (List.mem_of_getElem? hs)⟩
    have hslot := (h.owners slot s hs c).mp howner
    rw [hidle] at hslot
    cases hslot
  · exact fun s hs => ⟨h.fair s (List.mem_of_getElem? hs), h.single s (List.mem_of_getElem? hs)⟩
  · intro s hs w hw
    split
    · case isTrue heq =>
      have hasked := h.users slot s hs w hw
      rw [heq, hidle] at hasked
      cases hasked
    · exact hw

lemma Sound.ask (h : σ.Sound) (hphase : σ.phase c = .slotted slot) :
    (σ.move slot (fun s => { s with mutex := s.mutex.enqueue c 1 }) c (.asked slot)).Sound := by
  have hslot : (σ.phase c).slot? = some slot := by rw [hphase]; rfl
  refine h.move (h.listed c slot hslot).2 ?_ ?_ ?_ ?_ ?_ ?_
  · rw [hslot]
    exact fun _ hb => (Option.some.inj hb).symm
  · exact fun _ ha => (Option.some.inj ha).symm
  · intro s hs d
    split
    · case isTrue heq => exact iff_of_true (heq ▸ (h.owners slot s hs c).mpr hslot) rfl
    · exact Iff.rfl
  · exact fun s hs => h.ownersOnce s (List.mem_of_getElem? hs)
  · intro s hs
    have hs' := List.mem_of_getElem? hs
    have hnew := h.notUser hs (c := c) fun _ hasked => by rw [hphase] at hasked; cases hasked
    exact ⟨(h.fair s hs').enqueue Nat.one_pos (h.single s hs').ge hnew, h.single s hs'⟩
  · intro s _ w hw
    rw [Semaphore.enqueue_users] at hw
    split
    · rfl
    · case isFalse hne =>
      refine (List.mem_append.mp hw).resolve_right fun hlast => hne ?_
      rw [List.mem_singleton.mp hlast]

lemma Sound.release (h : σ.Sound) (hslot : (σ.phase c).slot? = some slot) :
    (σ.move slot (fun s => ⟨s.owners.erase c, s.mutex.leave c⟩) c .over).Sound := by
  refine h.move (h.listed c slot hslot).2 ?_ ?_ ?_ ?_ ?_ ?_
  · rw [hslot]
    exact fun _ hb => (Option.some.inj hb).symm
  · exact fun _ ha => absurd ha (Option.not_mem_none _)
  · intro s hs d
    rw [(h.ownersOnce s (List.mem_of_getElem? hs)).mem_erase_iff]
    split
    · case isTrue heq => exact iff_of_false (fun hd => hd.1 heq) (Option.some_ne_none slot).symm
    · case isFalse hne => exact ⟨fun hd => hd.2, fun hd => ⟨hne, hd⟩⟩
  · exact fun s hs => (h.ownersOnce s (List.mem_of_getElem? hs)).erase c
  · intro s hs
    have hs' := List.mem_of_getElem? hs
    exact ⟨(h.fair s hs').leave c, h.single s hs'⟩
  · intro s _ w hw
    rw [Semaphore.leave_users] at hw
    obtain ⟨hw, hne⟩ := List.mem_filter.mp hw
    rw [if_neg (of_decide_eq_true hne)]
    exact hw

/-! ## The lanes -/

lemma Sound.lane_mutex (h : σ.Sound) {key : κ} {s : FlightSlot κ} (hentry : (key, slot) ∈ σ.slots)
    (hs : σ.heap[slot]? = some s) : (σ.lane key).mutex = s.mutex := by
  unfold lane
  cases hexisting : σ.existing key with
  | some slot' =>
    obtain ⟨hentry', -⟩ := h.existing_iff.mp hexisting
    obtain rfl : slot = slot' := congrArg Prod.snd (List.inj_on_of_nodup_map h.keys hentry hentry' rfl)
    rw [Option.bind_some, hs]
    rfl
  | none =>
    refine (h.mutex_idle hs ?_).symm
    -- a slot that could be upgraded would be the one of the key
    by_contra howners
    have hsome := h.existing_iff.mpr ⟨hentry, alive_iff.mpr ⟨s, hs, howners⟩⟩
    rw [hexisting] at hsome
    cases hsome

lemma Sound.lane_newSlot (h : σ.Sound) {key : κ} (hnone : σ.existing key = none) (key' : κ) :
    ({ σ with
      slots := (key, σ.heap.length) :: σ.pruned.filter fun entry => entry.1 ≠ key
      heap := σ.heap ++ [⟨[], .idle 1⟩] } : SingleFlight κ).lane key' = σ.lane key' := by
  have hnew := h.newSlot hnone
  obtain rfl | hne := eq_or_ne key' key
  · have hmutex := hnew.lane_mutex List.mem_cons_self List.getElem?_concat_length
    have hold : (σ.lane key').mutex = .idle 1 := by
      unfold lane
      rw [hnone]
      rfl
    exact congrArg (Lane.mk · _) (hmutex.trans hold.symm)
  · have hexisting : ∀ slot, ({ σ with
        slots := (key, σ.heap.length) :: σ.pruned.filter fun entry => entry.1 ≠ key
        heap := σ.heap ++ [⟨[], .idle 1⟩] } : SingleFlight κ).existing key' = some slot ↔
          σ.existing key' = some slot := by
      intro slot
      rw [hnew.existing_iff, h.existing_iff]
      constructor
      · rintro ⟨hmem, halive⟩
        have hmem := (List.mem_cons.mp hmem).resolve_left fun heq => hne (congrArg Prod.fst heq)
        have hslots := σ.pruned_sublist.subset (List.mem_filter.mp hmem).1
        obtain ⟨s, hs, howners⟩ := alive_iff.mp halive
        rw [List.getElem?_append_left (h.known _ hslots)] at hs
        exact ⟨hslots, alive_iff.mpr ⟨s, hs, howners⟩⟩
      · rintro ⟨hmem, halive⟩
        obtain ⟨s, hs, howners⟩ := alive_iff.mp halive
        refine ⟨List.mem_cons_of_mem _ (List.mem_filter.mpr ⟨mem_pruned hmem halive, decide_eq_true hne⟩), ?_⟩
        exact alive_iff.mpr ⟨s, (List.getElem?_append_left (h.known _ hmem)).trans hs, howners⟩
    unfold lane
    rw [Option.ext hexisting]
    cases hslot : σ.existing key' with
    | none => rfl
    | some slot =>
      have hlt := h.known _ (h.existing_iff.mp hslot).1
      rw [Option.bind_some, Option.bind_some, List.getElem?_append_left hlt]

lemma Sound.lane_move (h : σ.Sound) {f : FlightSlot κ → FlightSlot κ} {phase : FlightPhase}
    (hτ : (σ.move slot f c phase).Sound) (hentry : (c.1, slot) ∈ σ.slots) {key : κ} (hne : c.1 ≠ key) :
    (σ.move slot f c phase).lane key = σ.lane key := by
  have hslot : ∀ slot', (key, slot') ∈ σ.slots →
      (σ.move slot f c phase).heap[slot']? = σ.heap[slot']? := by
    intro slot' hmem
    have hother : slot ≠ slot' := fun heq => hne (h.key_inj (heq ▸ hentry) hmem)
    exact List.getElem?_modify_ne f _ hother
  have hstage : (fun i => ((σ.move slot f c phase).phase (key, i)).stage) = fun i => (σ.phase (key, i)).stage := by
    funext i
    have hcall : (key, i) ≠ c := fun heq => hne (congrArg Prod.fst heq).symm
    exact congrArg FlightPhase.stage (Function.update_of_ne hcall _ _)
  have hexisting : ∀ slot', (σ.move slot f c phase).existing key = some slot' ↔ σ.existing key = some slot' := by
    intro slot'
    rw [hτ.existing_iff, h.existing_iff]
    refine and_congr_right fun hmem => ?_
    rw [alive_iff, alive_iff, hslot slot' hmem]
  unfold lane
  rw [Option.ext hexisting, hstage]
  cases hsome : σ.existing key with
  | none => rfl
  | some slot' => rw [Option.bind_some, Option.bind_some, hslot slot' (h.existing_iff.mp hsome).1]

lemma Sound.lane_move_self (h : σ.Sound) {f : FlightSlot κ → FlightSlot κ} {phase : FlightPhase}
    {g : Semaphore (FlightCall κ) → Semaphore (FlightCall κ)} (hτ : (σ.move slot f c phase).Sound)
    (hentry : (c.1, slot) ∈ σ.slots) (hf : ∀ s, (f s).mutex = g s.mutex) :
    (σ.move slot f c phase).lane c.1 =
      ⟨g (σ.lane c.1).mutex, Function.update (σ.lane c.1).stage c.2 phase.stage⟩ := by
  have hlt : slot < σ.heap.length := h.known _ hentry
  have hs := List.getElem?_eq_getElem hlt
  have hs' : (σ.move slot f c phase).heap[slot]? = some (f σ.heap[slot]) := by
    have heq : (σ.move slot f c phase).heap[slot]? = f <$> σ.heap[slot]? := List.getElem?_modify_eq ..
    rw [heq, hs]
    rfl
  have hmutex : ((σ.move slot f c phase).lane c.1).mutex = g (σ.lane c.1).mutex := by
    rw [hτ.lane_mutex hentry hs', h.lane_mutex hentry hs, hf]
  have hstage : ((σ.move slot f c phase).lane c.1).stage = Function.update (σ.lane c.1).stage c.2 phase.stage := by
    funext i
    show (Function.update σ.phase c phase (c.1, i)).stage = _
    obtain rfl | hne := eq_or_ne i c.2
    · rw [Function.update_self, Function.update_self]
    · rw [Function.update_of_ne hne, Function.update_of_ne fun heq => hne (congrArg Prod.snd heq)]
      rfl
  rw [← hmutex, ← hstage]

def laneAfter (σ : SingleFlight κ) (key : κ) (a : FlightAct κ) : Lane κ :=
  run (Lane.step key) (σ.lane key) (a.at? key).toList

lemma laneAfter_self (σ : SingleFlight κ) (c : FlightCall κ) (op : FlightOp) :
    σ.laneAfter c.1 ⟨c, op⟩ = (σ.lane c.1).step c.1 (c.2, op) := by
  unfold laneAfter FlightAct.at?
  rw [if_pos rfl]
  rfl

lemma laneAfter_other (σ : SingleFlight κ) {key : κ} {a : FlightAct κ} (hne : a.call.1 ≠ key) :
    σ.laneAfter key a = σ.lane key := by
  unfold laneAfter FlightAct.at?
  rw [if_neg hne]
  rfl

lemma Sound.laneAfter_move (h : σ.Sound) {f : FlightSlot κ → FlightSlot κ} {phase : FlightPhase}
    {g : Semaphore (FlightCall κ) → Semaphore (FlightCall κ)} {op : FlightOp}
    (hτ : (σ.move slot f c phase).Sound) (hentry : (c.1, slot) ∈ σ.slots) (hf : ∀ s, (f s).mutex = g s.mutex)
    (hstep : (σ.lane c.1).step c.1 (c.2, op) =
      ⟨g (σ.lane c.1).mutex, Function.update (σ.lane c.1).stage c.2 phase.stage⟩) (key : κ) :
    (σ.move slot f c phase).lane key = σ.laneAfter key ⟨c, op⟩ := by
  obtain rfl | hne := eq_or_ne c.1 key
  · rw [laneAfter_self, hstep]
    exact h.lane_move_self hτ hentry hf
  · rw [laneAfter_other σ hne]
    exact h.lane_move hτ hentry hne

lemma laneAfter_same {op : FlightOp} (hstep : (σ.lane c.1).step c.1 (c.2, op) = σ.lane c.1) (key : κ) :
    σ.lane key = σ.laneAfter key ⟨c, op⟩ := by
  obtain rfl | hne := eq_or_ne c.1 key
  · rw [laneAfter_self, hstep]
  · rw [laneAfter_other σ hne]

/-- Each step is a step of the lane of its key, and of no other. -/
lemma Sound.step (h : σ.Sound) (a : FlightAct κ) :
    (σ.step a).Sound ∧ ∀ key, (σ.step a).lane key = σ.laneAfter key a := by
  obtain ⟨c, op⟩ := a
  have hstage : (σ.lane c.1).stage c.2 = (σ.phase c).stage := rfl
  cases op with
  | slotFor =>
    by_cases hidle : σ.phase c = .idle
    · have htake : σ.step ⟨c, .slotFor⟩ =
          (σ.slotFor c.1).1.move (σ.slotFor c.1).2 (fun s => { s with owners := c :: s.owners })
            c (.slotted (σ.slotFor c.1).2) := if_pos hidle
      have hlane : (σ.lane c.1).step c.1 (c.2, .slotFor) =
          ⟨(σ.lane c.1).mutex, Function.update (σ.lane c.1).stage c.2 .ready⟩ := by
        simp only [Lane.step, hstage, hidle, FlightPhase.stage]
      rw [htake]
      obtain ⟨slot, hexisting, heq⟩ | ⟨hnone, heq⟩ := slotFor_cases σ c.1
      · rw [heq]
        have hentry := (h.existing_iff.mp hexisting).1
        have hown := h.own hidle hentry
        exact ⟨hown, h.laneAfter_move (g := id) hown hentry (fun _ => rfl) hlane⟩
      · rw [heq]
        have hnew := h.newSlot hnone
        have hown := hnew.own hidle List.mem_cons_self
        refine ⟨hown, fun key => ?_⟩
        calc
          _ = laneAfter _ key ⟨c, .slotFor⟩ :=
            hnew.laneAfter_move (g := id) hown List.mem_cons_self (fun _ => rfl)
              (by rw [h.lane_newSlot hnone]; exact hlane) key
          _ = σ.laneAfter key ⟨c, .slotFor⟩ := by
            unfold laneAfter
            rw [h.lane_newSlot hnone]
    · have hsame : σ.step ⟨c, .slotFor⟩ = σ := if_neg hidle
      rw [hsame]
      refine ⟨h, laneAfter_same ?_⟩
      cases hphase : σ.phase c with
      | idle => exact absurd hphase hidle
      | _ => simp only [Lane.step, hstage, hphase, FlightPhase.stage]
  | lock =>
    cases hphase : σ.phase c with
    | slotted slot =>
      have htake : σ.step ⟨c, .lock⟩ =
          σ.move slot (fun s => { s with mutex := s.mutex.enqueue c 1 }) c (.asked slot) := by
        simp only [SingleFlight.step, hphase]
      have hentry := (h.listed c slot (by rw [hphase]; rfl)).2
      rw [htake]
      refine ⟨h.ask hphase, h.laneAfter_move (g := (·.enqueue c 1)) (h.ask hphase) hentry (fun _ => rfl) ?_⟩
      simp only [Lane.step, hstage, hphase, FlightPhase.stage]
    | _ =>
      have hsame : σ.step ⟨c, .lock⟩ = σ := by simp only [SingleFlight.step, hphase]
      rw [hsame]
      refine ⟨h, laneAfter_same ?_⟩
      simp only [Lane.step, hstage, hphase, FlightPhase.stage]
  | drop =>
    have hdrop : ∀ slot, (σ.phase c).slot? = some slot → ((σ.phase c).stage = .ready ∨ (σ.phase c).stage = .asked) →
        (σ.step ⟨c, .drop⟩).Sound ∧ ∀ key, (σ.step ⟨c, .drop⟩).lane key = σ.laneAfter key ⟨c, .drop⟩ := by
      intro slot hslot hon
      have htake : σ.step ⟨c, .drop⟩ =
          σ.move slot (fun s => ⟨s.owners.erase c, s.mutex.leave c⟩) c .over := by
        simp only [SingleFlight.step, hslot]
      rw [htake]
      refine ⟨h.release hslot,
        h.laneAfter_move (g := (·.leave c)) (h.release hslot) (h.listed c slot hslot).2 (fun _ => rfl) ?_⟩
      obtain hon | hon := hon
      · simp only [Lane.step, hstage, hon]
        rfl
      · simp only [Lane.step, hstage, hon]
        rfl
    cases hphase : σ.phase c with
    | slotted slot => exact hdrop slot (by rw [hphase]; rfl) (.inl (by rw [hphase]; rfl))
    | asked slot => exact hdrop slot (by rw [hphase]; rfl) (.inr (by rw [hphase]; rfl))
    | _ =>
      have hsame : σ.step ⟨c, .drop⟩ = σ := by
        simp only [SingleFlight.step, hphase, FlightPhase.slot?]
      rw [hsame]
      refine ⟨h, laneAfter_same ?_⟩
      simp only [Lane.step, hstage, hphase, FlightPhase.stage]

omit [DecidableEq κ] in
lemma Sound.guard_unique (h : σ.Sound) (hkey : c.1 = d.1) (hc : σ.Guards c) (hd : σ.Guards d) : c = d := by
  obtain ⟨slot, hphase, s, hs, hheld⟩ := hc
  obtain ⟨slot', hphase', s', hs', hheld'⟩ := hd
  have hsame : slot = slot' := by
    have hentry := (h.listed c slot (by rw [hphase]; rfl)).2
    have hentry' := (h.listed d slot' (by rw [hphase']; rfl)).2
    exact congrArg Prod.snd (List.inj_on_of_nodup_map h.keys hentry hentry' hkey)
  rw [← hsame, hs] at hs'
  obtain rfl := Option.some.inj hs'
  have hmem := List.mem_of_getElem? hs
  exact (h.fair s hmem).holder_unique (h.single s hmem) hheld hheld'

lemma Sound.guards_iff (h : σ.Sound) : σ.Guards c ↔ (σ.lane c.1).mutex.Holds c := by
  constructor
  · rintro ⟨slot, hphase, s, hs, hheld⟩
    have hentry := (h.listed c slot (by rw [hphase]; rfl)).2
    rw [h.lane_mutex hentry hs]
    exact hheld
  · intro hheld
    cases hexisting : σ.existing c.1 with
    | none =>
      have hidle : (σ.lane c.1).mutex = .idle 1 := by
        unfold lane
        rw [hexisting]
        rfl
      rw [hidle] at hheld
      exact absurd hheld List.not_mem_nil
    | some slot =>
      have hentry := (h.existing_iff.mp hexisting).1
      have hlt : slot < σ.heap.length := h.known _ hentry
      have hs := List.getElem?_eq_getElem hlt
      rw [h.lane_mutex hentry hs] at hheld
      obtain ⟨w, hw, rfl⟩ := List.mem_map.mp hheld
      exact ⟨slot, h.users slot _ hs w (List.mem_append_left _ hw), _, hs, List.mem_map_of_mem hw⟩

/-- In every run two guards of one key are one guard, a key that somebody has a slot of resolves to that slot,
    and the guards and waits of a key are those of a mutex that only its own calls use. -/
theorem flights_exclusive (acts : List (FlightAct κ)) :
    let σ := run SingleFlight.step SingleFlight.fresh acts
    (∀ c d : FlightCall κ, c.1 = d.1 → σ.Guards c → σ.Guards d → c = d) ∧
    (∀ c slot, (σ.phase c).slot? = some slot → (σ.slotFor c.1).2 = slot) ∧
    ∀ key, σ.lane key = run (Lane.step key) Lane.fresh (acts.filterMap (FlightAct.at? key)) ∧
      ∀ i, σ.Guards (key, i) ↔ (σ.lane key).mutex.Holds (key, i) := by
  intro σ
  have hs : σ.Sound := run_invariant (fun _ a h => (h.step a).1) .fresh acts
  refine ⟨fun c d hkey => hs.guard_unique hkey, fun c slot hslot => ?_, fun key => ⟨?_, fun i => hs.guards_iff⟩⟩
  · obtain ⟨slot', hexisting, heq⟩ | ⟨hnone, -⟩ := slotFor_cases σ c.1
    · rw [heq]
      exact Option.some.inj (hexisting.symm.trans (hs.existing_of_slot hslot))
    · exact absurd ((hs.existing_of_slot hslot).symm.trans hnone) (Option.some_ne_none slot)
  · have hlanes : ∀ (acts : List (FlightAct κ)) (τ : SingleFlight κ), τ.Sound →
        (run SingleFlight.step τ acts).lane key =
          run (Lane.step key) (τ.lane key) (acts.filterMap (FlightAct.at? key)) := by
      intro acts
      induction acts with
      | nil => exact fun _ _ => rfl
      | cons a acts ih =>
        intro τ hτ
        obtain ⟨hnext, hlane⟩ := hτ.step a
        rw [run_cons, ih _ hnext, hlane, laneAfter, List.filterMap_cons]
        cases a.at? key <;> rfl
    exact hlanes acts _ .fresh

end SingleFlight

end Sarca.Server
