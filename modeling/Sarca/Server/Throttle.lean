import Mathlib.Algebra.Order.Ring.Nat
import Mathlib.Data.List.AList
import Mathlib.Data.List.MinMax
import Sarca.Lib.Run

/-!
# The failure throttle

`FailureThrottle` is the bounded table of failures by key with `decideAt`, `recordFailureAt` and
`recordSuccess`, and `State` the table with the attempts under way: an attempt is let through, its secret is
compared, and what came of it is recorded, each a step of its own. `guesses` counts the wrong secrets compared
with a key since its last success or since it had no failure for `decay`.

The decision looks at recorded failures only, so attempts let through side by side are not counted, and a
full table drops the record of a key for the sake of another one. `guess_budget` bounds the guesses in every
run without these two.
-/

namespace Sarca.Server
open Sarca.Lib

namespace Throttle

/-- `FREE_ATTEMPTS` -/
def freeAttempts : Nat := 5
/-- `LOCK_ATTEMPTS` -/
def lockAttempts : Nat := 25
/-- `MAX_DELAY`, in milliseconds. -/
def maxDelay : Nat := 4000
/-- `DECAY`, in milliseconds. -/
def decay : Nat := 900000
/-- `MAX_KEYS` -/
def maxKeys : Nat := 4096
/-- `u32::MAX` -/
def maxFailures : Nat := 4294967295

/-- `Attempts` -/
structure Attempts where
  failures : Nat
  last : Nat
deriving DecidableEq

/-- `Decision`; a delay is in milliseconds. -/
inductive Decision where
  | delay (millis : Nat)
  | locked
deriving DecidableEq

/-- `FailureThrottle` -/
abbrev FailureThrottle (κ : Type*) := AList fun _ : κ => Attempts

/-- What became of an attempt that was let through: its secret is still to be compared, or was found wrong
    or right and that is still to be recorded. -/
inductive Stage where
  | checked
  | rejected
  | accepted
deriving DecidableEq

variable {κ : Type*} [DecidableEq κ]

def Fresh (now : Nat) (a : Attempts) : Prop :=
  now - a.last < decay

instance (now : Nat) : DecidablePred (Fresh now) :=
  fun a => inferInstanceAs (Decidable (now - a.last < decay))

/-- Rust `prune`. -/
def prune (now : Nat) (t : FailureThrottle κ) : FailureThrottle κ where
  entries := t.entries.filter fun e => Fresh now e.2
  nodupKeys := t.nodupKeys.sublist List.filter_sublist

/-- Rust `delay_for`. -/
def delayFor (failures : Nat) : Nat :=
  if failures < freeAttempts then 0
  else min (250 * 2 ^ min (failures - freeAttempts) 6) maxDelay

/-- Rust `decide_at`. -/
def decideAt (key : κ) (now : Nat) (t : FailureThrottle κ) : Decision × FailureThrottle κ :=
  let t := prune now t
  match t.lookup key with
  | none => (.delay 0, t)
  | some entry =>
    if ¬Fresh now entry then (.delay 0, t.erase key)
    else if lockAttempts ≤ entry.failures then (.locked, t)
    else (.delay (delayFor entry.failures), t)

/-- The key touched least recently, the first one in the order in which the table is visited. -/
def oldest (order : List κ) (t : FailureThrottle κ) : Option κ :=
  (order.filter (· ∈ t.keys) ++ t.keys).argmin fun key => (t.lookup key).elim 0 (·.last)

def makeRoom (key : κ) (order : List κ) (t : FailureThrottle κ) : FailureThrottle κ :=
  if maxKeys ≤ t.keys.length ∧ key ∉ t.keys then
    match oldest order t with
    | some oldest => t.erase oldest
    | none => t
  else t

/-- Rust `record_failure_at`. -/
def recordFailureAt (key : κ) (now : Nat) (order : List κ) (t : FailureThrottle κ) :
    FailureThrottle κ :=
  let t := makeRoom key order (prune now t)
  let previous :=
    match t.lookup key with
    | some entry => if Fresh now entry then entry.failures else 0
    | none => 0
  t.insert key ⟨min (previous + 1) maxFailures, now⟩

/-- Rust `record_success`. -/
def recordSuccess (key : κ) (t : FailureThrottle κ) : FailureThrottle κ :=
  t.erase key

/-- The throttle with the attempts under way. The last two fields only watch: when a failure of a key was
    last recorded, and the wrong secrets compared with it since then. -/
structure State (κ : Type*) where
  throttle : FailureThrottle κ
  attempts : List (κ × Stage)
  lastFailed : κ → Option Nat
  guesses : κ → Nat

def State.empty : State κ :=
  ⟨∅, [], fun _ => none, fun _ => 0⟩

/-- A step of an attempt on a key, at an instant. -/
inductive Act (κ : Type*) where
  | check (key : κ) (now : Nat)
  /-- The link is gone or has no password, or the caller has gone. -/
  | leave (key : κ) (now : Nat)
  | verify (key : κ) (right : Bool) (now : Nat)
  | recordFailure (key : κ) (now : Nat) (order : List κ)
  | recordSuccess (key : κ) (now : Nat)

def Act.now : Act κ → Nat
  | .check _ now => now
  | .leave _ now => now
  | .verify _ _ now => now
  | .recordFailure _ now _ => now
  | .recordSuccess _ now => now

/-- No failure of the key was recorded for `decay`. -/
def Gap (s : State κ) (now : Nat) (key : κ) : Prop :=
  ∃ last ∈ s.lastFailed key, decay ≤ now - last

instance (s : State κ) (now : Nat) (key : κ) : Decidable (Gap s now key) :=
  match h : s.lastFailed key with
  | none => isFalse fun ⟨_, hlast, _⟩ => nomatch h ▸ hlast
  | some last => decidable_of_iff (decay ≤ now - last)
      ⟨fun hle => ⟨last, h, hle⟩, fun ⟨_, hlast, hle⟩ => Option.some.inj (h.symm.trans hlast) ▸ hle⟩

def watch (now : Nat) (s : State κ) : State κ :=
  { s with guesses := fun key => if Gap s now key then 0 else s.guesses key }

/-- What an attempt does to the throttle and to itself, as in `login` and `unlock`. -/
def act (s : State κ) : Act κ → State κ
  | .check key now =>
    match decideAt key now s.throttle with
    | (.locked, t) => { s with throttle := t }
    | (.delay _, t) => { s with throttle := t, attempts := (key, .checked) :: s.attempts }
  | .leave key _ => { s with attempts := s.attempts.erase (key, .checked) }
  | .verify key right _ =>
    if (key, Stage.checked) ∈ s.attempts then
      if right then
        { s with attempts := (key, .accepted) :: s.attempts.erase (key, .checked) }
      else
        { s with
          attempts := (key, .rejected) :: s.attempts.erase (key, .checked)
          guesses := Function.update s.guesses key (s.guesses key + 1) }
    else s
  | .recordFailure key now order =>
    if (key, Stage.rejected) ∈ s.attempts then
      { s with
        throttle := recordFailureAt key now order s.throttle
        attempts := s.attempts.erase (key, .rejected)
        lastFailed := Function.update s.lastFailed key (some now) }
    else s
  | .recordSuccess key _ =>
    if (key, Stage.accepted) ∈ s.attempts then
      { s with
        throttle := recordSuccess key s.throttle
        attempts := s.attempts.erase (key, .accepted)
        guesses := Function.update s.guesses key 0 }
    else s

def step (s : State κ) (a : Act κ) : State κ :=
  act (watch a.now s) a

def recorded (key : κ) (t : FailureThrottle κ) : Nat :=
  (t.lookup key).elim 0 (·.failures)

def underWay (key : κ) (stage : Stage) (s : State κ) : Nat :=
  s.attempts.count (key, stage)

/-- What a step must not do to a key: let an attempt through while the failures that count and the attempts
    under way reach the lock, or drop the key's record for the failure of another key. -/
def Careful (key : κ) (s : State κ) : Act κ → Prop
  | .check k now =>
    k = key →
      lockAttempts ≤ recorded key (prune now s.throttle) ∨
        recorded key (prune now s.throttle) + underWay key .checked s + underWay key .rejected s <
          lockAttempts
  | .recordFailure k now order =>
    k ≠ key → k ∈ (prune now s.throttle).keys ∨ (prune now s.throttle).keys.length < maxKeys ∨
      oldest order (prune now s.throttle) ≠ some key
  | _ => True

instance (key : κ) (s : State κ) : (a : Act κ) → Decidable (Careful key s a)
  | .check _ _ => inferInstanceAs (Decidable (_ → _))
  | .recordFailure _ _ _ => inferInstanceAs (Decidable (_ → _))
  | .leave _ _ => inferInstanceAs (Decidable True)
  | .verify _ _ _ => inferInstanceAs (Decidable True)
  | .recordSuccess _ _ => inferInstanceAs (Decidable True)

variable {key k : κ} {now : Nat} {t : FailureThrottle κ} {s : State κ}

/-! ## The table -/

lemma lookup_prune : (prune now t).lookup k = (t.lookup k).filter fun a => Fresh now a := by
  apply Option.ext
  intro a
  rw [← Option.mem_def, AList.mem_lookup_iff, Option.filter_eq_some_iff, ← Option.mem_def,
    AList.mem_lookup_iff]
  exact List.mem_filter

lemma fresh_of_prune : ∀ a ∈ (prune now t).lookup k, Fresh now a := by
  intro a ha
  rw [lookup_prune, Option.mem_def, Option.filter_eq_some_iff] at ha
  exact of_decide_eq_true ha.2

lemma decideAt_eq : decideAt key now t =
    (if lockAttempts ≤ recorded key (prune now t) then .locked
      else .delay (delayFor (recorded key (prune now t))), prune now t) := by
  cases ha : (prune now t).lookup key with
  | none =>
    have hrecorded : recorded key (prune now t) = 0 := by rw [recorded, ha]; rfl
    rw [hrecorded]
    simp only [decideAt, ha]
    rfl
  | some a =>
    have hrecorded : recorded key (prune now t) = a.failures := by rw [recorded, ha]; rfl
    rw [hrecorded]
    simp only [decideAt, ha, if_neg (not_not.mpr (fresh_of_prune a ha))]
    split
    · rfl
    · rfl

lemma makeRoom_self (order : List κ) : (makeRoom key order t).lookup key = t.lookup key := by
  unfold makeRoom
  split
  case isFalse => rfl
  case isTrue hfull =>
    have hnone : t.lookup key = none := AList.lookup_eq_none.mpr hfull.2
    split
    case h_2 => rfl
    case h_1 victim _ =>
      by_cases hkey : key = victim
      · rw [← hkey, AList.lookup_erase, hnone]
      · rw [AList.lookup_erase_ne hkey]

lemma makeRoom_of_ne (order : List κ)
    (h : k ∈ t.keys ∨ t.keys.length < maxKeys ∨ oldest order t ≠ some key) :
    (makeRoom k order t).lookup key = t.lookup key := by
  unfold makeRoom
  split
  case isFalse => rfl
  case isTrue hfull =>
    split
    case h_2 => rfl
    case h_1 victim hvictim =>
      apply AList.lookup_erase_ne
      rintro rfl
      rcases h with h | h | h
      · exact hfull.2 h
      · exact absurd hfull.1 (Nat.not_le.mpr h)
      · exact h hvictim

lemma recordFailureAt_self (order : List κ) :
    (recordFailureAt key now order t).lookup key =
      some ⟨min (recorded key (prune now t) + 1) maxFailures, now⟩ := by
  have hroom : (makeRoom key order (prune now t)).lookup key = (prune now t).lookup key :=
    makeRoom_self order
  unfold recordFailureAt
  rw [AList.lookup_insert, hroom, recorded]
  cases ha : (prune now t).lookup key with
  | none => rfl
  | some a => simp only [if_pos (fresh_of_prune a ha), Option.elim_some]

lemma recordFailureAt_of_ne (order : List κ) (hne : key ≠ k)
    (h : k ∈ (prune now t).keys ∨ (prune now t).keys.length < maxKeys ∨
      oldest order (prune now t) ≠ some key) :
    (recordFailureAt k now order t).lookup key = (prune now t).lookup key := by
  show AList.lookup key (AList.insert k _ (makeRoom k order (prune now t))) = _
  rw [AList.lookup_insert_ne hne, makeRoom_of_ne order h]

lemma recorded_congr {t' : FailureThrottle κ} (h : t'.lookup key = t.lookup key) :
    recorded key t' = recorded key t := by
  rw [recorded, recorded, h]

/-! ## What is counted -/

/-- What holds of a key between the steps: each guess is recorded or about to be, and with the attempts to
    come they stay within the lock. -/
structure Bounded (key : κ) (s : State κ) : Prop where
  guesses_le : s.guesses key ≤ recorded key s.throttle + underWay key .rejected s
  attempts_le : recorded key s.throttle + underWay key .rejected s + underWay key .checked s ≤
    lockAttempts
  /-- A record is as old as the last failure. -/
  last_eq : ∀ a ∈ s.throttle.lookup key, s.lastFailed key = some a.last

lemma empty_bounded (key : κ) : Bounded key State.empty :=
  ⟨Nat.zero_le _, Nat.zero_le _, nofun⟩

lemma watch_bounded (h : Bounded key s) (now : Nat) :
    Bounded key { watch now s with throttle := prune now s.throttle } := by
  have hguesses : (watch now s).guesses key ≤ s.guesses key := by
    show (if Gap s now key then 0 else s.guesses key) ≤ _
    split
    · exact Nat.zero_le _
    · exact Nat.le_refl _
  have hlookup : (prune now s.throttle).lookup key = (s.throttle.lookup key).filter fun a =>
      Fresh now a := lookup_prune
  cases ha : s.throttle.lookup key with
  | none =>
    have hrecorded : recorded key (prune now s.throttle) = recorded key s.throttle :=
      recorded_congr (by rw [hlookup, ha]; rfl)
    refine ⟨?_, ?_, ?_⟩
    · exact hrecorded ▸ hguesses.trans h.guesses_le
    · exact hrecorded ▸ h.attempts_le
    · intro a hmem
      rw [hlookup, ha] at hmem
      cases hmem
  | some a =>
    by_cases hfresh : Fresh now a
    · have hsame : (prune now s.throttle).lookup key = s.throttle.lookup key := by
        rw [hlookup, ha, Option.filter_some, if_pos (decide_eq_true hfresh)]
      have hrecorded : recorded key (prune now s.throttle) = recorded key s.throttle :=
        recorded_congr hsame
      refine ⟨?_, ?_, ?_⟩
      · exact hrecorded ▸ hguesses.trans h.guesses_le
      · exact hrecorded ▸ h.attempts_le
      · exact hsame ▸ h.last_eq
    · have hgone : (prune now s.throttle).lookup key = none := by
        rw [hlookup, ha, Option.filter_some, if_neg (by simpa using hfresh)]
      have hgap : Gap s now key := ⟨a.last, h.last_eq a ha, Nat.not_lt.mp hfresh⟩
      have hzero : recorded key (prune now s.throttle) = 0 := by rw [recorded, hgone]; rfl
      refine ⟨?_, ?_, ?_⟩
      · show (if Gap s now key then 0 else s.guesses key) ≤ _
        rw [if_pos hgap]
        exact Nat.zero_le _
      · have hle := h.attempts_le
        show recorded key (prune now s.throttle) + underWay key .rejected s + underWay key .checked s ≤ _
        omega
      · intro b hmem
        rw [hgone] at hmem
        cases hmem

lemma watch_only_bounded (h : Bounded key s) (now : Nat) : Bounded key (watch now s) where
  guesses_le := by
    have hle := h.guesses_le
    show (if Gap s now key then 0 else s.guesses key) ≤ _
    split
    · exact Nat.zero_le _
    · exact hle
  attempts_le := h.attempts_le
  last_eq := h.last_eq

lemma count_of_ne (hne : k ≠ key) (from_ stage : Stage) (l : List (κ × Stage)) :
    (l.erase (k, from_)).count (key, stage) = l.count (key, stage) := by
  apply List.count_erase_of_ne
  exact fun heq => hne (congrArg Prod.fst heq).symm

lemma count_cons_of_ne (hne : k ≠ key) (to_ stage : Stage) (l : List (κ × Stage)) :
    ((k, to_) :: l).count (key, stage) = l.count (key, stage) := by
  apply List.count_cons_of_ne
  exact fun heq => hne (congrArg Prod.fst heq)

lemma count_erase_stage {from_ stage : Stage} (hne : from_ ≠ stage) (l : List (κ × Stage)) :
    (l.erase (key, from_)).count (key, stage) = l.count (key, stage) := by
  apply List.count_erase_of_ne
  exact fun heq => hne (congrArg Prod.snd heq).symm

lemma count_cons_stage {to_ stage : Stage} (hne : to_ ≠ stage) (l : List (κ × Stage)) :
    ((key, to_) :: l).count (key, stage) = l.count (key, stage) := by
  apply List.count_cons_of_ne
  exact fun heq => hne (congrArg Prod.snd heq)

lemma count_erase_mem {p : κ × Stage} {l : List (κ × Stage)} (h : p ∈ l) :
    (l.erase p).count p + 1 = l.count p := by
  have hpos := List.count_pos_iff.mpr h
  rw [List.count_erase_self]
  omega

lemma check_bounded (h : Bounded key { s with throttle := prune now s.throttle })
    (hcare : Careful key s (.check k now)) : Bounded key (act s (.check k now)) := by
  simp only [act]
  rw [decideAt_eq]
  by_cases hlock : lockAttempts ≤ recorded k (prune now s.throttle)
  · rw [if_pos hlock]
    exact h
  · rw [if_neg hlock]
    have hle := h.attempts_le
    have hguesses := h.guesses_le
    by_cases hkey : k = key
    · subst hkey
      have hroom := (hcare rfl).resolve_left hlock
      have hchecked : ((k, Stage.checked) :: s.attempts).count (k, .checked) =
          s.attempts.count (k, .checked) + 1 := List.count_cons_self
      have hrejected : ((k, Stage.checked) :: s.attempts).count (k, .rejected) =
          s.attempts.count (k, .rejected) := count_cons_stage (by decide) _
      refine ⟨?_, ?_, h.last_eq⟩
      · show s.guesses k ≤ recorded k _ + _
        rw [underWay, hrejected]
        exact hguesses
      · rw [underWay, underWay, hrejected, hchecked]
        simp only [underWay] at hroom
        show recorded k (prune now s.throttle) + _ + _ ≤ _
        omega
    · have hsame := count_cons_of_ne hkey .checked (l := s.attempts)
      refine ⟨?_, ?_, h.last_eq⟩
      · rw [underWay, hsame]
        exact hguesses
      · rw [underWay, underWay, hsame, hsame]
        exact hle

lemma leave_bounded (h : Bounded key s) : Bounded key (act s (.leave k now)) := by
  have hguesses := h.guesses_le
  have hle := h.attempts_le
  have hchecked : (s.attempts.erase (k, .checked)).count (key, .checked) ≤
      s.attempts.count (key, .checked) := List.Sublist.count_le _ List.erase_sublist
  have hrejected : (s.attempts.erase (k, .checked)).count (key, .rejected) =
      s.attempts.count (key, .rejected) := by
    apply List.count_erase_of_ne
    exact fun heq => nomatch congrArg Prod.snd heq
  refine ⟨?_, ?_, h.last_eq⟩
  · show s.guesses key ≤ recorded key s.throttle + _
    rw [underWay, act, hrejected]
    exact hguesses
  · show recorded key s.throttle + _ + _ ≤ _
    simp only [underWay, act] at hle ⊢
    omega

/-- A wrong secret leaves the attempts to come and waits to be recorded. -/
lemma verify_bounded (h : Bounded key s) (right : Bool) :
    Bounded key (act s (.verify k right now)) := by
  have hguesses := h.guesses_le
  have hle := h.attempts_le
  simp only [act]
  by_cases hmem : (k, Stage.checked) ∈ s.attempts
  case neg => rwa [if_neg hmem]
  rw [if_pos hmem]
  by_cases hkey : k = key
  · subst hkey
    have hone := count_erase_mem hmem
    have hrejected : (s.attempts.erase (k, .checked)).count (k, .rejected) =
        s.attempts.count (k, .rejected) := count_erase_stage (by decide) _
    cases right with
    | true =>
      have hc : ((k, Stage.accepted) :: s.attempts.erase (k, .checked)).count (k, .checked) =
          (s.attempts.erase (k, .checked)).count (k, .checked) := count_cons_stage (by decide) _
      have hr : ((k, Stage.accepted) :: s.attempts.erase (k, .checked)).count (k, .rejected) =
          (s.attempts.erase (k, .checked)).count (k, .rejected) := count_cons_stage (by decide) _
      simp only [underWay] at hguesses hle
      refine ⟨?_, ?_, h.last_eq⟩
      · simp only [underWay, hr, hrejected, if_true]
        exact hguesses
      · simp only [underWay, hr, hc, hrejected, if_true]
        omega
    | false =>
      have hc : ((k, Stage.rejected) :: s.attempts.erase (k, .checked)).count (k, .checked) =
          (s.attempts.erase (k, .checked)).count (k, .checked) := count_cons_stage (by decide) _
      have hr : ((k, Stage.rejected) :: s.attempts.erase (k, .checked)).count (k, .rejected) =
          (s.attempts.erase (k, .checked)).count (k, .rejected) + 1 := List.count_cons_self
      simp only [underWay] at hguesses hle
      refine ⟨?_, ?_, h.last_eq⟩
      · simp only [underWay, hr, hrejected, if_false, Bool.false_eq_true, Function.update_self]
        omega
      · simp only [underWay, hr, hc, hrejected, if_false, Bool.false_eq_true]
        omega
  · have hcount : ∀ to_ stage, ((k, to_) :: s.attempts.erase (k, .checked)).count (key, stage) =
        s.attempts.count (key, stage) := by
      intro to_ stage
      rw [count_cons_of_ne hkey, count_of_ne hkey]
    cases right with
    | true =>
      refine ⟨?_, ?_, h.last_eq⟩
      · simp only [underWay, hcount, if_true]
        exact hguesses
      · simp only [underWay, hcount, if_true]
        exact hle
    | false =>
      refine ⟨?_, ?_, h.last_eq⟩
      · simp only [underWay, hcount, if_false, Bool.false_eq_true,
          Function.update_of_ne (Ne.symm hkey)]
        exact hguesses
      · simp only [underWay, hcount, if_false, Bool.false_eq_true]
        exact hle

lemma recordFailure_bounded (order : List κ) (h : Bounded key s)
    (hp : Bounded key { s with throttle := prune now s.throttle })
    (hcare : Careful key s (.recordFailure k now order)) :
    Bounded key (act s (.recordFailure k now order)) := by
  simp only [act]
  by_cases hmem : (k, Stage.rejected) ∈ s.attempts
  case neg => rwa [if_neg hmem]
  rw [if_pos hmem]
  have hguesses := hp.guesses_le
  have hle := hp.attempts_le
  simp only [underWay] at hguesses hle
  by_cases hkey : k = key
  · subst hkey
    have hone := count_erase_mem hmem
    have hchecked : (s.attempts.erase (k, .rejected)).count (k, .checked) =
        s.attempts.count (k, .checked) := count_erase_stage (by decide) _
    have hself : (recordFailureAt k now order s.throttle).lookup k =
        some ⟨min (recorded k (prune now s.throttle) + 1) maxFailures, now⟩ :=
      recordFailureAt_self order
    have hrecorded : recorded k (recordFailureAt k now order s.throttle) =
        recorded k (prune now s.throttle) + 1 := by
      rw [recorded, hself]
      apply Nat.min_eq_left
      have : lockAttempts < maxFailures := by decide
      omega
    refine ⟨?_, ?_, ?_⟩
    · simp only [underWay, hrecorded]
      omega
    · simp only [underWay, hrecorded, hchecked]
      omega
    · intro a ha
      rw [hself] at ha
      cases ha
      exact Function.update_self _ _ _
  · have hother := recordFailureAt_of_ne order (Ne.symm hkey) (hcare hkey)
    have hrecorded := recorded_congr hother
    refine ⟨?_, ?_, ?_⟩
    · simp only [underWay, hrecorded, count_of_ne hkey]
      exact hguesses
    · simp only [underWay, hrecorded, count_of_ne hkey]
      exact hle
    · intro a ha
      rw [hother] at ha
      exact (Function.update_of_ne (Ne.symm hkey) _ _).trans (hp.last_eq a ha)

lemma recordSuccess_bounded (h : Bounded key s) :
    Bounded key (act s (.recordSuccess k now)) := by
  simp only [act]
  by_cases hmem : (k, Stage.accepted) ∈ s.attempts
  case neg => rwa [if_neg hmem]
  rw [if_pos hmem]
  have hguesses := h.guesses_le
  have hle := h.attempts_le
  simp only [underWay] at hguesses hle
  by_cases hkey : k = key
  · subst hkey
    have hnone : (recordSuccess k s.throttle).lookup k = none := AList.lookup_erase _ _
    have hrecorded : recorded k (recordSuccess k s.throttle) = 0 := by rw [recorded, hnone]; rfl
    have hchecked : (s.attempts.erase (k, .accepted)).count (k, .checked) =
        s.attempts.count (k, .checked) := count_erase_stage (by decide) _
    have hrejected : (s.attempts.erase (k, .accepted)).count (k, .rejected) =
        s.attempts.count (k, .rejected) := count_erase_stage (by decide) _
    refine ⟨?_, ?_, ?_⟩
    · simp only [Function.update_self]
      exact Nat.zero_le _
    · simp only [underWay, hrecorded, hchecked, hrejected]
      omega
    · intro a ha
      rw [hnone] at ha
      cases ha
  · have hother : (recordSuccess k s.throttle).lookup key = s.throttle.lookup key :=
      AList.lookup_erase_ne (Ne.symm hkey)
    have hrecorded := recorded_congr hother
    refine ⟨?_, ?_, ?_⟩
    · simp only [underWay, hrecorded, count_of_ne hkey, Function.update_of_ne (Ne.symm hkey)]
      exact hguesses
    · simp only [underWay, hrecorded, count_of_ne hkey]
      exact hle
    · exact hother ▸ h.last_eq

lemma step_bounded (s : State κ) (a : Act κ) (h : Bounded key s) (hcare : Careful key s a) :
    Bounded key (step s a) := by
  have hwatch := watch_only_bounded h a.now
  cases a with
  | check k now => exact check_bounded (watch_bounded h now) hcare
  | leave k now => exact leave_bounded hwatch
  | verify k right now => exact verify_bounded hwatch right
  | recordFailure k now order => exact recordFailure_bounded order hwatch (watch_bounded h now) hcare
  | recordSuccess k now => exact recordSuccess_bounded hwatch

/-- A wrong secret and a right one for one link, with a wrong one for another in between. -/
def tidyAttempts : List (Act String) :=
  [.check "unlock:a" 0, .check "unlock:b" 0, .verify "unlock:b" false 1, .verify "unlock:a" false 2,
    .recordFailure "unlock:b" 3 [], .recordFailure "unlock:a" 4 [], .check "unlock:a" 5,
    .verify "unlock:a" true 6, .recordSuccess "unlock:a" 7]

/-- One guess more than the lock allows, all let through before the first of them is recorded. -/
def sideBySide : List (Act String) :=
  List.replicate (lockAttempts + 1) (.check "unlock:a" 0) ++
    List.replicate (lockAttempts + 1) (.verify "unlock:a" false 1)

end Throttle
end Sarca.Server
