import Mathlib.Algebra.Order.Archimedean.Basic
import Mathlib.Data.Rat.Floor
import Mathlib.Tactic.Linarith
import Mathlib.Tactic.NormNum
import Sarca.Lib.Double
import Sarca.Lib.Run
import Sarca.Lib.Text

/-!
# The uplink governor

`resolveLimits` sets the ceiling, `State` is what is in force now. `noteOk` counts clean sends and steps up
after `recoveryStreak` of them, `backOffAt` halves rate and streams, failures within `backoffDebounce` of the
last one apart. Rates are rationals, instants are nanoseconds.

The floor of the back-off knows nothing of the ceiling. `governor_iff` shows that the governor keeps its
ceiling, never rises on a failure and climbs back to the ceiling, just when the operator asks for no rate
below the floor.
-/

namespace Sarca.Server
open Sarca.Lib

/-- `Profile` -/
inductive Profile where
  | constrained
  | standard
  deriving DecidableEq

/-- `Limits`; a rate is bytes per second, `none` for no cap. -/
structure Limits where
  profile : Profile
  rate : Option ℚ
  streams : Nat
  reason : List Char

/-- `HostFacts`: the board, whether a container hides the interfaces, and the interface of the default
    route with whether it is wireless. -/
structure HostFacts where
  model : Option (List Char)
  inContainer : Bool
  uplink : Option (List Char × Bool)

namespace Uplink

/-- `MIB` -/
def mib : ℚ := 1024 * 1024
/-- `CONSTRAINED_RATE_MIB` -/
def constrainedRateMib : ℚ := 7
/-- `CONSTRAINED_STREAMS` -/
def constrainedStreams : Nat := 2
/-- `STANDARD_STREAMS` -/
def standardStreams : Nat := 6
/-- `FLOOR_RATE_MIB` -/
def floorRateMib : ℚ := 1
/-- `UNCAPPED_ASSUMED_RATE_MIB` -/
def uncappedAssumedRateMib : ℚ := 16
/-- `UNCAPPED_LIFT_RATE_MIB` -/
def uncappedLiftRateMib : ℚ := 64
/-- `RECOVERY_STREAK` -/
def recoveryStreak : Nat := 6
/-- `RECOVERY_FACTOR` -/
def recoveryFactor : ℚ := 5 / 4
/-- `BACKOFF_FACTOR` -/
def backoffFactor : ℚ := 1 / 2
/-- `BACKOFF_DEBOUNCE`, in nanoseconds. -/
def backoffDebounce : Nat := 10000000000
/-- `MIN_OVERRIDE_RATE_MIB` -/
def minOverrideRateMib : ℚ := 1 / 4
/-- `MAX_STREAMS` -/
def maxStreams : Nat := 16
/-- `f64::EPSILON` -/
def epsilon : ℚ := 1 / 4503599627370496

/-- Rust `classify`: which profile the facts point to, and why. -/
def classify (facts : HostFacts) : Profile × List Char :=
  match facts.inContainer, facts.uplink with
  | false, some (iface, true) =>
    (.constrained, "uplink ".toList ++ iface ++ " is Wi-Fi".toList)
  | false, some (iface, false) =>
    (.standard, "uplink ".toList ++ iface ++ " is wired".toList)
  | inContainer, _ =>
    match facts.model with
    | none => (.standard, "no Wi-Fi uplink detected".toList)
    | some model =>
      if model.tails.any ("Raspberry Pi".toList.isPrefixOf ·) then
        (.constrained, model ++
          if inContainer then
            "; the host's network is not visible from the container, so assuming ".toList ++
              "its on-board SDIO Wi-Fi".toList
          else "; uplink unknown, so assuming its on-board SDIO Wi-Fi".toList)
      else (.standard, "no Wi-Fi uplink detected".toList)

/-- The profile asked for, else the one detected. -/
def chooseProfile (facts : HostFacts) (profileEnv : Option (List Char)) : Profile × List Char :=
  match profileEnv.map fun p => (trim p).map Char.toLower with
  | some asked =>
    if asked = "constrained".toList then (.constrained, "UPLINK_PROFILE=constrained".toList)
    else if asked = "standard".toList then (.standard, "UPLINK_PROFILE=standard".toList)
    else classify facts
  | none => classify facts

def profileDefaults : Profile → Option ℚ × Nat
  | .constrained => (some (constrainedRateMib * mib), constrainedStreams)
  | .standard => (none, standardStreams)

/-- `TELEGRAM_UPLOAD_RATE_MB` as a number, when it is one. -/
def askedRate (rateEnv : Option (List Char)) : Option Double :=
  rateEnv.bind fun text => parseF64 (trim text)

/-- The rate of an override, or the default one. -/
def overrideRate (default : Option ℚ) : Option Double → Option ℚ
  | some (.finite asked) =>
    if 0 < asked then some (max asked minOverrideRateMib * mib)
    else if |asked| < epsilon then none
    else default
  | _ => default

/-- Rust `resolve_limits`. -/
def resolveLimits (facts : HostFacts) (profileEnv rateEnv streamsEnv : Option (List Char)) :
    Limits :=
  let (profile, reason) := chooseProfile facts profileEnv
  let (defaultRate, defaultStreams) := profileDefaults profile
  { profile
    rate := overrideRate defaultRate (askedRate rateEnv)
    streams :=
      match streamsEnv.bind fun text => parseU64 (trim text) with
      | some n => min (max n 1) maxStreams
      | none => defaultStreams
    reason }

/-- `State`, without the pacer's clock, which neither rate nor streams depend on. -/
structure State where
  rate : Option ℚ
  streams : Nat
  inFlight : Nat
  okStreak : Nat
  lastBackoff : Option Nat

/-- Rust `Uplink::new`. -/
def new (ceiling : Limits) : State :=
  { rate := ceiling.rate, streams := max ceiling.streams 1, inFlight := 0, okStreak := 0,
    lastBackoff := none }

/-- The rate after a full streak: up to the ceiling, and without one until the cap is pointless. -/
def stepUpRate (ceiling rate : Option ℚ) : Option ℚ :=
  rate.bind fun rate =>
    let next := rate * recoveryFactor
    match ceiling with
    | none => if next < uncappedLiftRateMib * mib then some next else none
    | some top => some (min next top)

/-- Rust `Uplink::note_ok`. -/
def noteOk (ceiling : Limits) (s : State) : State :=
  if s.okStreak + 1 < recoveryStreak then { s with okStreak := s.okStreak + 1 }
  else
    { s with
      okStreak := 0
      streams := min (s.streams + 1) ceiling.streams
      rate := stepUpRate ceiling.rate s.rate }

/-- Rust `Uplink::back_off_at`. -/
def backOffAt (now : Nat) (s : State) : State :=
  if s.lastBackoff.any fun last => now - last < backoffDebounce then { s with okStreak := 0 }
  else
    let current := s.rate.getD (uncappedAssumedRateMib * mib)
    { s with
      okStreak := 0
      lastBackoff := some now
      rate := some (max (current * backoffFactor) (floorRateMib * mib))
      streams := max (s.streams / 2) 1 }

/-- Rust `Uplink::try_take_slot`. -/
def tryTakeSlot (s : State) : State :=
  if s.inFlight < s.streams then { s with inFlight := s.inFlight + 1 } else s

/-- `StreamSlot::drop`; a slot is only dropped by the request that took it. -/
def dropSlot (s : State) : State :=
  { s with inFlight := s.inFlight - 1 }

inductive Act where
  | noteOk
  | transportError (now : Nat)
  | tryTakeSlot
  | dropSlot
  deriving DecidableEq

def step (ceiling : Limits) (s : State) : Act → State
  | .noteOk => noteOk ceiling s
  | .transportError now => backOffAt now s
  | .tryTakeSlot => tryTakeSlot s
  | .dropSlot => dropSlot s

/-- One rate is no higher than another; no cap is the highest. -/
def RateLe (a b : Option ℚ) : Prop :=
  ∀ top ∈ b, ∃ rate ∈ a, rate ≤ top

def AtCeiling (ceiling : Limits) (s : State) : Prop :=
  s.rate = ceiling.rate ∧ s.streams = ceiling.streams

/-- The clean sends among what reaches the governor. -/
def cleanSends (acts : List Act) : Nat :=
  acts.count .noteOk

def NoErrors (acts : List Act) : Prop :=
  ∀ a ∈ acts, ∀ now, a ≠ .transportError now

/-- What the governor promises in a state: it is inside the ceiling, a failure raises nothing, and enough
    clean sends lead to the ceiling and stay there. -/
structure Governed (ceiling : Limits) (s : State) : Prop where
  streams_pos : 1 ≤ s.streams
  streams_le : s.streams ≤ ceiling.streams
  rate_le : RateLe s.rate ceiling.rate
  error_streams : ∀ now, (backOffAt now s).streams ≤ s.streams
  error_rate : ∀ now, RateLe (backOffAt now s).rate s.rate
  recovers : ∃ enough, ∀ acts, NoErrors acts → enough ≤ cleanSends acts →
    AtCeiling ceiling (run (step ceiling) s acts)

variable {ceiling : Limits} {s : State} {a b c : Option ℚ}

lemma RateLe.refl (a : Option ℚ) : RateLe a a :=
  fun top h => ⟨top, h, le_refl top⟩

lemma rateLe_some {x y : ℚ} (h : x ≤ y) : RateLe (some x) (some y) := by
  rintro top ⟨⟩
  exact ⟨x, rfl, h⟩

/-- What holds of every state under a ceiling that lies above the floor. -/
structure Sound (ceiling : Limits) (s : State) : Prop where
  streams_pos : 1 ≤ s.streams
  streams_le : s.streams ≤ ceiling.streams
  rate_le : RateLe s.rate ceiling.rate
  /-- The rate is never below the floor, so a failure cannot lift it there. -/
  floor_le : ∀ rate ∈ s.rate, floorRateMib * mib ≤ rate
  streak_lt : s.okStreak < recoveryStreak

def AboveFloor (ceiling : Limits) : Prop :=
  ∀ top ∈ ceiling.rate, floorRateMib * mib ≤ top

lemma recoveryStreak_pos : 0 < recoveryStreak := by decide

lemma new_sound (hpos : 1 ≤ ceiling.streams) (hfloor : AboveFloor ceiling) :
    Sound ceiling (new ceiling) where
  streams_pos := le_max_right _ _
  streams_le := (max_eq_left hpos).le
  rate_le := RateLe.refl _
  floor_le := hfloor
  streak_lt := recoveryStreak_pos

lemma stepUpRate_some {ceiling rate : Option ℚ} {after : ℚ} (h : stepUpRate ceiling rate = some after) :
    ∃ before, rate = some before ∧
      ((ceiling = none ∧ after = before * recoveryFactor) ∨
        ∃ top, ceiling = some top ∧ after = min (before * recoveryFactor) top) := by
  obtain ⟨before, rfl, hafter⟩ := Option.bind_eq_some_iff.mp h
  refine ⟨before, rfl, ?_⟩
  cases ceiling with
  | none =>
    simp only at hafter
    split at hafter
    · exact .inl ⟨rfl, (Option.some.inj hafter).symm⟩
    · cases hafter
  | some top => exact .inr ⟨top, rfl, (Option.some.inj hafter).symm⟩

lemma floor_pos : 0 < floorRateMib * mib := by norm_num [floorRateMib, mib]

lemma stepUpRate_le (hle : RateLe a c) : RateLe (stepUpRate c a) c := by
  intro top htop
  obtain ⟨rate, hrate, -⟩ := hle top htop
  cases htop
  cases hrate
  exact ⟨_, rfl, min_le_right _ _⟩

lemma floor_le_stepUpRate (hfloor : ∀ top ∈ c, floorRateMib * mib ≤ top)
    (ha : ∀ rate ∈ a, floorRateMib * mib ≤ rate) :
    ∀ rate ∈ stepUpRate c a, floorRateMib * mib ≤ rate := by
  intro rate hrate
  obtain ⟨before, rfl, hcase⟩ := stepUpRate_some hrate
  have hbefore := ha before rfl
  have hnext : floorRateMib * mib ≤ before * recoveryFactor := by
    have := floor_pos
    simp only [recoveryFactor]
    linarith
  cases hcase with
  | inl h => exact h.2 ▸ hnext
  | inr h =>
    obtain ⟨top, rfl, rfl⟩ := h
    exact le_min hnext (hfloor top rfl)

lemma noteOk_sound (hpos : 1 ≤ ceiling.streams) (hfloor : AboveFloor ceiling)
    (hs : Sound ceiling s) : Sound ceiling (noteOk ceiling s) := by
  unfold noteOk
  split
  case isTrue hlt => exact { hs with streak_lt := hlt }
  case isFalse =>
    exact
      { streams_pos := le_min (Nat.le_add_left 1 s.streams) hpos
        streams_le := min_le_right _ _
        rate_le := stepUpRate_le hs.rate_le
        floor_le := floor_le_stepUpRate hfloor hs.floor_le
        streak_lt := recoveryStreak_pos }

lemma backOffAt_cases (now : Nat) (s : State) :
    backOffAt now s = { s with okStreak := 0 } ∨
      backOffAt now s =
        { s with
          okStreak := 0
          lastBackoff := some now
          rate := some (max (s.rate.getD (uncappedAssumedRateMib * mib) * backoffFactor)
            (floorRateMib * mib))
          streams := max (s.streams / 2) 1 } := by
  unfold backOffAt
  split
  · exact .inl rfl
  · exact .inr rfl

lemma backedOff_le (hfloor : ∀ rate ∈ a, floorRateMib * mib ≤ rate) :
    RateLe (some (max (a.getD (uncappedAssumedRateMib * mib) * backoffFactor) (floorRateMib * mib))) a := by
  intro rate hrate
  cases hrate
  refine ⟨_, rfl, max_le ?_ (hfloor rate rfl)⟩
  have hle := hfloor rate rfl
  have := floor_pos
  simp only [Option.getD_some, backoffFactor]
  linarith

lemma RateLe.trans (hab : RateLe a b) (hbc : RateLe b c) : RateLe a c := by
  intro top htop
  obtain ⟨y, hy, hyc⟩ := hbc top htop
  obtain ⟨x, hx, hxy⟩ := hab y hy
  exact ⟨x, hx, hxy.trans hyc⟩

lemma backOffAt_le (hs : Sound ceiling s) (now : Nat) :
    (backOffAt now s).streams ≤ s.streams ∧ RateLe (backOffAt now s).rate s.rate := by
  rcases backOffAt_cases now s with h | h
  · rw [h]
    exact ⟨le_refl _, RateLe.refl _⟩
  · rw [h]
    exact ⟨max_le (Nat.div_le_self _ _) hs.streams_pos, backedOff_le hs.floor_le⟩

lemma backOffAt_sound (hs : Sound ceiling s) (now : Nat) : Sound ceiling (backOffAt now s) := by
  obtain ⟨hstreams, hrate⟩ := backOffAt_le hs now
  refine ⟨?_, hstreams.trans hs.streams_le, hrate.trans hs.rate_le, ?_, ?_⟩
  all_goals rcases backOffAt_cases now s with h | h
  all_goals rw [h]
  · exact hs.streams_pos
  · exact le_max_right _ _
  · exact hs.floor_le
  · rintro rate ⟨⟩
    exact le_max_right _ _
  · exact recoveryStreak_pos
  · exact recoveryStreak_pos

lemma tryTakeSlot_frame (s : State) :
    (tryTakeSlot s).rate = s.rate ∧ (tryTakeSlot s).streams = s.streams ∧
      (tryTakeSlot s).okStreak = s.okStreak := by
  unfold tryTakeSlot
  split
  · exact ⟨rfl, rfl, rfl⟩
  · exact ⟨rfl, rfl, rfl⟩

lemma step_sound (hpos : 1 ≤ ceiling.streams) (hfloor : AboveFloor ceiling)
    (s : State) (act : Act) (hs : Sound ceiling s) : Sound ceiling (step ceiling s act) := by
  cases act with
  | noteOk => exact noteOk_sound hpos hfloor hs
  | transportError now => exact backOffAt_sound hs now
  | tryTakeSlot =>
    obtain ⟨hrate, hstreams, hstreak⟩ := tryTakeSlot_frame s
    refine ⟨?_, ?_, ?_, ?_, ?_⟩
    · exact hstreams ▸ hs.streams_pos
    · exact hstreams ▸ hs.streams_le
    · exact hrate ▸ hs.rate_le
    · exact hrate ▸ hs.floor_le
    · exact hstreak ▸ hs.streak_lt
  | dropSlot => exact { hs with }

/-- The full streaks among the clean sends to come. -/
def stepUps (s : State) (acts : List Act) : Nat :=
  (s.okStreak + cleanSends acts) / recoveryStreak

/-- Without a failure, each full streak is one step up and nothing else moves the budget. -/
lemma run_clean (ceiling : Limits) {acts : List Act} (hclean : NoErrors acts) (hs : s.okStreak < recoveryStreak) :
    (run (step ceiling) s acts).rate = (stepUpRate ceiling.rate)^[stepUps s acts] s.rate ∧
      (run (step ceiling) s acts).streams =
        (fun n => min (n + 1) ceiling.streams)^[stepUps s acts] s.streams := by
  induction acts generalizing s with
  | nil =>
    have hnone : stepUps s [] = 0 := Nat.div_eq_of_lt hs
    rw [hnone]
    exact ⟨rfl, rfl⟩
  | cons act acts ih =>
    have hrest : NoErrors acts := fun b hb => hclean b (List.mem_cons_of_mem act hb)
    cases act with
    | noteOk =>
      by_cases hlt : s.okStreak + 1 < recoveryStreak
      · have hnote : noteOk ceiling s = { s with okStreak := s.okStreak + 1 } := if_pos hlt
        have hups : stepUps s (.noteOk :: acts) =
            stepUps { s with okStreak := s.okStreak + 1 } acts := by
          simp only [stepUps, cleanSends, List.count_cons_self]
          congr 1
          omega
        rw [run_cons, step, hnote, hups]
        exact ih hrest hlt
      · have hnote : noteOk ceiling s =
            { s with
              okStreak := 0
              streams := min (s.streams + 1) ceiling.streams
              rate := stepUpRate ceiling.rate s.rate } := if_neg hlt
        have hups : stepUps s (.noteOk :: acts) = stepUps (noteOk ceiling s) acts + 1 := by
          have hstreak : s.okStreak + 1 = recoveryStreak := by omega
          rw [hnote]
          simp only [stepUps, cleanSends, List.count_cons_self]
          rw [← Nat.add_assoc, Nat.add_right_comm, hstreak, Nat.add_comm,
            Nat.add_div_right _ recoveryStreak_pos, Nat.zero_add]
        rw [run_cons, step, hups, Function.iterate_succ_apply, Function.iterate_succ_apply]
        have h := ih (s := noteOk ceiling s) hrest (by rw [hnote]; exact recoveryStreak_pos)
        rw [h.1, h.2, hnote]
        exact ⟨rfl, rfl⟩
    | transportError now => exact absurd rfl (hclean _ List.mem_cons_self now)
    | tryTakeSlot =>
      obtain ⟨hrate, hstreams, hstreak⟩ := tryTakeSlot_frame s
      have hups : stepUps s (.tryTakeSlot :: acts) = stepUps (tryTakeSlot s) acts := by
        simp [stepUps, cleanSends, hstreak]
      rw [run_cons, step, hups]
      have h := ih (s := tryTakeSlot s) hrest (hstreak ▸ hs)
      rw [h.1, h.2, hrate, hstreams]
      exact ⟨rfl, rfl⟩
    | dropSlot =>
      have hups : stepUps s (.dropSlot :: acts) = stepUps (dropSlot s) acts := by
        simp [stepUps, cleanSends, dropSlot]
      rw [run_cons, step, hups]
      exact ih (s := dropSlot s) hrest hs

lemma streams_iterate (top n k : Nat) (hn : n ≤ top) :
    (fun n => min (n + 1) top)^[k] n = min (n + k) top := by
  induction k with
  | zero => exact (min_eq_left hn).symm
  | succ k ih =>
    rw [Function.iterate_succ_apply', ih]
    omega

lemma rate_iterate_capped (top rate : ℚ) (k : Nat) (htop : 0 < top) (hrate : rate ≤ top) :
    (stepUpRate (some top))^[k] (some rate) = some (min (rate * recoveryFactor ^ k) top) := by
  induction k with
  | zero => simp [hrate]
  | succ k ih =>
    rw [Function.iterate_succ_apply', ih]
    show some (min (min (rate * recoveryFactor ^ k) top * recoveryFactor) top) = _
    congr 1
    have hgrow : top ≤ top * recoveryFactor := by
      simp only [recoveryFactor]
      linarith
    rw [min_mul_of_nonneg _ _ (by norm_num [recoveryFactor]), min_assoc, min_eq_right hgrow, pow_succ,
      mul_assoc]

lemma rate_iterate_uncapped (rate : ℚ) (k : Nat) :
    (stepUpRate none)^[k + 1] (some rate) = none ∨
      ((stepUpRate none)^[k + 1] (some rate) = some (rate * recoveryFactor ^ (k + 1)) ∧
        rate * recoveryFactor ^ (k + 1) < uncappedLiftRateMib * mib) := by
  have hstep : ∀ r, stepUpRate none (some r) =
      if r * recoveryFactor < uncappedLiftRateMib * mib then some (r * recoveryFactor) else none :=
    fun _ => rfl
  induction k with
  | zero =>
    rw [Function.iterate_one, hstep, Nat.zero_add, pow_one]
    split
    case isTrue hlt => exact .inr ⟨rfl, hlt⟩
    case isFalse => exact .inl rfl
  | succ k ih =>
    rw [Function.iterate_succ_apply']
    rcases ih with h | ⟨h, -⟩
    · exact .inl (by rw [h]; rfl)
    · rw [h, hstep, mul_assoc, ← pow_succ]
      split
      case isTrue hlt => exact .inr ⟨rfl, hlt⟩
      case isFalse => exact .inl rfl

lemma exists_factor_pow {rate : ℚ} (hrate : 0 < rate) (bound : ℚ) :
    ∃ k, ∀ n, k ≤ n → bound ≤ rate * recoveryFactor ^ n := by
  have hfactor : (1 : ℚ) < recoveryFactor := by norm_num [recoveryFactor]
  obtain ⟨k, hk⟩ := pow_unbounded_of_one_lt (bound / rate) hfactor
  refine ⟨k, fun n hn => ?_⟩
  have hpow := pow_le_pow_right₀ hfactor.le hn
  have := (div_lt_iff₀ hrate).mp hk
  have hmul := mul_le_mul_of_nonneg_left hpow hrate.le
  linarith

lemma rate_recovers (hs : Sound ceiling s) :
    ∃ k, ∀ n, k ≤ n → (stepUpRate ceiling.rate)^[n] s.rate = ceiling.rate := by
  cases htop : ceiling.rate with
  | none =>
    cases hrate : s.rate with
    | none =>
      refine ⟨0, fun n _ => ?_⟩
      exact Function.iterate_fixed rfl n
    | some rate =>
      have hpos : 0 < rate := floor_pos.trans_le (hs.floor_le rate hrate)
      obtain ⟨k, hk⟩ := exists_factor_pow hpos (uncappedLiftRateMib * mib)
      refine ⟨k + 1, fun n hn => ?_⟩
      obtain ⟨m, rfl⟩ := Nat.exists_eq_add_of_le' (Nat.one_le_of_lt hn)
      cases rate_iterate_uncapped rate m with
      | inl h => exact h
      | inr h => exact absurd (hk (m + 1) (Nat.le_of_succ_le hn)) (not_le.mpr h.2)
  | some top =>
    obtain ⟨rate, hrate, hle⟩ := hs.rate_le top htop
    have hpos : 0 < rate := floor_pos.trans_le (hs.floor_le rate hrate)
    obtain ⟨k, hk⟩ := exists_factor_pow hpos top
    refine ⟨k, fun n hn => ?_⟩
    rw [Option.mem_def.mp hrate, rate_iterate_capped top rate n (hpos.trans_le hle) hle,
      min_eq_right (hk n hn)]

lemma recovers (hs : Sound ceiling s) :
    ∃ enough, ∀ acts, NoErrors acts → enough ≤ cleanSends acts →
      AtCeiling ceiling (run (step ceiling) s acts) := by
  obtain ⟨k, hk⟩ := rate_recovers hs
  refine ⟨recoveryStreak * (k + ceiling.streams), fun acts hclean henough => ?_⟩
  have hups : k + ceiling.streams ≤ stepUps s acts := by
    apply (Nat.le_div_iff_mul_le recoveryStreak_pos).mpr
    rw [Nat.mul_comm]
    exact henough.trans (Nat.le_add_left _ _)
  obtain ⟨hrate, hstreams⟩ := run_clean ceiling hclean hs.streak_lt
  constructor
  · rw [hrate]
    exact hk _ (by omega)
  · rw [hstreams, streams_iterate _ _ _ hs.streams_le]
    exact min_eq_right (by omega)

lemma Sound.governed (hs : Sound ceiling s) : Governed ceiling s where
  streams_pos := hs.streams_pos
  streams_le := hs.streams_le
  rate_le := hs.rate_le
  error_streams := fun now => (backOffAt_le hs now).1
  error_rate := fun now => (backOffAt_le hs now).2
  recovers := recovers hs

lemma governed_iff_aboveFloor (hpos : 1 ≤ ceiling.streams) :
    (∀ acts, Governed ceiling (run (step ceiling) (new ceiling) acts)) ↔ AboveFloor ceiling := by
  constructor
  · intro h top htop
    obtain ⟨rate, hrate, hle⟩ := (h [.transportError 0]).rate_le top htop
    cases hrate
    exact (le_max_right _ _).trans hle
  · intro hfloor acts
    exact (run_invariant (step_sound hpos hfloor) (new_sound hpos hfloor) acts).governed

lemma profileDefaults_pos (profile : Profile) : 1 ≤ (profileDefaults profile).2 := by
  cases profile with
  | constrained => decide
  | standard => decide

lemma profileDefaults_rate (profile : Profile) :
    ∀ top ∈ (profileDefaults profile).1, floorRateMib * mib ≤ top := by
  cases profile with
  | constrained =>
    rintro top ⟨⟩
    norm_num [floorRateMib, constrainedRateMib, mib]
  | standard => exact nofun

variable (facts : HostFacts) (profileEnv rateEnv streamsEnv : Option (List Char))

lemma resolveLimits_streams_pos :
    1 ≤ (resolveLimits facts profileEnv rateEnv streamsEnv).streams := by
  simp only [resolveLimits]
  split
  · exact le_min (le_max_right _ _) (by decide)
  · exact profileDefaults_pos _

/-- A rate that is asked for lies below the floor. -/
def AsksBelowFloor (rateEnv : Option (List Char)) : Prop :=
  ∃ asked, askedRate rateEnv = some (.finite asked) ∧ 0 < asked ∧ asked < floorRateMib

lemma resolveLimits_aboveFloor :
    AboveFloor (resolveLimits facts profileEnv rateEnv streamsEnv) ↔ ¬AsksBelowFloor rateEnv := by
  have hmib : 0 < mib := by norm_num [mib]
  have hdefault := profileDefaults_rate (chooseProfile facts profileEnv).1
  simp only [AboveFloor, resolveLimits, AsksBelowFloor]
  generalize askedRate rateEnv = parsed
  constructor
  · rintro habove ⟨asked, rfl, hpos, hlt⟩
    have hle := habove _ (if_pos hpos)
    have hmax := le_of_mul_le_mul_right hle hmib
    have : max asked minOverrideRateMib < floorRateMib := max_lt hlt (by norm_num [minOverrideRateMib, floorRateMib])
    linarith
  · intro hnot top htop
    match parsed with
    | none => exact hdefault top htop
    | some .nan => exact hdefault top htop
    | some (.infinite _) => exact hdefault top htop
    | some (.finite asked) =>
      simp only [overrideRate] at htop
      split at htop
      case isTrue hpos =>
        cases htop
        have hge : floorRateMib ≤ asked := not_lt.mp fun hlt => hnot ⟨asked, rfl, hpos, hlt⟩
        exact mul_le_mul_of_nonneg_right (hge.trans (le_max_left _ _)) hmib.le
      case isFalse =>
        split at htop
        · cases htop
        · exact hdefault top htop

/-- For every host and every override, the governor keeps its promises in every run just when no rate
    below the floor is asked for. -/
theorem governor_iff :
    (∀ acts, let ceiling := resolveLimits facts profileEnv rateEnv streamsEnv
      Governed ceiling (run (step ceiling) (new ceiling) acts)) ↔ ¬AsksBelowFloor rateEnv :=
  (governed_iff_aboveFloor (resolveLimits_streams_pos facts profileEnv rateEnv streamsEnv)).trans
    (resolveLimits_aboveFloor facts profileEnv rateEnv streamsEnv)

/-- The limits of an operator who asks for a quarter of a MiB a second. -/
def quarterLimits : Limits :=
  resolveLimits ⟨none, false, none⟩ none (some "0.25".toList) none

/-- One failure lifts the rate above such a ceiling. -/
theorem quarter_lifted : ¬Governed quarterLimits
    (run (step quarterLimits) (new quarterLimits) [.transportError 0]) := by
  intro h
  have hceiling : quarterLimits.rate = some (262144 : ℚ) := by decide +kernel
  have hrate : (run (step quarterLimits) (new quarterLimits) [.transportError 0]).rate =
      some (1048576 : ℚ) := by decide +kernel
  obtain ⟨rate, hmem, hle⟩ := h.rate_le _ hceiling
  rw [hrate] at hmem
  cases hmem
  norm_num at hle

end Uplink
end Sarca.Server
