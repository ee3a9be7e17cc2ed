import Mathlib.Data.List.Lex
import Mathlib.Data.Char
import Mathlib.Tactic.Tauto
import Mathlib.Order.Monotone.Basic
import Mathlib.Algebra.Order.Ring.Nat

/-!
# Points in time as texts

A point in time is a number of nanoseconds since the first of January 1970. `datetimeText` writes it as
`YYYY-MM-DD HH:MM:SS`, `rfc3339Text` as `YYYY-MM-DDTHH:MM:SS.fff+00:00`, both in UTC. Texts are compared
by their characters: up to the year 9999 two texts of the first form compare as the seconds do
(`datetimeText_lt_datetimeText`), and one of the first form with one of the second as the days do
(`datetimeText_lt_rfc3339Text`), because a blank comes before a `T`.
-/

namespace Sarca.Lib

/-! ## Texts -/

section Texts

variable {α : Type*} [LinearOrder α]

/-- Texts that start with as many characters compare by these first. -/
lemma append_lt_append_iff {a b s t : List α} (h : a.length = b.length) :
    a ++ s < b ++ t ↔ a < b ∨ a = b ∧ s < t := by
  induction a generalizing b with
  | nil =>
    obtain rfl : b = [] := List.length_eq_zero_iff.mp h.symm
    simp
  | cons x a ih =>
    cases b with
    | nil => cases h
    | cons y b =>
      have hlen : a.length = b.length := Nat.succ.inj h
      simp only [List.cons_append, List.cons_lt_cons_iff, ih hlen, List.cons.injEq]
      tauto

end Texts

/-- A digit. -/
def digit (d : Nat) : Char :=
  Char.ofNat (48 + d)

lemma digit_lt_digit : ∀ d < 10, ∀ e < 10, digit d < digit e ↔ d < e := by
  decide

/-- The last digits of a number, as many as are asked for. -/
def pad : Nat → Nat → List Char
  | 0, _ => []
  | k + 1, n => pad k (n / 10) ++ [digit (n % 10)]

@[simp] lemma length_pad (k n : Nat) : (pad k n).length = k := by
  induction k generalizing n with
  | zero => rfl
  | succ k ih => simp [pad, ih]

/-- Numbers that are not too large compare as their digits do. -/
lemma pad_lt_pad {k a b : Nat} (ha : a < 10 ^ k) (hb : b < 10 ^ k) : pad k a < pad k b ↔ a < b := by
  induction k generalizing a b with
  | zero =>
    have : ¬a < b := by omega
    simp [pad, this]
  | succ k ih =>
    have ha' : a / 10 < 10 ^ k := Nat.div_lt_of_lt_mul (by rwa [pow_succ, Nat.mul_comm] at ha)
    have hb' : b / 10 < 10 ^ k := Nat.div_lt_of_lt_mul (by rwa [pow_succ, Nat.mul_comm] at hb)
    have heq : pad k (a / 10) = pad k (b / 10) ↔ a / 10 = b / 10 := by
      constructor
      · intro h
        have hab := (ih ha' hb').not.mp (h ▸ lt_irrefl _)
        have hba := (ih hb' ha').not.mp (h ▸ lt_irrefl _)
        omega
      · intro h
        rw [h]
    have hlast : [digit (a % 10)] < [digit (b % 10)] ↔ a % 10 < b % 10 := by
      have hd := digit_lt_digit (a % 10) (by omega) (b % 10) (by omega)
      simp [List.cons_lt_cons_iff, hd]
    rw [pad, pad, append_lt_append_iff (by simp), ih ha' hb', heq, hlast]
    omega

lemma pad_inj {k a b : Nat} (ha : a < 10 ^ k) (hb : b < 10 ^ k) : pad k a = pad k b ↔ a = b := by
  constructor
  · intro h
    have hab := (pad_lt_pad ha hb).not.mp (h ▸ lt_irrefl _)
    have hba := (pad_lt_pad hb ha).not.mp (h ▸ lt_irrefl _)
    omega
  · intro h
    rw [h]

/-- Two numbers one behind the other compare as their digits do. -/
lemma pad_append_lt {k a b : Nat} {s t : List Char} (ha : a < 10 ^ k) (hb : b < 10 ^ k) :
    pad k a ++ s < pad k b ++ t ↔ a < b ∨ a = b ∧ s < t := by
  rw [append_lt_append_iff (by simp), pad_lt_pad ha hb, pad_inj ha hb]

/-! ## Blocks of days -/

/-- The block that holds a position, and the position within it, where the blocks from `k` on have the
    lengths `len`. -/
def locate (len : Nat → Nat) : Nat → Nat → Nat → Nat × Nat
  | 0, k, r => (k, r)
  | fuel + 1, k, r => if r < len k then (k, r) else locate len fuel (k + 1) (r - len k)

variable {len : Nat → Nat}

lemma le_locate (fuel k r : Nat) : k ≤ (locate len fuel k r).1 := by
  induction fuel generalizing k r with
  | zero => exact Nat.le_refl k
  | succ fuel ih =>
    unfold locate
    split
    · exact Nat.le_refl k
    · exact Nat.le_of_succ_le (ih (k + 1) _)

/-- A later position is in a later block, or behind in the same one. -/
lemma locate_lt (hlen : ∀ k, 0 < len k) {fuel fuel' k r r' : Nat} (hr : r < fuel) (hr' : r' < fuel')
    (h : r < r') :
    (locate len fuel k r).1 < (locate len fuel' k r').1 ∨
      (locate len fuel k r).1 = (locate len fuel' k r').1 ∧
        (locate len fuel k r).2 < (locate len fuel' k r').2 := by
  induction fuel generalizing fuel' k r r' with
  | zero => omega
  | succ fuel ih =>
    cases fuel' with
    | zero => omega
    | succ fuel' =>
      have hk := hlen k
      unfold locate
      by_cases hin : r < len k
      · rw [if_pos hin]
        by_cases hin' : r' < len k
        · rw [if_pos hin']
          exact .inr ⟨rfl, h⟩
        · rw [if_neg hin']
          exact .inl (le_locate fuel' (k + 1) _)
      · have hin' : ¬r' < len k := by omega
        rw [if_neg hin, if_neg hin']
        exact ih (by omega) (by omega) (by omega)

/-- The length of `n` blocks. -/
def blocks (len : Nat → Nat) : Nat → Nat → Nat
  | _, 0 => 0
  | k, n + 1 => len k + blocks len (k + 1) n

/-- A position within the first `n` blocks is in one of them. -/
lemma locate_fst_lt {fuel k r n : Nat} (h : r < blocks len k n) : (locate len fuel k r).1 < k + n := by
  induction fuel generalizing k r n with
  | zero =>
    cases n with
    | zero => exact absurd h (Nat.not_lt_zero r)
    | succ n => exact Nat.lt_add_of_pos_right (Nat.succ_pos n)
  | succ fuel ih =>
    cases n with
    | zero => exact absurd h (Nat.not_lt_zero r)
    | succ n =>
      unfold locate
      split
      · exact Nat.lt_add_of_pos_right (Nat.succ_pos n)
      · case isFalse hout =>
        have hrest : r - len k < blocks len (k + 1) n := by
          unfold blocks at h
          omega
        have := ih hrest
        omega

/-- The position within the block is less than its length. -/
lemma locate_snd_lt (hlen : ∀ k, 0 < len k) {fuel k r : Nat} (hr : r < fuel) :
    (locate len fuel k r).2 < len (locate len fuel k r).1 := by
  induction fuel generalizing k r with
  | zero => omega
  | succ fuel ih =>
    unfold locate
    split
    · assumption
    · have hk := hlen k
      exact ih (by omega)

/-! ## Days -/

/-- A leap year of the Gregorian calendar. -/
def IsLeap (year : Nat) : Prop :=
  year % 4 = 0 ∧ (year % 100 ≠ 0 ∨ year % 400 = 0)

instance IsLeap.decidable (year : Nat) : Decidable (IsLeap year) :=
  inferInstanceAs (Decidable (_ ∧ _))

/-- The days of a year. -/
def yearDays (year : Nat) : Nat :=
  if IsLeap year then 366 else 365

/-- The days of a month. -/
def monthDays (year : Nat) : Nat → Nat
  | 2 => if IsLeap year then 29 else 28
  | 4 | 6 | 9 | 11 => 30
  | _ => 31

lemma yearDays_pos (year : Nat) : 0 < yearDays year := by
  unfold yearDays
  split <;> decide

lemma monthDays_bounds (year month : Nat) : 0 < monthDays year month ∧ monthDays year month ≤ 31 := by
  unfold monthDays
  split
  · split <;> decide
  all_goals decide

/-- Twelve months are a year. -/
lemma blocks_monthDays (year : Nat) : blocks (monthDays year) 1 12 = yearDays year := by
  unfold yearDays
  by_cases h : IsLeap year
  · simp [blocks, monthDays, h]
  · simp [blocks, monthDays, h]

/-- The year of a day, which is counted from the first of January 1970, and the day within it. -/
def yearOf (day : Nat) : Nat × Nat :=
  locate yearDays (day + 1) 1970 day

/-- The month of a day of a year, and the day within it. -/
def monthOf (year day : Nat) : Nat × Nat :=
  locate (monthDays year) (day + 1) 1 day

/-- A day as `YYYY-MM-DD`. -/
def dateText (day : Nat) : List Char :=
  let (year, dayOfYear) := yearOf day
  let (month, dayOfMonth) := monthOf year dayOfYear
  pad 4 year ++ ('-' :: (pad 2 month ++ ('-' :: pad 2 (dayOfMonth + 1))))

@[simp] lemma length_dateText (day : Nat) : (dateText day).length = 10 := by
  simp [dateText]

lemma yearOf_mono {day day' : Nat} (h : day < day') : (yearOf day).1 ≤ (yearOf day').1 := by
  obtain hlt | ⟨heq, _⟩ := locate_lt (k := 1970) yearDays_pos (Nat.lt_succ_self day)
    (Nat.lt_succ_self day') h
  · exact Nat.le_of_lt hlt
  · exact Nat.le_of_eq heq

/-- Months and days have two digits. -/
lemma monthOf_lt {year day : Nat} (h : day < yearDays year) :
    (monthOf year day).1 < 10 ^ 2 ∧ (monthOf year day).2 + 1 < 10 ^ 2 := by
  constructor
  · have hmonth : (monthOf year day).1 < 1 + 12 := locate_fst_lt (blocks_monthDays year ▸ h)
    omega
  · have hday := locate_snd_lt (k := 1) (fun m => (monthDays_bounds year m).1) (Nat.lt_add_one day)
    have hmost := (monthDays_bounds year (locate (monthDays year) (day + 1) 1 day).1).2
    unfold monthOf
    omega

/-- A later day has the later text. -/
lemma dateText_lt {day day' : Nat} (hyear : (yearOf day').1 < 10 ^ 4) (h : day < day') :
    dateText day < dateText day' := by
  have hyear' : (yearOf day).1 < 10 ^ 4 := lt_of_le_of_lt (yearOf_mono h) hyear
  have hin (d : Nat) : (yearOf d).2 < yearDays (yearOf d).1 :=
    locate_snd_lt yearDays_pos (Nat.lt_succ_self d)
  unfold dateText
  rw [pad_append_lt hyear' hyear]
  obtain hlt | ⟨heq, hlt⟩ := locate_lt (k := 1970) yearDays_pos (Nat.lt_succ_self day)
    (Nat.lt_succ_self day') h
  · exact .inl hlt
  · refine .inr ⟨heq, ?_⟩
    have heq' : (yearOf day).1 = (yearOf day').1 := heq
    have hday : (yearOf day).2 < yearDays (yearOf day').1 := heq' ▸ hin day
    rw [heq', List.cons_lt_cons_iff]
    refine .inr ⟨rfl, ?_⟩
    rw [pad_append_lt (monthOf_lt hday).1 (monthOf_lt (hin day')).1]
    obtain hm | ⟨hm, hd⟩ := locate_lt (k := 1) (fun m => (monthDays_bounds (yearOf day').1 m).1)
      (Nat.lt_succ_self (yearOf day).2) (Nat.lt_succ_self (yearOf day').2) hlt
    · exact .inl hm
    · refine .inr ⟨hm, ?_⟩
      rw [List.cons_lt_cons_iff, pad_lt_pad (monthOf_lt hday).2 (monthOf_lt (hin day')).2]
      exact .inr ⟨rfl, Nat.succ_lt_succ hd⟩

/-- Up to the year 9999, days compare as their texts do. -/
lemma dateText_lt_dateText {day day' : Nat} (hyear : (yearOf day).1 < 10 ^ 4)
    (hyear' : (yearOf day').1 < 10 ^ 4) : dateText day < dateText day' ↔ day < day' := by
  constructor
  · intro h
    by_contra hle
    obtain hlt | rfl := Nat.lt_or_eq_of_le (Nat.le_of_not_lt hle)
    · exact lt_asymm h (dateText_lt hyear hlt)
    · exact lt_irrefl _ h
  · exact dateText_lt hyear'

lemma dateText_inj {day day' : Nat} (hyear : (yearOf day).1 < 10 ^ 4)
    (hyear' : (yearOf day').1 < 10 ^ 4) : dateText day = dateText day' ↔ day = day' := by
  constructor
  · intro h
    have hlt := (dateText_lt_dateText hyear hyear').not.mp (h ▸ lt_irrefl _)
    have hgt := (dateText_lt_dateText hyear' hyear).not.mp (h ▸ lt_irrefl _)
    omega
  · intro h
    rw [h]

/-! ## Seconds -/

/-- Nanoseconds in a second. -/
abbrev second : Nat := 1000000000

/-- The day of a point in time. -/
def dayOf (nanos : Nat) : Nat :=
  nanos / second / 86400

/-- The seconds of a day that have passed, as `HH:MM:SS`. -/
def clockText (seconds : Nat) : List Char :=
  pad 2 (seconds / 3600) ++ (':' :: (pad 2 (seconds / 60 % 60) ++ (':' :: pad 2 (seconds % 60))))

/-- A fraction of a second: none, or three, six or nine digits. -/
def fractionText (nanos : Nat) : List Char :=
  if nanos % 1000000000 = 0 then []
  else if nanos % 1000000 = 0 then '.' :: pad 3 (nanos / 1000000)
  else if nanos % 1000 = 0 then '.' :: pad 6 (nanos / 1000)
  else '.' :: pad 9 nanos

/-- SQLite `datetime`. -/
def datetimeText (nanos : Nat) : List Char :=
  dateText (dayOf nanos) ++ (' ' :: clockText (nanos / second % 86400))

/-- chrono `to_rfc3339_opts(SecondsFormat::AutoSi, false)`. -/
def rfc3339Text (nanos : Nat) : List Char :=
  dateText (dayOf nanos) ++
    ('T' :: (clockText (nanos / second % 86400) ++ fractionText (nanos % second) ++ "+00:00".toList))

/-- The texts have years of four digits. -/
def InCalendar (nanos : Nat) : Prop :=
  (yearOf (dayOf nanos)).1 ≤ 9999

instance InCalendar.decidable (nanos : Nat) : Decidable (InCalendar nanos) :=
  inferInstanceAs (Decidable (_ ≤ _))

lemma dayOf_mono {nanos nanos' : Nat} (h : nanos ≤ nanos') : dayOf nanos ≤ dayOf nanos' :=
  Nat.div_le_div_right (Nat.div_le_div_right h)

/-- The day of a point in time is that of its second. -/
@[simp] lemma dayOf_second (nanos : Nat) : dayOf (nanos / second * second) = dayOf nanos := by
  unfold dayOf
  rw [Nat.mul_div_cancel _ (by decide)]

/-- So are earlier ones. -/
lemma InCalendar.mono {nanos nanos' : Nat} (h : nanos ≤ nanos') (h' : InCalendar nanos') :
    InCalendar nanos := by
  obtain hlt | heq := Nat.lt_or_eq_of_le (dayOf_mono h)
  · exact Nat.le_trans (yearOf_mono hlt) h'
  · unfold InCalendar
    rwa [heq]

lemma InCalendar.second {nanos : Nat} (h : InCalendar nanos) :
    InCalendar (nanos / second * second) :=
  h.mono (Nat.div_mul_le_self nanos _)

lemma clockText_lt_clockText {seconds seconds' : Nat} (h : seconds < 86400) (h' : seconds' < 86400) :
    clockText seconds < clockText seconds' ↔ seconds < seconds' := by
  unfold clockText
  rw [pad_append_lt (by omega) (by omega), List.cons_lt_cons_iff,
    pad_append_lt (by omega) (by omega), List.cons_lt_cons_iff, pad_lt_pad (by omega) (by omega)]
  simp only [lt_self_iff_false, false_or, true_and]
  omega

/-- Two texts of SQLite compare as the seconds do. -/
theorem datetimeText_lt_datetimeText {nanos nanos' : Nat} (h : InCalendar nanos)
    (h' : InCalendar nanos') :
    datetimeText nanos < datetimeText nanos' ↔ nanos / second < nanos' / second := by
  unfold datetimeText
  rw [append_lt_append_iff (by simp), dateText_lt_dateText (Nat.lt_succ_of_le h) (Nat.lt_succ_of_le h'),
    dateText_inj (Nat.lt_succ_of_le h) (Nat.lt_succ_of_le h'), List.cons_lt_cons_iff,
    clockText_lt_clockText (Nat.mod_lt _ (by decide)) (Nat.mod_lt _ (by decide))]
  simp only [lt_self_iff_false, false_or, true_and, dayOf]
  omega

/-- A text of SQLite and one of chrono compare as the days do, and on one day the first is less. -/
theorem datetimeText_lt_rfc3339Text {nanos nanos' : Nat} (h : InCalendar nanos)
    (h' : InCalendar nanos') : datetimeText nanos < rfc3339Text nanos' ↔ dayOf nanos ≤ dayOf nanos' := by
  have hblank : (' ' : Char) < 'T' := by decide
  unfold datetimeText rfc3339Text
  rw [append_lt_append_iff (by simp), dateText_lt_dateText (Nat.lt_succ_of_le h) (Nat.lt_succ_of_le h'),
    dateText_inj (Nat.lt_succ_of_le h) (Nat.lt_succ_of_le h'), List.cons_lt_cons_iff]
  simp only [hblank, true_or, and_true]
  omega

/-- What a clock answers: no moment of the first day of 1970, and none behind the year 9999. -/
structure UtcTime where
  nanos : Nat
  day_le : 86400 * second ≤ nanos
  inCalendar : InCalendar nanos

example : datetimeText (1790000000 * second) = "2026-09-21 14:13:20".toList := by decide +kernel

example : rfc3339Text (1790000000 * second + 250000000) = "2026-09-21T14:13:20.250+00:00".toList := by
  decide +kernel

end Sarca.Lib
