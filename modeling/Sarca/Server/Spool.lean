import Sarca.Lib.Saturating
import Sarca.Server.Rows

/-!
# Admission to the spool

What the running relays hold in `WORK_DIR`, and whether another upload may be spooled beside them.
`RelayLedger` is the map behind `RELAYS_IN_FLIGHT` with the sizes it keeps, and `SpoolUsage.admits` the
decision. `admission_law` says when an upload is refused for good, that one told to come back is admitted
once the relays have ended, that less never fares worse, and where the saturating sums decide otherwise
than exact ones.
-/

namespace Sarca.Server
open Sarca.Lib

/-- What one running relay holds: the size of its spool, and what of it is not yet in a channel. -/
structure SpoolEntry where
  onDisk : UInt64
  unrelayed : UInt64

/-- The running relays by row (Rust `RelayLedger`, a map). -/
structure RelayLedger where
  entries : List (Uuid × SpoolEntry)
  nodup : (entries.map (·.1)).Nodup

structure SpoolUsage where
  unrelayed : UInt64
  onDisk : UInt64
  deriving DecidableEq

/-- Rust `SpoolUsage::default`. -/
def SpoolUsage.default : SpoolUsage :=
  ⟨0, 0⟩

inductive SpoolAdmission where
  | admitted
  | busy
  | noRoom
  deriving DecidableEq

/-- `SPOOL_FREE_SPACE_RESERVE` -/
def spoolFreeSpaceReserve : UInt64 :=
  1024 * 1024 * 1024

namespace RelayLedger

def empty : RelayLedger :=
  ⟨[], List.nodup_nil⟩

/-- Rust `RelayLedger::end`. -/
def endRelay (ledger : RelayLedger) (fileId : Uuid) : RelayLedger where
  entries := ledger.entries.filter fun e => e.1 ≠ fileId
  nodup := ledger.nodup.sublist (List.filter_sublist.map _)

/-- Rust `RelayLedger::start`; a relay of the row that is there is overwritten. -/
def start (ledger : RelayLedger) (fileId : Uuid) (spooledBytes : UInt64) : RelayLedger where
  entries := (fileId, ⟨spooledBytes, spooledBytes⟩) :: (ledger.endRelay fileId).entries
  nodup := by
    refine List.nodup_cons.mpr ⟨fun hmem => ?_, (ledger.endRelay fileId).nodup⟩
    obtain ⟨e, he, heq⟩ := List.mem_map.mp hmem
    exact of_decide_eq_true (List.mem_filter.mp he).2 heq

/-- Rust `RelayLedger::relayed`. -/
def relayed (ledger : RelayLedger) (fileId : Uuid) (bytes : UInt64) : RelayLedger where
  entries := ledger.entries.map fun e =>
    (e.1, if e.1 = fileId then { e.2 with unrelayed := satSub e.2.unrelayed bytes } else e.2)
  nodup := by
    rw [List.map_map]
    exact ledger.nodup

/-- Rust `RelayLedger::contains`. -/
def contains (ledger : RelayLedger) (fileId : Uuid) : Prop :=
  fileId ∈ ledger.entries.map (·.1)

/-- Rust `RelayLedger::usage`. -/
def usage (ledger : RelayLedger) : SpoolUsage :=
  ledger.entries.foldl (fun acc e =>
    ⟨satAdd acc.unrelayed e.2.unrelayed, satAdd acc.onDisk e.2.onDisk⟩) SpoolUsage.default

/-- The ledger after all its relays have ended. -/
def drained (ledger : RelayLedger) : RelayLedger :=
  (ledger.entries.map (·.1)).foldl endRelay ledger

def held (ledger : RelayLedger) : Nat :=
  (ledger.entries.map fun e => e.2.onDisk.toNat).sum

end RelayLedger

namespace SpoolUsage

/-- The budget's side of `admits`. -/
def admitBacklog (usage : SpoolUsage) (incoming budget : UInt64) : SpoolAdmission :=
  if 0 < usage.unrelayed ∧ budget < satAdd usage.unrelayed incoming then .busy else .admitted

/-- Whether an upload may be spooled now (Rust `SpoolUsage::admit`). -/
def admits (usage : SpoolUsage) (incoming budget : UInt64) (available : Option UInt64) :
    SpoolAdmission :=
  match available with
  | some available =>
    let needed := satAdd incoming spoolFreeSpaceReserve
    if available < needed then
      if needed ≤ satAdd available usage.onDisk then .busy else .noRoom
    else usage.admitBacklog incoming budget
  | none => usage.admitBacklog incoming budget

/-- The budget's side with a sum that has no end. -/
def exactBacklog (usage : SpoolUsage) (incoming budget : UInt64) : SpoolAdmission :=
  if 0 < usage.unrelayed ∧ budget.toNat < usage.unrelayed.toNat + incoming.toNat then .busy
  else .admitted

def admitExact (usage : SpoolUsage) (incoming budget : UInt64) (available : Option UInt64) :
    SpoolAdmission :=
  match available with
  | some available =>
    let needed := incoming.toNat + spoolFreeSpaceReserve.toNat
    if available.toNat < needed then
      if needed ≤ available.toNat + usage.onDisk.toNat then .busy else .noRoom
    else usage.exactBacklog incoming budget
  | none => usage.exactBacklog incoming budget

end SpoolUsage

/-! ## The ledger -/

namespace RelayLedger

lemma toNat_usage (ledger : RelayLedger) :
    ledger.usage.unrelayed.toNat =
      min (ledger.entries.map fun e => e.2.unrelayed.toNat).sum maxWord ∧
    ledger.usage.onDisk.toNat = min ledger.held maxWord := by
  have hfold : ∀ (l : List (Uuid × SpoolEntry)) (acc : SpoolUsage),
      l.foldl (fun acc e =>
        (⟨satAdd acc.unrelayed e.2.unrelayed, satAdd acc.onDisk e.2.onDisk⟩ : SpoolUsage)) acc =
      ⟨(l.map fun e => e.2.unrelayed).foldl satAdd acc.unrelayed,
        (l.map fun e => e.2.onDisk).foldl satAdd acc.onDisk⟩ := by
    intro l
    induction l with
    | nil => exact fun acc => rfl
    | cons e l ih => exact fun acc => ih _
  have hmap : ∀ (f : SpoolEntry → UInt64),
      (satSum (ledger.entries.map fun e => f e.2)).toNat =
        min (ledger.entries.map fun e => (f e.2).toNat).sum maxWord := by
    intro f
    rw [toNat_satSum, List.map_map]
    rfl
  rw [usage, hfold]
  exact ⟨hmap (·.unrelayed), hmap (·.onDisk)⟩

lemma drained_entries (ledger : RelayLedger) : ledger.drained.entries = [] := by
  have hfold : ∀ (ids : List Uuid) (l : RelayLedger),
      (ids.foldl endRelay l).entries = l.entries.filter fun e => e.1 ∉ ids := by
    intro ids
    induction ids with
    | nil => intro l; simp
    | cons id ids ih =>
      intro l
      rw [List.foldl_cons, ih, endRelay, List.filter_filter]
      congr 1
      funext e
      simp [Bool.and_comm]
  rw [drained, hfold, List.filter_eq_nil_iff]
  intro e he
  simpa using ⟨e.2, he⟩

lemma drained_usage (ledger : RelayLedger) : ledger.drained.usage = .default := by
  rw [usage, drained_entries]
  rfl

lemma satAdd_held (ledger : RelayLedger) (free : UInt64) :
    satAdd free ledger.usage.onDisk = word (free.toNat + ledger.held) := by
  apply UInt64.toNat_inj.mp
  have := toNat_le_maxWord free
  simp only [toNat_satAdd, toNat_word, ledger.toNat_usage.2]
  omega

end RelayLedger

/-! ## The law of admission -/

/-- More free space: a reading stays one and does not fall. -/
def MoreFree : Option UInt64 → Option UInt64 → Prop
  | some free, some free' => free ≤ free'
  | none, none => True
  | _, _ => False

/-- The backlog and the upload exceed the greatest word, and the budget is that word. -/
def SpoolUsage.BudgetTie (usage : SpoolUsage) (incoming budget : UInt64) : Prop :=
  0 < usage.unrelayed ∧ maxWord < usage.unrelayed.toNat + incoming.toNat ∧ budget.toNat = maxWord

/-- A sum beyond the greatest word meets a bound that is this word, or a sum cut down to it. -/
def SpoolUsage.Tie (usage : SpoolUsage) (incoming budget : UInt64) : Option UInt64 → Prop
  | none => usage.BudgetTie incoming budget
  | some free =>
    if incoming.toNat + spoolFreeSpaceReserve.toNat ≤ maxWord then
      incoming.toNat + spoolFreeSpaceReserve.toNat ≤ free.toNat ∧ usage.BudgetTie incoming budget
    else if free.toNat < maxWord then
      maxWord ≤ free.toNat + usage.onDisk.toNat ∧
        free.toNat + usage.onDisk.toNat < incoming.toNat + spoolFreeSpaceReserve.toNat
    else
      free.toNat + usage.onDisk.toNat < incoming.toNat + spoolFreeSpaceReserve.toNat ∨
        usage.admitBacklog incoming budget = .admitted

namespace SpoolUsage

variable {usage usage' : SpoolUsage} {incoming incoming' budget budget' : UInt64}
  {available available' : Option UInt64}

lemma noRoom_spec (h : usage.admits incoming budget available = .noRoom) :
    ∃ free, available = some free ∧
      free.toNat + usage.onDisk.toNat < incoming.toNat + spoolFreeSpaceReserve.toNat := by
  have hbacklog : usage.admitBacklog incoming budget ≠ .noRoom := by
    unfold admitBacklog
    split <;> simp
  cases available with
  | none => exact absurd h hbacklog
  | some free =>
    refine ⟨free, rfl, ?_⟩
    unfold admits at h
    dsimp only at h
    split at h
    · split at h
      · cases h
      · case isFalse hno =>
        rw [UInt64.le_iff_toNat_le] at hno
        simp only [toNat_satAdd] at hno
        have := toNat_le_maxWord free
        omega
    · exact absurd h hbacklog

lemma admitBacklog_default (incoming budget : UInt64) :
    default.admitBacklog incoming budget = .admitted :=
  if_neg fun h => absurd h.1 (by decide)

lemma busy_spec (h : usage.admits incoming budget available = .busy) :
    default.admits incoming budget (available.map fun free => satAdd free usage.onDisk) =
      .admitted := by
  cases available with
  | none => exact admitBacklog_default incoming budget
  | some free =>
    have hroom : ¬ satAdd free usage.onDisk < satAdd incoming spoolFreeSpaceReserve := by
      unfold admits at h
      dsimp only at h
      split at h
      · split at h
        · case isTrue hle => exact UInt64.not_lt.mpr hle
        · cases h
      · case isFalse hno =>
        rw [UInt64.lt_iff_toNat_lt] at hno ⊢
        simp only [toNat_satAdd] at hno ⊢
        have := toNat_le_maxWord free
        omega
    rw [Option.map_some, admits, if_neg hroom]
    exact admitBacklog_default incoming budget

lemma admitBacklog_mono (hbacklog : usage'.unrelayed ≤ usage.unrelayed)
    (hincoming : incoming' ≤ incoming) (hbudget : budget ≤ budget')
    (h : usage.admitBacklog incoming budget = .admitted) :
    usage'.admitBacklog incoming' budget' = .admitted := by
  unfold admitBacklog at h ⊢
  split at h
  · cases h
  · case isFalse hno =>
    apply if_neg
    rw [UInt64.lt_iff_toNat_lt, UInt64.lt_iff_toNat_lt, toNat_satAdd] at hno ⊢
    rw [UInt64.le_iff_toNat_le] at hbacklog hincoming hbudget
    omega

lemma admits_mono (hbacklog : usage'.unrelayed ≤ usage.unrelayed)
    (hincoming : incoming' ≤ incoming) (hbudget : budget ≤ budget')
    (hfree : MoreFree available available')
    (h : usage.admits incoming budget available = .admitted) :
    usage'.admits incoming' budget' available' = .admitted := by
  cases available with
  | none =>
    cases available' with
    | none => exact admitBacklog_mono hbacklog hincoming hbudget h
    | some free' => exact absurd hfree id
  | some free =>
    cases available' with
    | none => exact absurd hfree id
    | some free' =>
      unfold admits at h ⊢
      dsimp only at h ⊢
      split at h
      · split at h <;> cases h
      · case isFalse hno =>
        have hno' : ¬ free' < satAdd incoming' spoolFreeSpaceReserve := by
          rw [UInt64.lt_iff_toNat_lt, toNat_satAdd] at hno ⊢
          have hle : free.toNat ≤ free'.toNat := hfree
          rw [UInt64.le_iff_toNat_le] at hincoming
          omega
        rw [if_neg hno']
        exact admitBacklog_mono hbacklog hincoming hbudget h

lemma admitBacklog_exact_iff :
    usage.admitBacklog incoming budget = usage.exactBacklog incoming budget ↔
      ¬ usage.BudgetTie incoming budget := by
  have hb := toNat_le_maxWord budget
  unfold admitBacklog exactBacklog BudgetTie
  simp only [UInt64.lt_iff_toNat_lt, toNat_satAdd]
  split_ifs <;> simp only [false_iff, true_iff] <;> omega

lemma admits_exact_iff : usage.admits incoming budget available =
    usage.admitExact incoming budget available ↔ ¬ usage.Tie incoming budget available := by
  cases available with
  | none => exact admitBacklog_exact_iff
  | some free =>
    have hf := toNat_le_maxWord free
    show (if free < satAdd incoming spoolFreeSpaceReserve then
        if satAdd incoming spoolFreeSpaceReserve ≤ satAdd free usage.onDisk then SpoolAdmission.busy
        else .noRoom
      else usage.admitBacklog incoming budget) =
      (if free.toNat < incoming.toNat + spoolFreeSpaceReserve.toNat then
        if incoming.toNat + spoolFreeSpaceReserve.toNat ≤ free.toNat + usage.onDisk.toNat then
          SpoolAdmission.busy
        else .noRoom
      else usage.exactBacklog incoming budget) ↔ ¬ usage.Tie incoming budget (some free)
    simp only [UInt64.lt_iff_toNat_lt, UInt64.le_iff_toNat_le, toNat_satAdd, Tie]
    generalize spoolFreeSpaceReserve.toNat = reserve
    by_cases hfits : incoming.toNat + reserve ≤ maxWord
    · simp only [if_pos hfits, Nat.min_eq_left hfits]
      by_cases hroom : free.toNat < incoming.toNat + reserve
      · simp only [if_pos hroom]
        split_ifs <;> simp only [false_iff, true_iff] <;> omega
      · simp only [if_neg hroom, admitBacklog_exact_iff, Nat.not_lt.mp hroom, true_and]
    · -- the exact need exceeds every reading
      have hneed : free.toNat < incoming.toNat + reserve := by omega
      simp only [if_neg hfits, if_pos hneed, Nat.min_eq_right (Nat.le_of_not_le hfits)]
      by_cases hroom : free.toNat < maxWord
      · simp only [if_pos hroom]
        split_ifs <;> simp only [false_iff, true_iff] <;> omega
      · simp only [if_neg hroom]
        have hcases : usage.admitBacklog incoming budget = .admitted ∨
            usage.admitBacklog incoming budget = .busy := by
          unfold admitBacklog
          split <;> simp
        rcases hcases with heq | heq <;> rw [heq] <;> split_ifs <;>
          simp only [false_iff, true_iff] <;> simp <;> omega

end SpoolUsage

/-- An upload is refused for good only where no spool's end would help, one that is told to come back is
    admitted when the relays have ended and their spools are free space, less in its way never turns an
    upload away, and the sums decide as exact ones do except at a tie that comes from their cut. -/
theorem admission_law (usage : SpoolUsage) (incoming budget : UInt64) (available : Option UInt64) :
    (usage.admits incoming budget available = .noRoom → ∃ free, available = some free ∧
      free.toNat + usage.onDisk.toNat < incoming.toNat + spoolFreeSpaceReserve.toNat) ∧
    (usage.admits incoming budget available = .busy → ∀ ledger : RelayLedger, ledger.usage = usage →
      ledger.drained.usage.admits incoming budget
        (available.map fun free => word (free.toNat + ledger.held)) = .admitted) ∧
    (∀ (usage' : SpoolUsage) (incoming' budget' : UInt64) (available' : Option UInt64),
      usage'.unrelayed ≤ usage.unrelayed → incoming' ≤ incoming → budget ≤ budget' →
        MoreFree available available' → usage.admits incoming budget available = .admitted →
          usage'.admits incoming' budget' available' = .admitted) ∧
    (usage.admits incoming budget available = usage.admitExact incoming budget available ↔
      ¬ usage.Tie incoming budget available) := by
  refine ⟨SpoolUsage.noRoom_spec, ?_, ?_, SpoolUsage.admits_exact_iff⟩
  · rintro h ledger rfl
    rw [ledger.drained_usage]
    simp only [← ledger.satAdd_held]
    exact SpoolUsage.busy_spec h
  · intro usage' incoming' budget' available' hbacklog hincoming hbudget hfree h
    exact SpoolUsage.admits_mono hbacklog hincoming hbudget hfree h

/-- On a disk of the greatest size an upload of this size is admitted that does not fit beside the
    reserve. -/
theorem greatestUpload_tied :
    SpoolUsage.default.admits 18446744073709551615 0 (some 18446744073709551615) = .admitted ∧
      SpoolUsage.default.admitExact 18446744073709551615 0 (some 18446744073709551615) =
        .noRoom := by
  decide +kernel

end Sarca.Server
