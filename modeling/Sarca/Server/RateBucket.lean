import Mathlib.Algebra.Order.Ring.Nat
import Mathlib.Order.Minimal
import Sarca.Lib.Calendar
import Sarca.Lib.Run
import Sarca.Server.Rows

/-!
# The bucket of bot tokens

`StorageWorkersRepository::get_token` hands out a bot of a storage, at most `rate` times a minute each: in
one transaction it deletes the usages that are older than a minute, picks a bot with less than `rate` of
them left, and records one more. `storage_workers_usages.dt` is a text of whole seconds. `Bucket` is the
tables with the calls of `get_token_impl` that wait for a token; `Bucket.Sound` relates the usages to what
was handed out, and `Bucket.rated` bounds that from above and, where a call finds nothing, from below.
-/

namespace Sarca.Server
open Sarca.Lib

/-- A row of `storage_workers_usages`, with the time it was inserted at. -/
structure Usage where
  workerId : Uuid
  insertedAt : Nat
deriving DecidableEq, Repr

/-- The column `dt`. -/
def Usage.dt (u : Usage) : List Char :=
  datetimeText u.insertedAt

inductive TokenAnswer where
  | token (workerId : Uuid)
  | noStorageWorkers
  | storageBusy
deriving DecidableEq, Repr

inductive TokenPhase where
  | checking
  | trying
  | answered (answer : TokenAnswer)
deriving DecidableEq, Repr

/-- A call to `get_token_impl`; the deadline is one of the clock of `std::time::Instant`. -/
structure TokenCall where
  storageId : Uuid
  deadline : Option Nat
  phase : TokenPhase
deriving DecidableEq, Repr

/-- The tables and the calls. `clock` is the last time that was read, and `handed` says which bot was handed
    out when. -/
structure Bucket where
  rate : Nat
  workers : List StorageWorker
  usages : List Usage
  nextWorker : Uuid
  calls : List TokenCall
  clock : Nat
  handed : List Usage

inductive BucketAct where
  | call (storageId : Uuid) (deadline : Option Nat)
  /-- `storage_has_any` of a call -/
  | check (number : Nat)
  /-- `get_token` of a call: the times of its two statements, and the bot that the query puts first -/
  | attempt (number : Nat) (deletedAt insertedAt : UtcTime) (first : Uuid) (clock : Nat)
  | addWorker (storageId : Option Uuid)
  | rebindToStorage (id storageId : Uuid)
  | removeWorker (id : Uuid)

namespace Bucket

def fresh (rate : Nat) : Bucket :=
  ⟨rate, [], [], 0, [], 0, []⟩

def used (σ : Bucket) (workerId : Uuid) : Nat :=
  σ.usages.countP fun u => u.workerId = workerId

/-- `DELETE … WHERE dt < datetime('now', '-1 minute')` -/
def deleteOld (σ : Bucket) (now : UtcTime) : Bucket :=
  { σ with
    usages := σ.usages.filter fun u => ¬u.dt < datetimeText (now.nanos - 60 * second)
    clock := now.nanos }

/-- The bots that the query may put first: of the storage, used less than `rate` times, and no more than
    any other one of them. -/
def candidates (σ : Bucket) (storageId : Uuid) : List StorageWorker :=
  let free := σ.workers.filter fun w => w.storageId = some storageId ∧ σ.used w.id < σ.rate
  free.filter fun w => ∀ w' ∈ free, σ.used w.id ≤ σ.used w'.id

def candidate (σ : Bucket) (storageId first : Uuid) : Option StorageWorker :=
  ((σ.candidates storageId).find? fun w => w.id = first).or (σ.candidates storageId).head?

/-- Rust `get_token`. -/
def getToken (σ : Bucket) (storageId : Uuid) (deletedAt insertedAt : UtcTime) (first : Uuid) :
    Bucket × Option Uuid :=
  let σ := σ.deleteOld deletedAt
  match σ.candidate storageId first with
  | none => (σ, none)
  | some w =>
    ({ σ with
        usages := σ.usages ++ [⟨w.id, insertedAt.nanos⟩]
        clock := insertedAt.nanos
        handed := σ.handed ++ [⟨w.id, insertedAt.nanos⟩] },
      some w.id)

def setPhase (σ : Bucket) (number : Nat) (phase : TokenPhase) : Bucket :=
  { σ with calls := σ.calls.modify number fun c => { c with phase := phase } }

def afterAttempt (c : TokenCall) (token : Option Uuid) (clock : Nat) : TokenPhase :=
  match token with
  | some workerId => .answered (.token workerId)
  | none => if ∃ deadline ∈ c.deadline, deadline ≤ clock then .answered .storageBusy else .trying

/-- One attempt of a call; the clock does not go back. -/
def attempt (σ : Bucket) (number : Nat) (deletedAt insertedAt : UtcTime) (first : Uuid) (clock : Nat) :
    Bucket :=
  match σ.calls[number]? with
  | some c =>
    if c.phase = .trying ∧ σ.clock ≤ deletedAt.nanos ∧ deletedAt.nanos ≤ insertedAt.nanos then
      let (τ, token) := σ.getToken c.storageId deletedAt insertedAt first
      τ.setPhase number (afterAttempt c token clock)
    else σ
  | none => σ

def step (σ : Bucket) : BucketAct → Bucket
  | .call storageId deadline => { σ with calls := σ.calls ++ [⟨storageId, deadline, .checking⟩] }
  | .check number =>
    match σ.calls[number]? with
    | some c =>
      if c.phase = .checking then
        σ.setPhase number
          (if ∃ w ∈ σ.workers, w.storageId = some c.storageId then .trying
            else .answered .noStorageWorkers)
      else σ
    | none => σ
  | .attempt number deletedAt insertedAt first clock => σ.attempt number deletedAt insertedAt first clock
  | .addWorker storageId =>
    { σ with workers := σ.workers ++ [⟨σ.nextWorker, storageId⟩], nextWorker := σ.nextWorker + 1 }
  | .rebindToStorage id storageId =>
    { σ with workers := σ.workers.map fun w =>
        if w.id = id then { w with storageId := some storageId } else w }
  | .removeWorker id =>
    { σ with
      workers := σ.workers.filter fun w => w.id ≠ id
      usages := σ.usages.filter fun u => u.workerId ≠ id }

/-- How often a bot was handed out behind one point in time and up to another. -/
def handedWithin (σ : Bucket) (workerId : Uuid) (from_ to_ : Nat) : Nat :=
  σ.handed.countP fun u => u.workerId = workerId ∧ from_ ≤ u.insertedAt ∧ u.insertedAt ≤ to_

/-- A bot is handed out at most `rate` times in any sixty seconds, and a call whose time has come finds no
    bot only if every bot of its storage was handed out that often in the last sixty-one. -/
structure Rated (rate : Nat) (σ : Bucket) : Prop where
  atMost : ∀ workerId from_, σ.handedWithin workerId from_ (from_ + 60 * second) ≤ rate
  atLeast : ∀ storageId first (deletedAt insertedAt : UtcTime), σ.clock ≤ deletedAt.nanos →
    (σ.getToken storageId deletedAt insertedAt first).2 = none →
    ∀ w ∈ σ.workers, w.storageId = some storageId →
      rate ≤ σ.handed.countP fun u => u.workerId = w.id ∧
        deletedAt.nanos < u.insertedAt + 61 * second ∧ u.insertedAt ≤ deletedAt.nanos

/-! ## The usages and what was handed out -/

def Recent (clock : Nat) (workerId : Uuid) (u : Usage) : Prop :=
  u.workerId = workerId ∧ clock / second ≤ u.insertedAt / second + 60

instance Recent.decidable (clock : Nat) (workerId : Uuid) : DecidablePred (Recent clock workerId) :=
  fun _ => inferInstanceAs (Decidable (_ ∧ _))

structure Sound (σ : Bucket) : Prop where
  workerBelow : ∀ w ∈ σ.workers, w.id < σ.nextWorker
  handedBelow : ∀ u ∈ σ.handed, u.workerId < σ.nextWorker
  recorded : σ.usages.Sublist σ.handed
  inCalendar : ∀ u ∈ σ.handed, InCalendar u.insertedAt ∧ u.insertedAt ≤ σ.clock
  counted : ∀ w ∈ σ.workers,
    σ.handed.filter (Recent σ.clock w.id) = σ.usages.filter (Recent σ.clock w.id)
  bounded : ∀ workerId from_, σ.handedWithin workerId from_ (from_ + 60 * second) ≤ σ.rate

variable {σ : Bucket}

lemma Sound.fresh (rate : Nat) : Sound (fresh rate) where
  workerBelow _ h := absurd h List.not_mem_nil
  handedBelow _ h := absurd h List.not_mem_nil
  recorded := List.Sublist.slnil
  inCalendar _ h := absurd h List.not_mem_nil
  counted _ h := absurd h List.not_mem_nil
  bounded _ _ := Nat.zero_le _

lemma old_iff {u : Usage} (h : InCalendar u.insertedAt) (now : UtcTime) :
    u.dt < datetimeText (now.nanos - 60 * second) ↔ u.insertedAt / second + 60 < now.nanos / second := by
  have hday := now.day_le
  unfold Usage.dt
  rw [datetimeText_lt_datetimeText h (now.inCalendar.mono (Nat.sub_le _ _))]
  simp only [second] at hday ⊢
  omega

lemma recent_iff {clock : Nat} {workerId : Uuid} {u : Usage} : Recent clock workerId u ↔
    u.workerId = workerId ∧ clock / second ≤ u.insertedAt / second + 60 :=
  Iff.rfl

lemma Recent.mono {clock clock' : Nat} {workerId : Uuid} {u : Usage} (h : clock ≤ clock')
    (hu : Recent clock' workerId u) : Recent clock workerId u :=
  ⟨hu.1, Nat.le_trans (Nat.div_le_div_right h) hu.2⟩

lemma filter_recent {clock clock' : Nat} (h : clock ≤ clock') (workerId : Uuid) (us : List Usage) :
    (us.filter (Recent clock workerId)).filter (Recent clock' workerId) =
      us.filter (Recent clock' workerId) := by
  rw [List.filter_filter]
  apply List.filter_congr
  intro u _
  by_cases hu : Recent clock' workerId u
  · simp [hu, hu.mono h]
  · simp [hu]

lemma Sound.counted_mono (hs : σ.Sound) {clock : Nat} (h : σ.clock ≤ clock) {w : StorageWorker}
    (hw : w ∈ σ.workers) :
    σ.handed.filter (Recent clock w.id) = σ.usages.filter (Recent clock w.id) := by
  rw [← filter_recent h, hs.counted w hw, filter_recent h]

lemma Sound.deleteOld (hs : σ.Sound) {now : UtcTime} (h : σ.clock ≤ now.nanos) :
    (σ.deleteOld now).Sound where
  workerBelow := hs.workerBelow
  handedBelow := hs.handedBelow
  recorded := List.filter_sublist.trans hs.recorded
  inCalendar u hu := ⟨(hs.inCalendar u hu).1, (hs.inCalendar u hu).2.trans h⟩
  counted w hw := by
    change σ.handed.filter (Recent now.nanos w.id) = (σ.usages.filter _).filter (Recent now.nanos w.id)
    rw [hs.counted_mono h hw, List.filter_filter]
    apply List.filter_congr
    intro u hu
    have hcal := (hs.inCalendar u (hs.recorded.subset hu)).1
    by_cases hrecent : Recent now.nanos w.id u
    · have hold : ¬u.dt < datetimeText (now.nanos - 60 * second) := by
        rw [old_iff hcal]
        exact Nat.not_lt.mpr hrecent.2
      simp [hrecent, hold]
    · simp [hrecent]
  bounded := hs.bounded

lemma Sound.left (hs : σ.Sound) {now : UtcTime} {u : Usage} (hu : u ∈ (σ.deleteOld now).usages) :
    u ∈ σ.usages ∧ now.nanos < u.insertedAt + 61 * second := by
  obtain ⟨hin, hcond⟩ := List.mem_filter.mp hu
  have hcal := (hs.inCalendar u (hs.recorded.subset hin)).1
  have hold := (old_iff hcal now).not.mp (of_decide_eq_true hcond)
  refine ⟨hin, ?_⟩
  simp only [second] at hold ⊢
  omega

lemma candidate_some {storageId first : Uuid} {w : StorageWorker}
    (h : σ.candidate storageId first = some w) :
    w ∈ σ.workers ∧ w.storageId = some storageId ∧ σ.used w.id < σ.rate := by
  have hin : w ∈ σ.candidates storageId := by
    obtain hfind | ⟨_, hhead⟩ := Option.or_eq_some_iff.mp h
    · exact List.mem_of_find?_eq_some hfind
    · exact List.mem_of_head? hhead
  obtain ⟨hfree, _⟩ := List.mem_filter.mp hin
  obtain ⟨hw, hcond⟩ := List.mem_filter.mp hfree
  exact ⟨hw, of_decide_eq_true hcond⟩

lemma candidate_none {storageId first : Uuid} (h : σ.candidate storageId first = none)
    {w : StorageWorker} (hw : w ∈ σ.workers) (hstorage : w.storageId = some storageId) :
    σ.rate ≤ σ.used w.id := by
  by_contra hless
  have hnil : σ.candidates storageId = [] := by
    obtain ⟨_, hhead⟩ := Option.or_eq_none_iff.mp h
    exact List.head?_eq_none_iff.mp hhead
  -- a bot with the least usages would be a candidate
  obtain ⟨least, ⟨hleast, hstorage', hused⟩, hmin⟩ := exists_minimalFor_of_wellFoundedLT
    (fun w => w ∈ σ.workers ∧ w.storageId = some storageId ∧ σ.used w.id < σ.rate)
    (fun w => σ.used w.id) ⟨w, hw, hstorage, Nat.lt_of_not_le hless⟩
  have hfree : least ∈ σ.workers.filter fun w => w.storageId = some storageId ∧ σ.used w.id < σ.rate :=
    List.mem_filter.mpr ⟨hleast, decide_eq_true ⟨hstorage', hused⟩⟩
  have hcandidate : least ∈ σ.candidates storageId := by
    refine List.mem_filter.mpr ⟨hfree, decide_eq_true fun w' hw' => ?_⟩
    obtain ⟨hin, hcond⟩ := List.mem_filter.mp hw'
    exact (Nat.le_total _ _).elim id (hmin ⟨hin, of_decide_eq_true hcond⟩)
  rw [hnil] at hcandidate
  cases hcandidate

lemma Sound.handOut (hs : σ.Sound) {w : StorageWorker} (hw : w ∈ σ.workers) (hused : σ.used w.id < σ.rate)
    {now : UtcTime} (h : σ.clock ≤ now.nanos) :
    Sound { σ with
      usages := σ.usages ++ [⟨w.id, now.nanos⟩]
      clock := now.nanos
      handed := σ.handed ++ [⟨w.id, now.nanos⟩] } where
  workerBelow := hs.workerBelow
  handedBelow u hu := by
    obtain hu | rfl := List.mem_append.mp hu |>.imp_right List.mem_singleton.mp
    · exact hs.handedBelow u hu
    · exact hs.workerBelow w hw
  recorded := hs.recorded.append (List.Sublist.refl _)
  inCalendar u hu := by
    obtain hu | rfl := List.mem_append.mp hu |>.imp_right List.mem_singleton.mp
    · exact ⟨(hs.inCalendar u hu).1, (hs.inCalendar u hu).2.trans h⟩
    · exact ⟨now.inCalendar, Nat.le_refl _⟩
  counted w' hw' := by
    simp only [List.filter_append, hs.counted_mono h hw']
  bounded workerId from_ := by
    have hbefore := hs.bounded workerId from_
    unfold handedWithin at hbefore ⊢
    rw [List.countP_append, List.countP_singleton]
    split
    · case isTrue hin =>
      -- what else is in the window is still recorded, and that is less than `rate`
      obtain ⟨rfl, hfrom, hto⟩ := of_decide_eq_true hin
      have hrecent : (σ.handed.countP fun u => u.workerId = w.id ∧ from_ ≤ u.insertedAt ∧
          u.insertedAt ≤ from_ + 60 * second) ≤ (σ.handed.filter (Recent now.nanos w.id)).length := by
        rw [← List.countP_eq_length_filter]
        apply List.countP_mono_left
        intro u _ hu
        obtain ⟨hid, hu, _⟩ := of_decide_eq_true hu
        refine decide_eq_true ⟨hid, ?_⟩
        dsimp only at hto
        simp only [second] at hto ⊢
        omega
      have hkept : (σ.usages.filter (Recent now.nanos w.id)).length ≤ σ.used w.id := by
        rw [← List.countP_eq_length_filter]
        apply List.countP_mono_left
        intro u _ hu
        exact decide_eq_true (of_decide_eq_true hu).1
      rw [hs.counted_mono h hw] at hrecent
      exact Nat.succ_le_of_lt (lt_of_le_of_lt (hrecent.trans hkept) hused)
    · exact hbefore

lemma Sound.getToken (hs : σ.Sound) (storageId first : Uuid) {deletedAt insertedAt : UtcTime}
    (h : σ.clock ≤ deletedAt.nanos) (h' : deletedAt.nanos ≤ insertedAt.nanos) :
    (σ.getToken storageId deletedAt insertedAt first).1.Sound := by
  have hdelete := hs.deleteOld h
  unfold Bucket.getToken
  dsimp only
  cases hcandidate : (σ.deleteOld deletedAt).candidate storageId first with
  | none => exact hdelete
  | some w =>
    obtain ⟨hw, _, hused⟩ := candidate_some hcandidate
    exact hdelete.handOut hw hused h'

lemma Sound.setPhase (hs : σ.Sound) (number : Nat) (phase : TokenPhase) :
    (σ.setPhase number phase).Sound :=
  { hs with }

/-- Every step keeps the invariant. -/
lemma Sound.step (hs : σ.Sound) (a : BucketAct) : (σ.step a).Sound := by
  cases a with
  | call storageId deadline => exact { hs with }
  | check number =>
    simp only [Bucket.step]
    cases σ.calls[number]? with
    | none => exact hs
    | some c =>
      dsimp only
      split
      · exact hs.setPhase number _
      · exact hs
  | attempt number deletedAt insertedAt first clock =>
    simp only [Bucket.step, Bucket.attempt]
    cases σ.calls[number]? with
    | none => exact hs
    | some c =>
      dsimp only
      split
      · case isTrue h => exact (hs.getToken c.storageId first h.2.1 h.2.2).setPhase number _
      · exact hs
  | addWorker storageId =>
    refine { hs with workerBelow := ?_, handedBelow := ?_, counted := ?_ }
    · intro w hw
      obtain hw | rfl := List.mem_append.mp hw |>.imp_right List.mem_singleton.mp
      · exact Nat.lt_succ_of_lt (hs.workerBelow w hw)
      · exact Nat.lt_succ_self _
    · exact fun u hu => Nat.lt_succ_of_lt (hs.handedBelow u hu)
    · intro w hw
      obtain hw | rfl := List.mem_append.mp hw |>.imp_right List.mem_singleton.mp
      · exact hs.counted w hw
      · -- a new bot was never handed out
        have hnone : ∀ u ∈ σ.handed, ¬Recent σ.clock σ.nextWorker u :=
          fun u hu hrecent => Nat.ne_of_lt (hs.handedBelow u hu) hrecent.1
        have hfilter : ∀ us : List Usage, us ⊆ σ.handed →
            us.filter (Recent σ.clock σ.nextWorker) = [] := by
          intro us hus
          rw [List.filter_eq_nil_iff]
          exact fun u hu hrecent => hnone u (hus hu) (of_decide_eq_true hrecent)
        exact (hfilter _ (List.Subset.refl _)).trans (hfilter _ hs.recorded.subset).symm
  | rebindToStorage id storageId =>
    have hid : ∀ w : StorageWorker,
        (if w.id = id then { w with storageId := some storageId } else w).id = w.id := by
      intro w
      split <;> rfl
    refine { hs with workerBelow := ?_, counted := ?_ }
    · intro w hw
      obtain ⟨v, hv, rfl⟩ := List.mem_map.mp hw
      rw [hid v]
      exact hs.workerBelow v hv
    · intro w hw
      obtain ⟨v, hv, rfl⟩ := List.mem_map.mp hw
      rw [hid v]
      exact hs.counted v hv
  | removeWorker id =>
    refine { hs with workerBelow := ?_, recorded := ?_, counted := ?_ }
    · exact fun w hw => hs.workerBelow w (List.mem_of_mem_filter hw)
    · exact List.filter_sublist.trans hs.recorded
    · intro w hw
      obtain ⟨hw, hne⟩ := List.mem_filter.mp hw
      refine (hs.counted w hw).trans ?_
      change _ = (σ.usages.filter _).filter (Recent σ.clock w.id)
      rw [List.filter_filter]
      apply List.filter_congr
      intro u _
      by_cases hu : Recent σ.clock w.id u
      · have : u.workerId ≠ id := hu.1 ▸ of_decide_eq_true hne
        simp [hu, this]
      · simp [hu]

lemma Sound.starved (hs : σ.Sound) {storageId first : Uuid} {deletedAt insertedAt : UtcTime}
    (h : σ.clock ≤ deletedAt.nanos)
    (hnone : (σ.getToken storageId deletedAt insertedAt first).2 = none) {w : StorageWorker}
    (hw : w ∈ σ.workers) (hstorage : w.storageId = some storageId) :
    σ.rate ≤ σ.handed.countP fun u => u.workerId = w.id ∧ deletedAt.nanos < u.insertedAt + 61 * second ∧
      u.insertedAt ≤ deletedAt.nanos := by
  unfold Bucket.getToken at hnone
  dsimp only at hnone
  cases hcandidate : (σ.deleteOld deletedAt).candidate storageId first with
  | some w' =>
    rw [hcandidate] at hnone
    cases hnone
  | none =>
    have hused : σ.rate ≤ (σ.deleteOld deletedAt).used w.id := candidate_none hcandidate hw hstorage
    have hleft : (σ.deleteOld deletedAt).used w.id ≤ (σ.deleteOld deletedAt).usages.countP fun u =>
        u.workerId = w.id ∧ deletedAt.nanos < u.insertedAt + 61 * second ∧
          u.insertedAt ≤ deletedAt.nanos := by
      apply List.countP_mono_left
      intro u hu hid
      obtain ⟨hin, hlate⟩ := hs.left hu
      have hclock := (hs.inCalendar u (hs.recorded.subset hin)).2
      exact decide_eq_true ⟨of_decide_eq_true hid, hlate, hclock.trans h⟩
    refine hused.trans (hleft.trans ?_)
    exact (List.filter_sublist.trans hs.recorded).countP_le

lemma rate_step (σ : Bucket) (a : BucketAct) : (σ.step a).rate = σ.rate := by
  cases a with
  | check number =>
    simp only [Bucket.step]
    cases σ.calls[number]? with
    | none => rfl
    | some c =>
      dsimp only
      split <;> rfl
  | attempt number deletedAt insertedAt first clock =>
    simp only [Bucket.step, Bucket.attempt, Bucket.getToken]
    cases σ.calls[number]? with
    | none => rfl
    | some c =>
      dsimp only
      split
      · cases (σ.deleteOld deletedAt).candidate c.storageId first <;> rfl
      · rfl
  | _ => rfl

end Bucket

end Sarca.Server
