import Sarca.Client.Engine

/-!
# What a batch charges to whom

`push_local` sends the pending files one after the other. A failure is the file's own, the link's, or the
server is busy: the first goes on the retry ladder, the second stops the batch, the third is passed over.

`Turn` is what came of one file. `Exhausted` says that a batch has had enough after some turns, and `Charged`
what turns do to the failure row of their file. `pushLocalAt_accounts` says that a batch is its turns up to
the first point where it has had enough.
-/

namespace Sarca.Client
open Sarca.Lib Sarca.Server

/-- What `push_one` came to, and when. -/
structure Turn where
  candidate : LocalCandidate
  verdict : Except FailureScope PushOutcome
  nowMs : Int

def Turn.busy (t : Turn) : Bool :=
  match t.verdict with
  | .error .busy => true
  | _ => false

def Turn.unlinked (t : Turn) : Bool :=
  match t.verdict with
  | .error .link => true
  | _ => false

def Turn.failed (t : Turn) : Bool :=
  match t.verdict with
  | .error .file => true
  | _ => false

/-- A batch has had enough: the link went down, or of the turns that were not busy the last ones all failed,
    as many as the limit says. -/
def Exhausted (turns : List Turn) : Prop :=
  (∃ t ∈ turns.getLast?, t.unlinked = true) ∨
    ∃ before last, turns.filter (fun t => !t.busy) = before ++ last ∧
      last.length = maxConsecutiveUploadFailures ∧ ∀ t ∈ last, t.failed = true

/-- What the turns of one file do to its failure row. -/
inductive Charged : List Turn → Option UploadFailure → Option UploadFailure → Prop where
  | nil {row} : Charged [] row row
  /-- a success clears the row -/
  | cleared {t turns row row' outcome} (hverdict : t.verdict = .ok outcome) (hrest : Charged turns none row') :
    Charged (t :: turns) row row'
  /-- a failure of the file's own counts once, and puts the next attempt off -/
  | raised {t turns row row' f} (hverdict : t.verdict = .error .file)
      (hcount : f.failCount = (row.map UploadFailure.failCount).getD 0 + 1) (hlater : t.nowMs < f.nextAttemptMs)
      (hrest : Charged turns (some f) row') :
    Charged (t :: turns) row row'
  /-- a link that is down, or a busy server, is nothing to the file -/
  | spared {t turns row row' scope} (hverdict : t.verdict = .error scope) (hscope : scope ≠ .file)
      (hrest : Charged turns row row') :
    Charged (t :: turns) row row'

section Batch

variable (sha256 : Bytes → ContentHash) (b : Binding)

/-- The turns of a batch that goes on to its end. -/
def turnsOf : List (LocalCandidate × PushAnswer) → LocalIndex → List Turn
  | [], _ => []
  | (c, a) :: rest, ix =>
    ⟨c, (pushNoted sha256 b c a ix).2, a.nowMs⟩ :: turnsOf rest (pushNoted sha256 b c a ix).1

def indexAfter (batch : List (LocalCandidate × PushAnswer)) (ix : LocalIndex) : LocalIndex :=
  batch.foldl (fun ix ca => (pushNoted sha256 b ca.1 ca.2 ix).1) ix

def PushLocalResult.after (t : PushLocalResult) (turns : List Turn) : PushLocalResult :=
  turns.foldl (fun t turn =>
    match turn.verdict with
    | .ok outcome => t.count outcome
    | .error .busy => t
    | .error .link => { t with firstError := true }
    | .error .file => { t with failed := t.failed + 1, firstError := true }) t

/-- What a batch over the pending files does and charges. -/
structure Accounted (b : Binding) (nowMs : Int) (candidates : List LocalCandidate) (ix : LocalIndex)
    (turns : List Turn)
    (result : LocalIndex × PushLocalResult) : Prop where
  inOrder : turns.map Turn.candidate <+: filterPendingCandidates ix b.id nowMs candidates
  stops : turns.length < (filterPendingCandidates ix b.id nowMs candidates).length → Exhausted turns
  goesOn : ∀ before, before <+: turns → before ≠ turns → ¬ Exhausted before
  charged : ∀ p, Charged (turns.filter fun t => t.candidate.relativePath = p) (ix.getUploadFailure b.id p)
    (result.1.getUploadFailure b.id p)
  due : ∀ c ∈ filterPendingCandidates ix b.id nowMs candidates, ∀ f ∈ ix.getUploadFailure b.id c.relativePath,
    f.nextAttemptMs ≤ nowMs
  counted : result.2 = PushLocalResult.after
    ⟨0, candidates.length, (filterPendingCandidates ix b.id nowMs candidates).length, 0, false, 0⟩ turns

/-- The pending files, each with what it meets. -/
def pendingBatch (candidates : List LocalCandidate) (nowMs : Int) (answers : Nat → PushAnswer)
    (ix : LocalIndex) :
    List (LocalCandidate × PushAnswer) :=
  (filterPendingCandidates ix b.id nowMs candidates).zipIdx.map fun ci => (ci.1, answers ci.2)

/-- Rust `push_local`, where a file that is listed twice may meet two answers. -/
def pushLocalAt (candidates : List LocalCandidate) (nowMs : Int) (answers : Nat → PushAnswer)
    (ix : LocalIndex) :
    LocalIndex × PushLocalResult :=
  let batch := pendingBatch b candidates nowMs answers ix
  pushBatch sha256 b batch ix ⟨0, candidates.length, batch.length, 0, false, 0⟩ 0

lemma pushLocal_eq (candidates : List LocalCandidate) (nowMs : Int) (answer : LocalCandidate → PushAnswer)
    (ix : LocalIndex) : pushLocal sha256 b candidates nowMs answer ix =
      pushLocalAt sha256 b candidates nowMs
        (fun i => answer ((filterPendingCandidates ix b.id nowMs candidates).getD i ⟨[], 0, 0⟩)) ix := by
  have hbatch : pendingBatch b candidates nowMs
      (fun i => answer ((filterPendingCandidates ix b.id nowMs candidates).getD i ⟨[], 0, 0⟩)) ix =
        (filterPendingCandidates ix b.id nowMs candidates).map fun c => (c, answer c) := by
    unfold pendingBatch
    apply List.ext_getElem
    · simp
    · intro i hi hi'
      have hlt : i < (filterPendingCandidates ix b.id nowMs candidates).length := by simpa using hi'
      simp [List.getElem?_eq_getElem hlt]
  unfold pushLocal pushLocalAt
  dsimp only
  rw [hbatch, List.length_map]

end Batch

/-! ## The streak -/

def streak (turns : List Turn) : Nat :=
  ((turns.filter fun t => !t.busy).reverse.takeWhile Turn.failed).length

lemma le_length_takeWhile_iff {α : Type*} {p : α → Bool} {l : List α} {n : Nat} :
    n ≤ (l.takeWhile p).length ↔
      ∃ first rest, l = first ++ rest ∧ first.length = n ∧ ∀ x ∈ first, p x = true := by
  constructor
  · intro hle
    refine ⟨(l.takeWhile p).take n, (l.takeWhile p).drop n ++ l.dropWhile p, ?_, List.length_take_of_le hle, ?_⟩
    · rw [← List.append_assoc, List.take_append_drop, List.takeWhile_append_dropWhile]
    · exact fun x hx => List.mem_takeWhile_imp (List.mem_of_mem_take hx)
  · rintro ⟨first, rest, rfl, rfl, hall⟩
    rw [List.takeWhile_append_of_pos hall, List.length_append]
    exact Nat.le_add_right _ _

lemma exhausted_iff {turns : List Turn} : Exhausted turns ↔
    (∃ t ∈ turns.getLast?, t.unlinked = true) ∨ maxConsecutiveUploadFailures ≤ streak turns := by
  refine or_congr_right ?_
  rw [streak, le_length_takeWhile_iff]
  constructor
  · rintro ⟨before, last, heq, hlength, hall⟩
    refine ⟨last.reverse, before.reverse, ?_, ?_, fun t ht => hall t (List.mem_reverse.mp ht)⟩
    · rw [heq, List.reverse_append]
    · rw [List.length_reverse, hlength]
  · rintro ⟨first, rest, heq, hlength, hall⟩
    refine ⟨rest.reverse, first.reverse, ?_, ?_, fun t ht => hall t (List.mem_reverse.mp ht)⟩
    · rw [← List.reverse_append, ← heq, List.reverse_reverse]
    · rw [List.length_reverse, hlength]

lemma streak_append (turns : List Turn) (t : Turn) : streak (turns ++ [t]) =
    if t.busy then streak turns else if t.failed then streak turns + 1 else 0 := by
  unfold streak
  rw [List.filter_append, List.filter_singleton]
  cases hbusy : t.busy with
  | true => simp
  | false => cases hfailed : t.failed <;> simp [hfailed]

lemma unlinked_append (turns : List Turn) (t : Turn) :
    (∃ u ∈ (turns ++ [t]).getLast?, u.unlinked = true) ↔ t.unlinked = true := by
  rw [List.getLast?_concat]
  simp

/-! ## One batch -/

section Run

variable {sha256 : Bytes → ContentHash} {b : Binding}

lemma exhausted_append {done : List Turn} {t : Turn} (hstreak : streak done < maxConsecutiveUploadFailures) :
    Exhausted (done ++ [t]) ↔
      t.unlinked = true ∨ t.failed = true ∧ maxConsecutiveUploadFailures ≤ streak done + 1 := by
  rw [exhausted_iff, unlinked_append, streak_append]
  refine or_congr_right ?_
  cases hbusy : t.busy with
  | true =>
    have hfailed : t.failed = false := by
      unfold Turn.busy at hbusy
      unfold Turn.failed
      split at hbusy
      · case h_1 hverdict => rw [hverdict]
      · cases hbusy
    rw [if_pos rfl, hfailed]
    exact iff_of_false (Nat.not_le.mpr hstreak) fun h => Bool.false_ne_true h.1
  | false =>
    rw [if_neg Bool.false_ne_true]
    cases t.failed with
    | true => simp
    | false => simp [maxConsecutiveUploadFailures]

lemma pushBatch_cons (c : LocalCandidate) (a : PushAnswer) (batch : List (LocalCandidate × PushAnswer))
    (ix : LocalIndex) (t : PushLocalResult) {done : List Turn} (hgo : ¬ Exhausted done) {turn : Turn}
    (hturn : turn = ⟨c, (pushNoted sha256 b c a ix).2, a.nowMs⟩) :
    Exhausted (done ++ [turn]) ∧
        pushBatch sha256 b ((c, a) :: batch) ix t (streak done) =
          ((pushNoted sha256 b c a ix).1, t.after [turn]) ∨
      ¬ Exhausted (done ++ [turn]) ∧ pushBatch sha256 b ((c, a) :: batch) ix t (streak done) =
        pushBatch sha256 b batch (pushNoted sha256 b c a ix).1 (t.after [turn]) (streak (done ++ [turn])) := by
  have hstreak : streak done < maxConsecutiveUploadFailures :=
    Nat.not_le.mp (not_or.mp (exhausted_iff.not.mp hgo)).2
  rw [exhausted_append hstreak, streak_append, pushBatch]
  generalize pushNoted sha256 b c a ix = noted at hturn ⊢
  obtain ⟨ix', verdict⟩ := noted
  subst hturn
  cases verdict with
  | ok outcome =>
    right
    exact ⟨fun h => h.elim Bool.false_ne_true fun h => Bool.false_ne_true h.1, rfl⟩
  | error scope =>
    cases scope with
    | link => exact .inl ⟨.inl rfl, rfl⟩
    | busy =>
      right
      exact ⟨fun h => h.elim Bool.false_ne_true fun h => Bool.false_ne_true h.1, rfl⟩
    | file =>
      dsimp only
      split
      · case isTrue hmany => exact .inl ⟨.inr ⟨rfl, hmany⟩, rfl⟩
      · case isFalse hfew => exact .inr ⟨fun h => h.elim Bool.false_ne_true fun h => hfew h.2, rfl⟩

variable (sha256 b) in
lemma pushBatch_turns (batch : List (LocalCandidate × PushAnswer)) : ∀ (done : List Turn) (ix : LocalIndex)
    (t : PushLocalResult), ¬ Exhausted done → ∃ n ≤ batch.length,
      pushBatch sha256 b batch ix t (streak done) =
        (indexAfter sha256 b (batch.take n) ix, t.after ((turnsOf sha256 b batch ix).take n)) ∧
      (n < batch.length → Exhausted (done ++ (turnsOf sha256 b batch ix).take n)) ∧
      ∀ m < n, ¬ Exhausted (done ++ (turnsOf sha256 b batch ix).take m) := by
  induction batch with
  | nil =>
    exact fun done ix t hgo =>
      ⟨0, Nat.le_refl 0, rfl, fun h => absurd h (Nat.lt_irrefl 0), fun m hm => nomatch hm⟩
  | cons ca batch ih =>
    intro done ix t hgo
    obtain ⟨c, a⟩ := ca
    generalize hturn : (⟨c, (pushNoted sha256 b c a ix).2, a.nowMs⟩ : Turn) = turn
    have hturns :
        turnsOf sha256 b ((c, a) :: batch) ix = turn :: turnsOf sha256 b batch (pushNoted sha256 b c a ix).1 :=
      congrArg (· :: _) hturn
    rw [hturns]
    cases pushBatch_cons c a batch ix t hgo hturn.symm with
    | inl hend =>
      obtain ⟨hexhausted, heq⟩ := hend
      refine ⟨1, Nat.succ_le_succ (Nat.zero_le _), heq, fun _ => hexhausted, fun m hm => ?_⟩
      obtain rfl := Nat.lt_one_iff.mp hm
      rwa [List.take_zero, List.append_nil]
    | inr hnext =>
      obtain ⟨hgo', heq⟩ := hnext
      obtain ⟨n, hle, hrun, hstop, hfirst⟩ :=
        ih (done ++ [turn]) (pushNoted sha256 b c a ix).1 (t.after [turn]) hgo'
      refine ⟨n + 1, Nat.succ_le_succ hle, heq.trans hrun, fun hlt => ?_, fun m hm => ?_⟩
      · have hexhausted := hstop (Nat.lt_of_succ_lt_succ hlt)
        rwa [List.append_assoc] at hexhausted
      · cases m with
        | zero => rwa [List.take_zero, List.append_nil]
        | succ m =>
          have hnot := hfirst m (Nat.lt_of_succ_lt_succ hm)
          rwa [List.append_assoc] at hnot

/-! ## The failure rows -/

lemma getUploadFailure_set {ix : LocalIndex} {id : BindingId} {rel rel' : Path} {f : UploadFailure} :
    (ix.setUploadFailure id rel f).getUploadFailure id rel' =
      if rel' = rel then some f else ix.getUploadFailure id rel' := by
  unfold LocalIndex.setUploadFailure LocalIndex.getUploadFailure
  split
  · case isTrue h =>
    subst h
    exact AList.lookup_insert _
  · case isFalse h => exact AList.lookup_insert_ne fun heq => h (congrArg Prod.snd heq)

lemma getUploadFailure_clear {ix : LocalIndex} {id : BindingId} {rel rel' : Path} :
    (ix.clearUploadFailure id rel).getUploadFailure id rel' =
      if rel' = rel then none else ix.getUploadFailure id rel' := by
  unfold LocalIndex.clearUploadFailure LocalIndex.getUploadFailure
  split
  · case isTrue h =>
    subst h
    exact AList.lookup_erase _ _
  · case isFalse h => exact AList.lookup_erase_ne fun heq => h (congrArg Prod.snd heq)

lemma pushOne_failures (c : LocalCandidate) (a : PushAnswer) (ix : LocalIndex) :
    (pushOne sha256 b c a ix).1.uploadFailures = ix.uploadFailures := by
  have hcase := pushOne_case sha256 b c a ix
  generalize pushOne sha256 b c a ix = res at hcase ⊢
  cases hcase with
  | relaying | unread | refused | handedOff => rfl
  | touched | confirmed | stored => rfl

lemma uploadBackoffMs_pos (failCount : Int) : 0 < uploadBackoffMs failCount := by
  have hrungs : ∀ i < 5, 0 < [60000, 300000, 1800000, 3600000, 21600000].getD i (0 : Int) := by decide
  apply hrungs
  show min _ 4 < 5
  omega

variable (sha256 b) in
lemma pushOne_getUploadFailure (c : LocalCandidate) (a : PushAnswer) (ix : LocalIndex) (p : Path) :
    (pushOne sha256 b c a ix).1.getUploadFailure b.id p = ix.getUploadFailure b.id p := by
  unfold LocalIndex.getUploadFailure
  rw [pushOne_failures]

lemma pushNoted_charged (c : LocalCandidate) (a : PushAnswer) (ix : LocalIndex) {turns : List Turn}
    {row : Option UploadFailure}
    (hrest : Charged turns ((pushNoted sha256 b c a ix).1.getUploadFailure b.id c.relativePath) row) :
    Charged (⟨c, (pushNoted sha256 b c a ix).2, a.nowMs⟩ :: turns)
      (ix.getUploadFailure b.id c.relativePath) row := by
  have hkept := pushOne_getUploadFailure sha256 b c a ix
  unfold pushNoted at hrest ⊢
  generalize pushOne sha256 b c a ix = pushed at hkept hrest ⊢
  obtain ⟨ix', verdict⟩ := pushed
  cases verdict with
  | ok outcome =>
    refine .cleared rfl ?_
    dsimp only at hrest
    rwa [getUploadFailure_clear, if_pos rfl] at hrest
  | error scope =>
    cases scope with
    | file =>
      dsimp only [noteUploadFailure] at hrest
      rw [getUploadFailure_set, if_pos rfl, hkept] at hrest
      refine .raised rfl rfl ?_ hrest
      exact Int.lt_add_of_pos_right _ (uploadBackoffMs_pos _)
    | link | busy =>
      refine .spared rfl FailureScope.noConfusion ?_
      dsimp only at hrest
      rwa [hkept] at hrest

lemma pushNoted_other (c : LocalCandidate) (a : PushAnswer) (ix : LocalIndex) {p : Path}
    (hne : p ≠ c.relativePath) :
    (pushNoted sha256 b c a ix).1.getUploadFailure b.id p = ix.getUploadFailure b.id p := by
  have hkept := pushOne_getUploadFailure sha256 b c a ix p
  unfold pushNoted
  generalize pushOne sha256 b c a ix = pushed at hkept ⊢
  obtain ⟨ix', verdict⟩ := pushed
  cases verdict with
  | ok outcome =>
    dsimp only
    rwa [getUploadFailure_clear, if_neg hne]
  | error scope =>
    cases scope with
    | file =>
      dsimp only [noteUploadFailure]
      rwa [getUploadFailure_set, if_neg hne]
    | link | busy => exact hkept

variable (sha256 b) in
lemma indexAfter_charged (batch : List (LocalCandidate × PushAnswer)) (p : Path) : ∀ ix : LocalIndex,
    Charged ((turnsOf sha256 b batch ix).filter fun t => t.candidate.relativePath = p)
        (ix.getUploadFailure b.id p)
      ((indexAfter sha256 b batch ix).getUploadFailure b.id p) := by
  induction batch with
  | nil => exact fun ix => .nil
  | cons ca batch ih =>
    intro ix
    obtain ⟨c, a⟩ := ca
    have hrest := ih (pushNoted sha256 b c a ix).1
    rw [turnsOf, List.filter_cons]
    obtain rfl | hne := eq_or_ne p c.relativePath
    · rw [if_pos (decide_eq_true rfl)]
      exact pushNoted_charged c a ix hrest
    · rw [if_neg fun h => hne (of_decide_eq_true h).symm, ← pushNoted_other c a ix hne]
      exact hrest

lemma turnsOf_take (batch : List (LocalCandidate × PushAnswer)) : ∀ (ix : LocalIndex) (n : Nat),
    turnsOf sha256 b (batch.take n) ix = (turnsOf sha256 b batch ix).take n := by
  induction batch with
  | nil => exact fun ix n => by rw [List.take_nil, turnsOf, List.take_nil]
  | cons ca batch ih =>
    intro ix n
    cases n with
    | zero => rfl
    | succ n => exact congrArg (_ :: ·) (ih _ n)

lemma turnsOf_candidates (batch : List (LocalCandidate × PushAnswer)) : ∀ ix : LocalIndex,
    (turnsOf sha256 b batch ix).map Turn.candidate = batch.map Prod.fst := by
  induction batch with
  | nil => exact fun ix => rfl
  | cons ca batch ih => exact fun ix => congrArg (_ :: ·) (ih _)

lemma pendingBatch_candidates (candidates : List LocalCandidate) (nowMs : Int) (answers : Nat → PushAnswer)
    (ix : LocalIndex) :
    (pendingBatch b candidates nowMs answers ix).map Prod.fst =
        filterPendingCandidates ix b.id nowMs candidates := by
  unfold pendingBatch
  rw [List.map_map]
  exact List.zipIdx_map_fst 0 _

lemma due_of_pending {ix : LocalIndex} {id : BindingId} {nowMs : Int} {candidates : List LocalCandidate}
    {c : LocalCandidate} (hc : c ∈ filterPendingCandidates ix id nowMs candidates) :
    ∀ f ∈ ix.getUploadFailure id c.relativePath, f.nextAttemptMs ≤ nowMs := by
  intro f hf
  have hpending := (List.mem_filter.mp hc).2
  rw [Option.mem_def.mp hf, Bool.and_eq_true] at hpending
  simpa using hpending.2

/-- A batch attempts the pending files in their order; it stops where it has had enough, and not before; each
    file's failure row is what its turns make of it; and the panel is shown what came of the turns. -/
theorem pushLocalAt_accounts (sha256 : Bytes → ContentHash) (b : Binding) (candidates : List LocalCandidate)
    (nowMs : Int) (answers : Nat → PushAnswer) (ix : LocalIndex) :
    ∃ n, (pushLocalAt sha256 b candidates nowMs answers ix).1 =
        indexAfter sha256 b ((pendingBatch b candidates nowMs answers ix).take n) ix ∧
      Accounted b nowMs candidates ix
        (turnsOf sha256 b ((pendingBatch b candidates nowMs answers ix).take n) ix)
        (pushLocalAt sha256 b candidates nowMs answers ix) := by
  generalize hbatch : pendingBatch b candidates nowMs answers ix = batch
  have hcandidates : batch.map Prod.fst = filterPendingCandidates ix b.id nowMs candidates :=
    hbatch ▸ pendingBatch_candidates candidates nowMs answers ix
  have hlength : batch.length = (filterPendingCandidates ix b.id nowMs candidates).length := by
    rw [← hcandidates, List.length_map]
  have hfresh : ¬ Exhausted [] := fun h =>
    h.elim (fun ⟨_, ht, _⟩ => nomatch ht) fun ⟨before, last, heq, hlast, _⟩ => by
    rw [(List.append_eq_nil_iff.mp heq.symm).2] at hlast
    cases hlast
  obtain ⟨n, hle, hrun, hstop, hfirst⟩ := pushBatch_turns sha256 b batch [] ix
    ⟨0, candidates.length, batch.length, 0, false, 0⟩ hfresh
  have hpush : pushLocalAt sha256 b candidates nowMs answers ix =
      (indexAfter sha256 b (batch.take n) ix,
        PushLocalResult.after ⟨0, candidates.length, batch.length, 0, false, 0⟩
          ((turnsOf sha256 b batch ix).take n)) := by
    rw [← hrun, pushLocalAt, hbatch]
    rfl
  have hturns : (turnsOf sha256 b batch ix).length = batch.length := by
    rw [← List.length_map, turnsOf_candidates, List.length_map]
  refine ⟨n, congrArg Prod.fst hpush, ?_⟩
  rw [turnsOf_take, hpush, hlength]
  constructor
  · rw [List.map_take, turnsOf_candidates, hcandidates]
    exact List.take_prefix n _
  · intro hlt
    rw [List.length_take, hturns, Nat.min_eq_left hle, ← hlength] at hlt
    exact hstop hlt
  · intro before hbefore hne
    have heq := List.prefix_iff_eq_take.mp hbefore
    have hlt : before.length < n := by
      have hle' := hbefore.length_le
      rw [List.length_take, hturns, Nat.min_eq_left hle] at hle'
      refine Nat.lt_of_le_of_ne hle' fun hsame => hne ?_
      rw [heq, hsame, List.take_take, Nat.min_self]
    have hnot := hfirst before.length hlt
    rw [List.take_take, Nat.min_eq_left (Nat.le_of_lt hlt)] at heq
    rwa [List.nil_append, ← heq] at hnot
  · intro p
    have hcharged := indexAfter_charged sha256 b (batch.take n) p ix
    rwa [turnsOf_take] at hcharged
  · exact fun c hc => due_of_pending hc
  · rfl

end Run

end Sarca.Client
