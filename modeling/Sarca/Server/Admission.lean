import Mathlib.Algebra.Order.BigOperators.Group.List
import Mathlib.Data.List.Nodup
import Sarca.Lib.Run
import Sarca.Lib.Text
import Sarca.Server.Spool

/-!
# Uploads on their way to the spool

The upload handler asks `SpoolUsage.admits` before it reads a byte of the body, with the size the
`Content-Length` header announces; the ledger learns of the upload when its relay starts. `Spooling.step`
is one turn of one request: the admission, a piece of the body, its end, the start of the relay, a chunk
that Telegram accepted, the removal of the file, and the end of the relay. `LeavesReserve` asks that the
spool files leave the reserve free and that the bytes still to relay stay within the budget, one upload
apart. `admitted_leave_reserve`: that is so in every run in which each upload that is admitted fits
beside what the uploads admitted before it have yet to write and to relay, and no body is longer than
announced.
-/

namespace Sarca.Server
open Sarca.Lib

inductive SpoolPhase where
  /-- its body is being written -/
  | receiving
  /-- its body is complete, and no relay has started -/
  | held
  /-- its relay runs for a row -/
  | relaying (fileId : Uuid)
  /-- its relay has ended -/
  | over
  deriving DecidableEq

/-- An admitted upload: what its header announced, its spool file, and what of it is not in a channel. -/
structure Spool where
  number : Nat
  incoming : UInt64
  written : Nat
  unsent : Nat
  phase : SpoolPhase
  deriving DecidableEq

/-- A server with its spools; `capacity` is what is free under `WORK_DIR` without them. -/
structure Spooling where
  capacity : Nat
  budget : UInt64
  ledger : RelayLedger
  spools : List Spool

inductive SpoolStep where
  /-- an upload request arrives; `readable`: the filesystem can be asked -/
  | request (number : Nat) (contentLength : Option (List Char)) (readable : Bool)
  /-- a piece of the body -/
  | write (number : Nat) (bytes : Nat)
  | spooled (number : Nat)
  | start (number : Nat) (fileId : Uuid)
  /-- a chunk is in a channel, or was found there -/
  | chunk (number : Nat) (bytes : UInt64)
  /-- the storage manager removes the spool (Rust `RemoveSpool`) -/
  | unlink (number : Nat)
  /-- the guard of the relay is dropped -/
  | finish (number : Nat)
  /-- the request is over without a relay, or behind it, and removes its spool -/
  | drop (number : Nat)

namespace Spooling

def onDisk (σ : Spooling) : Nat :=
  (σ.spools.map (·.written)).sum

/-- `available_bytes` -/
def available (σ : Spooling) (readable : Bool) : Option UInt64 :=
  if readable then some (word (σ.capacity - σ.onDisk)) else none

/-- The size that the header announces; none when it is absent or not a number. -/
def announced (contentLength : Option (List Char)) : UInt64 :=
  UInt64.ofNat ((contentLength.bind parseU64).getD 0)

def admission (σ : Spooling) (contentLength : Option (List Char)) (readable : Bool) :
    SpoolAdmission :=
  σ.ledger.usage.admits (announced contentLength) σ.budget (σ.available readable)

def change (σ : Spooling) (number : Nat) (f : Spool → Spool) : List Spool :=
  σ.spools.map fun s => if s.number = number then f s else s

def spool? (σ : Spooling) (number : Nat) : Option Spool :=
  σ.spools.find? fun s => s.number = number

def phase? (σ : Spooling) (number : Nat) : Option SpoolPhase :=
  (σ.spool? number).map Spool.phase

def remove (σ : Spooling) (number : Nat) : Spooling :=
  { σ with spools := σ.spools.filter fun s => s.number ≠ number }

/-- The next state; a turn that does not belong changes nothing. -/
def step (σ : Spooling) : SpoolStep → Spooling
  | .request number contentLength readable =>
    if (σ.spool? number).isSome then σ
    else if σ.admission contentLength readable = .admitted then
      { σ with spools := ⟨number, announced contentLength, 0, 0, .receiving⟩ :: σ.spools }
    else σ
  | .write number bytes => match σ.phase? number with
    | some .receiving =>
      -- a write that finds the disk full ends the request
      if σ.onDisk + bytes ≤ σ.capacity then
        { σ with spools := σ.change number fun s =>
            { s with written := s.written + bytes, unsent := s.unsent + bytes } }
      else σ.remove number
    | _ => σ
  | .spooled number => match σ.phase? number with
    | some .receiving => { σ with spools := σ.change number fun s => { s with phase := .held } }
    | _ => σ
  | .start number fileId => match σ.spool? number with
    | some ⟨_, _, written, _, .held⟩ =>
      { σ with
        ledger := σ.ledger.start fileId (word written)
        spools := σ.change number fun s => { s with phase := .relaying fileId } }
    | _ => σ
  | .chunk number bytes => match σ.phase? number with
    | some (.relaying fileId) =>
      { σ with
        ledger := σ.ledger.relayed fileId bytes
        spools := σ.change number fun s => { s with unsent := s.unsent - bytes.toNat } }
    | _ => σ
  | .unlink number => match σ.phase? number with
    | some (.relaying _) =>
      { σ with spools := σ.change number fun s => { s with written := 0 } }
    | _ => σ
  | .finish number => match σ.phase? number with
    | some (.relaying fileId) =>
      { σ with
        ledger := σ.ledger.endRelay fileId
        spools := σ.change number fun s => { s with unsent := 0, phase := .over } }
    | _ => σ
  | .drop number => match σ.phase? number with
    | some (.relaying _) => σ
    | _ => σ.remove number

end Spooling

/-- The spool files leave the reserve, and what is still to relay is within the budget or that of one
    upload alone. -/
structure LeavesReserve (σ : Spooling) : Prop where
  reserve : σ.onDisk ≤ σ.capacity - spoolFreeSpaceReserve.toNat
  backlog : (σ.spools.map (·.unsent)).sum ≤ σ.budget.toNat ∨
    ∃ s ∈ σ.spools, (σ.spools.map (·.unsent)).sum = s.unsent

def Spool.promised (s : Spool) : Nat :=
  if s.phase = .receiving then s.incoming.toNat else s.written

def Spool.reserved (s : Spool) : Nat :=
  if s.phase = .receiving then s.incoming.toNat else s.unsent

/-- An upload fits beside what the others have yet to write and to relay. -/
structure Spooling.Fits (σ : Spooling) (incoming : UInt64) : Prop where
  disk : (σ.spools.map (·.promised)).sum + incoming.toNat + spoolFreeSpaceReserve.toNat ≤ σ.capacity
  backlog : (σ.spools.map (·.reserved)).sum = 0 ∨
    (σ.spools.map (·.reserved)).sum + incoming.toNat ≤ σ.budget.toNat

/-- An upload that is admitted fits, and its body is no longer than announced. -/
def Accounted (σ : Spooling) : SpoolStep → Prop
  | .request _ contentLength readable =>
    σ.admission contentLength readable = .admitted → σ.Fits (Spooling.announced contentLength)
  | .write number bytes =>
    ∀ s ∈ σ.spools, s.number = number → s.phase = .receiving → s.written + bytes ≤ s.incoming.toNat
  | _ => True

instance Spooling.Fits.decidable (σ : Spooling) (incoming : UInt64) :
    Decidable (σ.Fits incoming) :=
  decidable_of_iff (_ ∧ _) ⟨fun h => ⟨h.1, h.2⟩, fun h => ⟨h.disk, h.backlog⟩⟩

instance Accounted.decidable (σ : Spooling) (a : SpoolStep) : Decidable (Accounted σ a) := by
  unfold Accounted
  split
  · infer_instance
  · infer_instance
  · exact isTrue trivial

/-! ## Sums over the uploads -/

def AtMostOne (f : Spool → Nat) (spools : List Spool) : Prop :=
  spools.Pairwise fun s s' => f s = 0 ∨ f s' = 0

lemma sum_atMostOne {f : Spool → Nat} {spools : List Spool} (h : AtMostOne f spools) :
    (spools.map f).sum = 0 ∨ ∃ s ∈ spools, (spools.map f).sum = f s := by
  induction spools with
  | nil => exact Or.inl rfl
  | cons s spools ih =>
    obtain ⟨hs, hrest⟩ := List.pairwise_cons.mp h
    rw [List.map_cons, List.sum_cons]
    by_cases hzero : f s = 0
    · rw [hzero, Nat.zero_add]
      cases ih hrest with
      | inl hnone => exact Or.inl hnone
      | inr hone =>
        obtain ⟨s', hs', heq⟩ := hone
        exact Or.inr ⟨s', List.mem_cons_of_mem s hs', heq⟩
    · have hrest : (spools.map f).sum = 0 := by
        apply List.sum_eq_zero
        intro n hn
        obtain ⟨s', hs', rfl⟩ := List.mem_map.mp hn
        exact (hs s' hs').resolve_left hzero
      exact Or.inr ⟨s, List.mem_cons_self, by rw [hrest, Nat.add_zero]⟩

/-- The bytes become no more, and no more uploads have some. -/
structure Shrinks (f : Spool → Nat) (spools spools' : List Spool) : Prop where
  sum_le : (spools'.map f).sum ≤ (spools.map f).sum
  atMostOne : AtMostOne f spools → AtMostOne f spools'

namespace Shrinks

variable {f : Spool → Nat} {σ : Spooling}

lemma refl (f : Spool → Nat) (spools : List Spool) : Shrinks f spools spools :=
  ⟨Nat.le_refl _, id⟩

lemma change {number : Nat} {g : Spool → Spool}
    (hle : ∀ s ∈ σ.spools, s.number = number → f (g s) ≤ f s) :
    Shrinks f σ.spools (σ.change number g) := by
  have hone : ∀ s ∈ σ.spools, f (if s.number = number then g s else s) ≤ f s := by
    intro s hs
    split
    · case isTrue hnumber => exact hle s hs hnumber
    · exact Nat.le_refl _
  constructor
  · rw [Spooling.change, List.map_map]
    exact List.sum_le_sum hone
  · intro h
    rw [AtMostOne, Spooling.change, List.pairwise_map]
    refine h.imp_of_mem fun {s s'} hs hs' hzero => ?_
    cases hzero with
    | inl hzero => exact Or.inl (Nat.le_zero.mp (hzero ▸ hone s hs))
    | inr hzero => exact Or.inr (Nat.le_zero.mp (hzero ▸ hone s' hs'))

lemma remove (number : Nat) : Shrinks f σ.spools (σ.remove number).spools where
  sum_le := List.Sublist.sum_le_sum (List.filter_sublist.map f) fun _ _ => Nat.zero_le _
  atMostOne := fun h => h.sublist List.filter_sublist

end Shrinks

/-! ## What the uploads keep -/

structure Reserved (σ : Spooling) : Prop where
  numbered : (σ.spools.map (·.number)).Nodup
  within : ∀ s ∈ σ.spools, s.phase = .receiving →
    s.written ≤ s.incoming.toNat ∧ s.unsent ≤ s.written
  disk : (σ.spools.map (·.promised)).sum ≤ σ.capacity - spoolFreeSpaceReserve.toNat
  backlog : (σ.spools.map (·.reserved)).sum ≤ σ.budget.toNat ∨ AtMostOne (·.reserved) σ.spools

lemma Reserved.bounds {σ : Spooling} (h : Reserved σ) {s : Spool} (hs : s ∈ σ.spools) :
    s.written ≤ s.promised ∧ s.unsent ≤ s.reserved := by
  unfold Spool.promised Spool.reserved
  split
  · case isTrue hphase =>
    obtain ⟨hbody, hunsent⟩ := h.within s hs hphase
    exact ⟨hbody, Nat.le_trans hunsent hbody⟩
  · exact ⟨Nat.le_refl _, Nat.le_refl _⟩

lemma Reserved.leavesReserve {σ : Spooling} (h : Reserved σ) : LeavesReserve σ := by
  have hunsent : (σ.spools.map (·.unsent)).sum ≤ (σ.spools.map (·.reserved)).sum :=
    List.sum_le_sum fun s hs => (h.bounds hs).2
  constructor
  · exact Nat.le_trans (List.sum_le_sum fun s hs => (h.bounds hs).1) h.disk
  · cases h.backlog with
    | inl hbudget => exact Or.inl (Nat.le_trans hunsent hbudget)
    | inr hone =>
      have hone' : AtMostOne (·.unsent) σ.spools := by
        refine hone.imp_of_mem fun {s s'} hs hs' hzero => ?_
        cases hzero with
        | inl hzero => exact Or.inl (Nat.le_zero.mp (hzero ▸ (h.bounds hs).2))
        | inr hzero => exact Or.inr (Nat.le_zero.mp (hzero ▸ (h.bounds hs').2))
      cases sum_atMostOne hone' with
      | inl hnone => exact Or.inl (hnone.le.trans (Nat.zero_le _))
      | inr hself => exact Or.inr hself

variable {σ τ : Spooling}

lemma Reserved.shrinks (h : Reserved σ) (hcapacity : τ.capacity = σ.capacity)
    (hbudget : τ.budget = σ.budget)
    (hnumbered : (τ.spools.map (·.number)).Nodup)
    (hwithin : ∀ s ∈ τ.spools, s.phase = .receiving →
      s.written ≤ s.incoming.toNat ∧ s.unsent ≤ s.written)
    (hpromised : Shrinks (·.promised) σ.spools τ.spools)
    (hreserved : Shrinks (·.reserved) σ.spools τ.spools) : Reserved τ where
  numbered := hnumbered
  within := hwithin
  disk := hcapacity ▸ Nat.le_trans hpromised.sum_le h.disk
  backlog := by
    rw [hbudget]
    cases h.backlog with
    | inl hle => exact Or.inl (Nat.le_trans hreserved.sum_le hle)
    | inr hone => exact Or.inr (hreserved.atMostOne hone)

lemma Reserved.change (h : Reserved σ) {number : Nat} {f : Spool → Spool} (ledger : RelayLedger)
    (hnumber : ∀ s, (f s).number = s.number)
    (hf : ∀ s ∈ σ.spools, s.number = number → (f s).promised ≤ s.promised ∧
      (f s).reserved ≤ s.reserved ∧ ((f s).phase = .receiving →
        (f s).written ≤ (f s).incoming.toNat ∧ (f s).unsent ≤ (f s).written)) :
    Reserved { σ with ledger := ledger, spools := σ.change number f } := by
  have hsame : (σ.change number f).map (·.number) = σ.spools.map (·.number) := by
    rw [Spooling.change, List.map_map]
    apply List.map_congr_left
    intro s _
    show (if s.number = number then f s else s).number = s.number
    split
    · exact hnumber s
    · rfl
  refine h.shrinks rfl rfl (hsame ▸ h.numbered) ?_ (.change fun s hs hn => (hf s hs hn).1)
    (.change fun s hs hn => (hf s hs hn).2.1)
  intro s hs hphase
  obtain ⟨s', hs', rfl⟩ := List.mem_map.mp hs
  split at hphase
  · case isTrue hn =>
    rw [if_pos hn]
    exact (hf s' hs' hn).2.2 hphase
  · case isFalse hn =>
    rw [if_neg hn]
    exact h.within s' hs' hphase

lemma Reserved.remove (h : Reserved σ) (number : Nat) : Reserved (σ.remove number) :=
  h.shrinks rfl rfl (h.numbered.sublist (List.filter_sublist.map _))
    (fun s hs => h.within s (List.mem_of_mem_filter hs)) (.remove number) (.remove number)

lemma Reserved.phase (h : Reserved σ) {number : Nat} {phase : SpoolPhase}
    (hphase : σ.phase? number = some phase) :
    ∀ s ∈ σ.spools, s.number = number → s.phase = phase := by
  obtain ⟨s₀, hfind, rfl⟩ := Option.map_eq_some_iff.mp hphase
  have hmem := List.mem_of_find?_eq_some hfind
  have hnumber : s₀.number = number := by simpa using List.find?_some hfind
  intro s hs hn
  rw [List.inj_on_of_nodup_map h.numbered hs hmem (hn.trans hnumber.symm)]

/-- Every turn that is accounted for keeps the uploads so. -/
lemma Reserved.step (h : Reserved σ) {a : SpoolStep} (ha : Accounted σ a) : Reserved (σ.step a) := by
  cases a with
  | request number contentLength readable =>
    unfold Spooling.step
    dsimp only
    split
    · exact h
    · case isFalse hnew =>
      split
      · case isTrue hgranted =>
        obtain ⟨hdisk, hbacklog⟩ := ha hgranted
        have hother : ∀ s ∈ σ.spools, s.number ≠ number := by
          intro s hs heq
          apply hnew
          rw [Spooling.spool?, List.find?_isSome]
          exact ⟨s, hs, decide_eq_true heq⟩
        have hnumber : number ∉ σ.spools.map (·.number) := by
          intro hmem
          obtain ⟨s, hs, heq⟩ := List.mem_map.mp hmem
          exact hother s hs heq
        refine ⟨List.nodup_cons.mpr ⟨hnumber, h.numbered⟩, ?_, ?_, ?_⟩
        · intro s hs hphase
          cases List.mem_cons.mp hs with
          | inl heq =>
            rw [heq]
            exact ⟨Nat.zero_le _, Nat.zero_le _⟩
          | inr hs => exact h.within s hs hphase
        · show (Spooling.announced contentLength).toNat + (σ.spools.map (·.promised)).sum ≤ _
          show _ ≤ σ.capacity - spoolFreeSpaceReserve.toNat
          omega
        · show (Spooling.announced contentLength).toNat + (σ.spools.map (·.reserved)).sum ≤
            σ.budget.toNat ∨ _
          cases hbacklog with
          | inr hle => exact Or.inl (by omega)
          | inl hzero =>
            -- nobody else has anything to relay
            have hnone : ∀ s ∈ σ.spools, s.reserved = 0 := fun s hs =>
              List.sum_eq_zero_iff_forall_eq_nat.mp hzero _ (List.mem_map_of_mem hs)
            refine Or.inr (List.pairwise_cons.mpr ⟨fun s hs => Or.inr (hnone s hs), ?_⟩)
            exact List.Pairwise.imp_of_mem (fun hs _ _ => Or.inl (hnone _ hs))
              (List.pairwise_of_forall fun _ _ => trivial)
      · exact h
  | write number bytes =>
    unfold Spooling.step
    dsimp only
    split
    · case h_1 hphase =>
      split
      · refine h.change σ.ledger (fun _ => rfl) fun s hs hn => ?_
        have hreceiving := h.phase hphase s hs hn
        have hbody := ha s hs hn hreceiving
        have hwithin := h.within s hs hreceiving
        simp only [Spool.promised, Spool.reserved, hreceiving, if_true]
        exact ⟨Nat.le_refl _, Nat.le_refl _, fun _ => ⟨hbody, Nat.add_le_add_right hwithin.2 bytes⟩⟩
      · exact h.remove number
    · exact h
  | spooled number =>
    unfold Spooling.step
    dsimp only
    split
    · case h_1 hphase =>
      refine h.change σ.ledger (fun _ => rfl) fun s hs hn => ?_
      have hreceiving := h.phase hphase s hs hn
      have hwithin := h.within s hs hreceiving
      simp only [Spool.promised, Spool.reserved, hreceiving, if_true, reduceCtorEq, if_false]
      exact ⟨hwithin.1, Nat.le_trans hwithin.2 hwithin.1, fun hno => hno.elim⟩
    · exact h
  | start number fileId =>
    unfold Spooling.step
    dsimp only
    split
    · case h_1 written unsent hfind =>
      refine h.change _ (fun _ => rfl) fun s hs hn => ?_
      have hheld : s.phase = .held := h.phase (by rw [Spooling.phase?, hfind]; rfl) s hs hn
      simp only [Spool.promised, Spool.reserved, hheld, reduceCtorEq, if_false]
      exact ⟨Nat.le_refl _, Nat.le_refl _, fun hno => hno.elim⟩
    · exact h
  | chunk number bytes =>
    unfold Spooling.step
    dsimp only
    split
    · case h_1 fileId hphase =>
      refine h.change _ (fun _ => rfl) fun s hs hn => ?_
      have hrelaying := h.phase hphase s hs hn
      simp only [Spool.promised, Spool.reserved, hrelaying, reduceCtorEq, if_false]
      exact ⟨Nat.le_refl _, Nat.sub_le _ _, fun hno => hno.elim⟩
    · exact h
  | unlink number =>
    unfold Spooling.step
    dsimp only
    split
    · case h_1 fileId hphase =>
      refine h.change σ.ledger (fun _ => rfl) fun s hs hn => ?_
      have hrelaying := h.phase hphase s hs hn
      simp only [Spool.promised, Spool.reserved, hrelaying, reduceCtorEq, if_false]
      exact ⟨Nat.zero_le _, Nat.le_refl _, fun hno => hno.elim⟩
    · exact h
  | finish number =>
    unfold Spooling.step
    dsimp only
    split
    · case h_1 fileId hphase =>
      refine h.change _ (fun _ => rfl) fun s hs hn => ?_
      have hrelaying := h.phase hphase s hs hn
      simp only [Spool.promised, Spool.reserved, hrelaying, reduceCtorEq, if_false]
      exact ⟨Nat.le_refl _, Nat.zero_le _, fun hno => hno.elim⟩
    · exact h
  | drop number =>
    unfold Spooling.step
    dsimp only
    split
    · exact h
    · exact h.remove number

/-- In every run from a server without uploads the spool files leave the reserve, and what is still to
    relay is within the budget or that of one upload alone, if each upload that is admitted fits beside
    what the others have yet to write and to relay, and no body is longer than announced. -/
theorem admitted_leave_reserve {σ₀ : Spooling} (hspools : σ₀.spools = []) {steps : List SpoolStep}
    (hok : AllOk Spooling.step Accounted σ₀ steps) :
    Always Spooling.step LeavesReserve σ₀ steps := by
  have hstart : Reserved σ₀ := by
    refine ⟨?_, ?_, ?_, Or.inl ?_⟩
    · rw [hspools]
      exact List.nodup_nil
    · rw [hspools]
      exact fun s hs => absurd hs List.not_mem_nil
    · rw [hspools]
      exact Nat.zero_le _
    · rw [hspools]
      exact Nat.zero_le _
  have hkeep : ∀ (σ : Spooling) (a : SpoolStep), Reserved σ → Accounted σ a → Reserved (σ.step a) :=
    fun σ a hσ ha => hσ.step ha
  have hall := always_of_allOk hkeep hstart hok
  rw [always_iff_prefixes] at hall ⊢
  exact fun pre hpre => (hall pre hpre).leavesReserve

/-- Five gigabytes free under `WORK_DIR`, and a budget of eight. -/
def fiveFree : Spooling where
  capacity := 5368709120
  budget := 8589934592
  ledger := .empty
  spools := []

/-- Two uploads of three gigabytes ask before either has written its body. -/
def bothAsk : List SpoolStep :=
  [.request 0 (some "3221225472".toList) true, .request 1 (some "3221225472".toList) true,
    .write 0 3221225472, .write 1 1610612736]

/-- Both are admitted, and their spools take half of the reserve. -/
theorem bothAsk_takeReserve : ¬ Always Spooling.step LeavesReserve fiveFree bothAsk := by
  intro h
  have hdisk : (run Spooling.step fiveFree bothAsk).onDisk = 4831838208 := by decide +kernel
  have hcapacity : (run Spooling.step fiveFree bothAsk).capacity = 5368709120 := by decide +kernel
  have hreserve := h.last.reserve
  rw [hdisk, hcapacity] at hreserve
  exact absurd hreserve (by decide)

/-- The second one asks again when the first one's relay has ended. -/
def oneAfterAnother : List SpoolStep :=
  [.request 0 (some "3221225472".toList) true, .write 0 3221225472, .spooled 0, .start 0 7,
    .request 1 (some "3221225472".toList) true, .chunk 0 3221225472, .unlink 0, .finish 0,
    .request 1 (some "3221225472".toList) true, .write 1 3221225472, .spooled 1, .start 1 8]

/-- One after the other they leave it. -/
theorem oneAfterAnother_leave : Always Spooling.step LeavesReserve fiveFree oneAfterAnother :=
  admitted_leave_reserve rfl (by decide +kernel)

end Sarca.Server
