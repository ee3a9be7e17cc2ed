import Mathlib.Algebra.Order.BigOperators.Group.List
import Mathlib.Algebra.Order.Ring.Nat
import Mathlib.Data.List.Nodup

/-!
# A fair semaphore

A `Semaphore` has `capacity` slots. Who wants some of them waits in a queue and is served from its front as
soon as there are enough, so one that wants many is not passed by one that wants few; a mutex is a semaphore
with one slot. `enqueue` and `leave` are all that happens to it: a guard that is dropped and a wait that is
given up are both `leave`.

`Fair` is what holds throughout. From it come `Fair.length_held_le` (no more holders than slots),
`Fair.sole` (one that holds all the slots is alone) and `Fair.held_ne_nil` (where somebody waits, somebody
holds).
-/

namespace Sarca.Lib

/-- A semaphore: who holds how many slots, and who waits for how many. -/
structure Semaphore (ι : Type*) where
  capacity : Nat
  held : List (ι × Nat)
  queue : List (ι × Nat)
deriving DecidableEq

namespace Semaphore

variable {ι : Type*} (s : Semaphore ι)

/-- A semaphore that nobody uses. -/
def idle (capacity : Nat) : Semaphore ι :=
  ⟨capacity, [], []⟩

/-- The slots that nobody holds. -/
def free : Nat :=
  s.capacity - (s.held.map Prod.snd).sum

/-- Those who hold slots or wait for some. -/
def users : List (ι × Nat) :=
  s.held ++ s.queue

/-- The front of the queue that is served from some free slots, and the rest of it. -/
def serve : Nat → List (ι × Nat) → List (ι × Nat) × List (ι × Nat)
  | _, [] => ([], [])
  | free, w :: queue =>
    if w.2 ≤ free then (w :: (serve (free - w.2) queue).1, (serve (free - w.2) queue).2)
    else ([], w :: queue)

/-- The free slots go to the front of the queue. -/
def settle : Semaphore ι :=
  { s with held := s.held ++ (serve s.free s.queue).1, queue := (serve s.free s.queue).2 }

/-- Somebody asks for slots. -/
def enqueue (i : ι) (n : Nat) : Semaphore ι :=
  { s with queue := s.queue ++ [(i, n)] }.settle

/-- Somebody gives the slots back, or stops waiting. -/
def leave [DecidableEq ι] (i : ι) : Semaphore ι :=
  { s with
    held := s.held.filter fun w => w.1 ≠ i
    queue := s.queue.filter fun w => w.1 ≠ i }.settle

/-- Somebody holds slots. -/
def Holds (i : ι) : Prop :=
  i ∈ s.held.map Prod.fst

instance Holds.decidable [DecidableEq ι] (i : ι) : Decidable (s.Holds i) :=
  inferInstanceAs (Decidable (i ∈ s.held.map Prod.fst))

/-! ## What serving the queue does -/

/-- Nobody is lost from the queue, and nobody is passed. -/
lemma serve_append (free : Nat) (queue : List (ι × Nat)) :
    (serve free queue).1 ++ (serve free queue).2 = queue := by
  induction queue generalizing free with
  | nil => rfl
  | cons w queue ih =>
    unfold serve
    split
    · exact congrArg (w :: ·) (ih (free - w.2))
    · rfl

/-- What is served fits. -/
lemma serve_sum_le (free : Nat) (queue : List (ι × Nat)) :
    ((serve free queue).1.map Prod.snd).sum ≤ free := by
  induction queue generalizing free with
  | nil => exact Nat.zero_le free
  | cons w queue ih =>
    unfold serve
    split
    · case isTrue hfits =>
      have hrest := ih (free - w.2)
      rw [List.map_cons, List.sum_cons]
      omega
    · exact Nat.zero_le free

/-- Who is not served wants more than is left. -/
lemma serve_head (free : Nat) (queue : List (ι × Nat)) :
    ∀ w ∈ (serve free queue).2.head?, free - ((serve free queue).1.map Prod.snd).sum < w.2 := by
  induction queue generalizing free with
  | nil => exact fun w hw => absurd hw (Option.not_mem_none w)
  | cons w queue ih =>
    unfold serve
    split
    · intro v hv
      have hrest := ih (free - w.2) v hv
      rw [List.map_cons, List.sum_cons]
      omega
    · case isFalse hmore =>
      intro v hv
      obtain rfl := Option.some.inj hv
      exact Nat.lt_of_not_le hmore

@[simp] lemma settle_capacity : s.settle.capacity = s.capacity := rfl

@[simp] lemma settle_users : s.settle.users = s.users := by
  unfold users settle
  rw [List.append_assoc, serve_append]

lemma subset_settle_held : s.held ⊆ s.settle.held :=
  List.subset_append_left _ _

@[simp] lemma enqueue_capacity (i : ι) (n : Nat) : (s.enqueue i n).capacity = s.capacity := rfl

@[simp] lemma enqueue_users (i : ι) (n : Nat) : (s.enqueue i n).users = s.users ++ [(i, n)] := by
  unfold enqueue
  rw [settle_users]
  exact (List.append_assoc _ _ _).symm

lemma subset_enqueue_held (i : ι) (n : Nat) : s.held ⊆ (s.enqueue i n).held :=
  subset_settle_held { s with queue := s.queue ++ [(i, n)] }

section Leave

variable [DecidableEq ι]

@[simp] lemma leave_capacity (i : ι) : (s.leave i).capacity = s.capacity := rfl

@[simp] lemma leave_users (i : ι) : (s.leave i).users = s.users.filter fun w => w.1 ≠ i := by
  unfold leave
  rw [settle_users]
  exact (List.filter_append _ _).symm

variable {s}

lemma mem_leave_held {i : ι} {w : ι × Nat} (h : w ∈ s.held) (hne : w.1 ≠ i) : w ∈ (s.leave i).held := by
  apply subset_settle_held
  exact List.mem_filter.mpr ⟨h, decide_eq_true hne⟩

end Leave

/-! ## What holds throughout -/

/-- No more slots are held than there are, the front of the queue wants more than is left, and everybody asks
    once, for some slots that there are. -/
structure Fair : Prop where
  fits : (s.held.map Prod.snd).sum ≤ s.capacity
  blocked : ∀ w ∈ s.queue.head?, s.free < w.2
  wants : ∀ w ∈ s.users, 0 < w.2
  within : ∀ w ∈ s.users, w.2 ≤ s.capacity
  once : (s.users.map Prod.fst).Nodup

variable {s}

lemma Fair.idle (capacity : Nat) : Fair (idle (ι := ι) capacity) where
  fits := Nat.zero_le capacity
  blocked w hw := absurd hw (Option.not_mem_none w)
  wants _ hw := absurd hw List.not_mem_nil
  within _ hw := absurd hw List.not_mem_nil
  once := List.nodup_nil

lemma Fair.settle (hfits : (s.held.map Prod.snd).sum ≤ s.capacity) (hsome : ∀ w ∈ s.users, 0 < w.2)
    (hwithin : ∀ w ∈ s.users, w.2 ≤ s.capacity) (honce : (s.users.map Prod.fst).Nodup) : s.settle.Fair := by
  have hserved : ((serve s.free s.queue).1.map Prod.snd).sum ≤ s.capacity - (s.held.map Prod.snd).sum :=
    serve_sum_le s.free s.queue
  have hsum : (s.settle.held.map Prod.snd).sum =
      (s.held.map Prod.snd).sum + ((serve s.free s.queue).1.map Prod.snd).sum := by
    unfold Semaphore.settle
    rw [List.map_append, List.sum_append]
  constructor
  · rw [hsum]
    show _ ≤ s.capacity
    omega
  · intro w hw
    have hblocked := serve_head s.free s.queue w hw
    have hfree : s.settle.free = s.free - ((serve s.free s.queue).1.map Prod.snd).sum := by
      show s.capacity - (s.settle.held.map Prod.snd).sum = _
      rw [hsum, ← Nat.sub_sub]
      rfl
    rwa [hfree]
  · rwa [settle_users]
  · rwa [settle_users]
  · rwa [settle_users]

/-- Somebody new asks for slots. -/
lemma Fair.enqueue (h : s.Fair) {i : ι} {n : Nat} (hpos : 0 < n) (hle : n ≤ s.capacity)
    (hnew : i ∉ s.users.map Prod.fst) : (s.enqueue i n).Fair := by
  have husers : ({ s with queue := s.queue ++ [(i, n)] } : Semaphore ι).users = s.users ++ [(i, n)] :=
    (List.append_assoc _ _ _).symm
  apply Fair.settle
  · exact h.fits
  · rw [husers]
    intro w hw
    obtain hw | hw := List.mem_append.mp hw
    · exact h.wants w hw
    · obtain rfl := List.mem_singleton.mp hw
      exact hpos
  · rw [husers]
    intro w hw
    obtain hw | hw := List.mem_append.mp hw
    · exact h.within w hw
    · obtain rfl := List.mem_singleton.mp hw
      exact hle
  · rw [husers, List.map_append]
    apply List.Nodup.append h.once (List.nodup_singleton _)
    intro j hj hi
    obtain rfl := List.mem_singleton.mp hi
    exact hnew hj

/-- Somebody leaves. -/
lemma Fair.leave [DecidableEq ι] (h : s.Fair) (i : ι) : (s.leave i).Fair := by
  have husers : ({ s with
      held := s.held.filter fun w => w.1 ≠ i
      queue := s.queue.filter fun w => w.1 ≠ i } : Semaphore ι).users = s.users.filter fun w => w.1 ≠ i :=
    (List.filter_append _ _).symm
  apply Fair.settle
  · have hsub := (List.filter_sublist (p := fun w : ι × Nat => decide (w.1 ≠ i)) (l := s.held)).map Prod.snd
    exact (hsub.sum_le_sum fun _ _ => Nat.zero_le _).trans h.fits
  · rw [husers]
    exact fun w hw => h.wants w (List.mem_filter.mp hw).1
  · rw [husers]
    exact fun w hw => h.within w (List.mem_filter.mp hw).1
  · rw [husers]
    exact h.once.sublist (List.filter_sublist.map Prod.fst)

/-- There are no more holders than slots. -/
lemma Fair.length_held_le (h : s.Fair) : s.held.length ≤ s.capacity := by
  have hsum : ∀ held : List (ι × Nat), (∀ w ∈ held, 0 < w.2) → held.length ≤ (held.map Prod.snd).sum := by
    intro held hsome
    induction held with
    | nil => exact Nat.le_refl 0
    | cons w held ih =>
      have hrest := ih fun v hv => hsome v (List.mem_cons_of_mem w hv)
      have hw := hsome w List.mem_cons_self
      rw [List.map_cons, List.sum_cons, List.length_cons]
      omega
  exact (hsum s.held fun w hw => h.wants w (List.mem_append_left _ hw)).trans h.fits

/-- One that holds all the slots is alone. -/
lemma Fair.sole (h : s.Fair) {i : ι} (hi : (i, s.capacity) ∈ s.held) : s.held = [(i, s.capacity)] := by
  obtain ⟨before, after, hheld⟩ := List.append_of_mem hi
  have hfits := h.fits
  have hlonely : ∀ v ∈ before ++ after, False := by
    intro v hv
    have hpos : 0 < v.2 := by
      refine h.wants v (List.mem_append_left _ ?_)
      rw [hheld]
      simp only [List.mem_append, List.mem_cons] at hv ⊢
      exact hv.imp_right .inr
    have hle : v.2 ≤ ((before ++ after).map Prod.snd).sum :=
      List.single_le_sum (fun _ _ => Nat.zero_le _) _ (List.mem_map_of_mem hv)
    rw [hheld] at hfits
    simp only [List.map_append, List.map_cons, List.sum_append, List.sum_cons] at hfits hle
    omega
  have hnil := List.eq_nil_iff_forall_not_mem.mpr hlonely
  obtain ⟨rfl, rfl⟩ := List.append_eq_nil_iff.mp hnil
  exact hheld

/-- Without users a semaphore is idle. -/
lemma eq_idle (h : s.users = []) : s = .idle s.capacity := by
  obtain ⟨hheld, hqueue⟩ := List.append_eq_nil_iff.mp h
  obtain ⟨capacity, held, queue⟩ := s
  obtain rfl : held = [] := hheld
  obtain rfl : queue = [] := hqueue
  rfl

/-- A mutex has one holder. -/
lemma Fair.holder_unique (h : s.Fair) (hone : s.capacity = 1) {i j : ι} (hi : s.Holds i) (hj : s.Holds j) :
    i = j := by
  have hle := h.length_held_le
  rw [hone] at hle
  obtain ⟨v, hv, rfl⟩ := List.mem_map.mp hi
  obtain ⟨w, hw, rfl⟩ := List.mem_map.mp hj
  cases hheld : s.held with
  | nil =>
    rw [hheld] at hv
    exact absurd hv List.not_mem_nil
  | cons u rest =>
    rw [hheld] at hv hw hle
    obtain rfl : rest = [] := List.length_eq_zero_iff.mp (Nat.le_zero.mp (Nat.le_of_succ_le_succ hle))
    rw [List.mem_singleton.mp hv, List.mem_singleton.mp hw]

/-- Where somebody waits, somebody holds. -/
lemma Fair.held_ne_nil (h : s.Fair) (hqueue : s.queue ≠ []) : s.held ≠ [] := by
  intro hheld
  obtain ⟨w, rest, hw⟩ := List.exists_cons_of_ne_nil hqueue
  have hblocked := h.blocked w (by rw [hw]; rfl)
  have hle := h.within w (List.mem_append_right _ (by rw [hw]; exact List.mem_cons_self))
  have hfree : s.free = s.capacity := by
    unfold free
    rw [hheld]
    rfl
  omega

end Semaphore

end Sarca.Lib
