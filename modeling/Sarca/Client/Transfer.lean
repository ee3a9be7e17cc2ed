import Mathlib.Algebra.BigOperators.Group.List.Basic
import Mathlib.Algebra.Order.Ring.Nat
import Sarca.Client.Index
import Sarca.Lib.PosIndex
import Sarca.Lib.Run
import Sarca.Lib.Text

/-!
# The transfer queue

`TransferQueue` is the queue behind the Sync panel: what is sent or fetched now, what waits with two tables
of positions, the last finished transfers, and two totals. `queue_invariant` says that the tables are the
inverse of the waiting list after any calls, that no file is in the queue twice, and what the totals count;
the `_spec` lemmas say that each call acts on the item it names and on no other.
-/

namespace Sarca.Client
open Sarca.Lib Sarca.Server

inductive TransferDirection where
  | upload
  | download
deriving DecidableEq, Repr

inductive TransferStatus where
  | active
  | waiting
  | done
deriving DecidableEq, Repr

structure TransferItem where
  id : Uuid
  bindingId : BindingId
  direction : TransferDirection
  path : Path
  name : Path
  size : Option Int64
  status : TransferStatus
  updatedAtMs : Int64
deriving DecidableEq

def TransferItem.mark (status : TransferStatus) (now : Int64) (item : TransferItem) : TransferItem :=
  { item with status := status, updatedAtMs := now }

/-- A file on its way, whatever the transfer's id. -/
structure WaitingKey where
  bindingId : BindingId
  direction : TransferDirection
  path : Path
  name : Path
deriving DecidableEq

structure TransferQueue where
  active : List TransferItem
  waiting : List TransferItem
  waitingPosById : AList fun _ : Uuid => Nat
  waitingPosByKey : AList fun _ : WaitingKey => Nat
  done : List TransferItem
  meters : AList fun _ : Uuid => UInt64
  uploadsCompleted : UInt64
  uploadBytesCompleted : UInt64
  /-- `Uuid::new_v4` does not repeat itself: the next id it draws. -/
  nextId : Uuid

/-- `MAX_DONE` -/
def maxDone : Nat := 100

/-- Rust `split_path`. -/
def splitPath (relative : Path) : Path × Path :=
  let relative := trimBy (· == '/') relative
  (rsplitOnce '/' relative).getD ([], relative)

def sizeBytes (size : Option Int64) : UInt64 :=
  (max (size.getD 0) 0).toUInt64

namespace TransferQueue

/-- Rust `TransferQueue::default`. -/
def empty : TransferQueue where
  active := []
  waiting := []
  waitingPosById := ∅
  waitingPosByKey := ∅
  done := []
  meters := ∅
  uploadsCompleted := 0
  uploadBytesCompleted := 0
  nextId := 0

/-- Rust `key_of`. -/
def keyOf (item : TransferItem) : WaitingKey :=
  ⟨item.bindingId, item.direction, item.path, item.name⟩

/-- Rust `waiting_remove_at`; `none` where `swap_remove` would panic. -/
def waitingRemoveAt (pos : Nat) (q : TransferQueue) : Option TransferItem × TransferQueue :=
  match q.waiting[pos]? with
  | none => (none, q)
  | some removed =>
    let q := { q with
      waiting := swapRemove q.waiting pos
      waitingPosById := q.waitingPosById.erase removed.id
      waitingPosByKey := q.waitingPosByKey.erase (keyOf removed) }
    match q.waiting[pos]? with
    | none => (some removed, q)
    | some moved =>
      (some removed, { q with
        waitingPosById := q.waitingPosById.insert moved.id pos
        waitingPosByKey := q.waitingPosByKey.insert (keyOf moved) pos })

/-- Rust `waiting_remove_by_key`. -/
def waitingRemoveByKey (key : WaitingKey) (q : TransferQueue) : Option TransferItem × TransferQueue :=
  match q.waitingPosByKey.lookup key with
  | none => (none, q)
  | some pos => q.waitingRemoveAt pos

/-- Rust `waiting_remove_by_id`. -/
def waitingRemoveById (id : Uuid) (q : TransferQueue) : Option TransferItem × TransferQueue :=
  match q.waitingPosById.lookup id with
  | none => (none, q)
  | some pos => q.waitingRemoveAt pos

/-- Rust `waiting_push`. -/
def waitingPush (item : TransferItem) (q : TransferQueue) : TransferQueue :=
  let pos := q.waiting.length
  { q with
    waitingPosById := q.waitingPosById.insert item.id pos
    waitingPosByKey := q.waitingPosByKey.insert (keyOf item) pos
    waiting := q.waiting ++ [item] }

/-- Takes the entries of a file out of both lists, as `begin` and `enqueue_waiting` do first. -/
def dropKey (key : WaitingKey) (q : TransferQueue) : TransferQueue :=
  ({ q with active := q.active.filter fun i => keyOf i ≠ key }.waitingRemoveByKey key).2

/-- The new item of `begin` and `enqueue_waiting`. -/
def newItem (id : Uuid) (key : WaitingKey) (size : Option Int64) (status : TransferStatus)
    (now : Int64) : TransferItem where
  id := id
  bindingId := key.bindingId
  direction := key.direction
  path := key.path
  name := key.name
  size := size
  status := status
  updatedAtMs := now

def keyAt (bindingId : BindingId) (direction : TransferDirection) (relativePath : Path) : WaitingKey :=
  let (path, name) := splitPath relativePath
  ⟨bindingId, direction, path, name⟩

/-- Rust `begin`. -/
def begin (bindingId : BindingId) (direction : TransferDirection) (relativePath : Path)
    (size : Option Int64) (now : Int64) (q : TransferQueue) : Uuid × TransferQueue :=
  let key := keyAt bindingId direction relativePath
  let q := q.dropKey key
  let id := q.nextId
  (id, { q with active := q.active ++ [newItem id key size .active now], nextId := id + 1 })

/-- Rust `enqueue_waiting`. -/
def enqueueWaiting (bindingId : BindingId) (direction : TransferDirection) (relativePath : Path)
    (size : Option Int64) (now : Int64) (q : TransferQueue) : Uuid × TransferQueue :=
  let key := keyAt bindingId direction relativePath
  let q := q.dropKey key
  let id := q.nextId
  (id, { q.waitingPush (newItem id key size .waiting now) with nextId := id + 1 })

/-- Rust `promote`. -/
def promote (id : Uuid) (now : Int64) (q : TransferQueue) : Bool × TransferQueue :=
  match q.waitingRemoveById id with
  | (none, q) => (false, q)
  | (some item, q) =>
    (true, { q with active := q.active ++ [item.mark .active now] })

/-- Rust `take_active_or_waiting`. -/
def takeActiveOrWaiting (id : Uuid) (q : TransferQueue) : Option TransferItem × TransferQueue :=
  match q.active.find? (·.id = id) with
  | some item => (some item, { q with active := q.active.eraseP (·.id = id) })
  | none => q.waitingRemoveById id

/-- Rust `push_done`. -/
def pushDone (item : TransferItem) (q : TransferQueue) : TransferQueue :=
  { q with done := (item :: q.done).take maxDone }

/-- Rust `complete`; the totals are words. -/
def complete (id : Uuid) (now : Int64) (q : TransferQueue) : TransferQueue :=
  let q := { q with meters := q.meters.erase id }
  match q.takeActiveOrWaiting id with
  | (none, q) => q
  | (some item, q) =>
    let q :=
      if item.direction = .upload then
        { q with
          uploadsCompleted := q.uploadsCompleted + 1
          uploadBytesCompleted := q.uploadBytesCompleted + sizeBytes item.size }
      else q
    q.pushDone (item.mark .done now)

/-- Rust `abandon`. -/
def abandon (id : Uuid) (q : TransferQueue) : TransferQueue :=
  ({ q with
    meters := q.meters.erase id
    active := q.active.filter fun i => i.id ≠ id }.waitingRemoveById id).2

/-- Rust `clear_binding`. -/
def clearBinding (bindingId : BindingId) (q : TransferQueue) : TransferQueue :=
  let active := q.active.filter fun i => i.bindingId ≠ bindingId
  let waiting := q.waiting.filter fun i => i.bindingId ≠ bindingId
  { q with
    active
    waiting
    meters := discard (fun id => !active.any (·.id = id)) q.meters
    waitingPosById := indexBy (·.id) waiting
    waitingPosByKey := indexBy keyOf waiting }

/-- Rust `meter`: the counter of a transfer, made on first use. -/
def meter (id : Uuid) (q : TransferQueue) : TransferQueue :=
  match q.meters.lookup id with
  | some _ => q
  | none => { q with meters := q.meters.insert id 0 }

inductive Call where
  | begin (bindingId : BindingId) (direction : TransferDirection) (relativePath : Path)
      (size : Option Int64) (now : Int64)
  | enqueueWaiting (bindingId : BindingId) (direction : TransferDirection) (relativePath : Path)
      (size : Option Int64) (now : Int64)
  | promote (id : Uuid) (now : Int64)
  | complete (id : Uuid) (now : Int64)
  | abandon (id : Uuid)
  | clearBinding (bindingId : BindingId)
  | meter (id : Uuid)

def step (q : TransferQueue) : Call → TransferQueue
  | .begin b d p size now => (q.begin b d p size now).2
  | .enqueueWaiting b d p size now => (q.enqueueWaiting b d p size now).2
  | .promote id now => (q.promote id now).2
  | .complete id now => q.complete id now
  | .abandon id => q.abandon id
  | .clearBinding b => q.clearBinding b
  | .meter id => q.meter id

def unfinished (q : TransferQueue) : List TransferItem :=
  q.active ++ q.waiting

def named (q : TransferQueue) (id : Uuid) : List TransferItem :=
  q.unfinished.filter (·.id = id)

/-- The uploads that calls complete, in their order. -/
def completedUploads : TransferQueue → List Call → List TransferItem
  | _, [] => []
  | q, call :: calls =>
    let rest := completedUploads (q.step call) calls
    match call with
    | .complete id _ => (q.named id).filter (·.direction = .upload) ++ rest
    | _ => rest

structure Invariant (q : TransferQueue) : Prop where
  by_id : IsIndex (·.id) q.waiting q.waitingPosById
  by_key : IsIndex keyOf q.waiting q.waitingPosByKey
  keys : (q.unfinished.map keyOf).Nodup
  ids : (q.unfinished.map (·.id)).Nodup
  /-- The ids to come are new. -/
  drawn : ∀ item ∈ q.unfinished, item.id < q.nextId
  done_le : q.done.length ≤ maxDone

variable {q q' : TransferQueue} {item : TransferItem} {l l' : List TransferItem}

/-! ## Distinct items -/

/-- Items of distinct files with distinct ids that are drawn. -/
structure Distinct (next : Uuid) (l : List TransferItem) : Prop where
  keys : (l.map keyOf).Nodup
  ids : (l.map (·.id)).Nodup
  drawn : ∀ item ∈ l, item.id < next

lemma Invariant.distinct (h : q.Invariant) : Distinct q.nextId q.unfinished :=
  ⟨h.keys, h.ids, h.drawn⟩

lemma Distinct.perm {next : Uuid} (h : Distinct next l) (hp : l'.Perm l) : Distinct next l' where
  keys := (hp.map keyOf).nodup_iff.mpr h.keys
  ids := (hp.map TransferItem.id).nodup_iff.mpr h.ids
  drawn := fun i hi => h.drawn i (hp.mem_iff.mp hi)

lemma Distinct.filter {next : Uuid} (h : Distinct next l) (p : TransferItem → Bool) :
    Distinct next (l.filter p) where
  keys := h.keys.sublist (List.filter_sublist.map keyOf)
  ids := h.ids.sublist (List.filter_sublist.map TransferItem.id)
  drawn := fun i hi => h.drawn i (List.mem_filter.mp hi).1

lemma Distinct.replace {next : Uuid} (h : Distinct next l) (hid : item.id = next) :
    Distinct (next + 1) (item :: l.filter fun i => keyOf i ≠ keyOf item) where
  keys := by
    refine List.nodup_cons.mpr ⟨?_, (h.filter _).keys⟩
    intro hmem
    obtain ⟨i, hi, hkey⟩ := List.mem_map.mp hmem
    exact of_decide_eq_true (List.mem_filter.mp hi).2 hkey
  ids := by
    refine List.nodup_cons.mpr ⟨?_, (h.filter _).ids⟩
    intro hmem
    obtain ⟨i, hi, hi_id⟩ := List.mem_map.mp hmem
    have hlt := h.drawn i (List.mem_filter.mp hi).1
    exact absurd (hi_id.trans hid) (Nat.ne_of_lt hlt)
  drawn := by
    intro i hi
    cases List.mem_cons.mp hi with
    | inl heq => exact heq ▸ hid ▸ Nat.lt_succ_self item.id
    | inr hi => exact Nat.lt_succ_of_lt (h.drawn i (List.mem_filter.mp hi).1)

lemma Distinct.relabel {next : Uuid} (h : Distinct next (item :: l)) (item' : TransferItem)
    (hid : item'.id = item.id) (hkey : keyOf item' = keyOf item) : Distinct next (item' :: l) where
  keys := by simpa [hkey] using h.keys
  ids := by simpa [hid] using h.ids
  drawn := by
    intro i hi
    cases List.mem_cons.mp hi with
    | inl heq => exact heq ▸ hid ▸ h.drawn item List.mem_cons_self
    | inr hi => exact h.drawn i (List.mem_cons_of_mem item hi)

section Keys

variable {κ : Type*} [DecidableEq κ] {f : TransferItem → κ}

lemma filter_eq_singleton (h : (l.map f).Nodup) (hitem : item ∈ l) :
    l.filter (f · = f item) = [item] := by
  induction l with
  | nil => exact absurd hitem List.not_mem_nil
  | cons i l ih =>
    rw [List.map_cons, List.nodup_cons] at h
    cases List.mem_cons.mp hitem with
    | inl heq =>
      subst heq
      have hrest : l.filter (f · = f item) = [] := by
        apply List.filter_eq_nil_iff.mpr
        intro j hj hkey
        exact h.1 (List.mem_map.mpr ⟨j, hj, of_decide_eq_true hkey⟩)
      rw [List.filter_cons_of_pos (by simp), hrest]
    | inr hmem =>
      have hne : f i ≠ f item := fun hkey => h.1 (hkey ▸ List.mem_map_of_mem hmem)
      rw [List.filter_cons_of_neg (by simpa using hne), ih h.2 hmem]

lemma eraseP_eq_filter (h : (l.map f).Nodup) (key : κ) :
    l.eraseP (f · = key) = l.filter (f · ≠ key) := by
  induction l with
  | nil => rfl
  | cons i l ih =>
    rw [List.map_cons, List.nodup_cons] at h
    by_cases hkey : f i = key
    · rw [List.eraseP_cons_of_pos (by simpa using hkey), List.filter_cons_of_neg (by simpa using hkey)]
      symm
      apply List.filter_eq_self.mpr
      intro j hj
      exact decide_eq_true fun hj' => h.1 (hkey.trans hj'.symm ▸ List.mem_map_of_mem hj)
    · rw [List.eraseP_cons_of_neg (by simpa using hkey), List.filter_cons_of_pos (by simpa using hkey),
        ih h.2]

lemma perm_filter_ne (h : (l.map f).Nodup) (hp : (item :: l').Perm l) :
    l'.Perm (l.filter (f · ≠ f item)) := by
  have hnodup : ((item :: l').map f).Nodup := (hp.map f).nodup_iff.mpr h
  rw [List.map_cons, List.nodup_cons] at hnodup
  have hself : l'.filter (f · ≠ f item) = l' := by
    apply List.filter_eq_self.mpr
    intro j hj
    exact decide_eq_true fun hkey => hnodup.1 (hkey ▸ List.mem_map_of_mem hj)
  have hfilter := hp.filter (f · ≠ f item)
  rwa [List.filter_cons_of_neg (by simp), hself] at hfilter

end Keys

/-! ## Removal from the waiting list -/

/-- Both tables are the inverse of the waiting list. -/
def Indexed (q : TransferQueue) : Prop :=
  IsIndex (·.id) q.waiting q.waitingPosById ∧ IsIndex keyOf q.waiting q.waitingPosByKey

lemma Invariant.indexed (h : q.Invariant) : q.Indexed :=
  ⟨h.by_id, h.by_key⟩

/-- Two queues that differ in the waiting list and its tables. -/
structure SameElse (q q' : TransferQueue) : Prop where
  active : q'.active = q.active
  done : q'.done = q.done
  meters : q'.meters = q.meters
  uploads : q'.uploadsCompleted = q.uploadsCompleted
  bytes : q'.uploadBytesCompleted = q.uploadBytesCompleted
  next : q'.nextId = q.nextId

lemma SameElse.refl (q : TransferQueue) : SameElse q q :=
  ⟨rfl, rfl, rfl, rfl, rfl, rfl⟩

/-- What a removal by `f` does: nothing where no item has the key, else it takes that item. -/
inductive RemoveCase {κ : Type*} (f : TransferItem → κ) (key : κ) (q : TransferQueue) :
    Option TransferItem × TransferQueue → Prop
  | absent (hnone : ∀ i ∈ q.waiting, f i ≠ key) : RemoveCase f key q (none, q)
  | found (item : TransferItem) (q' : TransferQueue) (hkey : f item = key)
      (hperm : (item :: q'.waiting).Perm q.waiting) (hindex : q'.Indexed) (helse : SameElse q q') :
      RemoveCase f key q (some item, q')

lemma waitingRemoveAt_case {κ : Type*} {f : TransferItem → κ} {pos : Nat} (h : q.Indexed)
    (hpos : q.waiting[pos]? = some item) : RemoveCase f (f item) q (q.waitingRemoveAt pos) := by
  have hperm := swapRemove_perm hpos
  have hid := h.1.swapRemove hpos
  have hkey := h.2.swapRemove hpos
  simp only [waitingRemoveAt, hpos]
  simp only [patchIndex] at hid hkey
  cases hmoved : (swapRemove q.waiting pos)[pos]? with
  | none =>
    rw [hmoved] at hid hkey
    exact .found item _ rfl hperm ⟨hid, hkey⟩ ⟨rfl, rfl, rfl, rfl, rfl, rfl⟩
  | some moved =>
    rw [hmoved] at hid hkey
    exact .found item _ rfl hperm ⟨hid, hkey⟩ ⟨rfl, rfl, rfl, rfl, rfl, rfl⟩

lemma waitingRemoveByKey_case (h : q.Indexed) (key : WaitingKey) :
    RemoveCase keyOf key q (q.waitingRemoveByKey key) := by
  unfold waitingRemoveByKey
  cases hpos : q.waitingPosByKey.lookup key with
  | none => exact .absent (h.2.not_mem hpos)
  | some pos =>
    obtain ⟨item, hitem, rfl⟩ := (h.2 _ _).mp hpos
    exact waitingRemoveAt_case h hitem

lemma waitingRemoveById_case (h : q.Indexed) (id : Uuid) :
    RemoveCase (·.id) id q (q.waitingRemoveById id) := by
  unfold waitingRemoveById
  cases hpos : q.waitingPosById.lookup id with
  | none => exact .absent (h.1.not_mem hpos)
  | some pos =>
    obtain ⟨item, hitem, rfl⟩ := (h.1 _ _).mp hpos
    exact waitingRemoveAt_case h hitem

lemma RemoveCase.leaves {κ : Type*} [DecidableEq κ] {f : TransferItem → κ} {key : κ}
    {res : Option TransferItem × TransferQueue} (hcase : RemoveCase f key q res) (h : q.Indexed)
    (hnodup : (q.waiting.map f).Nodup) :
    res.2.waiting.Perm (q.waiting.filter (f · ≠ key)) ∧ res.2.Indexed ∧ SameElse q res.2 := by
  cases hcase with
  | absent hnone =>
    refine ⟨?_, h, SameElse.refl q⟩
    rw [List.filter_eq_self.mpr fun i hi => decide_eq_true (hnone i hi)]
  | found item q' hkey hperm hindex helse =>
    subst hkey
    exact ⟨perm_filter_ne hnodup hperm, hindex, helse⟩

lemma Invariant.mk' (hindex : q.Indexed) (h : Distinct q.nextId q.unfinished)
    (hdone : q.done.length ≤ maxDone) : q.Invariant :=
  ⟨hindex.1, hindex.2, h.keys, h.ids, h.drawn, hdone⟩

lemma empty_invariant : empty.Invariant :=
  .mk' ⟨IsIndex.nil _, IsIndex.nil _⟩ ⟨List.nodup_nil, List.nodup_nil, nofun⟩ (Nat.zero_le _)

/-! ## The calls, one by one -/

lemma dropKey_spec (h : q.Invariant) (key : WaitingKey) :
    (q.dropKey key).unfinished.Perm (q.unfinished.filter (keyOf · ≠ key)) ∧
      (q.dropKey key).Indexed ∧
      SameElse { q with active := q.active.filter (keyOf · ≠ key) } (q.dropKey key) := by
  have hcase := waitingRemoveByKey_case
    (q := { q with active := q.active.filter (keyOf · ≠ key) }) h.indexed key
  obtain ⟨hperm, hindex, helse⟩ := hcase.leaves h.indexed h.by_key.nodup
  refine ⟨?_, hindex, helse⟩
  rw [unfinished, unfinished, List.filter_append]
  have hactive : (q.dropKey key).active = q.active.filter (keyOf · ≠ key) := helse.active
  rw [hactive]
  exact hperm.append_left _

lemma distinct_new (h : q.Invariant) (hid : item.id = q.nextId)
    (hp : l.Perm (item :: (q.dropKey (keyOf item)).unfinished)) : Distinct (q.nextId + 1) l := by
  obtain ⟨hperm, -, -⟩ := dropKey_spec h (keyOf item)
  exact (h.distinct.replace hid).perm (hp.trans (hperm.cons item))

lemma begin_invariant (h : q.Invariant) (b : BindingId) (d : TransferDirection) (p : Path)
    (size : Option Int64) (now : Int64) : (q.begin b d p size now).2.Invariant := by
  obtain ⟨-, hindex, helse⟩ := dropKey_spec h (keyAt b d p)
  have hnext : (q.dropKey (keyAt b d p)).nextId = q.nextId := helse.next
  have hdone : (q.dropKey (keyAt b d p)).done = q.done := helse.done
  apply Invariant.mk'
  · exact hindex
  · show Distinct ((q.dropKey (keyAt b d p)).nextId + 1) _
    rw [hnext]
    have hnew : Distinct (q.nextId + 1)
        (newItem q.nextId (keyAt b d p) size .active now :: (q.dropKey (keyAt b d p)).unfinished) :=
      distinct_new h rfl (List.Perm.refl _)
    apply hnew.perm
    show List.Perm (((q.dropKey (keyAt b d p)).active ++ [_]) ++ _) _
    rw [hnext, List.append_assoc]
    exact List.perm_middle
  · exact hdone ▸ h.done_le

lemma enqueueWaiting_invariant (h : q.Invariant) (b : BindingId) (d : TransferDirection) (p : Path)
    (size : Option Int64) (now : Int64) : (q.enqueueWaiting b d p size now).2.Invariant := by
  obtain ⟨hperm, hindex, helse⟩ := dropKey_spec h (keyAt b d p)
  have hnext : (q.dropKey (keyAt b d p)).nextId = q.nextId := helse.next
  have hdone : (q.dropKey (keyAt b d p)).done = q.done := helse.done
  have hnew : Distinct (q.nextId + 1)
      (newItem q.nextId (keyAt b d p) size .waiting now :: (q.dropKey (keyAt b d p)).unfinished) :=
    distinct_new h rfl (List.Perm.refl _)
  have hkeys := List.nodup_cons.mp hnew.keys
  have hids := List.nodup_cons.mp hnew.ids
  apply Invariant.mk'
  · constructor
    · apply hindex.1.push
      intro i hi hid
      exact hids.1 (List.mem_map.mpr ⟨i, List.mem_append_right _ hi, hid.trans hnext⟩)
    · apply hindex.2.push
      intro i hi hkey
      exact hkeys.1 (List.mem_map.mpr ⟨i, List.mem_append_right _ hi, hkey⟩)
  · show Distinct ((q.dropKey (keyAt b d p)).nextId + 1) ((q.dropKey (keyAt b d p)).active ++ (_ ++ [_]))
    rw [hnext, ← List.append_assoc]
    exact hnew.perm (List.perm_append_singleton _ _)
  · exact hdone ▸ h.done_le

/-- What `promote` leaves: the waiting item with the id is active, all else is as before. -/
structure Promoted (q q' : TransferQueue) (id : Uuid) (now : Int64) (ok : Bool) : Prop where
  answer : ok = true ↔ ∃ item ∈ q.waiting, item.id = id
  active : q'.active = q.active ++ (q.waiting.filter (·.id = id)).map (·.mark .active now)
  waiting : q'.waiting.Perm (q.waiting.filter (·.id ≠ id))
  done : q'.done = q.done

/-- What `complete` leaves: the item with the id is the last one done, all else is as before. -/
structure Completed (q q' : TransferQueue) (id : Uuid) (now : Int64) : Prop where
  active : q'.active = q.active.filter (·.id ≠ id)
  waiting : q'.waiting.Perm (q.waiting.filter (·.id ≠ id))
  done : q'.done = ((q.named id).map (·.mark .done now) ++ q.done).take maxDone

/-- What `abandon` leaves: the item with the id is gone, all else is as before. -/
structure Abandoned (q q' : TransferQueue) (id : Uuid) : Prop where
  active : q'.active = q.active.filter (·.id ≠ id)
  waiting : q'.waiting.Perm (q.waiting.filter (·.id ≠ id))
  done : q'.done = q.done

lemma Invariant.ids_append (h : q.Invariant) :
    (q.active.map (·.id)).Nodup ∧ (q.waiting.map (·.id)).Nodup ∧
      ∀ a ∈ q.active, ∀ w ∈ q.waiting, a.id ≠ w.id := by
  have hids := h.ids
  rw [unfinished, List.map_append, List.nodup_append] at hids
  exact ⟨hids.1, hids.2.1,
    fun a ha w hw => hids.2.2 _ (List.mem_map_of_mem ha) _ (List.mem_map_of_mem hw)⟩

lemma promote_spec (h : q.Invariant) (id : Uuid) (now : Int64) :
    Promoted q (q.promote id now).2 id now (q.promote id now).1 ∧
      (q.promote id now).2.Invariant := by
  have hcase := waitingRemoveById_case h.indexed id
  unfold promote
  generalize hres : q.waitingRemoveById id = res at hcase
  cases hcase with
  | absent hnone =>
    have hfilter : q.waiting.filter (·.id = id) = [] :=
      List.filter_eq_nil_iff.mpr fun i hi => by simpa using hnone i hi
    refine ⟨⟨?_, ?_, ?_, rfl⟩, h⟩
    · constructor
      · exact nofun
      · rintro ⟨i, hi, hid⟩
        exact absurd hid (hnone i hi)
    · simp [hfilter]
    · rw [List.filter_eq_self.mpr fun i hi => decide_eq_true (hnone i hi)]
  | found item q' hkey hperm hindex helse =>
    subst hkey
    have hdone := helse.done
    have hmem : item ∈ q.waiting := hperm.mem_iff.mp List.mem_cons_self
    refine ⟨⟨?_, ?_, ?_, hdone⟩, ?_⟩
    · exact ⟨fun _ => ⟨item, hmem, rfl⟩, fun _ => rfl⟩
    · rw [filter_eq_singleton h.by_id.nodup hmem, ← helse.active]
      rfl
    · exact perm_filter_ne h.by_id.nodup hperm
    · apply Invariant.mk'
      · exact hindex
      · show Distinct q'.nextId ((q'.active ++ [_]) ++ q'.waiting)
        rw [helse.next, helse.active, List.append_assoc]
        have hold : Distinct q.nextId (item :: (q.active ++ q'.waiting)) := by
          apply h.distinct.perm
          exact List.perm_middle.symm.trans (hperm.append_left _)
        have hnew := hold.relabel (item.mark .active now) rfl rfl
        exact hnew.perm List.perm_middle
      · exact hdone ▸ h.done_le

lemma distinct_filtered {next : Uuid} (h : q.Invariant) {p : TransferItem → Bool}
    (hactive : q'.active = q.active.filter p) (hwaiting : q'.waiting.Perm (q.waiting.filter p))
    (hnext : next = q.nextId) : Distinct next q'.unfinished := by
  subst hnext
  apply (h.distinct.filter p).perm
  rw [unfinished, unfinished, List.filter_append, hactive]
  exact hwaiting.append_left _

lemma abandon_spec (h : q.Invariant) (id : Uuid) :
    Abandoned q (q.abandon id) id ∧ (q.abandon id).Invariant := by
  have hcase := waitingRemoveById_case
    (q := { q with meters := q.meters.erase id, active := q.active.filter fun i => i.id ≠ id })
    h.indexed id
  obtain ⟨hwaiting, hindex, helse⟩ := hcase.leaves h.indexed h.by_id.nodup
  have hactive : (q.abandon id).active = q.active.filter (·.id ≠ id) := helse.active
  have hdone : (q.abandon id).done = q.done := helse.done
  refine ⟨⟨hactive, hwaiting, hdone⟩, Invariant.mk' hindex ?_ (hdone ▸ h.done_le)⟩
  exact distinct_filtered h hactive hwaiting helse.next

/-- What `take_active_or_waiting` does: nothing where the id names nothing, else it takes that item. -/
inductive TakeCase (id : Uuid) (q : TransferQueue) : Option TransferItem × TransferQueue → Prop
  | absent (hnone : q.named id = []) : TakeCase id q (none, q)
  | found (item : TransferItem) (q' : TransferQueue) (hnamed : q.named id = [item])
      (hactive : q'.active = q.active.filter (·.id ≠ id))
      (hwaiting : q'.waiting.Perm (q.waiting.filter (·.id ≠ id))) (hindex : q'.Indexed)
      (helse : SameElse { q with active := q'.active } q') : TakeCase id q (some item, q')

lemma takeActiveOrWaiting_case (h : q.Invariant) (id : Uuid) :
    TakeCase id q (q.takeActiveOrWaiting id) := by
  obtain ⟨hactives, hwaitings, hapart⟩ := h.ids_append
  unfold takeActiveOrWaiting
  cases hfind : q.active.find? (·.id = id) with
  | some item =>
    have hmem := List.mem_of_find?_eq_some hfind
    have hfound := List.find?_some hfind
    obtain rfl : item.id = id := of_decide_eq_true hfound
    have hwaiting : q.waiting.filter (·.id ≠ item.id) = q.waiting :=
      List.filter_eq_self.mpr fun w hw => decide_eq_true (hapart item hmem w hw).symm
    refine .found item _ ?_ ?_ ?_ h.indexed (SameElse.refl _)
    · exact filter_eq_singleton h.ids (List.mem_append_left _ hmem)
    · exact eraseP_eq_filter hactives item.id
    · rw [hwaiting]
  | none =>
    have hnone : ∀ i ∈ q.active, i.id ≠ id := by
      intro i hi
      simpa using List.find?_eq_none.mp hfind i hi
    have hactive : q.active.filter (·.id ≠ id) = q.active :=
      List.filter_eq_self.mpr fun i hi => decide_eq_true (hnone i hi)
    have hcase := waitingRemoveById_case h.indexed id
    show TakeCase id q (q.waitingRemoveById id)
    generalize q.waitingRemoveById id = res at hcase
    cases hcase with
    | absent hw =>
      apply TakeCase.absent
      apply List.filter_eq_nil_iff.mpr
      intro i hi hid
      cases List.mem_append.mp hi with
      | inl hi => exact hnone i hi (of_decide_eq_true hid)
      | inr hi => exact hw i hi (of_decide_eq_true hid)
    | found item q' hkey hperm hindex helse =>
      subst hkey
      have hmem : item ∈ q.waiting := hperm.mem_iff.mp List.mem_cons_self
      refine .found item q' ?_ (helse.active.trans hactive.symm) ?_ hindex ?_
      · exact filter_eq_singleton h.ids (List.mem_append_right _ hmem)
      · exact perm_filter_ne hwaitings hperm
      · exact { helse with active := rfl }

/-- The size of an item, nothing for an unknown or a negative one. -/
def nonNegativeSize (size : Option Int64) : Nat :=
  (size.getD 0).toInt.toNat

def totalSize (items : List TransferItem) : Nat :=
  (items.map fun i => nonNegativeSize i.size).sum

lemma sizeBytes_eq (size : Option Int64) : sizeBytes size = UInt64.ofNat (nonNegativeSize size) := by
  have hmax : ∀ x : Int64, max x 0 = if x ≤ 0 then 0 else x := fun _ => rfl
  rw [sizeBytes, nonNegativeSize, hmax]
  generalize size.getD 0 = x
  split
  case isTrue hle =>
    have hint : x.toInt.toNat = 0 := by
      have hint := Int64.le_iff_toInt_le.mp hle
      rw [Int64.toInt_zero] at hint
      omega
    rw [hint]
    rfl
  case isFalse hlt =>
    have hpos : 0 ≤ x := by
      rw [Int64.le_iff_toInt_le] at hlt ⊢
      omega
    apply UInt64.toNat_inj.mp
    rw [Int64.toNat_toUInt64_of_le hpos, UInt64.toNat_ofNat_of_lt']
    · rfl
    · have := x.toInt_lt
      simp only [UInt64.size]
      omega

def Counted (q q' : TransferQueue) (uploads : List TransferItem) : Prop :=
  q'.uploadsCompleted = q.uploadsCompleted + UInt64.ofNat uploads.length ∧
    q'.uploadBytesCompleted = q.uploadBytesCompleted + UInt64.ofNat (totalSize uploads)

lemma Counted.none (huploads : q'.uploadsCompleted = q.uploadsCompleted)
    (hbytes : q'.uploadBytesCompleted = q.uploadBytesCompleted) : Counted q q' [] := by
  rw [Counted, huploads, hbytes]
  simp [totalSize]

lemma Counted.append {q'' : TransferQueue} (h : Counted q q' l) (h' : Counted q' q'' l') :
    Counted q q'' (l ++ l') := by
  have hsize : totalSize (l ++ l') = totalSize l + totalSize l' := by simp [totalSize]
  constructor
  · rw [h'.1, h.1, List.length_append, UInt64.ofNat_add, UInt64.add_assoc]
  · rw [h'.2, h.2, hsize, UInt64.ofNat_add, UInt64.add_assoc]

lemma complete_spec (h : q.Invariant) (id : Uuid) (now : Int64) :
    Completed q (q.complete id now) id now ∧ (q.complete id now).Invariant ∧
      Counted q (q.complete id now) ((q.named id).filter (·.direction = .upload)) := by
  have h' : { q with meters := q.meters.erase id }.Invariant := { h with }
  have hcase := takeActiveOrWaiting_case h' id
  simp only [complete]
  generalize { q with meters := q.meters.erase id }.takeActiveOrWaiting id = res at hcase
  cases hcase with
  | absent hnone =>
    have hnamed : q.named id = [] := hnone
    have hall : ∀ i ∈ q.unfinished, i.id ≠ id := by
      intro i hi
      simpa using List.filter_eq_nil_iff.mp hnamed i hi
    refine ⟨⟨?_, ?_, ?_⟩, h', ?_⟩
    · symm
      exact List.filter_eq_self.mpr fun i hi => decide_eq_true (hall i (List.mem_append_left _ hi))
    · rw [List.filter_eq_self.mpr fun i hi => decide_eq_true (hall i (List.mem_append_right _ hi))]
    · rw [hnamed]
      exact (List.take_of_length_le h.done_le).symm
    · rw [hnamed]
      exact Counted.none rfl rfl
  | found item q' hnamed hactive hwaiting hindex helse =>
    have hnamed' : q.named id = [item] := hnamed
    have hdistinct : Distinct q'.nextId q'.unfinished :=
      distinct_filtered h hactive hwaiting helse.next
    rw [hnamed']
    cases hdir : item.direction with
    | upload =>
      simp only [hdir, if_true]
      refine ⟨⟨hactive, hwaiting, ?_⟩, ?_, ?_⟩
      · show (_ :: q'.done).take maxDone = _
        rw [helse.done, hnamed']
        rfl
      · exact Invariant.mk' hindex hdistinct (List.length_take_le _ _)
      · rw [List.filter_cons_of_pos (by simpa using hdir)]
        constructor
        · show q'.uploadsCompleted + 1 = _
          rw [helse.uploads]
          rfl
        · show q'.uploadBytesCompleted + sizeBytes item.size = _
          rw [helse.bytes, sizeBytes_eq]
          simp [totalSize]
    | download =>
      have hne : ¬TransferDirection.download = .upload := nofun
      simp only [hdir, if_neg hne]
      refine ⟨⟨hactive, hwaiting, ?_⟩, ?_, ?_⟩
      · show (_ :: q'.done).take maxDone = _
        rw [helse.done, hnamed']
        rfl
      · exact Invariant.mk' hindex hdistinct (List.length_take_le _ _)
      · rw [List.filter_cons_of_neg (by simp [hdir])]
        exact Counted.none helse.uploads helse.bytes

lemma clearBinding_invariant (h : q.Invariant) (b : BindingId) : (q.clearBinding b).Invariant := by
  have hactive : (q.clearBinding b).active = q.active.filter (·.bindingId ≠ b) := rfl
  have hdistinct : Distinct q.nextId (q.clearBinding b).unfinished :=
    distinct_filtered h hactive (List.Perm.refl _) rfl
  have hkeys := hdistinct.keys
  have hids := hdistinct.ids
  rw [unfinished, List.map_append, List.nodup_append] at hkeys hids
  refine Invariant.mk' ⟨?_, ?_⟩ hdistinct h.done_le
  · exact indexBy_isIndex hids.2.1
  · exact indexBy_isIndex hkeys.2.1

lemma meter_frame (id : Uuid) (q : TransferQueue) :
    q.meter id = { q with meters := (q.meter id).meters } := by
  unfold meter
  split
  · rfl
  · rfl

lemma meter_invariant (h : q.Invariant) (id : Uuid) : (q.meter id).Invariant := by
  rw [meter_frame]
  exact { h with }

/-! ## Runs of calls -/

lemma step_invariant (q : TransferQueue) (call : Call) (h : q.Invariant) : (q.step call).Invariant := by
  cases call with
  | begin b d p size now => exact begin_invariant h b d p size now
  | enqueueWaiting b d p size now => exact enqueueWaiting_invariant h b d p size now
  | promote id now => exact (promote_spec h id now).2
  | complete id now => exact (complete_spec h id now).2.1
  | abandon id => exact (abandon_spec h id).2
  | clearBinding b => exact clearBinding_invariant h b
  | meter id => exact meter_invariant h id

lemma step_counted (h : q.Invariant) {call : Call} (hcall : ∀ id now, call ≠ .complete id now) :
    Counted q (q.step call) [] := by
  cases call with
  | begin b d p size now =>
    obtain ⟨-, -, helse⟩ := dropKey_spec h (keyAt b d p)
    exact Counted.none helse.uploads helse.bytes
  | enqueueWaiting b d p size now =>
    obtain ⟨-, -, helse⟩ := dropKey_spec h (keyAt b d p)
    exact Counted.none helse.uploads helse.bytes
  | promote id now =>
    have hcase := waitingRemoveById_case h.indexed id
    simp only [step, promote]
    generalize q.waitingRemoveById id = res at hcase
    cases hcase with
    | absent => exact Counted.none rfl rfl
    | found item q' _ _ _ helse => exact Counted.none helse.uploads helse.bytes
  | complete id now => exact absurd rfl (hcall id now)
  | abandon id =>
    have hcase := waitingRemoveById_case
      (q := { q with meters := q.meters.erase id, active := q.active.filter fun i => i.id ≠ id })
      h.indexed id
    obtain ⟨-, -, helse⟩ := hcase.leaves h.indexed h.by_id.nodup
    exact Counted.none helse.uploads helse.bytes
  | clearBinding b => exact Counted.none rfl rfl
  | meter id =>
    show Counted q (q.meter id) []
    rw [meter_frame]
    exact Counted.none rfl rfl

lemma run_counted (h : q.Invariant) (calls : List Call) :
    Counted q (run step q calls) (q.completedUploads calls) := by
  induction calls generalizing q with
  | nil => exact Counted.none rfl rfl
  | cons call calls ih =>
    have hrest := ih (step_invariant q call h)
    cases call with
    | complete id now => exact (complete_spec h id now).2.2.append hrest
    | _ => exact (step_counted h fun _ _ => Call.noConfusion).append hrest

/-- `promote`, `complete` and `abandon` act on the item they name and on no other. -/
structure ActsOnNamed (q : TransferQueue) : Prop where
  promote : ∀ id now, Promoted q (q.promote id now).2 id now (q.promote id now).1
  complete : ∀ id now, Completed q (q.complete id now) id now
  abandon : ∀ id, Abandoned q (q.abandon id) id

/-- After any calls: the tables are the inverse of the waiting list, no file and no id is in the queue
    twice, the done list keeps its cap, the totals are the number and the size of the uploads completed
    as words, and the calls act on the item they name. -/
theorem queue_invariant (calls : List Call) :
    let q := run step empty calls
    q.Invariant ∧ q.ActsOnNamed ∧
      q.uploadsCompleted.toNat = (empty.completedUploads calls).length % 2 ^ 64 ∧
      q.uploadBytesCompleted.toNat = totalSize (empty.completedUploads calls) % 2 ^ 64 := by
  have h : (run step empty calls).Invariant := run_invariant step_invariant empty_invariant calls
  obtain ⟨huploads, hbytes⟩ := run_counted empty_invariant calls
  refine ⟨h, ?_, ?_, ?_⟩
  · exact
      { promote := fun id now => (promote_spec h id now).1
        complete := fun id now => (complete_spec h id now).1
        abandon := fun id => (abandon_spec h id).1 }
  · rw [huploads]
    simp [empty]
  · rw [hbytes]
    simp [empty]

def hugeUploads : List Call :=
  [.begin "b" .upload "1".toList (some Int64.maxValue) 0,
    .begin "b" .upload "2".toList (some Int64.maxValue) 0,
    .begin "b" .upload "3".toList (some Int64.maxValue) 0,
    .complete 0 0, .complete 1 0, .complete 2 0]

/-- Their total is more than a word holds. -/
theorem hugeUploads_wrap :
    (run step empty hugeUploads).uploadBytesCompleted.toNat ≠
      totalSize (empty.completedUploads hugeUploads) := by
  decide +kernel

end TransferQueue
end Sarca.Client
