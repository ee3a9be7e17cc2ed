import Mathlib.Algebra.Order.Ring.Nat
import Mathlib.Data.List.Count
import Mathlib.Data.List.Nodup
import Mathlib.Data.List.Sort
import Sarca.Lib.Run

/-!
# The upload queue of the browser

`common/uploadQueue.js`: items wait, upload and end, one of them on its way to the server and two under way at
most. An `Event` is a call from outside, something an upload reports, or a callback that is due; the two halves
of what a call of `runUpload` does after its answer are two events, since listeners run between them.
`Consistent` is the invariant that needs no start to be pending, and `Ready` is the promise of that start.
`uploadQueue_sound` is the result over every run.
-/

namespace Sarca.Ui.UploadQueue
open Sarca.Lib

def maxSpoolConcurrent : Nat := 1

def maxConcurrent : Nat := 2

inductive Status where
  | queued
  | uploading
  | done
  | canceled
  | error
deriving DecidableEq, Repr

/-- `a || b` for numbers. -/
def orElse (a b : Nat) : Nat :=
  if a = 0 then b else a

/-- What is shown of a failed upload; the first two have a text of their own. -/
inductive Fault where
  | interrupted
  | diskFull
  | message (msg : List Char)
deriving DecidableEq, Repr

def formatUploadError (msg : List Char) : Fault :=
  let lower := msg.map Char.toLower
  if "disk full".toList <:+: lower ∨ "no space".toList <:+: lower ∨
      "insufficient_storage".toList <:+: lower then .diskFull
  else .message msg

structure Item where
  id : Nat
  status : Status
  progress : Int
  indeterminate : Bool
  spooled : Bool
  bytesTotal : Nat
  retryAfter : Option Nat
  /-- `file.size` -/
  size : Nat
  error : Option Fault
deriving DecidableEq, Repr

/-- The item that `enqueue` makes of a file. -/
def Item.new (id size : Nat) : Item :=
  ⟨id, .queued, 0, false, false, size, none, size, none⟩

/-- What `cancelAll` makes of an item. -/
def Item.cancel (item : Item) : Item :=
  if item.status = .queued ∨ item.status = .uploading then
    { item with status := .canceled, progress := 0, indeterminate := false }
  else item

def Item.isQueued (item : Item) : Bool :=
  item.status = .queued

def Item.isUploading (item : Item) : Bool :=
  item.status = .uploading

def Item.isSpooling (item : Item) : Bool :=
  item.status = .uploading ∧ !item.spooled

/-- What `runUpload` makes of a queued item. -/
def Item.start (item : Item) : Item :=
  { item with
    status := .uploading, progress := 0, indeterminate := true, spooled := false, bytesTotal := item.size }

def patchAt (id : Nat) (patch : Item → Item) (item : Item) : Item :=
  if item.id = id then patch item else item

/-- What `pump` sorts by. -/
def Item.weight (item : Item) : Nat :=
  orElse item.bytesTotal item.size

def canStartSpool (list : List Item) : Bool :=
  if maxConcurrent ≤ list.countP Item.isUploading then false
  else list.countP Item.isSpooling < maxSpoolConcurrent

/-- The fields that `markSpooled` is given. -/
structure Extra where
  indeterminate : Bool
  progress : Option Int
  bytesTotal : Option Nat
  retryAfter : Option Nat
deriving DecidableEq, Repr

def Extra.patch (extra : Extra) (item : Item) : Item :=
  { item with
    indeterminate := extra.indeterminate
    progress := extra.progress.getD item.progress
    bytesTotal := extra.bytesTotal.getD item.bytesTotal
    retryAfter := extra.retryAfter }

def applyExtra (extra : Option Extra) (item : Item) : Item :=
  match extra with
  | none => item
  | some extra => extra.patch item

inductive Phase where
  | spooled
  | server
  | waiting
  | other
deriving DecidableEq, Repr

/-- What `uploadFile` reports; `percent` is rounded. -/
structure Report where
  phase : Phase
  total : Option Nat
  percent : Int
  retryAfter : Nat
deriving DecidableEq, Repr

/-- How a call of `uploadFile` ends. -/
inductive Answer where
  | ok
  | failed (isAbort : Bool) (msg : List Char)
deriving DecidableEq, Repr

/-- The store, the abort map by its keys, and what is under way: the calls of `uploadFile` that have not
    answered, those of `runUpload` before their `finally`, and the microtasks that pump. `aborted` holds the
    calls whose signal is aborted, and `started` those that were ever made. -/
structure Queue where
  items : List Item
  uploadSeq : Nat
  abortControllers : List Nat
  awaiting : List Nat
  finishing : List Nat
  microtasks : Nat
  aborted : List Nat
  started : List Nat
deriving DecidableEq, Repr

namespace Queue

def empty : Queue :=
  ⟨[], 0, [], [], [], 0, [], []⟩

def hasActiveWork (q : Queue) : Bool :=
  q.items.any fun item => item.status = .queued ∨ item.status = .uploading

def find (q : Queue) (id : Nat) : Option Item :=
  q.items.find? fun item => item.id = id

def patchItem (q : Queue) (id : Nat) (patch : Item → Item) : Queue :=
  { q with items := q.items.map (patchAt id patch) }

def markSpooled (q : Queue) (id : Nat) (extra : Option Extra) : Queue :=
  match q.find id with
  | none => q
  | some cur =>
    if cur.status ≠ .uploading then q
    else if cur.spooled ∧ extra = none then q
    else { q.patchItem id fun item => applyExtra extra { item with spooled := true } with
      microtasks := q.microtasks + 1 }

/-- The callback that `runUpload` passes to `uploadFile`. -/
def onProgress (q : Queue) (id : Nat) (report : Report) : Queue :=
  match q.find id with
  | none => q
  | some cur =>
    if cur.status ≠ .uploading then q
    else
      let total := report.total.getD (orElse cur.size cur.bytesTotal)
      let progress := min 100 (max 0 report.percent)
      let bytesTotal := orElse total (orElse cur.bytesTotal cur.size)
      match report.phase with
      | .spooled => q.markSpooled id (some ⟨true, none, none, none⟩)
      | .server => q.patchItem id fun item =>
          { item with indeterminate := true, bytesTotal := total, retryAfter := none }
      | .waiting => q.markSpooled id (some ⟨false, some progress, some bytesTotal,
          if 0 < report.retryAfter then some report.retryAfter else none⟩)
      | .other => q.markSpooled id (some ⟨false, some progress, some bytesTotal, none⟩)

/-- An item uploads, and `uploadFile` is called for it. -/
def start (q : Queue) (id : Nat) : Queue :=
  { q.patchItem id Item.start with
    abortControllers := q.abortControllers.insert id
    awaiting := id :: q.awaiting
    started := id :: q.started }

/-- `runUpload` up to its `await`. -/
def runUpload (q : Queue) (id : Nat) : Queue :=
  match q.find id with
  | none => q
  | some item => if canStartSpool q.items ∧ item.status = .queued then q.start id else q

/-- What `runUpload` does with the answer of `uploadFile`, before its `finally`. -/
def settle (q : Queue) (id : Nat) (answer : Answer) : Queue :=
  match q.find id with
  | none => q
  | some cur =>
    if cur.status = .canceled then q
    else
      match answer with
      | .ok => q.patchItem id fun item =>
          { item with status := .done, indeterminate := false, progress := 100 }
      | .failed isAbort msg => q.patchItem id fun item =>
          { item with
            status := .error, progress := 0, indeterminate := false
            error := some (if isAbort ∨ id ∈ q.aborted then .interrupted else formatUploadError msg) }

/-- The `finally` of `runUpload`. -/
def finish (q : Queue) (id : Nat) : Queue :=
  { q with abortControllers := q.abortControllers.erase id, microtasks := q.microtasks + 1 }

def pump (q : Queue) : Queue :=
  if canStartSpool q.items then
    let slots := maxSpoolConcurrent - q.items.countP Item.isSpooling
    let queued := (q.items.filter Item.isQueued).insertionSort fun a b => a.weight ≤ b.weight
    (queued.take slots).foldl (fun q item => q.runUpload item.id) q
  else q

/-- All controllers of the map are aborted, and the map is cleared. -/
def abortAll (q : Queue) : Queue :=
  { q with aborted := q.abortControllers ++ q.aborted, abortControllers := [] }

/-- The items of a batch, numbered from `uploadSeq` on. -/
def newItems (uploadSeq : Nat) : List Nat → List Item
  | [] => []
  | size :: sizes => .new (uploadSeq + 1) size :: newItems (uploadSeq + 1) sizes

def enqueue (q : Queue) (entries : List Nat) : Queue :=
  if entries = [] then q
  else
    let q := if q.hasActiveWork then q else { q.abortAll with items := [] }
    { q with
      items := q.items ++ newItems q.uploadSeq entries
      uploadSeq := q.uploadSeq + entries.length }.pump

def cancelAll (q : Queue) : Queue :=
  { q with items := q.items.map Item.cancel }.abortAll

def dismiss (q : Queue) : Queue :=
  if q.hasActiveWork then q else { q with items := [] }

end Queue

inductive Event where
  | enqueue (entries : List Nat)
  | cancelAll
  | dismiss
  | progress (id : Nat) (report : Report)
  /-- a call of `uploadFile` ends, by itself or by its signal -/
  | answer (id : Nat) (answer : Answer)
  /-- the `finally` of a call that was answered -/
  | finish (id : Nat)
  /-- a microtask that was queued to pump -/
  | microtask
deriving DecidableEq, Repr

/-- One event; an answer or a callback that nothing waits for does nothing. -/
def Queue.step (q : Queue) : Event → Queue
  | .enqueue entries => q.enqueue entries
  | .cancelAll => q.cancelAll
  | .dismiss => q.dismiss
  | .progress id report => q.onProgress id report
  | .answer id answer =>
    if id ∈ q.awaiting then
      { q with awaiting := q.awaiting.erase id, finishing := id :: q.finishing }.settle id answer
    else q
  | .finish id =>
    if id ∈ q.finishing then { q with finishing := q.finishing.erase id }.finish id else q
  | .microtask =>
    if 0 < q.microtasks then { q with microtasks := q.microtasks - 1 }.pump else q

/-! ## What holds of the queue -/

def Status.ended : Status → Bool
  | .queued | .uploading => false
  | .done | .canceled | .error => true

/-- An event that is due: an upload call settles, or a callback runs. -/
def Due (q : Queue) : Event → Prop
  | .answer id _ => id ∈ q.awaiting
  | .finish id => id ∈ q.finishing
  | .microtask => 0 < q.microtasks
  | _ => False

instance (q : Queue) : DecidablePred (Due q)
  | .answer id _ => inferInstanceAs (Decidable (id ∈ q.awaiting))
  | .finish id => inferInstanceAs (Decidable (id ∈ q.finishing))
  | .microtask => inferInstanceAs (Decidable (0 < q.microtasks))
  | .enqueue _ | .cancelAll | .dismiss | .progress .. => isFalse id

/-- The call of `runUpload` that an event belongs to. -/
def Event.about : Event → Option Nat
  | .progress id _ | .answer id _ | .finish id => some id
  | .enqueue _ | .cancelAll | .dismiss | .microtask => none

/-- The queue without the items, controllers and calls up to a number. -/
def Queue.later (q : Queue) (n : Nat) : List Item × List Nat × List Nat × List Nat × List Nat :=
  (q.items.filter fun item => n < item.id, q.abortControllers.filter (n < ·), q.awaiting.filter (n < ·),
    q.finishing.filter (n < ·), q.aborted.filter (n < ·))

def dueCount (q : Queue) : List Event → Nat
  | [] => 0
  | event :: events => (if Due q event then 1 else 0) + dueCount (q.step event) events

/-- What an event from outside may make due: a file its answer, its `finally` and its microtask, a report a
    microtask. -/
def Event.cost : Event → Nat
  | .enqueue entries => 3 * entries.length
  | .progress .. => 1
  | _ => 0

def Queue.work (q : Queue) : Nat :=
  3 * q.items.countP Item.isQueued + 3 * q.awaiting.length + 2 * q.finishing.length + q.microtasks

structure Queue.Sound (q : Queue) : Prop where
  /-- one item on its way to the server -/
  spooling : q.items.countP Item.isSpooling ≤ maxSpoolConcurrent
  uploading : q.items.countP Item.isUploading ≤ maxConcurrent
  /-- no item is started twice -/
  once : q.started.Nodup
  distinct : (q.items.map Item.id).Nodup
  /-- an item that uploads has its call, and the map can still abort it -/
  underway : ∀ item ∈ q.items, item.status = .uploading →
    item.id ∈ q.awaiting ∧ item.id ∈ q.abortControllers ∧ item.id ∉ q.aborted
  /-- where a start is allowed and there is something to start, a start is pending or under way -/
  ready : (∃ item ∈ q.items, item.status = .queued) → canStartSpool q.items = true →
    0 < q.microtasks ∨ q.finishing ≠ []

/-- An item that has ended stays so, whatever comes. -/
def Queue.Final (q : Queue) : Prop :=
  ∀ events, ∀ item ∈ q.items, item.status.ended = true →
    ∀ item' ∈ (run Queue.step q events).items, item'.id = item.id → item'.status = item.status

/-- What an upload of today reports, answers or does last leaves alone what is enqueued later. -/
def Queue.Apart (q : Queue) : Prop :=
  ∀ events event id, event.about = some id → id ≤ q.uploadSeq →
    ((run Queue.step q events).step event).later q.uploadSeq = (run Queue.step q events).later q.uploadSeq

/-- Whatever comes, what is due is bounded by what was there and what came from outside, and when nothing is
    due any more, every item has ended. -/
def Queue.Drains (q : Queue) : Prop :=
  ∀ events, dueCount q events ≤ q.work + (events.map Event.cost).sum ∧
    ((∀ event, ¬ Due (run Queue.step q events) event) →
      ∀ item ∈ (run Queue.step q events).items, item.status.ended = true)

/-! ### The list -/

section List
variable {items : List Item} {item : Item} {id seq : Nat} {patch f : Item → Item} {started : List Nat}

/-- What becomes of an item that is not started: it keeps its status or ends. -/
structure Item.Follows (item item' : Item) : Prop where
  id : item'.id = item.id
  status : item'.status = item.status ∨ (item.status.ended = false ∧ item'.status.ended = true)
  spooled : item.spooled = true → item'.spooled = true

lemma Item.Follows.refl (item : Item) : item.Follows item :=
  ⟨rfl, Or.inl rfl, fun h => h⟩

lemma Item.Follows.queued {item' : Item} (h : item.Follows item') (hq : item'.isQueued = true) :
    item.isQueued = true := by
  have hstatus : item'.status = .queued := of_decide_eq_true hq
  rcases h.status with heq | ⟨-, hended⟩
  · exact decide_eq_true (heq ▸ hstatus)
  · rw [hstatus] at hended
    cases hended

lemma Item.Follows.uploading {item' : Item} (h : item.Follows item') (hu : item'.isUploading = true) :
    item.isUploading = true := by
  have hstatus : item'.status = .uploading := of_decide_eq_true hu
  rcases h.status with heq | ⟨-, hended⟩
  · exact decide_eq_true (heq ▸ hstatus)
  · rw [hstatus] at hended
    cases hended

lemma Item.Follows.spooling {item' : Item} (h : item.Follows item') (hs : item'.isSpooling = true) :
    item.isSpooling = true := by
  obtain ⟨hstatus, hspooled⟩ : item'.status = .uploading ∧ (!item'.spooled) = true := of_decide_eq_true hs
  have hold : item.status = .uploading := of_decide_eq_true (h.uploading (decide_eq_true hstatus))
  refine decide_eq_true ⟨hold, ?_⟩
  cases hcase : item.spooled with
  | false => rfl
  | true =>
    rw [h.spooled hcase] at hspooled
    cases hspooled

lemma patchAt_self (h : item.id = id) : patchAt id patch item = patch item :=
  if_pos h

lemma patchAt_other (h : item.id ≠ id) : patchAt id patch item = item :=
  if_neg h

lemma patchAt_id (id : Nat) {patch : Item → Item} (h : ∀ item, (patch item).id = item.id) (item : Item) :
    (patchAt id patch item).id = item.id := by
  unfold patchAt
  split
  · exact h item
  · rfl

lemma start_id (item : Item) : item.start.id = item.id := rfl

lemma patchAt_follows (h : item.id = id → item.Follows (patch item)) :
    item.Follows (patchAt id patch item) := by
  unfold patchAt
  split
  · case isTrue hid => exact h hid
  · exact Item.Follows.refl item

lemma countP_patchAt (patch : Item → Item) (p : Item → Bool) (hids : (items.map Item.id).Nodup)
    (hmem : item ∈ items) :
    (items.map (patchAt item.id patch)).countP p + (if p item then 1 else 0) =
      items.countP p + if p (patch item) then 1 else 0 := by
  induction items with
  | nil => exact absurd hmem List.not_mem_nil
  | cons first items ih =>
    obtain ⟨hfirst, hids⟩ := List.nodup_cons.mp hids
    rw [List.map_cons, List.countP_cons, List.countP_cons]
    cases List.mem_cons.mp hmem with
    | inl heq =>
      subst heq
      have hrest : items.map (patchAt item.id patch) = items := by
        refine (List.map_congr_left fun other hother => ?_).trans (List.map_id items)
        exact patchAt_other fun heq => hfirst (heq ▸ List.mem_map_of_mem hother)
      rw [hrest, patchAt_self rfl]
      omega
    | inr hmem =>
      have hne : first.id ≠ item.id := fun heq => hfirst (heq ▸ List.mem_map_of_mem hmem)
      have hrest := ih hids hmem
      rw [patchAt_other hne]
      omega

lemma eq_of_id (hids : (items.map Item.id).Nodup) {item' : Item} (hmem : item ∈ items)
    (hmem' : item' ∈ items) (h : item.id = item'.id) : item = item' :=
  List.inj_on_of_nodup_map hids hmem hmem' h

structure Listed (items : List Item) (seq : Nat) (started : List Nat) : Prop where
  ids : (items.map Item.id).Nodup
  fresh : ∀ item ∈ items, item.id ≤ seq
  spooling : items.countP Item.isSpooling ≤ maxSpoolConcurrent
  uploading : items.countP Item.isUploading ≤ maxConcurrent
  once : started.Nodup
  made : ∀ id ∈ started, id ≤ seq
  /-- what was started is not queued any more -/
  tried : ∀ item ∈ items, item.status = .queued → item.id ∉ started

lemma countP_map_le (p : Item → Bool) (h : ∀ item ∈ items, p (f item) = true → p item = true) :
    (items.map f).countP p ≤ items.countP p := by
  rw [List.countP_map]
  exact List.countP_mono_left h

lemma Listed.map (h : Listed items seq started) (hf : ∀ item ∈ items, item.Follows (f item)) :
    Listed (items.map f) seq started := by
  have hids : (items.map f).map Item.id = items.map Item.id := by
    rw [List.map_map]
    exact List.map_congr_left fun item hitem => (hf item hitem).id
  refine {
    ids := hids ▸ h.ids
    fresh := ?_
    spooling := (countP_map_le _ fun item hitem => (hf item hitem).spooling).trans h.spooling
    uploading := (countP_map_le _ fun item hitem => (hf item hitem).uploading).trans h.uploading
    once := h.once
    made := h.made
    tried := ?_ }
  · intro item' hmem
    obtain ⟨item, hitem, rfl⟩ := List.mem_map.mp hmem
    rw [(hf item hitem).id]
    exact h.fresh item hitem
  · intro item' hmem hqueued
    obtain ⟨item, hitem, rfl⟩ := List.mem_map.mp hmem
    rw [(hf item hitem).id]
    exact h.tried item hitem (of_decide_eq_true ((hf item hitem).queued (decide_eq_true hqueued)))

lemma canStartSpool_eq_true : canStartSpool items = true ↔
    items.countP Item.isUploading < maxConcurrent ∧ items.countP Item.isSpooling < maxSpoolConcurrent := by
  unfold canStartSpool
  split
  · case isTrue hfull =>
    constructor
    · exact fun h => absurd h Bool.false_ne_true
    · exact fun h => absurd hfull (Nat.not_le.mpr h.1)
  · case isFalse hfree =>
    constructor
    · exact fun h => ⟨Nat.not_le.mp hfree, of_decide_eq_true h⟩
    · exact fun h => decide_eq_true h.2

lemma start_counts (hids : (items.map Item.id).Nodup) (hmem : item ∈ items) (hqueued : item.status = .queued) :
    (items.map (patchAt item.id Item.start)).countP Item.isSpooling = items.countP Item.isSpooling + 1 ∧
      (items.map (patchAt item.id Item.start)).countP Item.isUploading = items.countP Item.isUploading + 1 ∧
      (items.map (patchAt item.id Item.start)).countP Item.isQueued + 1 = items.countP Item.isQueued := by
  have hspooling := countP_patchAt Item.start Item.isSpooling hids hmem
  have huploading := countP_patchAt Item.start Item.isUploading hids hmem
  have hcount := countP_patchAt Item.start Item.isQueued hids hmem
  have hidle : item.isSpooling = false ∧ item.isUploading = false ∧ item.isQueued = true := by
    simp [Item.isSpooling, Item.isUploading, Item.isQueued, hqueued]
  have hbegun : item.start.isSpooling = true ∧ item.start.isUploading = true ∧ item.start.isQueued = false := by
    simp [Item.isSpooling, Item.isUploading, Item.isQueued, Item.start]
  simp only [hidle, hbegun, if_true, Bool.false_eq_true, if_false, Nat.add_zero] at hspooling huploading hcount
  exact ⟨hspooling, huploading, hcount⟩

lemma Listed.start (h : Listed items seq started) (hmem : item ∈ items) (hqueued : item.status = .queued)
    (hcan : canStartSpool items = true) :
    Listed (items.map (patchAt item.id Item.start)) seq (item.id :: started) := by
  obtain ⟨hspooling, huploading, -⟩ := start_counts h.ids hmem hqueued
  obtain ⟨hslot, hspool⟩ := canStartSpool_eq_true.mp hcan
  have hids : (items.map (patchAt item.id Item.start)).map Item.id = items.map Item.id := by
    rw [List.map_map]
    exact List.map_congr_left fun other _ => patchAt_id item.id start_id other
  refine {
    ids := hids ▸ h.ids
    fresh := ?_
    spooling := hspooling ▸ hspool
    uploading := huploading ▸ hslot
    once := List.nodup_cons.mpr ⟨h.tried item hmem hqueued, h.once⟩
    made := ?_
    tried := ?_ }
  · intro item' hmem'
    obtain ⟨other, hother, rfl⟩ := List.mem_map.mp hmem'
    rw [patchAt_id item.id start_id]
    exact h.fresh other hother
  · intro id hid
    cases List.mem_cons.mp hid with
    | inl heq => exact heq ▸ h.fresh item hmem
    | inr hid => exact h.made id hid
  · intro item' hmem' hstatus
    obtain ⟨other, hother, rfl⟩ := List.mem_map.mp hmem'
    by_cases hid : other.id = item.id
    · rw [patchAt_self hid] at hstatus
      cases hstatus
    · rw [patchAt_other hid] at hstatus ⊢
      exact List.not_mem_cons_of_ne_of_not_mem hid (h.tried other hother hstatus)

/-- What the list and the calls promise each other. -/
structure Called (items : List Item) (awaiting finishing controllers aborted started : List Nat) : Prop where
  calls : (awaiting ++ finishing).Nodup
  known : ∀ id, id ∈ awaiting ∨ id ∈ finishing ∨ id ∈ controllers ∨ id ∈ aborted → id ∈ started
  underway : ∀ item ∈ items, item.status = .uploading →
    item.id ∈ awaiting ∧ item.id ∈ controllers ∧ item.id ∉ aborted
  /-- a call that may still answer belongs to an item that uploads or was canceled, if to any -/
  answered : ∀ item ∈ items, item.id ∈ awaiting → item.status = .uploading ∨ item.status = .canceled

variable {awaiting finishing controllers aborted : List Nat}

lemma Called.map (h : Called items awaiting finishing controllers aborted started)
    (hf : ∀ item ∈ items, item.Follows (f item) ∧ (item.status = .uploading →
      (f item).status = .uploading ∨ (f item).status = .canceled)) :
    Called (items.map f) awaiting finishing controllers aborted started where
  calls := h.calls
  known := h.known
  underway := by
    intro item' hmem hstatus
    obtain ⟨item, hitem, rfl⟩ := List.mem_map.mp hmem
    rw [(hf item hitem).1.id]
    exact h.underway item hitem (of_decide_eq_true ((hf item hitem).1.uploading (decide_eq_true hstatus)))
  answered := by
    intro item' hmem hcall
    obtain ⟨item, hitem, rfl⟩ := List.mem_map.mp hmem
    rw [(hf item hitem).1.id] at hcall
    cases h.answered item hitem hcall with
    | inl huploading => exact (hf item hitem).2 huploading
    | inr hcanceled =>
      rcases (hf item hitem).1.status with heq | ⟨hopen, -⟩
      · exact Or.inr (heq.trans hcanceled)
      · rw [hcanceled] at hopen
        cases hopen

lemma Called.start (h : Called items awaiting finishing controllers aborted started)
    (hfresh : item.id ∉ started) :
    Called (items.map (patchAt item.id Item.start)) (item.id :: awaiting) finishing
      (controllers.insert item.id) aborted (item.id :: started) where
  calls := by
    refine List.nodup_cons.mpr ⟨fun hcall => hfresh (h.known _ ?_), h.calls⟩
    exact (List.mem_append.mp hcall).imp_right Or.inl
  known := by
    intro id hid
    rw [List.mem_cons, List.mem_insert_iff] at hid
    by_cases heq : id = item.id
    · exact heq ▸ List.mem_cons_self
    · refine List.mem_cons_of_mem _ (h.known id ?_)
      simpa only [heq, false_or] using hid
  underway := by
    intro item' hmem' hstatus
    obtain ⟨other, hother, rfl⟩ := List.mem_map.mp hmem'
    rw [patchAt_id item.id start_id]
    by_cases hid : other.id = item.id
    · rw [hid]
      refine ⟨List.mem_cons_self, List.mem_insert_self, fun hab => hfresh (h.known _ ?_)⟩
      exact Or.inr (Or.inr (Or.inr hab))
    · rw [patchAt_other hid] at hstatus
      obtain ⟨hcall, hcontroller, hlive⟩ := h.underway other hother hstatus
      exact ⟨List.mem_cons_of_mem _ hcall, List.mem_insert_of_mem hcontroller, hlive⟩
  answered := by
    intro item' hmem' hcall
    obtain ⟨other, hother, rfl⟩ := List.mem_map.mp hmem'
    rw [patchAt_id item.id start_id] at hcall
    by_cases hid : other.id = item.id
    · rw [patchAt_self hid]
      exact Or.inl rfl
    · rw [patchAt_other hid]
      exact h.answered other hother ((List.mem_cons.mp hcall).resolve_left hid)

end List

namespace Queue
variable {q : Queue} {id : Nat} {item : Item}

/-- The invariant without the start that is pending. -/
structure Consistent (q : Queue) : Prop where
  listed : Listed q.items q.uploadSeq q.started
  called : Called q.items q.awaiting q.finishing q.abortControllers q.aborted q.started

def Ready (q : Queue) : Prop :=
  (∃ item ∈ q.items, item.status = .queued) → canStartSpool q.items = true → 0 < q.microtasks ∨ q.finishing ≠ []

lemma Consistent.sound (h : q.Consistent) (hready : q.Ready) : q.Sound where
  spooling := h.listed.spooling
  uploading := h.listed.uploading
  once := h.listed.once
  distinct := h.listed.ids
  underway := h.called.underway
  ready := hready

lemma find_mem (h : q.find id = some item) : item ∈ q.items ∧ item.id = id := by
  have hfind : q.items.find? (fun item => item.id = id) = some item := h
  have hfound := List.find?_some hfind
  exact ⟨List.mem_of_find?_eq_some hfind, of_decide_eq_true hfound⟩

lemma find_none (h : q.find id = none) : ∀ item ∈ q.items, item.id ≠ id := by
  intro item hmem heq
  have hnone := List.find?_eq_none.mp h item hmem
  exact hnone (decide_eq_true heq)

lemma find_self (hids : (q.items.map Item.id).Nodup) (hmem : item ∈ q.items) : q.find item.id = some item := by
  cases hfind : q.find item.id with
  | none => exact absurd rfl (find_none hfind item hmem)
  | some other =>
    obtain ⟨hother, hid⟩ := find_mem hfind
    rw [eq_of_id hids hother hmem hid]

lemma pump_cases (hids : (q.items.map Item.id).Nodup) :
    (q.pump = q ∧ ((∃ item ∈ q.items, item.status = .queued) → canStartSpool q.items = false)) ∨
      ∃ item ∈ q.items, item.status = .queued ∧ canStartSpool q.items = true ∧ q.pump = q.start item.id := by
  unfold pump
  split
  · case isTrue hcan =>
    have hslots : maxSpoolConcurrent - q.items.countP Item.isSpooling = 1 := by
      have hfree := (canStartSpool_eq_true.mp hcan).2
      have hone : maxSpoolConcurrent = 1 := rfl
      omega
    have hsorted : ((q.items.filter Item.isQueued).insertionSort fun a b => a.weight ≤ b.weight).Perm
        (q.items.filter Item.isQueued) := List.perm_insertionSort _ _
    dsimp only
    rw [hslots]
    generalize (q.items.filter Item.isQueued).insertionSort (fun a b => a.weight ≤ b.weight) = queued at hsorted
    cases queued with
    | nil =>
      refine Or.inl ⟨rfl, fun ⟨item, hmem, hstatus⟩ => ?_⟩
      have hnone := hsorted.mem_iff.mpr (List.mem_filter.mpr ⟨hmem, decide_eq_true hstatus⟩)
      exact absurd hnone List.not_mem_nil
    | cons item rest =>
      obtain ⟨hmem, hqueued⟩ := List.mem_filter.mp (hsorted.mem_iff.mp List.mem_cons_self)
      have hstatus : item.status = .queued := of_decide_eq_true hqueued
      refine Or.inr ⟨item, hmem, hstatus, hcan, ?_⟩
      show q.runUpload item.id = q.start item.id
      unfold runUpload
      rw [find_self hids hmem]
      exact if_pos ⟨hcan, hstatus⟩
  · case isFalse hfull => exact Or.inl ⟨rfl, fun _ => Bool.eq_false_of_not_eq_true hfull⟩

lemma Consistent.pump (h : q.Consistent) : q.pump.Consistent ∧ q.pump.Ready := by
  rcases pump_cases h.listed.ids with ⟨heq, hidle⟩ | ⟨item, hmem, hqueued, hcan, heq⟩
  · rw [heq]
    refine ⟨h, fun hany hcan => ?_⟩
    rw [hidle hany] at hcan
    cases hcan
  · rw [heq]
    have hfresh := h.listed.tried item hmem hqueued
    refine ⟨⟨h.listed.start hmem hqueued hcan, h.called.start hfresh⟩, fun _ hagain => ?_⟩
    have hcount := (start_counts h.listed.ids hmem hqueued).1
    have hfree := (canStartSpool_eq_true.mp hagain).2
    have hone : maxSpoolConcurrent = 1 := rfl
    have hcount' : (q.start item.id).items.countP Item.isSpooling = q.items.countP Item.isSpooling + 1 := hcount
    omega

/-- What a report changes: no status, and the spool slot only together with a microtask. -/
structure Gentle (patch : Item → Item) (m : Nat) : Prop where
  id : ∀ item, (patch item).id = item.id
  status : ∀ item, (patch item).status = item.status
  spooled : ∀ item, item.spooled = true → (patch item).spooled = true
  slot : m = 1 ∨ m = 0 ∧ ∀ item, (patch item).spooled = item.spooled

lemma gentle_same : Gentle (fun item => item) 0 :=
  ⟨fun _ => rfl, fun _ => rfl, fun _ h => h, Or.inr ⟨rfl, fun _ => rfl⟩⟩

lemma patchItem_id : q.patchItem id (fun item => item) = q := by
  have hsame : ∀ item ∈ q.items, patchAt id (fun item => item) item = item := by
    intro item _
    unfold patchAt
    split <;> rfl
  show { q with items := q.items.map (patchAt id fun item => item) } = q
  rw [List.map_congr_left hsame, List.map_id']

lemma markSpooled_cases (extra : Option Extra) : ∃ patch m, Gentle patch m ∧
    q.markSpooled id extra = { q.patchItem id patch with microtasks := q.microtasks + m } := by
  have hsame : ∃ patch m, Gentle patch m ∧
      q = { q.patchItem id patch with microtasks := q.microtasks + m } :=
    ⟨fun item => item, 0, gentle_same, by rw [patchItem_id]; rfl⟩
  unfold markSpooled
  split
  · exact hsame
  · split
    · exact hsame
    · split
      · exact hsame
      · refine ⟨_, 1, ⟨?_, ?_, ?_, Or.inl rfl⟩, rfl⟩
        · intro item
          cases extra <;> rfl
        · intro item
          cases extra <;> rfl
        · intro item _
          cases extra <;> rfl

lemma onProgress_cases (id : Nat) (report : Report) : ∃ patch m, Gentle patch m ∧
    q.onProgress id report = { q.patchItem id patch with microtasks := q.microtasks + m } := by
  have hsame : ∃ patch m, Gentle patch m ∧
      q = { q.patchItem id patch with microtasks := q.microtasks + m } :=
    ⟨fun item => item, 0, gentle_same, by rw [patchItem_id]; rfl⟩
  unfold onProgress
  split
  · exact hsame
  · split
    · exact hsame
    · dsimp only
      split
      · exact markSpooled_cases _
      · refine ⟨fun item => { item with
          indeterminate := true, bytesTotal := _, retryAfter := none }, 0, ?_, rfl⟩
        exact ⟨fun _ => rfl, fun _ => rfl, fun _ h => h, Or.inr ⟨rfl, fun _ => rfl⟩⟩
      · exact markSpooled_cases _
      · exact markSpooled_cases _

lemma Gentle.follows {patch : Item → Item} {m : Nat} (h : Gentle patch m) (id : Nat) (item : Item) :
    item.Follows (patchAt id patch item) :=
  patchAt_follows fun _ => ⟨h.id item, Or.inl (h.status item), h.spooled item⟩

lemma Gentle.status_eq {patch : Item → Item} {m : Nat} (h : Gentle patch m) (item : Item) :
    (patchAt id patch item).status = item.status := by
  unfold patchAt
  split
  · exact h.status item
  · rfl

lemma Consistent.onProgress (h : q.Consistent) (hready : q.Ready) (report : Report) :
    (q.onProgress id report).Consistent ∧ (q.onProgress id report).Ready := by
  obtain ⟨patch, m, hgentle, heq⟩ := onProgress_cases (q := q) id report
  rw [heq]
  refine ⟨⟨h.listed.map fun item _ => hgentle.follows id item, h.called.map fun item _ => ?_⟩, ?_⟩
  · exact ⟨hgentle.follows id item, fun huploading => Or.inl ((hgentle.status_eq item).trans huploading)⟩
  · intro hany hcan
    rcases hgentle.slot with rfl | ⟨rfl, hslot⟩
    · exact Or.inl (Nat.succ_pos _)
    · -- nothing that `canStartSpool` reads has changed
      have hspooled : ∀ item, (patchAt id patch item).spooled = item.spooled := by
        intro item
        unfold patchAt
        split
        · exact hslot item
        · rfl
      have hspooling : Item.isSpooling ∘ patchAt id patch = Item.isSpooling := by
        funext item
        simp only [Function.comp_apply, Item.isSpooling, hgentle.status_eq, hspooled]
      have huploading : Item.isUploading ∘ patchAt id patch = Item.isUploading := by
        funext item
        simp only [Function.comp_apply, Item.isUploading, hgentle.status_eq]
      refine hready ?_ ?_
      · obtain ⟨item', hmem, hqueued⟩ := hany
        obtain ⟨item, hitem, rfl⟩ := List.mem_map.mp hmem
        exact ⟨item, hitem, (hgentle.status_eq item).symm.trans hqueued⟩
      · rw [canStartSpool_eq_true] at hcan ⊢
        show q.items.countP _ < _ ∧ q.items.countP _ < _
        have hcan' : (q.items.map (patchAt id patch)).countP Item.isUploading < maxConcurrent ∧
          (q.items.map (patchAt id patch)).countP Item.isSpooling < maxSpoolConcurrent := hcan
        rwa [List.countP_map, List.countP_map, hspooling, huploading] at hcan'

/-- What an answer does to the list: its item, if there is one, has ended then, and no other has changed. -/
structure Settled (q : Queue) (id : Nat) (f : Item → Item) : Prop where
  follows : ∀ item ∈ q.items, item.Follows (f item)
  ended : ∀ item ∈ q.items, item.id = id → (f item).status.ended = true
  other : ∀ item, item.id ≠ id → f item = item

lemma Settled.same (h : ∀ item ∈ q.items, item.id = id → item.status.ended = true) :
    q.Settled id fun item => item :=
  ⟨fun item _ => Item.Follows.refl item, h, fun _ _ => rfl⟩

lemma Settled.patch {patch : Item → Item}
    (hopen : ∀ item ∈ q.items, item.id = id → item.status = .uploading)
    (hid : ∀ item, (patch item).id = item.id) (hended : ∀ item, (patch item).status.ended = true)
    (hspooled : ∀ item, (patch item).spooled = item.spooled) : q.Settled id (patchAt id patch) where
  follows := by
    intro item hmem
    refine patchAt_follows fun hitem => ⟨hid item, Or.inr ⟨?_, hended item⟩, fun h => ?_⟩
    · rw [hopen item hmem hitem]
      rfl
    · rw [hspooled, h]
  ended := by
    intro item _ hitem
    rw [patchAt_self hitem]
    exact hended item
  other := fun item hne => patchAt_other hne

lemma settle_cases (hids : (q.items.map Item.id).Nodup)
    (hopen : ∀ item ∈ q.items, item.id = id → item.status = .uploading ∨ item.status = .canceled)
    (answer : Answer) : ∃ f, q.settle id answer = { q with items := q.items.map f } ∧ q.Settled id f := by
  have hkeep : q = { q with items := q.items.map fun item => item } := by
    rw [List.map_id']
  unfold settle
  split
  · case h_1 hnone =>
    exact ⟨_, hkeep, Settled.same fun item hmem hid => absurd hid (find_none hnone item hmem)⟩
  · case h_2 cur hfind =>
    obtain ⟨hcur, hid⟩ := find_mem hfind
    have hunique : ∀ item ∈ q.items, item.id = id → item = cur :=
      fun item hmem hitem => eq_of_id hids hmem hcur (hitem.trans hid.symm)
    split
    · case isTrue hcanceled =>
      refine ⟨_, hkeep, Settled.same fun item hmem hitem => ?_⟩
      rw [hunique item hmem hitem, hcanceled]
      rfl
    · case isFalse hlive =>
      have huploading : ∀ item ∈ q.items, item.id = id → item.status = .uploading := by
        intro item hmem hitem
        exact (hopen item hmem hitem).resolve_right (hunique item hmem hitem ▸ hlive)
      split
      · exact ⟨_, rfl, Settled.patch huploading (fun _ => rfl) (fun _ => rfl) fun _ => rfl⟩
      · exact ⟨_, rfl, Settled.patch huploading (fun _ => rfl) (fun _ => rfl) fun _ => rfl⟩

lemma Consistent.settle (h : q.Consistent) (hcall : id ∈ q.awaiting) (answer : Answer) :
    ∃ f, { q with awaiting := q.awaiting.erase id, finishing := id :: q.finishing }.settle id answer =
      { q with
        awaiting := q.awaiting.erase id
        finishing := id :: q.finishing
        items := q.items.map f } ∧ q.Settled id f := by
  obtain ⟨f, heq, hsettled⟩ := settle_cases
    (q := { q with awaiting := q.awaiting.erase id, finishing := id :: q.finishing }) h.listed.ids
    (fun item hmem hid => h.called.answered item hmem (hid ▸ hcall)) answer
  exact ⟨f, heq, hsettled.follows, hsettled.ended, hsettled.other⟩

lemma Consistent.answer (h : q.Consistent) (hcall : id ∈ q.awaiting) (answer : Answer) :
    ({ q with awaiting := q.awaiting.erase id, finishing := id :: q.finishing }.settle id answer).Consistent ∧
      ({ q with awaiting := q.awaiting.erase id, finishing := id :: q.finishing }.settle id answer).Ready := by
  obtain ⟨f, heq, hfollows, hended, hother⟩ := h.settle hcall answer
  rw [heq]
  refine ⟨⟨h.listed.map hfollows, ?_⟩, fun _ _ => Or.inr (List.cons_ne_nil _ _)⟩
  have hperm : (q.awaiting.erase id ++ id :: q.finishing).Perm (q.awaiting ++ q.finishing) :=
    List.perm_middle.trans ((List.perm_cons_erase hcall).symm.append_right q.finishing)
  have hnodup : q.awaiting.Nodup := h.called.calls.of_append_left
  refine {
    calls := hperm.nodup_iff.mpr h.called.calls
    known := ?_
    underway := ?_
    answered := ?_ }
  · intro id' hid
    rcases hid with hid | hid | hid
    · exact h.called.known id' (Or.inl (List.mem_of_mem_erase hid))
    · cases List.mem_cons.mp hid with
      | inl heq => exact heq ▸ h.called.known id (Or.inl hcall)
      | inr hid => exact h.called.known id' (Or.inr (Or.inl hid))
    · exact h.called.known id' (Or.inr (Or.inr hid))
  · intro item' hmem hstatus
    obtain ⟨item, hitem, rfl⟩ := List.mem_map.mp hmem
    have hne : item.id ≠ id := by
      intro hid
      have hdone := hended item hitem hid
      rw [hstatus] at hdone
      cases hdone
    rw [hother item hne] at hstatus ⊢
    obtain ⟨hawaiting, hrest⟩ := h.called.underway item hitem hstatus
    exact ⟨(List.mem_erase_of_ne hne).mpr hawaiting, hrest⟩
  · intro item' hmem hawaiting
    obtain ⟨item, hitem, rfl⟩ := List.mem_map.mp hmem
    rw [(hfollows item hitem).id] at hawaiting
    obtain ⟨hne, hcall'⟩ := hnodup.mem_erase_iff.mp hawaiting
    rw [hother item hne]
    exact h.called.answered item hitem hcall'

lemma Consistent.finish (h : q.Consistent) (hcall : id ∈ q.finishing) :
    ({ q with finishing := q.finishing.erase id }.finish id).Consistent ∧
      ({ q with finishing := q.finishing.erase id }.finish id).Ready := by
  refine ⟨⟨h.listed, ?_⟩, fun _ _ => Or.inl (Nat.succ_pos _)⟩
  have hsub : (q.awaiting ++ q.finishing.erase id).Sublist (q.awaiting ++ q.finishing) :=
    (List.erase_sublist).append_left q.awaiting
  refine {
    calls := h.called.calls.sublist hsub
    known := ?_
    underway := ?_
    answered := h.called.answered }
  · intro id' hid
    refine h.called.known id' (hid.imp_right ?_)
    exact Or.imp List.mem_of_mem_erase (Or.imp_left List.mem_of_mem_erase)
  · intro item hmem hstatus
    obtain ⟨hawaiting, hcontroller, hlive⟩ := h.called.underway item hmem hstatus
    have hne : item.id ≠ id := by
      intro hid
      exact List.disjoint_of_nodup_append h.called.calls hawaiting (hid ▸ hcall)
    exact ⟨hawaiting, (List.mem_erase_of_ne hne).mpr hcontroller, hlive⟩

lemma newItems_ids (entries : List Nat) : ∀ seq,
    (newItems seq entries).map Item.id = List.range' (seq + 1) entries.length := by
  induction entries with
  | nil => exact fun seq => rfl
  | cons size sizes ih =>
    intro seq
    rw [newItems, List.map_cons, ih, List.length_cons, List.range'_succ]
    rfl

lemma newItems_queued (entries : List Nat) : ∀ seq, ∀ item ∈ newItems seq entries, item.status = .queued := by
  induction entries with
  | nil => exact fun seq item hmem => absurd hmem List.not_mem_nil
  | cons size sizes ih =>
    intro seq item hmem
    cases List.mem_cons.mp hmem with
    | inl heq => exact heq ▸ rfl
    | inr hmem => exact ih (seq + 1) item hmem

lemma newItems_bounds {seq : Nat} {entries : List Nat} (hmem : item ∈ newItems seq entries) :
    seq < item.id ∧ item.id ≤ seq + entries.length := by
  have hrange : item.id ∈ List.range' (seq + 1) entries.length :=
    newItems_ids entries seq ▸ List.mem_map_of_mem hmem
  rw [List.mem_range'_1] at hrange
  omega

lemma newItems_count {p : Item → Bool} (h : ∀ item : Item, item.status = .queued → p item = false)
    (seq : Nat) (entries : List Nat) : (newItems seq entries).countP p = 0 := by
  refine List.countP_eq_zero.mpr fun item hmem => ?_
  rw [h item (newItems_queued entries seq item hmem)]
  exact Bool.false_ne_true

def add (q : Queue) (entries : List Nat) : Queue :=
  { q with items := q.items ++ newItems q.uploadSeq entries, uploadSeq := q.uploadSeq + entries.length }

lemma Consistent.add (h : q.Consistent) (entries : List Nat) : (q.add entries).Consistent where
  listed := {
    ids := by
      show ((q.items ++ newItems q.uploadSeq entries).map Item.id).Nodup
      rw [List.map_append, newItems_ids]
      refine h.listed.ids.append (List.nodup_range') fun id hold hnew => ?_
      obtain ⟨item, hmem, rfl⟩ := List.mem_map.mp hold
      have hle := h.listed.fresh item hmem
      rw [List.mem_range'_1] at hnew
      omega
    fresh := by
      intro item hmem
      show item.id ≤ q.uploadSeq + entries.length
      cases List.mem_append.mp hmem with
      | inl hold => exact (h.listed.fresh item hold).trans (Nat.le_add_right _ _)
      | inr hnew => exact (newItems_bounds hnew).2
    spooling := by
      show (q.items ++ newItems q.uploadSeq entries).countP Item.isSpooling ≤ _
      rw [List.countP_append, newItems_count fun item hq => by simp [Item.isSpooling, hq]]
      exact h.listed.spooling
    uploading := by
      show (q.items ++ newItems q.uploadSeq entries).countP Item.isUploading ≤ _
      rw [List.countP_append, newItems_count fun item hq => by simp [Item.isUploading, hq]]
      exact h.listed.uploading
    once := h.listed.once
    made := fun id hid => (h.listed.made id hid).trans (Nat.le_add_right _ _)
    tried := by
      intro item hmem hqueued hstarted
      cases List.mem_append.mp hmem with
      | inl hold => exact h.listed.tried item hold hqueued hstarted
      | inr hnew => exact absurd (h.listed.made item.id hstarted) (Nat.not_le.mpr (newItems_bounds hnew).1) }
  called := {
    calls := h.called.calls
    known := h.called.known
    underway := by
      intro item hmem hstatus
      cases List.mem_append.mp hmem with
      | inl hold => exact h.called.underway item hold hstatus
      | inr hnew =>
        rw [newItems_queued entries q.uploadSeq item hnew] at hstatus
        cases hstatus
    answered := by
      intro item hmem hcall
      cases List.mem_append.mp hmem with
      | inl hold => exact h.called.answered item hold hcall
      | inr hnew =>
        have hle := h.listed.made item.id (h.called.known item.id (Or.inl hcall))
        exact absurd hle (Nat.not_le.mpr (newItems_bounds hnew).1) }

lemma Consistent.clear {q' : Queue} (h : q.Consistent) (hitems : q'.items = [])
    (hseq : q'.uploadSeq = q.uploadSeq) (hstarted : q'.started = q.started) (hawaiting : q'.awaiting = q.awaiting)
    (hfinishing : q'.finishing = q.finishing)
    (hknown : ∀ id, id ∈ q'.abortControllers ∨ id ∈ q'.aborted → id ∈ q.abortControllers ∨ id ∈ q.aborted) :
    q'.Consistent where
  listed := by
    rw [hitems, hseq, hstarted]
    exact {
      ids := List.nodup_nil
      fresh := fun item hmem => absurd hmem List.not_mem_nil
      spooling := Nat.zero_le _
      uploading := Nat.zero_le _
      once := h.listed.once
      made := h.listed.made
      tried := fun item hmem => absurd hmem List.not_mem_nil }
  called := by
    rw [hitems, hstarted, hawaiting, hfinishing]
    exact {
      calls := h.called.calls
      known := fun id hid => h.called.known id (hid.imp_right (Or.imp_right (hknown id)))
      underway := fun item hmem => absurd hmem List.not_mem_nil
      answered := fun item hmem => absurd hmem List.not_mem_nil }

/-- What `enqueue` starts from. -/
def fresh (q : Queue) : Queue :=
  if q.hasActiveWork then q else { q.abortAll with items := [] }

lemma enqueue_eq (entries : List Nat) :
    q.enqueue entries = if entries = [] then q else (q.fresh.add entries).pump := rfl

lemma mem_abortAll (q : Queue) : ∀ id, id ∈ q.abortAll.abortControllers ∨ id ∈ q.abortAll.aborted →
    id ∈ q.abortControllers ∨ id ∈ q.aborted := by
  intro id hid
  cases hid with
  | inl hnil => exact absurd hnil List.not_mem_nil
  | inr happend => exact List.mem_append.mp happend

lemma Consistent.fresh (h : q.Consistent) : q.fresh.Consistent := by
  unfold Queue.fresh
  split
  · exact h
  · exact h.clear rfl rfl rfl rfl rfl (mem_abortAll q)

lemma Consistent.enqueue (h : q.Consistent) (hready : q.Ready) (entries : List Nat) :
    (q.enqueue entries).Consistent ∧ (q.enqueue entries).Ready := by
  rw [enqueue_eq]
  split
  · exact ⟨h, hready⟩
  · exact (h.fresh.add entries).pump

lemma cancel_follows (item : Item) : item.Follows item.cancel := by
  unfold Item.cancel
  split
  · case isTrue hactive =>
    refine ⟨rfl, Or.inr ⟨?_, rfl⟩, fun h => h⟩
    cases hactive with
    | inl hqueued => rw [hqueued]; rfl
    | inr huploading => rw [huploading]; rfl
  · exact Item.Follows.refl item

lemma cancel_ended (item : Item) : item.cancel.status.ended = true := by
  unfold Item.cancel
  split
  · rfl
  · case isFalse hactive =>
    rw [not_or] at hactive
    cases hstatus : item.status with
    | queued => exact absurd hstatus hactive.1
    | uploading => exact absurd hstatus hactive.2
    | done | canceled | error => rfl

lemma Consistent.cancelAll (h : q.Consistent) : q.cancelAll.Consistent ∧ q.cancelAll.Ready := by
  have hended : ∀ item ∈ q.items.map Item.cancel, item.status.ended = true := by
    intro item' hmem
    obtain ⟨item, -, rfl⟩ := List.mem_map.mp hmem
    exact cancel_ended item
  refine ⟨⟨h.listed.map fun item _ => cancel_follows item, ?_⟩, fun ⟨item, hmem, hqueued⟩ => ?_⟩
  · refine {
      calls := h.called.calls
      known := fun id hid => h.called.known id (hid.imp_right (Or.imp_right (mem_abortAll q id)))
      underway := ?_
      answered := ?_ }
    · intro item hmem hstatus
      have hdone := hended item hmem
      rw [hstatus] at hdone
      cases hdone
    · intro item' hmem hcall
      obtain ⟨item, hitem, rfl⟩ := List.mem_map.mp hmem
      rw [(cancel_follows item).id] at hcall
      right
      unfold Item.cancel
      split
      · rfl
      · case isFalse hactive =>
        exact (h.called.answered item hitem hcall).resolve_left fun huploading => hactive (Or.inr huploading)
  · have hdone := hended item hmem
    rw [hqueued] at hdone
    cases hdone

lemma Consistent.step (h : q.Consistent) (hready : q.Ready) (event : Event) :
    (q.step event).Consistent ∧ (q.step event).Ready := by
  cases event with
  | enqueue entries => exact h.enqueue hready entries
  | cancelAll => exact h.cancelAll
  | dismiss =>
    show (if _ then _ else _ : Queue).Consistent ∧ (if _ then _ else _ : Queue).Ready
    split
    · exact ⟨h, hready⟩
    · refine ⟨h.clear rfl rfl rfl rfl rfl fun id hid => hid, fun ⟨item, hmem, _⟩ => ?_⟩
      exact absurd hmem List.not_mem_nil
  | progress id report => exact h.onProgress hready report
  | answer id answer =>
    show (if _ then _ else _ : Queue).Consistent ∧ (if _ then _ else _ : Queue).Ready
    split
    · case isTrue hcall => exact h.answer hcall answer
    · exact ⟨h, hready⟩
  | finish id =>
    show (if _ then _ else _ : Queue).Consistent ∧ (if _ then _ else _ : Queue).Ready
    split
    · case isTrue hcall => exact h.finish hcall
    · exact ⟨h, hready⟩
  | microtask =>
    show (if _ then _ else _ : Queue).Consistent ∧ (if _ then _ else _ : Queue).Ready
    split
    · have hless : { q with microtasks := q.microtasks - 1 }.Consistent := ⟨h.listed, h.called⟩
      exact hless.pump
    · exact ⟨h, hready⟩

lemma consistent_empty : empty.Consistent ∧ empty.Ready := by
  refine ⟨⟨?_, ?_⟩, fun ⟨item, hmem, _⟩ => absurd hmem List.not_mem_nil⟩
  · exact {
      ids := List.nodup_nil
      fresh := fun item hmem => absurd hmem List.not_mem_nil
      spooling := Nat.zero_le _
      uploading := Nat.zero_le _
      once := List.nodup_nil
      made := fun id hid => absurd hid List.not_mem_nil
      tried := fun item hmem => absurd hmem List.not_mem_nil }
  · exact {
      calls := List.nodup_nil
      known := by
        rintro id (hid | hid | hid | hid)
        all_goals exact absurd hid List.not_mem_nil
      underway := fun item hmem => absurd hmem List.not_mem_nil
      answered := fun item hmem => absurd hmem List.not_mem_nil }

lemma Consistent.run (h : q.Consistent ∧ q.Ready) (events : List Event) :
    (run Queue.step q events).Consistent ∧ (run Queue.step q events).Ready :=
  run_invariant (I := fun q : Queue => q.Consistent ∧ q.Ready)
    (fun _ event h => h.1.step h.2 event) h events

/-! ### An end is for good -/

/-- What a list may become: its items have their numbers, the ended ones their status, and the rest is new. -/
structure Succeeds (q q' : Queue) : Prop where
  seq : q.uploadSeq ≤ q'.uploadSeq
  items : ∀ item' ∈ q'.items, q.uploadSeq < item'.id ∨
    ∃ item ∈ q.items, item'.id = item.id ∧ (item.status.ended = true → item'.status = item.status)

lemma Succeeds.refl (q : Queue) : q.Succeeds q :=
  ⟨Nat.le_refl _, fun item hmem => Or.inr ⟨item, hmem, rfl, fun _ => rfl⟩⟩

lemma Succeeds.trans {q' q'' : Queue} (h : q.Succeeds q') (h' : q'.Succeeds q'') : q.Succeeds q'' := by
  refine ⟨h.seq.trans h'.seq, fun item'' hmem => ?_⟩
  rcases h'.items item'' hmem with hnew | ⟨item', hmem', hid', hkeep'⟩
  · exact Or.inl (Nat.lt_of_le_of_lt h.seq hnew)
  · rcases h.items item' hmem' with hnew | ⟨item, hitem, hid, hkeep⟩
    · exact Or.inl (hid' ▸ hnew)
    · refine Or.inr ⟨item, hitem, hid'.trans hid, fun hended => ?_⟩
      have hsame := hkeep hended
      exact (hkeep' (hsame ▸ hended)).trans hsame

lemma Succeeds.map {q' : Queue} {f : Item → Item} (hseq : q'.uploadSeq = q.uploadSeq)
    (hitems : q'.items = q.items.map f)
    (hf : ∀ item ∈ q.items, (f item).id = item.id ∧
      (item.status.ended = true → (f item).status = item.status)) :
    q.Succeeds q' := by
  refine ⟨Nat.le_of_eq hseq.symm, fun item' hmem => ?_⟩
  rw [hitems] at hmem
  obtain ⟨item, hitem, rfl⟩ := List.mem_map.mp hmem
  exact Or.inr ⟨item, hitem, hf item hitem⟩

lemma follows_keeps {item' : Item} (h : item.Follows item') :
    item'.id = item.id ∧ (item.status.ended = true → item'.status = item.status) := by
  refine ⟨h.id, fun hended => ?_⟩
  rcases h.status with heq | ⟨hopen, -⟩
  · exact heq
  · rw [hended] at hopen
    cases hopen

lemma succeeds_pump (hids : (q.items.map Item.id).Nodup) : q.Succeeds q.pump := by
  rcases pump_cases hids with ⟨heq, -⟩ | ⟨item, hmem, hqueued, -, heq⟩
  · rw [heq]
    exact Succeeds.refl q
  · rw [heq]
    refine Succeeds.map rfl rfl fun other hother => ⟨patchAt_id item.id start_id other, fun hended => ?_⟩
    have hne : other.id ≠ item.id := by
      intro hid
      rw [eq_of_id hids hother hmem hid, hqueued] at hended
      cases hended
    rw [patchAt_other hne]

lemma succeeds_fresh : q.Succeeds q.fresh := by
  unfold fresh
  split
  · exact Succeeds.refl q
  · exact ⟨Nat.le_refl _, fun item hmem => absurd hmem List.not_mem_nil⟩

lemma succeeds_add (entries : List Nat) : q.Succeeds (q.add entries) := by
  refine ⟨Nat.le_add_right _ _, fun item hmem => ?_⟩
  cases List.mem_append.mp hmem with
  | inl hold => exact Or.inr ⟨item, hold, rfl, fun _ => rfl⟩
  | inr hnew => exact Or.inl (newItems_bounds hnew).1

lemma Consistent.succeeds (h : q.Consistent) (event : Event) : q.Succeeds (q.step event) := by
  cases event with
  | enqueue entries =>
    show q.Succeeds (q.enqueue entries)
    rw [enqueue_eq]
    split
    · exact Succeeds.refl q
    · exact (succeeds_fresh.trans (succeeds_add entries)).trans
        (succeeds_pump (h.fresh.add entries).listed.ids)
  | cancelAll => exact Succeeds.map rfl rfl fun item _ => follows_keeps (cancel_follows item)
  | dismiss =>
    show q.Succeeds (if _ then _ else _)
    split
    · exact Succeeds.refl q
    · exact ⟨Nat.le_refl _, fun item hmem => absurd hmem List.not_mem_nil⟩
  | progress id report =>
    obtain ⟨patch, m, hgentle, heq⟩ := onProgress_cases (q := q) id report
    show q.Succeeds (q.onProgress id report)
    rw [heq]
    exact Succeeds.map rfl rfl fun item _ => follows_keeps (hgentle.follows id item)
  | answer id answer =>
    show q.Succeeds (if _ then _ else _)
    split
    · case isTrue hcall =>
      obtain ⟨f, heq, hsettled⟩ := h.settle hcall answer
      rw [heq]
      exact Succeeds.map rfl rfl fun item hmem => follows_keeps (hsettled.follows item hmem)
    · exact Succeeds.refl q
  | finish id =>
    show q.Succeeds (if _ then _ else _)
    split
    · exact ⟨Nat.le_refl _, (Succeeds.refl q).items⟩
    · exact Succeeds.refl q
  | microtask =>
    show q.Succeeds (if _ then _ else _)
    split
    · have hless : q.Succeeds { q with microtasks := q.microtasks - 1 } :=
        ⟨Nat.le_refl _, (Succeeds.refl q).items⟩
      exact hless.trans (succeeds_pump h.listed.ids)
    · exact Succeeds.refl q

lemma Consistent.final (h : q.Consistent ∧ q.Ready) : q.Final := by
  have hrun : ∀ events, q.Succeeds (Lib.run Queue.step q events) ∧
      (Lib.run Queue.step q events).Consistent ∧ (Lib.run Queue.step q events).Ready := by
    intro events
    induction events using List.reverseRecOn with
    | nil => exact ⟨Succeeds.refl q, h⟩
    | append_singleton events event ih =>
      obtain ⟨hsucceeds, hconsistent, hready⟩ := ih
      rw [run_append]
      exact ⟨hsucceeds.trans (hconsistent.succeeds event), hconsistent.step hready event⟩
  intro events item hmem hended item' hmem' hid
  rcases (hrun events).1.items item' hmem' with hnew | ⟨old, hold, hid', hkeep⟩
  · have hle := h.1.listed.fresh item hmem
    omega
  · have hsame : old = item := eq_of_id h.1.listed.ids hold hmem (hid'.symm.trans hid)
    exact hsame ▸ hkeep (hsame ▸ hended)

/-! ### Uploads of an earlier batch -/

lemma filter_erase_le {n : Nat} (hle : id ≤ n) (ids : List Nat) :
    (ids.erase id).filter (n < ·) = ids.filter (n < ·) := by
  induction ids with
  | nil => rfl
  | cons first ids ih =>
    rw [List.erase_cons]
    split
    · case isTrue heq =>
      have hfirst : ¬ n < first := by
        have heq' : first = id := eq_of_beq heq
        omega
      rw [List.filter_cons_of_neg (by simpa using hfirst)]
    · rw [List.filter_cons, List.filter_cons, ih]

lemma filter_cons_le {n : Nat} (hle : id ≤ n) (ids : List Nat) :
    (id :: ids).filter (n < ·) = ids.filter (n < ·) :=
  List.filter_cons_of_neg (by simpa using hle)

lemma filter_map_le {n : Nat} {f : Item → Item} (items : List Item)
    (hids : ∀ item ∈ items, (f item).id = item.id)
    (hf : ∀ item, n < item.id → f item = item) :
    (items.map f).filter (fun item => n < item.id) = items.filter fun item => n < item.id := by
  induction items with
  | nil => rfl
  | cons first items ih =>
    have hrest := ih fun item hmem => hids item (List.mem_cons_of_mem first hmem)
    have hfirst := hids first List.mem_cons_self
    rw [List.map_cons, List.filter_cons, List.filter_cons, hrest, hfirst]
    split
    · case isTrue hlater => rw [hf first (of_decide_eq_true hlater)]
    · rfl

lemma Consistent.later (h : q.Consistent) {event : Event} {n : Nat} (habout : event.about = some id)
    (hle : id ≤ n) : (q.step event).later n = q.later n := by
  cases event with
  | enqueue | cancelAll | dismiss | microtask => cases habout
  | progress id' report =>
    obtain rfl : id' = id := Option.some.inj habout
    obtain ⟨patch, m, hgentle, heq⟩ := onProgress_cases (q := q) id' report
    show (q.onProgress id' report).later n = q.later n
    rw [heq]
    have hitems := filter_map_le (n := n) q.items (fun item _ => (hgentle.follows id' item).id)
      fun item hlater => patchAt_other (by omega)
    show (_, _) = (_, _)
    exact congrArg (fun items => (items, (q.later n).2)) hitems
  | answer id' answer =>
    obtain rfl : id' = id := Option.some.inj habout
    show (if _ then _ else _ : Queue).later n = q.later n
    split
    · case isTrue hcall =>
      obtain ⟨f, heq, hfollows, -, hother⟩ := h.settle hcall answer
      rw [heq]
      have hitems := filter_map_le (n := n) q.items (fun item hmem => (hfollows item hmem).id)
        fun item hlater => hother item (by omega)
      simp only [Queue.later, hitems, filter_erase_le hle, filter_cons_le hle]
    · rfl
  | finish id' =>
    obtain rfl : id' = id := Option.some.inj habout
    show (if _ then _ else _ : Queue).later n = q.later n
    split
    · simp only [Queue.later, Queue.finish, filter_erase_le hle]
    · rfl

lemma Consistent.apart (h : q.Consistent ∧ q.Ready) : q.Apart := by
  intro events event id habout hle
  exact (Consistent.run h events).1.later habout hle

/-! ### What is due runs out -/

lemma Consistent.pump_work (h : q.Consistent) : q.pump.work = q.work := by
  rcases pump_cases h.listed.ids with ⟨heq, -⟩ | ⟨item, hmem, hqueued, -, heq⟩
  · rw [heq]
  · rw [heq]
    have hcount := (start_counts h.listed.ids hmem hqueued).2.2
    have hcount' : (q.start item.id).items.countP Item.isQueued + 1 = q.items.countP Item.isQueued := hcount
    have hcalls : (q.start item.id).awaiting.length = q.awaiting.length + 1 := rfl
    have hfinishing : (q.start item.id).finishing = q.finishing := rfl
    have hmicrotasks : (q.start item.id).microtasks = q.microtasks := rfl
    unfold work
    rw [hcalls, hfinishing, hmicrotasks]
    omega

lemma fresh_work : q.fresh.work ≤ q.work := by
  unfold fresh
  split
  · exact Nat.le_refl _
  · show 3 * 0 + 3 * q.awaiting.length + 2 * q.finishing.length + q.microtasks ≤ q.work
    unfold work
    omega

lemma add_work (entries : List Nat) : (q.add entries).work = q.work + 3 * entries.length := by
  have hall : (newItems q.uploadSeq entries).countP Item.isQueued = entries.length := by
    have hlength : (newItems q.uploadSeq entries).length = entries.length := by
      have hids := congrArg List.length (newItems_ids entries q.uploadSeq)
      rwa [List.length_map, List.length_range'] at hids
    rw [← hlength, List.countP_eq_length]
    exact fun item hmem => decide_eq_true (newItems_queued entries _ item hmem)
  show 3 * (q.items ++ newItems q.uploadSeq entries).countP Item.isQueued + 3 * q.awaiting.length +
    2 * q.finishing.length + q.microtasks = q.work + 3 * entries.length
  rw [List.countP_append, hall]
  unfold work
  omega

lemma map_work {f : Item → Item} (hf : ∀ item ∈ q.items, item.Follows (f item)) :
    { q with items := q.items.map f }.work ≤ q.work := by
  have hcount := countP_map_le Item.isQueued fun item hmem => (hf item hmem).queued
  unfold work
  dsimp only
  omega

/-- What is due costs a step, and only what comes from outside brings new ones. -/
lemma Consistent.step_work (h : q.Consistent) (event : Event) :
    (q.step event).work + (if Due q event then 1 else 0) ≤ q.work + event.cost := by
  cases event with
  | enqueue entries =>
    rw [if_neg (show ¬ Due q (.enqueue entries) from fun hdue => hdue), Nat.add_zero]
    show (q.enqueue entries).work ≤ q.work + 3 * entries.length
    rw [enqueue_eq]
    split
    · exact Nat.le_add_right _ _
    · rw [(h.fresh.add entries).pump_work, add_work]
      exact Nat.add_le_add_right fresh_work _
  | cancelAll =>
    rw [if_neg (show ¬ Due q (.cancelAll) from fun hdue => hdue), Nat.add_zero]
    exact map_work (q := q) fun item _ => cancel_follows item
  | dismiss =>
    rw [if_neg (show ¬ Due q (.dismiss) from fun hdue => hdue), Nat.add_zero]
    show (if _ then _ else _ : Queue).work ≤ q.work
    split
    · exact Nat.le_refl _
    · show 3 * 0 + 3 * q.awaiting.length + 2 * q.finishing.length + q.microtasks ≤ q.work
      unfold work
      omega
  | progress id report =>
    rw [if_neg (show ¬ Due q (.progress id report) from fun hdue => hdue), Nat.add_zero]
    obtain ⟨patch, m, hgentle, heq⟩ := onProgress_cases (q := q) id report
    show (q.onProgress id report).work ≤ q.work + 1
    rw [heq]
    have hone : m ≤ 1 := by
      rcases hgentle.slot with rfl | ⟨rfl, -⟩
      · exact Nat.le_refl 1
      · exact Nat.zero_le 1
    have hitems : (q.patchItem id patch).work ≤ q.work := map_work fun item _ => hgentle.follows id item
    have hmore : { q.patchItem id patch with microtasks := q.microtasks + m }.work =
        (q.patchItem id patch).work + m := (Nat.add_assoc _ q.microtasks m).symm
    omega
  | answer id answer =>
    show (if id ∈ q.awaiting then _ else q : Queue).work + (if id ∈ q.awaiting then 1 else 0) ≤ q.work + 0
    split
    · case isTrue hcall =>
      obtain ⟨f, heq, hsettled⟩ := h.settle hcall answer
      rw [heq]
      have hitems := map_work hsettled.follows
      have hlength := List.length_erase_of_mem hcall
      have hpos := List.length_pos_of_mem hcall
      unfold work at hitems ⊢
      dsimp only at hitems ⊢
      rw [hlength, List.length_cons]
      omega
    · exact Nat.le_refl _
  | finish id =>
    show (if id ∈ q.finishing then _ else q : Queue).work + (if id ∈ q.finishing then 1 else 0) ≤ q.work + 0
    split
    · case isTrue hcall =>
      have hlength := List.length_erase_of_mem hcall
      have hpos := List.length_pos_of_mem hcall
      unfold work Queue.finish
      dsimp only
      rw [hlength]
      omega
    · exact Nat.le_refl _
  | microtask =>
    show (if 0 < q.microtasks then _ else q : Queue).work + (if 0 < q.microtasks then 1 else 0) ≤ q.work + 0
    split
    · case isTrue hpos =>
      have hless : { q with microtasks := q.microtasks - 1 }.Consistent := ⟨h.listed, h.called⟩
      rw [hless.pump_work]
      unfold work
      dsimp only
      omega
    · exact Nat.le_refl _

lemma Consistent.quiet (h : q.Consistent) (hready : q.Ready) (hnone : ∀ event, ¬ Due q event) :
    ∀ item ∈ q.items, item.status.ended = true := by
  have hidle : ∀ item ∈ q.items, item.status ≠ .uploading := by
    intro item hmem huploading
    exact hnone (.answer item.id .ok) (h.called.underway item hmem huploading).1
  have hcan : canStartSpool q.items = true := by
    refine canStartSpool_eq_true.mpr ⟨?_, ?_⟩
    · have hzero : q.items.countP Item.isUploading = 0 :=
        List.countP_eq_zero.mpr fun item hmem htrue => hidle item hmem (of_decide_eq_true htrue)
      rw [hzero]
      exact Nat.zero_lt_succ 1
    · have hzero : q.items.countP Item.isSpooling = 0 :=
        List.countP_eq_zero.mpr fun item hmem htrue => hidle item hmem (of_decide_eq_true htrue).1
      rw [hzero]
      exact Nat.zero_lt_succ 0
  intro item hmem
  cases hstatus : item.status with
  | queued =>
    cases hready ⟨item, hmem, hstatus⟩ hcan with
    | inl hmicrotask => exact absurd hmicrotask (hnone .microtask)
    | inr hfinishing =>
      obtain ⟨id, hid⟩ := List.exists_mem_of_ne_nil _ hfinishing
      exact absurd hid (hnone (.finish id))
  | uploading => exact absurd hstatus (hidle item hmem)
  | done | canceled | error => rfl

lemma Consistent.drains (h : q.Consistent ∧ q.Ready) : q.Drains := by
  intro events
  induction events generalizing q with
  | nil => exact ⟨Nat.zero_le _, h.1.quiet h.2⟩
  | cons event events ih =>
    obtain ⟨hbound, hend⟩ := ih (h.1.step h.2 event)
    have hstep := h.1.step_work event
    refine ⟨?_, hend⟩
    rw [dueCount, List.map_cons, List.sum_cons]
    omega

end Queue

/-- After every event of every run: one item at most is on its way to the server and two upload, no call is made
    twice, what has ended stays as it is, an upload has no say in the items enqueued after it, and a start that
    is allowed is pending or under way; what is due runs out, and then every item has ended. -/
theorem uploadQueue_sound (events : List Event) :
    Always Queue.step (fun q => q.Sound ∧ q.Final ∧ q.Apart ∧ q.Drains) Queue.empty events := by
  have hinv : Always Queue.step (fun q => q.Consistent ∧ q.Ready) Queue.empty events :=
    always_of_invariant (I := fun q : Queue => q.Consistent ∧ q.Ready)
      (fun q event h => h.1.step h.2 event) Queue.consistent_empty events
  exact hinv.mono fun q h => ⟨h.1.sound h.2, Queue.Consistent.final h, Queue.Consistent.apart h,
    Queue.Consistent.drains h⟩

end Sarca.Ui.UploadQueue
