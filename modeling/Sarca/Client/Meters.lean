import Sarca.Client.Transfer

/-!
# Meters of the transfer queue

An upload that has started to send has a counter in `meters`, under the id of its active entry. `complete`,
`abandon` and `clear_binding` take the counter away with the entry; `begin` and `enqueue_waiting` take away the
entry of the file that they queue again, and leave its counter. `meters_active_iff` says which runs keep the
counters to active entries.
-/

namespace Sarca.Client
open Sarca.Lib Sarca.Server

namespace TransferQueue

def IsActive (q : TransferQueue) (id : Uuid) : Prop :=
  ∃ item ∈ q.active, item.id = id

instance (q : TransferQueue) (id : Uuid) : Decidable (q.IsActive id) :=
  inferInstanceAs (Decidable (∃ item ∈ q.active, item.id = id))

def MetersActive (q : TransferQueue) : Prop :=
  ∀ id ∈ q.meters, q.IsActive id

/-- `meter` is called with the id of an active entry. -/
def MeterOfActive (q : TransferQueue) : Call → Prop
  | .meter id => q.IsActive id
  | _ => True

def Unmetered (q : TransferQueue) (key : WaitingKey) : Prop :=
  ∀ item ∈ q.active, keyOf item = key → item.id ∉ q.meters

/-- A file that is queued again has no active entry with a meter. -/
def QueuesUnmetered (q : TransferQueue) : Call → Prop
  | .begin bindingId direction relativePath _ _ => q.Unmetered (keyAt bindingId direction relativePath)
  | .enqueueWaiting bindingId direction relativePath _ _ => q.Unmetered (keyAt bindingId direction relativePath)
  | _ => True

instance (q : TransferQueue) (call : Call) : Decidable (q.MeterOfActive call) := by
  cases call <;> unfold MeterOfActive <;> infer_instance

instance (q : TransferQueue) (key : WaitingKey) : Decidable (q.Unmetered key) :=
  inferInstanceAs (Decidable (∀ item ∈ q.active, _))

instance (q : TransferQueue) (call : Call) : Decidable (q.QueuesUnmetered call) := by
  cases call <;> unfold QueuesUnmetered <;> infer_instance

variable {q q' : TransferQueue}

lemma empty_metersActive : empty.MetersActive := by
  intro id hid
  exact absurd hid (AList.notMem_empty id)

lemma MetersActive.mono (h : q.MetersActive) (hmeters : ∀ id ∈ q'.meters, id ∈ q.meters)
    (hactive : ∀ id ∈ q'.meters, q.IsActive id → q'.IsActive id) : q'.MetersActive :=
  fun id hid => hactive id hid (h id (hmeters id hid))

lemma metersActive_dropped {key : WaitingKey} (new : List TransferItem) (hq : q.Invariant) (h : q.MetersActive)
    (hactive : q'.active = q.active.filter (keyOf · ≠ key) ++ new) (hnew : ∀ item ∈ new, item.id = q.nextId)
    (hmeters : q'.meters = q.meters) : q'.MetersActive ↔ q.Unmetered key := by
  constructor
  · intro h' item hitem hkey hmeter
    obtain ⟨found, hfound, hid⟩ := h' item.id (hmeters ▸ hmeter)
    rw [hactive] at hfound
    rcases List.mem_append.mp hfound with hfound | hfound
    · obtain ⟨hmem, hother⟩ := List.mem_filter.mp hfound
      obtain rfl := List.inj_on_of_nodup_map hq.ids_append.1 hmem hitem hid
      exact of_decide_eq_true hother hkey
    · have hdrawn := hq.drawn item (List.mem_append_left _ hitem)
      rw [← hid, hnew found hfound] at hdrawn
      exact absurd hdrawn (Nat.lt_irrefl _)
  · intro hfree id hid
    rw [hmeters] at hid
    obtain ⟨item, hitem, rfl⟩ := h id hid
    refine ⟨item, ?_, rfl⟩
    rw [hactive]
    refine List.mem_append_left _ (List.mem_filter.mpr ⟨hitem, decide_eq_true fun hkey => ?_⟩)
    exact hfree item hitem hkey hid

lemma begin_metersActive (hq : q.Invariant) (h : q.MetersActive) (b : BindingId) (d : TransferDirection)
    (p : Path) (size : Option Int64) (now : Int64) :
    (q.begin b d p size now).2.MetersActive ↔ q.Unmetered (keyAt b d p) := by
  obtain ⟨-, -, helse⟩ := dropKey_spec hq (keyAt b d p)
  have hactive : (q.dropKey (keyAt b d p)).active = q.active.filter (keyOf · ≠ keyAt b d p) := helse.active
  have hnext : (q.dropKey (keyAt b d p)).nextId = q.nextId := helse.next
  refine metersActive_dropped [newItem q.nextId (keyAt b d p) size .active now] hq h ?_ ?_ helse.meters
  · show (q.dropKey (keyAt b d p)).active ++ [_] = _
    rw [hactive, hnext]
  · intro item hitem
    rw [List.mem_singleton.mp hitem]
    rfl

lemma enqueueWaiting_metersActive (hq : q.Invariant) (h : q.MetersActive) (b : BindingId)
    (d : TransferDirection) (p : Path) (size : Option Int64) (now : Int64) :
    (q.enqueueWaiting b d p size now).2.MetersActive ↔ q.Unmetered (keyAt b d p) := by
  obtain ⟨-, -, helse⟩ := dropKey_spec hq (keyAt b d p)
  refine metersActive_dropped [] hq h ?_ (fun _ hitem => absurd hitem List.not_mem_nil) helse.meters
  rw [List.append_nil]
  exact helse.active

lemma promote_metersActive (hq : q.Invariant) (h : q.MetersActive) (id : Uuid) (now : Int64) :
    (q.promote id now).2.MetersActive := by
  have hcase := waitingRemoveById_case hq.indexed id
  unfold promote
  generalize q.waitingRemoveById id = res at hcase
  cases hcase with
  | absent => exact h
  | found item q' _ _ _ helse =>
    refine h.mono (fun i hi => helse.meters ▸ hi) fun i _ => ?_
    rintro ⟨active, hactive, hid⟩
    exact ⟨active, List.mem_append_left _ (helse.active ▸ hactive), hid⟩

lemma MetersActive.erase {id : Uuid} (h : q.MetersActive) (hactive : q'.active = q.active.filter (·.id ≠ id))
    (hmeters : q'.meters = q.meters.erase id) : q'.MetersActive := by
  have hmem : ∀ i ∈ q'.meters, i ≠ id ∧ i ∈ q.meters := fun i hi => AList.mem_erase.mp (hmeters ▸ hi)
  refine h.mono (fun i hi => (hmem i hi).2) fun i hi => ?_
  rintro ⟨item, hitem, rfl⟩
  refine ⟨item, ?_, rfl⟩
  rw [hactive]
  exact List.mem_filter.mpr ⟨hitem, decide_eq_true (hmem item.id hi).1⟩

lemma complete_meters (hq : q.Invariant) (id : Uuid) (now : Int64) :
    (q.complete id now).meters = q.meters.erase id := by
  have hcase := takeActiveOrWaiting_case (q := { q with meters := q.meters.erase id }) { hq with } id
  simp only [complete]
  generalize { q with meters := q.meters.erase id }.takeActiveOrWaiting id = res at hcase
  cases hcase with
  | absent => rfl
  | found item q' _ _ _ _ helse =>
    have hmeters : q'.meters = q.meters.erase id := helse.meters
    dsimp only
    split
    · exact hmeters
    · exact hmeters

lemma abandon_meters (hq : q.Invariant) (id : Uuid) : (q.abandon id).meters = q.meters.erase id := by
  have hcase := waitingRemoveById_case
    (q := { q with meters := q.meters.erase id, active := q.active.filter fun i => i.id ≠ id }) hq.indexed id
  obtain ⟨-, -, helse⟩ := hcase.leaves hq.indexed hq.by_id.nodup
  exact helse.meters

lemma clearBinding_metersActive (b : BindingId) : (q.clearBinding b).MetersActive := by
  intro id hid
  obtain ⟨v, hv⟩ := Option.isSome_iff_exists.mp (AList.lookup_isSome.mpr hid)
  have hkept : ¬(!(q.clearBinding b).active.any (·.id = id)) = true := by
    intro hgone
    have hnone := lookup_discard (fun id => !(q.clearBinding b).active.any (·.id = id)) q.meters id
    rw [if_pos hgone] at hnone
    exact absurd (hv.symm.trans hnone) (by simp)
  simp only [Bool.not_eq_true', Bool.not_eq_false, List.any_eq_true, decide_eq_true_eq] at hkept
  exact hkept

lemma mem_meter {id i : Uuid} : i ∈ (q.meter id).meters ↔ i = id ∨ i ∈ q.meters := by
  unfold meter
  split
  · case h_1 v hsome =>
    refine ⟨Or.inr, ?_⟩
    rintro (rfl | hi)
    · exact AList.lookup_isSome.mp (by rw [hsome]; rfl)
    · exact hi
  · exact AList.mem_insert _

lemma meter_metersActive (h : q.MetersActive) (id : Uuid) : (q.meter id).MetersActive ↔ q.IsActive id := by
  have hactive : (q.meter id).active = q.active := by rw [meter_frame]
  unfold MetersActive IsActive at *
  rw [hactive]
  constructor
  · intro h'
    exact h' id (mem_meter.mpr (Or.inl rfl))
  · intro hid i hi
    rcases mem_meter.mp hi with rfl | hi
    · exact hid
    · exact h i hi

lemma step_metersActive {call : Call} (hq : q.Invariant) (h : q.MetersActive) :
    (q.step call).MetersActive ↔ q.MeterOfActive call ∧ q.QueuesUnmetered call := by
  cases call with
  | begin b d p size now => exact (begin_metersActive hq h b d p size now).trans (and_iff_right trivial).symm
  | enqueueWaiting b d p size now =>
    exact (enqueueWaiting_metersActive hq h b d p size now).trans (and_iff_right trivial).symm
  | promote id now => exact iff_of_true (promote_metersActive hq h id now) ⟨trivial, trivial⟩
  | complete id now =>
    refine iff_of_true ?_ ⟨trivial, trivial⟩
    exact h.erase (complete_spec hq id now).1.active (complete_meters hq id now)
  | abandon id =>
    refine iff_of_true ?_ ⟨trivial, trivial⟩
    exact h.erase (abandon_spec hq id).1.active (abandon_meters hq id)
  | clearBinding b => exact iff_of_true (clearBinding_metersActive b) ⟨trivial, trivial⟩
  | meter id => exact (meter_metersActive h id).trans (and_iff_left trivial).symm

/-- In a run that meters active transfers only, the meters are those of active transfers all the time exactly
    when no call queues a file again whose active transfer has a meter. -/
theorem meters_active_iff (calls : List Call) (hmeter : AllOk step MeterOfActive empty calls) :
    Always step MetersActive empty calls ↔ AllOk step QueuesUnmetered empty calls := by
  have hexact : Always step MetersActive empty calls ↔
      AllOk step (fun q call => q.MeterOfActive call ∧ q.QueuesUnmetered call) empty calls :=
    always_iff_allOk (fun q call hq _ => step_invariant q call hq) (fun q call hq h => step_metersActive hq h)
      empty_invariant empty_metersActive
  rw [hexact]
  exact ⟨fun h => h.mono fun q call hok => hok.2, fun h => allOk_and hmeter h⟩

/-- An upload has started to send when its file is queued again. -/
def queuedAgain : List Call :=
  [.begin "b" .upload "a.jpg".toList (some 9) 0, .meter 0, .enqueueWaiting "b" .upload "a.jpg".toList (some 9) 1]

/-- The meter stays without its entry. -/
theorem queuedAgain_leaks : AllOk step MeterOfActive empty queuedAgain ∧
    0 ∈ (run step empty queuedAgain).meters ∧ ¬(run step empty queuedAgain).IsActive 0 := by
  decide +kernel

def metered : List Call :=
  [.begin "b" .upload "a.jpg".toList (some 9) 0, .meter 0, .complete 0 1]

theorem metered_metersActive : Always step MetersActive empty metered :=
  (meters_active_iff metered ⟨trivial, by decide, trivial, trivial⟩).mpr ⟨by decide, trivial, trivial, trivial⟩

end TransferQueue
end Sarca.Client
