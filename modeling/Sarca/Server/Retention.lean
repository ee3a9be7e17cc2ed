import Sarca.Server.PurgeQueue

/-!
# How long the trash keeps its rows

`TrashPurgeService::run_once` reads how many days a row stays in the trash, asks `list_expired_trashed_ids`
for the rows that have been there for longer and purges these for good. `deleted_at` is a text of SQLite, the
moment it is compared with one of chrono, and so the days are compared and not the moments
(`datetimeText_lt_rfc3339Text`): every row that was trashed on the day of that moment has expired.
`listExpiredTrashedIds_exact_iff` says when the right rows are listed.
-/

namespace Sarca.Server
open Sarca.Lib

/-- What `TRASH_RETENTION_DAYS_KEY` holds, brought between `MIN_TRASH_RETENTION_DAYS` and
    `MAX_TRASH_RETENTION_DAYS` (Rust `get_trash_retention_days`). -/
def trashRetentionDays (stored : Int) : Nat :=
  (max 1 (min stored 30)).toNat

/-- `days` in nanoseconds (Rust `ChronoDuration::days`). -/
abbrev ofDays (days : Nat) : Nat :=
  days * 86400 * second

/-- `Utc::now() - ChronoDuration::days(days)`, from 1970 on: nothing was trashed before. -/
def retentionCutoff (now : UtcTime) (days : Nat) : Nat :=
  now.nanos - ofDays days

/-- `deleted_at IS NOT NULL AND deleted_at < $1`: `deleted_at` is a text of SQLite and the bound is one of
    chrono, and they compare as texts. -/
def FileRow.Expired (r : FileRow) (cutoff : Nat) : Prop :=
  ∃ t ∈ r.deletedAt, datetimeText (t.toNat * second) < rfc3339Text cutoff

instance FileRow.Expired.decidable (r : FileRow) (cutoff : Nat) : Decidable (r.Expired cutoff) :=
  inferInstanceAs (Decidable (∃ t ∈ r.deletedAt, _))

namespace Db

/-- The trashed rows that are to go, with their storages (Rust `list_expired_trashed_ids`). -/
def listExpiredTrashedIds (db : Db) (now : UtcTime) (olderThanDays : Nat) : List (Uuid × Uuid) :=
  (db.files.filter fun r => r.Expired (retentionCutoff now olderThanDays)).map fun r => (r.id, r.storageId)

/-- The rows a round of the sweep purges (Rust `run_once`). -/
def expiredIds (db : Db) (now : UtcTime) (stored : Int) : List Uuid :=
  (db.listExpiredTrashedIds now (trashRetentionDays stored)).map Prod.fst

/-- The rows went to the trash at the moments told (Rust `delete` sets `deleted_at = datetime('now')`). -/
def TrashedAt (db : Db) (deletion : Uuid → UtcTime) : Prop :=
  ∀ r ∈ db.files, ¬r.Live → r.deletedAt = some (datetimeNow (deletion r.id))

instance TrashedAt.decidable (db : Db) (deletion : Uuid → UtcTime) : Decidable (db.TrashedAt deletion) :=
  inferInstanceAs (Decidable (∀ r ∈ db.files, _))

end Db

/-- More than so many days have passed between two moments. -/
def OverAfter (deleted now : UtcTime) (days : Nat) : Prop :=
  deleted.nanos + ofDays days < now.nanos

/-- The row was trashed on the day of the cutoff, and not before it. -/
def OnLastDay (deleted now : UtcTime) (days : Nat) : Prop :=
  dayOf deleted.nanos = dayOf (retentionCutoff now days) ∧ retentionCutoff now days ≤ deleted.nanos

instance OverAfter.decidable (deleted now : UtcTime) (days : Nat) : Decidable (OverAfter deleted now days) :=
  inferInstanceAs (Decidable (_ < _))

instance OnLastDay.decidable (deleted now : UtcTime) (days : Nat) : Decidable (OnLastDay deleted now days) :=
  inferInstanceAs (Decidable (_ ∧ _))

variable {db : Db} {deletion : Uuid → UtcTime} {r : FileRow} {deleted now : UtcTime} {days : Nat}

lemma trashRetentionDays_mem (stored : Int) :
    1 ≤ trashRetentionDays stored ∧ trashRetentionDays stored ≤ 30 := by
  unfold trashRetentionDays
  omega

lemma expired_iff (hdeleted : r.deletedAt = some (datetimeNow deleted)) :
    r.Expired (retentionCutoff now days) ↔ dayOf deleted.nanos ≤ dayOf (retentionCutoff now days) := by
  have hcutoff : InCalendar (retentionCutoff now days) := now.inCalendar.mono (Nat.sub_le _ _)
  unfold FileRow.Expired datetimeNow at *
  rw [hdeleted]
  simp only [Option.mem_def, Option.some.injEq, exists_eq_left', Int.toNat_natCast]
  rw [datetimeText_lt_rfc3339Text deleted.inCalendar.second hcutoff, dayOf_second]

lemma overAfter_iff :
    OverAfter deleted now days ↔
      dayOf deleted.nanos ≤ dayOf (retentionCutoff now days) ∧ ¬OnLastDay deleted now days := by
  have hfirst := deleted.day_le
  unfold OverAfter OnLastDay retentionCutoff dayOf ofDays second at *
  omega

lemma expired_exact_iff (hdeleted : r.deletedAt = some (datetimeNow deleted)) :
    (r.Expired (retentionCutoff now days) ↔ OverAfter deleted now days) ↔ ¬OnLastDay deleted now days := by
  rw [expired_iff hdeleted, overAfter_iff]
  have hday (h : OnLastDay deleted now days) :
      dayOf deleted.nanos ≤ dayOf (retentionCutoff now days) := Nat.le_of_eq h.1
  tauto

lemma FileRow.Expired.not_live {cutoff : Nat} (h : r.Expired cutoff) : ¬r.Live := by
  obtain ⟨t, ht, -⟩ := h
  intro hlive
  rw [hlive] at ht
  cases ht

/-- The rows are listed that were trashed more than `days` days ago and no others, unless one was trashed
    late on the last day. -/
theorem listExpiredTrashedIds_exact_iff (deletion : Uuid → UtcTime) (hwf : db.Wf)
    (htrashed : db.TrashedAt deletion) :
    (∀ id storageId, (id, storageId) ∈ db.listExpiredTrashedIds now days ↔
      ∃ r ∈ db.files, (r.id, r.storageId) = (id, storageId) ∧ ¬r.Live ∧ OverAfter (deletion r.id) now days) ↔
    ∀ r ∈ db.files, ¬r.Live → ¬OnLastDay (deletion r.id) now days := by
  simp only [Db.listExpiredTrashedIds, List.mem_map, List.mem_filter, decide_eq_true_eq]
  constructor
  · intro h r hr hgone
    rw [← expired_exact_iff (htrashed r hr hgone)]
    constructor
    · intro hexpired
      obtain ⟨r', hr', hsame, -, hover⟩ := (h r.id r.storageId).mp ⟨r, ⟨hr, hexpired⟩, rfl⟩
      obtain rfl : r' = r := hwf.idUnique r' hr' r hr (Prod.mk.inj hsame).1
      exact hover
    · intro hover
      obtain ⟨r', ⟨hr', hexpired⟩, hsame⟩ := (h r.id r.storageId).mpr ⟨r, hr, rfl, hgone, hover⟩
      obtain rfl : r' = r := hwf.idUnique r' hr' r hr (Prod.mk.inj hsame).1
      exact hexpired
  · intro h id storageId
    constructor
    · rintro ⟨r, ⟨hr, hexpired⟩, hsame⟩
      have hgone := hexpired.not_live
      exact ⟨r, hr, hsame, hgone, (expired_exact_iff (htrashed r hr hgone)).mpr (h r hr hgone) |>.mp hexpired⟩
    · rintro ⟨r, hr, hsame, hgone, hover⟩
      exact ⟨r, ⟨hr, (expired_exact_iff (htrashed r hr hgone)).mpr (h r hr hgone) |>.mpr hover⟩, hsame⟩

/-! ## A file that was trashed in the afternoon -/

def thatAfternoon : UtcTime where
  nanos := 1790000000 * second
  day_le := by decide
  inCalendar := by decide +kernel

/-- 2026-10-21 00:13:20, when 29 days and ten hours have passed -/
def monthLaterAtNight : UtcTime where
  nanos := (1790000000 + 30 * 86400 - 14 * 3600) * second
  day_le := by decide
  inCalendar := by decide +kernel

def nextNight : UtcTime where
  nanos := (1790000000 + 31 * 86400 - 14 * 3600) * second
  day_le := by decide
  inCalendar := by decide +kernel

def oneTrashed : Db :=
  { Db.fresh [⟨1, 0⟩] with
    files := [((InFile.new ['a'] 5 1).toRow 7 true).withDeletedAt (some (datetimeNow thatAfternoon))] }

lemma oneTrashed_wf : oneTrashed.Wf where
  idUnique := by simp [oneTrashed]
  aliveUnique := by simp [oneTrashed]
  storageExists := by decide
  eventsGrow := List.Pairwise.nil
  eventsSeen := fun _ he => absurd he List.not_mem_nil

/-- A day later the file is listed, as it should be. -/
theorem oneTrashed_listed :
    (7, 1) ∈ oneTrashed.listExpiredTrashedIds nextNight 30 ↔
      ∃ r ∈ oneTrashed.files, (r.id, r.storageId) = (7, 1) ∧ ¬r.Live ∧ OverAfter thatAfternoon nextNight 30 :=
  (listExpiredTrashedIds_exact_iff (fun _ => thatAfternoon) oneTrashed_wf (by decide)).mpr (by decide) 7 1

/-- It is listed ten hours before thirty days have passed. -/
theorem oneTrashed_listed_early :
    oneTrashed.TrashedAt (fun _ => thatAfternoon) ∧
      (7, 1) ∈ oneTrashed.listExpiredTrashedIds monthLaterAtNight (trashRetentionDays 30) ∧
      ¬OverAfter thatAfternoon monthLaterAtNight (trashRetentionDays 30) := by
  decide +kernel

end Sarca.Server
