import Mathlib.Data.List.Sort
import Sarca.Lib.Saturating
import Sarca.Lib.Shed
import Sarca.Server.Rows

/-!
# Evicting cached pictures

`MediaCache` keeps files in a directory and tells by their modification times when they were used last. `put`
ends with `ensure_under_limit`, and this with `evict_oldest`, which the chunk cache shares: a pass reads the
directory, and where its files have more bytes than the target it deletes the oldest ones until they have no
more; it passes over those inside a grace window and those that cannot be deleted.

The target of a pass is also what starts it: `ensure_under_limit` hands on `limit - min_evict` alone.
`evictsWell_iff` says for which contents a pass deletes what it should.
-/

namespace Sarca.Server
open Sarca.Lib

/-- A file of the cache; times are in nanoseconds. -/
structure CacheEntry where
  path : Path
  size : UInt64
  modified : Int
deriving DecidableEq, Repr

def totalSize (entries : List CacheEntry) : Nat :=
  weight (fun entry => entry.size.toNat) entries

/-- The files of a cache directory, in the order in which it is read. -/
structure CacheDir where
  entries : List CacheEntry
  /-- A directory has one file of a name. -/
  distinct : (entries.map (·.path)).Nodup
  /-- No file system holds more. -/
  fits : totalSize entries ≤ maxWord

/-- The least `SystemTime`: its seconds are an `i64`. -/
def minSystemTime : Int :=
  -9223372036854775808 * 1000000000

/-- `SystemTime::now().checked_sub(grace).unwrap_or(SystemTime::UNIX_EPOCH)` -/
def graceCutoff (now : Int) (grace : Nat) : Int :=
  if now - grace < minSystemTime then 0 else now - grace

/-- How the file system answers a pass: whether the directory and all metadata are read, and which files
    `remove_file` deletes. -/
structure CacheIo where
  readable : Bool
  removes : CacheEntry → Bool

/-- The loop of `evict_oldest`: the files that it deletes, in order. -/
def evictLoop (removes : CacheEntry → Bool) (cutoff : Int) (limit : UInt64) :
    UInt64 → List CacheEntry → List CacheEntry
  | _, [] => []
  | total, entry :: entries =>
    if total ≤ limit then []
    else if cutoff < entry.modified then evictLoop removes cutoff limit total entries
    else if removes entry then
      entry :: evictLoop removes cutoff limit (satSub total entry.size) entries
    else evictLoop removes cutoff limit total entries

/-- The files that `evict_oldest` deletes, in order. -/
def evictOldest (dir : CacheDir) (limit : UInt64) (grace : Nat) (now : Int) (io : CacheIo) : List CacheEntry :=
  if io.readable then
    let total := satSum (dir.entries.map (·.size))
    if total ≤ limit then []
    else evictLoop io.removes (graceCutoff now grace) limit total
      (dir.entries.insertionSort fun a b => a.modified ≤ b.modified)
  else []

/-- Rust `ensure_under_limit`. -/
def ensureUnderLimit (dir : CacheDir) (limit minEvict : UInt64) (now : Int) (io : CacheIo) : List CacheEntry :=
  evictOldest dir (satSub limit minEvict) 0 now io

structure CachePut (dir : CacheDir) where
  entry : CacheEntry
  /-- Whether the root is there or made, the bytes are written, and the file gets its name. -/
  created : Bool
  written : Bool
  renamed : Bool
  /-- The directory as the pass finds it. -/
  stored : CacheDir
  holds : stored.entries.Perm (dir.entries.filter (·.path ≠ entry.path) ++ [entry])

/-- The files that `put` evicts, if it comes to that. -/
def CachePut.put {dir : CacheDir} (p : CachePut dir) (limit evict : UInt64) (now : Int) (io : CacheIo) :
    Option (List CacheEntry) :=
  if !p.created then none
  else if !p.written then none
  else if !p.renamed then none
  else some (ensureUnderLimit p.stored limit evict now io)

/-! ## What a pass should delete -/

namespace CacheDir

variable (dir : CacheDir)

def left (deleted : List CacheEntry) : List CacheEntry :=
  dir.entries.filter (· ∉ deleted)

/-- A pass deletes nothing while the files are within the limit. Once they are over it, it deletes unprotected
    ones, in the order of their last use, until what is left is no more than the limit less the step or all of
    it is protected; and what it leaves was used no earlier than what it deletes. -/
structure EvictsWell (limit minEvict : UInt64) (grace : Nat) (now : Int)
    (deleted : List CacheEntry) : Prop where
  idle : totalSize dir.entries ≤ limit.toNat → deleted = []
  enough : limit.toNat < totalSize dir.entries →
    totalSize (dir.left deleted) ≤ limit.toNat - minEvict.toNat ∨
      ∀ e ∈ dir.left deleted, graceCutoff now grace < e.modified
  ordered : deleted.Pairwise fun a b => a.modified ≤ b.modified
  needed : ∀ earlier e, earlier ++ [e] <+: deleted →
    limit.toNat - minEvict.toNat < totalSize (dir.left earlier)
  unprotected : ∀ e ∈ deleted, e ∈ dir.entries ∧ e.modified ≤ graceCutoff now grace
  oldest : ∀ e ∈ dir.left deleted, e.modified ≤ graceCutoff now grace → ∀ d ∈ deleted, d.modified ≤ e.modified

def evictable (cutoff : Int) (io : CacheIo) : List CacheEntry :=
  dir.entries.filter fun e => e.modified ≤ cutoff ∧ io.readable ∧ io.removes e

/-- When a pass does so: its target is kept already; or the limit is kept and there is nothing to delete; or the
    limit is not kept, and for each unprotected file that stays those used no later suffice. -/
def Evicts (limit minEvict : UInt64) (grace : Nat) (now : Int) (io : CacheIo) : Prop :=
  let target := limit.toNat - minEvict.toNat
  let evictable := dir.evictable (graceCutoff now grace) io
  totalSize dir.entries ≤ target ∨
    totalSize dir.entries ≤ limit.toNat ∧ evictable = [] ∨
    limit.toNat < totalSize dir.entries ∧ ∀ e ∈ dir.entries, e.modified ≤ graceCutoff now grace →
      e ∉ evictable → totalSize dir.entries ≤ target + totalSize (evictable.filter (·.modified ≤ e.modified))

end CacheDir

/-! ## What a pass deletes -/

/-- The files that a pass can delete, oldest first. -/
def CacheDir.queue (dir : CacheDir) (cutoff : Int) (io : CacheIo) : List CacheEntry :=
  (dir.entries.insertionSort fun a b => a.modified ≤ b.modified).filter fun e =>
    e.modified ≤ cutoff ∧ io.readable ∧ io.removes e

lemma evictLoop_eq (removes : CacheEntry → Bool) (cutoff : Int) (limit total : UInt64) (l : List CacheEntry) :
    evictLoop removes cutoff limit total l = shed (fun e => e.size.toNat) limit.toNat total.toNat
      (l.filter fun e => e.modified ≤ cutoff ∧ removes e) := by
  induction l generalizing total with
  | nil => rfl
  | cons e l ih =>
    unfold evictLoop
    split
    · case isTrue hle => exact (shed_of_le _ (UInt64.le_iff_toNat_le.mp hle) _).symm
    · case isFalse hlt =>
      have hlt' : ¬total.toNat ≤ limit.toNat := fun hle => hlt (UInt64.le_iff_toNat_le.mpr hle)
      split
      · case isTrue hyoung =>
        rw [ih, List.filter_cons, if_neg]
        exact fun hold => absurd (of_decide_eq_true hold).1 (Int.not_le.mpr hyoung)
      · case isFalse hold =>
        split
        · case isTrue hremoves =>
          rw [ih, List.filter_cons, if_pos (decide_eq_true ⟨Int.not_lt.mp hold, hremoves⟩), shed, if_neg hlt',
            toNat_satSub]
        · case isFalse hkeeps =>
          rw [ih, List.filter_cons, if_neg]
          exact fun hremoves => hkeeps (of_decide_eq_true hremoves).2

namespace CacheDir

variable {dir : CacheDir} {limit minEvict : UInt64} {grace : Nat} {now : Int} {io : CacheIo}

lemma toNat_satSum_sizes (dir : CacheDir) :
    (satSum (dir.entries.map (·.size))).toNat = totalSize dir.entries := by
  have hsum : ((dir.entries.map (·.size)).map UInt64.toNat).sum = totalSize dir.entries := by
    rw [List.map_map]
    rfl
  rw [toNat_satSum, hsum]
  exact Nat.min_eq_left dir.fits

lemma evictOldest_eq (dir : CacheDir) (limit : UInt64) (grace : Nat) (now : Int) (io : CacheIo) :
    evictOldest dir limit grace now io = shed (fun e => e.size.toNat) limit.toNat (totalSize dir.entries)
      (dir.queue (graceCutoff now grace) io) := by
  unfold evictOldest
  split
  · case isTrue hreadable =>
    dsimp only
    split
    · case isTrue hle =>
      rw [shed_of_le]
      exact dir.toNat_satSum_sizes ▸ UInt64.le_iff_toNat_le.mp hle
    · rw [evictLoop_eq, toNat_satSum_sizes]
      simp only [queue, hreadable, true_and]
  · case isFalse hunread =>
    have hqueue : dir.queue (graceCutoff now grace) io = [] :=
      List.filter_eq_nil_iff.mpr fun _ _ he => hunread (of_decide_eq_true he).2.1
    rw [hqueue]
    rfl

lemma nodup (dir : CacheDir) : dir.entries.Nodup :=
  .of_map _ dir.distinct

lemma queue_perm (dir : CacheDir) (cutoff : Int) (io : CacheIo) :
    (dir.queue cutoff io).Perm (dir.evictable cutoff io) :=
  (List.perm_insertionSort _ dir.entries).filter _

lemma queue_sorted (dir : CacheDir) (cutoff : Int) (io : CacheIo) :
    (dir.queue cutoff io).Pairwise fun a b => a.modified ≤ b.modified := by
  apply List.Pairwise.filter
  have : Std.Total fun a b : CacheEntry => a.modified ≤ b.modified := ⟨fun _ _ => Int.le_total _ _⟩
  have : IsTrans CacheEntry fun a b => a.modified ≤ b.modified := ⟨fun _ _ _ => Int.le_trans⟩
  exact List.pairwise_insertionSort _ dir.entries

lemma mem_queue {cutoff : Int} {e : CacheEntry} :
    e ∈ dir.queue cutoff io ↔ e ∈ dir.evictable cutoff io :=
  (dir.queue_perm cutoff io).mem_iff

lemma mem_evictable {cutoff : Int} {e : CacheEntry} :
    e ∈ dir.evictable cutoff io ↔
      e ∈ dir.entries ∧ e.modified ≤ cutoff ∧ io.readable ∧ io.removes e := by
  rw [evictable, List.mem_filter, decide_eq_true_iff]

lemma mem_left {deleted : List CacheEntry} {e : CacheEntry} :
    e ∈ dir.left deleted ↔ e ∈ dir.entries ∧ e ∉ deleted := by
  rw [left, List.mem_filter, decide_eq_true_iff]

lemma totalSize_left {deleted : List CacheEntry} (hnodup : deleted.Nodup)
    (hmem : ∀ e ∈ deleted, e ∈ dir.entries) :
    totalSize deleted + totalSize (dir.left deleted) = totalSize dir.entries := by
  have hperm : (dir.entries.filter (· ∈ deleted)).Perm deleted := by
    refine (List.perm_ext_iff_of_nodup (dir.nodup.filter _) hnodup).mpr fun e => ?_
    rw [List.mem_filter, decide_eq_true_iff]
    exact ⟨And.right, fun he => ⟨hmem e he, he⟩⟩
  have hparts := weight_filter_add (fun e : CacheEntry => e.size.toNat) (· ∈ deleted) dir.entries
  rw [weight_perm _ hperm] at hparts
  have hleft : dir.left deleted = dir.entries.filter fun e => !decide (e ∈ deleted) :=
    List.filter_congr fun e _ => decide_not
  rw [hleft]
  exact hparts

lemma totalSize_left_front {front : List CacheEntry} {cutoff : Int} (h : front <+: dir.queue cutoff io) :
    totalSize front + totalSize (dir.left front) = totalSize dir.entries := by
  apply totalSize_left
  · exact h.sublist.nodup ((dir.queue_perm cutoff io).nodup_iff.mpr (dir.nodup.filter _))
  · intro e he
    exact (mem_evictable.mp (mem_queue.mp (h.subset he))).1

lemma EvictsWell.nil (h : totalSize dir.entries ≤ limit.toNat) :
    dir.EvictsWell limit minEvict grace now [] where
  idle _ := rfl
  enough hlt := absurd h (Nat.not_le.mpr hlt)
  ordered := .nil
  needed earlier e hbegins := by
    exact absurd (List.prefix_nil.mp hbegins) (List.append_ne_nil_of_right_ne_nil _ (List.cons_ne_nil e []))
  unprotected e he := absurd he List.not_mem_nil
  oldest e _ _ d hd := absurd hd List.not_mem_nil

end CacheDir

/-! ## When it is what it should delete -/

namespace CacheDir

variable (dir : CacheDir) (limit minEvict : UInt64) (grace : Nat) (now : Int) (io : CacheIo)

/-- The files that a pass to the target deletes. -/
def evicted : List CacheEntry :=
  shed (fun e => e.size.toNat) (limit.toNat - minEvict.toNat) (totalSize dir.entries)
    (dir.queue (graceCutoff now grace) io)

lemma evicted_begins :
    dir.evicted limit minEvict grace now io <+: dir.queue (graceCutoff now grace) io :=
  shed_begins _ _ _ _

variable {dir limit minEvict grace now io}

lemma queue_filter_begins (cutoff : Int) (e : CacheEntry) :
    (dir.queue cutoff io).filter (·.modified ≤ e.modified) <+: dir.queue cutoff io :=
  filter_begins (dir.queue_sorted cutoff io) e.modified

lemma totalSize_evictable_filter (cutoff : Int) (e : CacheEntry) :
    totalSize ((dir.evictable cutoff io).filter (·.modified ≤ e.modified)) =
      totalSize ((dir.queue cutoff io).filter (·.modified ≤ e.modified)) :=
  (weight_perm _ ((dir.queue_perm cutoff io).filter _)).symm

lemma EvictsWell.evicts
    (h : dir.EvictsWell limit minEvict grace now (dir.evicted limit minEvict grace now io)) :
    dir.Evicts limit minEvict grace now io := by
  rcases Nat.lt_or_ge (limit.toNat - minEvict.toNat) (totalSize dir.entries) with htarget | htarget
  swap
  · exact .inl htarget
  refine .inr ?_
  rcases Nat.lt_or_ge limit.toNat (totalSize dir.entries) with hlimit | hlimit
  · refine .inr ⟨hlimit, fun e he hold hstays => ?_⟩
    have hleft : e ∈ dir.left (dir.evicted limit minEvict grace now io) := by
      refine mem_left.mpr ⟨he, fun hdeleted => hstays ?_⟩
      exact mem_queue.mp ((dir.evicted_begins limit minEvict grace now io).subset hdeleted)
    have henough := (h.enough hlimit).resolve_right fun hall => Int.not_lt.mpr hold (hall e hleft)
    -- all that is deleted is no younger than the file that stays
    have hfront : dir.evicted limit minEvict grace now io <+:
        (dir.queue (graceCutoff now grace) io).filter (·.modified ≤ e.modified) := by
      have hbegins := (dir.evicted_begins limit minEvict grace now io).filter (·.modified ≤ e.modified)
      rwa [List.filter_eq_self.mpr fun d hd => decide_eq_true (h.oldest e hleft hold d hd)] at hbegins
    have hparts := totalSize_left_front (dir.evicted_begins limit minEvict grace now io)
    have hle := weight_le_of_begins (fun e : CacheEntry => e.size.toNat) hfront
    rw [totalSize_evictable_filter]
    unfold totalSize at *
    omega
  · refine .inl ⟨hlimit, List.eq_nil_iff_forall_not_mem.mpr fun e he => ?_⟩
    have hnone := h.idle hlimit
    unfold evicted at hnone
    cases hqueue : dir.queue (graceCutoff now grace) io with
    | nil => exact List.not_mem_nil (hqueue ▸ mem_queue.mpr he)
    | cons d queue =>
      rw [hqueue, shed, if_neg (Nat.not_le.mpr htarget)] at hnone
      cases hnone

/-- A pass that meets the condition deletes what it should. -/
lemma Evicts.evictsWell (h : dir.Evicts limit minEvict grace now io) :
    dir.EvictsWell limit minEvict grace now (dir.evicted limit minEvict grace now io) := by
  obtain htarget | ⟨hlimit, hnone⟩ | ⟨hlimit, hsuffice⟩ := h
  · rw [evicted, shed_of_le _ htarget]
    exact .nil (htarget.trans (Nat.sub_le _ _))
  · have hqueue : dir.queue (graceCutoff now grace) io = [] :=
      List.Perm.eq_nil (hnone ▸ dir.queue_perm (graceCutoff now grace) io)
    rw [evicted, hqueue]
    exact .nil hlimit
  · have hbegins := dir.evicted_begins limit minEvict grace now io
    -- an unprotected file that stays either follows in the queue or cannot be deleted
    have hstays : ∀ e ∈ dir.left (dir.evicted limit minEvict grace now io),
        e.modified ≤ graceCutoff now grace → e ∉ dir.queue (graceCutoff now grace) io →
        dir.evicted limit minEvict grace now io <+:
            (dir.queue (graceCutoff now grace) io).filter (·.modified ≤ e.modified) ∧
          totalSize dir.entries ≤ limit.toNat - minEvict.toNat +
            totalSize (dir.queue (graceCutoff now grace) io) := by
      intro e he hold hqueue
      have hle := hsuffice e (mem_left.mp he).1 hold fun hmem => hqueue (mem_queue.mpr hmem)
      rw [totalSize_evictable_filter] at hle
      refine ⟨shed_least _ (queue_filter_begins _ e) hle, hle.trans ?_⟩
      exact Nat.add_le_add_left (weight_le_of_begins _ (queue_filter_begins _ e)) _
    refine ⟨fun hle => absurd hle (Nat.not_le.mpr hlimit), fun _ => ?_, ?_, ?_, ?_, ?_⟩
    · have hparts := totalSize_left_front hbegins
      rcases shed_enough (fun e : CacheEntry => e.size.toNat) (limit.toNat - minEvict.toNat)
        (totalSize dir.entries) (dir.queue (graceCutoff now grace) io) with henough | hall
      · change totalSize dir.entries ≤ _ + totalSize (dir.evicted limit minEvict grace now io) at henough
        left
        omega
      · change dir.evicted limit minEvict grace now io = _ at hall
        by_cases hyoung : ∀ e ∈ dir.left (dir.evicted limit minEvict grace now io),
            graceCutoff now grace < e.modified
        · exact .inr hyoung
        · push Not at hyoung
          obtain ⟨e, he, hold⟩ := hyoung
          have hle := (hstays e he hold (hall ▸ (mem_left.mp he).2)).2
          rw [← hall] at hle
          left
          omega
    · exact (dir.queue_sorted _ io).sublist hbegins.sublist
    · intro earlier e hearlier
      have hlt := shed_needed _ hearlier
      have hfront : earlier <+: dir.queue (graceCutoff now grace) io :=
        ((List.prefix_append earlier [e]).trans hearlier).trans hbegins
      have hparts := totalSize_left_front hfront
      unfold totalSize at *
      omega
    · intro e he
      obtain ⟨hmem, hold, -⟩ := mem_evictable.mp (mem_queue.mp (hbegins.subset he))
      exact ⟨hmem, hold⟩
    · intro e he hold d hd
      by_cases hqueue : e ∈ dir.queue (graceCutoff now grace) io
      · obtain ⟨later, hlater⟩ := hbegins
        rw [← hlater] at hqueue
        have hsorted := dir.queue_sorted (graceCutoff now grace) io
        rw [← hlater, List.pairwise_append] at hsorted
        exact hsorted.2.2 d hd e ((List.mem_append.mp hqueue).resolve_left (mem_left.mp he).2)
      · exact of_decide_eq_true (List.mem_filter.mp ((hstays e he hold hqueue).1.subset hd)).2

end CacheDir

variable (limit minEvict : UInt64) (now : Int) (io : CacheIo)

lemma evictOldest_evictsWell_iff (dir : CacheDir) (grace : Nat) :
    dir.EvictsWell limit minEvict grace now (evictOldest dir (satSub limit minEvict) grace now io) ↔
      dir.Evicts limit minEvict grace now io := by
  rw [CacheDir.evictOldest_eq, toNat_satSub]
  exact ⟨CacheDir.EvictsWell.evicts, CacheDir.Evicts.evictsWell⟩

/-- A pass over a directory, by itself or at the end of `put`, deletes what it should just when it meets the
    condition. -/
theorem evictsWell_iff :
    (∀ (dir : CacheDir) grace,
        dir.EvictsWell limit minEvict grace now (evictOldest dir (satSub limit minEvict) grace now io) ↔
        dir.Evicts limit minEvict grace now io) ∧
      (∀ dir : CacheDir, dir.EvictsWell limit minEvict 0 now (ensureUnderLimit dir limit minEvict now io) ↔
        dir.Evicts limit minEvict 0 now io) ∧
      ∀ (dir : CacheDir) (p : CachePut dir), ∀ deleted ∈ p.put limit minEvict now io,
        p.stored.EvictsWell limit minEvict 0 now deleted ↔ p.stored.Evicts limit minEvict 0 now io := by
  refine ⟨evictOldest_evictsWell_iff limit minEvict now io, fun dir => ?_, fun dir p deleted hput => ?_⟩
  · exact evictOldest_evictsWell_iff limit minEvict now io dir 0
  · unfold CachePut.put at hput
    split at hput
    · cases hput
    · split at hput
      · cases hput
      · split at hput
        · cases hput
        · obtain rfl := Option.some.inj hput
          exact evictOldest_evictsWell_iff limit minEvict now io p.stored 0

/-! ### Within the limit -/

def CacheIo.ok : CacheIo :=
  ⟨true, fun _ => true⟩

def onePicture : CacheDir where
  entries := [⟨"old.jpg".toList, 450, 1⟩]
  distinct := by decide
  fits := by decide

def twoPictures : CacheDir where
  entries := [⟨"old.jpg".toList, 450, 1⟩, ⟨"new.jpg".toList, 400, 2⟩]
  distinct := by decide
  fits := by decide

def putSecond : CachePut onePicture where
  entry := ⟨"new.jpg".toList, 400, 2⟩
  created := true
  written := true
  renamed := true
  stored := twoPictures
  holds := by decide

theorem putSecond_evictsWell : putSecond.stored.EvictsWell 900 50 0 3 [] :=
  ((evictsWell_iff 900 50 3 .ok).2.2 onePicture putSecond [] (by decide)).mpr (.inl (by decide))

/-- With a step of 100 the first is deleted, though the two are within the limit. -/
theorem twoPictures_evicted :
    ¬twoPictures.EvictsWell 900 100 0 3 (ensureUnderLimit twoPictures 900 100 3 .ok) := fun h =>
  absurd (h.idle (by decide)) (by decide)

end Sarca.Server
