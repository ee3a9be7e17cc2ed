import Mathlib.Data.List.Find
import Sarca.Lib.Batches
import Sarca.Lib.Run
import Sarca.Server.Chunks

/-!
# The replicator

`runOnce` takes the first `batchSize` jobs by id and copies each that has a source, with Telegram's answers
as an argument. A job without a source stays where it is and takes up its place in the next batch.

`drained_iff` shows that accepted copies lead to a table in which nothing is left to copy just when each
job that can be copied has fewer than `batchSize` before it that cannot, and `runOnce_keeps` that no pass
touches a replica that is uploaded.
-/

namespace Sarca.Server
open Sarca.Lib

/-- `BATCH_SIZE` -/
def batchSize : Nat := 25

/-- What Telegram made of a copy, or of the download and upload in its place. -/
inductive CopyAnswer where
  | copied (telegramFileId : String) (telegramMessageId : Int)
  /-- an error, and whether `is_chat_dead_error` takes it for the death of the chat -/
  | refused (chatDead : Bool)

/-- Telegram's answers in one pass, by job and source. -/
abbrev Telegram := ChunkReplica → ChunkReplica → CopyAnswer

/-- A replica after `mark_uploaded`. -/
def ChunkReplica.uploadedAs (r : ChunkReplica) (telegramFileId : String) (telegramMessageId : Int) :
    ChunkReplica :=
  { r with
    telegramFileId := some telegramFileId
    telegramMessageId := some telegramMessageId
    status := .uploaded }

namespace Db

def OnActive (db : Db) (channelId : Uuid) : Prop :=
  ∃ c ∈ db.channels, c.id = channelId ∧ c.isActive

instance (db : Db) (channelId : Uuid) : Decidable (db.OnActive channelId) :=
  inferInstanceAs (Decidable (∃ c ∈ db.channels, _))

def Waits (db : Db) (r : ChunkReplica) : Prop :=
  r.status ≠ .uploaded ∧ db.OnActive r.channelId

instance (db : Db) (r : ChunkReplica) : Decidable (db.Waits r) :=
  inferInstanceAs (Decidable (_ ∧ _))

/-- The replica holds the job's chunk on another active channel. -/
def Serves (db : Db) (job r : ChunkReplica) : Prop :=
  r.chunkId = job.chunkId ∧ r.channelId ≠ job.channelId ∧ r.status = .uploaded ∧
    db.OnActive r.channelId

instance (db : Db) (job r : ChunkReplica) : Decidable (db.Serves job r) :=
  inferInstanceAs (Decidable (_ ∧ _))

def jobs (db : Db) : List ChunkReplica :=
  (db.replicas.filter fun r => db.Waits r).insertionSort fun r r' => r.id ≤ r'.id

/-- Rust `list_pending`. -/
def listPending (db : Db) (limit : Nat) : List ChunkReplica :=
  db.jobs.take limit

/-- Rust `find_source_for_chunk`: the first row with a message id, else the first row. -/
def findSource (db : Db) (job : ChunkReplica) : Option ChunkReplica :=
  (db.replicas.find? fun r => db.Serves job r ∧ r.telegramMessageId.isSome).or
    (db.replicas.find? fun r => db.Serves job r)

def replicateJob (telegram : Telegram) (db : Db) (job : ChunkReplica) : Db :=
  match db.findSource job with
  | none => db
  | some source =>
    match source.telegramFileId with
    | none => db
    | some _ =>
      match telegram job source with
      | .copied fileId messageId => db.updateReplica job.id (·.uploadedAs fileId messageId)
      | .refused chatDead =>
        let db := db.updateReplica job.id fun r => { r with status := .failed }
        if chatDead then db.updateChannelRow job.channelId fun c => { c with status := .dead }
        else db

/-- Rust `run_once`. -/
def runOnce (db : Db) (telegram : Telegram) : Db :=
  (db.listPending batchSize).foldl (replicateJob telegram) db

/-- What the schema promises about replicas: `id` is the primary key, `UNIQUE(chunk_id, channel_id)`. -/
structure Keyed (db : Db) : Prop where
  ids : (db.replicas.map (·.id)).Nodup
  pairs : ∀ r ∈ db.replicas, ∀ r' ∈ db.replicas,
    r.chunkId = r'.chunkId → r.channelId = r'.channelId → r = r'

/-- The job has an uploaded copy with a file id on another active channel. -/
def Copyable (db : Db) (job : ChunkReplica) : Prop :=
  ∃ r ∈ db.replicas, db.Serves job r ∧ r.telegramFileId.isSome

/-- The source that is found for the job has a file id. -/
def Supplied (db : Db) (job : ChunkReplica) : Bool :=
  (db.findSource job).any (·.telegramFileId.isSome)

def passes (db : Db) (telegram : Nat → Telegram) : Nat → Db
  | 0 => db
  | n + 1 => (passes db telegram n).runOnce (telegram n)

def Drained (db : Db) : Prop :=
  ∀ job ∈ db.replicas, db.Waits job → ¬db.Copyable job

variable {db db' : Db} {job r s : ChunkReplica} {telegram : Telegram}

def Accepts (telegram : Telegram) : Prop :=
  ∀ job source, ∃ fileId messageId, telegram job source = .copied fileId messageId

/-- What a job needs to be reached and copied: the source found for it has a file id if any source has, and
    fewer than `batchSize` jobs that are not copied come before it. -/
structure NothingInTheWay (db : Db) : Prop where
  usable : ∀ job ∈ db.replicas, db.Waits job → db.Copyable job → db.Supplied job
  room : ∀ job ∈ db.jobs, db.Supplied job →
    db.jobs.countP (fun b => !db.Supplied b && b.id < job.id) < batchSize

/-! ## Jobs and sources -/

lemma mem_jobs : r ∈ db.jobs ↔ r ∈ db.replicas ∧ db.Waits r := by
  unfold jobs
  rw [List.mem_insertionSort, List.mem_filter, decide_eq_true_eq]

lemma Keyed.eq_of_id (h : db.Keyed) {r r' : ChunkReplica} (hr : r ∈ db.replicas)
    (hr' : r' ∈ db.replicas) (hid : r.id = r'.id) : r = r' :=
  List.inj_on_of_nodup_map h.ids hr hr' hid

lemma Keyed.jobs_sorted (h : db.Keyed) : db.jobs.Pairwise fun r r' => r.id < r'.id := by
  have hle : db.jobs.Pairwise fun r r' => r.id ≤ r'.id := List.pairwise_insertionSort _ _
  have hids : (db.jobs.map (·.id)).Nodup := by
    have hperm := List.perm_insertionSort (fun r r' : ChunkReplica => r.id ≤ r'.id)
      (db.replicas.filter fun r => db.Waits r)
    exact (hperm.map ChunkReplica.id).nodup_iff.mpr
      (h.ids.sublist (List.filter_sublist.map ChunkReplica.id))
  have hne : db.jobs.Pairwise fun r r' => r.id ≠ r'.id := List.pairwise_map.mp hids
  exact (hle.and hne).imp fun hrr => Nat.lt_of_le_of_ne hrr.1 hrr.2

lemma Keyed.jobs_nodup (h : db.Keyed) : db.jobs.Nodup := by
  apply h.jobs_sorted.imp
  rintro r _ hlt rfl
  exact Nat.lt_irrefl _ hlt

lemma findSource_some (h : db.findSource job = some s) : s ∈ db.replicas ∧ db.Serves job s := by
  rcases Option.or_eq_some_iff.mp h with hfind | ⟨-, hfind⟩
  · have hs := List.find?_some hfind
    exact ⟨List.mem_of_find?_eq_some hfind, (of_decide_eq_true hs).1⟩
  · have hs := List.find?_some hfind
    exact ⟨List.mem_of_find?_eq_some hfind, of_decide_eq_true hs⟩

lemma supplied_iff : db.Supplied job ↔ ∃ s, db.findSource job = some s ∧ s.telegramFileId.isSome := by
  unfold Supplied
  rw [Option.any_eq_true_iff_get]
  constructor
  · rintro ⟨hsome, hget⟩
    exact ⟨_, (Option.some_get hsome).symm, hget⟩
  · rintro ⟨s, hs, hfile⟩
    refine ⟨hs ▸ rfl, ?_⟩
    simpa [hs] using hfile

lemma copyable_of_supplied (h : db.Supplied job) : db.Copyable job := by
  obtain ⟨s, hs, hfile⟩ := supplied_iff.mp h
  obtain ⟨hmem, hserves⟩ := findSource_some hs
  exact ⟨s, hmem, hserves, hfile⟩

lemma Keyed.serves_iff (h : db.Keyed) {b : ChunkReplica} (hjob : job ∈ db.jobs) (hb : b ∈ db.jobs)
    (hchunk : b.chunkId = job.chunkId) (hr : r ∈ db.replicas) : db.Serves b r ↔ db.Serves job r := by
  have hkey : ∀ j ∈ db.jobs, r.chunkId = j.chunkId → r.status = .uploaded → r.channelId ≠ j.channelId := by
    intro j hj hc hup hch
    obtain ⟨hmem, hwaits⟩ := mem_jobs.mp hj
    exact hwaits.1 (h.pairs r hr j hmem hc hch ▸ hup)
  constructor
  · rintro ⟨hc, -, hup, hactive⟩
    exact ⟨hc.trans hchunk, hkey job hjob (hc.trans hchunk) hup, hup, hactive⟩
  · rintro ⟨hc, -, hup, hactive⟩
    exact ⟨hc.trans hchunk.symm, hkey b hb (hc.trans hchunk.symm) hup, hup, hactive⟩

lemma Keyed.findSource_eq (h : db.Keyed) {b : ChunkReplica} (hjob : job ∈ db.jobs) (hb : b ∈ db.jobs)
    (hchunk : b.chunkId = job.chunkId) : db.findSource b = db.findSource job := by
  unfold findSource
  congr 1
  · apply List.find?_congr
    intro r hr
    rw [decide_eq_decide, h.serves_iff hjob hb hchunk hr]
  · apply List.find?_congr
    intro r hr
    rw [decide_eq_decide, h.serves_iff hjob hb hchunk hr]

/-! ## One copy -/

/-- The table after an accepted copy for a job. -/
def copyOf (db : Db) (job : ChunkReplica) (fileId : String) (messageId : Int) : Db :=
  db.updateReplica job.id (·.uploadedAs fileId messageId)

variable {fileId : String} {messageId : Int}

lemma mem_copyOf (h : db.Keyed) (hjob : job ∈ db.jobs) :
    r ∈ (db.copyOf job fileId messageId).replicas ↔
      r = job.uploadedAs fileId messageId ∨ (r ∈ db.replicas ∧ r.id ≠ job.id) := by
  have hmem := (mem_jobs.mp hjob).1
  unfold copyOf updateReplica
  rw [List.mem_map]
  constructor
  · rintro ⟨s, hs, rfl⟩
    by_cases hid : s.id = job.id
    · rw [if_pos hid, h.eq_of_id hs hmem hid]
      exact .inl rfl
    · rw [if_neg hid]
      exact .inr ⟨hs, hid⟩
  · rintro (rfl | ⟨hr, hid⟩)
    · exact ⟨job, hmem, if_pos rfl⟩
    · exact ⟨r, hr, if_neg hid⟩

lemma copyOf_keyed (h : db.Keyed) (job : ChunkReplica) (fileId : String) (messageId : Int) :
    (db.copyOf job fileId messageId).Keyed := by
  have hfields : ∀ r : ChunkReplica,
      (if r.id = job.id then r.uploadedAs fileId messageId else r).id = r.id ∧
        (if r.id = job.id then r.uploadedAs fileId messageId else r).chunkId = r.chunkId ∧
          (if r.id = job.id then r.uploadedAs fileId messageId else r).channelId = r.channelId := by
    intro r
    split
    · exact ⟨rfl, rfl, rfl⟩
    · exact ⟨rfl, rfl, rfl⟩
  constructor
  · unfold copyOf updateReplica
    rw [List.map_map]
    have hsame : (fun r : ChunkReplica => r.id) ∘
        (fun r => if r.id = job.id then r.uploadedAs fileId messageId else r) = (·.id) :=
      funext fun r => (hfields r).1
    rw [hsame]
    exact h.ids
  · intro r hr r' hr' hchunk hchannel
    obtain ⟨s, hs, rfl⟩ := List.mem_map.mp hr
    obtain ⟨s', hs', rfl⟩ := List.mem_map.mp hr'
    rw [(hfields s).2.1, (hfields s').2.1] at hchunk
    rw [(hfields s).2.2, (hfields s').2.2] at hchannel
    rw [h.pairs s hs s' hs' hchunk hchannel]

lemma copyOf_jobs (h : db.Keyed) (hjob : job ∈ db.jobs) (fileId : String) (messageId : Int) :
    (db.copyOf job fileId messageId).jobs = db.jobs.filter (· ≠ job) := by
  have hmem : ∀ r, r ∈ (db.copyOf job fileId messageId).jobs ↔ r ∈ db.jobs.filter (· ≠ job) := by
    intro r
    rw [mem_jobs, mem_copyOf h hjob, List.mem_filter, mem_jobs, decide_eq_true_eq]
    constructor
    · rintro ⟨rfl | ⟨hr, hid⟩, hwaits⟩
      · exact absurd rfl hwaits.1
      · exact ⟨⟨hr, hwaits⟩, fun heq => hid (heq ▸ rfl)⟩
    · rintro ⟨⟨hr, hwaits⟩, hne⟩
      refine ⟨.inr ⟨hr, fun hid => hne ?_⟩, hwaits⟩
      exact h.eq_of_id hr (mem_jobs.mp hjob).1 hid
  have hkeyed := copyOf_keyed h job fileId messageId
  have hsorted := hkeyed.jobs_sorted
  have hsorted' := h.jobs_sorted.filter (· ≠ job)
  have hperm := (List.perm_ext_iff_of_nodup hkeyed.jobs_nodup (h.jobs_nodup.filter _)).mpr hmem
  apply hperm.eq_of_pairwise _ hsorted hsorted'
  intro a b _ _ hab hba
  exact absurd (Nat.lt_trans hab hba) (Nat.lt_irrefl _)

lemma find?_widened {α : Type*} {p q : α → Bool} {l : List α} {x : α} (hx : x ∈ l) (hqx : q x)
    (hq : ∀ r ∈ l, q r → p r ∨ r = x) (hpq : ∀ r ∈ l, p r → q r) :
    ∃ r, l.find? q = some r ∧ (r = x ∨ l.find? p = some r) := by
  cases hfind : l.find? q with
  | none => exact absurd hqx (List.find?_eq_none.mp hfind x hx)
  | some r =>
    refine ⟨r, rfl, ?_⟩
    obtain ⟨hqr, before, after, rfl, hbefore⟩ := List.find?_eq_some_iff_append.mp hfind
    refine (hq r (by simp) hqr).symm.imp id fun hpr => ?_
    refine List.find?_eq_some_iff_append.mpr ⟨hpr, before, after, rfl, ?_⟩
    intro y hy
    have hny := hbefore y hy
    cases hpy : p y with
    | false => rfl
    | true =>
      rw [hpq y (List.mem_append_left _ hy) hpy] at hny
      exact hny

def copied (job : ChunkReplica) (fileId : String) (messageId : Int) (r : ChunkReplica) : ChunkReplica :=
  if r.id = job.id then r.uploadedAs fileId messageId else r

lemma find?_copyOf (p : ChunkReplica → Bool) :
    (db.copyOf job fileId messageId).replicas.find? p =
      (db.replicas.find? (p ∘ copied job fileId messageId)).map (copied job fileId messageId) :=
  List.find?_map

lemma supplied_of_chunk (h : db.Keyed) (hjob : job ∈ db.jobs) (hsupplied : db.Supplied job)
    {b : ChunkReplica} (hb : b ∈ db.jobs) (hne : b ≠ job) (hchunk : b.chunkId = job.chunkId) :
    db.Supplied b ∧ (db.copyOf job fileId messageId).Supplied b := by
  have hmem := (mem_jobs.mp hjob).1
  have hwaits := (mem_jobs.mp hjob).2
  have hsource := h.findSource_eq hjob hb hchunk
  obtain ⟨s, hs, hfile⟩ := supplied_iff.mp hsupplied
  refine ⟨supplied_iff.mpr ⟨s, hsource.trans hs, hfile⟩, ?_⟩
  -- the copy itself is a source with a message id
  have hchannel : job.channelId ≠ b.channelId := fun heq =>
    hne (h.pairs b (mem_jobs.mp hb).1 job hmem hchunk heq.symm)
  have hself : copied job fileId messageId job = job.uploadedAs fileId messageId := if_pos rfl
  have hother : ∀ r ∈ db.replicas, r ≠ job → copied job fileId messageId r = r := by
    intro r hr hrj
    exact if_neg fun hid => hrj (h.eq_of_id hr hmem hid)
  obtain ⟨r, hfind, hr⟩ := find?_widened
    (p := fun r => decide (db.Serves b r ∧ r.telegramMessageId.isSome))
    (q := (fun r => decide (db.Serves b r ∧ r.telegramMessageId.isSome)) ∘ copied job fileId messageId)
    hmem
    (by
      rw [Function.comp_apply, hself, decide_eq_true_eq]
      exact ⟨⟨hchunk.symm, hchannel, rfl, hwaits.2⟩, rfl⟩)
    (by
      intro r hr hq
      by_cases hrj : r = job
      · exact .inr hrj
      · rw [Function.comp_apply, hother r hr hrj] at hq
        exact .inl hq)
    (by
      intro r hr hp
      have hup := (of_decide_eq_true hp).1.2.2.1
      have hrj : r ≠ job := fun heq => hwaits.1 (heq ▸ hup)
      rw [Function.comp_apply, hother r hr hrj]
      exact hp)
  have hfound : (db.copyOf job fileId messageId).findSource b =
      some (copied job fileId messageId r) := by
    apply Option.or_eq_some_iff.mpr
    left
    exact (find?_copyOf _).trans (congrArg (Option.map _) hfind)
  apply supplied_iff.mpr
  refine ⟨_, hfound, ?_⟩
  rcases hr with rfl | hr
  · rw [hself]
    rfl
  · have hbr : db.findSource b = some r := Option.or_eq_some_iff.mpr (.inl hr)
    have hrs : r = s := Option.some.inj (hbr.symm.trans (hsource.trans hs))
    obtain ⟨hrmem, hserves⟩ := findSource_some hbr
    have hrj : r ≠ job := fun heq => hwaits.1 (heq ▸ hserves.2.2.1)
    rw [hother r hrmem hrj, hrs]
    exact hfile

lemma findSource_copyOf (h : db.Keyed) (hjob : job ∈ db.jobs) {b : ChunkReplica}
    (hchunk : b.chunkId ≠ job.chunkId) :
    (db.copyOf job fileId messageId).findSource b = db.findSource b := by
  have hmem := (mem_jobs.mp hjob).1
  have hself : copied job fileId messageId job = job.uploadedAs fileId messageId := if_pos rfl
  have hother : ∀ r ∈ db.replicas, r ≠ job → copied job fileId messageId r = r := by
    intro r hr hrj
    exact if_neg fun hid => hrj (h.eq_of_id hr hmem hid)
  have hsame : ∀ p : ChunkReplica → Bool, (∀ r, p r → r.chunkId = b.chunkId) →
      (db.copyOf job fileId messageId).replicas.find? p = db.replicas.find? p := by
    intro p hp
    have hcongr : db.replicas.find? (p ∘ copied job fileId messageId) = db.replicas.find? p := by
      apply List.find?_congr
      intro r hr
      by_cases hrj : r = job
      · rw [hrj, Function.comp_apply, hself, Bool.eq_iff_iff]
        exact ⟨fun hpr => absurd (hp _ hpr).symm hchunk, fun hpr => absurd (hp _ hpr).symm hchunk⟩
      · rw [Function.comp_apply, hother r hr hrj]
    rw [find?_copyOf, hcongr]
    cases hfind : db.replicas.find? p with
    | none => rfl
    | some r =>
      have hr := hp r (List.find?_some hfind)
      have hrj : r ≠ job := fun heq => hchunk (heq ▸ hr).symm
      exact congrArg some (hother r (List.mem_of_find?_eq_some hfind) hrj)
  unfold findSource
  congr 1
  · exact hsame _ fun r hr => (of_decide_eq_true hr).1.1
  · exact hsame _ fun r hr => (of_decide_eq_true hr).1

lemma copyable_copyOf (h : db.Keyed) (hjob : job ∈ db.jobs) {b : ChunkReplica}
    (hchunk : b.chunkId ≠ job.chunkId) :
    (db.copyOf job fileId messageId).Copyable b ↔ db.Copyable b := by
  constructor
  · rintro ⟨r, hr, hserves, hfile⟩
    rcases (mem_copyOf h hjob).mp hr with rfl | ⟨hr, -⟩
    · exact absurd hserves.1.symm hchunk
    · exact ⟨r, hr, hserves, hfile⟩
  · rintro ⟨r, hr, hserves, hfile⟩
    have hid : r.id ≠ job.id := by
      intro hid
      have hrj := h.eq_of_id hr (mem_jobs.mp hjob).1 hid
      exact hchunk (hrj ▸ hserves.1).symm
    exact ⟨r, (mem_copyOf h hjob).mpr (.inr ⟨hr, hid⟩), hserves, hfile⟩

/-! ## A pass -/

/-- What a part of a pass leaves, with every copy accepted: of the jobs it looked at, those with a source
    are gone, and what the others find is as before. -/
structure Progress (looked : List ChunkReplica) (db db' : Db) : Prop where
  keyed : db'.Keyed
  jobs : db'.jobs = db.jobs.filter fun j => !(j ∈ looked && db.Supplied j)
  supplied : ∀ b ∈ db'.jobs, db'.Supplied b = db.Supplied b
  copyable : ∀ b ∈ db'.jobs, (db'.Copyable b ↔ db.Copyable b)

lemma Progress.refl (h : db.Keyed) : Progress [] db db where
  keyed := h
  jobs := by simp
  supplied := fun _ _ => rfl
  copyable := fun _ _ => Iff.rfl

lemma replicateJob_progress (h : db.Keyed) (haccepts : Accepts telegram) (hjob : job ∈ db.jobs) :
    Progress [job] db (replicateJob telegram db job) := by
  cases hsupplied : db.Supplied job with
  | false =>
    have hsame : replicateJob telegram db job = db := by
      unfold replicateJob
      cases hfind : db.findSource job with
      | none => rfl
      | some source =>
        cases hfile : source.telegramFileId with
        | none => simp only [hfile]
        | some fileId =>
          have : db.Supplied job := supplied_iff.mpr ⟨source, hfind, hfile ▸ rfl⟩
          rw [hsupplied] at this
          cases this
    rw [hsame]
    refine ⟨h, ?_, fun _ _ => rfl, fun _ _ => Iff.rfl⟩
    symm
    apply List.filter_eq_self.mpr
    intro b _
    by_cases hb : b = job
    · simp [hb, hsupplied]
    · simp [hb]
  | true =>
    obtain ⟨source, hfind, hfile⟩ := supplied_iff.mp hsupplied
    obtain ⟨sourceId, hsourceId⟩ := Option.isSome_iff_exists.mp hfile
    obtain ⟨fileId, messageId, hanswer⟩ := haccepts job source
    have hcopy : replicateJob telegram db job = db.copyOf job fileId messageId := by
      simp only [replicateJob, hfind, hsourceId, hanswer]
      rfl
    rw [hcopy]
    have hjobs := copyOf_jobs h hjob fileId messageId
    refine ⟨copyOf_keyed h job fileId messageId, ?_, ?_, ?_⟩
    · rw [hjobs]
      apply List.filter_congr
      intro b _
      by_cases hb : b = job
      · simp [hb, hsupplied]
      · simp [hb]
    · intro b hb
      rw [hjobs, List.mem_filter, decide_eq_true_eq] at hb
      by_cases hchunk : b.chunkId = job.chunkId
      · obtain ⟨hbefore, hafter⟩ := supplied_of_chunk h hjob hsupplied hb.1 hb.2 hchunk
        rw [hbefore, hafter]
      · unfold Supplied
        rw [findSource_copyOf h hjob hchunk]
    · intro b hb
      rw [hjobs, List.mem_filter, decide_eq_true_eq] at hb
      by_cases hchunk : b.chunkId = job.chunkId
      · obtain ⟨hbefore, hafter⟩ := supplied_of_chunk h hjob hsupplied hb.1 hb.2 hchunk
        exact ⟨fun _ => copyable_of_supplied hbefore, fun _ => copyable_of_supplied hafter⟩
      · exact copyable_copyOf h hjob hchunk

lemma Progress.trans {looked looked' : List ChunkReplica} {db'' : Db} (h : Progress looked db db')
    (h' : Progress looked' db' db'') : Progress (looked ++ looked') db db'' := by
  have hsub : ∀ b ∈ db''.jobs, b ∈ db'.jobs := by
    intro b hb
    rw [h'.jobs] at hb
    exact (List.mem_filter.mp hb).1
  refine ⟨h'.keyed, ?_, ?_, ?_⟩
  · have hcongr : db'.jobs.filter (fun j => !(j ∈ looked' && db'.Supplied j)) =
        db'.jobs.filter fun j => !(j ∈ looked' && db.Supplied j) := by
      apply List.filter_congr
      intro b hb
      rw [h.supplied b hb]
    rw [h'.jobs, hcongr, h.jobs, List.filter_filter]
    apply List.filter_congr
    intro b _
    simp only [List.mem_append]
    cases db.Supplied b with
    | false => simp
    | true => by_cases hl : b ∈ looked <;> by_cases hl' : b ∈ looked' <;> simp [hl, hl']
  · intro b hb
    rw [h'.supplied b hb, h.supplied b (hsub b hb)]
  · intro b hb
    rw [h'.copyable b hb, h.copyable b (hsub b hb)]

lemma foldl_progress (h : db.Keyed) (haccepts : Accepts telegram) {looked : List ChunkReplica}
    (hnodup : looked.Nodup) (hlooked : ∀ j ∈ looked, j ∈ db.jobs) :
    Progress looked db (looked.foldl (replicateJob telegram) db) := by
  induction looked generalizing db with
  | nil => exact Progress.refl h
  | cons job looked ih =>
    have hfirst := replicateJob_progress h haccepts (hlooked job List.mem_cons_self)
    rw [List.nodup_cons] at hnodup
    have hrest : ∀ j ∈ looked, j ∈ (replicateJob telegram db job).jobs := by
      intro j hj
      rw [hfirst.jobs, List.mem_filter]
      refine ⟨hlooked j (List.mem_cons_of_mem job hj), ?_⟩
      have hne : j ≠ job := fun heq => hnodup.1 (heq ▸ hj)
      simp [hne]
    exact hfirst.trans (ih hfirst.keyed hnodup.2 hrest)

lemma runOnce_progress (h : db.Keyed) (haccepts : Accepts telegram) :
    Progress (db.listPending batchSize) db (db.runOnce telegram) :=
  foldl_progress h haccepts (h.jobs_nodup.sublist (List.take_sublist _ _))
    fun _ hj => (List.take_sublist _ _).mem hj

lemma runOnce_jobs (h : db.Keyed) (haccepts : Accepts telegram) :
    (db.runOnce telegram).jobs = passBatch db.Supplied batchSize db.jobs := by
  rw [(runOnce_progress h haccepts).jobs]
  have hsplit : db.jobs = db.jobs.take batchSize ++ db.jobs.drop batchSize :=
    (List.take_append_drop _ _).symm
  have hdisjoint : ∀ j ∈ db.jobs.drop batchSize, j ∉ db.jobs.take batchSize := by
    intro j hj hj'
    have hnodup := h.jobs_nodup
    rw [hsplit, List.nodup_append] at hnodup
    exact hnodup.2.2 j hj' j hj rfl
  conv_lhs => rw [hsplit, List.filter_append]
  unfold passBatch
  congr 1
  · apply List.filter_congr
    intro j hj
    simp [listPending, hj]
  · apply List.filter_eq_self.mpr
    intro j hj
    simp [listPending, hdisjoint j hj]

/-! ## Passes -/

lemma passes_progress (h : db.Keyed) {telegrams : Nat → Telegram}
    (haccepts : ∀ n, Accepts (telegrams n)) (n : Nat) :
    (db.passes telegrams n).Keyed ∧
      (db.passes telegrams n).jobs = (passBatch db.Supplied batchSize)^[n] db.jobs ∧
        (∀ b ∈ (db.passes telegrams n).jobs, (db.passes telegrams n).Supplied b = db.Supplied b) ∧
          ∀ b ∈ (db.passes telegrams n).jobs, ((db.passes telegrams n).Copyable b ↔ db.Copyable b) := by
  induction n with
  | zero => exact ⟨h, rfl, fun _ _ => rfl, fun _ _ => Iff.rfl⟩
  | succ n ih =>
    obtain ⟨hkeyed, hjobs, hsupplied, hcopyable⟩ := ih
    have hpass := runOnce_progress hkeyed (haccepts n)
    have hsub : ∀ b ∈ (db.passes telegrams (n + 1)).jobs, b ∈ (db.passes telegrams n).jobs := by
      intro b hb
      rw [passes, hpass.jobs] at hb
      exact (List.mem_filter.mp hb).1
    refine ⟨hpass.keyed, ?_, ?_, ?_⟩
    · rw [passes, runOnce_jobs hkeyed (haccepts n), Function.iterate_succ_apply', ← hjobs]
      unfold passBatch
      congr 1
      apply List.filter_congr
      intro b hb
      rw [hsupplied b (List.mem_of_mem_take hb)]
    · intro b hb
      exact (hpass.supplied b hb).trans (hsupplied b (hsub b hb))
    · intro b hb
      exact (hpass.copyable b hb).trans (hcopyable b (hsub b hb))

lemma countP_before (h : db.Keyed) {pre post : List ChunkReplica} (heq : db.jobs = pre ++ job :: post) :
    db.jobs.countP (fun b => !db.Supplied b && b.id < job.id) = (pre.filter (!db.Supplied ·)).length := by
  have hsorted := h.jobs_sorted
  rw [heq, List.pairwise_append, List.pairwise_cons] at hsorted
  have hpre : ∀ b ∈ pre, b.id < job.id := fun b hb => hsorted.2.2 b hb job List.mem_cons_self
  have hpost : ∀ b ∈ job :: post, ¬b.id < job.id := by
    intro b hb
    cases List.mem_cons.mp hb with
    | inl hbj => exact hbj ▸ Nat.lt_irrefl _
    | inr hb => exact Nat.not_lt.mpr (Nat.le_of_lt (hsorted.2.1.1 b hb))
  rw [heq, List.countP_append]
  have hzero : (job :: post).countP (fun b => !db.Supplied b && b.id < job.id) = 0 := by
    apply List.countP_eq_zero.mpr
    intro b hb
    simp [hpost b hb]
  rw [hzero, Nat.add_zero, ← List.countP_eq_length_filter]
  apply List.countP_congr
  intro b hb
  simp [hpre b hb]

lemma flows_iff (h : db.Keyed) : Flows db.Supplied batchSize db.jobs ↔
    ∀ job ∈ db.jobs, db.Supplied job →
      db.jobs.countP (fun b => !db.Supplied b && b.id < job.id) < batchSize := by
  constructor
  · intro hflows job hjob hsupplied
    obtain ⟨pre, post, heq⟩ := List.append_of_mem hjob
    rw [countP_before h heq]
    exact hflows pre job post heq hsupplied
  · intro hroom pre job post heq hsupplied
    rw [← countP_before h heq]
    exact hroom job (heq ▸ by simp) hsupplied

lemma drained_iff_jobs : db.Drained ↔ ∀ job ∈ db.jobs, ¬db.Copyable job := by
  constructor
  · intro h job hjob
    exact h job (mem_jobs.mp hjob).1 (mem_jobs.mp hjob).2
  · intro h job hjob hwaits
    exact h job (mem_jobs.mpr ⟨hjob, hwaits⟩)

lemma passes_drain_iff (h : db.Keyed) {telegrams : Nat → Telegram}
    (haccepts : ∀ n, Accepts (telegrams n)) :
    (∃ n, (db.passes telegrams n).Drained) ↔ db.NothingInTheWay := by
  constructor
  · rintro ⟨n, hn⟩
    obtain ⟨-, hjobs, hsupplied, hcopyable⟩ := passes_progress h haccepts n
    rw [drained_iff_jobs] at hn
    have hflows : Flows db.Supplied batchSize db.jobs := by
      refine drains_iff.mp ⟨n, fun b hb hb' => ?_⟩
      rw [← hjobs] at hb
      exact hn b hb ((hcopyable b hb).mpr (copyable_of_supplied hb'))
    refine ⟨fun job hjob hwaits hcopy => ?_, (flows_iff h).mp hflows⟩
    -- a job that is never copied stays in the queue
    by_contra hne
    have hmem : job ∈ (db.passes telegrams n).jobs := by
      have hin : job ∈ db.jobs.filter (!db.Supplied ·) :=
        List.mem_filter.mpr ⟨mem_jobs.mpr ⟨hjob, hwaits⟩, by simpa using hne⟩
      rw [← filter_iterate_passBatch db.jobs n, ← hjobs] at hin
      exact (List.mem_filter.mp hin).1
    exact hn job hmem ((hcopyable job hmem).mpr hcopy)
  · rintro ⟨husable, hroom⟩
    obtain ⟨n, hn⟩ := drains_iff.mpr ((flows_iff h).mpr hroom)
    obtain ⟨-, hjobs, hsupplied, hcopyable⟩ := passes_progress h haccepts n
    refine ⟨n, drained_iff_jobs.mpr fun b hb hcopy => ?_⟩
    have hin : b ∈ db.jobs := mem_of_mem_iterate_passBatch (hjobs ▸ hb)
    have hsupplied' : db.Supplied b :=
      husable b (mem_jobs.mp hin).1 (mem_jobs.mp hin).2 ((hcopyable b hb).mp hcopy)
    exact hn b (hjobs ▸ hb) hsupplied'

/-! ## What is uploaded stays -/

lemma replicateJob_keeps (hid : r.id ≠ job.id) (hr : r ∈ db.replicas) :
    r ∈ (replicateJob telegram db job).replicas := by
  have hupdate : ∀ f : ChunkReplica → ChunkReplica, r ∈ (db.updateReplica job.id f).replicas :=
    fun f => List.mem_map.mpr ⟨r, hr, if_neg hid⟩
  unfold replicateJob
  split
  · exact hr
  · split
    · exact hr
    · split
      · exact hupdate _
      · simp only
        split
        · exact hupdate _
        · exact hupdate _

lemma runOnce_keeps (h : db.Keyed) (hr : r ∈ db.replicas) (hup : r.status = .uploaded) :
    r ∈ (db.runOnce telegram).replicas := by
  have hids : ∀ j ∈ db.listPending batchSize, r.id ≠ j.id := by
    intro j hj hid
    obtain ⟨hmem, hwaits⟩ := mem_jobs.mp (List.mem_of_mem_take hj)
    exact hwaits.1 (h.eq_of_id hr hmem hid ▸ hup)
  unfold runOnce
  generalize db.listPending batchSize = looked at hids
  clear h
  induction looked generalizing db with
  | nil => exact hr
  | cons j looked ih =>
    exact ih (replicateJob_keeps (hids j List.mem_cons_self) hr)
      fun i hi => hids i (List.mem_cons_of_mem j hi)

/-- Accepted copies lead to a table in which nothing is left to copy, and no pass touches an uploaded
    replica, just when each job that has a copy to go by finds a usable one and fewer than `batchSize` jobs
    that are not copied come before it. -/
theorem drained_iff (h : db.Keyed) (telegrams : Nat → Telegram)
    (haccepts : ∀ n, Accepts (telegrams n)) :
    ((∃ n, (db.passes telegrams n).Drained) ∧
      ∀ telegram, ∀ r ∈ db.replicas, r.status = .uploaded → r ∈ (db.runOnce telegram).replicas) ↔
      db.NothingInTheWay := by
  rw [passes_drain_iff h haccepts]
  exact and_iff_left fun _ _ hr hup => runOnce_keeps h hr hup

/-- Telegram answers a copy with the job's number. -/
def acceptAll : Telegram :=
  fun job _ => .copied (toString job.id) job.id

/-- A chunk on the first of two channels that waits for the second. -/
def tidyTable : Db :=
  { Db.fresh [⟨0, 1⟩] with
    channels := [⟨0, 0, 1, -1, .active⟩, ⟨1, 0, 2, -2, .active⟩]
    replicas := [.newUploaded 0 0 0 "a" 1, .newPending 1 0 1] }

theorem tidyTable_drained_iff :
    ((∃ n, (tidyTable.passes (fun _ => acceptAll) n).Drained) ∧
      ∀ telegram, ∀ r ∈ tidyTable.replicas, r.status = .uploaded →
        r ∈ (tidyTable.runOnce telegram).replicas) ↔ tidyTable.NothingInTheWay :=
  drained_iff ⟨by decide, by decide⟩ (fun _ => acceptAll) fun _ job _ => ⟨_, job.id, rfl⟩

/-- A batch of chunks that are on no active channel, before one that is. -/
def crowdedTable : Db :=
  { Db.fresh [⟨0, 1⟩] with
    channels := [⟨0, 0, 1, -1, .active⟩, ⟨1, 0, 2, -2, .active⟩]
    replicas := (List.range batchSize).map (fun n => .newPending n n 1) ++
      [.newPending 25 25 1, .newUploaded 26 25 0 "a" 1] }

lemma runOnce_eq_self (telegram : Telegram) (h : ∀ j ∈ db.listPending batchSize, db.findSource j = none) :
    db.runOnce telegram = db := by
  unfold runOnce
  generalize db.listPending batchSize = looked at h
  induction looked with
  | nil => rfl
  | cons j looked ih =>
    have hj : replicateJob telegram db j = db := by
      unfold replicateJob
      rw [h j List.mem_cons_self]
    rw [List.foldl_cons, hj]
    exact ih fun i hi => h i (List.mem_cons_of_mem j hi)

/-- The passes never come to the last job. -/
theorem crowdedTable_never_drained :
    crowdedTable.Keyed ∧ ∀ telegrams n, ¬(crowdedTable.passes telegrams n).Drained := by
  refine ⟨⟨by decide +kernel, by decide +kernel⟩, fun telegrams n hn => ?_⟩
  have hnone : ∀ j ∈ crowdedTable.listPending batchSize, crowdedTable.findSource j = none := by
    decide +kernel
  have hsame : ∀ k, crowdedTable.passes telegrams k = crowdedTable := by
    intro k
    induction k with
    | zero => rfl
    | succ k ih => rw [passes, ih, runOnce_eq_self (telegrams k) hnone]
  rw [hsame n] at hn
  refine hn (.newPending 25 25 1) (by decide +kernel) (by decide +kernel) ?_
  exact ⟨.newUploaded 26 25 0 "a" 1, by decide +kernel, by decide +kernel, rfl⟩

end Db
end Sarca.Server
