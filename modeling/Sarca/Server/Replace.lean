import Sarca.Lib.Run
import Sarca.Server.Intact

/-!
# What a replace leaves at its path

A live uploaded row is replaced by uploads that may be refused, fail or crash. The row keeps its path
and the old bytes stay attached (`Keeps`) as long as nothing hard-deletes the row, and two routes do
that: the clean-up of a relay that stored nothing or of a row that cannot be resumed, and
`purge_interrupted_uploads`. `Spares` says of a step that it does not decide on either for the row;
`replace_keeps_path` carries it over every run, and `lost_of_purge` says what happens otherwise.
-/

namespace Sarca.Server
open Sarca.Lib

/-- The chunks a file had in `db₀` are the chunks of `holder` now, with every uploaded replica whose
    channel was not removed. -/
def Db.Holds (db₀ : Db) (fileId : Uuid) (db : Db) (holder : Uuid) : Prop :=
  ∀ c ∈ db₀.chunks, c.fileId = fileId → { c with fileId := holder } ∈ db.chunks ∧
    ∀ r ∈ db₀.replicas, r.chunkId = c.id → r.status = .uploaded →
      r ∈ db.replicas ∨ ∀ ch ∈ db.channels, ch.id ≠ r.channelId

/-- A live row stands at the path of `row`, no `delete` was reported for it, and the bytes it had are
    attached to it or to a trashed row. -/
structure Keeps (σ₀ : Process) (row : FileRow) (σ : Process) : Prop where
  live : (σ.db.liveAt row.storageId row.path).isSome
  silent : ∀ e ∈ σ.db.events, e.storageId = row.storageId → e.path = row.path → e.op = .delete →
    e ∈ σ₀.db.events
  attached : ∃ holder ∈ σ.db.files,
    (holder.Live → holder.storageId = row.storageId ∧ holder.path = row.path) ∧
    Db.Holds σ₀.db row.id σ.db holder.id

def Phase.Purges (fileId : Uuid) : Phase → Prop
  | .purging existing => existing.id = fileId
  | .dropping file _ => file.id = fileId
  | _ => False

/-- The turn does not decide to purge the row: an unfinished attempt at the same bytes that is found at
    its path can be resumed, and a relay of it that failed has stored a chunk. -/
def SparesAct (fileId : Uuid) (σ : Process) (u : Upload) : Act → Prop
  | .look => match u.phase with
    | .looking => ∀ existing ∈ σ.db.liveAt u.request.storageId u.request.path,
        existing.id = fileId → existing.contentHash = u.request.contentHash →
        u.request.contentHash.isSome →
        existing.isUploaded = true ∨ σ.RelayInFlight fileId ∨
          resumable existing u.request.inFile.size
    | _ => True
  | .awake _ => match u.phase with
    | .waiting existing => existing.id = fileId →
        (∃ file ∈ σ.db.fileById fileId, file.isUploaded = true) ∨ σ.RelayInFlight fileId ∨
          resumable existing u.request.inFile.size
    | _ => True
  | .count true => match u.phase with
    | .failing file _ =>
      u.gone = true ∨ (file.id = fileId → σ.db.listStoredChunkPositions fileId ≠ [])
    | _ => True
  | _ => True

/-- The step does not decide to purge the row; a start finds it uploaded or with a chunk. -/
def Spares (fileId : Uuid) (σ : Process) : Step → Prop
  | .act number a => ∀ u ∈ σ.upload? number, SparesAct fileId σ u a
  | .restart _ => ∀ r ∈ σ.db.files, r.id = fileId → r.isUploaded = true ∨ σ.db.HasChunks fileId
  | _ => True

instance (fileId : Uuid) (σ : Process) (u : Upload) (a : Act) :
    Decidable (SparesAct fileId σ u a) := by
  unfold SparesAct
  split <;> (try split) <;> infer_instance

instance (fileId : Uuid) (σ : Process) (a : Step) : Decidable (Spares fileId σ a) := by
  unfold Spares
  split <;> infer_instance

lemma Db.Holds.mono {db₀ db db' : Db} {fileId holder holder' : Uuid}
    (h : Db.Holds db₀ fileId db holder)
    (hchunk : ∀ c ∈ db.chunks, c.fileId = holder → { c with fileId := holder' } ∈ db'.chunks)
    (hreplica : ∀ r ∈ db.replicas, r.status = .uploaded →
      (∃ c ∈ db.chunks, c.fileId = holder ∧ c.id = r.chunkId) →
      r ∈ db'.replicas ∨ ∀ ch ∈ db'.channels, ch.id ≠ r.channelId)
    (hgone : ∀ r ∈ db₀.replicas, (∀ ch ∈ db.channels, ch.id ≠ r.channelId) →
      ∀ ch ∈ db'.channels, ch.id ≠ r.channelId) : Db.Holds db₀ fileId db' holder' := by
  intro c hc hfile
  obtain ⟨hin, hreps⟩ := h c hc hfile
  refine ⟨hchunk { c with fileId := holder } hin rfl, ?_⟩
  intro r hr hrc hup
  rcases hreps r hr hrc hup with hk | hk
  · exact hreplica r hk hup ⟨_, hin, rfl, hrc.symm⟩
  · exact Or.inr (hgone r hr hk)

/-- The row stays at its path, and its bytes are its own or those of a trashed row. -/
structure Db.Keeping (db₀ : Db) (row : FileRow) (db : Db) : Prop where
  live : ∃ r ∈ db.files, r.id = row.id ∧ r.storageId = row.storageId ∧ r.path = row.path ∧ r.Live
  silent : ∀ e ∈ db.events, e.storageId = row.storageId → e.path = row.path → e.op = .delete →
    e ∈ db₀.events
  attached : ∃ holder ∈ db.files, (holder.Live → holder.id = row.id) ∧
    Db.Holds db₀ row.id db holder.id

structure Held (σ₀ : Process) (row : FileRow) (σ : Process) : Prop where
  intact : σ.Intact
  next_le : σ₀.next ≤ σ.next
  keeping : Db.Keeping σ₀.db row σ.db
  spared : ∀ u ∈ σ.uploads, ¬ u.phase.Purges row.id

namespace Db

variable {db₀ db db' : Db} {row : FileRow} {n : Uuid}

lemma Keeping.purged {ids : List Uuid} (h : Keeping db₀ row db) (hint : db.Intact n)
    (hp : Purged ids db db') (hlive : ∀ r ∈ db.files, r.id ∈ ids → r.Live) (hid : row.id ∉ ids) :
    Keeping db₀ row db' := by
  obtain ⟨r, hr, hrid, hs, hpath, hl⟩ := h.live
  refine ⟨⟨r, (hp.files r).mpr ⟨hr, hrid ▸ hid⟩, hrid, hs, hpath, hl⟩, ?_, ?_⟩
  · intro e he hes hep hop
    rcases hp.events e he with he | ⟨q, hq, hqid, heq⟩
    · exact h.silent e he hes hep hop
    · -- the purged row is live, so it stands at another path
      have hqs : q.storageId = row.storageId := by rw [← hes, heq]; rfl
      have hqp : q.path = row.path := by rw [← hep, heq]; rfl
      have hqr := hint.wf.aliveUnique q hq r hr (hlive q hq hqid) hl (hqs.trans hs.symm)
        (hqp.trans hpath.symm)
      rw [hqr, hrid] at hqid
      exact absurd hqid hid
  · obtain ⟨holder, hm, hone, hholds⟩ := h.attached
    have hkept : holder.id ∉ ids := by
      intro hin
      rw [hone (hlive holder hm hin)] at hin
      exact hid hin
    refine ⟨holder, (hp.files holder).mpr ⟨hm, hkept⟩, hone, hholds.mono ?_ ?_ ?_⟩
    · intro c hc hfile
      rw [← hfile]
      exact (hp.chunks c).mpr ⟨hc, hfile ▸ hkept⟩
    · rintro r hr - ⟨c, hc, hfile, hcid⟩
      exact Or.inl ((hp.replicas r).mpr ⟨hr, c, (hp.chunks c).mpr ⟨hc, hfile ▸ hkept⟩, hcid⟩)
    · rw [hp.channels]
      exact fun _ _ hg => hg

/-- A replace of a live row keeps the kept one, and its bytes if it is the one replaced. -/
lemma Keeping.replaceContent (h : Keeping db₀ row db) (hint : db.Intact n) {fileId : Uuid}
    {expected : Option ContentHash} {retiredPath : Path} {incoming : InFile} {now : Instant}
    (hok : db.replaceContent fileId expected retiredPath incoming n now = .ok db') :
    Keeping db₀ row db' := by
  obtain ⟨current, hcur, hid, hcl, -, -, hfiles, hchunks, hreplicas, hchannels, -, -, hevents⟩ :=
    replaceContent_ok hint hok
  obtain ⟨r, hr, hrid, hs, hpath, hl⟩ := h.live
  refine ⟨?_, ?_, ?_⟩
  · by_cases hrow : r.id = fileId
    · obtain rfl := hint.wf.idUnique r hr current hcur (hrow.trans hid.symm)
      exact ⟨_, (hfiles _).mpr (Or.inl rfl), hrid, hs, hpath, hl⟩
    · exact ⟨r, (hfiles r).mpr (Or.inr (Or.inl ⟨hr, hrow⟩)), hrid, hs, hpath, hl⟩
  · intro e he hes hep hop
    rcases hevents e he with he | hup
    · exact h.silent e he hes hep hop
    · rw [hop] at hup
      cases hup
  · obtain ⟨holder, hm, hone, hholds⟩ := h.attached
    have hreps : ∀ r ∈ db.replicas, r.status = .uploaded →
        r ∈ db'.replicas ∨ ∀ ch ∈ db'.channels, ch.id ≠ r.channelId :=
      fun r hr _ => Or.inl (hreplicas ▸ hr)
    have hgone : ∀ r ∈ db₀.replicas, (∀ ch ∈ db.channels, ch.id ≠ r.channelId) →
        ∀ ch ∈ db'.channels, ch.id ≠ r.channelId := by
      rw [hchannels]
      exact fun _ _ hg => hg
    by_cases hheld : holder.id = fileId
    · -- the holder is the replaced row: its chunks go to the trash with the version
      by_cases hkeep : current.isUploaded = true ∨ db.HasChunks fileId
      · refine ⟨_, (hfiles _).mpr (Or.inr (Or.inr ⟨hkeep, rfl⟩)), ?_, hholds.mono ?_ ?_ hgone⟩
        · intro hlive
          exact absurd hlive (Option.some_ne_none now)
        · intro c hc hfile
          rw [hchunks]
          exact List.mem_map.mpr ⟨c, hc, if_pos (hfile.trans hheld)⟩
        · exact fun r hr hup _ => hreps r hr hup
      · have hnone : ∀ c ∈ db.chunks, c.fileId ≠ holder.id := by
          intro c hc hfile
          exact hkeep (Or.inr ⟨c, hc, hfile.trans hheld⟩)
        refine ⟨_, (hfiles _).mpr (Or.inl rfl), ?_, hholds.mono ?_ ?_ hgone⟩
        · intro _
          obtain rfl := hint.wf.idUnique holder hm current hcur (hheld.trans hid.symm)
          exact hone hcl
        · intro c hc hfile
          exact absurd hfile (hnone c hc)
        · exact fun r hr hup _ => hreps r hr hup
    · refine ⟨holder, (hfiles holder).mpr (Or.inr (Or.inl ⟨hm, hheld⟩)), hone,
        hholds.mono ?_ ?_ hgone⟩
      · intro c hc hfile
        rw [hchunks]
        refine List.mem_map.mpr ⟨c, hc, ?_⟩
        rw [movedChunk, if_neg (hfile ▸ hheld), ← hfile]
      · exact fun r hr hup _ => hreps r hr hup

lemma Keeping.grow (h : Keeping db₀ row db) (hfiles : db'.files = db.files)
    (hevents : db'.events = db.events) (hchunks : ∀ c ∈ db.chunks, c ∈ db'.chunks)
    (hreplicas : ∀ r ∈ db.replicas, r.status = .uploaded →
      r ∈ db'.replicas ∨ ∀ ch ∈ db'.channels, ch.id ≠ r.channelId)
    (hgone : ∀ r ∈ db₀.replicas, (∀ ch ∈ db.channels, ch.id ≠ r.channelId) →
      ∀ ch ∈ db'.channels, ch.id ≠ r.channelId) : Keeping db₀ row db' where
  live := hfiles ▸ h.live
  silent := hevents ▸ h.silent
  attached := by
    obtain ⟨holder, hm, hone, hholds⟩ := h.attached
    refine ⟨holder, hfiles ▸ hm, hone, hholds.mono ?_ (fun r hr hup _ => hreplicas r hr hup) hgone⟩
    intro c hc hfile
    rw [← hfile]
    exact hchunks c hc

lemma Keeping.insertFile (h : Keeping db₀ row db) {new : FileRow}
    (hok : db.insertFile new = .ok db') : Keeping db₀ row db' := by
  have hfiles := fun r => mem_insertFile (r := r) hok
  have hevents := insertFile_events hok
  obtain ⟨-, -, -, rfl⟩ := insertFile_ok hok
  obtain ⟨r, hr, hrow⟩ := h.live
  obtain ⟨holder, hm, hone, hholds⟩ := h.attached
  refine ⟨⟨r, (hfiles r).mpr (Or.inl hr), hrow⟩, ?_, ⟨holder, (hfiles holder).mpr (Or.inl hm),
    hone, hholds⟩⟩
  intro e he hes hep hop
  rcases hevents e he with he | hup
  · exact h.silent e he hes hep hop
  · rw [hop] at hup
    cases hup

lemma Keeping.updateById (h : Keeping db₀ row db) (hwf : db.Wf) {id : Uuid}
    {f : FileRow → FileRow} (hf : InPlace f) (hok : db.updateById id f = .ok db') :
    Keeping db₀ row db' := by
  obtain ⟨db₁, hok₁, -, hfiles, hchunks, hreplicas, hchannels, -, -, hevents⟩ :=
    updateById_ok hwf id hf
  rw [hok] at hok₁
  cases hok₁
  have hrows : ∀ q ∈ db.files, ∃ q' ∈ db'.files, q'.id = q.id ∧ q'.storageId = q.storageId ∧
      q'.path = q.path ∧ (q'.Live ↔ q.Live) := by
    intro q hq
    refine ⟨_, (hfiles _).mpr ⟨q, hq, rfl⟩, ?_⟩
    split
    · obtain ⟨hid, hs, hp, hd⟩ := hf q
      exact ⟨hid, hs, hp, by rw [FileRow.Live, FileRow.Live, hd]⟩
    · exact ⟨rfl, rfl, rfl, Iff.rfl⟩
  obtain ⟨r, hr, hrid, hs, hp, hl⟩ := h.live
  obtain ⟨r', hr', hid', hs', hp', hl'⟩ := hrows r hr
  obtain ⟨holder, hm, hone, hholds⟩ := h.attached
  obtain ⟨holder', hm', hhid, -, -, hhl⟩ := hrows holder hm
  refine ⟨⟨r', hr', hid'.trans hrid, hs'.trans hs, hp'.trans hp, hl'.mpr hl⟩, ?_,
    ⟨holder', hm', fun hlive => hhid.trans (hone (hhl.mp hlive)), ?_⟩⟩
  · intro e he hes hep hop
    rcases hevents e he with he | hup
    · exact h.silent e he hes hep hop
    · rw [hop] at hup
      cases hup
  · rw [hhid]
    refine hholds.mono ?_ (fun r hr _ _ => Or.inl (hreplicas ▸ hr)) ?_
    · intro c hc hfile
      rw [hchunks, ← hfile]
      exact hc
    · rw [hchannels]
      exact fun _ _ hg => hg

end Db

/-! ## Steps -/

variable {σ₀ σ : Process} {row : FileRow} {u : Upload} {o : Outcome}

lemma Process.of_mem_interrupted {db : Db} (hwf : db.Wf) {r : FileRow} (hr : r ∈ db.files)
    (hin : r.id ∈ interrupted db) : r.isUploaded = false ∧ r.Live ∧ ¬ db.HasChunks r.id := by
  obtain ⟨q, hq, hcond, hid⟩ := mem_idsWhere.mp hin
  rw [hwf.idUnique q hq r hr hid] at hcond
  exact decide_eq_true_iff.mp hcond

lemma purges_act {a : Act} {fileId : Uuid} (ho : σ.act u a = some o)
    (hpurges : o.phase.Purges fileId) :
    (a = .look ∧ u.phase = .looking ∧ ∃ existing, Found σ u.request existing ∧
      existing.id = fileId ∧ existing.isUploaded = false ∧ ¬ σ.RelayInFlight fileId ∧
      ¬ resumable existing u.request.inFile.size) ∨
    ((∃ timedOut, a = .awake timedOut) ∧ ∃ existing, u.phase = .waiting existing ∧
      existing.id = fileId ∧ ¬ σ.RelayInFlight fileId ∧
      (∀ file, σ.db.fileById fileId = some file → file.isUploaded = false) ∧
      ¬ resumable existing u.request.inFile.size) ∨
    (a = .count true ∧ u.gone = false ∧ ∃ file e, u.phase = .failing file e ∧ file.id = fileId ∧
      σ.db.listStoredChunkPositions fileId = []) := by
  cases Process.act_moves ho with
  | @turn phase ht =>
    generalize hp : u.phase = p at ht
    cases ht with
    | abandon hfound hidle hunfinished hres =>
      subst hpurges
      left
      refine ⟨?_, rfl, _, hfound, rfl, hunfinished, hidle, hres⟩
      cases a <;> simp only [Process.act, hp, reduceCtorEq] at ho
      rfl
    | abandonLate hidle hunfinished hres =>
      subst hpurges
      right; left
      refine ⟨?_, _, rfl, rfl, hidle, hunfinished, hres⟩
      cases a <;> simp only [Process.act, hp, reduceCtorEq] at ho
      exact ⟨_, rfl⟩
    | giveUp hempty =>
      subst hpurges
      right; right
      cases a with
      | count readable =>
        simp only [Process.act, hp, Option.ite_none_left_eq_some, Bool.not_eq_true] at ho
        obtain ⟨hpresent, ho⟩ := ho
        cases readable with
        | true => exact ⟨rfl, hpresent, _, _, rfl, rfl, hempty⟩
        | false =>
          simp only [Process.count, Process.turn, Bool.false_eq_true, false_and, if_false,
            Option.some.injEq, Outcome.mk.injEq, reduceCtorEq] at ho
      | _ => simp only [Process.act, hp, reduceCtorEq] at ho
    | _ => exact absurd hpurges id
  | purge => exact absurd hpurges id
  | drop => exact absurd hpurges id
  | mark =>
    simp only at hpurges
    split at hpurges <;> exact absurd hpurges id
  | _ => exact absurd hpurges id

namespace Held

lemma keeps (h : Held σ₀ row σ) : Keeps σ₀ row σ where
  live := by
    obtain ⟨r, hr, -, hs, hp, hl⟩ := h.keeping.live
    rw [← hs, ← hp, Db.liveAt_of_mem h.intact.db.wf hr hl]
    rfl
  silent := h.keeping.silent
  attached := by
    obtain ⟨holder, hm, hid, hholds⟩ := h.keeping.attached
    refine ⟨holder, hm, ?_, hholds⟩
    intro hl
    obtain ⟨r, hr, hrid, hs, hp, -⟩ := h.keeping.live
    rw [h.intact.db.wf.idUnique holder hm r hr ((hid hl).trans hrid.symm)]
    exact ⟨hs, hp⟩

lemma start (h : σ₀.Intact) (hmem : row ∈ σ₀.db.files) (hlive : row.Live)
    (hidle : ∀ u ∈ σ₀.uploads, ¬ u.phase.Purges row.id) : Held σ₀ row σ₀ := by
  refine ⟨h, Nat.le_refl _, ⟨⟨row, hmem, rfl, rfl, rfl, hlive⟩, fun e he _ _ _ => he,
    ⟨row, hmem, fun _ => rfl, ?_⟩⟩, hidle⟩
  intro c hc hfile
  refine ⟨?_, fun r hr _ _ => Or.inl hr⟩
  rw [← hfile]
  exact hc

lemma keeping_purge (h : Held σ₀ row σ) {f : FileRow} (hu : u ∈ σ.uploads)
    (hf : u.phase.row = some f) (hne : f.id ≠ row.id) (purged : Bool) (phase : Phase) :
    Db.Keeping σ₀.db row (σ.purge f.id purged phase).db := by
  cases purged with
  | false => exact h.keeping
  | true =>
    apply h.keeping.purged h.intact.db (Db.purged_hardDeleteIds h.intact.db [f.id] []).2
    · intro r hr hid
      exact h.intact.rowLive u hu f hf r hr (List.mem_singleton.mp hid)
    · intro hid
      exact hne (List.mem_singleton.mp hid).symm

lemma keeping_moves (h : Held σ₀ row σ) (hu : u ∈ σ.uploads) (hm : Moves σ u o) :
    Db.Keeping σ₀.db row o.db := by
  have hstay : ∀ r ∈ σ₀.db.replicas, (∀ ch ∈ σ.db.channels, ch.id ≠ r.channelId) →
      ∀ ch ∈ σ.db.channels, ch.id ≠ r.channelId := fun _ _ hg => hg
  cases hm with
  | turn ht => exact h.keeping
  | purge purged hp =>
    refine h.keeping_purge hu (by rw [hp]; rfl) ?_ purged _
    intro hid
    exact h.spared u hu (by rw [hp]; exact hid)
  | drop purged hp =>
    refine h.keeping_purge hu (by rw [hp]; rfl) ?_ purged _
    intro hid
    exact h.spared u hu (by rw [hp]; exact hid)
  | replace hp hok hfile => exact h.keeping.replaceContent h.intact.db hok
  | create hp hok => exact h.keeping.insertFile (Db.createFileRow_ok hok)
  | plan hp hok =>
    obtain ⟨-, hed, hch⟩ := Process.resolvePrimaryChannel_spec h.intact.db hok
    refine h.keeping.grow hed.files hed.events (fun c hc => hed.chunks ▸ hc) hed.kept ?_
    rw [hch]
    exact hstay
  | send hp hslice htarget hfresh hok =>
    obtain ⟨-, -, -, rfl⟩ := Db.createChunkWithReplica_ok hok
    exact h.keeping.grow rfl rfl (fun c hc => List.mem_append_left _ hc)
      (fun r hr _ => Or.inl (List.mem_append_left _ hr)) hstay
  | refuse hp hfresh => exact h.keeping
  | link hp hreplicas hok =>
    subst hreplicas
    obtain ⟨-, hreq⟩ := h.intact.db.insertBatch hok
    refine h.keeping.grow hreq.files hreq.events (fun c hc => hreq.chunks ▸ hc)
      (fun r hr _ => Or.inl (hreq.kept r hr)) ?_
    rw [hreq.channels]
    exact hstay
  | linkFails hp => exact h.keeping
  | mark hp hok => exact h.keeping.updateById h.intact.db.wf Db.inPlace_uploaded hok

lemma spared_act {number : Nat} {a : Act} (hu : σ.upload? number = some u)
    (ho : σ.act u a = some o) (hok : Spares row.id σ (.act number a)) :
    ¬ o.phase.Purges row.id := by
  intro hpurges
  rcases purges_act ho hpurges with ⟨rfl, hp, existing, hfound, hid, hun, hidle, hres⟩ |
    ⟨⟨timedOut, rfl⟩, existing, hp, hid, hidle, hun, hres⟩ |
    ⟨rfl, hpresent, file, e, hp, hid, hempty⟩
  · have hspares := hok u hu
    simp only [SparesAct, hp] at hspares
    rcases hspares existing hfound.live hid hfound.hash hfound.some_hash with hup | hrelay | hr
    · rw [hun] at hup
      cases hup
    · exact hidle hrelay
    · exact hres hr
  · have hspares := hok u hu
    simp only [SparesAct, hp] at hspares
    rcases hspares hid with ⟨file, hfile, hup⟩ | hrelay | hr
    · rw [hun file hfile] at hup
      cases hup
    · exact hidle hrelay
    · exact hres hr
  · have hspares := hok u hu
    simp only [SparesAct, hp, hpresent, Bool.false_eq_true, false_or] at hspares
    exact hspares hid hempty

lemma not_interrupted (h : Held σ₀ row σ) {order : List Uuid}
    (hok : Spares row.id σ (.restart order)) : row.id ∉ Process.interrupted σ.db := by
  intro hin
  obtain ⟨r, hr, hid, -⟩ := h.keeping.live
  obtain ⟨hun, -, hno⟩ := Process.of_mem_interrupted h.intact.db.wf hr (hid ▸ hin)
  rcases hok r hr hid with hup | hchunks
  · rw [hun] at hup
    cases hup
  · exact hno (hid ▸ hchunks)

/-- A step that spares the row keeps it. -/
theorem step (h : Held σ₀ row σ) (hbelow : σ₀.db.Intact σ₀.next) (a : Step)
    (hok : Spares row.id σ a) : Held σ₀ row (σ.step a) := by
  have hint := h.intact.step a
  cases a with
  | arrive number r =>
    rcases σ.step_arrive number r with heq | ⟨-, phase, hphase, heq⟩
    · rw [heq]
      exact h
    · rw [heq] at hint ⊢
      refine ⟨hint, h.next_le, h.keeping, ?_⟩
      intro u hu
      cases List.mem_append.mp hu with
      | inl hu => exact h.spared u hu
      | inr hu =>
        rw [List.mem_singleton.mp hu]
        rcases hphase with rfl | rfl <;> exact id
  | act number a =>
    rcases σ.step_act number a with heq | ⟨u, o, hu, hmem, ho, hm, heq⟩
    · rw [heq]
      exact h
    · rw [heq] at hint ⊢
      have hle := (Process.db_moves h.intact.db hm).2
      refine ⟨hint, Nat.le_trans h.next_le hle, h.keeping_moves hmem hm, ?_⟩
      intro v hv
      rcases Process.mem_commit hv with ⟨hv, -⟩ | ⟨w, -, -, rfl⟩
      · exact h.spared v hv
      · exact spared_act hu ho hok
  | disconnect number handed =>
    have hl := Process.left_disconnect σ number handed
    refine ⟨hint, ?_, ?_, ?_⟩
    · rw [Process.step, hl.next]
      exact h.next_le
    · rw [Process.step, hl.db]
      exact h.keeping
    · intro v hv
      obtain ⟨u, hu, -, -, hphase | hphase, -⟩ := hl.uploads v hv
      · rw [hphase]
        exact h.spared u hu
      · rw [hphase]
        exact id
  | edit e =>
    have ht := Process.tuned_edit h.intact.db e
    refine ⟨hint, Nat.le_trans h.next_le ht.next_le, ?_, ?_⟩
    · refine h.keeping.grow ht.files ht.events (fun c hc => ht.chunks ▸ hc) ht.kept ?_
      intro r hr hg ch hch
      rcases ht.channels ch hch with ⟨ch', hch', hid⟩ | hnew
      · rw [← hid]
        exact hg ch' hch'
      · obtain ⟨old, hold, hid⟩ := hbelow.replicaChannel r hr
        rw [← hid]
        exact (Nat.lt_of_lt_of_le (hbelow.channelBelow old hold)
          (Nat.le_trans h.next_le hnew)).ne'
    · intro u hu
      rw [Process.step, ht.uploads] at hu
      exact h.spared u hu
  | restart order =>
    refine ⟨hint, h.next_le, ?_, fun u hu => absurd hu List.not_mem_nil⟩
    apply h.keeping.purged h.intact.db (Db.purged_hardDeleteIds h.intact.db _ order).2
    · exact fun r hr hin => (Process.of_mem_interrupted h.intact.db.wf hr hin).2.1
    · exact h.not_interrupted hok

end Held

/-! ## Runs -/

lemma lost_of_purge (h : σ.Intact) {number : Nat} (hu : σ.upload? number = some u)
    (hpurges : u.phase.Purges row.id)
    (hpresent : ∀ file e, u.phase = .dropping file e → u.gone = false)
    (hlive : ∃ r ∈ σ.db.files, r.id = row.id ∧ r.storageId = row.storageId ∧ r.path = row.path ∧
      r.Live) :
    ∃ b, ((σ.step b).db.liveAt row.storageId row.path).isNone := by
  obtain ⟨r, hr, hid, hs, hp, hl⟩ := hlive
  have hgone : ((σ.db.hardDeleteIds [row.id] []).liveAt row.storageId row.path).isNone := by
    rw [Option.isNone_iff_eq_none, Db.liveAt_none]
    intro q hq hqs hql hqp
    obtain ⟨hqm, hqid⟩ := ((Db.purged_hardDeleteIds h.db [row.id] []).2.files q).mp hq
    rw [h.db.wf.aliveUnique q hqm r hr hql hl (hqs.trans hs.symm) (hqp.trans hp.symm), hid] at hqid
    exact hqid (List.mem_singleton_self _)
  cases hphase : u.phase with
  | purging existing =>
    rw [hphase] at hpurges
    have hex : existing.id = row.id := hpurges
    refine ⟨.act number (.purge true), ?_⟩
    rw [Process.step_act_eq (o := σ.purge existing.id true .settling) hu
      (by simp only [Process.act, hphase])]
    show ((σ.db.hardDeleteIds [existing.id] []).liveAt _ _).isNone
    rw [hex]
    exact hgone
  | dropping file e =>
    rw [hphase] at hpurges
    have hex : file.id = row.id := hpurges
    refine ⟨.act number (.drop true), ?_⟩
    rw [Process.step_act_eq (o := σ.purge file.id true (.answered (.error e))) hu
      (by simp only [Process.act, hphase, hpresent file e hphase, Bool.false_eq_true, if_false])]
    show ((σ.db.hardDeleteIds [file.id] []).liveAt _ _).isNone
    rw [hex]
    exact hgone
  | _ =>
    rw [hphase] at hpurges
    exact absurd hpurges id

/-- A step that does not spare the row decides to purge it, or has just lost it. -/
lemma purges_of_not_spares (h : Held σ₀ row σ) {a : Step} (hbad : ¬ Spares row.id σ a) :
    (∃ number u, (σ.step a).upload? number = some u ∧ u.phase.Purges row.id ∧
        (∀ file e, u.phase = .dropping file e → u.gone = false) ∧
        Db.Keeping σ₀.db row (σ.step a).db) ∨
      ((σ.step a).db.liveAt row.storageId row.path).isNone := by
  have hturn : ∀ {number a u o}, σ.upload? number = some u → σ.act u a = some o →
      o.phase.Purges row.id → (∀ file e, o.phase = .dropping file e → u.gone = false) →
      ∃ number' u', (σ.step (.act number a)).upload? number' = some u' ∧
        u'.phase.Purges row.id ∧ (∀ file e, u'.phase = .dropping file e → u'.gone = false) ∧
        Db.Keeping σ₀.db row (σ.step (.act number a)).db := by
    intro number a u o hu ho hp hpresent
    rw [Process.step_act_eq hu ho]
    exact ⟨number, _, Process.upload?_commit hu, hp, hpresent,
      h.keeping_moves (List.mem_of_find?_eq_some hu) (Process.act_moves ho)⟩
  cases a with
  | arrive number r => exact absurd trivial hbad
  | disconnect number handed => exact absurd trivial hbad
  | edit e => exact absurd trivial hbad
  | restart order =>
    right
    simp only [Spares, not_forall, not_or] at hbad
    obtain ⟨r, hr, hid, hun, hno⟩ := hbad
    obtain ⟨q, hq, hqid, hqs, hqp, hql⟩ := h.keeping.live
    have hqr := h.intact.db.wf.idUnique q hq r hr (hqid.trans hid.symm)
    subst hqr
    rw [Option.isNone_iff_eq_none, Db.liveAt_none]
    intro f hf hfs hfl hfp
    obtain ⟨hfm, hfid⟩ := ((Db.purged_hardDeleteIds h.intact.db _ order).2.files f).mp hf
    rw [h.intact.db.wf.aliveUnique f hfm q hq hfl hql (hfs.trans hqs.symm) (hfp.trans hqp.symm)]
      at hfid
    refine hfid (mem_idsWhere.mpr ⟨q, hq, decide_eq_true_iff.mpr ⟨?_, hql, ?_⟩, rfl⟩)
    · exact Bool.not_eq_true _ ▸ hun
    · rw [hqid]
      exact hno
  | act number a =>
    left
    simp only [Spares, not_forall] at hbad
    obtain ⟨u, hu, hbad⟩ := hbad
    cases a with
    | look =>
      cases hp : u.phase with
      | looking =>
        simp only [SparesAct, hp, not_forall, not_or] at hbad
        obtain ⟨existing, hlive, hid, hsame, hsome, hun, hidle, hres⟩ := hbad
        have hlook : σ.look u.request = .purging existing := by
          obtain ⟨hash, hhash⟩ := Option.isSome_iff_exists.mp hsome
          rw [hhash] at hsame
          simp only [Process.look, hhash, Option.mem_def.mp hlive, hsame, if_true, if_neg hun, hid,
            if_neg hidle, Process.resume, if_neg hres]
        refine hturn hu (o := σ.turn (.purging existing))
          (by simp only [Process.act, hp, hlook]) hid fun file e hno => ?_
        cases hno
      | _ => simp only [SparesAct, hp, not_true_eq_false] at hbad
    | awake timedOut =>
      cases hp : u.phase with
      | waiting existing =>
        simp only [SparesAct, hp, not_forall, not_or, not_exists, not_and] at hbad
        obtain ⟨hid, hun, hidle, hres⟩ := hbad
        have hawake : σ.awake u.request existing timedOut = .purging existing := by
          unfold Process.awake
          rw [hid, if_neg hidle]
          simp only [Process.resume, if_neg hres]
          split
          · case h_1 file hfile => rw [if_neg (hun file hfile)]
          · rfl
        refine hturn hu (o := σ.turn (.purging existing))
          (by simp only [Process.act, hp, hawake]) hid fun file e hno => ?_
        cases hno
      | _ => simp only [SparesAct, hp, not_true_eq_false] at hbad
    | count readable =>
      cases readable with
      | false => exact absurd trivial hbad
      | true =>
        cases hp : u.phase with
        | failing file e =>
          simp only [SparesAct, hp, not_or, not_forall, ne_eq, not_not, Bool.not_eq_true] at hbad
          obtain ⟨hpresent, hid, hempty⟩ := hbad
          have hcount : σ.count file e true = .dropping file e := by
            rw [Process.count, if_pos ⟨rfl, hid ▸ hempty⟩]
          exact hturn hu (o := σ.turn (.dropping file e))
            (by simp only [Process.act, hp, hpresent, Bool.false_eq_true, if_false, hcount]) hid
            fun _ _ _ => hpresent
        | _ => simp only [SparesAct, hp, not_true_eq_false] at hbad
    | _ => exact absurd trivial hbad

/-- While uploads replace a live row, fail, crash and are cleaned up after, the path keeps a row,
    silently, and its bytes stay attached, in every run whose steps spare the row; and a step that does
    not spare it empties the path, at once or with the next turn. -/
theorem replace_keeps_path {σ₀ : Process} (h : σ₀.Intact) {row : FileRow}
    (hrow : σ₀.db.liveAt row.storageId row.path = some row)
    (hidle : ∀ u ∈ σ₀.uploads, ¬ u.phase.Purges row.id) (steps : List Step)
    (hok : AllOk Process.step (Spares row.id) σ₀ steps) :
    Always Process.step (Keeps σ₀ row) σ₀ steps ∧
      ∀ a, ¬ Spares row.id (run Process.step σ₀ steps) a →
        ¬ Keeps σ₀ row (run Process.step σ₀ (steps ++ [a])) ∨
        ∃ b, ¬ Keeps σ₀ row (run Process.step σ₀ (steps ++ [a, b])) := by
  obtain ⟨hmem, -, -, hlive⟩ := Db.liveAt_some hrow
  have hstart : Held σ₀ row σ₀ := Held.start h hmem hlive hidle
  have hheld : Always Process.step (Held σ₀ row) σ₀ steps :=
    always_of_allOk (fun σ a hσ ha => hσ.step h.db a ha) hstart hok
  constructor
  · rw [always_iff_prefixes] at hheld ⊢
    exact fun pre hpre => (hheld pre hpre).keeps
  · intro a hbad
    have hend := hheld.last
    rw [run_append, run_cons, run_nil]
    rcases purges_of_not_spares hend hbad with ⟨number, u, hu, hpurges, hpresent, hkeeping⟩ |
      hgone
    · right
      obtain ⟨b, hb⟩ := lost_of_purge (hend.intact.step a) hu hpurges hpresent hkeeping.live
      refine ⟨b, fun hkeeps => ?_⟩
      rw [run_append, run_cons, run_cons, run_nil] at hkeeps
      have hsome := hkeeps.live
      rw [Option.isNone_iff_eq_none.mp hb] at hsome
      cases hsome
    · left
      intro hkeeps
      have hsome := hkeeps.live
      rw [Option.isNone_iff_eq_none.mp hgone] at hsome
      cases hsome

/-! ## A replace that stores nothing -/

def oldVersion : FileRow :=
  InFile.toRow ⟨"a.txt".toList, 2, 0, some 1, none, none, some "sha256:old"⟩ 3 true

/-- A storage with a bot, a channel and the uploaded file. -/
def oneFile : Process where
  db :=
    { storages := [⟨0, 1⟩]
      workers := [⟨1, some 0⟩]
      channels := [⟨2, 0, 1, -100, .active⟩]
      files := [oldVersion]
      chunks := [⟨4, 3, 0⟩, ⟨5, 3, 1⟩]
      replicas := [.newUploaded 6 4 2 "old-0" 10, .newUploaded 7 5 2 "old-1" 11]
      events := [⟨eventOf .upsert oldVersion, 1⟩]
      eventSeq := 1 }
  uploads := []
  documents := [("old-0", [1]), ("old-1", [2])]
  inFlight := []
  next := 8
  maxVariables := 32766

def newVersion : UploadRequest where
  storageId := 0
  path := "a.txt".toList
  body := [7, 8]
  chunkSize := 1
  sourceCreatedAt := none
  sourceMtime := none
  contentHash := some "sha256:new"
  replace := true
  isFile := by decide
  chunkSize_pos := by decide

/-- The turns of a replace up to its first chunk. -/
def startReplace : List Step :=
  [.arrive 0 newVersion, .act 0 .look, .act 0 .settle,
    .act 0 (.replace 0 "1970-01-01 00-00-00".toList), .act 0 .begin, .act 0 .plan]

/-- A replace whose first chunk fails: the row is purged, and the clients are told to delete. -/
theorem failedReplace_emptiesPath :
    (oneFile.db.liveAt 0 "a.txt".toList).isSome ∧
    ((run Process.step oneFile (startReplace ++ [.act 0 (.sendFails .unknown), .act 0 (.count true),
      .act 0 (.drop true)])).db.liveAt 0 "a.txt".toList).isNone ∧
    ((run Process.step oneFile (startReplace ++ [.act 0 (.sendFails .unknown), .act 0 (.count true),
      .act 0 (.drop true)])).db.events.map fun e => (e.path, e.op)) =
      [("a.txt".toList, .upsert), ("a.txt".toList, .delete)] := by
  refine ⟨?_, ?_, ?_⟩ <;> decide +kernel

lemma oneFile_intact : oneFile.Intact where
  db := by
    refine ⟨⟨?_, ?_, ?_, ?_, ?_⟩, ?_, ?_, ?_, ?_, ?_, ?_, ?_, ?_, ?_, ?_, ?_⟩ <;> decide +kernel
  rowBelow := fun u hu => absurd hu List.not_mem_nil
  rowLive := fun u hu => absurd hu List.not_mem_nil

/-- A replace that fails behind its first chunk keeps the path. -/
theorem halfReplace_keeps :
    Always Process.step (Keeps oneFile oldVersion) oneFile (startReplace ++
      [.act 0 (.send 0 "new-0" 12), .act 0 (.sendFails .unknown), .act 0 (.count true),
        .restart []]) := by
  have hrow : oneFile.db.liveAt oldVersion.storageId oldVersion.path = some oldVersion := by
    decide +kernel
  exact (replace_keeps_path oneFile_intact hrow (fun u hu => absurd hu List.not_mem_nil) _
    (by decide +kernel)).1

end Sarca.Server
