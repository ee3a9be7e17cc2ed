import Mathlib.Data.Fintype.EquivFin
import Sarca.Server.Stored

/-!
# Relays of one row

The relays of one row, one after the other: each plans the positions that are missing, stores any of
them in any order, and fails, crashes or sets the row uploaded. `Composes` asks that a stored position
holds the slice at this position, that a position is not planned again once it is stored, and that what
is read from the uploaded row is the whole file. `relays_compose`: that is so in every sequence of
relays as long as the file has no more chunks than an `i16` tells apart, and not beyond.
-/

namespace Sarca.Server
open Sarca.Lib

/-- A server on which relays of one row run; `stored` are the positions they recorded. -/
structure Relays where
  process : Process
  stored : List Nat

inductive RelayStep where
  /-- the next attempt is handed to the storage manager, when no other one is running -/
  | start
  | act (a : Act)
  | crash (order : List Uuid)

namespace Relays

def recorded (before after : Process) : Act → List Nat
  | .send position _ _ =>
    if after.db.chunks = before.db.chunks then [] else [position]
  | _ => []

/-- The relays of the row `file`, which send the bytes of `r`. -/
def step (r : UploadRequest) (file : FileRow) (s : Relays) : RelayStep → Relays
  | .start =>
    if s.process.RelayRuns file.id then s
    else { s with process := { s.process with uploads := [⟨0, r, .queued file, false⟩] } }
  | .act a =>
    { process := s.process.step (.act 0 a)
      stored := s.stored ++ recorded s.process (s.process.step (.act 0 a)) a }
  | .crash order => { s with process := s.process.restart order }

end Relays

structure Composes (file : FileRow) (body : Bytes) (s : Relays) : Prop where
  /-- A stored position is one chunk, and holds the slice at this position. -/
  slices : ∀ c ∈ s.process.db.chunks, c.fileId = file.id →
    (∀ c' ∈ s.process.db.chunks, c'.fileId = file.id → c'.position = c.position → c' = c) ∧
    ∃ position < chunkCount body.length (Process.chunkSizeOf file), c.position = position ∧
      ∀ r ∈ s.process.db.replicas, r.chunkId = c.id → r.status = .uploaded →
        r.read s.process.documents = some (slice body (Process.chunkSizeOf file) position)
  /-- No slice is about to be sent that was stored. -/
  once : ∀ u ∈ s.process.uploads, ∀ f channels plan ids,
    u.phase = .sending f channels plan ids → ∀ p ∈ plan, p.1 ∉ s.stored
  /-- The uploaded row can be read, and reads as the file. -/
  whole : ∀ row ∈ s.process.db.files, row.id = file.id → row.isUploaded = true →
    (∃ parts, IsReading s.process row.id parts) ∧
      ∀ parts, IsReading s.process row.id parts → parts.flatten = body

/-! ## What the relays keep -/

/-- A relay of the row, with its plan and what it found stored. -/
def Phase.Keeps (body : Bytes) (file : FileRow) (db : Db) (stored : List Nat) : Phase → Prop
  | .queued f | .failing f _ => f = file
  | .sending f _ plan _ => f = file ∧ Done db body file plan ∧ ∀ p ∈ plan, p.1 ∉ stored
  | .marking f _ => f = file ∧ Done db body file []
  | .dropping f _ => f = file ∧ ∀ c ∈ db.chunks, c.fileId ≠ file.id
  | .answered _ => True
  | _ => False

structure Gathers (r : UploadRequest) (file : FileRow) (db : Db)
    (documents : List (String × Bytes)) (stored : List Nat) : Prop where
  same : ∀ row ∈ db.files, row.id = file.id →
    row.chunkSizeBytes = file.chunkSizeBytes ∧ Holds db documents row r.body
  readable : ∀ c ∈ db.chunks, c.fileId = file.id → db.StoredChunk c
  stored : ∀ q ∈ stored, ∃ c ∈ db.chunks, c.fileId = file.id ∧ c.position = q

/-- What every sequence of relays keeps while the positions are told apart. -/
structure Composing (r : UploadRequest) (file : FileRow) (s : Relays) : Prop where
  intact : s.process.Intact
  live : ∀ row ∈ s.process.db.files, row.id = file.id → row.Live
  below : file.id < s.process.next
  gathers : Gathers r file s.process.db s.process.documents s.stored
  relays : ∀ u ∈ s.process.uploads, u.number = 0 ∧ u.request = r ∧
    u.phase.Keeps r.body file s.process.db s.stored

lemma toPosition_of_lt {position : Nat} (h : position < 32768) : toPosition position = position := by
  unfold toPosition
  omega

lemma chunkSizeOf_congr {row file : FileRow} (h : row.chunkSizeBytes = file.chunkSizeBytes) :
    Process.chunkSizeOf row = Process.chunkSizeOf file := by
  rw [Process.chunkSizeOf, h, Process.chunkSizeOf]

lemma Composing.composes {r : UploadRequest} {file : FileRow} {s : Relays}
    (h : Composing r file s)
    (htotal : chunkCount r.body.length (Process.chunkSizeOf file) ≤ 32768) :
    Composes file r.body s := by
  constructor
  · intro c hc hfile
    obtain ⟨row, hrow, hid⟩ := h.intact.db.chunkFile c hc
    obtain ⟨hchunk, hholds⟩ := h.gathers.same row hrow (hid.trans hfile)
    obtain ⟨position, hlt, hpos, hreads⟩ := hholds.slices c hc hid.symm
    rw [chunkSizeOf_congr hchunk] at hlt hreads
    rw [toPosition_of_lt (Nat.lt_of_lt_of_le hlt htotal)] at hpos
    refine ⟨fun c' hc' hfile' hpos' => ?_, position, hlt, hpos, hreads⟩
    exact h.intact.db.chunkPosition c' hc' c hc (hfile'.trans hfile.symm) hpos'
  · intro u hu f channels plan ids hphase
    have hkeeps := (h.relays u hu).2.2
    rw [hphase] at hkeeps
    exact hkeeps.2.2
  · intro row hrow hid hup
    obtain ⟨-, hholds⟩ := h.gathers.same row hrow hid
    refine ⟨hholds.readable fun c hc hfile => ?_, fun parts hparts =>
      hholds.reading h.intact hup hparts⟩
    obtain ⟨q, hq, hqc, hread⟩ := h.gathers.readable c hc (hfile.trans hid)
    exact ⟨q, hq, hqc, hread.1⟩

section Turn

variable {r : UploadRequest} {file : FileRow} {db db' : Db}
  {documents documents' : List (String × Bytes)} {stored : List Nat}

lemma Gathers.stay (h : Gathers r file db documents stored)
    (hfiles : ∀ row ∈ db'.files, row ∈ db.files)
    (hbacked : Backed db documents db' documents')
    (hchunks : ∀ c, c.fileId = file.id → (c ∈ db'.chunks ↔ c ∈ db.chunks))
    (hreplicas : ∀ q ∈ db.replicas, q.Readable → (∃ c ∈ db'.chunks, c.id = q.chunkId) →
      q ∈ db'.replicas) : Gathers r file db' documents' stored where
  same := by
    intro row hrow hid
    obtain ⟨hchunk, hholds⟩ := h.same row (hfiles row hrow) hid
    exact ⟨hchunk, hholds.stay hbacked fun c hc => hchunks c (hc.trans hid)⟩
  readable := by
    intro c hc hfile
    obtain ⟨q, hq, hqc, hread⟩ := h.readable c ((hchunks c hfile).mp hc) hfile
    exact ⟨q, hreplicas q hq hread ⟨c, hc, hqc.symm⟩, hqc, hread⟩
  stored := by
    intro q hq
    obtain ⟨c, hc, hfile, hpos⟩ := h.stored q hq
    exact ⟨c, (hchunks c hfile).mpr hc, hfile, hpos⟩

lemma Gathers.empty (h : Gathers r file db documents stored)
    (hnone : db.listStoredChunkPositions file.id = []) : ∀ c ∈ db.chunks, c.fileId ≠ file.id := by
  intro c hc hfile
  have hmem : (c.position, c.id) ∈ db.listStoredChunkPositions file.id := by
    refine List.mem_map.mpr ⟨c, List.mem_filter.mpr ⟨mem_chunksOf.mpr ⟨hc, hfile⟩, ?_⟩, rfl⟩
    exact decide_eq_true (h.readable c hc hfile)
  rw [hnone] at hmem
  exact List.not_mem_nil hmem

lemma Gathers.plan (h : Gathers r file db documents stored) (hsized : 0 < Process.chunkSizeOf file)
    {p : ChunkSlice} (hp : p ∈ (remainingChunkPlan r.body.length (Process.chunkSizeOf file)
      ((db.listStoredChunkPositions file.id).map fun s => s.1.toNat)).1) : p.1 ∉ stored := by
  intro hmem
  obtain ⟨c, hc, hfile, hpos⟩ := h.stored p.1 hmem
  have hfilter := List.mem_map_of_mem (f := (·.1)) hp
  rw [plan_positions hsized] at hfilter
  apply of_decide_eq_true (List.mem_filter.mp hfilter).2
  refine List.mem_map.mpr ⟨(c.position, c.id), ?_, ?_⟩
  · refine List.mem_map.mpr ⟨c, List.mem_filter.mpr ⟨mem_chunksOf.mpr ⟨hc, hfile⟩, ?_⟩, rfl⟩
    exact decide_eq_true (h.readable c hc hfile)
  · show c.position.toNat = p.1
    rw [hpos]
    rfl

lemma Gathers.send {n : Uuid} (h : Gathers r file db documents stored) (hint : db.Intact n)
    {todo : List ChunkSlice} (hd : Done db r.body file todo) {position offset len : Nat}
    (hslice : (position, offset, len) ∈ todo) {channelId : Uuid} {telegramFileId : String}
    {messageId : Int} (hfresh : telegramFileId ∉ documents.map (·.1))
    (hok : db.createChunkWithReplica ⟨n, file.id, toPosition position⟩
      (.newUploaded (n + 1) n channelId telegramFileId messageId) = .ok db') :
    Gathers r file db' (documents ++ [(telegramFileId, (r.body.drop offset).take len)]) stored := by
  have hdb := (Db.createChunkWithReplica_ok hok).2.2.2
  constructor
  · intro row hrow hid
    rw [hdb] at hrow
    obtain ⟨hchunk, hholds⟩ := h.same row hrow hid
    exact ⟨hchunk, hholds.send hint hd (chunkSizeOf_congr hchunk) hslice hfresh hok⟩
  · intro c hc hfile
    rw [hdb] at hc ⊢
    cases List.mem_append.mp hc with
    | inl hc =>
      obtain ⟨q, hq, hread⟩ := h.readable c hc hfile
      exact ⟨q, List.mem_append_left _ hq, hread⟩
    | inr hc =>
      rw [List.mem_singleton.mp hc]
      exact ⟨_, List.mem_append_right _ (List.mem_singleton_self _), rfl, rfl, rfl⟩
  · intro q hq
    obtain ⟨c, hc, hcf⟩ := h.stored q hq
    rw [hdb]
    exact ⟨c, List.mem_append_left _ hc, hcf⟩

lemma Gathers.mark {n : Uuid} (h : Gathers r file db documents stored) (hint : db.Intact n)
    (hd : Done db r.body file []) (hok : db.setAsUploaded file.id = .ok db') :
    Gathers r file db' documents stored ∧ Done db' r.body file [] := by
  obtain ⟨db₁, hok₁, -, hfiles, hchunks, hreplicas, -⟩ :=
    Db.updateById_ok hint.wf file.id Db.inPlace_uploaded
  rw [Db.setAsUploaded, hok₁] at hok
  cases hok
  refine ⟨⟨?_, ?_, ?_⟩, hd.planned, ?_, hd.apart⟩
  · intro row hrow hid
    obtain ⟨q, hq, rfl⟩ := (hfiles row).mp hrow
    split at hid
    · case isTrue hqid =>
      rw [if_pos hqid]
      obtain ⟨hchunk, hholds⟩ := h.same q hq hqid
      exact ⟨hchunk, hholds.mark hd (chunkSizeOf_congr hchunk) hq hqid hchunks hreplicas⟩
    · case isFalse hqid => exact absurd hid hqid
  · intro c hc hfile
    obtain ⟨q, hq, hread⟩ := h.readable c (hchunks ▸ hc) hfile
    exact ⟨q, hreplicas.symm ▸ hq, hread⟩
  · rw [hchunks]
    exact h.stored
  · rintro ⟨row, hrow, hid⟩
    obtain ⟨q, hq, rfl⟩ := (hfiles row).mp hrow
    rw [hchunks]
    refine hd.stored ⟨q, hq, ?_⟩
    split at hid <;> exact hid

lemma Gathers.purge {n : Uuid} (h : Gathers r file db documents stored) (hint : db.Intact n)
    {ids : List Uuid} (hids : ∀ c ∈ db.chunks, c.fileId = file.id → c.fileId ∉ ids)
    (order : List Uuid) : Gathers r file (db.hardDeleteIds ids order) documents stored := by
  obtain ⟨-, hp⟩ := Db.purged_hardDeleteIds hint ids order
  refine h.stay (fun row hrow => ((hp.files row).mp hrow).1) ?_ ?_ ?_
  · exact backed_of_mem ⟨[], (List.append_nil _).symm⟩ fun q hq _ _ => ((hp.replicas q).mp hq).1
  · exact fun c hfile => (hp.chunks c).trans ⟨And.left, fun hc => ⟨hc, hids c hc hfile⟩⟩
  · exact fun q hq _ hc => (hp.replicas q).mpr ⟨hq, hc⟩

/-- A turn of a relay keeps what is stored, and leaves the relay in step with it. -/
lemma gathers_moves {σ : Process} {u : Upload} {o : Outcome} (hint : σ.db.Intact σ.next)
    (hsized : 0 < Process.chunkSizeOf file) (h : Gathers r file σ.db σ.documents stored)
    (hr : u.request = r) (hkeeps : u.phase.Keeps r.body file σ.db stored) (hm : Moves σ u o) :
    Gathers r file o.db o.documents stored ∧ o.phase.Keeps r.body file o.db stored := by
  subst hr
  cases hm with
  | @turn phase ht =>
    refine ⟨h, ?_⟩
    generalize u.phase = p at hkeeps ht
    cases ht with
    | answer => trivial
    | failQueued => exact hkeeps
    | failSending | failMarking => exact hkeeps.1
    | giveUp hempty =>
      obtain rfl : _ = file := hkeeps
      exact ⟨rfl, h.empty hempty⟩
    | _ => exact hkeeps.elim
  | purge purged hp =>
    rw [hp] at hkeeps
    exact hkeeps.elim
  | replace hp =>
    rw [hp] at hkeeps
    exact hkeeps.elim
  | create hp =>
    rw [hp] at hkeeps
    exact hkeeps.elim
  | drop purged hp =>
    rw [hp] at hkeeps
    obtain ⟨rfl, hnone⟩ := hkeeps
    refine ⟨?_, trivial⟩
    cases purged with
    | false => exact h
    | true => exact h.purge hint (fun c hc hfile => absurd hfile (hnone c hc)) []
  | plan hp hok =>
    rw [hp] at hkeeps
    obtain rfl := hkeeps
    obtain ⟨hint', hed, hchannels⟩ := Process.resolvePrimaryChannel_spec hint hok
    have hgathers := h.stay (fun row hrow => hed.files ▸ hrow)
      (backed_of_mem ⟨[], (List.append_nil _).symm⟩ fun q hq hup _ => hed.uploaded q hq hup)
      (fun c _ => by rw [hed.chunks]) fun q hq hread _ => (hed.kept q hq hread.1).resolve_right
        fun hgone => by
          obtain ⟨ch, hch, hid⟩ := hint.replicaChannel q hq
          exact hgone ch (hchannels ▸ hch) hid
    exact ⟨hgathers, rfl, done_plan hint' hsized _, fun p hplan => hgathers.plan hsized hplan⟩
  | send hp hslice htarget hfresh hok =>
    rw [hp] at hkeeps
    obtain ⟨rfl, hdone, honce⟩ := hkeeps
    refine ⟨h.send hint hdone hslice hfresh hok, rfl, done_send hdone hok, ?_⟩
    exact fun p hplan => honce p (List.mem_of_mem_filter hplan)
  | refuse hp hfresh =>
    rw [hp] at hkeeps
    refine ⟨h.stay (fun _ hrow => hrow) ?_ (fun c _ => Iff.rfl) fun q hq _ _ => hq, hkeeps.1⟩
    exact backed_of_mem ⟨_, rfl⟩ fun q hq _ _ => hq
  | link hp hreplicas hok =>
    rw [hp] at hkeeps
    obtain ⟨rfl, hdone, -⟩ := hkeeps
    subst hreplicas
    obtain ⟨-, hreq⟩ := hint.insertBatch hok
    refine ⟨h.stay (fun row hrow => hreq.files ▸ hrow) ?_ (fun c _ => by rw [hreq.chunks])
      fun q hq _ _ => hreq.kept q hq, rfl, hdone.planned, ?_, hdone.apart⟩
    · refine backed_of_mem ⟨[], (List.append_nil _).symm⟩ fun q hq hup _ => ?_
      cases hreq.pending q hq with
      | inl hq => exact hq
      | inr hpending => exact absurd (hup.symm.trans hpending) (by decide)
    · rw [hreq.files, hreq.chunks]
      exact hdone.stored
  | linkFails hp =>
    rw [hp] at hkeeps
    exact ⟨h, hkeeps.1⟩
  | @mark f again db' hp hok =>
    rw [hp] at hkeeps
    obtain ⟨rfl, hdone⟩ := hkeeps
    obtain ⟨hgathers, hdone'⟩ := h.mark hint hdone hok
    refine ⟨hgathers, ?_⟩
    cases again with
    | false => exact ⟨rfl, hdone'⟩
    | true => trivial

lemma recorded_spec {s : Relays} {u : Upload} {o : Outcome} {a : Act}
    (hkeeps : u.phase.Keeps r.body file s.process.db stored)
    (htotal : chunkCount r.body.length (Process.chunkSizeOf file) ≤ 32768)
    (ho : s.process.act u a = some o) {q : Nat}
    (hq : q ∈ Relays.recorded s.process (s.process.commit 0 o) a) :
    (∃ c ∈ o.db.chunks, c.fileId = file.id ∧ c.position = q) ∧
      ∃ f channels plan ids, o.phase = .sending f channels plan ids ∧ ∀ p ∈ plan, p.1 ≠ q := by
  cases a with
  | send position telegramFileId messageId =>
    unfold Relays.recorded at hq
    dsimp only at hq
    split at hq
    · cases hq
    · case isFalse hadded =>
      obtain rfl := List.mem_singleton.mp hq
      cases hp : u.phase with
      | sending f channels plan ids =>
        rw [hp] at hkeeps
        obtain ⟨rfl, hdone, -⟩ := hkeeps
        simp only [Process.act, hp] at ho
        obtain ⟨-, offset, len, hslice, target, -, hcase⟩ := Process.send_cases ho
        rcases hcase with ⟨e, rfl⟩ | ⟨db', hok, rfl⟩
        · exact absurd rfl hadded
        · have hdb := (Db.createChunkWithReplica_ok hok).2.2.2
          refine ⟨⟨⟨s.process.next, f.id, toPosition q⟩, ?_, rfl, ?_⟩, f, channels, _, _, rfl, ?_⟩
          · rw [hdb]
            exact List.mem_append_right _ (List.mem_singleton_self _)
          · exact toPosition_of_lt (Nat.lt_of_lt_of_le (hdone.planned _ hslice).1 htotal)
          · exact fun p hplan => of_decide_eq_true (List.mem_filter.mp hplan).2
      | _ => simp only [Process.act, hp, reduceCtorEq] at ho
  | _ => cases hq

end Turn

/-! ## Runs -/

section Runs

variable {r : UploadRequest} {file : FileRow} {s : Relays}

lemma Composing.act (h : Composing r file s) (hsized : 0 < Process.chunkSizeOf file)
    (htotal : chunkCount r.body.length (Process.chunkSizeOf file) ≤ 32768) (a : Act) :
    Composing r file (s.step r file (.act a)) := by
  have hint := h.intact.step (.act 0 a)
  show Composing r file ⟨_, _⟩
  rcases s.process.step_act 0 a with heq | ⟨u, o, hfind, hu, ho, hm, heq⟩
  · have hnone : Relays.recorded s.process s.process a = [] := by
      cases a with
      | send => exact if_pos rfl
      | _ => rfl
    rw [heq, hnone, List.append_nil]
    exact h
  · rw [heq] at hint ⊢
    obtain ⟨hnumber, hr, hkeeps⟩ := h.relays u hu
    obtain ⟨-, hle⟩ := Process.db_moves h.intact.db hm
    obtain ⟨hrows, -⟩ := h.intact.moves hu hm
    obtain ⟨hgathers, hkeeps'⟩ := gathers_moves h.intact.db hsized h.gathers hr hkeeps hm
    have hspec := fun q => recorded_spec (q := q) hkeeps htotal ho
    refine ⟨hint, ?_, Nat.lt_of_lt_of_le h.below hle, ⟨hgathers.same, hgathers.readable, ?_⟩, ?_⟩
    · intro row hrow hid
      cases hrows row hrow with
      | inl hnew => exact absurd (hid.symm.trans hnew) h.below.ne
      | inr hold =>
        obtain ⟨q, hq, hqid, hlive⟩ := hold
        exact hlive (h.live q hq (hqid.trans hid))
    · intro q hq
      cases List.mem_append.mp hq with
      | inl hq => exact hgathers.stored q hq
      | inr hq => exact (hspec q hq).1
    · intro v hv
      rcases Process.mem_commit hv with ⟨hv, hvn⟩ | ⟨w, hw, hwn, rfl⟩
      · exact absurd (h.relays v hv).1 hvn
      · refine ⟨hwn, (h.relays w hw).2.1, ?_⟩
        show o.phase.Keeps r.body file o.db _
        cases hp : o.phase with
        | sending f channels plan ids =>
          rw [hp] at hkeeps'
          refine ⟨hkeeps'.1, hkeeps'.2.1, fun p hplan hmem => ?_⟩
          cases List.mem_append.mp hmem with
          | inl hmem => exact hkeeps'.2.2 p hplan hmem
          | inr hmem =>
            obtain ⟨-, f', channels', plan', ids', hp', hleft⟩ := hspec p.1 hmem
            rw [hp] at hp'
            cases hp'
            exact hleft p hplan rfl
        | _ =>
          rw [hp] at hkeeps'
          exact hkeeps'

lemma Composing.step (h : Composing r file s) (hsized : 0 < Process.chunkSizeOf file)
    (htotal : chunkCount r.body.length (Process.chunkSizeOf file) ≤ 32768) (a : RelayStep) :
    Composing r file (s.step r file a) := by
  cases a with
  | start =>
    unfold Relays.step
    dsimp only
    split
    · exact h
    · have hrow : ∀ f, (Phase.queued file).row = some f → f = file :=
        fun f hf => (Option.some.inj hf).symm
      refine ⟨⟨h.intact.db, ?_, ?_⟩, h.live, h.below, h.gathers, ?_⟩
      · intro u hu f hf
        rw [List.mem_singleton.mp hu] at hf
        rw [hrow f hf]
        exact h.below
      · intro u hu f hf
        rw [List.mem_singleton.mp hu] at hf
        rw [hrow f hf]
        exact h.live
      · intro u hu
        rw [List.mem_singleton.mp hu]
        exact ⟨rfl, rfl, rfl⟩
  | act a => exact h.act hsized htotal a
  | crash order =>
    have hint := h.intact.step (.restart order)
    obtain ⟨-, hp⟩ := Db.purged_hardDeleteIds h.intact.db (Process.interrupted s.process.db) order
    refine ⟨hint, ?_, h.below, ?_, fun u hu => absurd hu List.not_mem_nil⟩
    · exact fun row hrow => h.live row ((hp.files row).mp hrow).1
    · refine h.gathers.purge h.intact.db ?_ order
      -- a row with a chunk row is not an interrupted one
      intro c hc hfile hmem
      obtain ⟨row, -, hinterrupted, hid⟩ := mem_idsWhere.mp hmem
      exact (of_decide_eq_true hinterrupted).2.2 ⟨c, hc, hid.symm⟩

lemma uploads_of_stands {σ : Process} {phase : Phase} (hst : Stands σ 0 r phase)
    (hlen : σ.uploads.length = 1) : σ.uploads = [⟨0, r, phase, false⟩] := by
  obtain ⟨u, hu⟩ := List.length_eq_one_iff.mp hlen
  have hmem : Upload.mk 0 r phase false ∈ σ.uploads := List.mem_of_find?_eq_some hst
  rw [hu] at hmem ⊢
  rw [List.mem_singleton.mp hmem]

lemma length_uploads_act (σ : Process) (number : Nat) (a : Act) :
    (σ.step (.act number a)).uploads.length = σ.uploads.length := by
  rcases σ.step_act number a with heq | ⟨u, o, -, -, -, -, heq⟩
  · rw [heq]
  · rw [heq]
    exact List.length_map _

lemma start_spec {σ : Process} (h : σ.Intact) (hfile : file ∈ σ.db.files) (hlive : file.Live)
    (hidle : ¬ σ.RelayRuns file.id) (stored : List Nat) :
    let τ := { σ with uploads := [⟨0, r, .queued file, false⟩] }
    Relays.step r file ⟨σ, stored⟩ .start = ⟨τ, stored⟩ ∧ τ.Intact ∧
      Stands τ 0 r (.queued file) := by
  have hrow : ∀ u ∈ [Upload.mk 0 r (.queued file) false], ∀ f, u.phase.row = some f → f = file := by
    intro u hu f hf
    rw [List.mem_singleton.mp hu] at hf
    exact (Option.some.inj hf).symm
  refine ⟨if_neg hidle, ⟨h.db, ?_, ?_⟩, rfl⟩
  · intro u hu f hf
    rw [hrow u hu f hf]
    exact h.db.fileBelow file hfile
  · intro u hu f hf q hq hid
    rw [hrow u hu f hf] at hid
    rw [h.db.wf.idUnique q hq file hfile hid]
    exact hlive

lemma stored_le {db : Db} {n : Uuid} (h : db.Intact n) (fileId : Uuid) :
    32768 ∉ (db.listStoredChunkPositions fileId).map fun s => s.1.toNat := by
  intro hmem
  obtain ⟨s, hs, hsp⟩ := List.mem_map.mp hmem
  obtain ⟨c, hc, rfl⟩ := List.mem_map.mp hs
  have hrange := (h.chunkRange c (mem_chunksOf.mp (List.mem_of_mem_filter hc)).1).2
  dsimp only at hsp
  omega

lemma mem_plan_beyond {body : Bytes} (hsized : 0 < Process.chunkSizeOf file)
    (htotal : 32768 < chunkCount body.length (Process.chunkSizeOf file)) {stored : List Nat}
    (hno : 32768 ∉ stored) :
    32768 ∈ (remainingChunkPlan body.length (Process.chunkSizeOf file) stored).1.map (·.1) := by
  rw [plan_positions hsized]
  exact List.mem_filter.mpr ⟨List.mem_range.mpr htotal, decide_eq_true hno⟩

/-- A queued relay of a row without chunk rows plans a chunk beyond the bound and stores it. -/
lemma stores_beyond {σ : Process} (h : σ.Intact) (hst : Stands σ 0 r (.queued file))
    (hfile : file ∈ σ.db.files) (hsized : 0 < Process.chunkSizeOf file)
    (hnone : ∀ c ∈ σ.db.chunks, c.fileId ≠ file.id)
    (hactive : σ.db.activeChannels file.storageId ≠ [])
    (htotal : 32768 < chunkCount r.body.length (Process.chunkSizeOf file)) :
    ∃ name, let σ₁ := σ.step (.act 0 .plan); let τ := σ₁.step (.act 0 (.send 32768 name 0))
      τ.Intact ∧ file ∈ τ.db.files ∧ τ.db.channels = σ.db.channels ∧
        (∃ channels plan ids, Stands τ 0 r (.sending file channels plan ids)) ∧
        τ.db.chunks ≠ σ₁.db.chunks ∧ τ.db.listStoredChunkPositions file.id ≠ [] := by
  obtain ⟨name, hname⟩ := Infinite.exists_notMem_finset (σ.documents.map (·.1)).toFinset
  rw [List.mem_toFinset] at hname
  refine ⟨name, ?_⟩
  obtain ⟨-, hrot, hdocs, -, hst₁, hne, hdealt⟩ := queued_spec h.db hst hfile rfl rfl hactive
  have h₁ := h.step (.act 0 .plan)
  generalize σ.step (.act 0 .plan) = σ₁ at h₁ hrot hdocs hst₁
  have hmem := mem_plan_beyond hsized htotal (stored_le h.db file.id)
  generalize (remainingChunkPlan r.body.length (Process.chunkSizeOf file)
    ((σ.db.listStoredChunkPositions file.id).map fun s => s.1.toNat)).1 = plan at hst₁ hmem
  have hids : ∀ id ∈ (σ.db.listStoredChunkPositions file.id).map (fun s => s.2),
      ∃ c ∈ σ₁.db.chunks, c.id = id := by
    intro id hid
    obtain ⟨s, hs, rfl⟩ := List.mem_map.mp hid
    obtain ⟨c, hc, rfl⟩ := List.mem_map.mp hs
    exact ⟨c, hrot.chunks ▸ (mem_chunksOf.mp (List.mem_of_mem_filter hc)).1, rfl⟩
  have hfree : ∀ c ∈ σ₁.db.chunks, c.fileId ≠ file.id := hrot.chunks ▸ hnone
  have hsends := sends_spec [(32768, name, 0)] h₁.db hst₁
    ⟨file, hrot.files ▸ hfile, rfl⟩ hne
    (fun ch hch => ⟨ch, hrot.channels ▸ (Db.mem_activeChannels_iff.mp (hdealt ch hch)).1, rfl⟩) hids
    (List.nodup_singleton _) (List.nodup_singleton _)
    (fun send hsend => by rw [List.mem_singleton.mp hsend, hdocs]; exact hname)
  have hqs : [32768].filter (· ∈ plan.map (·.1)) = [32768] :=
    List.filter_eq_self.mpr fun q hq => by
      rw [List.mem_singleton.mp hq]
      exact decide_eq_true hmem
  simp only [List.map_cons, List.map_nil, run_cons, run_nil, hqs] at hsends
  rcases hsends with ⟨ids, hst₂, -, -, -, -, hsent, -⟩ | ⟨-, hclear⟩
  · obtain ⟨c, hc, hcf, -, q, hq, hqc, hread, -⟩ := hsent.sent 32768 (List.mem_singleton_self _)
    refine ⟨h₁.step _, hsent.files ▸ hrot.files ▸ hfile, hsent.channels.trans hrot.channels,
      ⟨_, _, _, hst₂⟩, fun heq => ?_, fun hnil => ?_⟩
    · exact hfree c (heq ▸ hc) hcf
    · have hstored : (c.position, c.id) ∈ Db.listStoredChunkPositions _ file.id :=
        List.mem_map.mpr ⟨c, List.mem_filter.mpr ⟨mem_chunksOf.mpr ⟨hc, hcf⟩,
          decide_eq_true ⟨q, hq, hqc, hread⟩⟩, rfl⟩
      rw [hnil] at hstored
      exact List.not_mem_nil hstored
  · refine absurd ⟨fun q _ c hc hcf => absurd hcf (hfree c hc), fun q hq q' hq' _ => ?_⟩ hclear
    rw [List.mem_singleton.mp hq, List.mem_singleton.mp hq']

/-- Beyond the bound a relay is about to send a chunk that an earlier one stored. -/
lemma relays_repeat {σ : Process} (h : σ.Intact) (huploads : σ.uploads = [])
    (hfile : file ∈ σ.db.files) (hlive : file.Live) (hsized : 0 < Process.chunkSizeOf file)
    (hnone : ∀ c ∈ σ.db.chunks, c.fileId ≠ file.id)
    (hactive : σ.db.activeChannels file.storageId ≠ [])
    (htotal : 32768 < chunkCount r.body.length (Process.chunkSizeOf file)) :
    ∃ steps, ¬ Always (Relays.step r file) (Composes file r.body) ⟨σ, []⟩ steps := by
  obtain ⟨hstart₁, h₁, hst₁⟩ := start_spec (r := r) h hfile hlive
    (by rintro ⟨u, hu, -⟩; exact List.not_mem_nil (huploads ▸ hu)) []
  generalize hσ₁ : ({ σ with uploads := [⟨0, r, .queued file, false⟩] } : Process) = σ₁ at hstart₁ h₁ hst₁
  have hdb₁ : σ₁.db = σ.db := by rw [← hσ₁]
  have hlen₁ : σ₁.uploads.length = 1 := by rw [← hσ₁]; rfl
  obtain ⟨name, h₃, hfile₃, hchannels₃, ⟨channels, plan, ids, hst₃⟩, hadded, hstored⟩ :=
    stores_beyond h₁ hst₁ (hdb₁ ▸ hfile) hsized (hdb₁ ▸ hnone) (hdb₁ ▸ hactive) htotal
  have hlen₃ := (length_uploads_act (σ₁.step (.act 0 .plan)) 0 (.send 32768 name 0)).trans
    ((length_uploads_act σ₁ 0 .plan).trans hlen₁)
  generalize hσ₃ : (σ₁.step (.act 0 .plan)).step (.act 0 (.send 32768 name 0)) = σ₃
    at h₃ hfile₃ hchannels₃ hst₃ hadded hstored hlen₃
  -- it fails, and is answered
  obtain ⟨hstep₄, hst₄⟩ := hst₃.act (a := .sendFails .unknown) (o := σ₃.turn (.failing file .unknown))
    rfl
  obtain ⟨hstep₅, hst₅⟩ := hst₄.act (a := .count true)
    (o := (σ₃.commit 0 (σ₃.turn (.failing file .unknown))).turn (.answered (.error .unknown))) (by
      refine congrArg (fun p => some (Process.turn _ p)) (if_neg fun hno => ?_)
      exact hstored hno.2)
  have hlen₅ := (length_uploads_act (σ₃.step (.act 0 (.sendFails .unknown))) 0 (.count true)).trans
    ((length_uploads_act σ₃ 0 (.sendFails .unknown)).trans hlen₃)
  have h₅ := (h₃.step (.act 0 (.sendFails .unknown))).step (.act 0 (.count true))
  rw [hstep₄] at hlen₅ h₅
  rw [hstep₅] at hlen₅ h₅
  have hup₅ := uploads_of_stands hst₅ hlen₅
  generalize hσ₅ : (σ₃.commit 0 (σ₃.turn (.failing file .unknown))).commit 0 _ = σ₅
    at hstep₅ h₅ hup₅
  have hdb₅ : σ₅.db = σ₃.db := by rw [← hσ₅]; rfl
  -- the next relay plans it again
  obtain ⟨hstart₆, h₆, hst₆⟩ := start_spec (r := r) h₅ (hdb₅ ▸ hfile₃) hlive
    (by
      rintro ⟨u, hu, hrelays⟩
      rw [hup₅] at hu
      rw [List.mem_singleton.mp hu] at hrelays
      cases hrelays) [32768]
  have hactive₅ : σ₅.db.activeChannels file.storageId ≠ [] := by
    have hsame : σ₅.db.activeChannels file.storageId = σ.db.activeChannels file.storageId := by
      rw [Db.activeChannels, Db.listByStorage, hdb₅, hchannels₃, hdb₁]
      rfl
    rw [hsame]
    exact hactive
  obtain ⟨-, -, -, -, hst₇, -⟩ := queued_spec h₆.db hst₆ (hdb₅ ▸ hfile₃) rfl rfl hactive₅
  have hact : ∀ (τ : Process) (stored : List Nat) (a : Act),
      Relays.step r file ⟨τ, stored⟩ (.act a) =
        ⟨τ.step (.act 0 a), stored ++ Relays.recorded τ (τ.step (.act 0 a)) a⟩ := fun _ _ _ => rfl
  refine ⟨[.start, .act .plan, .act (.send 32768 name 0), .act (.sendFails .unknown),
    .act (.count true), .start, .act .plan], fun hall => ?_⟩
  have hlast := hall.last
  simp only [run_cons, run_nil, hstart₁, hact, hσ₃, hstep₄, hstep₅, Relays.recorded,
    if_neg hadded, List.append_nil, List.nil_append, hstart₆] at hlast
  obtain ⟨p, hp, heq⟩ := List.mem_map.mp (mem_plan_beyond hsized htotal (stored_le h₅.db file.id))
  refine hlast.once _ (List.mem_of_find?_eq_some hst₇) _ _ _ _ rfl p hp ?_
  rw [heq]
  exact List.mem_singleton_self _

end Runs

/-- The relays of a row without chunk rows put its file together, in every sequence of them, as long as
    an `i16` tells its positions apart; beyond that some sequence stores a chunk and sends it again. -/
theorem relays_compose {σ₀ : Process} (h : σ₀.Intact) (huploads : σ₀.uploads = [])
    (r : UploadRequest) {file : FileRow} (hfile : file ∈ σ₀.db.files) (hlive : file.Live)
    (hup : file.isUploaded = false) (hsized : 0 < Process.chunkSizeOf file)
    (hnone : ∀ c ∈ σ₀.db.chunks, c.fileId ≠ file.id) :
    (chunkCount r.body.length (Process.chunkSizeOf file) ≤ 32768 →
      ∀ steps, Always (Relays.step r file) (Composes file r.body) ⟨σ₀, []⟩ steps) ∧
    (σ₀.db.activeChannels file.storageId ≠ [] →
      32768 < chunkCount r.body.length (Process.chunkSizeOf file) →
        ∃ steps, ¬ Always (Relays.step r file) (Composes file r.body) ⟨σ₀, []⟩ steps) := by
  refine ⟨fun htotal steps => ?_, relays_repeat h huploads hfile hlive hsized hnone⟩
  have hrow : ∀ row ∈ σ₀.db.files, row.id = file.id → row = file :=
    fun row hrow hid => h.db.wf.idUnique row hrow file hfile hid
  have hstart : Composing r file ⟨σ₀, []⟩ := by
    refine ⟨h, ?_, h.db.fileBelow file hfile, ⟨?_, ?_, fun q hq => absurd hq List.not_mem_nil⟩, ?_⟩
    · exact fun row hr hid => hrow row hr hid ▸ hlive
    · intro row hr hid
      obtain rfl := hrow row hr hid
      exact ⟨rfl, holds_empty r.body hsized hup hnone⟩
    · exact fun c hc hfile' => absurd hfile' (hnone c hc)
    · rw [huploads]
      exact fun u hu => absurd hu List.not_mem_nil
  rw [always_iff_prefixes]
  intro pre _
  have hkept : Composing r file (run (Relays.step r file) ⟨σ₀, []⟩ pre) :=
    run_invariant (fun s a hs => hs.step hsized htotal a) hstart pre
  exact hkept.composes htotal

/-! ## A file of too many chunks -/

def manyChunks (n : Nat) : UploadRequest where
  storageId := 0
  path := "a.bin".toList
  body := List.replicate n 0
  chunkSize := 1
  sourceCreatedAt := none
  sourceMtime := none
  contentHash := none
  replace := false
  isFile := rfl
  chunkSize_pos := Nat.zero_lt_one

def queuedRow (n : Nat) : Process :=
  { twoChannels with
    db := { twoChannels.db with files := [(manyChunks n).inFile.toRow 4 false] }
    next := 5 }

lemma queuedRow_intact (n : Nat) : (queuedRow n).Intact where
  db := by
    have hok : twoChannels.db.insertFile ((manyChunks n).inFile.toRow 4 false) =
        .ok (queuedRow n).db := rfl
    exact twoChannels_intact.db.insertFile hok rfl
  rowBelow := fun u hu => absurd hu List.not_mem_nil
  rowLive := fun u hu => absurd hu List.not_mem_nil

lemma chunkCount_manyChunks (n : Nat) : chunkCount (manyChunks n).body.length
    (Process.chunkSizeOf ((manyChunks n).inFile.toRow 4 false)) = n := by
  show chunkCount (List.replicate n (0 : UInt8)).length 1 = n
  rw [List.length_replicate, chunkCount, Nat.add_sub_cancel, Nat.div_one]

/-- The chunk behind the last position that an `i16` tells apart is stored and sent again. -/
theorem manyChunks_repeat :
    ¬ ∀ steps, Always (Relays.step (manyChunks 32769) ((manyChunks 32769).inFile.toRow 4 false))
      (Composes ((manyChunks 32769).inFile.toRow 4 false) (manyChunks 32769).body)
      ⟨queuedRow 32769, []⟩ steps := by
  intro hall
  obtain ⟨steps, hno⟩ := relays_repeat (r := manyChunks 32769) (queuedRow_intact 32769) rfl
    (List.mem_singleton_self _) rfl Nat.zero_lt_one (fun c hc => absurd hc List.not_mem_nil)
    (by decide) (by rw [chunkCount_manyChunks]; exact Nat.lt_succ_self _)
  exact hno (hall steps)

/-- Two relays of three chunks, the first of which crashes behind its second chunk. -/
def twoRelays : List RelayStep :=
  [.start, .act .plan, .act (.send 2 "a-2" 10), .act (.send 0 "a-0" 11), .crash [], .start,
    .act .plan, .act (.send 1 "b-1" 12), .act .link, .act .mark, .act .mark]

/-- Three chunks are put together, and 32769 are not. -/
theorem threeChunks_compose :
    Always (Relays.step (manyChunks 3) ((manyChunks 3).inFile.toRow 4 false))
      (Composes ((manyChunks 3).inFile.toRow 4 false) (manyChunks 3).body)
      ⟨queuedRow 3, []⟩ twoRelays ∧
    ∃ steps, ¬ Always (Relays.step (manyChunks 32769) ((manyChunks 32769).inFile.toRow 4 false))
      (Composes ((manyChunks 32769).inFile.toRow 4 false) (manyChunks 32769).body)
      ⟨queuedRow 32769, []⟩ steps := by
  constructor
  · refine (relays_compose (queuedRow_intact 3) rfl (manyChunks 3) (List.mem_singleton_self _) rfl
      rfl Nat.zero_lt_one (fun c hc => absurd hc List.not_mem_nil)).1 ?_ twoRelays
    rw [chunkCount_manyChunks]
    decide
  · refine (relays_compose (queuedRow_intact 32769) rfl (manyChunks 32769)
      (List.mem_singleton_self _) rfl rfl Nat.zero_lt_one
      (fun c hc => absurd hc List.not_mem_nil)).2 (by decide) ?_
    rw [chunkCount_manyChunks]
    exact Nat.lt_succ_self _

end Sarca.Server
