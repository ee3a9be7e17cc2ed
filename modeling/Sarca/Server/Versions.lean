import Sarca.Server.Replace

/-!
# The versions a replace displaces

A live row takes one version after another: `replace_content` hands the chunks it had to a new row in the
trash and points the row at the incoming bytes, while relays of earlier versions may still be under way.
`Logged` keeps beside a server which chunks were stored for the versions of a row, and what each version
was. `VersionsKept` asks that every such chunk stays attached to one row that names its version, the live
row or a trashed one with a path of its own, and that a replace of a row that changed is refused.

`versions_kept`: that is so in every run whose steps are `Mindful`. A step is not when a relay starts
that was prepared for another version, when a version is retired under a running relay or to a path that
a live row has, when a live row is created at the path of a retired version, and when the row itself is
purged (`Spares`).
-/

namespace Sarca.Server
open Sarca.Lib

/-- A chunk that was stored for a version of a row, and that version. -/
structure LoggedChunk where
  chunkId : Uuid
  contentHash : Option ContentHash
  size : Int

/-- A server, and the chunks stored so far for the versions of a row. -/
structure Logged where
  process : Process
  log : List LoggedChunk

def FileRow.Names (f : FileRow) (contentHash : Option ContentHash) (size : Int) : Prop :=
  f.contentHash = contentHash ∧ f.size = size

instance (f : FileRow) (contentHash : Option ContentHash) (size : Int) :
    Decidable (f.Names contentHash size) :=
  inferInstanceAs (Decidable (_ ∧ _))

namespace Db

def Unused (db : Db) (storageId : Uuid) (path : Path) : Prop :=
  ∀ f ∈ db.files, f.Live → f.storageId = storageId → f.path ≠ path

instance (db : Db) (storageId : Uuid) (path : Path) : Decidable (db.Unused storageId path) :=
  inferInstanceAs (Decidable (∀ f ∈ db.files, _))

/-- A trashed row whose path differs from every live one. -/
def Apart (db : Db) (f : FileRow) : Prop :=
  ¬ f.Live ∧ db.Unused f.storageId f.path

/-- The chunk with the id is attached to the row. -/
def AttachedTo (db : Db) (chunkId : Uuid) (f : FileRow) : Prop :=
  ∃ c ∈ db.chunks, c.id = chunkId ∧ c.fileId = f.id

instance (db : Db) (chunkId : Uuid) (f : FileRow) : Decidable (db.AttachedTo chunkId f) :=
  inferInstanceAs (Decidable (∃ c ∈ db.chunks, _))

/-- The chunk is attached to a row that names its version, the row of `rowId` or a trashed one. -/
def Versioned (db : Db) (rowId : Uuid) (e : LoggedChunk) : Prop :=
  ∃ holder ∈ db.files, db.AttachedTo e.chunkId holder ∧ holder.Names e.contentHash e.size ∧
    (holder.id = rowId ∨ db.Apart holder)

end Db

/-- Every chunk of the log is attached to exactly one row, which names its version; the row keeps its id
    and path; and a replace that expects a hash the row does not have is refused and writes nothing. -/
structure VersionsKept (row : FileRow) (s : Logged) : Prop where
  live : ∃ r ∈ s.process.db.files, r.id = row.id ∧ r.storageId = row.storageId ∧ r.path = row.path ∧
    r.Live
  attached : ∀ e ∈ s.log, ∃ holder ∈ s.process.db.files, s.process.db.AttachedTo e.chunkId holder ∧
    (∀ f ∈ s.process.db.files, s.process.db.AttachedTo e.chunkId f → f = holder) ∧
    holder.Names e.contentHash e.size ∧
    (holder.id = row.id ∧ holder.Live ∨ s.process.db.Apart holder)
  refuses : ∀ (r : UploadRequest) (existing : FileRow) (now : Instant) (stamp : Path),
    (∀ f ∈ s.process.db.files, f.id = existing.id → f.Live →
      f.contentHash ≠ existing.contentHash) →
    s.process.replace r existing now stamp =
      s.process.turn (.answered (.error .uploadAlreadyInProgress))

/-- The row that the request stores chunks for, or is about to. -/
def Phase.sends : Phase → Option Uuid
  | .queued file | .sending file _ _ _ => some file.id
  | _ => none

/-- The chunks of the row that a step stores, for the version of the request that stores them. -/
def Process.storedBy (rowId : Uuid) (σ : Process) : Step → List LoggedChunk
  | .act number a => match σ.upload? number with
    | some u =>
      ((σ.step (.act number a)).db.chunks.filter fun c =>
        c.fileId = rowId ∧ σ.db.chunks.all fun c' => c'.id ≠ c.id).map fun c =>
          ⟨c.id, u.request.contentHash, u.request.inFile.size⟩
    | none => []
  | _ => []

lemma Process.storedBy_same {rowId : Uuid} {σ : Process} {a : Step} (h : σ.step a = σ) :
    σ.storedBy rowId a = [] := by
  unfold storedBy
  split
  · split
    · rw [h, List.filter_eq_nil_iff.mpr, List.map_nil]
      intro c hc
      simp only [decide_eq_true_eq, not_and, List.all_eq_true, not_forall]
      exact fun _ => ⟨c, hc, not_not_intro rfl⟩
    · rfl
  · rfl

/-- A step of the server, and what it stores for the row. -/
def stepLogged (rowId : Uuid) (s : Logged) (a : Step) : Logged :=
  ⟨s.process.step a, s.log ++ s.process.storedBy rowId a⟩

/-- The server as it is found: what the row holds was stored for the version it names. -/
def Process.logged (σ : Process) (row : FileRow) : Logged :=
  ⟨σ, (σ.db.chunks.filter fun c => c.fileId = row.id).map fun c =>
    ⟨c.id, row.contentHash, row.size⟩⟩

/-- The turn takes the guard for the version the row names, retires a version when no relay stores chunks
    for the row and to a path that no live row has, and creates no row at the path of a retired
    version. -/
def MindfulAct (rowId : Uuid) (s : Logged) (u : Upload) : Act → Prop
  | .begin => match u.phase with
    | .starting file => file.id = rowId → ∀ f ∈ s.process.db.files, f.id = rowId →
        f.Names u.request.contentHash u.request.inFile.size
    | _ => True
  | .replace _ stamp => match u.phase with
    | .replacing existing => existing.id = rowId → ∀ current ∈ s.process.db.files,
        current.id = rowId → current.contentHash = existing.contentHash →
        (∀ v ∈ s.process.uploads, v.phase.sends ≠ some rowId) ∧
        (s.process.db.HasChunks rowId →
          s.process.db.Unused current.storageId (retiredVersionPath existing.path stamp))
    | _ => True
  | .create => match u.phase with
    | .creating => ∀ e ∈ s.log, ∀ f ∈ s.process.db.files, s.process.db.AttachedTo e.chunkId f →
        ¬ f.Live → f.storageId = u.request.storageId →
        f.path ≠ s.process.db.anywayPath u.request.storageId u.request.path
    | _ => True
  | _ => True

/-- The step minds the versions of the row, and does not decide to purge it. -/
def Mindful (rowId : Uuid) (s : Logged) (a : Step) : Prop :=
  Spares rowId s.process a ∧ match a with
    | .act number a => ∀ u ∈ s.process.upload? number, MindfulAct rowId s u a
    | _ => True

instance (rowId : Uuid) (s : Logged) (u : Upload) (a : Act) : Decidable (MindfulAct rowId s u a) := by
  induction u using Upload.casesOn with
  | mk number request phase gone =>
    induction a using Act.casesOn with
    | begin =>
      induction phase using Phase.casesOn with
      | starting file => exact inferInstanceAs (Decidable (file.id = rowId → ∀ f ∈ _, _))
      | _ => exact isTrue trivial
    | replace now stamp =>
      induction phase using Phase.casesOn with
      | replacing existing => exact inferInstanceAs (Decidable (existing.id = rowId → ∀ f ∈ _, _))
      | _ => exact isTrue trivial
    | create =>
      induction phase using Phase.casesOn with
      | creating => exact inferInstanceAs (Decidable (∀ e ∈ s.log, ∀ f ∈ s.process.db.files, _))
      | _ => exact isTrue trivial
    | _ => exact isTrue trivial

instance (rowId : Uuid) (s : Logged) (a : Step) : Decidable (Mindful rowId s a) := by
  induction a using Step.casesOn with
  | act number a =>
    exact @instDecidableAnd _ (∀ u ∈ s.process.upload? number, MindfulAct rowId s u a) _
      (decideMem _ _)
  | _ => exact @instDecidableAnd _ True _ _

/-! ## Statements -/

namespace Db

variable {db db' : Db} {n rowId : Uuid} {e : LoggedChunk}

lemma Apart.mono {f : FileRow} (h : db.Apart f)
    (hlive : ∀ q ∈ db'.files, q.Live →
      ∃ q' ∈ db.files, q'.Live ∧ q'.storageId = q.storageId ∧ q'.path = q.path) : db'.Apart f := by
  refine ⟨h.1, fun q hq hql hqs => ?_⟩
  obtain ⟨q', hq', hl, hs, hp⟩ := hlive q hq hql
  rw [← hp]
  exact h.2 q' hq' hl (hs.trans hqs)

lemma Versioned.grow (h : db.Versioned rowId e) (hfiles : db'.files = db.files)
    (hchunks : ∀ c ∈ db.chunks, c ∈ db'.chunks) : db'.Versioned rowId e := by
  obtain ⟨holder, hm, ⟨c, hc, hid⟩, hnames, hkind⟩ := h
  refine ⟨holder, hfiles ▸ hm, ⟨c, hchunks c hc, hid⟩, hnames, hkind.imp_right fun hap => ?_⟩
  exact hap.mono fun q hq hl => ⟨q, hfiles ▸ hq, hl, rfl, rfl⟩

lemma Versioned.purged {ids : List Uuid} (h : db.Versioned rowId e) (hp : Purged ids db db')
    (hlive : ∀ r ∈ db.files, r.id ∈ ids → r.Live) (hid : rowId ∉ ids) : db'.Versioned rowId e := by
  obtain ⟨holder, hm, ⟨c, hc, hcid, hfile⟩, hnames, hkind⟩ := h
  have hkept : holder.id ∉ ids := by
    intro hin
    rcases hkind with hrow | hap
    · exact hid (hrow ▸ hin)
    · exact hap.1 (hlive holder hm hin)
  refine ⟨holder, (hp.files holder).mpr ⟨hm, hkept⟩,
    ⟨c, (hp.chunks c).mpr ⟨hc, hfile ▸ hkept⟩, hcid, hfile⟩, hnames, hkind.imp_right fun hap => ?_⟩
  exact hap.mono fun q hq hl => ⟨q, ((hp.files q).mp hq).1, hl, rfl, rfl⟩

lemma Versioned.insertFile {new : FileRow} (h : db.Versioned rowId e)
    (hok : db.insertFile new = .ok db')
    (hapart : ∀ f ∈ db.files, db.AttachedTo e.chunkId f → ¬ f.Live → f.storageId = new.storageId →
      f.path ≠ new.path) : db'.Versioned rowId e := by
  have hfiles := fun r => mem_insertFile (r := r) hok
  obtain ⟨-, -, -, rfl⟩ := insertFile_ok hok
  obtain ⟨holder, hm, hatt, hnames, hkind⟩ := h
  refine ⟨holder, (hfiles holder).mpr (Or.inl hm), hatt, hnames, hkind.imp_right fun hap => ?_⟩
  refine ⟨hap.1, fun q hq hl hs => ?_⟩
  rcases (hfiles q).mp hq with hq | rfl
  · exact hap.2 q hq hl hs
  · exact fun hpath => hapart holder hm hatt hap.1 hs.symm hpath.symm

lemma Versioned.setAsUploaded (h : db.Versioned rowId e) (hwf : db.Wf) {id : Uuid}
    (hok : db.setAsUploaded id = .ok db') : db'.Versioned rowId e := by
  obtain ⟨db₁, hok₁, -, hfiles, hchunks, -⟩ := updateById_ok hwf id inPlace_uploaded
  rw [Db.setAsUploaded, hok₁] at hok
  cases hok
  obtain ⟨holder, hm, hatt, hnames, hkind⟩ := h
  refine ⟨_, (hfiles _).mpr ⟨holder, hm, rfl⟩, ?_, ?_, ?_⟩
  · unfold AttachedTo at hatt ⊢
    rw [hchunks]
    split
    · exact hatt
    · exact hatt
  · split
    · exact hnames
    · exact hnames
  · refine hkind.imp (fun hid => ?_) fun hap => ?_
    · split
      · exact hid
      · exact hid
    · have hmono : db'.Apart holder := by
        refine hap.mono fun q hq hl => ?_
        obtain ⟨q', hq', rfl⟩ := (hfiles q).mp hq
        refine ⟨q', hq', ?_⟩
        split at hl
        · case isTrue hqid => exact ⟨hl, by rw [if_pos hqid], by rw [if_pos hqid]⟩
        · case isFalse hqid => exact ⟨hl, by rw [if_neg hqid], by rw [if_neg hqid]⟩
      split
      · exact hmono
      · exact hmono

/-- A replace leaves each chunk with its version: what the row had goes to the trash with the version it
    was stored for. -/
lemma Versioned.replaceContent (h : db.Versioned rowId e) (hint : db.Intact n) {fileId : Uuid}
    {expected : Option ContentHash} {retiredPath : Path} {incoming : InFile} {now : Instant}
    (hok : db.replaceContent fileId expected retiredPath incoming n now = .ok db')
    (hunused : fileId = rowId → ∀ current ∈ db.files, current.id = rowId →
      current.contentHash = expected → db.HasChunks rowId →
      db.Unused current.storageId retiredPath) : db'.Versioned rowId e := by
  obtain ⟨current, hcur, hid, hcl, hhash, -, hfiles, hchunks, -⟩ := replaceContent_ok hint hok
  -- the paths of live rows are those from before
  have hlive : ∀ q ∈ db'.files, q.Live →
      ∃ q' ∈ db.files, q'.Live ∧ q'.storageId = q.storageId ∧ q'.path = q.path := by
    intro q hq hl
    rcases (hfiles q).mp hq with rfl | ⟨hq, -⟩ | ⟨-, rfl⟩
    · exact ⟨current, hcur, hcl, rfl, rfl⟩
    · exact ⟨q, hq, hl, rfl, rfl⟩
    · cases hl
  obtain ⟨holder, hm, ⟨c, hc, hcid, hfile⟩, hnames, hkind⟩ := h
  by_cases hheld : holder.id = fileId
  · obtain rfl := hint.wf.idUnique holder hm current hcur (hheld.trans hid.symm)
    have hrow : holder.id = rowId := hkind.resolve_right fun hap => hap.1 hcl
    have hhas : db.HasChunks fileId := ⟨c, hc, hfile.trans hheld⟩
    refine ⟨retiredRow holder n retiredPath now, (hfiles _).mpr (Or.inr (Or.inr ⟨Or.inr hhas, rfl⟩)),
      ⟨movedChunk fileId n c, ?_, ?_, ?_⟩, hnames, Or.inr ⟨Option.some_ne_none now, ?_⟩⟩
    · rw [hchunks]
      exact List.mem_map_of_mem hc
    · rw [movedChunk_id, hcid]
    · rw [movedChunk, if_pos (hfile.trans hheld)]
      rfl
    · intro q hq hl hs hpath
      obtain ⟨q', hq', hl', hs', hp'⟩ := hlive q hq hl
      have hrowid : fileId = rowId := hheld.symm.trans hrow
      exact hunused hrowid holder hm hrow hhash (hrowid ▸ hhas) q' hq' hl' (hs'.trans hs)
        (hp'.trans hpath)
  · refine ⟨holder, (hfiles holder).mpr (Or.inr (Or.inl ⟨hm, hheld⟩)),
      ⟨movedChunk fileId n c, ?_, ?_, ?_⟩, hnames, hkind.imp_right fun hap => hap.mono hlive⟩
    · rw [hchunks]
      exact List.mem_map_of_mem hc
    · rw [movedChunk_id, hcid]
    · rw [movedChunk, if_neg (hfile ▸ hheld), hfile]

end Db

/-! ## Turns -/

inductive Effect (σ : Process) (u : Upload) (a : Act) (o : Outcome) : Prop where
  | rest (hfiles : o.db.files = σ.db.files) (hchunks : o.db.chunks = σ.db.chunks)
  | purge {f} (hrow : u.phase.row = some f) (hpurges : u.phase.Purges f.id)
      (hp : Db.Purged [f.id] σ.db o.db)
  | replace {existing now stamp} (ha : a = .replace now stamp) (hp : u.phase = .replacing existing)
      (hok : σ.db.replaceContent existing.id existing.contentHash
        (retiredVersionPath existing.path stamp) u.request.inFile σ.next now = .ok o.db)
  | create (ha : a = .create) (hp : u.phase = .creating)
      (hok : σ.db.insertFile (InFile.toRow { u.request.inFile with
        path := σ.db.anywayPath u.request.storageId u.request.path } σ.next false) = .ok o.db)
  | send {file : FileRow} {channels plan ids position}
      (hp : u.phase = .sending file channels plan ids)
      (hfiles : o.db.files = σ.db.files)
      (hchunks : o.db.chunks = σ.db.chunks ++ [⟨σ.next, file.id, position⟩])
  | mark {id : Uuid} (hok : σ.db.setAsUploaded id = .ok o.db)

namespace Process

variable {σ : Process} {u : Upload} {a : Act} {o : Outcome}

lemma replacing_act {existing : FileRow} (hp : u.phase = .replacing existing)
    (ho : σ.act u a = some o) :
    ∃ now stamp, a = .replace now stamp ∧ o = σ.replace u.request existing now stamp := by
  cases a <;> simp only [act, hp, reduceCtorEq, Option.some.injEq] at ho
  exact ⟨_, _, rfl, ho.symm⟩

lemma creating_act (hp : u.phase = .creating) (ho : σ.act u a = some o) :
    a = .create ∧ o = σ.create u.request := by
  cases a <;> simp only [act, hp, reduceCtorEq, Option.some.injEq] at ho
  exact ⟨rfl, ho.symm⟩

lemma replace_cases (σ : Process) (r : UploadRequest) (existing : FileRow) (now : Instant)
    (stamp : Path) : (σ.replace r existing now stamp).db = σ.db ∨
      σ.db.replaceContent existing.id existing.contentHash (retiredVersionPath existing.path stamp)
        r.inFile σ.next now = .ok (σ.replace r existing now stamp).db := by
  unfold replace
  split
  · exact Or.inl rfl
  · case h_2 db' hok =>
    split
    · exact Or.inl rfl
    · exact Or.inr hok

lemma create_cases (σ : Process) (r : UploadRequest) : (σ.create r).db = σ.db ∨
      σ.db.insertFile (InFile.toRow { r.inFile with path := σ.db.anywayPath r.storageId r.path }
        σ.next false) = .ok (σ.create r).db := by
  simp only [create]
  split
  · exact Or.inl rfl
  · case h_2 db' hok => exact Or.inr (Db.createFileRow_ok hok)

lemma effect_act (h : σ.db.Intact σ.next) (ho : σ.act u a = some o) : Effect σ u a o := by
  have hpurge : ∀ {f : FileRow} (purged : Bool) (phase : Phase), u.phase.row = some f →
      u.phase.Purges f.id → Effect σ u a (σ.purge f.id purged phase) := by
    intro f purged phase hrow hpurges
    cases purged with
    | false => exact .rest rfl rfl
    | true => exact .purge hrow hpurges (Db.purged_hardDeleteIds h [f.id] []).2
  cases act_moves ho with
  | turn | refuse | linkFails => exact .rest rfl rfl
  | purge purged hp => exact hpurge purged _ (by rw [hp]; rfl) (by rw [hp]; rfl)
  | drop purged hp => exact hpurge purged _ (by rw [hp]; rfl) (by rw [hp]; rfl)
  | replace hp hok hfile =>
    obtain ⟨now, stamp, ha, heq⟩ := replacing_act hp ho
    rcases σ.replace_cases u.request _ now stamp with hsame | hok'
    · rw [← heq] at hsame
      exact .rest (congrArg Db.files hsame) (congrArg Db.chunks hsame)
    · rw [← heq] at hok'
      exact .replace ha hp hok'
  | create hp hok =>
    obtain ⟨ha, heq⟩ := creating_act hp ho
    rcases σ.create_cases u.request with hsame | hok'
    · rw [← heq] at hsame
      exact .rest (congrArg Db.files hsame) (congrArg Db.chunks hsame)
    · rw [← heq] at hok'
      exact .create ha hp hok'
  | plan hp hok =>
    obtain ⟨-, hed, -⟩ := resolvePrimaryChannel_spec h hok
    exact .rest hed.files hed.chunks
  | send hp hslice htarget hfresh hok =>
    obtain ⟨-, -, -, rfl⟩ := Db.createChunkWithReplica_ok hok
    exact .send hp rfl rfl
  | link hp hreplicas hok =>
    subst hreplicas
    have hreq := (h.insertBatch hok).2
    exact .rest hreq.files hreq.chunks
  | mark hp hok => exact .mark hok

lemma sends_act {fileId : Uuid} (ho : σ.act u a = some o) (hsends : o.phase.sends = some fileId) :
    u.phase.sends = some fileId ∨
      a = .begin ∧ ∃ file, u.phase = .starting file ∧ file.id = fileId := by
  cases act_moves ho with
  | @turn phase ht =>
    generalize hp : u.phase = p at ht
    cases ht with
    | queue hsize =>
      right
      refine ⟨?_, _, rfl, Option.some.inj hsends⟩
      cases a <;> simp only [act, hp, reduceCtorEq] at ho
      rfl
    | _ => cases hsends
  | plan hp hok | send hp hslice htarget hfresh hok =>
    left
    rw [hp]
    exact hsends
  | mark hp hok =>
    dsimp only at hsends
    split at hsends <;> cases hsends
  | _ => cases hsends

end Process

namespace Effect

variable {σ : Process} {u : Upload} {a : Act} {o : Outcome}

lemma added (heff : Effect σ u a o) (h : σ.db.Intact σ.next) {c : FileChunk} (hc : c ∈ o.db.chunks)
    (hnew : ∀ c' ∈ σ.db.chunks, c'.id ≠ c.id) :
    u.phase.sends = some c.fileId ∧ o.db.files = σ.db.files := by
  cases heff with
  | rest hfiles hchunks => exact absurd rfl (hnew c (hchunks ▸ hc))
  | purge hrow hpurges hp => exact absurd rfl (hnew c ((hp.chunks c).mp hc).1)
  | replace ha hp hok =>
    obtain ⟨_, -, -, -, -, -, -, hchunks, -⟩ := Db.replaceContent_ok h hok
    rw [hchunks] at hc
    obtain ⟨c', hc', rfl⟩ := List.mem_map.mp hc
    exact absurd (Db.movedChunk_id _ _ c').symm (hnew c' hc')
  | create ha hp hok =>
    rw [(Db.insertFile_ok hok).2.2.2] at hc
    exact absurd rfl (hnew c hc)
  | send hp hfiles hchunks =>
    rw [hchunks] at hc
    rcases List.mem_append.mp hc with hc | hc
    · exact absurd rfl (hnew c hc)
    · rw [List.mem_singleton.mp hc, hp]
      exact ⟨rfl, hfiles⟩
  | mark hok =>
    obtain ⟨db₁, hok₁, -, -, hchunks, -⟩ := Db.updateById_ok h.wf _ Db.inPlace_uploaded
    rw [Db.setAsUploaded, hok₁] at hok
    rw [← Except.ok.inj hok, hchunks] at hc
    exact absurd rfl (hnew c hc)

lemma renamed (heff : Effect σ u a o) (h : σ.db.Intact σ.next) {f : FileRow} (hf : f ∈ o.db.files)
    (hbelow : f.id < σ.next) :
    (∃ q ∈ σ.db.files, q.id = f.id ∧ q.contentHash = f.contentHash ∧ q.size = f.size) ∨
      ∃ existing now stamp, a = .replace now stamp ∧ u.phase = .replacing existing ∧
        existing.id = f.id ∧ ∃ current ∈ σ.db.files, current.id = f.id ∧
          current.contentHash = existing.contentHash := by
  cases heff with
  | rest hfiles hchunks => exact Or.inl ⟨f, hfiles ▸ hf, rfl, rfl, rfl⟩
  | purge hrow hpurges hp => exact Or.inl ⟨f, ((hp.files f).mp hf).1, rfl, rfl, rfl⟩
  | @replace existing now stamp ha hp hok =>
    obtain ⟨current, hcur, hid, -, hhash, -, hfiles, -⟩ := Db.replaceContent_ok h hok
    rcases (hfiles f).mp hf with rfl | ⟨hf, -⟩ | ⟨-, rfl⟩
    · exact Or.inr ⟨existing, now, stamp, ha, hp, hid.symm, current, hcur, rfl, hhash⟩
    · exact Or.inl ⟨f, hf, rfl, rfl, rfl⟩
    · exact absurd hbelow (lt_irrefl _)
  | create ha hp hok =>
    rcases (Db.mem_insertFile hok).mp hf with hf | rfl
    · exact Or.inl ⟨f, hf, rfl, rfl, rfl⟩
    · exact absurd hbelow (lt_irrefl _)
  | send hp hfiles hchunks => exact Or.inl ⟨f, hfiles ▸ hf, rfl, rfl, rfl⟩
  | mark hok =>
    obtain ⟨db₁, hok₁, -, hfiles, -⟩ := Db.updateById_ok h.wf _ Db.inPlace_uploaded
    rw [Db.setAsUploaded, hok₁] at hok
    obtain ⟨q, hq, rfl⟩ := (hfiles f).mp (Except.ok.inj hok ▸ hf)
    refine Or.inl ⟨q, hq, ?_⟩
    split <;> exact ⟨rfl, rfl, rfl⟩

end Effect

/-! ## Runs -/

structure Versions (σ₀ : Process) (row : FileRow) (s : Logged) : Prop where
  held : Held σ₀ row s.process
  numbered : s.process.Numbered
  versioned : ∀ e ∈ s.log, s.process.db.Versioned row.id e
  names : ∀ u ∈ s.process.uploads, u.phase.sends = some row.id → ∀ f ∈ s.process.db.files,
    f.id = row.id → f.Names u.request.contentHash u.request.inFile.size

namespace Versions

variable {σ₀ : Process} {row : FileRow} {s : Logged} {u : Upload} {number : Nat} {a : Act}
  {o : Outcome}

lemma below (h : Versions σ₀ row s) : row.id < s.process.next := by
  obtain ⟨r, hr, hid, -⟩ := h.held.keeping.live
  rw [← hid]
  exact h.held.intact.db.fileBelow r hr

lemma versioned_act (h : Versions σ₀ row s) (hu : u ∈ s.process.uploads)
    (heff : Effect s.process u a o) (hok : MindfulAct row.id s u a) :
    ∀ e ∈ s.log, o.db.Versioned row.id e := by
  intro e he
  have hver := h.versioned e he
  cases heff with
  | rest hfiles hchunks => exact hver.grow hfiles fun c hc => hchunks ▸ hc
  | @purge f hrow hpurges hp =>
    refine hver.purged hp (fun r hr hid => ?_) fun hid => ?_
    · exact h.held.intact.rowLive u hu f hrow r hr (List.mem_singleton.mp hid)
    · rw [← List.mem_singleton.mp hid] at hpurges
      exact h.held.spared u hu hpurges
  | replace ha hp hrep =>
    subst ha
    simp only [MindfulAct, hp] at hok
    refine hver.replaceContent h.held.intact.db hrep fun hid current hcur hcid hhash => ?_
    exact (hok hid current hcur hcid hhash).2
  | create ha hp hins =>
    subst ha
    simp only [MindfulAct, hp] at hok
    exact hver.insertFile hins (hok e he)
  | send hp hfiles hchunks =>
    refine hver.grow hfiles fun c hc => ?_
    rw [hchunks]
    exact List.mem_append_left _ hc
  | mark hmark => exact hver.setAsUploaded h.held.intact.db.wf hmark

lemma stored_act (h : Versions σ₀ row s) (hu : u ∈ s.process.uploads)
    (heff : Effect s.process u a o) {c : FileChunk} (hc : c ∈ o.db.chunks) (hfile : c.fileId = row.id)
    (hnew : ∀ c' ∈ s.process.db.chunks, c'.id ≠ c.id) :
    o.db.Versioned row.id ⟨c.id, u.request.contentHash, u.request.inFile.size⟩ := by
  obtain ⟨hsends, hfiles⟩ := heff.added h.held.intact.db hc hnew
  obtain ⟨r, hr, hid, -⟩ := h.held.keeping.live
  rw [hfile] at hsends
  exact ⟨r, hfiles ▸ hr, ⟨c, hc, rfl, hfile.trans hid.symm⟩, h.names u hu hsends r hr hid, Or.inl hid⟩

lemma names_act (h : Versions σ₀ row s) (hu : s.process.upload? number = some u)
    (hmem : u ∈ s.process.uploads) (ho : s.process.act u a = some o)
    (heff : Effect s.process u a o) (hok : MindfulAct row.id s u a) :
    ∀ v ∈ (s.process.commit number o).uploads, v.phase.sends = some row.id →
      ∀ f ∈ o.db.files, f.id = row.id → f.Names v.request.contentHash v.request.inFile.size := by
  intro v hv hsends f hf hid
  -- either the request stored chunks before, or it takes the guard now
  have hcases : (∃ w ∈ s.process.uploads, w.phase.sends = some row.id ∧ w.request = v.request) ∨
      a = .begin ∧ u.request = v.request ∧ ∃ file, u.phase = .starting file ∧ file.id = row.id := by
    rcases Process.mem_commit hv with ⟨hv, -⟩ | ⟨w, hw, hnumber, rfl⟩
    · exact Or.inl ⟨v, hv, hsends, rfl⟩
    · have hnum : u.number = number := by simpa using List.find?_some hu
      obtain rfl := h.numbered w hw u hmem (hnumber.trans hnum.symm)
      rcases Process.sends_act ho hsends with hbefore | ⟨ha, hstart⟩
      · exact Or.inl ⟨w, hmem, hbefore, rfl⟩
      · exact Or.inr ⟨ha, rfl, hstart⟩
  rcases heff.renamed h.held.intact.db hf (hid ▸ h.below) with
    ⟨q, hq, hqid, hhash, hsize⟩ | ⟨existing, now, stamp, ha, hp, hex, current, hcur, hcid, hhash⟩
  · have hnames : q.Names v.request.contentHash v.request.inFile.size := by
      rcases hcases with ⟨w, hw, hbefore, hreq⟩ | ⟨ha, hreq, file, hp, hfile⟩
      · rw [← hreq]
        exact h.names w hw hbefore q hq (hqid.trans hid)
      · subst ha
        simp only [MindfulAct, hp] at hok
        rw [← hreq]
        exact hok hfile q hq (hqid.trans hid)
    exact ⟨hhash.symm.trans hnames.1, hsize.symm.trans hnames.2⟩
  · -- the row is replaced, so no request stores chunks for it
    subst ha
    simp only [MindfulAct, hp] at hok
    rcases hcases with ⟨w, hw, hbefore, -⟩ | ⟨hbegin, -⟩
    · exact absurd hbefore ((hok (hex.trans hid) current hcur (hcid.trans hid) hhash).1 w hw)
    · cases hbegin

/-- A mindful step keeps the versions. -/
theorem step (h : Versions σ₀ row s) (hbelow : σ₀.db.Intact σ₀.next) (a : Step)
    (hok : Mindful row.id s a) : Versions σ₀ row (stepLogged row.id s a) := by
  have hheld := h.held.step hbelow a hok.1
  have hnumbered := Process.numbered_step h.numbered a
  have hrest : ∀ {τ : Process}, τ.db.files = s.process.db.files → τ.db.chunks = s.process.db.chunks →
      ∀ e ∈ s.log, τ.db.Versioned row.id e :=
    fun hfiles hchunks e he => (h.versioned e he).grow hfiles fun c hc => hchunks ▸ hc
  cases a with
  | arrive number r =>
    have hlog : (stepLogged row.id s (.arrive number r)).log = s.log := List.append_nil _
    have hdb := (s.process.arrive_writes number r).1
    refine ⟨hheld, hnumbered, ?_, ?_⟩
    · rw [hlog]
      exact hrest (congrArg Db.files hdb) (congrArg Db.chunks hdb)
    · intro u hu hsends f hf hid
      have hf : f ∈ s.process.db.files := hdb ▸ hf
      rw [stepLogged] at hu
      rcases s.process.step_arrive number r with heq | ⟨-, phase, hphase, heq⟩
      · rw [heq] at hu
        exact h.names u hu hsends f hf hid
      · rw [heq] at hu
        cases List.mem_append.mp hu with
        | inl hu => exact h.names u hu hsends f hf hid
        | inr hu =>
          rw [List.mem_singleton.mp hu] at hsends
          rcases hphase with rfl | rfl <;> cases hsends
  | act number a =>
    rcases s.process.step_act number a with heq | ⟨u, o, hu, hmem, ho, -, heq⟩
    · have hlog : (stepLogged row.id s (.act number a)).log = s.log := by
        rw [stepLogged, Process.storedBy_same heq]
        exact List.append_nil _
      refine ⟨hheld, hnumbered, ?_, ?_⟩
      · rw [hlog, stepLogged, heq]
        exact h.versioned
      · rw [stepLogged, heq]
        exact h.names
    · have heff := Process.effect_act h.held.intact.db ho
      have hmindful := hok.2 u hu
      have hdb : (s.process.step (.act number a)).db = o.db := by rw [heq]; rfl
      refine ⟨hheld, hnumbered, ?_, ?_⟩
      · intro e he
        show (s.process.step (.act number a)).db.Versioned row.id e
        rw [hdb]
        rcases List.mem_append.mp he with he | he
        · exact h.versioned_act hmem heff hmindful e he
        · simp only [Process.storedBy, hu] at he
          obtain ⟨c, hc, rfl⟩ := List.mem_map.mp he
          obtain ⟨hc, hcond⟩ := List.mem_filter.mp hc
          simp only [decide_eq_true_eq, List.all_eq_true] at hcond
          exact h.stored_act hmem heff (hdb ▸ hc) hcond.1 hcond.2
      · show ∀ v ∈ (s.process.step (.act number a)).uploads, _ → ∀ f ∈ (s.process.step _).db.files, _
        rw [heq]
        exact h.names_act hu hmem ho heff hmindful
  | disconnect number handed =>
    have hl := Process.left_disconnect s.process number handed
    have hlog : (stepLogged row.id s (.disconnect number handed)).log = s.log := List.append_nil _
    refine ⟨hheld, hnumbered, ?_, ?_⟩
    · rw [hlog]
      exact hrest (congrArg Db.files hl.db) (congrArg Db.chunks hl.db)
    · intro v hv hsends f hf hid
      obtain ⟨u, hu, -, hreq, hphase | hphase, -⟩ := hl.uploads v hv
      · rw [← hreq]
        exact h.names u hu (hphase ▸ hsends) f (hl.db ▸ hf) hid
      · rw [hphase] at hsends
        cases hsends
  | edit e =>
    have ht := Process.tuned_edit h.held.intact.db e
    have hlog : (stepLogged row.id s (.edit e)).log = s.log := List.append_nil _
    refine ⟨hheld, hnumbered, ?_, ?_⟩
    · rw [hlog]
      exact hrest ht.files ht.chunks
    · intro u hu hsends f hf hid
      exact h.names u (ht.uploads ▸ hu) hsends f (ht.files ▸ hf) hid
  | restart order =>
    have hlog : (stepLogged row.id s (.restart order)).log = s.log := List.append_nil _
    refine ⟨hheld, hnumbered, ?_, fun u hu => absurd hu List.not_mem_nil⟩
    rw [hlog]
    intro e he
    refine (h.versioned e he).purged (Db.purged_hardDeleteIds h.held.intact.db _ order).2
      (fun r hr hin => ?_) (h.held.not_interrupted hok.1)
    exact (Process.of_mem_interrupted h.held.intact.db.wf hr hin).2.1

lemma attached (h : Versions σ₀ row s) : ∀ e ∈ s.log, ∃ holder ∈ s.process.db.files,
    s.process.db.AttachedTo e.chunkId holder ∧
    (∀ f ∈ s.process.db.files, s.process.db.AttachedTo e.chunkId f → f = holder) ∧
    holder.Names e.contentHash e.size ∧
    (holder.id = row.id ∧ holder.Live ∨ s.process.db.Apart holder) := by
  intro e he
  obtain ⟨holder, hm, ⟨c, hc, hcid, hfile⟩, hnames, hkind⟩ := h.versioned e he
  refine ⟨holder, hm, ⟨c, hc, hcid, hfile⟩, ?_, hnames, hkind.imp_left fun hid => ⟨hid, ?_⟩⟩
  · rintro f hf ⟨c', hc', hcid', hfile'⟩
    obtain rfl := h.held.intact.db.chunkId hc hc' (hcid.trans hcid'.symm)
    exact h.held.intact.db.wf.idUnique f hf holder hm (hfile'.symm.trans hfile)
  · obtain ⟨r, hr, hrid, -, -, hl⟩ := h.held.keeping.live
    rw [h.held.intact.db.wf.idUnique holder hm r hr (hid.trans hrid.symm)]
    exact hl

end Versions

lemma replace_refused {σ : Process} {r : UploadRequest} {existing : FileRow} {now : Instant}
    {stamp : Path} (h : ∀ f ∈ σ.db.files, f.id = existing.id → f.Live →
      f.contentHash ≠ existing.contentHash) :
    σ.replace r existing now stamp = σ.turn (.answered (.error .uploadAlreadyInProgress)) := by
  have hnone : σ.db.files.find? (fun f => f.id = existing.id ∧ f.Live ∧
      f.contentHash = existing.contentHash) = none := by
    rw [List.find?_eq_none]
    intro f hf hcond
    obtain ⟨hid, hl, hhash⟩ := of_decide_eq_true hcond
    exact h f hf hid hl hhash
  simp only [Process.replace, Db.replaceContent, hnone]

/-- In every run of uploads, resumes and replaces whose steps mind the versions of a live row, each chunk
    stored for a version stays attached to exactly one row that names it, the live row or a trashed row
    with a path of its own; the row keeps its id and path; and a replace of a row that changed since is
    refused. -/
theorem versions_kept {σ₀ : Process} (h : σ₀.Intact) (hidle : σ₀.uploads = []) {row : FileRow}
    (hrow : row ∈ σ₀.db.files) (hlive : row.Live) (steps : List Step)
    (hok : AllOk (stepLogged row.id) (Mindful row.id) (σ₀.logged row) steps) :
    Always (stepLogged row.id) (VersionsKept row) (σ₀.logged row) steps := by
  have hnone : ∀ u, u ∉ σ₀.uploads := by
    rw [hidle]
    exact fun u => List.not_mem_nil
  have hstart : Versions σ₀ row (σ₀.logged row) := by
    refine ⟨Held.start h hrow hlive fun u hu => absurd hu (hnone u),
      fun u hu => absurd hu (hnone u), ?_, fun u hu => absurd hu (hnone u)⟩
    intro e he
    obtain ⟨c, hc, rfl⟩ := List.mem_map.mp he
    obtain ⟨hc, hfile⟩ := List.mem_filter.mp hc
    exact ⟨row, hrow, ⟨c, hc, rfl, of_decide_eq_true hfile⟩, ⟨rfl, rfl⟩, Or.inl rfl⟩
  have hversions : Always (stepLogged row.id) (Versions σ₀ row) (σ₀.logged row) steps :=
    always_of_allOk (fun s a hs ha => hs.step h.db a ha) hstart hok
  exact hversions.mono fun s hs => ⟨hs.held.keeping.live, hs.attached, fun _ _ _ _ => replace_refused⟩

def otherVersion : UploadRequest :=
  { newVersion with body := [7, 8, 9], contentHash := some "sha256:other" }

/-- A replace that stops behind its first chunk. -/
def halfReplace : List Step :=
  startReplace ++ [.act 0 (.send 0 "new-0" 12), .act 0 (.sendFails .unknown), .act 0 (.count true)]

/-- A third version replaces the half-stored second one within the same second: two trashed rows have one
    path. -/
theorem sameSecond_keeps :
    Always (stepLogged 3) (VersionsKept oldVersion) (oneFile.logged oldVersion) (halfReplace ++
      [.arrive 1 otherVersion, .act 1 .look, .act 1 .settle,
        .act 1 (.replace 0 "1970-01-01 00-00-00".toList), .act 1 .begin, .act 1 .plan,
        .act 1 (.send 0 "other-0" 13)]) := by
  have hrow : oldVersion ∈ oneFile.db.files := by decide +kernel
  exact versions_kept oneFile_intact rfl hrow rfl _ (by decide +kernel)

/-- A third version is about to replace the half-stored second one when the second is sent again. -/
def relayUnderReplace : List Step :=
  halfReplace ++ [.arrive 1 otherVersion, .act 1 .look, .act 1 .settle, .arrive 2 newVersion,
    .act 2 .look, .act 2 .begin, .act 2 .plan, .act 1 (.replace 0 "1970-01-01 00-00-00".toList),
    .act 2 (.send 1 "new-1" 13)]

/-- The row is pointed at the third version under the relay of the second, and the next chunk of the
    second is attached to it. -/
theorem relayUnderReplace_misattaches :
    ¬ Always (stepLogged 3) (VersionsKept oldVersion) (oneFile.logged oldVersion)
      relayUnderReplace := by
  intro h
  have hend := h.last.attached
  have hbad : ¬ ∀ e ∈ (run (stepLogged 3) (oneFile.logged oldVersion) relayUnderReplace).log,
      ∃ holder ∈ (run (stepLogged 3) (oneFile.logged oldVersion) relayUnderReplace).process.db.files,
        Db.AttachedTo (run (stepLogged 3) (oneFile.logged oldVersion) relayUnderReplace).process.db
          e.chunkId holder ∧ holder.Names e.contentHash e.size := by
    decide +kernel
  apply hbad
  intro e he
  obtain ⟨holder, hm, hatt, -, hnames, -⟩ := hend e he
  exact ⟨holder, hm, hatt, hnames⟩

end Sarca.Server
