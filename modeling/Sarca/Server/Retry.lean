import Sarca.Server.Download

/-!
# Attempts at one file

Any number of attempts at the same path and content hash, interleaved with each other, with failures,
timeouts, aborts, restarts and edits of the channels. `OneCopy` asks that they leave one live row, and
that an attempt that arrives after another one has finished has nothing to do: its first turn answers
it. `retries_keep_one`: that is so in every run in which a row is inserted at a free path only, a row
that was set uploaded is neither purged nor replaced, and the row is still there when an attempt sets it
uploaded for the last time.
-/

namespace Sarca.Server
open Sarca.Lib

def Phase.isDone : Phase → Bool
  | .answered (.ok ()) => true
  | _ => false

/-- A server with attempts at one file: whether one of them has finished, and the numbers of those that
    arrived after that. -/
structure Retries where
  process : Process
  finished : Bool
  late : List Nat

def Retries.step (t : Retries) (a : Step) : Retries where
  process := t.process.step a
  finished := t.finished || (t.process.step a).uploads.any (·.phase.isDone)
  late := match a with
    | .arrive number _ =>
      if t.finished = true ∧ (t.process.upload? number).isNone then number :: t.late else t.late
    | _ => t.late

structure IsRetry (storageId : Uuid) (path : Path) (hash : ContentHash) (r : UploadRequest) : Prop where
  storageId : r.storageId = storageId
  path : r.path = path
  contentHash : r.contentHash = some hash

def OnlyRetries (storageId : Uuid) (path : Path) (hash : ContentHash) : Step → Prop
  | .arrive _ r => IsRetry storageId path hash r
  | _ => True

/-- A live row for the file: one with its hash that stands at the path, or was inserted since the id
    `since` was the next one. -/
structure IsCopy (storageId : Uuid) (path : Path) (hash : ContentHash) (since : Uuid)
    (row : FileRow) : Prop where
  live : row.Live
  storageId : row.storageId = storageId
  contentHash : row.contentHash = some hash
  here : row.path = path ∨ since ≤ row.id

/-- There is one live row for the file, and a late attempt is answered in its first turn. -/
structure OneCopy (storageId : Uuid) (path : Path) (hash : ContentHash) (since : Uuid)
    (t : Retries) : Prop where
  single : ∀ row ∈ t.process.db.files, ∀ row' ∈ t.process.db.files,
    IsCopy storageId path hash since row → IsCopy storageId path hash since row' → row = row'
  idle : ∀ u ∈ t.process.uploads, u.number ∈ t.late → u.gone = false →
    u.phase = .looking ∧ t.process.look u.request = .answered (.ok ()) ∨
      u.phase = .answered (.ok ())

def Db.Spare (db : Db) (fileId : Uuid) (hash : Option ContentHash) : Prop :=
  ∀ row ∈ db.fileById fileId, ¬ (row.isUploaded = true ∧ row.contentHash = hash)

/-- A row is inserted at a free path, an uploaded row is neither replaced nor purged, and a row that is
    set uploaded is there. -/
def SingleAct (σ : Process) (u : Upload) : Act → Prop
  | .create => match u.phase with
    | .creating => σ.db.liveAt u.request.storageId u.request.path = none
    | _ => True
  | .replace _ _ => match u.phase with
    | .replacing existing => σ.db.Spare existing.id u.request.contentHash
    | _ => True
  | .purge true => match u.phase with
    | .purging existing => σ.db.Spare existing.id u.request.contentHash
    | _ => True
  | .drop true => match u.phase with
    | .dropping file _ => u.gone = true ∨ σ.db.Spare file.id u.request.contentHash
    | _ => True
  | .mark => match u.phase with
    | .marking file true => u.gone = true ∨ σ.db.fileById file.id ≠ none
    | _ => True
  | _ => True

/-- The condition on a step; once an attempt has finished, the storage has a bot when another one
    arrives. -/
def Single (t : Retries) : Step → Prop
  | .arrive _ r => t.finished = true → ∃ w ∈ t.process.db.workers, w.storageId = some r.storageId
  | .act number a => ∀ u ∈ t.process.upload? number, SingleAct t.process u a
  | _ => True

def decideNone {α : Type} (o : Option α) : Decidable (o = none) :=
  match o with
  | none => isTrue rfl
  | some _ => isFalse fun h => nomatch h

instance Db.Spare.decidable (db : Db) (fileId : Uuid) (hash : Option ContentHash) :
    Decidable (db.Spare fileId hash) :=
  decideMem _ _

instance (σ : Process) (u : Upload) (a : Act) : Decidable (SingleAct σ u a) := by
  induction u using Upload.casesOn with
  | mk number request phase gone =>
    induction a using Act.casesOn with
    | create =>
      induction phase using Phase.casesOn with
      | creating => exact decideNone _
      | _ => exact isTrue trivial
    | replace now stamp =>
      induction phase using Phase.casesOn with
      | replacing existing => exact decideMem _ _
      | _ => exact isTrue trivial
    | purge purged =>
      induction purged using Bool.casesOn with
      | true =>
        induction phase using Phase.casesOn with
        | purging existing => exact decideMem _ _
        | _ => exact isTrue trivial
      | false => exact isTrue trivial
    | drop purged =>
      induction purged using Bool.casesOn with
      | true =>
        induction phase using Phase.casesOn with
        | dropping file error => exact instDecidableOr
        | _ => exact isTrue trivial
      | false => exact isTrue trivial
    | mark =>
      induction phase using Phase.casesOn with
      | marking file again =>
        induction again using Bool.casesOn with
        | true => exact @instDecidableOr _ _ _ (@instDecidableNot _ (decideNone _))
        | false => exact isTrue trivial
      | _ => exact isTrue trivial
    | _ => exact isTrue trivial

instance (t : Retries) (a : Step) : Decidable (Single t a) := by
  induction a using Step.casesOn with
  | arrive number r => exact inferInstanceAs (Decidable (_ → _))
  | act number a => exact decideMem _ _
  | _ => exact isTrue trivial

/-! ## What a turn leaves of the rows -/

section Turn

variable {storageId : Uuid} {path : Path} {hash : ContentHash} {since : Uuid} {σ : Process}
  {u : Upload} {a : Act} {o : Outcome}

lemma old_row (h : σ.Intact) (hm : Moves σ u o) {row : FileRow} (hrow : row ∈ o.db.files)
    (hid : row.id ≠ σ.next) : ∃ q ∈ σ.db.files, q.id = row.id ∧ q.storageId = row.storageId ∧
      q.path = row.path ∧ (row.Live → q.Live) ∧
      (row.contentHash = q.contentHash ∨ row.contentHash = u.request.contentHash) := by
  cases Process.rows_of_moves h.db hm row hrow with
  | old hq => exact ⟨row, hq, rfl, rfl, rfl, id, Or.inl rfl⟩
  | @uploaded q hq => exact ⟨q, hq, rfl, rfl, rfl, id, Or.inl rfl⟩
  | @incoming q hq => exact ⟨q, hq, rfl, rfl, rfl, id, Or.inr rfl⟩
  | retired => exact absurd rfl hid
  | created => exact absurd rfl hid

lemma act_purging {existing : FileRow} (hp : u.phase = .purging existing)
    (ho : σ.act u a = some o) :
    ∃ purged, a = .purge purged ∧ o = σ.purge existing.id purged .settling := by
  cases a <;> simp only [Process.act, hp, reduceCtorEq, Option.some.injEq] at ho
  exact ⟨_, rfl, ho.symm⟩

lemma act_dropping {file : FileRow} {e : SarcaError} (hp : u.phase = .dropping file e)
    (ho : σ.act u a = some o) : ∃ purged, a = .drop purged ∧ u.gone = false ∧
      o = σ.purge file.id purged (.answered (.error e)) := by
  cases a <;> simp only [Process.act, hp, reduceCtorEq, Option.ite_none_left_eq_some,
    Option.some.injEq, Bool.not_eq_true] at ho
  exact ⟨_, rfl, ho.1, ho.2.symm⟩

lemma Db.Spare.ne {db : Db} (hwf : db.Wf) {fileId : Uuid} {hash : Option ContentHash}
    (h : db.Spare fileId hash) {row : FileRow} (hrow : row ∈ db.files) (hup : row.isUploaded = true)
    (hhash : row.contentHash = hash) : row.id ≠ fileId := by
  rintro rfl
  exact h row (Db.fileById_of_mem hwf hrow) ⟨hup, hhash⟩

lemma stored_act (h : σ.Intact) (ho : σ.act u a = some o) (ha : SingleAct σ u a) {row : FileRow}
    (hrow : row ∈ σ.db.files) (hup : row.isUploaded = true)
    (hhash : row.contentHash = u.request.contentHash) : row ∈ o.db.files := by
  have hpurge : ∀ id purged phase, (purged = true → σ.db.Spare id u.request.contentHash) →
      row ∈ (σ.purge id purged phase).db.files := by
    intro id purged phase hspare
    cases purged with
    | false => exact hrow
    | true =>
      refine ((Db.purged_hardDeleteIds h.db [id] []).2.files row).mpr ⟨hrow, ?_⟩
      rw [List.mem_singleton]
      exact (hspare rfl).ne h.db.wf hrow hup hhash
  cases Process.act_moves ho with
  | turn | refuse | linkFails => exact hrow
  | purge purged hp =>
    obtain ⟨purged', rfl, heq⟩ := act_purging hp ho
    rw [heq]
    refine hpurge _ _ _ fun htrue => ?_
    subst htrue
    simp only [SingleAct, hp] at ha
    exact ha
  | drop purged hp =>
    obtain ⟨purged', rfl, hgone, heq⟩ := act_dropping hp ho
    rw [heq]
    refine hpurge _ _ _ fun htrue => ?_
    subst htrue
    simp only [SingleAct, hp, hgone, Bool.false_eq_true, false_or] at ha
    exact ha
  | @replace existing now stamp db' file hp hok =>
    have hspare : σ.db.Spare existing.id u.request.contentHash := by
      cases a <;> simp only [Process.act, hp, reduceCtorEq] at ho
      simp only [SingleAct, hp] at ha
      exact ha
    obtain ⟨current, -, -, -, -, -, hfiles, -⟩ := Db.replaceContent_ok h.db hok
    exact (hfiles row).mpr (Or.inr (Or.inl ⟨hrow, hspare.ne h.db.wf hrow hup hhash⟩))
  | create hp hok => exact (Db.mem_insertFile (Db.createFileRow_ok hok)).mpr (Or.inl hrow)
  | plan hp hok =>
    obtain ⟨-, hed, -⟩ := Process.resolvePrimaryChannel_spec h.db hok
    exact hed.files ▸ hrow
  | send hp hslice htarget hfresh hok =>
    obtain ⟨-, -, -, rfl⟩ := Db.createChunkWithReplica_ok hok
    exact hrow
  | link hp hreplicas hok =>
    subst hreplicas
    exact (h.db.insertBatch hok).2.files ▸ hrow
  | @mark file again db' hp hok =>
    obtain ⟨db₁, hok₁, -, hfiles, -⟩ := Db.updateById_ok h.db.wf file.id Db.inPlace_uploaded
    rw [Db.setAsUploaded, hok₁] at hok
    cases hok
    refine (hfiles row).mpr ⟨row, hrow, ?_⟩
    split
    · rw [← hup]
    · rfl

lemma resume_not_done (r : UploadRequest) (existing : FileRow) :
    (Process.resume r existing).isDone = false := by
  unfold Process.resume
  split <;> rfl

lemma look_done {r : UploadRequest} (h : (σ.look r).isDone = true) :
    ∃ existing, σ.db.liveAt r.storageId r.path = some existing ∧ existing.isUploaded = true ∧
      existing.contentHash = r.contentHash := by
  unfold Process.look at h
  split at h
  · case h_1 hash existing hhash hlive =>
    split at h
    · case isTrue hsame =>
      split at h
      · case isTrue hup => exact ⟨existing, hlive, hup, hsame.trans hhash.symm⟩
      · split at h
        · cases h
        · rw [resume_not_done] at h
          cases h
    · cases h
  · cases h

lemma awake_done {r : UploadRequest} {existing : FileRow} {timedOut : Bool}
    (h : (σ.awake r existing timedOut).isDone = true) :
    ∃ row, σ.db.fileById existing.id = some row ∧ row.isUploaded = true := by
  unfold Process.awake at h
  split at h
  · split at h <;> cases h
  · split at h
    · case h_1 row hrow =>
      split at h
      · case isTrue hup => exact ⟨row, hrow, hup⟩
      · rw [resume_not_done] at h
        cases h
    · rw [resume_not_done] at h
      cases h

lemma settle_not_done (r : UploadRequest) : (σ.settle r).isDone = false := by
  unfold Process.settle
  split
  · split
    · split <;> rfl
    · rfl
  · rfl

/-- An attempt ends Ok when it finds the row uploaded, or sets it so for the second time. -/
lemma act_done (ho : σ.act u a = some o) (hdone : o.phase.isDone = true) :
    (u.phase = .looking ∧ o.db = σ.db ∧ ∃ existing,
      σ.db.liveAt u.request.storageId u.request.path = some existing ∧ existing.isUploaded = true ∧
        existing.contentHash = u.request.contentHash) ∨
    (∃ existing row, u.phase = .waiting existing ∧ o.db = σ.db ∧
      σ.db.fileById existing.id = some row ∧ row.isUploaded = true) ∨
    ∃ file, a = .mark ∧ u.gone = false ∧ u.phase = .marking file true ∧
      σ.db.setAsUploaded file.id = .ok o.db := by
  cases a with
  | look =>
    cases hp : u.phase <;> simp only [Process.act, hp, reduceCtorEq, Option.some.injEq] at ho
    subst ho
    exact Or.inl ⟨rfl, rfl, look_done hdone⟩
  | awake timedOut =>
    cases hp : u.phase with
    | waiting existing =>
      simp only [Process.act, hp, Option.some.injEq] at ho
      subst ho
      obtain ⟨row, hrow, hup⟩ := awake_done hdone
      exact Or.inr (Or.inl ⟨existing, row, rfl, rfl, hrow, hup⟩)
    | _ => simp only [Process.act, hp, reduceCtorEq] at ho
  | mark =>
    cases hp : u.phase with
    | marking file again =>
      simp only [Process.act, hp, Option.ite_none_left_eq_some, not_and, Bool.not_eq_true] at ho
      obtain ⟨hgone, ho⟩ := ho
      cases ho
      unfold Process.mark at hdone ⊢
      split at hdone
      · cases hdone
      · case h_2 db' hok =>
        cases again with
        | false => cases hdone
        | true =>
          refine Or.inr (Or.inr ⟨file, rfl, hgone rfl, rfl, ?_⟩)
          rw [hok]
    | _ => simp only [Process.act, hp, reduceCtorEq] at ho
  | settle =>
    cases hp : u.phase <;> simp only [Process.act, hp, reduceCtorEq, Option.some.injEq] at ho
    subst ho
    exact absurd ((settle_not_done u.request).symm.trans hdone) Bool.false_ne_true
  | send position telegramFileId messageId =>
    cases hp : u.phase with
    | sending file channels plan ids =>
      simp only [Process.act, hp] at ho
      obtain ⟨-, offset, len, -, target, -, hcase⟩ := Process.send_cases ho
      rcases hcase with ⟨e, rfl⟩ | ⟨db', -, rfl⟩ <;> cases hdone
    | _ => simp only [Process.act, hp, reduceCtorEq] at ho
  | link =>
    cases hp : u.phase with
    | sending file channels plan ids =>
      cases plan with
      | nil =>
        simp only [Process.act, hp, Option.some.injEq] at ho
        subst ho
        simp only [Process.link] at hdone
        split at hdone <;> cases hdone
      | cons slice plan => simp only [Process.act, hp, reduceCtorEq] at ho
    | _ => simp only [Process.act, hp, reduceCtorEq] at ho
  | replace now stamp =>
    cases hp : u.phase <;> simp only [Process.act, hp, reduceCtorEq, Option.some.injEq] at ho
    subst ho
    unfold Process.replace at hdone
    split at hdone
    · cases hdone
    · split at hdone <;> cases hdone
  | plan =>
    cases hp : u.phase <;> simp only [Process.act, hp, reduceCtorEq, Option.some.injEq] at ho
    subst ho
    unfold Process.plan at hdone
    split at hdone
    · cases hdone
    · split at hdone <;> cases hdone
  | create =>
    cases hp : u.phase <;> simp only [Process.act, hp, reduceCtorEq, Option.some.injEq] at ho
    subst ho
    simp only [Process.create] at hdone
    split at hdone <;> cases hdone
  | begin =>
    cases hp : u.phase <;> simp only [Process.act, hp, reduceCtorEq, Option.some.injEq] at ho
    subst ho
    simp only [Process.begin, Process.turn] at hdone
    split at hdone <;> cases hdone
  | count readable =>
    cases hp : u.phase <;>
      simp only [Process.act, hp, reduceCtorEq, Option.ite_none_left_eq_some, Option.some.injEq] at ho
    obtain ⟨-, rfl⟩ := ho
    simp only [Process.count, Process.turn] at hdone
    split at hdone <;> cases hdone
  | drop purged =>
    cases hp : u.phase <;>
      simp only [Process.act, hp, reduceCtorEq, Option.ite_none_left_eq_some, Option.some.injEq] at ho
    obtain ⟨-, rfl⟩ := ho
    cases hdone
  | purge | sendFails =>
    cases hp : u.phase <;> simp only [Process.act, hp, reduceCtorEq, Option.some.injEq] at ho
    subst ho
    cases hdone

lemma held_act (hm : Moves σ u o) {f : FileRow} (hf : o.phase.row = some f) :
    (∃ f₀, u.phase.row = some f₀ ∧ f.id = f₀.id) ∨
    σ.db.liveAt u.request.storageId u.request.path = some f ∨
    u.phase = .creating ∧ f.id = σ.next := by
  cases hm with
  | @turn phase ht =>
    cases ht.row hf with
    | inl hheld => exact Or.inl ⟨f, hheld, rfl⟩
    | inr hlive => exact Or.inr (Or.inl hlive)
  | purge | drop => cases hf
  | replace hp hok hfile =>
    cases hf
    exact Or.inl ⟨_, by rw [hp]; rfl, (Db.fileById_some hfile).2⟩
  | create hp hok =>
    cases hf
    exact Or.inr (Or.inr ⟨hp, rfl⟩)
  | plan hp | send hp | refuse hp | link hp | linkFails hp =>
    cases hf
    exact Or.inl ⟨_, by rw [hp]; rfl, rfl⟩
  | @mark _ again _ hp =>
    cases again with
    | true => cases hf
    | false =>
      cases hf
      exact Or.inl ⟨_, by rw [hp]; rfl, rfl⟩

end Turn

/-! ## Where the rows of attempts stand -/

/-- The rows inserted for a file and the rows its attempts hold stand at its path. -/
structure Placed (storageId : Uuid) (path : Path) (hash : ContentHash) (since : Uuid)
    (σ : Process) : Prop where
  intact : σ.Intact
  numbered : σ.Numbered
  since_le : since ≤ σ.next
  placed : ∀ row ∈ σ.db.files, since ≤ row.id → row.Live →
    row.storageId = storageId ∧ row.path = path
  requests : ∀ u ∈ σ.uploads, IsRetry storageId path hash u.request
  rows : ∀ u ∈ σ.uploads, ∀ f, u.phase.row = some f → ∀ row ∈ σ.db.files, row.id = f.id →
    row.storageId = storageId ∧ row.path = path
  hashes : ∀ u ∈ σ.uploads, ∀ f, u.phase.own = some f → ∀ row ∈ σ.db.files, row.id = f.id →
    row.contentHash = some hash

def Db.Stored (db : Db) (storageId : Uuid) (path : Path) (hash : ContentHash) : Prop :=
  ∃ row ∈ db.files, row.Live ∧ row.storageId = storageId ∧ row.path = path ∧
    row.contentHash = some hash ∧ row.isUploaded = true

section Steps

variable {storageId : Uuid} {path : Path} {hash : ContentHash} {since : Uuid} {σ : Process}
  {u : Upload} {a : Act} {o : Outcome}

lemma Phase.row_of_own {p : Phase} {f : FileRow} (h : p.own = some f) : p.row = some f := by
  cases p <;> cases h
  all_goals rfl

lemma Placed.held (h : Placed storageId path hash since σ) (hu : u ∈ σ.uploads) (hm : Moves σ u o)
    {v : Upload} (hv : v ∈ σ.uploads) {f : FileRow} (hf : v.phase.row = some f) {row : FileRow}
    (hrow : row ∈ o.db.files) (hid : row.id = f.id) :
    (row.storageId = storageId ∧ row.path = path) ∧
      (v.phase.own = some f → row.contentHash = some hash) := by
  have hne : row.id ≠ σ.next := hid ▸ (h.intact.rowBelow v hv f hf).ne
  obtain ⟨q, hq, hqid, hqs, hqp, -, hqhash⟩ := old_row h.intact hm hrow hne
  obtain ⟨hs, hp⟩ := h.rows v hv f hf q hq (hqid.trans hid)
  refine ⟨⟨hqs ▸ hs, hqp ▸ hp⟩, fun hown => ?_⟩
  cases hqhash with
  | inl hsame => exact hsame.trans (h.hashes v hv f hown q hq (hqid.trans hid))
  | inr hnew => exact hnew.trans (h.requests u hu).contentHash

lemma created_row (ho : σ.act u a = some o) (ha : SingleAct σ u a) (hp : u.phase = .creating)
    {row : FileRow} (hrow : row ∈ o.db.files) :
    row ∈ σ.db.files ∨ row.id = σ.next ∧ row.storageId = u.request.storageId ∧
      row.path = u.request.path ∧ row.contentHash = u.request.contentHash := by
  cases a <;> simp only [Process.act, hp, reduceCtorEq, Option.some.injEq] at ho
  simp only [SingleAct, hp] at ha
  subst ho
  simp only [Process.create, anywayPath_free ha] at hrow
  split at hrow
  · exact Or.inl hrow
  · case h_2 db' hok =>
    rcases (Db.mem_insertFile (Db.createFileRow_ok hok)).mp hrow with hrow | rfl
    · exact Or.inl hrow
    · exact Or.inr ⟨rfl, rfl, rfl, rfl⟩

lemma Placed.rows_act (h : Placed storageId path hash since σ) (hu : u ∈ σ.uploads)
    (ho : σ.act u a = some o) (ha : SingleAct σ u a) {f : FileRow} (hf : o.phase.row = some f)
    {row : FileRow} (hrow : row ∈ o.db.files) (hid : row.id = f.id) :
    row.storageId = storageId ∧ row.path = path := by
  have hm := Process.act_moves ho
  have hr := h.requests u hu
  rcases held_act hm hf with ⟨f₀, hf₀, hfid⟩ | hlive | ⟨hp, hfid⟩
  · exact (h.held hu hm hu hf₀ hrow (hid.trans hfid)).1
  · obtain ⟨hfm, hfs, hfp, -⟩ := Db.liveAt_some hlive
    have hne : row.id ≠ σ.next := hid ▸ (h.intact.db.fileBelow f hfm).ne
    obtain ⟨q, hq, hqid, hqs, hqp, -⟩ := old_row h.intact hm hrow hne
    obtain rfl := h.intact.db.wf.idUnique q hq f hfm (hqid.trans hid)
    exact ⟨hqs.symm.trans (hfs.trans hr.storageId), hqp.symm.trans (hfp.trans hr.path)⟩
  · rcases created_row ho ha hp hrow with hold | ⟨-, hs, hp, -⟩
    · exact absurd (hid.trans hfid) (h.intact.db.fileBelow row hold).ne
    · exact ⟨hs.trans hr.storageId, hp.trans hr.path⟩

lemma Placed.hashes_act (h : Placed storageId path hash since σ) (hu : u ∈ σ.uploads)
    (ho : σ.act u a = some o) (ha : SingleAct σ u a) {f : FileRow} (hf : o.phase.own = some f)
    {row : FileRow} (hrow : row ∈ o.db.files) (hid : row.id = f.id) :
    row.contentHash = some hash := by
  have hr := (h.requests u hu).contentHash
  have hm := Process.act_moves ho
  have hon : u.phase.own = some f → row.contentHash = some hash := fun hown =>
    (h.held hu hm hu (Phase.row_of_own hown) hrow hid).2 hown
  cases hm with
  | @turn phase ht =>
    have hfound : Found σ u.request f → row.contentHash = some hash := by
      intro hfound
      obtain ⟨hfm, -⟩ := Db.liveAt_some hfound.live
      rw [h.intact.db.wf.idUnique row hrow f hfm hid, hfound.hash, hr]
    generalize u.phase = p at ht hon
    cases ht with
    | wait hlook | resume hlook _ =>
      cases hf
      exact hfound hlook
    | stay | resumeLate | queue =>
      cases hf
      exact hon rfl
    | _ => cases hf
  | replace hp hok hfile =>
    cases hf
    obtain ⟨current, -, hcid, -, -, -, hfiles, -⟩ := Db.replaceContent_ok h.intact.db hok
    have hfid := (Db.fileById_some hfile).2
    have hbelow := h.intact.rowBelow u hu _ (by rw [hp]; rfl)
    rcases (hfiles row).mp hrow with rfl | ⟨-, hne⟩ | ⟨-, rfl⟩
    · exact hr
    · exact absurd (hid.trans hfid) hne
    · exact absurd (hid.trans hfid) hbelow.ne'
  | create hp hok =>
    cases hf
    rcases created_row ho ha hp hrow with hold | ⟨-, -, -, hhash⟩
    · exact absurd hid (h.intact.db.fileBelow row hold).ne
    · exact hhash.trans hr
  | plan hp | send hp | link hp =>
    cases hf
    exact hon (by rw [hp]; rfl)
  | @mark _ again _ hp =>
    cases again with
    | true => cases hf
    | false =>
      cases hf
      exact hon (by rw [hp]; rfl)
  | _ => cases hf

lemma Placed.placed_act (h : Placed storageId path hash since σ) (hu : u ∈ σ.uploads)
    (ho : σ.act u a = some o) (ha : SingleAct σ u a) {row : FileRow} (hrow : row ∈ o.db.files)
    (hsince : since ≤ row.id) (hlive : row.Live) : row.storageId = storageId ∧ row.path = path := by
  have hr := h.requests u hu
  by_cases hne : row.id = σ.next
  · -- only an insert leaves a live row with the next id
    have hno : row ∉ σ.db.files := fun hold => (h.intact.db.fileBelow row hold).ne hne
    cases Process.act_moves ho with
    | create hp hok =>
      rcases created_row ho ha hp hrow with hold | ⟨-, hs, hp, -⟩
      · exact absurd hold hno
      · exact ⟨hs.trans hr.storageId, hp.trans hr.path⟩
    | replace hp hok =>
      obtain ⟨current, hcur, -, -, -, -, hfiles, -⟩ := Db.replaceContent_ok h.intact.db hok
      rcases (hfiles row).mp hrow with rfl | ⟨hold, -⟩ | ⟨-, rfl⟩
      · exact absurd hne (h.intact.db.fileBelow current hcur).ne
      · exact absurd hold hno
      · exact absurd hlive (Option.some_ne_none _)
    | turn | refuse | linkFails => exact absurd hrow hno
    | purge purged | drop purged =>
      exact absurd ((purge_spec h.intact _ purged _).1 row hrow).1 hno
    | plan hp hok =>
      obtain ⟨-, hed, -⟩ := Process.resolvePrimaryChannel_spec h.intact.db hok
      exact absurd (hed.files ▸ hrow) hno
    | send hp hslice htarget hfresh hok =>
      obtain ⟨-, -, -, rfl⟩ := Db.createChunkWithReplica_ok hok
      exact absurd hrow hno
    | link hp hreplicas hok =>
      subst hreplicas
      exact absurd ((h.intact.db.insertBatch hok).2.files ▸ hrow) hno
    | @mark file again db' hp hok =>
      obtain ⟨db₁, hok₁, -, hfiles, -⟩ := Db.updateById_ok h.intact.db.wf file.id Db.inPlace_uploaded
      rw [Db.setAsUploaded, hok₁] at hok
      cases hok
      obtain ⟨q, hq, rfl⟩ := (hfiles row).mp hrow
      rw [apply_ite FileRow.id, ite_self] at hne
      exact absurd hne (h.intact.db.fileBelow q hq).ne
  · obtain ⟨q, hq, hqid, hqs, hqp, hql, -⟩ := old_row h.intact (Process.act_moves ho) hrow hne
    obtain ⟨hs, hp⟩ := h.placed q hq (hqid ▸ hsince) (hql hlive)
    exact ⟨hqs ▸ hs, hqp ▸ hp⟩

/-- A step of attempts leaves their rows at the path. -/
lemma Placed.step (h : Placed storageId path hash since σ) {a : Step}
    (honly : OnlyRetries storageId path hash a)
    (ha : ∀ number act, a = .act number act → ∀ u ∈ σ.upload? number, SingleAct σ u act) :
    Placed storageId path hash since (σ.step a) := by
  have hint := h.intact.step a
  have hnumbered := Process.numbered_step h.numbered a
  cases a with
  | arrive number r =>
    rcases σ.step_arrive number r with heq | ⟨-, phase, hphase, heq⟩
    · rw [heq]
      exact h
    · rw [heq] at hint hnumbered ⊢
      -- a request that has just arrived holds no row
      have hidle : ∀ v ∈ [Upload.mk number r phase false],
          v.request = r ∧ v.phase.row = none ∧ v.phase.own = none := by
        intro v hv
        rw [List.mem_singleton.mp hv]
        refine ⟨rfl, ?_⟩
        rcases hphase with rfl | rfl <;> exact ⟨rfl, rfl⟩
      refine ⟨hint, hnumbered, h.since_le, h.placed, fun u hu => ?_, fun u hu => ?_,
        fun u hu => ?_⟩ <;> cases List.mem_append.mp hu
      · case inl hu => exact h.requests u hu
      · case inr hu => exact (hidle u hu).1 ▸ honly
      · case inl hu => exact h.rows u hu
      · case inr hu =>
        rw [(hidle u hu).2.1]
        exact fun f hno => absurd hno.symm (Option.some_ne_none f)
      · case inl hu => exact h.hashes u hu
      · case inr hu =>
        rw [(hidle u hu).2.2]
        exact fun f hno => absurd hno.symm (Option.some_ne_none f)
  | act number a =>
    rcases σ.step_act number a with heq | ⟨u, o, hfind, hu, ho, hm, heq⟩
    · rw [heq]
      exact h
    · have hle := (Process.db_moves h.intact.db hm).2
      rw [heq] at hint hnumbered ⊢
      have hact := ha number a rfl u hfind
      have hun : u.number = number := by simpa using List.find?_some hfind
      refine ⟨hint, hnumbered, Nat.le_trans h.since_le hle, ?_, ?_, ?_, ?_⟩
      · exact fun row hrow hsince hlive => h.placed_act hu ho hact hrow hsince hlive
      · intro v hv
        rcases Process.mem_commit hv with ⟨hv, -⟩ | ⟨w, hw, -, rfl⟩
        · exact h.requests v hv
        · exact h.requests w hw
      · intro v hv f hf row hrow hid
        rcases Process.mem_commit hv with ⟨hv, -⟩ | ⟨w, hw, hwn, rfl⟩
        · exact (h.held hu hm hv hf hrow hid).1
        · exact h.rows_act hu ho hact hf hrow hid
      · intro v hv f hf row hrow hid
        rcases Process.mem_commit hv with ⟨hv, -⟩ | ⟨w, hw, hwn, rfl⟩
        · exact (h.held hu hm hv (Phase.row_of_own hf) hrow hid).2 hf
        · exact h.hashes_act hu ho hact hf hrow hid
  | disconnect number handed =>
    have hl := Process.left_disconnect σ number handed
    refine ⟨hint, hnumbered, ?_, ?_, ?_, ?_, ?_⟩
    · rw [Process.step, hl.next]
      exact h.since_le
    · rw [Process.step, hl.db]
      exact h.placed
    · intro v hv
      obtain ⟨u, hu, -, hr, -⟩ := hl.uploads v hv
      exact hr ▸ h.requests u hu
    · intro v hv f hf
      rw [Process.step, hl.db]
      obtain ⟨u, hu, -, -, hphase | hphase, -⟩ := hl.uploads v hv
      · exact h.rows u hu f (hphase ▸ hf)
      · rw [hphase] at hf
        cases hf
    · intro v hv f hf
      rw [Process.step, hl.db]
      obtain ⟨u, hu, -, -, hphase | hphase, -⟩ := hl.uploads v hv
      · exact h.hashes u hu f (hphase ▸ hf)
      · rw [hphase] at hf
        cases hf
  | edit e =>
    have ht := Process.tuned_edit h.intact.db e
    refine ⟨hint, hnumbered, Nat.le_trans h.since_le ht.next_le, ?_, ?_, ?_, ?_⟩
    · rw [Process.step, ht.files]
      exact h.placed
    all_goals rw [Process.step, ht.uploads]
    · exact h.requests
    · rw [ht.files]
      exact h.rows
    · rw [ht.files]
      exact h.hashes
  | restart order =>
    obtain ⟨-, hp⟩ := Db.purged_hardDeleteIds h.intact.db (Process.interrupted σ.db) order
    refine ⟨hint, hnumbered, h.since_le, ?_, ?_, ?_, ?_⟩
    · exact fun row hrow => h.placed row ((hp.files row).mp hrow).1
    all_goals exact fun u hu => absurd hu List.not_mem_nil

lemma Placed.stored_step (h : Placed storageId path hash since σ) {a : Step}
    (ha : ∀ number act, a = .act number act → ∀ u ∈ σ.upload? number, SingleAct σ u act)
    (hstored : σ.db.Stored storageId path hash) : (σ.step a).db.Stored storageId path hash := by
  obtain ⟨row, hrow, hkept⟩ := hstored
  refine ⟨row, ?_, hkept⟩
  cases a with
  | arrive number r =>
    rw [(σ.arrive_writes number r).1]
    exact hrow
  | act number a =>
    rcases σ.step_act number a with heq | ⟨u, o, hfind, hu, ho, -, heq⟩
    · rw [heq]
      exact hrow
    · rw [heq]
      refine stored_act h.intact ho (ha number a rfl u hfind) hrow hkept.2.2.2.2 ?_
      exact hkept.2.2.2.1.trans (h.requests u hu).contentHash.symm
  | disconnect number handed =>
    rw [Process.step, (Process.left_disconnect σ number handed).db]
    exact hrow
  | edit e =>
    rw [Process.step, (Process.tuned_edit h.intact.db e).files]
    exact hrow
  | restart order =>
    -- an uploaded row is not an interrupted one
    refine ((Db.purged_hardDeleteIds h.intact.db _ order).2.files row).mpr ⟨hrow, fun hmem => ?_⟩
    obtain ⟨q, hq, hinterrupted, hid⟩ := mem_idsWhere.mp hmem
    obtain rfl := h.intact.db.wf.idUnique q hq row hrow hid
    exact absurd (hkept.2.2.2.2.symm.trans (of_decide_eq_true hinterrupted).1) (by decide)

lemma Placed.stored_done (h : Placed storageId path hash since σ) (hu : u ∈ σ.uploads)
    (ho : σ.act u a = some o) (ha : SingleAct σ u a) (hdone : o.phase.isDone = true) :
    o.db.Stored storageId path hash := by
  have hr := h.requests u hu
  rcases act_done ho hdone with ⟨-, hdb, row, hlive, hup, hhash⟩ |
    ⟨existing, row, hp, hdb, hfind, hup⟩ | ⟨file, rfl, hgone, hp, hok⟩
  · obtain ⟨hm, hs, hpath, hl⟩ := Db.liveAt_some hlive
    exact ⟨row, hdb ▸ hm, hl, hs.trans hr.storageId, hpath.trans hr.path,
      hhash.trans hr.contentHash, hup⟩
  · obtain ⟨hm, hid⟩ := Db.fileById_some hfind
    obtain ⟨hs, hpath⟩ := h.rows u hu existing (by rw [hp]; rfl) row hm hid
    exact ⟨row, hdb ▸ hm, h.intact.rowLive u hu existing (by rw [hp]; rfl) row hm hid, hs, hpath,
      h.hashes u hu existing (by rw [hp]; rfl) row hm hid, hup⟩
  · have hsome : σ.db.fileById file.id ≠ none := by
      simpa only [SingleAct, hp, hgone, Bool.false_eq_true, false_or] using ha
    obtain ⟨row, hfind⟩ := Option.ne_none_iff_exists'.mp hsome
    obtain ⟨hm, hid⟩ := Db.fileById_some hfind
    obtain ⟨hs, hpath⟩ := h.rows u hu file (by rw [hp]; rfl) row hm hid
    obtain ⟨db₁, hok₁, -, hfiles, -⟩ :=
      Db.updateById_ok h.intact.db.wf file.id Db.inPlace_uploaded
    rw [Db.setAsUploaded, hok₁] at hok
    rw [← Except.ok.inj hok]
    refine ⟨{ row with isUploaded := true }, (hfiles _).mpr ⟨row, hm, (if_pos hid).symm⟩, ?_, hs,
      hpath, h.hashes u hu file (by rw [hp]; rfl) row hm hid, rfl⟩
    exact h.intact.rowLive u hu file (by rw [hp]; rfl) row hm hid

lemma look_stored (hwf : σ.db.Wf) (hstored : σ.db.Stored storageId path hash) {r : UploadRequest}
    (hr : IsRetry storageId path hash r) : σ.look r = .answered (.ok ()) := by
  obtain ⟨row, hrow, hl, rfl, rfl, hhash, hup⟩ := hstored
  have hlive := Db.liveAt_of_mem hwf hrow hl
  unfold Process.look
  simp only [hr.contentHash, hr.storageId, hr.path, hlive, hhash, hup, if_true]

end Steps

/-! ## Runs -/

/-- What every run keeps that meets the condition. -/
structure Tracked (storageId : Uuid) (path : Path) (hash : ContentHash) (since : Uuid)
    (t : Retries) : Prop where
  placed : Placed storageId path hash since t.process
  stored : t.finished = true → t.process.db.Stored storageId path hash
  ended : ∀ u ∈ t.process.uploads, u.phase.isDone = true → t.finished = true
  late : t.late ≠ [] → t.finished = true
  idle : ∀ u ∈ t.process.uploads, u.number ∈ t.late → u.gone = false →
    u.phase = .looking ∨ u.phase = .answered (.ok ())

section Runs

variable {storageId : Uuid} {path : Path} {hash : ContentHash} {since : Uuid} {t : Retries}

lemma Tracked.oneCopy (h : Tracked storageId path hash since t) :
    OneCopy storageId path hash since t := by
  constructor
  · intro row hrow row' hrow' hcopy hcopy'
    have hpath : ∀ q ∈ t.process.db.files, IsCopy storageId path hash since q → q.path = path := by
      intro q hq hc
      cases hc.here with
      | inl hp => exact hp
      | inr hsince => exact (h.placed.placed q hq hsince hc.live).2
    exact h.placed.intact.db.wf.aliveUnique row hrow row' hrow' hcopy.live hcopy'.live
      (hcopy.storageId.trans hcopy'.storageId.symm)
      ((hpath row hrow hcopy).trans (hpath row' hrow' hcopy').symm)
  · intro u hu hlate hgone
    cases h.idle u hu hlate hgone with
    | inr hdone => exact Or.inr hdone
    | inl hlook =>
      have hfinished := h.late (List.ne_nil_of_mem hlate)
      exact Or.inl ⟨hlook, look_stored h.placed.intact.db.wf (h.stored hfinished)
        (h.placed.requests u hu)⟩

lemma Tracked.done_step (h : Tracked storageId path hash since t) {a : Step}
    (ha : ∀ number act, a = .act number act → ∀ u ∈ t.process.upload? number,
      SingleAct t.process u act) {u : Upload} (hu : u ∈ (t.process.step a).uploads)
    (hdone : u.phase.isDone = true) :
    t.finished = true ∨ (t.process.step a).db.Stored storageId path hash := by
  cases a with
  | arrive number r =>
    rcases t.process.step_arrive number r with heq | ⟨-, phase, hphase, heq⟩
    · rw [heq] at hu
      exact Or.inl (h.ended u hu hdone)
    · rw [heq] at hu
      cases List.mem_append.mp hu with
      | inl hu => exact Or.inl (h.ended u hu hdone)
      | inr hu =>
        rw [List.mem_singleton.mp hu] at hdone
        rcases hphase with rfl | rfl <;> cases hdone
  | act number a =>
    rcases t.process.step_act number a with heq | ⟨w, o, hfind, hw, ho, -, heq⟩
    · rw [heq] at hu
      exact Or.inl (h.ended u hu hdone)
    · rw [heq] at hu ⊢
      rcases Process.mem_commit hu with ⟨hu, -⟩ | ⟨v, hv, -, rfl⟩
      · exact Or.inl (h.ended u hu hdone)
      · exact Or.inr (h.placed.stored_done hw ho (ha number a rfl w hfind) hdone)
  | disconnect number handed =>
    obtain ⟨v, hv, -, -, hphase | hphase, -⟩ :=
      (Process.left_disconnect t.process number handed).uploads u hu
    · exact Or.inl (h.ended v hv (hphase ▸ hdone))
    · rw [hphase] at hdone
      cases hdone
  | edit e =>
    rw [Process.step, (Process.edit_requests t.process e).1] at hu
    exact Or.inl (h.ended u hu hdone)
  | restart order => exact absurd hu List.not_mem_nil

/-- A late attempt looks, or has been answered. -/
lemma Tracked.idle_step (h : Tracked storageId path hash since t) {a : Step} (ha : Single t a)
    {u : Upload} (hu : u ∈ (t.process.step a).uploads) (hlate : u.number ∈ (t.step a).late)
    (hgone : u.gone = false) : u.phase = .looking ∨ u.phase = .answered (.ok ()) := by
  cases a with
  | arrive number r =>
    unfold Process.step Process.arrive at hu
    dsimp only at hu
    cases hknown : (t.process.upload? number).isSome with
    | true =>
      rw [if_pos hknown] at hu
      refine h.idle u hu ?_ hgone
      simpa [Retries.step, Option.isSome_iff_ne_none.mp hknown] using hlate
    | false =>
      have hnone : t.process.upload? number = none := by simpa using hknown
      rw [if_neg (by simp [hknown])] at hu
      have hcases : u.number ∈ t.late ∨ t.finished = true ∧ u.number = number := by
        unfold Retries.step at hlate
        dsimp only at hlate
        split at hlate
        · case isTrue hfin =>
          cases List.mem_cons.mp hlate with
          | inl heq => exact Or.inr ⟨hfin.1, heq⟩
          | inr hlate => exact Or.inl hlate
        · exact Or.inl hlate
      cases List.mem_append.mp hu with
      | inl hu =>
        refine h.idle u hu ?_ hgone
        cases hcases with
        | inl hlate => exact hlate
        | inr heq =>
          have hno := List.find?_eq_none.mp hnone u hu
          exact absurd heq.2 (by simpa using hno)
      | inr hu =>
        have hfin : t.finished = true := by
          cases hcases with
          | inl hlate => exact h.late (List.ne_nil_of_mem hlate)
          | inr heq => exact heq.1
        rw [List.mem_singleton.mp hu]
        exact Or.inl (if_pos (ha hfin))
  | act number a =>
    have hlate' : u.number ∈ t.late := hlate
    rcases t.process.step_act number a with heq | ⟨w, o, hfind, hw, ho, -, heq⟩
    · rw [heq] at hu
      exact h.idle u hu hlate' hgone
    · rw [heq] at hu
      rcases Process.mem_commit hu with ⟨hu, -⟩ | ⟨v, hv, hvn, rfl⟩
      · exact h.idle u hu hlate' hgone
      · have hnumber : w.number = number := by simpa using List.find?_some hfind
        obtain rfl := h.placed.numbered v hv w hw (hvn.trans hnumber.symm)
        cases h.idle v hv hlate' hgone with
        | inr hdone => exact absurd (Process.not_answered ho hdone) id
        | inl hlook =>
          have hphase : o.phase = t.process.look v.request := by
            cases a <;> simp only [Process.act, hlook, reduceCtorEq, Option.some.injEq] at ho
            rw [← ho]
            rfl
          have hstored := h.stored (h.late (List.ne_nil_of_mem hlate'))
          right
          show o.phase = _
          rw [hphase, look_stored h.placed.intact.db.wf hstored (h.placed.requests v hv)]
  | disconnect number handed =>
    have hlate' : u.number ∈ t.late := hlate
    rw [Process.step] at hu
    unfold Process.disconnect at hu
    split at hu
    · exact h.idle u hu hlate' hgone
    · split at hu
      · exact h.idle u hu hlate' hgone
      · obtain ⟨v, hv, rfl⟩ := List.mem_map.mp hu
        split at hgone
        · cases hgone
        · case isFalse hno =>
          rw [if_neg hno] at hlate' ⊢
          exact h.idle v hv hlate' hgone
  | edit e =>
    rw [Process.step, (Process.edit_requests t.process e).1] at hu
    exact h.idle u hu hlate hgone
  | restart order => exact absurd hu List.not_mem_nil

lemma Tracked.step (h : Tracked storageId path hash since t) {a : Step}
    (honly : OnlyRetries storageId path hash a) (ha : Single t a) :
    Tracked storageId path hash since (t.step a) := by
  have hact : ∀ number act, a = .act number act → ∀ u ∈ t.process.upload? number,
      SingleAct t.process u act := by
    intro number act heq
    subst heq
    exact ha
  refine ⟨h.placed.step honly hact, fun hfin => ?_, fun u hu hdone => ?_, fun hne => ?_,
    fun u hu => h.idle_step ha hu⟩
  · cases Bool.or_eq_true_iff.mp hfin with
    | inl hold => exact h.placed.stored_step hact (h.stored hold)
    | inr hany =>
      obtain ⟨u, hu, hdone⟩ := List.any_eq_true.mp hany
      cases h.done_step hact hu hdone with
      | inl hold => exact h.placed.stored_step hact (h.stored hold)
      | inr hnew => exact hnew
  · exact Bool.or_eq_true_iff.mpr (Or.inr (List.any_eq_true.mpr ⟨u, hu, hdone⟩))
  · refine Bool.or_eq_true_iff.mpr (Or.inl ?_)
    unfold Retries.step at hne
    split at hne
    · split at hne
      · case isTrue hfin => exact hfin.1
      · exact h.late hne
    · exact h.late hne

/-- In every run of attempts at one path and hash, from any server without requests, that inserts at a
    free path only, neither purges nor replaces a row that was set uploaded and sets no row uploaded
    that is gone, there is one live row for the file, and an attempt that arrives after one has finished
    is answered Ok in its first turn. -/
theorem retries_keep_one {σ₀ : Process} (h : σ₀.Intact) (huploads : σ₀.uploads = [])
    (storageId : Uuid) (path : Path) (hash : ContentHash) {steps : List Step}
    (honly : ∀ a ∈ steps, OnlyRetries storageId path hash a)
    (hok : AllOk Retries.step Single ⟨σ₀, false, []⟩ steps) :
    Always Retries.step (OneCopy storageId path hash σ₀.next) ⟨σ₀, false, []⟩ steps := by
  have hnone : ∀ u, u ∉ σ₀.uploads := huploads ▸ fun u => List.not_mem_nil
  have hstart : Tracked storageId path hash σ₀.next ⟨σ₀, false, []⟩ := by
    refine ⟨⟨h, ?_, Nat.le_refl _, ?_, ?_, ?_, ?_⟩, Bool.noConfusion, ?_, absurd rfl, ?_⟩
    case refine_2 =>
      exact fun row hrow hsince => absurd (h.db.fileBelow row hrow) (Nat.not_lt.mpr hsince)
    all_goals exact fun u hu => absurd hu (hnone u)
  have hboth : AllOk Retries.step (fun t a => OnlyRetries storageId path hash a ∧ Single t a)
      ⟨σ₀, false, []⟩ steps := allOk_and (allOk_of_forall honly) hok
  have hkeep : ∀ (t : Retries) (a : Step), Tracked storageId path hash σ₀.next t →
      OnlyRetries storageId path hash a ∧ Single t a →
        Tracked storageId path hash σ₀.next (t.step a) := fun t a ht ha => ht.step ha.1 ha.2
  have hall := always_of_allOk hkeep hstart hboth
  rw [always_iff_prefixes] at hall ⊢
  exact fun pre hpre => (hall pre hpre).oneCopy

end Runs

/-- Two attempts look before either has inserted its row. -/
def bothLook : List Step :=
  [.arrive 0 newVersion, .arrive 1 newVersion, .act 0 .look, .act 1 .look, .act 0 .settle,
    .act 1 .settle, .act 0 .create, .act 1 .create]

/-- They leave twins. -/
theorem bothLook_twins :
    (∀ a ∈ bothLook, OnlyRetries 0 "a.txt".toList "sha256:new" a) ∧
    ¬ Always Retries.step (OneCopy 0 "a.txt".toList "sha256:new" 4) ⟨twoChannels, false, []⟩
      bothLook := by
  have hr : IsRetry 0 "a.txt".toList "sha256:new" newVersion := ⟨rfl, rfl, rfl⟩
  constructor
  · simp only [bothLook, List.forall_mem_cons, OnlyRetries, hr, true_and, List.not_mem_nil]
    exact fun _ hno => absurd hno id
  · intro hall
    have hrows : (run Retries.step ⟨twoChannels, false, []⟩ bothLook).process.db.files =
        [newVersion.inFile.toRow 4 false,
          InFile.toRow { newVersion.inFile with path := "a (1).txt".toList } 5 false] := by
      decide +kernel
    have hsame := hall.last.single (newVersion.inFile.toRow 4 false) (by rw [hrows]; simp)
      (InFile.toRow { newVersion.inFile with path := "a (1).txt".toList } 5 false)
      (by rw [hrows]; simp) ⟨rfl, rfl, rfl, Or.inl rfl⟩ ⟨rfl, rfl, rfl, Or.inr (by decide)⟩
    exact absurd (congrArg FileRow.id hsame) (by decide)

/-- An attempt fails behind its first chunk, the next one resumes its row and finishes, and a third one
    arrives. -/
def threeAttempts : List Step :=
  halfUpload ++ [.arrive 1 newVersion, .act 1 .look, .act 1 .begin, .act 1 .plan,
    .act 1 (.send 1 "again-1" 12), .act 1 .link, .act 1 .mark, .act 1 .mark, .arrive 2 newVersion,
    .act 2 .look]

/-- They leave one row, and the third one has nothing to do. -/
theorem threeAttempts_one :
    Always Retries.step (OneCopy 0 "a.txt".toList "sha256:new" 4) ⟨twoChannels, false, []⟩
      threeAttempts ∧
    ((run Retries.step ⟨twoChannels, false, []⟩ threeAttempts).process.upload? 2).any
      (·.phase.isDone) := by
  have hr : IsRetry 0 "a.txt".toList "sha256:new" newVersion := ⟨rfl, rfl, rfl⟩
  refine ⟨retries_keep_one twoChannels_intact rfl 0 "a.txt".toList "sha256:new" ?_
    (by decide +kernel), by decide +kernel⟩
  simp only [threeAttempts, halfUpload, List.cons_append, List.nil_append, List.forall_mem_cons,
    OnlyRetries, hr, true_and, List.not_mem_nil]
  exact fun _ hno => absurd hno id

end Sarca.Server
