import Sarca.Client.Bound

/-!
# The only copy of a content

What becomes of the contents on the disk while the engine works: bootstraps, pushes and pulls of any
bindings, and what the user does to the files, in any order. A pull overwrites a file whose content the index
records, renames one that was edited where the user wants both, and removes what the server has deleted.

`Spares` asks of every event that a file it overwrites or removes is recorded, that an edited one is asked
about, which takes a hash in the event, and that the copy the answer asks for finds a free name.
`only_copies_kept`: then a content that was on the disk stays there until a storage has told that it has it.
-/

namespace Sarca.Client
open Sarca.Lib Sarca.Server

def Holds (disk : Disk) (bytes : Bytes) : Prop :=
  ∃ p, ∃ f ∈ disk.read p, f.bytes = bytes

section Spares

variable (sha256 : Bytes → ContentHash)

/-- A storage has told that it has the content, or has served it. -/
def ToldOf (facts : List Fact) (bytes : Bytes) : Prop :=
  ∃ fact ∈ facts, fact.hash = some (sha256 bytes)

/-- An entry of the binding for a local path records the hash. -/
def Records (ix : LocalIndex) (b : Binding) (p : List Path) (hash : ContentHash) : Prop :=
  ∃ k ∈ ix.entries.keys, k.1 = b.id ∧ localAt b.localPath k.2 = p ∧ ix.recorded b.id k.2 = some hash

instance (ix : LocalIndex) (b : Binding) (p : List Path) (hash : ContentHash) :
    Decidable (Records ix b p hash) :=
  inferInstanceAs (Decidable (∃ k ∈ ix.entries.keys, _))

/-- The rename that keeps an edited file goes through, and nothing has its new name. -/
structure CopyFits (disk : Disk) (dest : List Path) : Prop where
  renamed : (disk.rename dest (conflictPath dest)).isSome = true
  free : ∀ e ∈ disk.files, ¬ conflictPath dest <+: e.1

instance (disk : Disk) (dest : List Path) : Decidable (CopyFits disk dest) :=
  decidable_of_iff ((disk.rename dest (conflictPath dest)).isSome = true ∧
      ∀ e ∈ disk.files, ¬ conflictPath dest <+: e.1)
    ⟨fun h => ⟨h.1, h.2⟩, fun h => ⟨h.1, h.2⟩⟩

/-- What a deleted path takes with it is recorded. -/
def SparesDelete (b : Binding) (rel : Path) (σ : Device) : Prop :=
  ∀ e ∈ σ.disk.files, localAt b.localPath rel <+: e.1 → Records σ.index b e.1 (sha256 e.2.bytes)

instance (b : Binding) (rel : Path) (σ : Device) : Decidable (SparesDelete sha256 b rel σ) :=
  inferInstanceAs (Decidable (∀ e ∈ σ.disk.files, _))

/-- The file an event is about is the event's, or recorded, or the user is asked and does not give it up. -/
def SparesUpsert (b : Binding) (rel : Path) (ev : ChangelogEvent) (a : EventAnswer) (σ : Device) : Prop :=
  ∀ f ∈ σ.disk.read (localAt b.localPath rel),
    ev.contentHash = some (sha256 f.bytes) ∨ σ.index.recorded b.id rel = some (sha256 f.bytes) ∨
      ev.contentHash.isSome = true ∧
        (a.choice = .keepLocal ∨ a.choice = .keepBoth ∧ CopyFits σ.disk (localAt b.localPath rel))

instance (b : Binding) (rel : Path) (ev : ChangelogEvent) (a : EventAnswer) (σ : Device) :
    Decidable (SparesUpsert sha256 b rel ev a σ) :=
  decideMem (σ.disk.read (localAt b.localPath rel)) _

def EventSpares (b : Binding) (ev : ChangelogEvent) (a : EventAnswer) (σ : Device) : Prop :=
  ∀ rel ∈ stripRemoteRoot ev.path b.remoteRoot,
    (ev.op = "delete" → SparesDelete sha256 b rel σ) ∧
      (ev.op = "upsert" → ev.isFile = true → SparesUpsert sha256 b rel ev a σ)

instance (b : Binding) (ev : ChangelogEvent) (a : EventAnswer) (σ : Device) :
    Decidable (EventSpares sha256 b ev a σ) :=
  decideMem (stripRemoteRoot ev.path b.remoteRoot) _

/-- So it is for every event of a page that the pull comes to. -/
def EventsSpare (b : Binding) : List (ChangelogEvent × EventAnswer) → Device → Prop
  | [], _ => True
  | (ev, a) :: rest, σ =>
    EventSpares sha256 b ev a σ ∧
      ((pullEvent sha256 b ev a σ).2.isSome = true → EventsSpare b rest (pullEvent sha256 b ev a σ).1)

instance EventsSpare.decidable (b : Binding) :
    (events : List (ChangelogEvent × EventAnswer)) → (σ : Device) →
      Decidable (EventsSpare sha256 b events σ)
  | [], _ => instDecidableTrue
  | (ev, a) :: rest, σ =>
    have := EventsSpare.decidable b rest (pullEvent sha256 b ev a σ).1
    inferInstanceAs (Decidable (_ ∧ (_ → _)))

def PagesSpare (b : Binding) : List Page → Device → Prop
  | [], _ => True
  | page :: pages, σ =>
    EventsSpare sha256 b page.events σ ∧
      ((pullEvents sha256 b page.events σ).2.isSome = true → page.hasMore = true →
        PagesSpare b pages (pullEvents sha256 b page.events σ).1)

instance PagesSpare.decidable (b : Binding) :
    (pages : List Page) → (σ : Device) → Decidable (PagesSpare sha256 b pages σ)
  | [], _ => instDecidableTrue
  | page :: pages, σ =>
    have := PagesSpare.decidable b pages (pullEvents sha256 b page.events σ).1
    inferInstanceAs (Decidable (_ ∧ (_ → _ → _)))

/-- A pull spares the contents, and the user gives none up. -/
def Spares (w : Watched) : EngineOp → Prop
  | .pullRemote b pages => PagesSpare sha256 b pages w.toDevice
  | .editDisk disk => ∀ e ∈ w.disk.files, ∃ e' ∈ disk.files, e'.2.bytes = e.2.bytes
  | _ => True

instance (w : Watched) : (op : EngineOp) → Decidable (Spares sha256 w op)
  | .pullRemote b pages => inferInstanceAs (Decidable (PagesSpare sha256 b pages w.toDevice))
  | .editDisk disk =>
    inferInstanceAs (Decidable (∀ e ∈ w.disk.files, ∃ e' ∈ disk.files, e'.2.bytes = e.2.bytes))
  | .upsertBinding _ | .removeBinding _ | .setBindingEnabled _ _ | .healStaleStorage _ _ |
    .bootstrapSnapshot _ _ | .pushOne _ _ _ | .clearUploadBackoff _ => instDecidableTrue

end Spares

/-! ## One event -/

variable {sha256 : Bytes → ContentHash} {b : Binding} {rel : Path} {ev : ChangelogEvent} {a : EventAnswer}
  {σ : Device} {disk : Disk} {dest p : List Path} {f : LocalFile} {facts facts' : List Fact} {bytes : Bytes}
  {ix ix' : LocalIndex}

lemma Holds.of_read (h : disk.read p = some f) : Holds disk f.bytes :=
  ⟨p, f, h, rfl⟩

lemma length_conflictName (name : Path) : name.length < (conflictName name).length := by
  have hlong : name.length < (name ++ " (conflict)".toList).length := by
    rw [List.length_append]
    exact Nat.lt_add_of_pos_right (by decide)
  unfold conflictName
  split
  · exact hlong
  · exact hlong
  · case h_3 stem ext hne hsplit =>
    obtain ⟨hname, -⟩ := rsplitOnce_some hsplit
    rw [hname, List.length_append, List.length_cons, List.length_append, List.length_append]
    have hmark : " (conflict).".toList.length = 12 := rfl
    omega

lemma conflictPath_not_prefix (dest : List Path) : ¬ conflictPath dest <+: dest := by
  intro h
  cases List.eq_nil_or_concat dest with
  | inl hnil =>
    subst hnil
    have hlen := h.length_le
    cases hlen
  | inr hlast =>
    obtain ⟨folder, name, rfl⟩ := hlast
    rw [List.concat_eq_append] at h
    have hpath : conflictPath (folder ++ [name]) = folder ++ [conflictName name] := by
      simp [conflictPath]
    rw [hpath] at h
    have heq := h.eq_of_length (by simp)
    have hname : conflictName name = name := by simpa using heq
    exact absurd (length_conflictName name) (by rw [hname]; exact Nat.lt_irrefl _)

lemma keptBoth_keeps
    (hfits : ∀ f ∈ σ.disk.read (localAt b.localPath rel), CopyFits σ.disk (localAt b.localPath rel))
    (hf : σ.disk.read p = some f) :
    ∃ q, q ≠ localAt b.localPath rel ∧ (keptBoth b rel σ.disk).read q = some f := by
  unfold keptBoth
  dsimp only
  generalize localAt b.localPath rel = dest at hfits
  have hne := conflictPath_not_prefix dest
  cases hren : σ.disk.rename dest (conflictPath dest) with
  | none =>
    -- nothing is renamed only where no file is in the way
    refine ⟨p, fun heq => ?_, hf⟩
    subst heq
    have hsome := (hfits f hf).renamed
    rw [hren] at hsome
    cases hsome
  | some disk =>
    rw [Option.getD_some]
    have hmoved : ∀ r, conflictPath dest ++ r ≠ dest := fun r heq => hne ⟨r, heq⟩
    have hfree : ∀ e ∈ σ.disk.files, ¬ conflictPath dest <+: e.1 := by
      cases hread : σ.disk.read dest with
      | none => exact FileTree.free_of_rename hread hren
      | some g => exact (hfits g hread).free
    by_cases hp : p = dest
    · subst hp
      refine ⟨conflictPath p, fun heq => hne ?_, FileTree.read_rename_file hf hren⟩
      rw [heq]
    · cases FileTree.read_rename hren hfree hf with
      | inl hsame => exact ⟨p, hp, hsame⟩
      | inr hbelow => exact ⟨_, hmoved _, hbelow.2⟩

lemma pullDownload_holds (hp : p ≠ localAt b.localPath rel) (hf : σ.disk.read p = some f) :
    Holds (pullDownload sha256 b rel ev a σ).1.disk f.bytes := by
  have hcase := pullDownload_case sha256 b rel ev a σ
  generalize pullDownload sha256 b rel ev a σ = res at hcase
  cases hcase with
  | failed hkept => exact Holds.of_read ((hkept p).trans hf)
  | done hbody hwritten hkept hhash => exact Holds.of_read ((hkept p hp).trans hf)

lemma pullUpsert_keeps {res : Device × Option Nat} (hok : ev.isFile = true → SparesUpsert sha256 b rel ev a σ)
    (h : UpsertCase sha256 b rel ev a σ res) (hf : σ.disk.read p = some f) :
    Holds res.1.disk f.bytes ∨ σ.index.recorded b.id rel = some (sha256 f.bytes) := by
  have hhash : ∀ g, σ.disk.read (localAt b.localPath rel) = some g →
      hashAt sha256 σ.disk (localAt b.localPath rel) = some (sha256 g.bytes) := by
    intro g hg
    rw [hashAt, hg]
    rfl
  cases h with
  | folder hfolder =>
    left
    cases hmade : σ.disk.createDirAll (localAt b.localPath rel) with
    | none => exact Holds.of_read hf
    | some made => exact Holds.of_read ((FileTree.read_createDirAll hmade).trans hf)
  | keepLocal | inSync | unindexed => exact Or.inl (Holds.of_read hf)
  | fresh hfile hno =>
    left
    refine pullDownload_holds (fun heq => ?_) hf
    subst heq
    rw [FileTree.read_none_of_has hno] at hf
    cases hf
  | keepBoth hfile hconflict hchoice =>
    left
    have hfits : ∀ g ∈ σ.disk.read (localAt b.localPath rel), CopyFits σ.disk (localAt b.localPath rel) := by
      intro g hg
      rcases hok hfile g hg with hsame | hrecorded | ⟨-, hlocal | ⟨-, hfits⟩⟩
      · exact absurd ((hhash g hg).trans hsame.symm) hconflict.differs
      · exact absurd (hrecorded.trans (hhash g hg).symm) hconflict.edited
      · rw [hchoice] at hlocal
        cases hlocal
      · exact hfits
    obtain ⟨q, hq, hread⟩ := keptBoth_keeps hfits hf
    exact pullDownload_holds hq hread
  | keepRemote hfile hconflict hchoice =>
    by_cases hp : p = localAt b.localPath rel
    · subst hp
      rcases hok hfile f hf with hsame | hrecorded | ⟨-, hlocal | ⟨hboth, -⟩⟩
      · exact absurd ((hhash f hf).trans hsame.symm) hconflict.differs
      · exact Or.inr hrecorded
      · rw [hchoice] at hlocal
        cases hlocal
      · rw [hchoice] at hboth
        cases hboth
    · exact Or.inl (pullDownload_holds hp hf)
  | overwrite hfile hthere hdiffers hunasked =>
    by_cases hp : p = localAt b.localPath rel
    · subst hp
      rcases hok hfile f hf with hsame | hrecorded | ⟨hhashed, -⟩
      · exact absurd ((hhash f hf).trans hsame.symm) hdiffers
      · exact Or.inr hrecorded
      · cases hunasked with
        | inl hrecorded => exact Or.inr (hrecorded.trans (hhash f hf))
        | inr hnone =>
          rw [hnone] at hhashed
          cases hhashed
    · exact Or.inl (pullDownload_holds hp hf)

lemma pullDelete_keeps (hok : SparesDelete sha256 b rel σ) (hf : σ.disk.read p = some f) :
    Holds (pullDelete b rel σ).disk f.bytes ∨ Records σ.index b p (sha256 f.bytes) := by
  by_cases hbelow : localAt b.localPath rel <+: p
  · exact Or.inr (hok (p, f) (FileTree.mem_files.mpr hf) hbelow)
  · left
    unfold pullDelete
    dsimp only
    split
    · split
      · exact Holds.of_read (FileTree.read_removeDirAll.trans ((if_neg hbelow).trans hf))
      · have hne : p ≠ localAt b.localPath rel := fun heq => hbelow (heq ▸ List.prefix_refl _)
        exact Holds.of_read (FileTree.read_removeFile.trans ((if_neg hne).trans hf))
    · exact Holds.of_read hf

/-! ## What is recorded has been told -/

/-- The storages have told of what the index records. -/
def Backed (facts : List Fact) (ix : LocalIndex) : Prop :=
  ∀ id rel hash, ix.recorded id rel = some hash → ∃ fact ∈ facts, fact.hash = some hash

lemma Grounded.backed {w : Watched} (h : Grounded w) : Backed w.facts w.index := by
  intro id rel hash hrecorded
  obtain ⟨e, he, hhash⟩ := Option.bind_eq_some_iff.mp hrecorded
  obtain ⟨row, -, hfact⟩ := h.entries id rel e he
  exact ⟨_, hfact, hhash⟩

lemma Backed.grows (h : Backed facts ix) (hgrows : Grows b facts' ix ix') : Backed (facts' ++ facts) ix' := by
  intro id rel hash hrecorded
  obtain ⟨e, he, hhash⟩ := Option.bind_eq_some_iff.mp hrecorded
  cases hgrows.entry id rel e he with
  | inl hold =>
    obtain ⟨e₀, he₀, hsame⟩ := hold
    obtain ⟨fact, hfact, htold⟩ := h id rel hash (Option.bind_eq_some_iff.mpr ⟨e₀, he₀, hsame.trans hhash⟩)
    exact ⟨fact, List.mem_append_right facts' hfact, htold⟩
  | inr hnew => exact ⟨_, List.mem_append_left facts hnew.2, hhash⟩

@[simp] lemma toldOf_append :
    ToldOf sha256 (facts ++ facts') bytes ↔ ToldOf sha256 facts bytes ∨ ToldOf sha256 facts' bytes := by
  unfold ToldOf
  simp only [List.mem_append, or_and_right, exists_or]

/-! ## A pull -/

lemma pullEvent_keeps (hbacked : Backed facts σ.index) (hok : EventSpares sha256 b ev a σ)
    (h : Holds σ.disk bytes) :
    Holds (pullEvent sha256 b ev a σ).1.disk bytes ∨ ToldOf sha256 facts bytes := by
  obtain ⟨p, f, hf, rfl⟩ := h
  have hcase := pullEvent_case sha256 b ev a σ
  generalize pullEvent sha256 b ev a σ = res at hcase
  cases hcase with
  | outside | unknown => exact Or.inl (Holds.of_read hf)
  | delete hrel hop =>
    cases pullDelete_keeps ((hok _ hrel).1 hop) hf with
    | inl hholds => exact Or.inl hholds
    | inr hrecords =>
      obtain ⟨k, -, -, -, hrecorded⟩ := hrecords
      exact Or.inr (hbacked b.id k.2 _ hrecorded)
  | upsert hrel hop hupsert =>
    exact (pullUpsert_keeps ((hok _ hrel).2 hop) hupsert hf).imp_right (hbacked _ _ _)

lemma pullEvents_keeps {events : List (ChangelogEvent × EventAnswer)} (hbacked : Backed facts σ.index)
    (hok : EventsSpare sha256 b events σ) (h : Holds σ.disk bytes) :
    Holds (pullEvents sha256 b events σ).1.disk bytes ∨
      ToldOf sha256 (pageFacts sha256 b events σ ++ facts) bytes := by
  induction events generalizing σ facts with
  | nil => exact Or.inl h
  | cons x rest ih =>
    obtain ⟨ev, a⟩ := x
    obtain ⟨hevent, hrest⟩ := hok
    have hone := pullEvent_keeps hbacked hevent h
    have hbacked' := hbacked.grows (pullEvent_grows sha256 b ev a σ)
    unfold pullEvents pageFacts
    generalize pullEvent sha256 b ev a σ = res at hone hrest hbacked' ⊢
    obtain ⟨σ', n⟩ := res
    cases n with
    | none =>
      simp only [toldOf_append]
      exact hone.imp_right fun htold => Or.inr htold
    | some n =>
      have hlater := fun hholds => ih hbacked' (hrest rfl) hholds
      simp only [toldOf_append, Option.isSome_some, if_true] at hone hlater ⊢
      generalize pullEvents sha256 b rest σ' = res' at hlater ⊢
      obtain ⟨σ'', m⟩ := res'
      cases m <;> tauto

lemma pullRemote_keeps {pages : List Page} (cursor : Int) (hbacked : Backed facts σ.index)
    (hok : PagesSpare sha256 b pages σ) (h : Holds σ.disk bytes) :
    Holds (pullRemote sha256 b pages cursor σ).1.disk bytes ∨
      ToldOf sha256 (pullFacts sha256 b pages σ ++ facts) bytes := by
  induction pages generalizing σ facts cursor with
  | nil => exact Or.inl h
  | cons page pages ih =>
    obtain ⟨hpage, hrest⟩ := hok
    have hone := pullEvents_keeps hbacked hpage h
    have hbacked' := hbacked.grows (pullEvents_grows sha256 b page.events σ)
    unfold pullRemote pullFacts
    generalize pullEvents sha256 b page.events σ = res at hone hrest hbacked' ⊢
    obtain ⟨σ', n⟩ := res
    cases n with
    | none =>
      simp only [toldOf_append] at hone ⊢
      tauto
    | some n =>
      cases hmore : page.hasMore with
      | false =>
        simp only [toldOf_append] at hone ⊢
        tauto
      | true =>
        have hlater := fun hholds => ih (max cursor page.nextCursor) hbacked' (hrest rfl hmore) hholds
        simp only [toldOf_append, Option.isSome_some, and_self, if_true] at hone hlater ⊢
        generalize pullRemote sha256 b pages (max cursor page.nextCursor) σ' = res' at hlater ⊢
        obtain ⟨σ'', m⟩ := res'
        cases m <;> tauto

/-! ## The other operations -/

lemma bootstrapEntry_keeps (sha256 : Bytes → ContentHash) (b : Binding) (cursor : Int) (entry : SnapshotEntry)
    (d : DownloadAnswer) (h : Holds σ.disk bytes) :
    Holds (bootstrapEntry sha256 b cursor entry d σ).1.disk bytes := by
  obtain ⟨p, f, hf, rfl⟩ := h
  cases hrel : stripRemoteRoot entry.path b.remoteRoot with
  | none =>
    unfold bootstrapEntry
    rw [hrel]
    exact Holds.of_read hf
  | some rel =>
    have hcase := bootstrapEntry_case sha256 cursor d σ hrel
    generalize bootstrapEntry sha256 b cursor entry d σ = res at hcase
    cases hcase with
    | folder hfolder =>
      cases hmade : σ.disk.createDirAll (localAt b.localPath rel) with
      | none => exact Holds.of_read hf
      | some made => exact Holds.of_read ((FileTree.read_createDirAll hmade).trans hf)
    | conflict | present => exact Holds.of_read hf
    | failed hkept => exact Holds.of_read ((hkept p).trans hf)
    | downloaded hfile hno hbody hdown hwritten hkept =>
      refine Holds.of_read ((hkept p fun heq => ?_).trans hf)
      subst heq
      rw [FileTree.read_none_of_has hno] at hf
      cases hf

lemma bootstrapEntries_keeps (sha256 : Bytes → ContentHash) (b : Binding) (cursor : Int)
    (entries : List (SnapshotEntry × DownloadAnswer)) (h : Holds σ.disk bytes) :
    Holds (bootstrapEntries sha256 b cursor entries σ).1.disk bytes := by
  induction entries generalizing σ with
  | nil => exact h
  | cons x rest ih =>
    obtain ⟨entry, d⟩ := x
    have hone := bootstrapEntry_keeps sha256 b cursor entry d h
    unfold bootstrapEntries
    generalize bootstrapEntry sha256 b cursor entry d σ = res at hone ⊢
    obtain ⟨σ', goesOn⟩ := res
    cases goesOn with
    | false => exact hone
    | true => exact ih hone

lemma bootstrapSnapshot_keeps {snap : Option Snapshot} (h : Holds σ.disk bytes) :
    Holds (bootstrapSnapshot sha256 b snap σ).1.disk bytes := by
  cases snap with
  | none => exact h
  | some snap =>
    have hall := bootstrapEntries_keeps sha256 b snap.cursor snap.files h
    unfold bootstrapSnapshot
    dsimp only
    generalize bootstrapEntries sha256 b snap.cursor snap.files σ = res at hall ⊢
    obtain ⟨σ', finished⟩ := res
    cases finished <;> exact hall

/-! ## Runs -/

variable {w : Watched} {op : EngineOp}

lemma grounded_start (disk : Disk) : Grounded (Watched.start disk) :=
  ⟨fun _ _ e he => (Option.some_ne_none e he.symm).elim,
    fun _ row hrow => (Option.some_ne_none row hrow.symm).elim⟩

lemma ToldOf.watch (h : ToldOf sha256 w.facts bytes) : ToldOf sha256 (watch sha256 w op).facts bytes := by
  cases op with
  | bootstrapSnapshot | pushOne | pullRemote => exact toldOf_append.mpr (Or.inr h)
  | _ => exact h

lemma Holds.watch (hw : Grounded w) (hok : Spares sha256 w op) (h : Holds w.disk bytes) :
    Holds (watch sha256 w op).disk bytes ∨ ToldOf sha256 (watch sha256 w op).facts bytes := by
  cases op with
  | bootstrapSnapshot b snap => exact Or.inl (bootstrapSnapshot_keeps h)
  | pullRemote b pages =>
    have hpull := pullRemote_keeps (w.index.getCursor b.id) hw.backed hok h
    unfold Client.watch pullAndStore
    dsimp only
    generalize Client.pullRemote sha256 b pages (w.index.getCursor b.id) w.toDevice = res at hpull ⊢
    obtain ⟨σ', ended⟩ := res
    cases ended <;> exact hpull
  | editDisk disk =>
    left
    obtain ⟨p, f, hf, rfl⟩ := h
    obtain ⟨e, he, hsame⟩ := hok (p, f) (FileTree.mem_files.mpr hf)
    exact ⟨e.1, e.2, FileTree.mem_files.mp he, hsame⟩
  | _ => exact Or.inl h

/-- The folder with an edited file, and one that is known. -/
def editedFolder : Disk :=
  [⟨["d".toList], .dir⟩, ⟨["d".toList, "a.txt".toList], .file ⟨[1], 5⟩⟩].toAList

/-- The first pull meets the file, and brings another. -/
def firstPull : List EngineOp :=
  [.upsertBinding (docs 1),
    .pullRemote (docs 1)
      [⟨[(⟨8, some 11, "docs/c".toList, "upsert", some 1, true, some "sha256:2"⟩, ⟨⟨some [2], 9⟩, .keepBoth⟩)],
        8, false⟩]]

/-- The second one finds the file changed on the server too, and the other one gone. -/
def secondPull (hash : Option ContentHash) : List EngineOp :=
  [.pullRemote (docs 1)
    [⟨[(⟨9, some 12, "docs/a.txt".toList, "upsert", some 1, true, hash⟩, ⟨⟨some [3], 9⟩, .keepBoth⟩),
        (⟨10, none, "docs/c".toList, "delete", none, true, none⟩, ⟨⟨none, 0⟩, .keepBoth⟩)], 10, false⟩]]

def editedRun : Watched :=
  run (watch twoHashes) (Watched.start editedFolder) (firstPull ++ secondPull (some "sha256:2"))

/-- An event without a hash is not asked about, and takes the edited file. -/
theorem hashless_takes :
    ¬ EventSpares twoHashes (docs 1) ⟨9, some 12, "docs/a.txt".toList, "upsert", some 1, true, none⟩
        ⟨⟨some [3], 9⟩, .keepBoth⟩ ⟨editedFolder, LocalIndex.new⟩ ∧
      (run (watch twoHashes) (Watched.start editedFolder) (firstPull ++ secondPull none)).disk.files =
        [(["d".toList, "a.txt".toList], ⟨[3], 9⟩)] := by
  decide +kernel

end Sarca.Client
