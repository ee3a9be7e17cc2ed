import Sarca.Lib.Run
import Sarca.Client.Engine

/-!
# The index and the storage a binding names

An entry of the index says that the storage holds a content at a path. `Fact` is what a storage really said
or gave: a preflight that found the bytes stored, an upload it confirmed, a body it served, a row of its
snapshot. `SpeaksOfBound` asks that every entry of a binding rests on a fact about the storage and remote
root the binding now names, that its cursor came from that storage, and that a candidate the scan passes
over was given to it. A binding that is repointed keeps its entries and its cursor, and a bootstrap takes a
local file for a row without a hash; `index_speaks_of_bound` says that nothing else goes wrong.
-/

namespace Sarca.Client
open Sarca.Lib Sarca.Server

/-- A storage holds a content, or some content, at a path under a remote root. -/
structure Fact where
  storageId : Uuid
  root : Path
  rel : Path
  hash : Option ContentHash
deriving DecidableEq, Repr

def Binding.root (b : Binding) : Path :=
  trimSlashes (trim b.remoteRoot)

/-- A fact about the storage and remote root of a binding. -/
def Binding.fact (b : Binding) (rel : Path) (hash : Option ContentHash) : Fact :=
  ⟨b.storageId, b.root, rel, hash⟩

section Facts

variable (sha256 : Bytes → ContentHash)

def eventFacts (b : Binding) (ev : ChangelogEvent) (a : EventAnswer) (σ : Device) : List Fact :=
  match stripRemoteRoot ev.path b.remoteRoot, a.body with
  | some rel, some bytes =>
    if (pullEvent sha256 b ev a σ).2 = some 1 then [b.fact rel (some (sha256 bytes))] else []
  | _, _ => []

def pageFacts (b : Binding) : List (ChangelogEvent × EventAnswer) → Device → List Fact
  | [], _ => []
  | (ev, a) :: rest, σ =>
    eventFacts sha256 b ev a σ ++
      if (pullEvent sha256 b ev a σ).2.isSome then pageFacts b rest (pullEvent sha256 b ev a σ).1
      else []

def pullFacts (b : Binding) : List Page → Device → List Fact
  | [], _ => []
  | page :: pages, σ =>
    pageFacts sha256 b page.events σ ++
      if (pullEvents sha256 b page.events σ).2.isSome ∧ page.hasMore then
        pullFacts b pages (pullEvents sha256 b page.events σ).1
      else []

/-- A row of the snapshot, and the body a download brought. -/
def snapshotFacts (b : Binding) (entry : SnapshotEntry) (a : DownloadAnswer) (σ : Device) :
    List Fact :=
  match stripRemoteRoot entry.path b.remoteRoot with
  | none => []
  | some rel =>
    b.fact rel entry.contentHash ::
      match a.body with
      | some bytes =>
        if !σ.disk.has (localAt b.localPath rel) ∧ (downloadTo σ.disk (localAt b.localPath rel) a).2 then
          [b.fact rel (some (sha256 bytes))]
        else []
      | none => []

def bootstrapFacts (b : Binding) (cursor : Int) :
    List (SnapshotEntry × DownloadAnswer) → Device → List Fact
  | [], _ => []
  | (entry, a) :: rest, σ =>
    snapshotFacts sha256 b entry a σ ++
      if (bootstrapEntry sha256 b cursor entry a σ).2 then
        bootstrapFacts b cursor rest (bootstrapEntry sha256 b cursor entry a σ).1
      else []

/-- What the preflight found stored, and the upload that was confirmed. -/
def pushFacts (b : Binding) (c : LocalCandidate) (a : PushAnswer) (ix : LocalIndex) : List Fact :=
  (match a.remote with
    | some r => if r.isUploaded then [b.fact c.relativePath r.contentHash] else []
    | none => []) ++
  match a.content, (pushOne sha256 b c a ix).2 with
  | some bytes, .ok .stored => [b.fact c.relativePath (some (sha256 bytes))]
  | _, _ => []

end Facts

/-- The engine's operations, each with the binding it was started with, and changes of the disk. -/
inductive EngineOp where
  | upsertBinding (b : Binding)
  | removeBinding (id : BindingId)
  | setBindingEnabled (id : BindingId) (enabled : Bool)
  | healStaleStorage (b : Binding) (storages : Option (List StorageSummary))
  | bootstrapSnapshot (b : Binding) (snap : Option Snapshot)
  /-- `push_one`, with what the batch notes of it -/
  | pushOne (b : Binding) (c : LocalCandidate) (a : PushAnswer)
  | clearUploadBackoff (id : BindingId)
  /-- `pull_remote` and the `set_cursor` behind it -/
  | pullRemote (b : Binding) (pages : List Page)
  | editDisk (disk : Disk)

/-- The device, with the facts and the cursors that storages have told it. -/
structure Watched extends Device where
  facts : List Fact
  cursors : List (Uuid × Int)

def Watched.start (disk : Disk) : Watched :=
  ⟨⟨disk, LocalIndex.new⟩, [], []⟩

def toldCursors (b : Binding) : List Page → List (Uuid × Int)
  | [] => []
  | page :: pages =>
    (b.storageId, page.nextCursor) :: if page.hasMore then toldCursors b pages else []

section Run

variable (sha256 : Bytes → ContentHash)

def watch (w : Watched) : EngineOp → Watched
  | .upsertBinding b => { w with index := w.index.upsertBinding b }
  | .removeBinding id => { w with index := w.index.removeBinding id }
  | .setBindingEnabled id enabled =>
    { w with index := (w.index.setBindingEnabled id enabled).getD w.index }
  | .healStaleStorage b storages => { w with index := (healStaleStorage b storages w.index).1 }
  | .bootstrapSnapshot b snap =>
    { toDevice := (bootstrapSnapshot sha256 b snap w.toDevice).1
      facts := (snap.map fun s => bootstrapFacts sha256 b s.cursor s.files w.toDevice).getD [] ++ w.facts
      cursors := (snap.map fun s => (b.storageId, s.cursor)).toList ++ w.cursors }
  | .pushOne b c a =>
    { w with
      index := (pushNoted sha256 b c a w.index).1
      facts := pushFacts sha256 b c a w.index ++ w.facts }
  | .clearUploadBackoff id => { w with index := w.index.clearUploadBackoff id }
  | .pullRemote b pages =>
    let pulled := pullAndStore sha256 b pages (w.index.getCursor b.id) w.toDevice
    { toDevice := pulled.1
      facts := pullFacts sha256 b pages w.toDevice ++ w.facts
      cursors := (if pulled.2.isSome then toldCursors b pages else []) ++ w.cursors }
  | .editDisk disk => { w with disk := disk }

/-- The binding still names the storage and root it was read with. -/
def StillNames (ix : LocalIndex) (b : Binding) : Prop :=
  (ix.binding b.id).any fun row => row.storageId = b.storageId ∧ row.root = b.root

instance (ix : LocalIndex) (b : Binding) : Decidable (StillNames ix b) := instDecidableEqBool _ _

/-- The binding is new, names what it named, or has neither entries nor a cursor. -/
def MayName (ix : LocalIndex) (b : Binding) : Prop :=
  ix.binding b.id = none ∨ StillNames ix b ∨
    (ix.getCursor b.id = 0 ∧ ∀ k ∈ ix.entries.keys, k.1 ≠ b.id)

instance (ix : LocalIndex) (b : Binding) : Decidable (MayName ix b) := instDecidableOr

/-- A listed file without a hash has no local file in its place. -/
def EntryOk (b : Binding) (entry : SnapshotEntry) (σ : Device) : Prop :=
  entry.isFile && entry.contentHash.isNone →
    (stripRemoteRoot entry.path b.remoteRoot).all fun rel =>
      (σ.disk.read (localAt b.localPath rel)).isNone

instance (b : Binding) (entry : SnapshotEntry) (σ : Device) : Decidable (EntryOk b entry σ) :=
  inferInstanceAs (Decidable (_ → _))

/-- So it is for every entry the bootstrap comes to. -/
def EntriesOk (b : Binding) (cursor : Int) : List (SnapshotEntry × DownloadAnswer) → Device → Prop
  | [], _ => True
  | (entry, a) :: rest, σ =>
    EntryOk b entry σ ∧
      ((bootstrapEntry sha256 b cursor entry a σ).2 = true →
        EntriesOk b cursor rest (bootstrapEntry sha256 b cursor entry a σ).1)

instance EntriesOk.decidable (b : Binding) (cursor : Int) :
    (entries : List (SnapshotEntry × DownloadAnswer)) → (σ : Device) →
      Decidable (EntriesOk sha256 b cursor entries σ)
  | [], _ => instDecidableTrue
  | (entry, a) :: rest, σ =>
    have := EntriesOk.decidable b cursor rest (bootstrapEntry sha256 b cursor entry a σ).1
    inferInstanceAs (Decidable (_ ∧ (_ → _)))

/-- A repointed binding has nothing in the index yet, a pass works for a binding that still names what it
    was started with, and a bootstrap takes no local file for a row without a hash. -/
def StepOk (w : Watched) : EngineOp → Prop
  | .upsertBinding b => MayName w.index b
  | .healStaleStorage b storages =>
    match storages with
    | some [only] => only.id = b.storageId ∨ MayName w.index { b with storageId := only.id }
    | _ => True
  | .bootstrapSnapshot b snap =>
    StillNames w.index b ∧
      match snap with
      | some snap => EntriesOk sha256 b snap.cursor snap.files w.toDevice
      | none => True
  | .pushOne b _ _ | .pullRemote b _ => StillNames w.index b
  | .removeBinding _ | .setBindingEnabled _ _ | .clearUploadBackoff _ | .editDisk _ => True

instance StepOk.decidable (w : Watched) : (op : EngineOp) → Decidable (StepOk sha256 w op)
  | .upsertBinding b => inferInstanceAs (Decidable (MayName w.index b))
  | .healStaleStorage _ none | .healStaleStorage _ (some []) |
    .healStaleStorage _ (some (_ :: _ :: _)) => instDecidableTrue
  | .healStaleStorage _ (some [_]) => inferInstanceAs (Decidable (_ ∨ _))
  | .bootstrapSnapshot b none => inferInstanceAs (Decidable (StillNames w.index b ∧ True))
  | .bootstrapSnapshot b (some snap) =>
    inferInstanceAs (Decidable (StillNames w.index b ∧
      EntriesOk sha256 b snap.cursor snap.files w.toDevice))
  | .pushOne b _ _ | .pullRemote b _ => inferInstanceAs (Decidable (StillNames w.index b))
  | .removeBinding _ | .setBindingEnabled _ _ | .clearUploadBackoff _ | .editDisk _ =>
    instDecidableTrue

end Run

/-- The scan passes over a candidate until the time of its next attempt. -/
def HeldBack (ix : LocalIndex) (id : BindingId) (nowMs : Int) (c : LocalCandidate) : Prop :=
  (ix.getUploadFailure id c.relativePath).any fun f => f.nextAttemptMs > nowMs

/-- What the index says of a binding is true of the storage and root it names. -/
structure SpeaksOfBound (w : Watched) : Prop where
  entries : ∀ id, ∀ row ∈ w.index.binding id, ∀ rel, ∀ e ∈ w.index.getEntry id rel,
    row.fact rel e.contentHash ∈ w.facts
  cursor : ∀ id, ∀ row ∈ w.index.binding id, row.cursor = 0 ∨ (row.storageId, row.cursor) ∈ w.cursors
  skips : ∀ id, ∀ row ∈ w.index.binding id, ∀ nowMs candidates, ∀ c ∈ candidates,
    c ∈ filterPendingCandidates w.index id nowMs candidates ∨ HeldBack w.index id nowMs c ∨
      ∃ hash, row.fact c.relativePath hash ∈ w.facts

/-! ## What an operation leaves in the index -/

/-- The bindings stay, and a content recorded anew for the binding rests on one of the facts. -/
structure Grows (b : Binding) (facts : List Fact) (ix ix' : LocalIndex) : Prop where
  binding : ∀ id, ix'.binding id = ix.binding id
  entry : ∀ id rel, ∀ e ∈ ix'.getEntry id rel,
    (∃ e₀ ∈ ix.getEntry id rel, e₀.contentHash = e.contentHash) ∨
      id = b.id ∧ b.fact rel e.contentHash ∈ facts

variable {b : Binding} {facts facts' : List Fact} {ix ix' ix'' : LocalIndex} {rel : Path}

lemma Grows.refl : Grows b facts ix ix :=
  ⟨fun _ => rfl, fun _ _ e he => Or.inl ⟨e, he, rfl⟩⟩

lemma Grows.trans (h : Grows b facts ix ix') (h' : Grows b facts' ix' ix'') :
    Grows b (facts ++ facts') ix ix'' := by
  refine ⟨fun id => (h'.binding id).trans (h.binding id), fun id rel e he => ?_⟩
  cases h'.entry id rel e he with
  | inr hnew => exact Or.inr ⟨hnew.1, List.mem_append_right facts hnew.2⟩
  | inl hold =>
    obtain ⟨e', he', hhash'⟩ := hold
    cases h.entry id rel e' he' with
    | inr hnew =>
      rw [hhash'] at hnew
      exact Or.inr ⟨hnew.1, List.mem_append_left facts' hnew.2⟩
    | inl hold =>
      obtain ⟨e₀, he₀, hhash₀⟩ := hold
      exact Or.inl ⟨e₀, he₀, hhash₀.trans hhash'⟩

lemma Grows.mono (h : Grows b facts ix ix') (hsub : facts ⊆ facts') : Grows b facts' ix ix' := by
  refine ⟨h.binding, fun id rel e he => ?_⟩
  cases h.entry id rel e he with
  | inl hold => exact Or.inl hold
  | inr hnew => exact Or.inr ⟨hnew.1, hsub hnew.2⟩

lemma Grows.upsertEntry {e : IndexEntry} (h : b.fact rel e.contentHash ∈ facts) :
    Grows b facts ix (ix.upsertEntry b.id rel e) := by
  refine ⟨fun _ => rfl, fun id rel' e' he' => ?_⟩
  rw [LocalIndex.getEntry_upsertEntry] at he'
  split at he'
  · case isTrue hkey =>
    obtain ⟨rfl, rfl⟩ := hkey
    cases he'
    exact Or.inr ⟨rfl, h⟩
  · exact Or.inl ⟨e', he', rfl⟩

lemma Grows.touchEntry {e e₀ : IndexEntry} (he₀ : ix.getEntry b.id rel = some e₀)
    (h : e.contentHash = e₀.contentHash) : Grows b facts ix (ix.upsertEntry b.id rel e) := by
  refine ⟨fun _ => rfl, fun id rel' e' he' => ?_⟩
  rw [LocalIndex.getEntry_upsertEntry] at he'
  split at he'
  · case isTrue hkey =>
    obtain ⟨rfl, rfl⟩ := hkey
    cases he'
    exact Or.inl ⟨e₀, he₀, h.symm⟩
  · exact Or.inl ⟨e', he', rfl⟩

lemma Grows.clearConflict (rel' : Path) : Grows b facts ix (ix.clearConflict b.id rel') :=
  ⟨fun _ => rfl, fun _ _ e he => Or.inl ⟨e, he, rfl⟩⟩

section Operations

variable {sha256 : Bytes → ContentHash} {σ : Device}

lemma pullDownload_grows {ev : ChangelogEvent} {a : EventAnswer} {disk : Disk}
    (hrel : stripRemoteRoot ev.path b.remoteRoot = some rel)
    (heq : pullEvent sha256 b ev a σ = pullDownload sha256 b rel ev a ⟨disk, σ.index⟩) :
    Grows b (eventFacts sha256 b ev a σ) σ.index (pullEvent sha256 b ev a σ).1.index := by
  have hcase := pullDownload_case sha256 b rel ev a ⟨disk, σ.index⟩
  unfold eventFacts
  rw [heq, hrel]
  generalize pullDownload sha256 b rel ev a ⟨disk, σ.index⟩ = res at hcase
  cases hcase with
  | failed hkept => exact Grows.refl
  | @done disk bytes e hbody hwritten hkept hhash =>
    rw [hbody]
    have hentry : Grows b [b.fact rel (some (sha256 bytes))] σ.index
        (σ.index.upsertEntry b.id rel e) := by
      apply Grows.upsertEntry
      rw [hhash]
      exact List.mem_singleton_self _
    have hclear : Grows b [] (σ.index.upsertEntry b.id rel e)
        ((σ.index.upsertEntry b.id rel e).clearConflict b.id rel) := Grows.clearConflict rel
    exact (hentry.trans hclear).mono fun f hf => hf

lemma pullEvent_grows (sha256 : Bytes → ContentHash) (b : Binding) (ev : ChangelogEvent) (a : EventAnswer) (σ : Device) :
    Grows b (eventFacts sha256 b ev a σ) σ.index (pullEvent sha256 b ev a σ).1.index := by
  have hcase := pullEvent_case sha256 b ev a σ
  generalize hres : pullEvent sha256 b ev a σ = res at hcase
  cases hcase with
  | outside hrel => exact Grows.refl
  | unknown hdelete hupsert => exact Grows.refl
  | @delete rel hrel hop =>
    refine ⟨fun _ => rfl, fun id rel' e he => ?_⟩
    have he' : (σ.index.deleteEntry b.id rel).getEntry id rel' = some e := he
    rw [LocalIndex.getEntry_deleteEntry] at he'
    split at he'
    · cases he'
    · exact Or.inl ⟨e, he', rfl⟩
  | @upsert rel res hrel hop h =>
    cases h with
    | folder hfolder => exact Grows.refl
    | keepLocal hfile h hchoice => exact Grows.clearConflict rel
    | inSync hfile hsame he => exact Grows.touchEntry he rfl
    | unindexed hfile hsame he => exact Grows.refl
    | fresh hfile hno => exact hres ▸ pullDownload_grows hrel hres
    | keepBoth hfile h hchoice => exact hres ▸ pullDownload_grows hrel hres
    | keepRemote hfile h hchoice => exact hres ▸ pullDownload_grows hrel hres
    | overwrite hfile hthere hdiffers hunasked => exact hres ▸ pullDownload_grows hrel hres

lemma pullEvents_grows (sha256 : Bytes → ContentHash) (b : Binding) (events : List (ChangelogEvent × EventAnswer)) (σ : Device) :
    Grows b (pageFacts sha256 b events σ) σ.index (pullEvents sha256 b events σ).1.index := by
  induction events generalizing σ with
  | nil => exact Grows.refl
  | cons x rest ih =>
    obtain ⟨ev, a⟩ := x
    have hone := pullEvent_grows sha256 b ev a σ
    unfold pageFacts pullEvents
    generalize hres : pullEvent sha256 b ev a σ = res at hone ⊢
    obtain ⟨σ', n⟩ := res
    cases n with
    | none => exact hone.mono (List.subset_append_left _ _)
    | some n =>
      have hrest := hone.trans (ih σ')
      dsimp only at hrest ⊢
      generalize hres' : pullEvents sha256 b rest σ' = res' at hrest ⊢
      obtain ⟨σ'', m⟩ := res'
      cases m with
      | none => exact hrest
      | some m => exact hrest

lemma pullRemote_grows (sha256 : Bytes → ContentHash) (b : Binding) (pages : List Page) (cursor : Int) (σ : Device) :
    Grows b (pullFacts sha256 b pages σ) σ.index (pullRemote sha256 b pages cursor σ).1.index ∧
      ∀ r ∈ (pullRemote sha256 b pages cursor σ).2,
        r.2 = cursor ∨ (b.storageId, r.2) ∈ toldCursors b pages := by
  induction pages generalizing cursor σ with
  | nil => exact ⟨Grows.refl, fun r hr => (Option.some_ne_none r hr.symm).elim⟩
  | cons page pages ih =>
    have hpage := pullEvents_grows sha256 b page.events σ
    have hmax : max cursor page.nextCursor = cursor ∨
        (b.storageId, max cursor page.nextCursor) ∈ toldCursors b (page :: pages) := by
      cases Int.le_total page.nextCursor cursor with
      | inl hle => exact Or.inl (Int.max_eq_left hle)
      | inr hle =>
        rw [Int.max_eq_right hle]
        exact Or.inr List.mem_cons_self
    unfold pullFacts pullRemote
    generalize hres : pullEvents sha256 b page.events σ = res at hpage ⊢
    obtain ⟨σ', n⟩ := res
    cases n with
    | none =>
      exact ⟨hpage.mono (List.subset_append_left _ _), fun r hr => (Option.some_ne_none r hr.symm).elim⟩
    | some n =>
      dsimp only at hpage ⊢
      cases hmore : page.hasMore with
      | false =>
        refine ⟨hpage.mono (List.subset_append_left _ _), fun r hr => ?_⟩
        cases hr
        exact hmax
      | true =>
        obtain ⟨hgrows, hcursor⟩ := ih (max cursor page.nextCursor) σ'
        have hrest := hpage.trans hgrows
        simp only [Option.isSome_some, and_self, if_true]
        generalize hres' : pullRemote sha256 b pages (max cursor page.nextCursor) σ' = res'
          at hrest hcursor ⊢
        obtain ⟨σ'', m⟩ := res'
        cases m with
        | none => exact ⟨hrest, fun r hr => (Option.some_ne_none r hr.symm).elim⟩
        | some m =>
          refine ⟨hrest, fun r hr => ?_⟩
          cases hr
          cases hcursor m rfl with
          | inl hsame => exact hsame ▸ hmax
          | inr htold =>
            refine Or.inr (List.mem_cons_of_mem _ ?_)
            rw [if_pos hmore]
            exact htold

lemma bootstrapRecord_grows {entry : SnapshotEntry} {a : DownloadAnswer} {cursor : Int}
    (h : b.fact rel ((hashAt sha256 σ.disk (localAt b.localPath rel)).or entry.contentHash) ∈ facts) :
    Grows b facts σ.index (bootstrapRecord sha256 b cursor rel entry a σ).index :=
  Grows.upsertEntry h

lemma bootstrapEntry_grows (sha256 : Bytes → ContentHash) (b : Binding) (cursor : Int) (entry : SnapshotEntry) (a : DownloadAnswer)
    (σ : Device) (hok : EntryOk b entry σ) :
    Grows b (snapshotFacts sha256 b entry a σ) σ.index
      (bootstrapEntry sha256 b cursor entry a σ).1.index := by
  cases hrel : stripRemoteRoot entry.path b.remoteRoot with
  | none =>
    unfold bootstrapEntry
    rw [hrel]
    exact Grows.refl
  | some rel =>
    have hcase := bootstrapEntry_case sha256 cursor a σ hrel
    generalize hres : bootstrapEntry sha256 b cursor entry a σ = res at hcase
    unfold snapshotFacts
    rw [hrel]
    cases hcase with
    | folder hfolder => exact Grows.refl
    | conflict hfile hlocal hremote hne => exact ⟨fun _ => rfl, fun _ _ e he => Or.inl ⟨e, he, rfl⟩⟩
    | failed hkept => exact Grows.refl
    | present hfile hthere hagree =>
      apply bootstrapRecord_grows
      have hhash : (hashAt sha256 σ.disk (localAt b.localPath rel)).or entry.contentHash =
          entry.contentHash := by
        cases hagree with
        | inl hsame =>
          rw [hsame]
          cases entry.contentHash <;> rfl
        | inr hagree =>
          cases hagree with
          | inr hno =>
            rw [hno]
            rfl
          | inl hno =>
            have hread := hok (by rw [hfile, hno]; rfl)
            rw [hrel] at hread
            have hnone : σ.disk.read (localAt b.localPath rel) = none := by simpa using hread
            rw [hashAt, hnone]
            rfl
      rw [hhash]
      exact List.mem_cons_self
    | @downloaded disk bytes hfile hno hbody hdown hwritten hkept =>
      refine bootstrapRecord_grows (σ := ⟨disk, σ.index⟩) ?_
      have hhash : (hashAt sha256 disk (localAt b.localPath rel)).or entry.contentHash =
          some (sha256 bytes) := by
        rw [hashAt, hwritten]
        rfl
      rw [hhash, hbody]
      dsimp only
      rw [if_pos ⟨by rw [hno]; rfl, by rw [hdown]⟩]
      exact List.mem_cons_of_mem _ (List.mem_singleton_self _)

lemma bootstrapEntries_grows (sha256 : Bytes → ContentHash) (b : Binding) (cursor : Int)
    (entries : List (SnapshotEntry × DownloadAnswer)) (σ : Device)
    (hok : EntriesOk sha256 b cursor entries σ) :
    Grows b (bootstrapFacts sha256 b cursor entries σ) σ.index
      (bootstrapEntries sha256 b cursor entries σ).1.index := by
  induction entries generalizing σ with
  | nil => exact Grows.refl
  | cons x rest ih =>
    obtain ⟨entry, a⟩ := x
    obtain ⟨hentry, hrest⟩ := hok
    have hone := bootstrapEntry_grows sha256 b cursor entry a σ hentry
    unfold bootstrapFacts bootstrapEntries
    generalize hres : bootstrapEntry sha256 b cursor entry a σ = res at hone hrest ⊢
    obtain ⟨σ', goesOn⟩ := res
    cases goesOn with
    | false => exact hone.mono (List.subset_append_left _ _)
    | true => exact hone.trans (ih σ' (hrest rfl))

lemma pushOne_grows (sha256 : Bytes → ContentHash) (b : Binding) (c : LocalCandidate) (a : PushAnswer) (ix : LocalIndex) :
    Grows b (pushFacts sha256 b c a ix) ix (pushOne sha256 b c a ix).1 := by
  have hcase := pushOne_case sha256 b c a ix
  unfold pushFacts
  generalize hres : pushOne sha256 b c a ix = res at hcase ⊢
  cases hcase with
  | relaying hr hrelaying hsize => exact Grows.refl
  | unread hno => exact Grows.refl
  | refused hbytes hnew hup => exact Grows.refl
  | handedOff hbytes hnew hup => exact Grows.refl
  | touched hbytes he hsame => exact Grows.touchEntry he rfl
  | confirmed hbytes hnew hr huploaded hhash =>
    apply Grows.upsertEntry
    rw [hr]
    dsimp only
    rw [if_pos huploaded, hhash]
    exact List.mem_append_left _ (List.mem_singleton_self _)
  | stored hbytes hnew hup =>
    apply Grows.upsertEntry
    rw [hbytes]
    exact List.mem_append_right _ (List.mem_singleton_self _)

lemma pushNoted_grows (sha256 : Bytes → ContentHash) (b : Binding) (c : LocalCandidate) (a : PushAnswer) (ix : LocalIndex) :
    Grows b (pushFacts sha256 b c a ix) ix (pushNoted sha256 b c a ix).1 := by
  have hone := pushOne_grows sha256 b c a ix
  unfold pushNoted
  generalize pushOne sha256 b c a ix = res at hone ⊢
  obtain ⟨ix', outcome⟩ := res
  cases outcome with
  | ok outcome => exact ⟨hone.binding, hone.entry⟩
  | error scope => cases scope <;> exact ⟨hone.binding, hone.entry⟩

end Operations

/-! ## Runs -/

/-- Every entry belongs to a binding and rests on a fact about what it names, and so does its cursor. -/
structure Grounded (w : Watched) : Prop where
  entries : ∀ id rel, ∀ e ∈ w.index.getEntry id rel,
    ∃ row ∈ w.index.binding id, row.fact rel e.contentHash ∈ w.facts
  cursor : ∀ id, ∀ row ∈ w.index.binding id, row.cursor = 0 ∨ (row.storageId, row.cursor) ∈ w.cursors

lemma filterPendingCandidates_mem (ix : LocalIndex) (id : BindingId) (nowMs : Int)
    {candidates : List LocalCandidate} {c : LocalCandidate} (hc : c ∈ candidates) :
    c ∈ filterPendingCandidates ix id nowMs candidates ∨ HeldBack ix id nowMs c ∨
      ∃ e, ix.getEntry id c.relativePath = some e ∧ e.size = c.size ∧ e.mtimeMs = c.mtimeMs := by
  cases hback : (ix.getUploadFailure id c.relativePath).any fun f => f.nextAttemptMs > nowMs with
  | true => exact Or.inr (Or.inl hback)
  | false =>
    cases he : ix.getEntry id c.relativePath with
    | none =>
      left
      refine List.mem_filter.mpr ⟨hc, ?_⟩
      rw [he, hback]
      rfl
    | some e =>
      cases hchanged : decide (e.size ≠ c.size ∨ e.mtimeMs ≠ c.mtimeMs) with
      | true =>
        left
        refine List.mem_filter.mpr ⟨hc, ?_⟩
        rw [he, hback]
        show (decide (e.size ≠ c.size ∨ e.mtimeMs ≠ c.mtimeMs) && true) = true
        rw [hchanged]
        rfl
      | false =>
        obtain ⟨hsize, htime⟩ := not_or.mp (of_decide_eq_false hchanged)
        exact Or.inr (Or.inr ⟨e, rfl, Decidable.not_not.mp hsize, Decidable.not_not.mp htime⟩)

lemma Grounded.speaks {w : Watched} (h : Grounded w) : SpeaksOfBound w := by
  have hentries : ∀ id, ∀ row ∈ w.index.binding id, ∀ rel, ∀ e ∈ w.index.getEntry id rel,
      row.fact rel e.contentHash ∈ w.facts := by
    intro id row hrow rel e he
    obtain ⟨row', hrow', hfact⟩ := h.entries id rel e he
    cases hrow.symm.trans hrow'
    exact hfact
  refine ⟨hentries, h.cursor, fun id row hrow nowMs candidates c hc => ?_⟩
  cases filterPendingCandidates_mem w.index id nowMs hc with
  | inl hpending => exact Or.inl hpending
  | inr hskipped =>
    cases hskipped with
    | inl hback => exact Or.inr (Or.inl hback)
    | inr hentry =>
      obtain ⟨e, he, -⟩ := hentry
      exact Or.inr (Or.inr ⟨e.contentHash, hentries id row hrow c.relativePath e he⟩)

lemma StillNames.row (h : StillNames ix b) :
    ∃ row ∈ ix.binding b.id, row.storageId = b.storageId ∧ row.root = b.root := by
  obtain ⟨row, hrow, hnames⟩ := (Option.any_eq_true _ _).mp h
  exact ⟨row, hrow, of_decide_eq_true hnames⟩

lemma Grounded.grows {w : Watched} (h : Grounded w) (hnames : StillNames w.index b)
    (hgrows : Grows b facts w.index ix') (disk : Disk) (told : List (Uuid × Int)) :
    Grounded ⟨⟨disk, ix'⟩, facts ++ w.facts, told ++ w.cursors⟩ := by
  constructor
  · intro id rel e he
    show ∃ row ∈ ix'.binding id, _
    rw [hgrows.binding]
    cases hgrows.entry id rel e he with
    | inl hold =>
      obtain ⟨e₀, he₀, hhash⟩ := hold
      obtain ⟨row, hrow, hfact⟩ := h.entries id rel e₀ he₀
      exact ⟨row, hrow, hhash ▸ List.mem_append_right facts hfact⟩
    | inr hnew =>
      obtain ⟨rfl, hfact⟩ := hnew
      obtain ⟨row, hrow, hstorage, hroot⟩ := hnames.row
      refine ⟨row, hrow, List.mem_append_left w.facts ?_⟩
      rw [Binding.fact, hstorage, hroot]
      exact hfact
  · intro id row hrow
    have hrow' : row ∈ ix'.binding id := hrow
    rw [hgrows.binding] at hrow'
    cases h.cursor id row hrow' with
    | inl hzero => exact Or.inl hzero
    | inr hmem => exact Or.inr (List.mem_append_right told hmem)

lemma Grounded.setCursor {w : Watched} (h : Grounded w) (hnames : StillNames w.index b) {cursor : Int}
    (hcursor : cursor = w.index.getCursor b.id ∨ (b.storageId, cursor) ∈ w.cursors) :
    Grounded { w with index := w.index.setCursor b.id cursor } := by
  obtain ⟨row₀, hrow₀, hstorage, -⟩ := hnames.row
  constructor
  · intro id rel e he
    have he' : (w.index.setCursor b.id cursor).getEntry id rel = some e := he
    rw [LocalIndex.getEntry_setCursor] at he'
    obtain ⟨row, hrow, hfact⟩ := h.entries id rel e he'
    show ∃ row ∈ (w.index.setCursor b.id cursor).binding id, _
    rw [LocalIndex.binding_setCursor]
    split
    · exact ⟨{ row with cursor := cursor }, by rw [hrow]; rfl, hfact⟩
    · exact ⟨row, hrow, hfact⟩
  · intro id row hrow
    have hrow' : (w.index.setCursor b.id cursor).binding id = some row := hrow
    rw [LocalIndex.binding_setCursor] at hrow'
    split at hrow'
    · case isTrue heq =>
      subst heq
      rw [hrow₀] at hrow'
      cases hrow'
      cases hcursor with
      | inr htold => exact Or.inr (hstorage.symm ▸ htold)
      | inl hsame =>
        have hold : w.index.getCursor b.id = row₀.cursor := by
          rw [LocalIndex.getCursor, hrow₀]
          rfl
        cases h.cursor b.id row₀ hrow₀ with
        | inl hzero => exact Or.inl (hsame.trans (hold.trans hzero))
        | inr hmem =>
          right
          show (row₀.storageId, cursor) ∈ w.cursors
          rw [hsame, hold]
          exact hmem
    · exact h.cursor id row hrow'

lemma Grounded.upsertBinding {w : Watched} (h : Grounded w) (hname : MayName w.index b) :
    Grounded { w with index := w.index.upsertBinding b } := by
  constructor
  · intro id rel e he
    obtain ⟨row, hrow, hfact⟩ := h.entries id rel e he
    show ∃ row ∈ (w.index.upsertBinding b).binding id, _
    rw [LocalIndex.binding_upsertBinding]
    split
    · case isTrue heq =>
      subst heq
      refine ⟨_, rfl, ?_⟩
      rcases hname with hnone | hstill | ⟨-, hempty⟩
      · rw [hnone] at hrow
        cases hrow
      · obtain ⟨row', hrow', hstorage, hroot⟩ := hstill.row
        cases hrow.symm.trans hrow'
        rw [Binding.fact, hstorage, hroot] at hfact
        exact hfact
      · have hkey : (b.id, rel) ∈ w.index.entries.keys := by
          apply AList.mem_keys.mp
          apply AList.lookup_isSome.mp
          rw [show w.index.entries.lookup (b.id, rel) = some e from he]
          rfl
        exact absurd rfl (hempty _ hkey)
    · exact ⟨row, hrow, hfact⟩
  · intro id row hrow
    have hrow' : (w.index.upsertBinding b).binding id = some row := hrow
    rw [LocalIndex.binding_upsertBinding] at hrow'
    split at hrow'
    · case isTrue heq =>
      subst heq
      cases hrow'
      show w.index.getCursor b.id = 0 ∨ (b.storageId, w.index.getCursor b.id) ∈ w.cursors
      rcases hname with hnone | hstill | ⟨hzero, -⟩
      · left
        rw [LocalIndex.getCursor, hnone]
        rfl
      · obtain ⟨row', hrow', hstorage, -⟩ := hstill.row
        rw [LocalIndex.getCursor, hrow']
        exact hstorage ▸ h.cursor b.id row' hrow'
      · exact Or.inl hzero
    · exact h.cursor id row hrow'

lemma StillNames.congr (h : StillNames ix b) (hsame : ix'.binding b.id = ix.binding b.id) :
    StillNames ix' b := by
  unfold StillNames at h ⊢
  rw [hsame]
  exact h

lemma Grounded.removeBinding {w : Watched} (h : Grounded w) (id' : BindingId) :
    Grounded { w with index := w.index.removeBinding id' } := by
  constructor
  · intro id rel e he
    have he' : (w.index.removeBinding id').getEntry id rel = some e := he
    rw [LocalIndex.getEntry_removeBinding] at he'
    split at he'
    · cases he'
    · case isFalse hne =>
      obtain ⟨row, hrow, hfact⟩ := h.entries id rel e he'
      refine ⟨row, ?_, hfact⟩
      show (w.index.removeBinding id').binding id = some row
      rw [LocalIndex.binding_removeBinding, if_neg hne]
      exact hrow
  · intro id row hrow
    have hrow' : (w.index.removeBinding id').binding id = some row := hrow
    rw [LocalIndex.binding_removeBinding] at hrow'
    split at hrow'
    · cases hrow'
    · exact h.cursor id row hrow'

lemma Grounded.setBindingEnabled {w : Watched} (h : Grounded w) {id' : BindingId} {enabled : Bool}
    (hset : w.index.setBindingEnabled id' enabled = some ix') :
    Grounded { w with index := ix' } := by
  constructor
  · intro id rel e he
    obtain ⟨hentries, hbinding⟩ := LocalIndex.binding_setBindingEnabled id hset
    have he' : w.index.getEntry id rel = some e := by
      rw [LocalIndex.getEntry, ← hentries]
      exact he
    obtain ⟨row, hrow, hfact⟩ := h.entries id rel e he'
    show ∃ row ∈ ix'.binding id, _
    rw [hbinding]
    split
    · exact ⟨{ row with enabled := enabled }, by rw [hrow]; rfl, hfact⟩
    · exact ⟨row, hrow, hfact⟩
  · intro id row hrow
    obtain ⟨-, hbinding⟩ := LocalIndex.binding_setBindingEnabled id hset
    have hrow' : ix'.binding id = some row := hrow
    rw [hbinding] at hrow'
    split at hrow'
    · obtain ⟨row₀, hrow₀, heq⟩ := Option.map_eq_some_iff.mp hrow'
      subst heq
      exact h.cursor id row₀ hrow₀
    · exact h.cursor id row hrow'

section Operations

variable {sha256 : Bytes → ContentHash} {w : Watched}

lemma Grounded.healStaleStorage (h : Grounded w) {storages : Option (List StorageSummary)}
    (hok : StepOk sha256 w (.healStaleStorage b storages)) :
    Grounded (watch sha256 w (.healStaleStorage b storages)) := by
  unfold watch Client.healStaleStorage
  dsimp only
  split
  · exact h
  · case h_2 storages =>
    split
    · exact h
    · case isFalse hgone =>
      split
      · case h_1 only =>
        cases hok with
        | inl hsame =>
          apply absurd _ hgone
          rw [List.any_cons, hsame, decide_eq_true rfl]
          rfl
        | inr hname => exact h.upsertBinding hname
      · exact h
      · exact h

lemma Grounded.bootstrapSnapshot (h : Grounded w) {snap : Option Snapshot}
    (hok : StepOk sha256 w (.bootstrapSnapshot b snap)) :
    Grounded (watch sha256 w (.bootstrapSnapshot b snap)) := by
  obtain ⟨hnames, hentries⟩ := hok
  cases snap with
  | none => exact h
  | some snap =>
    have hgrows := bootstrapEntries_grows sha256 b snap.cursor snap.files w.toDevice hentries
    unfold watch Client.bootstrapSnapshot
    dsimp only [Option.map_some, Option.getD_some, Option.toList_some]
    generalize bootstrapEntries sha256 b snap.cursor snap.files w.toDevice = res at hgrows ⊢
    obtain ⟨σ, finished⟩ := res
    have hmid := h.grows hnames hgrows σ.disk [(b.storageId, snap.cursor)]
    cases finished with
    | false => exact hmid
    | true =>
      refine hmid.setCursor ?_ (Or.inr List.mem_cons_self)
      exact hnames.congr (hgrows.binding b.id)

lemma Grounded.pullRemote (h : Grounded w) {pages : List Page} (hnames : StillNames w.index b) :
    Grounded (watch sha256 w (.pullRemote b pages)) := by
  have hpull := pullRemote_grows sha256 b pages (w.index.getCursor b.id) w.toDevice
  unfold watch pullAndStore
  dsimp only
  generalize Client.pullRemote sha256 b pages (w.index.getCursor b.id) w.toDevice = res at hpull ⊢
  obtain ⟨hgrows, hcursor⟩ := hpull
  obtain ⟨σ, ended⟩ := res
  cases ended with
  | none => exact h.grows hnames hgrows σ.disk []
  | some r =>
    have hmid := h.grows hnames hgrows σ.disk (toldCursors b pages)
    refine hmid.setCursor (hnames.congr (hgrows.binding b.id)) ?_
    cases hcursor r rfl with
    | inl hsame =>
      left
      rw [hsame, LocalIndex.getCursor, LocalIndex.getCursor, ← hgrows.binding]
    | inr htold => exact Or.inr (List.mem_append_left _ htold)

lemma Grounded.watch (h : Grounded w) {op : EngineOp} (hok : StepOk sha256 w op) :
    Grounded (watch sha256 w op) := by
  cases op with
  | upsertBinding b => exact h.upsertBinding hok
  | removeBinding id => exact h.removeBinding id
  | setBindingEnabled id enabled =>
    unfold Client.watch
    dsimp only
    cases hset : w.index.setBindingEnabled id enabled with
    | none => exact h
    | some ix' => exact h.setBindingEnabled hset
  | healStaleStorage b storages => exact h.healStaleStorage hok
  | bootstrapSnapshot b snap => exact h.bootstrapSnapshot hok
  | pushOne b c a => exact h.grows hok (pushNoted_grows sha256 b c a w.index) w.disk []
  | clearUploadBackoff id => exact ⟨h.entries, h.cursor⟩
  | pullRemote b pages => exact h.pullRemote hok
  | editDisk disk => exact ⟨h.entries, h.cursor⟩

/-- In every run from a new index whose repointed bindings have nothing in the index, whose passes work for
    bindings as they stand, and whose bootstraps take no local file for a row without a hash, the index
    speaks about what its bindings name. -/
theorem index_speaks_of_bound (sha256 : Bytes → ContentHash) (disk : Disk) (ops : List EngineOp)
    (hok : AllOk (watch sha256) (StepOk sha256) (Watched.start disk) ops) :
    Always (watch sha256) SpeaksOfBound (Watched.start disk) ops := by
  have hstart : Grounded (Watched.start disk) :=
    ⟨fun _ _ e he => (Option.some_ne_none e he.symm).elim, fun _ row hrow =>
      (Option.some_ne_none row hrow.symm).elim⟩
  have hkeep : ∀ w op, Grounded w → StepOk sha256 w op → Grounded (Client.watch sha256 w op) :=
    fun w op hw hop => hw.watch hop
  exact (always_of_allOk hkeep hstart hok).mono fun w hw => hw.speaks

end Operations

/-! ### Two bindings -/

def twoHashes (bytes : Bytes) : ContentHash :=
  if bytes = [1] then "sha256:1" else "sha256:2"

def docs (storageId : Uuid) : Binding :=
  ⟨"docs", storageId, "docs".toList, "/d".toList, .sync, true⟩

/-- A bootstrap, a push and a pull, and the folder bound to another storage after it was removed. -/
def tidyRun : List EngineOp :=
  [.upsertBinding (docs 1),
    .bootstrapSnapshot (docs 1)
      (some ⟨[(⟨10, "docs/a".toList, 1, true, some "sha256:1"⟩, ⟨some [1], 5⟩)], 7⟩),
    .pushOne (docs 1) ⟨"b".toList, 1, 6⟩ ⟨some [2], none, .ok .stored, 0⟩,
    .pullRemote (docs 1)
      [⟨[(⟨8, some 11, "docs/c".toList, "upsert", some 1, true, some "sha256:2"⟩,
        ⟨⟨some [2], 9⟩, .keepBoth⟩)], 8, false⟩],
    .removeBinding "docs", .upsertBinding (docs 2)]

theorem tidyRun_speaks :
    Always (watch twoHashes) SpeaksOfBound (Watched.start ∅) tidyRun :=
  index_speaks_of_bound twoHashes ∅ tidyRun (by decide +kernel)

/-- A camera whose photo is stored, and whose storage is then replaced by another one. -/
def camera : Binding :=
  ⟨"camera", 1, "Camera".toList, "/dcim".toList, .autoUpload, true⟩

def healedRun : List EngineOp :=
  [.upsertBinding camera, .pushOne camera ⟨"a.jpg".toList, 1, 6⟩ ⟨some [1], none, .ok .stored, 0⟩,
    .healStaleStorage camera (some [⟨2, "new"⟩])]

/-- The new storage was never given the photo that the index says it has. -/
theorem healedRun_stale : ¬ Always (watch twoHashes) SpeaksOfBound (Watched.start ∅) healedRun := by
  intro h
  let w := run (watch twoHashes) (Watched.start ∅) healedRun
  have hrow : w.index.binding "camera" = some { camera with storageId := 2, cursor := 0 } := by
    decide +kernel
  have hentry : w.index.getEntry "camera" "a.jpg".toList =
      some ⟨1, 6, some "sha256:1", none, 0⟩ := by decide +kernel
  have hno : (⟨2, "Camera".toList, "a.jpg".toList, some "sha256:1"⟩ : Fact) ∉ w.facts := by
    decide +kernel
  exact hno (h.last.entries "camera" _ hrow "a.jpg".toList _ hentry)

end Sarca.Client
