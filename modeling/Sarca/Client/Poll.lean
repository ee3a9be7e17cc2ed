import Sarca.Client.BindingEdits
import Sarca.Client.Engine
import Sarca.Server.Snapshot

/-!
# The cheap poll

`remote_has_changes` of `engine.rs` asks for one event of each enabled two-way binding, in the order of their
ids, and says whether the pull of `tick_pull_only` is worth its while. `Remote` is a server's database with
the requests it refuses or that fail on their way; `tickPullOnly` is the pull over the pages it answers.

The poll ends with the first request that fails, so a binding behind it is not asked: `neverHides_iff`.
-/

namespace Sarca.Client
open Sarca.Lib Sarca.Server

/-- A server, and which bindings' requests it answers. -/
structure Remote where
  db : Db
  answers : Binding → Bool

/-- Rust `Api::changelog` -/
def Remote.changelog (srv : Remote) (b : Binding) (cursor limit : Int) : Option ChangelogResponse :=
  if srv.answers b then some (changelogResponse srv.db b.storageId (some cursor) (some limit)) else none

def Binding.pulled (b : Binding) : Bool :=
  b.enabled && b.mode = .sync

/-- The loop of `remote_has_changes`; none after an error. -/
def pollBindings (srv : Remote) (ix : LocalIndex) : List Binding → Option Bool
  | [] => some false
  | b :: bindings =>
    if !b.pulled then pollBindings srv ix bindings
    -- never bootstrapped
    else if ix.getCursor b.id = 0 then some true
    else
      match srv.changelog b (ix.getCursor b.id) 1 with
      | none => none
      | some page => if page.events.isEmpty then pollBindings srv ix bindings else some true

/-- Rust `remote_has_changes`. -/
def remoteHasChanges (srv : Remote) (ix : LocalIndex) : Option Bool :=
  pollBindings srv ix ix.listBindings

/-! ## The pull -/

def ChangelogEvent.ofServer (e : SyncEvent) : ChangelogEvent where
  id := e.id
  fileId := some e.fileId
  path := e.path
  op := match e.op with
    | .upsert => "upsert"
    | .delete => "delete"
  size := some e.size
  isFile := e.isFile
  contentHash := e.contentHash

structure Page.Shows (page : Page) (r : ChangelogResponse) : Prop where
  events : page.events.map Prod.fst = r.events.map ChangelogEvent.ofServer
  nextCursor : page.nextCursor = r.nextCursor
  hasMore : page.hasMore = r.hasMore

/-- The pages that a pull meets from a cursor on. -/
def Remote.Serves (srv : Remote) (b : Binding) : Int → List Page → Prop
  | cursor, [] => srv.changelog b cursor 500 = none
  | cursor, page :: pages => ∃ r, srv.changelog b cursor 500 = some r ∧ page.Shows r ∧
      (page.hasMore = true → Remote.Serves srv b (max cursor page.nextCursor) pages)

/-- A binding's run in a pull: what it is answered, and the storages that are listed after an error. -/
structure PullRun where
  binding : Binding
  answers : PassAnswers
  storages : Option (List StorageSummary)

section Tick

variable (sha256 : Bytes → ContentHash)

/-- One binding of `tick_filtered_scoped`: the pass, and the healing behind a failed one. -/
def pullRun (r : PullRun) (σ : Device) : Device × Option SyncStatus :=
  match syncBindingScoped sha256 r.binding .pullOnly r.answers σ with
  | (σ, none) => (⟨σ.disk, (healStaleStorage r.binding r.storages σ.index).1⟩, none)
  | (σ, some status) => (σ, some status)

/-- Rust `tick_pull_only` over the runs that the scheduler lets through, in the order they take. -/
def tickPullOnly : List PullRun → Device → Device × List (Option SyncStatus)
  | [], σ => (σ, [])
  | r :: runs, σ =>
    let pulled := pullRun sha256 r σ
    let rest := tickPullOnly runs pulled.1
    (rest.1, pulled.2 :: rest.2)

end Tick

/-- The runs of a pull at a server: a binding runs once, and reads from the cursor it has. -/
structure PullRuns (srv : Remote) (σ : Device) (runs : List PullRun) : Prop where
  once : (runs.map (·.binding.id)).Nodup
  listed : ∀ r ∈ runs, r.binding ∈ σ.index.listBindings ∧ r.binding.pulled = true
  served : ∀ r ∈ runs, srv.Serves r.binding (σ.index.getCursor r.binding.id) r.answers.pages

/-- Nothing has been applied: the disk and what is recorded of it are what they were. -/
structure Untouched (σ σ' : Device) : Prop where
  disk : σ'.disk = σ.disk
  entries : σ'.index.entries = σ.index.entries
  conflicts : σ'.index.conflicts = σ.index.conflicts
  /-- a pull raises a cursor below 0 -/
  cursors : ∀ id, 0 ≤ σ.index.getCursor id → σ'.index.getCursor id = σ.index.getCursor id

/-! ## What the poll is for -/

/-- The binding has something to pull, and its request would be answered. -/
structure Pending (srv : Remote) (ix : LocalIndex) (b : Binding) : Prop where
  pulled : b.pulled = true
  behind : ix.getCursor b.id = 0 ∨
    srv.answers b = true ∧ ∃ e ∈ srv.db.eventsOf b.storageId, (ix.getCursor b.id).toNat < e.id

/-- The request of the binding is made, and fails. -/
structure Fails (srv : Remote) (ix : LocalIndex) (b : Binding) : Prop where
  pulled : b.pulled = true
  asked : ix.getCursor b.id ≠ 0
  refused : srv.answers b = false

/-- The poll says yes where something is to be pulled, and no only where the pull does nothing. -/
structure NeverHides (sha256 : Bytes → ContentHash) (srv : Remote) (σ : Device) : Prop where
  pending : (∃ b ∈ σ.index.listBindings, Pending srv σ.index b) → remoteHasChanges srv σ.index = some true
  nothing : remoteHasChanges srv σ.index = some false → ∀ runs, PullRuns srv σ runs →
    Untouched σ (tickPullOnly sha256 runs σ).1 ∧
      ∀ status ∈ (tickPullOnly sha256 runs σ).2, ∃ s, status = some s ∧ s.downloading = 0 ∧ s.lastError = false

section Poll

variable {srv : Remote} {ix : LocalIndex} {b : Binding} {l : List Binding}

lemma changelogResponse_empty {db : Db} {s : Uuid} {cursor limit : Int} :
    (changelogResponse db s (some cursor) (some limit)).events = [] ↔
      ∀ e ∈ db.eventsOf s, ¬cursor.toNat < e.id := by
  have hlimit : (max 1 (min 2000 limit)).toNat ≠ 0 := by omega
  have hcursor : (max 0 cursor).toNat = cursor.toNat := by omega
  simp only [changelogResponse, Db.changelog, Option.getD_some, hcursor, List.take_eq_nil_iff, hlimit, false_or,
    List.filter_eq_nil_iff, decide_eq_true_eq]

lemma pollBindings_cons : pollBindings srv ix (b :: l) = some true ∧ Pending srv ix b ∨
    pollBindings srv ix (b :: l) = none ∧ Fails srv ix b ∨
    pollBindings srv ix (b :: l) = pollBindings srv ix l ∧ ¬Pending srv ix b ∧ ¬Fails srv ix b := by
  rw [pollBindings]
  split
  · case isTrue hout =>
    have hout : b.pulled ≠ true := fun h => by simp [h] at hout
    exact .inr (.inr ⟨rfl, fun h => hout h.pulled, fun h => hout h.pulled⟩)
  · case isFalse hin =>
    have hin : b.pulled = true := by simpa using hin
    split
    · case isTrue hzero => exact .inl ⟨rfl, hin, .inl hzero⟩
    · case isFalse hcursor =>
      unfold Remote.changelog
      cases ha : srv.answers b with
      | false => exact .inr (.inl ⟨rfl, hin, hcursor, ha⟩)
      | true =>
        simp only [if_true, List.isEmpty_iff, changelogResponse_empty]
        split
        · case isTrue hnone =>
          refine .inr (.inr ⟨rfl, fun h => ?_, fun h => Bool.false_ne_true (h.refused.symm.trans ha)⟩)
          obtain hzero | ⟨-, e, he, hbehind⟩ := h.behind
          · exact hcursor hzero
          · exact hnone e he hbehind
        · case isFalse hsome =>
          push Not at hsome
          exact .inl ⟨rfl, hin, .inr ⟨ha, hsome⟩⟩

lemma not_fails_of_pending (h : Pending srv ix b) : ¬Fails srv ix b := fun hf =>
  h.behind.elim hf.asked fun hb => Bool.false_ne_true (hf.refused.symm.trans hb.1)

lemma pollBindings_eq_false :
    pollBindings srv ix l = some false ↔ ∀ b ∈ l, ¬Pending srv ix b ∧ ¬Fails srv ix b := by
  induction l with
  | nil => exact iff_of_true rfl fun b hb => absurd hb List.not_mem_nil
  | cons b l ih =>
    rw [List.forall_mem_cons, ← ih]
    obtain ⟨heq, h⟩ | ⟨heq, h⟩ | ⟨heq, h⟩ := @pollBindings_cons srv ix b l
    · exact iff_of_false (by rw [heq]; decide) fun hall => hall.1.1 h
    · exact iff_of_false (by rw [heq]; decide) fun hall => hall.1.2 h
    · rw [heq]
      exact (and_iff_right h).symm

lemma pollBindings_eq_true : pollBindings srv ix l = some true ↔
    ∃ before b after, l = before ++ b :: after ∧ Pending srv ix b ∧ ∀ f ∈ before, ¬Fails srv ix f := by
  induction l with
  | nil =>
    refine iff_of_false (by rw [pollBindings]; decide) ?_
    rintro ⟨before, b, after, hl, -⟩
    exact List.append_ne_nil_of_right_ne_nil before (List.cons_ne_nil b after) hl.symm
  | cons b l ih =>
    obtain ⟨heq, h⟩ | ⟨heq, h⟩ | ⟨heq, hnot, hf⟩ := @pollBindings_cons srv ix b l
    · exact iff_of_true heq ⟨[], b, l, rfl, h, fun f hf => absurd hf List.not_mem_nil⟩
    · refine iff_of_false (by rw [heq]; decide) ?_
      rintro ⟨before, p, after, hl, hp, hquiet⟩
      cases before with
      | nil => exact not_fails_of_pending hp ((List.cons.inj hl).1 ▸ h)
      | cons b' before => exact hquiet b' List.mem_cons_self ((List.cons.inj hl).1 ▸ h)
    · rw [heq, ih]
      constructor
      · rintro ⟨before, p, after, rfl, hp, hquiet⟩
        exact ⟨b :: before, p, after, rfl, hp, List.forall_mem_cons.mpr ⟨hf, hquiet⟩⟩
      · rintro ⟨before, p, after, hl, hp, hquiet⟩
        cases before with
        | nil => exact absurd ((List.cons.inj hl).1 ▸ hp) hnot
        | cons b' before =>
          exact ⟨before, p, after, (List.cons.inj hl).2, hp, (List.forall_mem_cons.mp hquiet).2⟩

end Poll

section Pull

variable {sha256 : Bytes → ContentHash} {srv : Remote} {σ τ υ : Device} {b : Binding} {r : PullRun}

lemma getCursor_setCursor {ix : LocalIndex} {id other : BindingId} {cursor : Int}
    (h : other = id → cursor = ix.getCursor id) :
    (ix.setCursor id cursor).getCursor other = ix.getCursor other := by
  unfold LocalIndex.getCursor at h ⊢
  rw [LocalIndex.binding_setCursor]
  split
  · case isTrue heq =>
    subst heq
    cases hrow : ix.binding other with
    | none => rfl
    | some row =>
      rw [hrow] at h
      exact h rfl
  · rfl

lemma setCursor_eq {ix : LocalIndex} {id : BindingId} {cursor : Int} :
    (ix.setCursor id cursor).entries = ix.entries ∧ (ix.setCursor id cursor).conflicts = ix.conflicts := by
  unfold LocalIndex.setCursor
  split
  · exact ⟨rfl, rfl⟩
  · exact ⟨rfl, rfl⟩

lemma Untouched.refl (σ : Device) : Untouched σ σ :=
  ⟨rfl, rfl, rfl, fun _ _ => rfl⟩

lemma Untouched.trans (h : Untouched σ τ) (h' : Untouched τ υ) : Untouched σ υ where
  disk := h'.disk.trans h.disk
  entries := h'.entries.trans h.entries
  conflicts := h'.conflicts.trans h.conflicts
  cursors id hid := by
    have heq := h.cursors id hid
    exact (h'.cursors id (heq ▸ hid)).trans heq

lemma changelogResponse_last {db : Db} {s : Uuid} {cursor : Int}
    (h : (changelogResponse db s (some cursor) (some 500)).events = []) :
    (changelogResponse db s (some cursor) (some 500)).nextCursor = 0 ∧
      (changelogResponse db s (some cursor) (some 500)).hasMore = false := by
  unfold changelogResponse at h ⊢
  dsimp only at h ⊢
  rw [h]
  exact ⟨rfl, rfl⟩

lemma pullRemote_nothing {pages : List Page} {cursor : Int} (hserved : srv.Serves b cursor pages)
    (ha : srv.answers b = true) (hnone : ∀ e ∈ srv.db.eventsOf b.storageId, ¬cursor.toNat < e.id) :
    pullRemote sha256 b pages cursor σ = (σ, some (0, max cursor 0)) := by
  have hempty : (changelogResponse srv.db b.storageId (some cursor) (some 500)).events = [] :=
    changelogResponse_empty.mpr hnone
  cases pages with
  | nil =>
    rw [Remote.Serves, Remote.changelog, ha] at hserved
    exact absurd hserved (Option.some_ne_none _)
  | cons page pages =>
    obtain ⟨r, hr, hshows, -⟩ := hserved
    rw [Remote.changelog, ha, if_pos rfl] at hr
    obtain rfl := Option.some.inj hr
    have hevents : page.events = [] := List.map_eq_nil_iff.mp (hshows.events.trans (by rw [hempty]; rfl))
    have hnext : page.nextCursor = 0 := by rw [hshows.nextCursor, (changelogResponse_last hempty).1]; rfl
    have hmore : page.hasMore = false := by rw [hshows.hasMore, (changelogResponse_last hempty).2]
    rw [pullRemote, hevents, hnext, hmore]
    rfl

lemma pullRun_nothing (hpulled : r.binding.pulled = true)
    (hquiet : ¬Pending srv σ.index r.binding ∧ ¬Fails srv σ.index r.binding)
    (hserved : srv.Serves r.binding (σ.index.getCursor r.binding.id) r.answers.pages) :
    Untouched σ (pullRun sha256 r σ).1 ∧
      (∀ id, id ≠ r.binding.id → (pullRun sha256 r σ).1.index.getCursor id = σ.index.getCursor id) ∧
      ∃ s, (pullRun sha256 r σ).2 = some s ∧ s.downloading = 0 ∧ s.lastError = false := by
  have hcursor : σ.index.getCursor r.binding.id ≠ 0 := fun h => hquiet.1 ⟨hpulled, .inl h⟩
  have ha : srv.answers r.binding = true := by
    by_contra h
    exact hquiet.2 ⟨hpulled, hcursor, Bool.not_eq_true _ ▸ h⟩
  have hnone : ∀ e ∈ srv.db.eventsOf r.binding.storageId, ¬(σ.index.getCursor r.binding.id).toNat < e.id :=
    fun e he hbehind => hquiet.1 ⟨hpulled, .inr ⟨ha, e, he, hbehind⟩⟩
  have hmode : r.binding.mode = .sync := by
    unfold Binding.pulled at hpulled
    simpa using (Bool.and_eq_true_iff.mp hpulled).2
  obtain ⟨s, hrun, hs⟩ : ∃ s, pullRun sha256 r σ = (⟨σ.disk, σ.index.setCursor r.binding.id
      (max (σ.index.getCursor r.binding.id) 0)⟩, some s) ∧ s.downloading = 0 ∧ s.lastError = false := by
    unfold pullRun syncBindingScoped passStart passPush passPull pullAndStore
    simp only [hcursor, hmode, false_and, if_false, if_true, pullRemote_nothing hserved ha hnone]
    exact ⟨_, rfl, rfl, rfl⟩
  rw [hrun]
  refine ⟨⟨rfl, setCursor_eq.1, setCursor_eq.2, fun id hid => getCursor_setCursor fun heq => ?_⟩,
    fun id hne => getCursor_setCursor fun heq => absurd heq hne, s, rfl, hs⟩
  exact max_eq_left (heq ▸ hid)

lemma listBindings_pending {ix ix' : LocalIndex} (h : ix'.getCursor b.id = ix.getCursor b.id) :
    (Pending srv ix' b ↔ Pending srv ix b) ∧ (Fails srv ix' b ↔ Fails srv ix b) := by
  refine ⟨⟨fun hp => ⟨hp.pulled, ?_⟩, fun hp => ⟨hp.pulled, ?_⟩⟩, ⟨fun hf => ⟨hf.pulled, ?_, hf.refused⟩,
    fun hf => ⟨hf.pulled, ?_, hf.refused⟩⟩⟩
  · exact h ▸ hp.behind
  · exact h.symm ▸ hp.behind
  · exact h ▸ hf.asked
  · exact h.symm ▸ hf.asked

lemma tickPullOnly_nothing {runs : List PullRun} (honce : (runs.map (·.binding.id)).Nodup)
    (hpulled : ∀ r ∈ runs, r.binding.pulled = true)
    (hquiet : ∀ r ∈ runs, ¬Pending srv σ.index r.binding ∧ ¬Fails srv σ.index r.binding)
    (hserved : ∀ r ∈ runs, srv.Serves r.binding (σ.index.getCursor r.binding.id) r.answers.pages) :
    Untouched σ (tickPullOnly sha256 runs σ).1 ∧
      ∀ status ∈ (tickPullOnly sha256 runs σ).2,
        ∃ s, status = some s ∧ s.downloading = 0 ∧ s.lastError = false := by
  induction runs generalizing σ with
  | nil => exact ⟨Untouched.refl σ, fun status h => absurd h List.not_mem_nil⟩
  | cons r runs ih =>
    obtain ⟨hr, hpulled⟩ := List.forall_mem_cons.mp hpulled
    obtain ⟨hrq, hquiet⟩ := List.forall_mem_cons.mp hquiet
    obtain ⟨hrs, hserved⟩ := List.forall_mem_cons.mp hserved
    obtain ⟨hnew, honce⟩ := List.nodup_cons.mp honce
    obtain ⟨huntouched, hothers, hstatus⟩ := @pullRun_nothing sha256 srv σ r hr hrq hrs
    have hsame : ∀ r' ∈ runs, (pullRun sha256 r σ).1.index.getCursor r'.binding.id =
        σ.index.getCursor r'.binding.id :=
      fun r' hr' => hothers _ fun heq => hnew (List.mem_map.mpr ⟨r', hr', heq⟩)
    obtain ⟨hrest, hstatuses⟩ := @ih (pullRun sha256 r σ).1 honce hpulled
      (fun r' hr' => by
        rw [(listBindings_pending (hsame r' hr')).1, (listBindings_pending (hsame r' hr')).2]
        exact hquiet r' hr')
      (fun r' hr' => by rw [hsame r' hr']; exact hserved r' hr')
    exact ⟨huntouched.trans hrest, List.forall_mem_cons.mpr ⟨hstatus, hstatuses⟩⟩

end Pull

/-- The poll hides a change just when a request fails before the first binding, in the order of the ids, that
    has something to pull. -/
theorem neverHides_iff (sha256 : Bytes → ContentHash) (srv : Remote) (σ : Device) :
    NeverHides sha256 srv σ ↔ ((∃ b ∈ σ.index.listBindings, Pending srv σ.index b) →
      ∃ before b after, σ.index.listBindings = before ++ b :: after ∧ Pending srv σ.index b ∧
        ∀ f ∈ before, ¬Fails srv σ.index f) := by
  constructor
  · exact fun h hpending => pollBindings_eq_true.mp (h.pending hpending)
  · intro h
    refine ⟨fun hpending => pollBindings_eq_true.mpr (h hpending), fun hno runs hruns => ?_⟩
    have hquiet := pollBindings_eq_false.mp hno
    exact tickPullOnly_nothing hruns.once (fun r hr => (hruns.listed r hr).2)
      (fun r hr => hquiet _ (hruns.listed r hr).1) hruns.served

def photos : Binding := ⟨"photos", 2, [], "/photos".toList, .sync, true⟩

def notes : Binding := ⟨"notes", 1, [], "/notes".toList, .sync, true⟩

/-- Two bindings that have been pulled, to the storages 1 and 2. -/
def photosAndNotes : LocalIndex :=
  (((LocalIndex.new.upsertBinding photos).upsertBinding notes).setCursor "photos" 1).setCursor "notes" 1

/-- A server on which the storage 1 is gone, and the storage 2 has got a file. -/
def withoutNotes : Remote where
  db := { Db.fresh [] with
    events := [⟨⟨2, 7, "a.jpg".toList, .upsert, 3, true, none, none⟩, 2⟩]
    eventSeq := 2 }
  answers b := b.storageId ≠ 1

/-- The poll ends at the binding that is refused, and the new photo stays where it is. -/
theorem photos_hidden : remoteHasChanges withoutNotes photosAndNotes = none ∧
    ∀ sha256 : Bytes → ContentHash, ¬NeverHides sha256 withoutNotes ⟨∅, photosAndNotes⟩ := by
  have hpoll : remoteHasChanges withoutNotes photosAndNotes = none := by decide
  refine ⟨hpoll, fun sha256 h => ?_⟩
  have hphotos : Pending withoutNotes photosAndNotes photos :=
    ⟨rfl, .inr ⟨rfl, _, List.mem_singleton.mpr rfl, by decide⟩⟩
  have hyes := h.pending ⟨photos, by decide, hphotos⟩
  exact Option.some_ne_none true (hyes.symm.trans hpoll)

end Sarca.Client
