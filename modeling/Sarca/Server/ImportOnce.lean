import Sarca.Server.ImportJobs

/-!
# A file is copied once

The runner puts back what was in progress when it starts. Where no relay of an earlier start is left then, no
two tasks work on one file and none is copied twice, whatever fails, whatever the API is asked for meanwhile and
however often the runner and the process end (`import_once`).
-/

namespace Sarca.Server
open Sarca.Lib

namespace ImportJobs
open ImportScan

def RunnerPhase.held : RunnerPhase → List ImportItem
  | .placing _ item | .admitting _ item | .waiting _ item | .downloading _ item | .settling _ item _ _ |
    .releasing _ item _ => [item]
  | _ => []

namespace Importer

def hands (σ : Importer) : List ImportItem :=
  σ.phase.held ++ σ.relays

/-- A file has one row in its job, no two tasks work on a row, and a row is copied once and then stays done. -/
structure CopiedOnce (σ : Importer) : Prop where
  paths : (σ.tables.items.map fun it => (it.jobId, it.relPath)).Nodup
  hands : (σ.hands.map (·.id)).Nodup
  copied : σ.copied.Nodup
  kept : ∀ it ∈ σ.tables.items, it.id ∈ σ.copied → it.status = .done

/-- The runner starts when no relay is left from before. -/
def StartsAlone (σ : Importer) : ImportAct → Prop
  | .start _ => σ.phase = .down → σ.relays = []
  | _ => True

instance StartsAlone.decidable (σ : Importer) : (a : ImportAct) → Decidable (σ.StartsAlone a)
  | .start _ => inferInstanceAs (Decidable (_ → _))
  | .create _ _ _ | .panic | .crash | .runner _ | .relay _ _ _ | .request _ _ | .serve _ _ => instDecidableTrue

/-- What the rows, the hands and the copies made are to each other. -/
structure Single (items : List ImportItem) (next : Nat) (hands : List ImportItem) (copied : List Nat) :
    Prop where
  ids : (items.map (·.id)).Nodup
  paths : (items.map fun it => (it.jobId, it.relPath)).Nodup
  below : ∀ it ∈ items, it.id < next
  once : (hands.map (·.id)).Nodup
  handsBelow : ∀ h ∈ hands, h.id < next
  unmarked : ∀ h ∈ hands, h.id ∉ copied
  held : ∀ h ∈ hands, ∀ it ∈ items, it.id = h.id → it.status = .inProgress
  marks : copied.Nodup
  marksBelow : ∀ n ∈ copied, n < next
  kept : ∀ it ∈ items, it.id ∈ copied → it.status = .done

def Singly (σ : Importer) : Prop :=
  Single σ.tables.items σ.tables.nextItem σ.hands σ.copied

variable {σ τ : Importer} {t : Tables} {id : Uuid}

/-! ## The rows -/

section Rows

variable {items items' hands hands' : List ImportItem} {next : Nat} {copied : List Nat} {item : ImportItem}
  {f g : ImportItem → ImportItem}

/-- Some hands are empty now, or have changed places. -/
lemma Single.fewer (h : Single items next hands copied) (hsub : hands'.Subperm hands) :
    Single items next hands' copied := by
  obtain ⟨l, hperm, hl⟩ := id hsub
  exact {
    h with
    once := (hperm.map _).nodup_iff.mp (h.once.sublist (hl.map _))
    handsBelow := fun x hx => h.handsBelow x (hsub.subset hx)
    unmarked := fun x hx => h.unmarked x (hsub.subset hx)
    held := fun x hx => h.held x (hsub.subset hx) }

/-- Some rows are gone. -/
lemma Single.sublist (h : Single items next hands copied) (hsub : items'.Sublist items) :
    Single items' next hands copied := {
  h with
  ids := h.ids.sublist (hsub.map _)
  paths := h.paths.sublist (hsub.map _)
  below := fun it hit => h.below it (hsub.subset hit)
  held := fun x hx it hit => h.held x hx it (hsub.subset hit)
  kept := fun it hit => h.kept it (hsub.subset hit) }

def SameFile (f : ImportItem → ImportItem) : Prop :=
  ∀ it, (f it).id = it.id ∧ (f it).jobId = it.jobId ∧ (f it).relPath = it.relPath

/-- An update that leaves alone what is in hand and what is copied. -/
lemma Single.map (h : Single items next hands copied) (hf : SameFile f)
    (hheld : ∀ x ∈ hands, ∀ it ∈ items, it.id = x.id → (f it).status = it.status)
    (hkept : ∀ it ∈ items, it.id ∈ copied → (f it).status = it.status) :
    Single (items.map f) next hands copied := {
  h with
  ids := by
    have hids : (items.map f).map (·.id) = items.map (·.id) := by
      rw [List.map_map]
      exact List.map_congr_left fun it _ => (hf it).1
    exact hids ▸ h.ids
  paths := by
    have hpaths : (items.map f).map (fun it => (it.jobId, it.relPath)) =
        items.map fun it => (it.jobId, it.relPath) := by
      rw [List.map_map]
      exact List.map_congr_left fun it _ => Prod.ext (hf it).2.1 (hf it).2.2
    exact hpaths ▸ h.paths
  below := List.forall_mem_map.mpr fun it hit => (hf it).1 ▸ h.below it hit
  held := by
    refine fun x hx => List.forall_mem_map.mpr fun it hit hid => ?_
    rw [(hf it).1] at hid
    rw [hheld x hx it hit hid]
    exact h.held x hx it hit hid
  kept := by
    refine List.forall_mem_map.mpr fun it hit hid => ?_
    rw [(hf it).1] at hid
    rw [hkept it hit hid]
    exact h.kept it hit hid }

/-- What comes out of the hands is in none of those that are left. -/
lemma Single.ne_of_cons (h : Single items next (item :: hands) copied) : ∀ x ∈ hands, x.id ≠ item.id := by
  intro x hx heq
  have hone := h.once
  rw [List.map_cons, List.nodup_cons] at hone
  exact hone.1 (heq ▸ List.mem_map_of_mem hx)

lemma sameFile_update (hg : SameFile g) (n : Nat) : SameFile fun it => if it.id = n then g it else it := by
  intro it
  dsimp only
  split
  · exact hg it
  · exact ⟨rfl, rfl, rfl⟩

/-- An item is put down, and its row says so. -/
lemma Single.putDown (h : Single items next (item :: hands) copied) (hg : SameFile g) :
    Single (items.map fun it => if it.id = item.id then g it else it) next hands copied := by
  refine (h.fewer (List.sublist_cons_self _ _).subperm).map (sameFile_update hg _) ?_ ?_
  · intro x hx it _ hid
    have hne : it.id ≠ item.id := hid ▸ h.ne_of_cons x hx
    rw [if_neg hne]
  · intro it _ hcopied
    have hne : it.id ≠ item.id := fun heq => h.unmarked item List.mem_cons_self (heq ▸ hcopied)
    rw [if_neg hne]

/-- It is put down as copied. -/
lemma Single.copy (h : Single items next (item :: hands) copied) (hg : SameFile g)
    (hdone : ∀ it, (g it).status = .done) :
    Single (items.map fun it => if it.id = item.id then g it else it) next hands (copied ++ [item.id]) := by
  have hput := h.putDown hg
  have hmem : ∀ n, n ∈ copied ++ [item.id] → n ∈ copied ∨ n = item.id := fun n hn =>
    (List.mem_append.mp hn).imp_right List.mem_singleton.mp
  exact {
    hput with
    unmarked := fun x hx hn =>
      (hmem _ hn).elim (hput.unmarked x hx) (h.ne_of_cons x hx)
    marks := by
      refine List.nodup_append.mpr ⟨h.marks, List.nodup_singleton _, fun n hn m hm heq => ?_⟩
      rw [heq, List.mem_singleton.mp hm] at hn
      exact h.unmarked item List.mem_cons_self hn
    marksBelow := fun n hn => (hmem n hn).elim (h.marksBelow n) fun heq =>
      heq ▸ h.handsBelow item List.mem_cons_self
    kept := by
      intro it hit hn
      cases hmem _ hn with
      | inl hold => exact hput.kept it hit hold
      | inr heq =>
        obtain ⟨it', -, rfl⟩ := List.mem_map.mp hit
        rw [(sameFile_update hg _ it').1] at heq
        rw [if_pos heq]
        exact hdone it' }

/-- A row that waits is taken up. -/
lemma Single.claim (h : Single items next hands copied) (hit : item ∈ items)
    (hpending : item.status = .pending) :
    Single (items.map fun it => if it.id = item.id then Tables.claimed it else it) next
      (Tables.claimed item :: hands) copied := by
  have hfree : ∀ x ∈ hands, x.id ≠ item.id := by
    intro x hx heq
    have hstatus := h.held x hx item hit heq.symm
    rw [hpending] at hstatus
    cases hstatus
  have hnew : item.id ∉ copied := by
    intro hn
    have hstatus := h.kept item hit hn
    rw [hpending] at hstatus
    cases hstatus
  have hsame : SameFile Tables.claimed := fun _ => ⟨rfl, rfl, rfl⟩
  have hmap : Single (items.map fun it => if it.id = item.id then Tables.claimed it else it) next hands
      copied := by
    refine h.map (sameFile_update hsame item.id) (fun x hx it _ hid => ?_) fun it _ hn => ?_
    · have hne : it.id ≠ item.id := hid ▸ hfree x hx
      rw [if_neg hne]
    · have hne : it.id ≠ item.id := fun heq => hnew (heq ▸ hn)
      rw [if_neg hne]
  exact {
    hmap with
    once := by
      refine List.nodup_cons.mpr ⟨fun hmem => ?_, h.once⟩
      obtain ⟨x, hx, heq⟩ := List.mem_map.mp hmem
      exact hfree x hx heq
    handsBelow := List.forall_mem_cons.mpr ⟨h.below item hit, h.handsBelow⟩
    unmarked := List.forall_mem_cons.mpr ⟨hnew, h.unmarked⟩
    held := by
      refine List.forall_mem_cons.mpr ⟨List.forall_mem_map.mpr fun it _ hid => ?_, hmap.held⟩
      rw [(sameFile_update hsame item.id it).1] at hid
      have hself : it.id = item.id := hid
      rw [if_pos hself]
      rfl }

/-- A file that the scan comes to has a row, which it had, or a new one. -/
lemma Single.insertItem (h : Single t.items t.nextItem hands copied) (new : NewImportItem) :
    Single (t.insertItem id new).items (t.insertItem id new).nextItem hands copied := by
  unfold Tables.insertItem
  split
  · exact h
  · case isFalse hno =>
    have hnone : ∀ it ∈ t.items, ¬(it.jobId = id ∧ it.relPath = new.relPath) := fun it hit heq =>
      hno (List.any_eq_true.mpr ⟨it, hit, decide_eq_true heq⟩)
    constructor
    case ids =>
      rw [List.map_append, List.nodup_append]
      refine ⟨h.ids, List.nodup_singleton _, fun n hn m hm heq => ?_⟩
      obtain ⟨it, hit, rfl⟩ := List.mem_map.mp hn
      rw [List.mem_singleton.mp hm] at heq
      exact Nat.ne_of_lt (h.below it hit) heq
    case paths =>
      rw [List.map_append, List.nodup_append]
      refine ⟨h.paths, List.nodup_singleton _, fun p hp q hq heq => ?_⟩
      obtain ⟨it, hit, rfl⟩ := List.mem_map.mp hp
      rw [List.mem_singleton.mp hq] at heq
      exact hnone it hit (Prod.ext_iff.mp heq)
    case below =>
      refine List.forall_mem_append.mpr ⟨fun it hit => Nat.lt_succ_of_lt (h.below it hit), ?_⟩
      exact List.forall_mem_singleton.mpr (Nat.lt_succ_self _)
    case once => exact h.once
    case handsBelow => exact fun x hx => Nat.lt_succ_of_lt (h.handsBelow x hx)
    case unmarked => exact h.unmarked
    case held =>
      refine fun x hx => List.forall_mem_append.mpr ⟨h.held x hx, List.forall_mem_singleton.mpr fun heq => ?_⟩
      exact absurd heq (Nat.ne_of_gt (h.handsBelow x hx))
    case marks => exact h.marks
    case marksBelow => exact fun n hn => Nat.lt_succ_of_lt (h.marksBelow n hn)
    case kept =>
      refine List.forall_mem_append.mpr ⟨h.kept, List.forall_mem_singleton.mpr fun hn => ?_⟩
      exact absurd (h.marksBelow _ hn) (Nat.lt_irrefl _)

lemma Single.insertItems (id : Uuid) (h : Single t.items t.nextItem hands copied)
    (batch : List NewImportItem) :
    Single (t.insertItems id batch).items (t.insertItems id batch).nextItem hands copied := by
  induction batch generalizing t with
  | nil => exact h
  | cons new batch ih => exact ih (h.insertItem new)

end Rows

/-! ## The steps -/

lemma Singly.fresh : fresh.Singly where
  ids := List.nodup_nil
  paths := List.nodup_nil
  below := List.forall_mem_nil _
  once := List.nodup_nil
  handsBelow := List.forall_mem_nil _
  unmarked := List.forall_mem_nil _
  held := List.forall_mem_nil _
  marks := List.nodup_nil
  marksBelow := List.forall_mem_nil _
  kept := List.forall_mem_nil _

/-- The rows and the copies stay, and no item comes to hand. -/
lemma Singly.turn (hs : σ.Singly) (hitems : τ.tables.items = σ.tables.items)
    (hnext : τ.tables.nextItem = σ.tables.nextItem) (hcopied : τ.copied = σ.copied)
    (hrelays : τ.relays = σ.relays) (hheld : τ.phase.held.Sublist σ.phase.held) : τ.Singly := by
  have h : Single σ.tables.items σ.tables.nextItem τ.hands σ.copied := by
    refine hs.fewer ?_
    unfold hands
    rw [hrelays]
    exact (hheld.append_right _).subperm
  unfold Singly
  rw [hitems, hnext, hcopied]
  exact h

lemma held_nextDir (job : ImportJob) (found stack : List Path) :
    (RunnerPhase.nextDir job found stack).held = [] := by
  cases stack <;> rfl

lemma held_nextBatch (job : ImportJob) (stack found : List Path) (files : List NewImportItem) :
    (RunnerPhase.nextBatch job stack found files).held = [] := by
  cases files with
  | nil => exact held_nextDir job found stack
  | cons file files => rfl

/-- The statements and requests that neither write a row of items nor hand one over. -/
lemma Singly.plain (hs : σ.Singly) {a : RunnerAct} (hinsert : ∀ ok, a ≠ .insertItems ok)
    (hclaim : ∀ ok, a ≠ .claimNextItem ok) (hdownload : ∀ failure, a ≠ .download failure)
    (hfinish : ∀ ok, a ≠ .finishItem ok) (hrelease : ∀ ok, a ≠ .releaseItem ok) : (σ.runner a).Singly := by
  cases a with
  | insertItems ok => exact absurd rfl (hinsert ok)
  | claimNextItem ok => exact absurd rfl (hclaim ok)
  | download failure => exact absurd rfl (hdownload failure)
  | finishItem ok => exact absurd rfl (hfinish ok)
  | releaseItem ok => exact absurd rfl (hrelease ok)
  | nextActiveJob ok =>
    dsimp only [Importer.runner, Importer.nextActiveJob]
    split
    · split
      · exact hs.turn rfl rfl rfl rfl (List.nil_sublist _)
      · exact hs
    · exact hs
  | prepare refused =>
    dsimp only [Importer.runner, Importer.prepare]
    split
    · split
      · exact hs.turn rfl rfl rfl rfl (List.nil_sublist _)
      · exact hs.turn rfl rfl rfl rfl (List.nil_sublist _)
      · refine hs.turn rfl rfl rfl rfl ?_
        split
        · rw [held_nextDir]
          exact List.nil_sublist _
        · exact List.nil_sublist _
    · exact hs
  | getJob ok =>
    dsimp only [Importer.runner, Importer.getJob]
    split
    · refine hs.turn rfl rfl rfl rfl ?_
      split <;> exact List.nil_sublist _
    · case h_2 job item hphase =>
      refine hs.turn rfl rfl rfl rfl ?_
      rw [hphase]
      split <;> exact List.Sublist.refl _
    · exact hs
  | list answer =>
    dsimp only [Importer.runner, Importer.list]
    split
    · split
      · exact hs.turn rfl rfl rfl rfl (List.nil_sublist _)
      · refine hs.turn rfl rfl rfl rfl ?_
        rw [held_nextBatch]
        exact List.nil_sublist _
    · exact hs
  | finishScan ok =>
    dsimp only [Importer.runner, Importer.finishScan]
    split
    · split
      · exact hs.turn rfl rfl rfl rfl (List.nil_sublist _)
      · exact hs.turn rfl rfl rfl rfl (List.nil_sublist _)
    · exact hs
  | isDrained ok =>
    dsimp only [Importer.runner, Importer.isDrained]
    split
    · refine hs.turn rfl rfl rfl rfl ?_
      split <;> exact List.nil_sublist _
    · exact hs
  | countFailed ok =>
    dsimp only [Importer.runner, Importer.countFailed]
    split
    · exact hs.turn rfl rfl rfl rfl (List.nil_sublist _)
    · exact hs
  | transition ok =>
    dsimp only [Importer.runner, Importer.transition]
    split
    all_goals first
      | exact hs
      | cases ok <;> exact hs.turn rfl rfl rfl rfl (List.nil_sublist _)
  | place existing =>
    dsimp only [Importer.runner, Importer.place]
    split
    · case h_1 job item hphase =>
      split
      · exact hs.turn rfl rfl rfl rfl (by rw [hphase]; exact List.Sublist.refl _)
      · split
        all_goals exact hs.turn rfl rfl rfl rfl (by rw [hphase]; exact List.Sublist.refl _)
    · exact hs
  | spoolAdmits answer =>
    dsimp only [Importer.runner, Importer.spoolAdmits]
    split
    · case h_1 job item hphase =>
      split
      all_goals exact hs.turn rfl rfl rfl rfl (by rw [hphase]; exact List.Sublist.refl _)
    · exact hs
  | spooled =>
    dsimp only [Importer.runner, Importer.spooled]
    split
    · exact hs.turn rfl rfl rfl rfl (List.nil_sublist _)
    · exact hs

lemma Singly.insertItems (hs : σ.Singly) (ok : Bool) : (σ.insertItems ok).Singly := by
  unfold Importer.insertItems
  split
  · case h_1 job stack found files hphase =>
    split
    · have hphase' : (RunnerPhase.nextBatch job stack found (files.drop 200)).held = σ.phase.held := by
        rw [held_nextBatch, hphase]
        rfl
      have hrows := Single.insertItems job.id hs (files.take 200)
      unfold Singly hands at hrows ⊢
      rw [← hphase'] at hrows
      exact hrows
    · exact hs.turn rfl rfl rfl rfl (List.nil_sublist _)
  · exact hs

lemma Singly.claimNextItem (hs : σ.Singly) (ok : Bool) : (σ.claimNextItem ok).Singly := by
  unfold Importer.claimNextItem
  split
  · case h_1 job hphase =>
    split
    · split
      · case h_1 tables item hclaim =>
        obtain ⟨it, hit, heq⟩ := Option.map_eq_some_iff.mp hclaim
        cases heq
        obtain ⟨hmem, -, hpending⟩ := nextItemOf_spec hit
        have hrelays : Single σ.tables.items σ.tables.nextItem σ.relays σ.copied := by
          have h : Single σ.tables.items σ.tables.nextItem σ.hands σ.copied := hs
          unfold hands at h
          rw [hphase] at h
          exact h
        exact hrelays.claim hmem hpending
      · exact hs.turn rfl rfl rfl rfl (List.nil_sublist _)
    · exact hs.turn rfl rfl rfl rfl (List.nil_sublist _)
  · exact hs

/-- The runner keeps the invariant. -/
lemma Singly.runner (hs : σ.Singly) (a : RunnerAct) : (σ.runner a).Singly := by
  have hself : Single σ.tables.items σ.tables.nextItem (σ.phase.held ++ σ.relays) σ.copied := hs
  cases a with
  | insertItems ok => exact hs.insertItems ok
  | claimNextItem ok => exact hs.claimNextItem ok
  | download failure =>
    dsimp only [Importer.runner, Importer.download]
    split
    · case h_1 job item hphase =>
      rw [hphase] at hself
      split
      · exact hself.fewer (List.perm_append_comm : (σ.relays ++ [item]).Perm ([item] ++ σ.relays)).subperm
      · refine hs.turn rfl rfl rfl rfl ?_
        rw [hphase]
        split <;> exact List.Sublist.refl _
    · exact hs
  | finishItem ok =>
    dsimp only [Importer.runner, Importer.finishItem]
    split
    · case h_1 job item status lastError hphase =>
      rw [hphase] at hself
      split
      · exact hself.putDown fun _ => ⟨rfl, rfl, rfl⟩
      · exact hs.turn rfl rfl rfl rfl (List.nil_sublist _)
    · exact hs
  | releaseItem ok =>
    dsimp only [Importer.runner, Importer.releaseItem]
    split
    · case h_1 job item stop hphase =>
      rw [hphase] at hself
      have hheld : (RunnerPhase.released job stop).held = [] := by
        cases stop <;> rfl
      cases ok with
      | false => exact hs.turn rfl rfl rfl rfl (by rw [hheld]; exact List.nil_sublist _)
      | true =>
        have hput := hself.putDown (g := fun it =>
          { it with status := .pending, attempts := it.attempts - 1 }) fun _ => ⟨rfl, rfl, rfl⟩
        unfold Singly hands
        rw [hheld]
        exact hput
    · exact hs
  | _ => exact hs.plain nofun nofun nofun nofun nofun

/-- So does a relay. -/
lemma Singly.relay (hs : σ.Singly) (item : ImportItem) (failure : Option String) (ok : Bool) :
    (σ.relay item failure ok).Singly := by
  unfold Importer.relay
  split
  · case isTrue hin =>
    have hout : Single σ.tables.items σ.tables.nextItem (item :: (σ.phase.held ++ σ.relays.erase item))
        σ.copied := by
      refine Single.fewer hs (List.Perm.subperm ?_)
      exact (((List.perm_cons_erase hin).append_left _).trans List.perm_middle).symm
    dsimp only
    split
    · split
      · exact hout.copy (fun _ => ⟨rfl, rfl, rfl⟩) fun _ => rfl
      · exact hout.putDown fun _ => ⟨rfl, rfl, rfl⟩
    · exact hout.fewer (List.sublist_cons_self _ _).subperm
  · exact hs

/-- What was in progress waits again, when no task works on it. -/
lemma Singly.start (hs : σ.Singly) (hdown : σ.phase = .down) (halone : σ.relays = []) (ok : Bool) :
    Singly { σ with tables := if ok then σ.tables.requeueInProgress else σ.tables, phase := .idle } := by
  cases ok with
  | false => exact hs.turn rfl rfl rfl rfl (List.nil_sublist _)
  | true =>
    have hnone : σ.hands = [] := by
      unfold hands
      rw [hdown, halone]
      rfl
    have h : Single σ.tables.items σ.tables.nextItem σ.hands σ.copied := hs
    rw [hnone] at h
    have hmap : Single σ.tables.requeueInProgress.items σ.tables.nextItem [] σ.copied := by
      refine h.map (fun it => ?_) (List.forall_mem_nil _) fun it hit hn => ?_
      · unfold Tables.requeued
        split <;> exact ⟨rfl, rfl, rfl⟩
      · have hdone := h.kept it hit hn
        unfold Tables.requeued
        rw [if_neg fun hprogress => by rw [hdone] at hprogress; cases hprogress]
    unfold Singly hands
    rw [halone]
    exact hmap

/-- A statement of a call puts failed files back, or takes a job away. -/
lemma Singly.serve (hs : σ.Singly) (c : ApiCall) (ok : Bool) : (σ.serve c ok).Singly := by
  unfold Importer.serve
  split
  · dsimp only
    split
    · cases c with
      | move id from_ to_ => exact hs.turn rfl rfl rfl rfl (List.Sublist.refl _)
      | setSecret id secret to_ => exact hs.turn rfl rfl rfl rfl (List.Sublist.refl _)
      | retryFailed id to_ =>
        have hsame : ∀ it : ImportItem, it.status ≠ .failed → Tables.retried id it = it := fun it hne =>
          if_neg fun h => hne h.2
        refine Single.map hs (fun it => ?_) (fun x hx it hit hid => ?_) fun it hit hn => ?_
        · unfold Tables.retried
          split <;> exact ⟨rfl, rfl, rfl⟩
        · rw [hsame it (by rw [hs.held x hx it hit hid]; exact nofun)]
        · rw [hsame it (by rw [hs.kept it hit hn]; exact nofun)]
      | deleteItems id => exact Single.sublist hs List.filter_sublist
      | deleteJob id => exact Single.sublist hs List.filter_sublist
    · exact hs.turn rfl rfl rfl rfl (List.Sublist.refl _)
  · exact hs

/-- Every step keeps it but a start beside relays of an earlier one. -/
lemma Singly.step (hs : σ.Singly) {a : ImportAct} (ha : σ.StartsAlone a) : (σ.step a).Singly := by
  cases a with
  | create targetPath secret now => exact hs.turn rfl rfl rfl rfl (List.Sublist.refl _)
  | start ok =>
    dsimp only [Importer.step]
    split
    · case isTrue hdown => exact hs.start hdown (ha hdown) ok
    · exact hs
  | panic => exact hs.turn rfl rfl rfl rfl (List.nil_sublist _)
  | crash => exact Single.fewer hs List.nil_subperm
  | runner a => exact hs.runner a
  | relay item failure ok => exact hs.relay item failure ok
  | request id r =>
    dsimp only [Importer.step, Importer.request]
    split
    · exact hs.turn rfl rfl rfl rfl (List.Sublist.refl _)
    · exact hs
  | serve c ok => exact hs.serve c ok

def oneFile : List ImportAct :=
  [.start true, .create [] "pw" 0, .runner (.nextActiveJob true), .runner (.prepare none),
    .runner (.getJob true), .runner (.list (.ok [⟨"a.jpg".toList, false, 3, none⟩])),
    .runner (.insertItems true), .runner (.finishScan true), .runner (.nextActiveJob true),
    .runner (.prepare none), .runner (.claimNextItem true), .runner (.place none),
    .runner (.spoolAdmits .admitted), .runner (.download none), .runner .spooled]

/-- The runner starts again, takes the file up if it waits, and leaves it to a relay. -/
def again : List ImportAct :=
  [.panic, .start true, .runner (.nextActiveJob true), .runner (.prepare none), .runner (.claimNextItem true),
    .runner (.place none), .runner (.spoolAdmits .admitted), .runner (.download none), .runner .spooled]

def report (attempts : Nat) : ImportAct :=
  .relay ⟨0, 0, "a.jpg".toList, 3, none, .inProgress, attempts, none⟩ none true

/-- Beside a relay of an earlier start, the file is copied once more. -/
example : (run step fresh (oneFile ++ again ++ [report 1, report 2])).copied = [0, 0] := by
  decide

end Importer

end ImportJobs
end Sarca.Server
