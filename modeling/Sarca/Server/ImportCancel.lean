import Sarca.Server.ImportJobs

/-!
# A cancel is final

What a run does to a job that is cancelled, with no condition on its steps: restarts, statements that fail and
calls that overtake each other (`cancel_is_final`).
-/

namespace Sarca.Server
open Sarca.Lib

namespace ImportJobs
open ImportScan

namespace Importer

variable {σ τ : Importer} {t : Tables} {id : Uuid}

/-- The runner has read the job and may still claim an item of it. -/
def mayClaim (id : Uuid) (p : RunnerPhase) : Nat :=
  match p with
  | .preparing job | .claiming job => if job.id = id then 1 else 0
  | _ => 0

/-- What the runner is about to write does not touch a job that is cancelled. -/
def SparesCancelled : RunnerPhase → Prop
  | .failing _ from_ _ => .cancelled ∉ from_
  | _ => True

/-- Nothing under way moves a job that is cancelled. -/
structure Spares (σ : Importer) : Prop where
  jobIds : (σ.tables.jobs.map (·.id)).Nodup
  jobBelow : ∀ j ∈ σ.tables.jobs, j.id < σ.tables.nextJob
  calls : ∀ id from_ to_, .move id from_ to_ ∈ σ.calls → .cancelled ∉ from_
  phase : SparesCancelled σ.phase

/-- A step that leaves the jobs and the calls alone, and after which the runner may claim no more than
    before. -/
structure Quiet (σ τ : Importer) : Prop where
  jobs : τ.tables.jobs = σ.tables.jobs
  nextJob : τ.tables.nextJob = σ.tables.nextJob
  calls : τ.calls = σ.calls
  claims : τ.claims = σ.claims
  phase : SparesCancelled τ.phase
  may : ∀ id, mayClaim id τ.phase ≤ mayClaim id σ.phase

/-- What any step does to the jobs and to the claims. -/
structure Moves (σ τ : Importer) : Prop where
  jobs : ∀ j' ∈ τ.tables.jobs,
    (∃ j ∈ σ.tables.jobs, j.id = j'.id ∧ (j.status = .cancelled → j'.status = .cancelled)) ∨
      j'.id = σ.tables.nextJob
  nextJob : σ.tables.nextJob ≤ τ.tables.nextJob
  claims : ∀ id, (∀ j ∈ σ.tables.jobs, j.id = id → ¬ j.Active) →
    τ.claims.count id + mayClaim id τ.phase ≤ σ.claims.count id + mayClaim id σ.phase

lemma Quiet.spares (h : Quiet σ τ) (hs : σ.Spares) : τ.Spares where
  jobIds := h.jobs ▸ hs.jobIds
  jobBelow := by rw [h.jobs, h.nextJob]; exact hs.jobBelow
  calls := h.calls ▸ hs.calls
  phase := h.phase

lemma Quiet.moves (h : Quiet σ τ) : Moves σ τ where
  jobs := fun j hj => Or.inl ⟨j, h.jobs ▸ hj, rfl, fun hc => hc⟩
  nextJob := le_of_eq h.nextJob.symm
  claims := fun id _ => h.claims ▸ Nat.add_le_add_left (h.may id) _

lemma Quiet.both (hs : σ.Spares) (h : Quiet σ τ) : τ.Spares ∧ Moves σ τ :=
  ⟨h.spares hs, h.moves⟩

lemma quiet_turn {items : List ImportItem} {nextItem : Nat} {phase : RunnerPhase} {relays : List ImportItem}
    {copied skipped : List Nat}
    (hphase : SparesCancelled phase) (hmay : ∀ id, mayClaim id phase ≤ mayClaim id σ.phase) :
    Quiet σ { σ with
      tables := { σ.tables with items := items, nextItem := nextItem }
      phase := phase
      relays := relays
      copied := copied
      skipped := skipped } :=
  ⟨rfl, rfl, rfl, rfl, hphase, hmay⟩

lemma Quiet.refl (hs : σ.Spares) : Quiet σ σ :=
  ⟨rfl, rfl, rfl, rfl, hs.phase, fun _ => le_rfl⟩

lemma quiet_to {phase : RunnerPhase} (hphase : SparesCancelled phase) (hmay : ∀ id, mayClaim id phase = 0) :
    Quiet σ { σ with phase := phase } :=
  ⟨rfl, rfl, rfl, rfl, hphase, fun id => (hmay id).symm ▸ Nat.zero_le _⟩

lemma quiet_failing {job : ImportJob} {from_ : List JobStatus} {message : String} (h : .cancelled ∉ from_) :
    Quiet σ { σ with phase := .failing job from_ message } :=
  ⟨rfl, rfl, rfl, rfl, h, fun _ => Nat.zero_le _⟩

lemma quiet_nextDir {job : ImportJob} {found stack : List Path} :
    Quiet σ { σ with phase := .nextDir job found stack } := by
  cases stack with
  | nil => exact quiet_to trivial fun _ => rfl
  | cons dir stack => exact quiet_to trivial fun _ => rfl

lemma quiet_nextBatch {job : ImportJob} {stack found : List Path} {files : List NewImportItem} :
    Quiet σ { σ with phase := .nextBatch job stack found files } := by
  cases files with
  | nil => exact quiet_nextDir
  | cons file files => exact quiet_to trivial fun _ => rfl

lemma Quiet.trans {υ : Importer} (h : Quiet σ τ) (h' : Quiet τ υ) : Quiet σ υ :=
  ⟨h'.jobs.trans h.jobs, h'.nextJob.trans h.nextJob, h'.calls.trans h.calls, h'.claims.trans h.claims, h'.phase,
    fun id => (h'.may id).trans (h.may id)⟩

lemma quiet_items (hs : σ.Spares) {items : List ImportItem} {nextItem : Nat} {relays : List ImportItem}
    {copied skipped : List Nat} :
    Quiet σ { σ with
      tables := { σ.tables with items := items, nextItem := nextItem }
      relays := relays
      copied := copied
      skipped := skipped } :=
  ⟨rfl, rfl, rfl, rfl, hs.phase, fun _ => le_rfl⟩

lemma insertItems_rows (id : Uuid) (t : Tables) (batch : List NewImportItem) : ∃ items nextItem,
    t.insertItems id batch = { t with items := items, nextItem := nextItem } := by
  induction batch generalizing t with
  | nil => exact ⟨t.items, t.nextItem, rfl⟩
  | cons item batch ih =>
    obtain ⟨items, nextItem, h⟩ := ih (t.insertItem id item)
    refine ⟨items, nextItem, h.trans ?_⟩
    unfold Tables.insertItem
    split <;> rfl

/-- The acts of the runner that neither read nor write a job. -/
lemma quiet_runner (hs : σ.Spares) {a : RunnerAct} (hread : ∀ ok, a ≠ .nextActiveJob ok)
    (hscan : ∀ ok, a ≠ .finishScan ok) (hclaim : ∀ ok, a ≠ .claimNextItem ok)
    (hwrite : ∀ ok, a ≠ .transition ok) : Quiet σ (σ.runner a) := by
  cases a with
  | nextActiveJob ok => exact absurd rfl (hread ok)
  | finishScan ok => exact absurd rfl (hscan ok)
  | claimNextItem ok => exact absurd rfl (hclaim ok)
  | transition ok => exact absurd rfl (hwrite ok)
  | prepare refused =>
    dsimp only [Importer.runner, Importer.prepare]
    split
    · case h_1 job hphase =>
      split
      · exact quiet_failing (by decide)
      · exact quiet_failing (by decide)
      · split
        · exact quiet_nextDir
        · exact ⟨rfl, rfl, rfl, rfl, trivial, fun id => by rw [hphase]; exact le_rfl⟩
    · exact .refl hs
  | getJob ok =>
    dsimp only [Importer.runner, Importer.getJob]
    split
    · split
      · exact quiet_to trivial fun _ => rfl
      · exact quiet_to trivial fun _ => rfl
    · split
      · exact quiet_to trivial fun _ => rfl
      · exact quiet_to trivial fun _ => rfl
    · exact .refl hs
  | list answer =>
    dsimp only [Importer.runner, Importer.list]
    split
    · split
      · exact quiet_failing (by decide)
      · exact quiet_nextBatch
    · exact .refl hs
  | insertItems ok =>
    dsimp only [Importer.runner, Importer.insertItems]
    split
    · case h_1 job stack found files hphase =>
      split
      · obtain ⟨items, nextItem, hrows⟩ := insertItems_rows job.id σ.tables (files.take 200)
        rw [hrows]
        exact (quiet_items hs).trans quiet_nextBatch
      · exact quiet_failing (by decide)
    · exact .refl hs
  | isDrained ok =>
    dsimp only [Importer.runner, Importer.isDrained]
    split
    · split
      · exact quiet_to trivial fun _ => rfl
      · exact quiet_to trivial fun _ => rfl
    · exact .refl hs
  | countFailed ok =>
    dsimp only [Importer.runner, Importer.countFailed]
    split
    · exact quiet_to trivial fun _ => rfl
    · exact .refl hs
  | place existing =>
    dsimp only [Importer.runner, Importer.place]
    split
    · split
      · exact quiet_to trivial fun _ => rfl
      · split
        · exact quiet_to trivial fun _ => rfl
        · exact quiet_to trivial fun _ => rfl
    · exact .refl hs
  | spoolAdmits answer =>
    dsimp only [Importer.runner, Importer.spoolAdmits]
    split
    · split
      · exact quiet_to trivial fun _ => rfl
      · exact quiet_to trivial fun _ => rfl
      · exact quiet_to trivial fun _ => rfl
    · exact .refl hs
  | download failure =>
    dsimp only [Importer.runner, Importer.download]
    split
    · split
      · exact quiet_turn trivial fun _ => Nat.zero_le _
      · split
        · exact quiet_to trivial fun _ => rfl
        · exact quiet_to trivial fun _ => rfl
    · exact .refl hs
  | finishItem ok =>
    dsimp only [Importer.runner, Importer.finishItem]
    split
    · split
      · exact quiet_turn trivial fun _ => Nat.zero_le _
      · exact quiet_to trivial fun _ => rfl
    · exact .refl hs
  | releaseItem ok =>
    dsimp only [Importer.runner, Importer.releaseItem]
    split
    · case h_1 job item stop hphase =>
      have hitems : Quiet σ { σ with tables := if ok then σ.tables.releaseItem item.id else σ.tables } := by
        cases ok with
        | false => exact .refl hs
        | true => exact quiet_items hs
      refine hitems.trans ?_
      cases stop with
      | none => exact quiet_to trivial fun _ => rfl
      | some message => exact quiet_failing (by decide)
    · exact .refl hs
  | spooled =>
    dsimp only [Importer.runner, Importer.spooled]
    split
    · exact quiet_to trivial fun _ => rfl
    · exact .refl hs

lemma moves_of_jobs (hjobs : ∀ j' ∈ τ.tables.jobs, ∃ j ∈ σ.tables.jobs, j.id = j'.id ∧
      (j.status = .cancelled → j'.status = .cancelled))
    (hnext : τ.tables.nextJob = σ.tables.nextJob) (hclaims : τ.claims = σ.claims)
    (hmay : ∀ id, mayClaim id τ.phase ≤ mayClaim id σ.phase) : Moves σ τ where
  jobs := fun j hj => Or.inl (hjobs j hj)
  nextJob := le_of_eq hnext.symm
  claims := fun id _ => hclaims ▸ Nat.add_le_add_left (hmay id) _

section Job

variable {g : ImportJob → ImportJob}

lemma updateJob_moves (hid : ∀ j, (g j).id = j.id)
    (hg : ∀ j, j.status = .cancelled → (g j).status = .cancelled) :
    ∀ j' ∈ (t.updateJob id g).jobs, ∃ j ∈ t.jobs, j.id = j'.id ∧
      (j.status = .cancelled → j'.status = .cancelled) := by
  refine List.forall_mem_map.mpr fun j hj => ⟨j, hj, ?_⟩
  split
  · exact ⟨(hid j).symm, hg j⟩
  · exact ⟨rfl, fun h => h⟩

lemma updateJob_ids (hid : ∀ j, (g j).id = j.id) : (t.updateJob id g).jobs.map (·.id) = t.jobs.map (·.id) := by
  unfold Tables.updateJob
  rw [List.map_map]
  refine List.map_congr_left fun j _ => ?_
  rw [Function.comp_apply]
  split
  · exact hid j
  · rfl

end Job

lemma transition_spares {from_ : List JobStatus} {to_ : JobStatus} {lastError : Option String}
    (h : .cancelled ∉ from_) (j : ImportJob) (hj : j.status = .cancelled) :
    (if j.status ∈ from_ then { j with status := to_, lastError := lastError } else j).status = .cancelled := by
  rw [if_neg (hj ▸ h)]
  exact hj

lemma Spares.of_ids (hs : σ.Spares) (hids : (τ.tables.jobs.map (·.id)).Sublist (σ.tables.jobs.map (·.id)))
    (hnext : τ.tables.nextJob = σ.tables.nextJob)
    (hcalls : ∀ id from_ to_, .move id from_ to_ ∈ τ.calls → .cancelled ∉ from_)
    (hphase : SparesCancelled τ.phase) : τ.Spares where
  jobIds := hs.jobIds.sublist hids
  jobBelow := by
    intro j hj
    obtain ⟨j', hj', hid⟩ := List.mem_map.mp (hids.subset (List.mem_map_of_mem hj))
    rw [hnext, ← hid]
    exact hs.jobBelow j' hj'
  calls := hcalls
  phase := hphase

/-- The acts of the runner that read or write a job. -/
lemma Spares.runner (hs : σ.Spares) (a : RunnerAct) : (σ.runner a).Spares ∧ Moves σ (σ.runner a) := by
  cases a with
  | nextActiveJob ok =>
    dsimp only [Importer.runner, Importer.nextActiveJob]
    split
    · split
      · case h_1 job hread =>
        refine ⟨⟨hs.jobIds, hs.jobBelow, hs.calls, trivial⟩, fun j hj => Or.inl ⟨j, hj, rfl, fun h => h⟩,
          le_rfl, ?_⟩
        intro id hstopped
        -- a job that is read is active
        have hactive : job ∈ σ.tables.jobs ∧ job.Active := by
          cases ok with
          | false => cases hread
          | true => exact nextActiveJob_spec hread
        have hne : job.id ≠ id := fun heq => hstopped job hactive.1 heq hactive.2
        have hzero : mayClaim id (.preparing job) = 0 := if_neg hne
        show σ.claims.count id + mayClaim id (.preparing job) ≤ _
        rw [hzero]
        exact Nat.le_add_right _ _
      · exact Quiet.both hs (.refl hs)
    · exact Quiet.both hs (.refl hs)
  | finishScan ok =>
    dsimp only [Importer.runner, Importer.finishScan]
    split
    · case h_1 job found hphase =>
      split
      · have hid : ∀ j : ImportJob,
            (if j.status = .scanning then { j with scanned := true, status := .running } else j).id = j.id := by
          intro j
          split <;> rfl
        refine ⟨hs.of_ids ?_ rfl hs.calls trivial, moves_of_jobs (updateJob_moves hid fun j hj => ?_) rfl rfl
          fun _ => Nat.zero_le _⟩
        · exact (updateJob_ids hid).symm ▸ List.Sublist.refl _
        · rw [if_neg (by rw [hj]; exact nofun)]
          exact hj
      · exact Quiet.both hs (quiet_to trivial fun _ => rfl)
    · exact Quiet.both hs (.refl hs)
  | claimNextItem ok =>
    dsimp only [Importer.runner, Importer.claimNextItem]
    split
    · case h_1 job hphase =>
      split
      · split
        · case h_1 tables item hclaim =>
          obtain ⟨it, -, heq⟩ := Option.map_eq_some_iff.mp hclaim
          cases heq
          refine ⟨⟨hs.jobIds, hs.jobBelow, hs.calls, trivial⟩, fun j hj => Or.inl ⟨j, hj, rfl, fun h => h⟩,
            le_rfl, ?_⟩
          intro id _
          rw [hphase]
          unfold mayClaim
          rw [List.count_append, List.count_singleton, Nat.add_zero]
          by_cases hid : job.id = id
          · simp [hid]
          · simp [hid]
        · exact Quiet.both hs (quiet_to trivial fun _ => rfl)
      · exact Quiet.both hs (quiet_to trivial fun _ => rfl)
    · exact Quiet.both hs (.refl hs)
  | transition ok =>
    have hwrite : ∀ (id : Uuid) (from_ : List JobStatus) (to_ : JobStatus) (lastError : Option String),
        .cancelled ∉ from_ →
        Spares { σ with
          tables := if ok then σ.tables.transition id from_ to_ lastError else σ.tables
          phase := .idle } ∧
        Moves σ { σ with
          tables := if ok then σ.tables.transition id from_ to_ lastError else σ.tables
          phase := .idle } := by
      intro id from_ to_ lastError hfrom
      cases ok with
      | false => exact Quiet.both hs (quiet_to trivial fun _ => rfl)
      | true =>
        have hid : ∀ j : ImportJob,
            (if j.status ∈ from_ then { j with status := to_, lastError := lastError } else j).id = j.id := by
          intro j
          split <;> rfl
        refine ⟨hs.of_ids ?_ rfl hs.calls trivial, moves_of_jobs (updateJob_moves hid fun j hj => ?_) rfl rfl
          fun _ => Nat.zero_le _⟩
        · exact (updateJob_ids hid).symm ▸ List.Sublist.refl _
        · exact transition_spares hfrom j hj
    dsimp only [Importer.runner, Importer.transition]
    split
    · case h_1 job from_ message hphase =>
      have hfrom := hs.phase
      rw [hphase] at hfrom
      exact hwrite job.id from_ .failed (some message) hfrom
    · case h_2 job note hphase => exact hwrite job.id [.running] .done note (by decide)
    · exact Quiet.both hs (.refl hs)
  | _ => exact Quiet.both hs (quiet_runner hs nofun nofun nofun nofun)

lemma call_spares {job : ImportJob} {r : ApiRequest} {from_ : List JobStatus} {to_ : JobStatus}
    (h : .move id from_ to_ ∈ call job r) : .cancelled ∉ from_ := by
  cases r with
  | pause =>
    cases h
    decide
  | cancel =>
    cases h
    decide
  | retry => cases h
  | delete =>
    dsimp only [Importer.call] at h
    split at h
    · cases h
    · cases h
  | resume password =>
    dsimp only [Importer.call] at h
    split at h
    · cases h
    · split at h
      · cases h
      · cases h
        decide

lemma Spares.request (hs : σ.Spares) (id : Uuid) (r : ApiRequest) :
    (σ.request id r).Spares ∧ Moves σ (σ.request id r) := by
  unfold Importer.request
  split
  · case h_1 job hjob =>
    refine ⟨⟨hs.jobIds, hs.jobBelow, ?_, hs.phase⟩, fun j hj => Or.inl ⟨j, hj, rfl, fun h => h⟩, le_rfl,
      fun _ _ => le_rfl⟩
    intro id' from_ to_ h
    cases List.mem_append.mp h with
    | inl hold => exact hs.calls id' from_ to_ hold
    | inr hnew => exact call_spares (Option.mem_toList.mp hnew)
  · exact Quiet.both hs (.refl hs)

/-- A call writes jobs as a transition does, or takes them away. -/
lemma Spares.serve (hs : σ.Spares) (c : ApiCall) (ok : Bool) : (σ.serve c ok).Spares ∧
    Moves σ (σ.serve c ok) := by
  have hrest : ∀ id from_ to_, .move id from_ to_ ∈ σ.calls.erase c → .cancelled ∉ from_ :=
    fun id from_ to_ h => hs.calls id from_ to_ (List.mem_of_mem_erase h)
  have hadd : ∀ d, (∀ id from_ to_, d = .move id from_ to_ → .cancelled ∉ from_) →
      ∀ id from_ to_, .move id from_ to_ ∈ σ.calls.erase c ++ [d] → .cancelled ∉ from_ := by
    intro d hd id from_ to_ h
    cases List.mem_append.mp h with
    | inl hold => exact hrest id from_ to_ hold
    | inr hnew => exact hd id from_ to_ (List.mem_singleton.mp hnew).symm
  have hsame : ∀ j ∈ σ.tables.jobs,
      (∃ i ∈ σ.tables.jobs, i.id = j.id ∧ (i.status = .cancelled → j.status = .cancelled)) ∨
        j.id = σ.tables.nextJob := fun j hj => Or.inl ⟨j, hj, rfl, fun h => h⟩
  unfold Importer.serve
  split
  · case isTrue hin =>
    dsimp only
    split
    · cases c with
      | move id from_ to_ =>
        have hid : ∀ j : ImportJob,
            (if j.status ∈ from_ then { j with status := to_, lastError := none } else j).id = j.id := by
          intro j
          split <;> rfl
        refine ⟨hs.of_ids ?_ rfl hrest hs.phase, moves_of_jobs (updateJob_moves hid fun j hj => ?_) rfl rfl
          fun _ => le_rfl⟩
        · exact (updateJob_ids hid).symm ▸ List.Sublist.refl _
        · exact transition_spares (hs.calls _ _ _ hin) j hj
      | setSecret id secret to_ =>
        refine ⟨hs.of_ids ?_ rfl (hadd _ ?_) hs.phase,
          moves_of_jobs (updateJob_moves (fun _ => rfl) fun j hj => hj) rfl
          rfl fun _ => le_rfl⟩
        · have hids : (σ.tables.setSecret id secret).jobs.map (·.id) = σ.tables.jobs.map (·.id) :=
            updateJob_ids fun _ => rfl
          exact hids.symm ▸ List.Sublist.refl _
        · rintro _ _ _ ⟨⟩
          decide
      | retryFailed id to_ =>
        refine ⟨⟨hs.jobIds, hs.jobBelow, ?_, hs.phase⟩, hsame, le_rfl, fun _ _ => le_rfl⟩
        cases to_ with
        | none => exact fun id from_ to_ h => hrest id from_ to_ (by simpa using h)
        | some to_ =>
          refine hadd _ ?_
          rintro _ _ _ ⟨⟩
          decide
      | deleteItems id =>
        refine ⟨⟨hs.jobIds, hs.jobBelow, hadd _ ?_, hs.phase⟩, hsame, le_rfl, fun _ _ => le_rfl⟩
        rintro _ _ _ ⟨⟩
      | deleteJob id =>
        refine ⟨hs.of_ids (List.filter_sublist.map _) rfl hrest hs.phase, fun j hj => ?_, le_rfl,
          fun _ _ => le_rfl⟩
        exact hsame j (List.mem_of_mem_filter hj)
    · exact ⟨⟨hs.jobIds, hs.jobBelow, hrest, hs.phase⟩, hsame, le_rfl, fun _ _ => le_rfl⟩
  · exact Quiet.both hs (.refl hs)

lemma Spares.step (hs : σ.Spares) (a : ImportAct) : (σ.step a).Spares ∧ Moves σ (σ.step a) := by
  cases a with
  | create targetPath secret now =>
    have hjobs : ∀ j ∈ (σ.tables.createJob targetPath secret now).jobs, j ∈ σ.tables.jobs ∨
        j.id = σ.tables.nextJob := by
      intro j hj
      exact (List.mem_append.mp hj).imp_right fun hnew => congrArg ImportJob.id (List.mem_singleton.mp hnew)
    refine ⟨⟨?_, ?_, hs.calls, hs.phase⟩, fun j hj => ?_, Nat.le_succ _, fun _ _ => le_rfl⟩
    · dsimp only [Importer.step, Tables.createJob]
      rw [List.map_append, List.nodup_append]
      refine ⟨hs.jobIds, List.nodup_singleton _, ?_⟩
      intro id hid id' hid' heq
      obtain ⟨j, hj, rfl⟩ := List.mem_map.mp hid
      have hlt := hs.jobBelow j hj
      rw [heq, List.mem_singleton.mp hid'] at hlt
      exact Nat.lt_irrefl _ hlt
    · intro j hj
      cases hjobs j hj with
      | inl hold => exact Nat.lt_succ_of_lt (hs.jobBelow j hold)
      | inr hnew => exact hnew ▸ Nat.lt_succ_self _
    · exact (hjobs j hj).imp_left fun hold => ⟨j, hold, rfl, fun h => h⟩
  | start ok =>
    dsimp only [Importer.step]
    split
    · have hitems : Quiet σ { σ with tables := if ok then σ.tables.requeueInProgress else σ.tables } := by
        cases ok with
        | false => exact .refl hs
        | true => exact quiet_items hs
      exact Quiet.both hs (hitems.trans (quiet_to trivial fun _ => rfl))
    · exact Quiet.both hs (.refl hs)
  | panic => exact Quiet.both hs (quiet_to trivial fun _ => rfl)
  | crash =>
    refine ⟨⟨hs.jobIds, hs.jobBelow, fun _ _ _ h => absurd h List.not_mem_nil, trivial⟩,
      fun j hj => Or.inl ⟨j, hj, rfl, fun h => h⟩, le_rfl, fun id _ => ?_⟩
    exact Nat.add_le_add_left (Nat.zero_le _) _
  | runner a => exact hs.runner a
  | relay item failure ok =>
    refine Quiet.both hs ?_
    dsimp only [Importer.step, Importer.relay]
    split
    · split
      · cases failure with
        | none => exact quiet_items hs
        | some message => exact quiet_items hs
      · exact ⟨rfl, rfl, rfl, rfl, hs.phase, fun _ => le_rfl⟩
    · exact .refl hs
  | request id r => exact hs.request id r
  | serve c ok => exact hs.serve c ok

lemma Spares.fresh : fresh.Spares :=
  ⟨List.nodup_nil, List.forall_mem_nil _, fun _ _ _ h => absurd h List.not_mem_nil, trivial⟩

/-- The job was made, and where it still is it is cancelled. -/
def IsCancelled (id : Uuid) (σ : Importer) : Prop :=
  id < σ.tables.nextJob ∧ ∀ j ∈ σ.tables.jobs, j.id = id → j.status = .cancelled

lemma Moves.cancelled (h : Moves σ τ) (hc : IsCancelled id σ) : IsCancelled id τ := by
  refine ⟨Nat.lt_of_lt_of_le hc.1 h.nextJob, fun j' hj' hid => ?_⟩
  cases h.jobs j' hj' with
  | inl hold =>
    obtain ⟨j, hj, hid', hkept⟩ := hold
    exact hkept (hc.2 j hj (hid'.trans hid))
  | inr hnew => exact absurd (hid.symm.trans hnew) (Nat.ne_of_lt hc.1)

lemma run_cancelled (hs : σ.Spares) (hc : IsCancelled id σ) (acts : List ImportAct) :
    IsCancelled id (run step σ acts) ∧ (run step σ acts).claims.count id + mayClaim id (run step σ acts).phase ≤
      σ.claims.count id + mayClaim id σ.phase := by
  induction acts generalizing σ with
  | nil => exact ⟨hc, le_rfl⟩
  | cons a acts ih =>
    obtain ⟨hs', hmoves⟩ := hs.step a
    obtain ⟨hrest, hcount⟩ := ih hs' (hmoves.cancelled hc)
    refine ⟨hrest, hcount.trans (hmoves.claims id fun j hj hid hactive => ?_)⟩
    have hstatus := hc.2 j hj hid
    cases hactive with
    | inl h => rw [hstatus] at h; cases h
    | inr h => rw [hstatus] at h; cases h

lemma mayClaim_le (id : Uuid) (p : RunnerPhase) : mayClaim id p ≤ 1 := by
  unfold mayClaim
  split
  · split <;> decide
  · split <;> decide
  · exact Nat.zero_le 1

/-- A cancel is final: in every run, a job that is cancelled stays so as long as it is there, and at most one
    more of its files is taken up, by a runner that had read the job before. -/
theorem cancel_is_final {acts : List ImportAct} {j : ImportJob} (hj : j ∈ (run step fresh acts).tables.jobs)
    (hcancelled : j.status = .cancelled) (later : List ImportAct) :
    (∀ j' ∈ (run step fresh (acts ++ later)).tables.jobs, j'.id = j.id → j'.status = .cancelled) ∧
      (run step fresh (acts ++ later)).claims.count j.id ≤ (run step fresh acts).claims.count j.id + 1 := by
  have hs : (run step fresh acts).Spares := run_invariant (I := Spares)
    (fun _ a hs => (hs.step a).1) Spares.fresh acts
  have hc : IsCancelled j.id (run step fresh acts) := by
    refine ⟨hs.jobBelow j hj, fun j' hj' hid => ?_⟩
    rw [List.inj_on_of_nodup_map hs.jobIds hj' hj hid]
    exact hcancelled
  obtain ⟨hstays, hcount⟩ := run_cancelled hs hc later
  rw [run_append]
  refine ⟨hstays.2, ?_⟩
  have hmay := mayClaim_le j.id (run step fresh acts).phase
  omega

/-- A job that is cancelled between the runner's look at it and its claim. -/
def lateCancel : List ImportAct :=
  [.start true, .create [] "pw" 0, .runner (.nextActiveJob true), .runner (.prepare none),
    .runner (.getJob true), .runner (.list (.ok [⟨"a.jpg".toList, false, 3, none⟩])),
    .runner (.insertItems true), .runner (.finishScan true), .runner (.nextActiveJob true), .request 0 .cancel,
    .serve (.move 0 [.scanning, .running, .paused] .cancelled) true]

def lateClaim : List ImportAct :=
  [.runner (.prepare none), .runner (.claimNextItem true)]

theorem lateCancel_final : (run step fresh (lateCancel ++ lateClaim)).claims = [0] ∧
    (run step fresh (lateCancel ++ lateClaim)).claims.count 0 ≤
      (run step fresh lateCancel).claims.count 0 + 1 :=
  ⟨by decide, (cancel_is_final (j := ⟨0, [], some "pw", true, .cancelled, none, 0⟩)
    (by decide) rfl lateClaim).2⟩

end Importer

end ImportJobs
end Sarca.Server
