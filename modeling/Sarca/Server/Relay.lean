import Sarca.Server.Resume

/-!
# One relay for each row

`RELAYS_IN_FLIGHT` is read when a request chooses its row and written when the request enters
`upload_from_path`; a `RelayGuard` takes the mark off when it is dropped, whosever relay is running.
`OneRelay` asks that a row has at most one relay and is marked just while it has one; a mark that the
end of another request cleared would be missing. `one_relay_iff`: in any interleaving of requests that
is so just as long as no request takes the guard of a row whose relay is under way, and no task is
aborted whose relay the storage manager has.
-/

namespace Sarca.Server
open Sarca.Lib

/-- A row has at most one relay, and is marked just while it has one. -/
structure OneRelay (σ : Process) : Prop where
  alone : ∀ u ∈ σ.uploads, ∀ v ∈ σ.uploads, ∀ fileId,
    u.standing.relays = some fileId → v.standing.relays = some fileId → u = v
  marked : ∀ fileId, σ.RelayInFlight fileId ↔ σ.RelayRuns fileId

/-- A guard is taken for a row without a relay. -/
def AloneAct (σ : Process) (u : Upload) : Act → Prop
  | .begin => match u.phase with
    | .starting file => ¬ σ.RelayRuns file.id
    | _ => True
  | _ => True

/-- A guard is taken for a row without a relay, and dropped when the relay is over. -/
def Alone (σ : Process) : Step → Prop
  | .act number a => ∀ u ∈ σ.upload? number, AloneAct σ u a
  | .disconnect number handed =>
    ∀ u ∈ σ.upload? number, u.gone = false → u.phase.goesOn handed = false
  | _ => True

instance (σ : Process) (u : Upload) (a : Act) : Decidable (AloneAct σ u a) := by
  induction a using Act.casesOn with
  | begin =>
    induction u using Upload.casesOn with
    | mk number request phase gone =>
      induction phase using Phase.casesOn with
      | starting file => exact instDecidableNot
      | _ => exact isTrue trivial
  | _ => exact isTrue trivial

instance (σ : Process) (a : Step) : Decidable (Alone σ a) := by
  induction a using Step.casesOn with
  | act number a => exact decideMem _ _
  | disconnect number handed => exact decideMem _ _
  | _ => exact isTrue trivial

/-! ## One request among the others -/

namespace Process

def others (σ : Process) (number : Nat) : List Upload :=
  σ.uploads.filter fun v => v.number ≠ number

variable {σ : Process} {u : Upload} {number : Nat}

lemma mem_uploads_iff (h : σ.Numbered) (hu : u ∈ σ.uploads) {v : Upload} :
    v ∈ σ.uploads ↔ v = u ∨ v ∈ σ.others u.number := by
  rw [others, List.mem_filter, decide_eq_true_iff]
  constructor
  · intro hv
    by_cases hn : v.number = u.number
    · exact Or.inl (h v hv u hu hn)
    · exact Or.inr ⟨hv, hn⟩
  · rintro (rfl | ⟨hv, -⟩)
    · exact hu
    · exact hv

lemma relayRuns_iff (h : σ.Numbered) (hu : u ∈ σ.uploads) (fileId : Uuid) :
    σ.RelayRuns fileId ↔ u.standing.relays = some fileId ∨
      ∃ v ∈ σ.others u.number, v.standing.relays = some fileId := by
  constructor
  · rintro ⟨v, hv, hrelays⟩
    cases (mem_uploads_iff h hu).mp hv with
    | inl heq => exact Or.inl (heq ▸ hrelays)
    | inr hv => exact Or.inr ⟨v, hv, hrelays⟩
  · rintro (hrelays | ⟨v, hv, hrelays⟩)
    · exact ⟨u, hu, hrelays⟩
    · exact ⟨v, (mem_uploads_iff h hu).mpr (Or.inr hv), hrelays⟩

lemma others_map (us : List Upload) (number : Nat) {f : Upload → Upload}
    (hf : ∀ v, (f v).number = v.number) :
    (us.map fun v => if v.number = number then f v else v).filter (fun v => v.number ≠ number) =
      us.filter fun v => v.number ≠ number := by
  induction us with
  | nil => rfl
  | cons v us ih =>
    rw [List.map_cons]
    by_cases hv : v.number = number
    · rw [if_pos hv, List.filter_cons_of_neg, List.filter_cons_of_neg, ih]
      · simp [hv]
      · simp [hf, hv]
    · rw [if_neg hv, List.filter_cons_of_pos, List.filter_cons_of_pos, ih]
      · simp [hv]
      · simp [hv]

end Process

def AloneAmong (us : List Upload) : Prop :=
  ∀ v ∈ us, ∀ w ∈ us, ∀ fileId,
    v.standing.relays = some fileId → w.standing.relays = some fileId → v = w

variable {σ τ : Process} {u u' : Upload}

lemma oneRelay_iff (h : σ.Numbered) (hu : u ∈ σ.uploads) :
    OneRelay σ ↔ AloneAmong (σ.others u.number) ∧
      (∀ fileId, u.standing.relays = some fileId →
        ¬ ∃ v ∈ σ.others u.number, v.standing.relays = some fileId) ∧
      ∀ fileId, fileId ∈ σ.inFlight ↔ u.standing.relays = some fileId ∨
        ∃ v ∈ σ.others u.number, v.standing.relays = some fileId := by
  have hmem : ∀ {v}, v ∈ σ.others u.number → v ∈ σ.uploads ∧ v.number ≠ u.number := by
    intro v hv
    obtain ⟨hv, hn⟩ := List.mem_filter.mp hv
    exact ⟨hv, of_decide_eq_true hn⟩
  constructor
  · rintro ⟨halone, hmarked⟩
    refine ⟨?_, ?_, fun fileId => (hmarked fileId).trans (Process.relayRuns_iff h hu fileId)⟩
    · exact fun v hv w hw => halone v (hmem hv).1 w (hmem hw).1
    · rintro fileId hrelays ⟨v, hv, hother⟩
      exact (hmem hv).2 (by rw [halone v (hmem hv).1 u hu fileId hother hrelays])
  · rintro ⟨hamong, hself, hmarked⟩
    refine ⟨?_, fun fileId => (hmarked fileId).trans (Process.relayRuns_iff h hu fileId).symm⟩
    intro v hv w hw fileId hrv hrw
    cases (Process.mem_uploads_iff h hu).mp hv with
    | inl hvu =>
      cases (Process.mem_uploads_iff h hu).mp hw with
      | inl hwu => rw [hvu, hwu]
      | inr hw => exact absurd ⟨w, hw, hrw⟩ (hself fileId (hvu ▸ hrv))
    | inr hv =>
      cases (Process.mem_uploads_iff h hu).mp hw with
      | inl hwu => exact absurd ⟨v, hv, hrv⟩ (hself fileId (hwu ▸ hrw))
      | inr hw => exact hamong v hv w hw fileId hrv hrw

/-! ## What a step does to a request and its mark -/

structure Swap (σ τ : Process) (u u' : Upload) : Prop where
  numbered : σ.Numbered
  numbered' : τ.Numbered
  mem : u ∈ σ.uploads
  mem' : u' ∈ τ.uploads
  number : u'.number = u.number
  others : τ.others u.number = σ.others u.number

namespace Swap

lemma oneRelay_iff (s : Swap σ τ u u') :
    OneRelay τ ↔ AloneAmong (σ.others u.number) ∧
      (∀ fileId, u'.standing.relays = some fileId →
        ¬ ∃ v ∈ σ.others u.number, v.standing.relays = some fileId) ∧
      ∀ fileId, fileId ∈ τ.inFlight ↔ u'.standing.relays = some fileId ∨
        ∃ v ∈ σ.others u.number, v.standing.relays = some fileId := by
  rw [Sarca.Server.oneRelay_iff s.numbered' s.mem', s.number, s.others]

lemma keeps (s : Swap σ τ u u') (h : OneRelay σ)
    (hrelays : u'.standing.relays = u.standing.relays) (hmarks : τ.inFlight = σ.inFlight) :
    OneRelay τ := by
  rw [s.oneRelay_iff, hrelays, hmarks]
  exact (Sarca.Server.oneRelay_iff s.numbered s.mem).mp h

lemma ends (s : Swap σ τ u u') (h : OneRelay σ) {fileId : Uuid}
    (hbefore : u.standing.relays = some fileId) (hafter : u'.standing.relays = none)
    (hmarks : τ.inFlight = σ.inFlight.filter (· ≠ fileId)) : OneRelay τ := by
  obtain ⟨hamong, hself, hmarked⟩ := (Sarca.Server.oneRelay_iff s.numbered s.mem).mp h
  rw [s.oneRelay_iff, hafter, hmarks]
  refine ⟨hamong, fun id hno => absurd hno.symm (Option.some_ne_none id), fun id => ?_⟩
  rw [List.mem_filter, decide_eq_true_iff, hmarked, hbefore]
  constructor
  · rintro ⟨hrelays | hother, hne⟩
    · exact absurd (Option.some.inj hrelays).symm hne
    · exact Or.inr hother
  · rintro (hno | hother)
    · exact absurd hno.symm (Option.some_ne_none id)
    · refine ⟨Or.inr hother, ?_⟩
      rintro rfl
      exact hself id hbefore hother

lemma starts (s : Swap σ τ u u') (h : OneRelay σ) {fileId : Uuid}
    (hbefore : u.standing.relays = none) (hafter : u'.standing.relays = some fileId)
    (hmarks : τ.inFlight = fileId :: σ.inFlight.filter (· ≠ fileId)) :
    OneRelay τ ↔ ¬ σ.RelayRuns fileId := by
  obtain ⟨hamong, -, hmarked⟩ := (Sarca.Server.oneRelay_iff s.numbered s.mem).mp h
  rw [s.oneRelay_iff, Process.relayRuns_iff s.numbered s.mem, hbefore, hafter, hmarks]
  constructor
  · rintro ⟨-, hself, -⟩ (hno | hother)
    · exact absurd hno.symm (Option.some_ne_none fileId)
    · exact hself fileId rfl hother
  · intro hno
    refine ⟨hamong, ?_, fun id => ?_⟩
    · intro id hid hother
      exact hno (Or.inr (Option.some.inj hid ▸ hother))
    · rw [List.mem_cons, List.mem_filter, decide_eq_true_iff, hmarked, hbefore, Option.some.injEq,
        eq_comm (a := fileId)]
      constructor
      · rintro (heq | ⟨hno | hother, -⟩)
        · exact Or.inl heq
        · exact absurd hno.symm (Option.some_ne_none id)
        · exact Or.inr hother
      · rintro (heq | hother)
        · exact Or.inl heq
        · by_cases heq : id = fileId
          · exact Or.inl heq
          · exact Or.inr ⟨Or.inr hother, heq⟩

lemma declines (s : Swap σ τ u u') (h : OneRelay σ) {fileId : Uuid}
    (hbefore : u.standing.relays = none) (hafter : u'.standing.relays = none)
    (hmarks : τ.inFlight = σ.inFlight.filter (· ≠ fileId)) :
    OneRelay τ ↔ ¬ σ.RelayRuns fileId := by
  obtain ⟨hamong, -, hmarked⟩ := (Sarca.Server.oneRelay_iff s.numbered s.mem).mp h
  rw [s.oneRelay_iff, Process.relayRuns_iff s.numbered s.mem, hbefore, hafter, hmarks]
  constructor
  · rintro ⟨-, -, hmarked'⟩ hruns
    have hgone := (hmarked' fileId).mpr hruns
    exact of_decide_eq_true (List.mem_filter.mp hgone).2 rfl
  · intro hno
    refine ⟨hamong, fun id hno => absurd hno.symm (Option.some_ne_none id), fun id => ?_⟩
    rw [List.mem_filter, decide_eq_true_iff, hmarked, hbefore]
    constructor
    · exact fun hid => hid.1
    · intro hother
      refine ⟨hother, ?_⟩
      rintro rfl
      exact hno hother

lemma not_marked (s : Swap σ τ u u') {fileId : Uuid} (hafter : u'.standing.relays = some fileId)
    (hmarks : τ.inFlight = σ.inFlight.filter (· ≠ fileId)) : ¬ OneRelay τ := by
  intro h
  obtain ⟨-, -, hmarked⟩ := s.oneRelay_iff.mp h
  have hin := (hmarked fileId).mpr (Or.inl hafter)
  rw [hmarks] at hin
  exact of_decide_eq_true (List.mem_filter.mp hin).2 rfl

end Swap

def AbortedAnswered (σ : Process) : Prop :=
  ∀ u ∈ σ.uploads, u.gone = true → ∃ result, u.phase = .answered result

lemma standing_of_not_gone (number : Nat) (r : UploadRequest) (phase : Phase) :
    (Upload.mk number r phase false).standing = phase := by
  cases phase with
  | marking file again => cases again <;> rfl
  | _ => rfl

lemma relays_of_act {a : Act} {o : Outcome} (ho : σ.act u a = some o) :
    o.phase.relays = none ∨ o.phase.relays = u.phase.relays ∨
      ∃ file, u.phase = .starting file ∧ o.phase.relays = some file.id := by
  cases Process.act_moves ho with
  | @turn phase ht =>
    show phase.relays = none ∨ phase.relays = u.phase.relays ∨ _
    generalize u.phase = p at ht
    cases ht with
    | queue => exact Or.inr (Or.inr ⟨_, rfl, rfl⟩)
    | failQueued | failSending | failMarking | giveUp => exact Or.inr (Or.inl rfl)
    | _ => exact Or.inl rfl
  | plan hp | send hp | refuse hp | link hp | linkFails hp =>
    rw [hp]
    exact Or.inr (Or.inl rfl)
  | @mark _ again _ hp =>
    rw [hp]
    cases again with
    | true => exact Or.inl rfl
    | false => exact Or.inr (Or.inl rfl)
  | _ => exact Or.inl rfl

lemma begin_of_starting {a : Act} {o : Outcome} (ho : σ.act u a = some o) {file : FileRow}
    (hp : u.phase = .starting file) : a = .begin := by
  cases a <;> simp only [Process.act, hp, reduceCtorEq] at ho
  rfl

section Remark

variable {inFlight : List Uuid} {number : Nat} {r : UploadRequest} {before after : Phase}

lemma remark_keeps (hstarting : ∀ file, before ≠ .starting file)
    (hrelays : after.relays = before.relays) :
    Process.remark inFlight ⟨number, r, before, false⟩ after = inFlight := by
  unfold Process.remark
  dsimp only
  rw [hrelays]
  cases before with
  | starting file => exact absurd rfl (hstarting file)
  | _ => rfl

lemma remark_ends (hstarting : ∀ file, before ≠ .starting file) {fileId : Uuid}
    (hbefore : before.relays = some fileId) (hafter : after.relays = none) :
    Process.remark inFlight ⟨number, r, before, false⟩ after =
      inFlight.filter (· ≠ fileId) := by
  unfold Process.remark
  dsimp only
  rw [hafter]
  cases before with
  | starting file => exact absurd rfl (hstarting file)
  | queued | sending | marking | failing | dropping =>
    cases hbefore
    rfl
  | _ => cases hbefore

end Remark

/-- A turn keeps the marks right just when it takes no guard that is taken. -/
lemma oneRelay_act {number : Nat} {a : Act} {o : Outcome} (hnumbered : σ.Numbered)
    (haborted : AbortedAnswered σ) (h : OneRelay σ) (hfind : σ.upload? number = some u)
    (ho : σ.act u a = some o) : OneRelay (σ.commit number o) ↔ AloneAct σ u a := by
  have hmem : u ∈ σ.uploads := List.mem_of_find?_eq_some hfind
  have hnumber : u.number = number := by simpa using List.find?_some hfind
  have hgone : u.gone = false := by
    cases hgone : u.gone with
    | false => rfl
    | true =>
      obtain ⟨result, hp⟩ := haborted u hmem hgone
      exact absurd (Process.not_answered ho hp) id
  obtain ⟨n, r, phase, gone⟩ := u
  cases hgone
  cases hnumber
  have hstep := Process.step_act_eq hfind ho
  have hswap : Swap σ (σ.commit n o) ⟨n, r, phase, false⟩ ⟨n, r, o.phase, false⟩ := by
    refine ⟨hnumbered, hstep ▸ Process.numbered_step hnumbered (.act n a), hmem, ?_, rfl, ?_⟩
    · exact List.mem_of_find?_eq_some (Process.upload?_commit hfind)
    · exact Process.others_map σ.uploads n fun _ => rfl
  have hbefore := standing_of_not_gone n r phase
  have hafter := standing_of_not_gone n r o.phase
  have hmarks : (σ.commit n o).inFlight = Process.remark σ.inFlight ⟨n, r, phase, false⟩ o.phase := by
    simp only [Process.commit, hfind]
  by_cases hstarting : ∃ file, phase = .starting file
  · obtain ⟨file, rfl⟩ := hstarting
    obtain rfl := begin_of_starting ho rfl
    show OneRelay _ ↔ ¬ σ.RelayRuns file.id
    have hcases : o.phase.relays = none ∨ o.phase.relays = some file.id := by
      rcases relays_of_act ho with hnone | hnone | ⟨file', heq, hsome⟩
      · exact Or.inl hnone
      · exact Or.inl hnone
      · cases heq
        exact Or.inr hsome
    cases hcases with
    | inl hnone =>
      refine hswap.declines h (by rw [hbefore]; rfl) (by rw [hafter, hnone]) ?_
      rw [hmarks, Process.remark, hnone]
    | inr hsome =>
      refine hswap.starts h (by rw [hbefore]; rfl) (by rw [hafter, hsome]) ?_
      rw [hmarks, Process.remark, hsome]
  · have hok : AloneAct σ ⟨n, r, phase, false⟩ a := by
      unfold AloneAct
      split
      · split
        · case h_1 file heq => exact absurd ⟨file, heq⟩ hstarting
        · trivial
      · trivial
    refine iff_of_true ?_ hok
    have hcases : o.phase.relays = none ∨ o.phase.relays = phase.relays := by
      rcases relays_of_act ho with hnone | hsame | ⟨file, heq, -⟩
      · exact Or.inl hnone
      · exact Or.inr hsame
      · exact absurd ⟨file, heq⟩ hstarting
    have hno : ∀ file, phase ≠ .starting file := fun file heq => hstarting ⟨file, heq⟩
    cases hrelays : phase.relays with
    | none =>
      have hsame : o.phase.relays = phase.relays := by
        cases hcases with
        | inl hnone => rw [hnone, hrelays]
        | inr hsame => exact hsame
      exact hswap.keeps h (by rw [hafter, hbefore, hsame]) (hmarks.trans (remark_keeps hno hsame))
    | some fileId =>
      cases hcases with
      | inl hnone =>
        exact hswap.ends h (by rw [hbefore, hrelays]) (by rw [hafter, hnone])
          (hmarks.trans (remark_ends hno hrelays hnone))
      | inr hsame =>
        exact hswap.keeps h (by rw [hafter, hbefore, hsame]) (hmarks.trans (remark_keeps hno hsame))

lemma relays_of_goesOn {handed : Bool} {phase : Phase} (h : phase.goesOn handed = true) (number : Nat)
    (r : UploadRequest) : ∃ fileId, phase.relays = some fileId ∧
      (Upload.mk number r phase true).standing.relays = some fileId := by
  cases phase with
  | queued file | sending file => exact ⟨file.id, rfl, rfl⟩
  | marking file again =>
    cases again with
    | true => cases h
    | false => exact ⟨file.id, rfl, rfl⟩
  | _ => cases h

/-- An abort keeps the marks right just when no relay is left over. -/
lemma oneRelay_disconnect {number : Nat} {handed : Bool} (hnumbered : σ.Numbered) (h : OneRelay σ)
    (hfind : σ.upload? number = some u) :
    OneRelay (σ.disconnect number handed) ↔ (u.gone = false → u.phase.goesOn handed = false) := by
  have hmem : u ∈ σ.uploads := List.mem_of_find?_eq_some hfind
  have hnumber : u.number = number := by simpa using List.find?_some hfind
  have hnumbered' : (σ.disconnect number handed).Numbered :=
    Process.numbered_step hnumbered (.disconnect number handed)
  obtain ⟨n, r, phase, gone⟩ := u
  cases hnumber
  cases gone with
  | true =>
    refine iff_of_true ?_ fun hno => absurd hno Bool.noConfusion
    rw [Process.disconnect, hfind]
    exact h
  | false =>
    let gone : Upload → Upload := fun v =>
      { v with
        gone := true
        phase := if v.phase.goesOn handed then v.phase else .answered (.error .unknown) }
    have huploads : (σ.disconnect n handed).uploads =
        σ.uploads.map fun v => if v.number = n then gone v else v := by
      rw [Process.disconnect, hfind]
      rfl
    have hmarked : ∀ fileId, phase.relays = some fileId →
        (σ.disconnect n handed).inFlight = σ.inFlight.filter (· ≠ fileId) := by
      intro fileId hrelays
      simp only [Process.disconnect, hfind, Bool.false_eq_true, if_false, hrelays]
    have hquiet : phase.relays = none → (σ.disconnect n handed).inFlight = σ.inFlight := by
      intro hrelays
      simp only [Process.disconnect, hfind, Bool.false_eq_true, if_false, hrelays]
    have hswap : Swap σ (σ.disconnect n handed) ⟨n, r, phase, false⟩ (gone ⟨n, r, phase, false⟩) := by
      refine ⟨hnumbered, hnumbered', hmem, ?_, rfl, ?_⟩
      · rw [huploads]
        exact List.mem_map.mpr ⟨_, hmem, if_pos rfl⟩
      · rw [Process.others, huploads]
        exact Process.others_map σ.uploads n fun _ => rfl
    have hbefore := standing_of_not_gone n r phase
    cases hgoes : phase.goesOn handed with
    | true =>
      -- the relay is left over, and its mark is taken off
      obtain ⟨fileId, hrelays, hafter⟩ := relays_of_goesOn hgoes n r
      refine iff_of_false ?_ fun hno => Bool.noConfusion (hno rfl)
      have hunmarked : (σ.disconnect n handed).inFlight = σ.inFlight.filter (· ≠ fileId) :=
        hmarked fileId hrelays
      refine hswap.not_marked ?_ hunmarked
      rwa [show gone ⟨n, r, phase, false⟩ = ⟨n, r, phase, true⟩ by simp only [gone, hgoes, if_true]]
    | false =>
      refine iff_of_true ?_ fun _ => rfl
      have hafter : (gone ⟨n, r, phase, false⟩).standing.relays = none := by
        simp only [gone, hgoes, Bool.false_eq_true, if_false]
        rfl
      cases hrelays : phase.relays with
      | some fileId =>
        exact hswap.ends h (by rw [hbefore, hrelays]) hafter (hmarked fileId hrelays)
      | none =>
        exact hswap.keeps h (by rw [hafter, hbefore, hrelays]) (hquiet hrelays)

/-! ## Runs -/

/-- What every step that leaves the relays alone keeps. -/
structure Guarded (σ : Process) : Prop where
  numbered : σ.Numbered
  aborted : AbortedAnswered σ

lemma Guarded.step (h : Guarded σ) {a : Step} (ha : Alone σ a) : Guarded (σ.step a) := by
  refine ⟨Process.numbered_step h.numbered a, ?_⟩
  cases a with
  | arrive number r =>
    rcases σ.step_arrive number r with heq | ⟨-, phase, -, heq⟩
    · rw [heq]
      exact h.aborted
    · rw [heq]
      intro u hu hgone
      cases List.mem_append.mp hu with
      | inl hu => exact h.aborted u hu hgone
      | inr hu =>
        rw [List.mem_singleton.mp hu] at hgone
        cases hgone
  | act number a =>
    rcases σ.step_act number a with heq | ⟨u, o, hfind, hmem, ho, -, heq⟩
    · rw [heq]
      exact h.aborted
    · rw [heq]
      intro v hv hgone
      rcases Process.mem_commit hv with ⟨hv, -⟩ | ⟨w, hw, hwn, rfl⟩
      · exact h.aborted v hv hgone
      · obtain ⟨result, hp⟩ := h.aborted w hw hgone
        have hnumber : u.number = number := by simpa using List.find?_some hfind
        obtain rfl := h.numbered w hw u hmem (hwn.trans hnumber.symm)
        exact absurd (Process.not_answered ho hp) id
  | disconnect number handed =>
    show AbortedAnswered (σ.disconnect number handed)
    unfold Process.disconnect
    split
    · exact h.aborted
    · case h_2 u hfind =>
      split
      · exact h.aborted
      · case isFalse hgone =>
        intro v hv hvgone
        obtain ⟨w, hw, rfl⟩ := List.mem_map.mp hv
        split at hvgone
        · case isTrue hwn =>
          have hnumber : u.number = number := by simpa using List.find?_some hfind
          have hmem : u ∈ σ.uploads := List.mem_of_find?_eq_some hfind
          obtain rfl := h.numbered w hw u hmem (hwn.trans hnumber.symm)
          refine ⟨.error .unknown, ?_⟩
          rw [if_pos hwn]
          exact if_neg (by rw [ha w hfind (Bool.not_eq_true _ ▸ hgone)]; exact Bool.false_ne_true)
        · case isFalse hwn =>
          rw [if_neg hwn]
          exact h.aborted w hw hvgone
  | edit e =>
    rw [Process.step, AbortedAnswered, (Process.edit_requests σ e).1]
    exact h.aborted
  | restart order => exact fun u hu => absurd hu List.not_mem_nil

lemma oneRelay_congr (h : OneRelay σ) (huploads : τ.uploads = σ.uploads)
    (hmarks : τ.inFlight = σ.inFlight) : OneRelay τ := by
  refine ⟨huploads ▸ h.alone, fun fileId => ?_⟩
  rw [Process.RelayInFlight, hmarks, Process.RelayRuns, huploads]
  exact h.marked fileId

/-- A step keeps the marks right just when it leaves the relays alone. -/
lemma oneRelay_step (hguarded : Guarded σ) (h : OneRelay σ) (a : Step) :
    OneRelay (σ.step a) ↔ Alone σ a := by
  cases a with
  | arrive number r =>
    refine iff_of_true ?_ trivial
    rcases σ.step_arrive number r with heq | ⟨-, phase, hphase, heq⟩
    · rw [heq]
      exact h
    · -- a request that has just arrived has no relay
      have hnew : ∀ v ∈ [Upload.mk number r phase false], v.standing.relays = none := by
        intro v hv
        rw [List.mem_singleton.mp hv, standing_of_not_gone]
        rcases hphase with rfl | rfl <;> rfl
      rw [heq]
      constructor
      · intro v hv w hw fileId hrv hrw
        cases List.mem_append.mp hv with
        | inl hv =>
          cases List.mem_append.mp hw with
          | inl hw => exact h.alone v hv w hw fileId hrv hrw
          | inr hw => exact absurd ((hnew w hw).symm.trans hrw).symm (Option.some_ne_none fileId)
        | inr hv => exact absurd ((hnew v hv).symm.trans hrv).symm (Option.some_ne_none fileId)
      · intro fileId
        refine (h.marked fileId).trans ?_
        constructor
        · rintro ⟨v, hv, hrelays⟩
          exact ⟨v, List.mem_append_left _ hv, hrelays⟩
        · rintro ⟨v, hv, hrelays⟩
          cases List.mem_append.mp hv with
          | inl hv => exact ⟨v, hv, hrelays⟩
          | inr hv => exact absurd ((hnew v hv).symm.trans hrelays).symm (Option.some_ne_none fileId)
  | act number a =>
    cases hfind : σ.upload? number with
    | none =>
      refine iff_of_true ?_ fun u hu => absurd (hfind.symm.trans hu).symm (Option.some_ne_none u)
      rw [Process.step, hfind]
      exact h
    | some u =>
      have hok : Alone σ (.act number a) ↔ AloneAct σ u a := by
        constructor
        · exact fun ha => ha u hfind
        · intro ha v hv
          rw [hfind] at hv
          exact Option.some.inj hv ▸ ha
      rw [hok]
      cases ho : σ.act u a with
      | some o =>
        rw [Process.step_act_eq hfind ho]
        exact oneRelay_act hguarded.numbered hguarded.aborted h hfind ho
      | none =>
        -- a turn that does not belong takes no guard
        refine iff_of_true ?_ ?_
        · simp only [Process.step, hfind, ho]
          exact h
        · unfold AloneAct
          split
          · split
            · case h_1 file hp =>
              rw [Process.act, hp] at ho
              cases ho
            · trivial
          · trivial
  | disconnect number handed =>
    cases hfind : σ.upload? number with
    | none =>
      refine iff_of_true ?_ fun u hu => absurd (hfind.symm.trans hu).symm (Option.some_ne_none u)
      rw [Process.step, Process.disconnect, hfind]
      exact h
    | some u =>
      refine (oneRelay_disconnect hguarded.numbered h hfind).trans ?_
      constructor
      · intro ha v hv
        rw [hfind] at hv
        exact Option.some.inj hv ▸ ha
      · exact fun ha => ha u hfind
  | edit e =>
    obtain ⟨huploads, hmarks⟩ := Process.edit_requests σ e
    exact iff_of_true (oneRelay_congr h huploads hmarks) trivial
  | restart order =>
    refine iff_of_true ⟨fun u hu => absurd hu List.not_mem_nil, fun fileId => ?_⟩ trivial
    constructor
    · exact fun hmark => absurd hmark List.not_mem_nil
    · rintro ⟨u, hu, -⟩
      exact absurd hu List.not_mem_nil

/-- In every run from a server without requests each row has at most one relay, and is marked just while
    it has one, if and only if every guard is taken for a row without a relay and no task is aborted
    whose relay goes on. -/
theorem one_relay_iff {σ₀ : Process} (huploads : σ₀.uploads = []) (hmarks : σ₀.inFlight = [])
    (steps : List Step) :
    Always Process.step OneRelay σ₀ steps ↔ AllOk Process.step Alone σ₀ steps := by
  have hnone : ∀ u, u ∉ σ₀.uploads := huploads ▸ fun u => List.not_mem_nil
  refine always_iff_allOk (I := Guarded) (fun σ a hσ ha => hσ.step ha)
    (fun σ a hσ hone => oneRelay_step hσ hone a) ⟨?_, ?_⟩ ⟨?_, fun fileId => ?_⟩
  · exact fun u hu => absurd hu (hnone u)
  · exact fun u hu => absurd hu (hnone u)
  · exact fun u hu => absurd hu (hnone u)
  · rw [Process.RelayInFlight, hmarks]
    constructor
    · exact fun hmark => absurd hmark List.not_mem_nil
    · rintro ⟨u, hu, -⟩
      exact absurd hu (hnone u)

/-- Two requests choose one row while it is idle, and both take its guard; the second one fails. -/
def sharedRow : List Step :=
  [.arrive 0 newVersion, .act 0 .look, .act 0 .settle, .act 0 .create, .arrive 1 newVersion,
    .act 1 .look, .act 0 .begin, .act 1 .begin, .act 1 .plan, .act 1 (.sendFails .unknown),
    .act 1 (.count false)]

/-- The row has two relays, and the end of the second one clears the mark of the first. -/
theorem sharedRow_twoRelays :
    ¬ Always Process.step OneRelay twoChannels sharedRow ∧
      (run Process.step twoChannels sharedRow).RelayRuns 4 ∧
      ¬ (run Process.step twoChannels sharedRow).RelayInFlight 4 := by
  have hlast : (run Process.step twoChannels sharedRow).RelayRuns 4 ∧
      ¬ (run Process.step twoChannels sharedRow).RelayInFlight 4 := by
    decide +kernel
  exact ⟨fun h => hlast.2 ((h.last.marked 4).mpr hlast.1), hlast⟩

/-- A relay that fails and is taken up after it ended has its row for itself. -/
theorem halfUpload_alone :
    Always Process.step OneRelay twoChannels
      (halfUpload ++ [.arrive 1 newVersion, .act 1 .look, .act 1 .begin, .act 1 .plan]) :=
  (one_relay_iff rfl rfl _).mpr (by decide +kernel)

end Sarca.Server
