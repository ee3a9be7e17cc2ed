import Sarca.Lib.Run
import Sarca.Server.Access

/-!
# Managing the members of storages

`grant_access` and `restrict_access` first check that the caller is an admin of the storage, then refuse what
only the superuser may do. For anybody else the member list is read for that, and the row is written by a
statement behind it. `Members` is the tables with the calls under way, and the other statements that write
access rows: those of storages and accounts that come and go, and of the boot.

`log` keeps the tables before and behind each statement of a call, and is only there to say what calls may do.
The superuser is any account whose address is the configured one up to case, as the source has it. The main
result tells in which runs a call of nobody else touches an admin, the superuser or the caller.
-/

namespace Sarca.Server
open Sarca.Lib

inductive MemberCall where
  | grantAccess (storageId : Uuid) (userEmail : List Char) (t : AccessType)
  | restrictAccess (storageId userId : Uuid)
deriving DecidableEq, Repr

namespace MemberCall

def storageId : MemberCall → Uuid
  | .grantAccess storageId _ _ => storageId
  | .restrictAccess storageId _ => storageId

/-- The `is_target` that a call hands to the guard. -/
def IsTarget : MemberCall → UserWithAccess → Prop
  | .grantAccess _ userEmail _, m => eqIgnoreAsciiCase m.email userEmail
  | .restrictAccess _ userId, m => m.id = userId

instance IsTarget.decidable : (c : MemberCall) → (m : UserWithAccess) → Decidable (c.IsTarget m)
  | .grantAccess _ _ _, _ => eqIgnoreAsciiCase.decidable _ _
  | .restrictAccess _ _, _ => inferInstanceAs (Decidable (_ = _))

def write (ρ : Roster) (storages : List Uuid) : MemberCall → Except AccessError Roster
  | .grantAccess storageId userEmail t => ρ.createOrUpdate storages storageId userEmail t
  | .restrictAccess storageId userId => .ok (ρ.deleteAccess userId storageId)

/-- The account whose row the statement of a call is about. -/
def Aims (ρ : Roster) : MemberCall → Uuid → Prop
  | .grantAccess _ userEmail _, id => ρ.users.lookup id = some userEmail
  | .restrictAccess _ userId, id => id = userId

/-- What is refused before the member list is read, in the order of the source. -/
def refusal (superuserEmail : List Char) (actor : AuthUser) : MemberCall → Option AccessError
  | .grantAccess _ userEmail t =>
    if userEmail = actor.email then some .cannotManageAccessOfYourself
    else if ¬eqIgnoreAsciiCase actor.email superuserEmail ∧ eqIgnoreAsciiCase userEmail superuserEmail then
      some .onlySuperuserManagesAdmins
    else if ¬eqIgnoreAsciiCase actor.email superuserEmail ∧ t = .a then some .onlySuperuserManagesAdmins
    else none
  | .restrictAccess _ userId => if userId = actor.id then some .cannotManageAccessOfYourself else none

/-- The member list holds a target of the call that nobody but the superuser may touch. -/
def Protected (superuserEmail : List Char) (ρ : Roster) (c : MemberCall) : Prop :=
  ∃ m ∈ ρ.listUsersWithAccess c.storageId,
    c.IsTarget m ∧ (m.accessType = .a ∨ eqIgnoreAsciiCase m.email superuserEmail)

instance Protected.decidable (superuserEmail : List Char) (ρ : Roster) (c : MemberCall) :
    Decidable (c.Protected superuserEmail ρ) :=
  inferInstanceAs (Decidable (∃ m ∈ _, _))

/-- A whole call that nothing comes between (Rust `grant_access` and `restrict_access`). -/
def serve (superuserEmail : List Char) (actor : AuthUser) (ρ : Roster) (storages : List Uuid) (c : MemberCall) :
    Except AccessError Roster :=
  match ρ.checkAccess actor.id c.storageId .a with
  | .error e => .error e
  | .ok () =>
    match c.refusal superuserEmail actor with
    | some e => .error e
    | none =>
      if ¬eqIgnoreAsciiCase actor.email superuserEmail ∧ c.Protected superuserEmail ρ then
        .error .onlySuperuserManagesAdmins
      else c.write ρ storages

end MemberCall

inductive MemberPhase where
  | arrived (actor : AuthUser) (c : MemberCall)
  /-- the member list is read next -/
  | guarding (actor : AuthUser) (c : MemberCall)
  /-- the row is written next -/
  | passed (actor : AuthUser) (c : MemberCall)
  | answered (result : Except AccessError Unit)

structure MemberChange where
  actor : AuthUser
  before : Roster
  after : Roster

/-- What the statement of somebody other than the superuser may do to a row: it makes no admin, and touches
    no admin, not the caller, and not the superuser. -/
structure MemberChange.Allowed (superuserEmail : List Char) (change : MemberChange) (id storageId : Uuid) :
    Prop where
  makes : change.after.level id storageId ≠ some .a
  was : change.before.level id storageId ≠ some .a
  other : id ≠ change.actor.id
  ordinary : ∀ email, change.before.users.lookup id = some email → ¬eqIgnoreAsciiCase email superuserEmail

structure Members where
  roster : Roster
  storages : List Uuid
  nextStorage : Uuid
  calls : List MemberPhase
  log : List MemberChange

inductive MemberAct where
  | call (actor : AuthUser) (c : MemberCall)
  /-- the next statement of a call -/
  | act (i : Nat)
  /-- a call is dropped, or its statement fails -/
  | drop (i : Nat)
  | register (email : List Char)
  | removeUser (id : Uuid)
  | createStorage
  | deleteStorage (storageId : Uuid)
  /-- `StoragesService::create` and the boot grant the creator, or the superuser, by id -/
  | grantForUserId (storageId id : Uuid)
  /-- `StoragesService::create` grants the superuser, by the configured address -/
  | grantSuperuser (storageId : Uuid)

namespace Members

variable (superuserEmail : List Char) (σ : Members)

def fresh : Members :=
  ⟨.empty, [], 1, [], []⟩

def setCall (i : Nat) (phase : MemberPhase) : Members :=
  { σ with calls := σ.calls.set i phase }

/-- Where a call stands once its caller was checked. -/
def checked (actor : AuthUser) (c : MemberCall) : MemberPhase :=
  match σ.roster.checkAccess actor.id c.storageId .a with
  | .error e => .answered (.error e)
  | .ok () =>
    match c.refusal superuserEmail actor with
    | some e => .answered (.error e)
    | none => if eqIgnoreAsciiCase actor.email superuserEmail then .passed actor c else .guarding actor c

/-- Rust `guard_admin_target`, from the member list on. -/
def guardAdminTarget (actor : AuthUser) (c : MemberCall) : MemberPhase :=
  if c.Protected superuserEmail σ.roster then .answered (.error .onlySuperuserManagesAdmins) else .passed actor c

def advance (i : Nat) : MemberPhase → Members
  | .arrived actor c => σ.setCall i (σ.checked superuserEmail actor c)
  | .guarding actor c => σ.setCall i (σ.guardAdminTarget superuserEmail actor c)
  | .passed actor c =>
    match c.write σ.roster σ.storages with
    | .error e => σ.setCall i (.answered (.error e))
    | .ok ρ =>
      { σ.setCall i (.answered (.ok ())) with roster := ρ, log := σ.log ++ [⟨actor, σ.roster, ρ⟩] }
  | .answered _ => σ

/-- The tables behind a statement; one that fails changes nothing. -/
def settle : Except AccessError Roster → Members
  | .ok ρ => { σ with roster := ρ }
  | .error _ => σ

/-- The next state. A caller is whom the token was issued to, and has an account. -/
def step : MemberAct → Members
  | .call actor c =>
    if σ.roster.users.lookup actor.id = some actor.email then
      { σ with calls := σ.calls ++ [.arrived actor c] }
    else σ
  | .act i =>
    match σ.calls[i]? with
    | some phase => σ.advance superuserEmail i phase
    | none => σ
  | .drop i => σ.setCall i (.answered (.error .unknown))
  | .register email => { σ with roster := σ.roster.register email }
  | .removeUser id => { σ with roster := σ.roster.removeUser id }
  | .createStorage => { σ with storages := σ.nextStorage :: σ.storages, nextStorage := σ.nextStorage + 1 }
  | .deleteStorage storageId =>
    { σ with storages := σ.storages.filter (· ≠ storageId), roster := σ.roster.dropStorage storageId }
  | .grantForUserId storageId id => σ.settle (σ.roster.grantForUserId σ.storages storageId id .a)
  | .grantSuperuser storageId => σ.settle (σ.roster.createOrUpdate σ.storages storageId superuserEmail .a)

def Kept : Prop :=
  ∀ change ∈ σ.log, ¬eqIgnoreAsciiCase change.actor.email superuserEmail → ∀ id storageId,
    change.after.level id storageId ≠ change.before.level id storageId →
      change.Allowed superuserEmail id storageId

/-- And only the superuser will have if the next statement of any call comes now. -/
structure Managed : Prop where
  kept : σ.Kept superuserEmail
  next : ∀ i, (σ.step superuserEmail (.act i)).Kept superuserEmail

def puts : MemberAct → Option (Uuid × Uuid × AccessType)
  | .act i =>
    match σ.calls[i]? with
    | some (.passed _ (.grantAccess storageId userEmail t)) =>
      (σ.roster.byEmail? userEmail).map fun id => (id, storageId, t)
    | _ => none
  | .grantForUserId storageId id => some (id, storageId, .a)
  | .grantSuperuser storageId => (σ.roster.byEmail? superuserEmail).map fun id => (id, storageId, .a)
  | _ => none

/-- The side condition of a step. A row that makes an admin, or gives the superuser access, is put while
    nobody else's call about that row is between the member list and its statement. -/
def Careful (a : MemberAct) : Prop :=
  ∀ id storageId t, σ.puts superuserEmail a = some (id, storageId, t) → storageId ∈ σ.storages →
    ∀ email, σ.roster.users.lookup id = some email → (t = .a ∨ eqIgnoreAsciiCase email superuserEmail) →
      ∀ actor c, .passed actor c ∈ σ.calls → ¬eqIgnoreAsciiCase actor.email superuserEmail →
        c.storageId = storageId → ¬c.Aims σ.roster id

/-! ## What a step does to the tables -/

/-- The tables behind a step: a row is put, rows go, or an account comes or goes. -/
inductive RosterStep (ρ : Roster) (storages : List Uuid) (put : Option (Uuid × Uuid × AccessType)) :
    Roster → Prop where
  | same : RosterStep ρ storages put ρ
  | put {id storageId t} (hid : ρ.users.lookup id ≠ none) :
    put = some (id, storageId, t) →
    storageId ∈ storages →
    RosterStep ρ storages put (ρ.putAccess id storageId t hid)
  | keep (p : Uuid × Uuid → Prop) [DecidablePred p] :
    RosterStep ρ storages put (ρ.keepAccess p)
  | register (email : List Char) :
    RosterStep ρ storages put (ρ.register email)
  | removeUser (id : Uuid) :
    RosterStep ρ storages put (ρ.removeUser id)

inductive UnderWay (actor : AuthUser) (c : MemberCall) : MemberPhase → Prop where
  | arrived : UnderWay actor c (.arrived actor c)
  | guarding : UnderWay actor c (.guarding actor c)
  | passed : UnderWay actor c (.passed actor c)

/-- Nothing was refused without the member list. -/
inductive Admitted (actor : AuthUser) (c : MemberCall) : MemberPhase → Prop where
  | guarding : Admitted actor c (.guarding actor c)
  | passed : Admitted actor c (.passed actor c)

/-- How a call can move: it is checked, passes the guard, or is answered. -/
inductive Moves (superuserEmail : List Char) (σ : Members) : MemberPhase → MemberPhase → Prop where
  | superuser {actor c} :
    c.refusal superuserEmail actor = none →
    eqIgnoreAsciiCase actor.email superuserEmail →
    Moves superuserEmail σ (.arrived actor c) (.passed actor c)
  | admin {actor c} :
    c.refusal superuserEmail actor = none →
    Moves superuserEmail σ (.arrived actor c) (.guarding actor c)
  | guarded {actor c} :
    ¬c.Protected superuserEmail σ.roster →
    Moves superuserEmail σ (.guarding actor c) (.passed actor c)
  | answered {phase} (result : Except AccessError Unit) :
    Moves superuserEmail σ phase (.answered result)

/-- The calls behind a step: as they were, with a new one of an account, or with one moved. The tables of a
    call that passes the guard are those that the guard read. -/
inductive CallsStep (superuserEmail : List Char) (σ τ : Members) : Prop where
  | same : τ.calls = σ.calls → CallsStep superuserEmail σ τ
  | new {actor c} :
    σ.roster.users.lookup actor.id = some actor.email →
    τ.calls = σ.calls ++ [.arrived actor c] →
    CallsStep superuserEmail σ τ
  | move {i phase phase'} :
    σ.calls[i]? = some phase →
    Moves superuserEmail σ phase phase' →
    τ.calls = σ.calls.set i phase' →
    ((∃ result, phase' = .answered result) ∨ τ.roster = σ.roster) →
    CallsStep superuserEmail σ τ

variable {superuserEmail σ} {ρ ρ' : Roster} {storages : List Uuid} {put : Option (Uuid × Uuid × AccessType)}
variable {a : MemberAct} {actor : AuthUser} {c : MemberCall} {i : Nat} {phase : MemberPhase}

lemma RosterStep.level (h : RosterStep ρ storages put ρ') (id storageId : Uuid) :
    ρ'.level id storageId = ρ.level id storageId ∨ ρ'.level id storageId = none ∨
      ∃ t, put = some (id, storageId, t) ∧ storageId ∈ storages ∧ ρ.users.lookup id ≠ none ∧
        ρ'.level id storageId = some t := by
  cases h with
  | same => exact .inl rfl
  | @put id' storageId' t hid hput hstorage =>
    rw [Roster.level_putAccess]
    split
    · next hkey =>
      cases hkey
      exact .inr (.inr ⟨t, hput, hstorage, hid, rfl⟩)
    · exact .inl rfl
  | keep p =>
    rw [Roster.level_keepAccess]
    split
    · exact .inl rfl
    · exact .inr (.inl rfl)
  | register email =>
    obtain ⟨-, -, -, haccess⟩ | heq := ρ.register_cases email
    · exact .inl (congrArg (AList.lookup (id, storageId)) haccess)
    · rw [heq]
      exact .inl rfl
  | removeUser id' =>
    rw [Roster.level_removeUser]
    split
    · exact .inl rfl
    · exact .inr (.inl rfl)

lemma RosterStep.lookup (h : RosterStep ρ storages put ρ') {id : Uuid} {email : List Char}
    (hid : ρ'.users.lookup id = some email) : ρ.users.lookup id = some email ∨ id = ρ.next := by
  cases h with
  | same | put | keep => exact .inl hid
  | register email' =>
    obtain ⟨-, husers, -, -⟩ | heq := ρ.register_cases email'
    · obtain rfl | hne := eq_or_ne id ρ.next
      · exact .inr rfl
      · rw [husers, AList.lookup_insert_ne hne] at hid
        exact .inl hid
    · rw [heq] at hid
      exact .inl hid
  | removeUser id' =>
    rw [Roster.users_removeUser] at hid
    split at hid
    · exact .inl hid
    · cases hid

lemma RosterStep.next_le (h : RosterStep ρ storages put ρ') : ρ.next ≤ ρ'.next := by
  cases h with
  | same | put | keep | removeUser => exact Nat.le_refl _
  | register email =>
    obtain ⟨-, -, hnext, -⟩ | heq := ρ.register_cases email
    · rw [hnext]
      exact Nat.le_succ _
    · rw [heq]

lemma rosterStep_write (hphase : σ.calls[i]? = some (.passed actor c))
    (hwrite : c.write σ.roster σ.storages = .ok ρ') :
    RosterStep σ.roster σ.storages (σ.puts superuserEmail (.act i)) ρ' := by
  cases c with
  | grantAccess storageId userEmail t =>
    obtain ⟨id, hid, hemail, hstorage, rfl⟩ := Roster.createOrUpdate_ok hwrite
    refine .put hid ?_ hstorage
    simp only [puts, hphase, hemail, Option.map_some]
  | restrictAccess storageId userId =>
    cases hwrite
    exact .keep _

variable (superuserEmail) in
lemma rosterStep (σ : Members) (a : MemberAct) :
    RosterStep σ.roster σ.storages (σ.puts superuserEmail a) (σ.step superuserEmail a).roster := by
  cases a with
  | call actor c =>
    simp only [step]
    split <;> exact .same
  | act i =>
    cases hphase : σ.calls[i]? with
    | none =>
      simp only [step, hphase]
      exact .same
    | some phase =>
      simp only [step, hphase]
      cases phase with
      | passed actor c =>
        simp only [advance]
        cases hwrite : c.write σ.roster σ.storages with
        | error e => exact .same
        | ok ρ' => exact rosterStep_write hphase hwrite
      | _ => exact .same
  | register email => exact .register email
  | removeUser id => exact .removeUser id
  | deleteStorage storageId => exact .keep _
  | grantForUserId storageId id =>
    simp only [step]
    cases hgrant : σ.roster.grantForUserId σ.storages storageId id .a with
    | error e => exact .same
    | ok ρ' =>
      obtain ⟨hid, hstorage, rfl⟩ := Roster.grantForUserId_ok hgrant
      exact .put hid rfl hstorage
  | grantSuperuser storageId =>
    simp only [step]
    cases hgrant : σ.roster.createOrUpdate σ.storages storageId superuserEmail .a with
    | error e => exact .same
    | ok ρ' =>
      obtain ⟨id, hid, hemail, hstorage, rfl⟩ := Roster.createOrUpdate_ok hgrant
      refine .put hid ?_ hstorage
      simp only [puts, hemail, Option.map_some]
  | _ => exact .same

/-! ## What every step keeps -/

/-- Rows are of storages that exist; a caller is the account with its id, if there is one; a call that was not
    refused at once meets what that asks for. -/
structure Sound (superuserEmail : List Char) (σ : Members) : Prop where
  placed : ∀ id storageId, σ.roster.level id storageId ≠ none → storageId ∈ σ.storages
  caller : ∀ phase ∈ σ.calls, ∀ actor c, UnderWay actor c phase →
    actor.id < σ.roster.next ∧ ∀ email, σ.roster.users.lookup actor.id = some email → email = actor.email
  admitted : ∀ phase ∈ σ.calls, ∀ actor c, Admitted actor c phase → c.refusal superuserEmail actor = none

lemma Sound.fresh : Sound superuserEmail fresh where
  placed _ _ h := absurd (AList.lookup_empty _) h
  caller _ hphase := absurd hphase List.not_mem_nil
  admitted _ hphase := absurd hphase List.not_mem_nil

variable (superuserEmail) in
lemma checked_cases (σ : Members) (actor : AuthUser) (c : MemberCall) :
    (∃ e, σ.checked superuserEmail actor c = .answered (.error e)) ∨
      c.refusal superuserEmail actor = none ∧
        σ.checked superuserEmail actor c =
          if eqIgnoreAsciiCase actor.email superuserEmail then .passed actor c else .guarding actor c := by
  unfold checked
  split
  · next e _ => exact .inl ⟨e, rfl⟩
  · split
    · next e _ => exact .inl ⟨e, rfl⟩
    · next hnone => exact .inr ⟨hnone, rfl⟩

lemma callsStep_act (hphase : σ.calls[i]? = some phase) :
    CallsStep superuserEmail σ (σ.step superuserEmail (.act i)) := by
  have hstep : σ.step superuserEmail (.act i) = σ.advance superuserEmail i phase := by
    simp only [step, hphase]
  rw [hstep]
  cases phase with
  | arrived actor c =>
    obtain ⟨e, heq⟩ | ⟨hnone, heq⟩ := checked_cases superuserEmail σ actor c
    · exact .move hphase (.answered (.error e)) (congrArg (σ.calls.set i) heq) (.inr rfl)
    · by_cases hsu : eqIgnoreAsciiCase actor.email superuserEmail
      · rw [if_pos hsu] at heq
        exact .move hphase (.superuser hnone hsu) (congrArg (σ.calls.set i) heq) (.inr rfl)
      · rw [if_neg hsu] at heq
        exact .move hphase (.admin hnone) (congrArg (σ.calls.set i) heq) (.inr rfl)
  | guarding actor c =>
    by_cases hprotected : c.Protected superuserEmail σ.roster
    · have heq : σ.guardAdminTarget superuserEmail actor c = .answered (.error .onlySuperuserManagesAdmins) :=
        if_pos hprotected
      exact .move hphase (.answered _) (congrArg (σ.calls.set i) heq) (.inr rfl)
    · have heq : σ.guardAdminTarget superuserEmail actor c = .passed actor c := if_neg hprotected
      exact .move hphase (.guarded hprotected) (congrArg (σ.calls.set i) heq) (.inr rfl)
  | passed actor c =>
    simp only [advance]
    cases c.write σ.roster σ.storages with
    | error e => exact .move hphase (.answered (.error e)) rfl (.inr rfl)
    | ok ρ => exact .move hphase (.answered (.ok ())) rfl (.inl ⟨_, rfl⟩)
  | answered result => exact .same rfl

variable (superuserEmail) in
lemma callsStep (σ : Members) (a : MemberAct) :
    CallsStep superuserEmail σ (σ.step superuserEmail a) := by
  cases a with
  | call actor c =>
    simp only [step]
    split
    · next hactor => exact .new hactor rfl
    · exact .same rfl
  | act i =>
    cases hphase : σ.calls[i]? with
    | some phase => exact callsStep_act hphase
    | none =>
      simp only [step, hphase]
      exact .same rfl
  | drop i =>
    cases hphase : σ.calls[i]? with
    | some phase => exact .move hphase (.answered (.error .unknown)) rfl (.inr rfl)
    | none => exact .same (List.set_eq_of_length_le (List.getElem?_eq_none_iff.mp hphase))
  | grantForUserId storageId id =>
    simp only [step]
    cases σ.roster.grantForUserId σ.storages storageId id .a <;> exact .same rfl
  | grantSuperuser storageId =>
    simp only [step]
    cases σ.roster.createOrUpdate σ.storages storageId superuserEmail .a <;> exact .same rfl
  | _ => exact .same rfl

lemma Moves.underWay {phase' : MemberPhase} (h : Moves superuserEmail σ phase phase')
    (hway : UnderWay actor c phase') : UnderWay actor c phase := by
  cases h with
  | superuser | admin =>
    cases hway
    exact .arrived
  | guarded =>
    cases hway
    exact .guarding
  | answered => cases hway

lemma Moves.admitted {phase' : MemberPhase} (h : Moves superuserEmail σ phase phase')
    (hadm : Admitted actor c phase') : Admitted actor c phase ∨ c.refusal superuserEmail actor = none := by
  cases h with
  | superuser hnone | admin hnone =>
    cases hadm
    exact .inr hnone
  | guarded =>
    cases hadm
    exact .inl .guarding
  | answered => cases hadm

variable (superuserEmail) in
lemma storages_step (σ : Members) (a : MemberAct) :
    (∃ storageId, a = .deleteStorage storageId) ∨
      ∀ storageId ∈ σ.storages, storageId ∈ (σ.step superuserEmail a).storages := by
  cases a with
  | deleteStorage storageId => exact .inl ⟨storageId, rfl⟩
  | createStorage => exact .inr fun storageId h => List.mem_cons_of_mem _ h
  | call actor c =>
    right
    simp only [step]
    split <;> exact fun _ h => h
  | act i =>
    right
    cases hphase : σ.calls[i]? with
    | none =>
      simp only [step, hphase]
      exact fun _ h => h
    | some phase =>
      simp only [step, hphase]
      cases phase with
      | passed actor c =>
        simp only [advance]
        cases c.write σ.roster σ.storages <;> exact fun _ h => h
      | _ => exact fun _ h => h
  | grantForUserId storageId id =>
    right
    simp only [step]
    cases σ.roster.grantForUserId σ.storages storageId id .a <;> exact fun _ h => h
  | grantSuperuser storageId =>
    right
    simp only [step]
    cases σ.roster.createOrUpdate σ.storages storageId superuserEmail .a <;> exact fun _ h => h
  | _ => exact .inr fun _ h => h

lemma CallsStep.mem {τ : Members} (h : CallsStep superuserEmail σ τ) (hmem : phase ∈ τ.calls) :
    phase ∈ σ.calls ∨
      (∃ actor c, σ.roster.users.lookup actor.id = some actor.email ∧ phase = .arrived actor c) ∨
      ∃ before ∈ σ.calls, Moves superuserEmail σ before phase ∧
        ((∃ result, phase = .answered result) ∨ τ.roster = σ.roster) := by
  cases h with
  | same heq => exact .inl (heq ▸ hmem)
  | new hactor heq =>
    rw [heq, List.mem_append, List.mem_singleton] at hmem
    obtain hold | rfl := hmem
    · exact .inl hold
    · exact .inr (.inl ⟨_, _, hactor, rfl⟩)
  | move hbefore hmoves heq hroster =>
    rw [heq] at hmem
    obtain hold | rfl := List.mem_or_eq_of_mem_set hmem
    · exact .inl hold
    · exact .inr (.inr ⟨_, List.mem_of_getElem? hbefore, hmoves, hroster⟩)

lemma Sound.step (h : σ.Sound superuserEmail) (a : MemberAct) :
    (σ.step superuserEmail a).Sound superuserEmail := by
  have hroster := rosterStep superuserEmail σ a
  have hactor : ∀ actor : AuthUser, (actor.id < σ.roster.next ∧
      ∀ email, σ.roster.users.lookup actor.id = some email → email = actor.email) →
      actor.id < (σ.step superuserEmail a).roster.next ∧
        ∀ email, (σ.step superuserEmail a).roster.users.lookup actor.id = some email → email = actor.email := by
    rintro actor ⟨hlt, hemail⟩
    refine ⟨hlt.trans_le hroster.next_le, fun email hid => ?_⟩
    obtain hid | heq := hroster.lookup hid
    · exact hemail email hid
    · exact absurd heq (Nat.ne_of_lt hlt)
  have hcalls := callsStep superuserEmail σ a
  constructor
  · intro id storageId hlevel
    obtain ⟨storageId', rfl⟩ | hmono := storages_step superuserEmail σ a
    · have hdrop := Roster.level_keepAccess (ρ := σ.roster) (fun key => key.2 ≠ storageId') id storageId
      have hsame : storageId ≠ storageId' ∧ σ.roster.level id storageId ≠ none := by
        by_cases hne : storageId ≠ storageId'
        · rw [if_pos hne] at hdrop
          exact ⟨hne, hdrop ▸ hlevel⟩
        · rw [if_neg hne] at hdrop
          exact absurd hdrop hlevel
      exact List.mem_filter.mpr ⟨h.placed id storageId hsame.2, decide_eq_true hsame.1⟩
    · obtain hsame | hnone | ⟨t, -, hstorage, -, -⟩ := hroster.level id storageId
      · exact hmono storageId (h.placed id storageId (hsame ▸ hlevel))
      · exact absurd hnone hlevel
      · exact hmono storageId hstorage
  · intro phase hphase actor c hway
    apply hactor
    obtain hold | ⟨actor', c', hlookup, rfl⟩ | ⟨before, hbefore, hmoves, -⟩ := hcalls.mem hphase
    · exact h.caller phase hold actor c hway
    · cases hway
      refine ⟨σ.roster.given actor.id ?_, fun email hemail => ?_⟩
      · rw [hlookup]
        exact Option.some_ne_none _
      · exact Option.some.inj (hemail.symm.trans hlookup)
    · exact h.caller before hbefore actor c (hmoves.underWay hway)
  · intro phase hphase actor c hadm
    obtain hold | ⟨actor', c', -, rfl⟩ | ⟨before, hbefore, hmoves, -⟩ := hcalls.mem hphase
    · exact h.admitted phase hold actor c hadm
    · cases hadm
    · obtain hadm | hnone := hmoves.admitted hadm
      · exact h.admitted before hbefore actor c hadm
      · exact hnone

/-! ## Statements of calls -/

lemma refusal_grant {storageId : Uuid} {userEmail : List Char} {t : AccessType}
    (h : (MemberCall.grantAccess storageId userEmail t).refusal superuserEmail actor = none) :
    userEmail ≠ actor.email ∧ (¬eqIgnoreAsciiCase actor.email superuserEmail →
      ¬eqIgnoreAsciiCase userEmail superuserEmail ∧ t ≠ .a) := by
  simp only [MemberCall.refusal] at h
  split at h
  · cases h
  · next hown =>
    split at h
    · cases h
    · next hsuper =>
      split at h
      · cases h
      · next hadmin => exact ⟨hown, fun hsu => ⟨fun h' => hsuper ⟨hsu, h'⟩, fun h' => hadmin ⟨hsu, h'⟩⟩⟩

lemma refusal_restrict {storageId userId : Uuid}
    (h : (MemberCall.restrictAccess storageId userId).refusal superuserEmail actor = none) :
    userId ≠ actor.id := by
  simp only [MemberCall.refusal] at h
  split at h
  · cases h
  · next hown => exact hown

/-- The row that the statement of a call is about is neither an admin's nor the superuser's. -/
def Fair (superuserEmail : List Char) (σ : Members) (c : MemberCall) : Prop :=
  ∀ id t, c.Aims σ.roster id → σ.roster.level id c.storageId = some t →
    t ≠ .a ∧ ∀ email, σ.roster.users.lookup id = some email → ¬eqIgnoreAsciiCase email superuserEmail

lemma Sound.allowed_of_fair (h : σ.Sound superuserEmail) (hphase : .passed actor c ∈ σ.calls)
    (hactor : ¬eqIgnoreAsciiCase actor.email superuserEmail) (hfair : σ.Fair superuserEmail c)
    (hwrite : c.write σ.roster σ.storages = .ok ρ') {id storageId : Uuid}
    (hchanged : ρ'.level id storageId ≠ σ.roster.level id storageId) :
    (⟨actor, σ.roster, ρ'⟩ : MemberChange).Allowed superuserEmail id storageId := by
  have hrefusal := h.admitted _ hphase actor c .passed
  have hcaller := (h.caller _ hphase actor c .passed).2
  cases c with
  | grantAccess storageId' userEmail t =>
    obtain ⟨hown, hadmin⟩ := refusal_grant hrefusal
    obtain ⟨hsuper, hadmin⟩ := hadmin hactor
    obtain ⟨id', hid', hemail, -, rfl⟩ := Roster.createOrUpdate_ok hwrite
    have haims := Roster.lookup_of_byEmail? hemail
    rw [Roster.level_putAccess] at hchanged
    split at hchanged
    · next hkey =>
      cases hkey
      refine ⟨?_, fun hlevel => ?_, ?_, fun email hlookup => ?_⟩
      · rw [Roster.level_putAccess, if_pos rfl]
        exact fun heq => hadmin (Option.some.inj heq)
      · exact (hfair id .a haims hlevel).1 rfl
      · intro heq
        have heq : id = actor.id := heq
        exact hown (hcaller userEmail (heq ▸ haims))
      · rw [haims] at hlookup
        cases hlookup
        exact hsuper
    · exact absurd rfl hchanged
  | restrictAccess storageId' userId =>
    have hown := refusal_restrict hrefusal
    cases hwrite
    unfold Roster.deleteAccess at hchanged
    rw [Roster.level_keepAccess] at hchanged
    split at hchanged
    · exact absurd rfl hchanged
    · next hkey =>
      cases not_not.mp hkey
      obtain ⟨t, hlevel⟩ := Option.ne_none_iff_exists'.mp hchanged.symm
      obtain ⟨hlow, hordinary⟩ := hfair id t rfl hlevel
      refine ⟨?_, ?_, hown, hordinary⟩
      · unfold Roster.deleteAccess
        rw [Roster.level_keepAccess, if_neg hkey]
        exact nofun
      · rw [hlevel]
        exact fun heq => hlow (Option.some.inj heq)

lemma Sound.fair_of_allowed (h : σ.Sound superuserEmail) (hphase : .passed actor c ∈ σ.calls)
    (hactor : ¬eqIgnoreAsciiCase actor.email superuserEmail)
    (hallowed : ∀ ρ', c.write σ.roster σ.storages = .ok ρ' → ∀ id storageId,
      ρ'.level id storageId ≠ σ.roster.level id storageId →
        (⟨actor, σ.roster, ρ'⟩ : MemberChange).Allowed superuserEmail id storageId) :
    σ.Fair superuserEmail c := by
  have hrefusal := h.admitted _ hphase actor c .passed
  intro id t haims hlevel
  cases c with
  | grantAccess storageId userEmail t' =>
    obtain ⟨-, hadmin⟩ := refusal_grant hrefusal
    obtain ⟨hsuper, hadmin⟩ := hadmin hactor
    have haims : σ.roster.users.lookup id = some userEmail := haims
    have hid : σ.roster.users.lookup id ≠ none := haims ▸ Option.some_ne_none userEmail
    have hlevel : σ.roster.level id storageId = some t := hlevel
    have hstorage := h.placed id storageId (hlevel ▸ Option.some_ne_none t)
    have hwrite : (MemberCall.grantAccess storageId userEmail t').write σ.roster σ.storages =
        .ok (σ.roster.putAccess id storageId t' hid) := by
      simp only [MemberCall.write, Roster.createOrUpdate, Roster.byEmail?_iff.mpr haims,
        Roster.grantForUserId, dif_pos hid, if_pos hstorage]
    refine ⟨?_, fun email hlookup => ?_⟩
    · rintro rfl
      refine (hallowed _ hwrite id storageId ?_).was hlevel
      rw [Roster.level_putAccess, if_pos rfl, hlevel]
      exact fun heq => hadmin (Option.some.inj heq)
    · rw [haims] at hlookup
      cases hlookup
      exact hsuper
  | restrictAccess storageId userId =>
    cases haims
    have hlevel : σ.roster.level id storageId = some t := hlevel
    have hchange := hallowed _ rfl id storageId <| by
      unfold Roster.deleteAccess
      rw [Roster.level_keepAccess, if_neg (not_not.mpr rfl), hlevel]
      exact (Option.some_ne_none t).symm
    refine ⟨?_, hchange.ordinary⟩
    rintro rfl
    exact hchange.was hlevel

lemma fair_of_guard (hunprotected : ¬c.Protected superuserEmail σ.roster) : σ.Fair superuserEmail c := by
  intro id t haims hlevel
  have hid : σ.roster.users.lookup id ≠ none := Roster.level_ne_none (hlevel ▸ Option.some_ne_none t)
  obtain ⟨email, hemail⟩ := Option.ne_none_iff_exists'.mp hid
  have hmember : ⟨id, email, t⟩ ∈ σ.roster.listUsersWithAccess c.storageId :=
    Roster.mem_listUsersWithAccess.mpr ⟨hemail, hlevel⟩
  have htarget : c.IsTarget ⟨id, email, t⟩ := by
    cases c with
    | grantAccess storageId userEmail t' =>
      have haims : σ.roster.users.lookup id = some userEmail := haims
      rw [haims] at hemail
      cases hemail
      exact rfl
    | restrictAccess storageId userId => exact haims
  refine ⟨fun ht => hunprotected ⟨_, hmember, htarget, .inl ht⟩, fun email' hlookup hsuper => ?_⟩
  rw [hemail] at hlookup
  cases hlookup
  exact hunprotected ⟨_, hmember, htarget, .inr hsuper⟩

/-! ## The main result -/

variable (superuserEmail) in
lemma log_act (hphase : σ.calls[i]? = some phase) :
    (σ.step superuserEmail (.act i)).log = σ.log ∨
      ∃ actor c ρ', phase = .passed actor c ∧ c.write σ.roster σ.storages = .ok ρ' ∧
        (σ.step superuserEmail (.act i)).log = σ.log ++ [⟨actor, σ.roster, ρ'⟩] := by
  simp only [step, hphase]
  cases phase with
  | passed actor c =>
    simp only [advance]
    cases hwrite : c.write σ.roster σ.storages with
    | error e => exact .inl rfl
    | ok ρ' => exact .inr ⟨actor, c, ρ', rfl, hwrite, rfl⟩
  | _ => exact .inl rfl

lemma log_of_not_act (h : ∀ i, a ≠ .act i) : (σ.step superuserEmail a).log = σ.log := by
  cases a with
  | act i => exact absurd rfl (h i)
  | call actor c =>
    simp only [step]
    split <;> rfl
  | grantForUserId storageId id =>
    simp only [step]
    cases σ.roster.grantForUserId σ.storages storageId id .a <;> rfl
  | grantSuperuser storageId =>
    simp only [step]
    cases σ.roster.createOrUpdate σ.storages storageId superuserEmail .a <;> rfl
  | _ => rfl

lemma Sound.managed_iff (h : σ.Sound superuserEmail) :
    σ.Managed superuserEmail ↔ σ.Kept superuserEmail ∧ ∀ actor c, .passed actor c ∈ σ.calls →
      ¬eqIgnoreAsciiCase actor.email superuserEmail → σ.Fair superuserEmail c := by
  constructor
  · intro hmanaged
    refine ⟨hmanaged.kept, fun actor c hphase hactor => h.fair_of_allowed hphase hactor ?_⟩
    intro ρ' hwrite
    obtain ⟨i, hi⟩ := List.mem_iff_getElem?.mp hphase
    have hlog : (σ.step superuserEmail (.act i)).log = σ.log ++ [⟨actor, σ.roster, ρ'⟩] := by
      simp only [Members.step, hi, advance, hwrite]
    refine hmanaged.next i ⟨actor, σ.roster, ρ'⟩ ?_ hactor
    rw [hlog]
    exact List.mem_append_right _ List.mem_cons_self
  · rintro ⟨hkept, hfair⟩
    refine ⟨hkept, fun i change hchange hactor id storageId hchanged => ?_⟩
    cases hi : σ.calls[i]? with
    | none =>
      simp only [Members.step, hi] at hchange
      exact hkept change hchange hactor id storageId hchanged
    | some phase =>
      obtain hlog | ⟨actor, c, ρ', rfl, hwrite, hlog⟩ := log_act superuserEmail hi
      · exact hkept change (hlog ▸ hchange) hactor id storageId hchanged
      · rw [hlog, List.mem_append, List.mem_singleton] at hchange
        obtain hold | rfl := hchange
        · exact hkept change hold hactor id storageId hchanged
        · have hphase := List.mem_of_getElem? hi
          exact h.allowed_of_fair hphase hactor (hfair actor c hphase hactor) hwrite hchanged

lemma Fair.step (hfair : σ.Fair superuserEmail c) (hcareful : σ.Careful superuserEmail a)
    (hphase : .passed actor c ∈ σ.calls) (hactor : ¬eqIgnoreAsciiCase actor.email superuserEmail) :
    (σ.step superuserEmail a).Fair superuserEmail c := by
  have hroster := rosterStep superuserEmail σ a
  intro id t haims hlevel
  -- The account was there: nobody has a row on the day of the registration.
  have hthere : ∀ email, (σ.step superuserEmail a).roster.users.lookup id = some email →
      σ.roster.users.lookup id = some email := by
    intro email hemail
    obtain hold | rfl := hroster.lookup hemail
    · exact hold
    · have hnone : σ.roster.users.lookup σ.roster.next = none :=
        not_not.mp fun hid => Nat.lt_irrefl _ (σ.roster.given _ hid)
      obtain hsame | hgone | ⟨t', -, -, hid, -⟩ := hroster.level σ.roster.next c.storageId
      · have hold : σ.roster.level σ.roster.next c.storageId ≠ none :=
          hsame ▸ hlevel ▸ Option.some_ne_none t
        exact absurd hnone (Roster.level_ne_none hold)
      · exact absurd (hgone.symm.trans hlevel) (Option.some_ne_none t).symm
      · exact absurd hnone hid
  have haimed : c.Aims σ.roster id := by
    cases c with
    | grantAccess storageId userEmail t' => exact hthere userEmail haims
    | restrictAccess storageId userId => exact haims
  obtain hsame | hgone | ⟨t', hput, hstorage, hid, hnew⟩ := hroster.level id c.storageId
  · obtain ⟨hlow, hordinary⟩ := hfair id t haimed (hsame ▸ hlevel)
    exact ⟨hlow, fun email hemail => hordinary email (hthere email hemail)⟩
  · exact absurd (hgone.symm.trans hlevel) (Option.some_ne_none t).symm
  · have ht : t' = t := Option.some.inj (hnew.symm.trans hlevel)
    have hcare := fun email hemail h =>
      hcareful id c.storageId t' hput hstorage email hemail h actor c hphase hactor rfl haimed
    obtain ⟨email, hemail⟩ := Option.ne_none_iff_exists'.mp hid
    refine ⟨fun heq => hcare email hemail (.inl (ht.trans heq)), fun email' hemail' hsuper => ?_⟩
    exact hcare email' (hthere email' hemail') (.inr hsuper)

/-- A row that makes an admin, or is the superuser's, is not put by the statement of a call that somebody else
    aims at it. -/
lemma Sound.passed_stays (h : σ.Sound superuserEmail) {id storageId : Uuid} {t : AccessType} {email : List Char}
    (hput : σ.puts superuserEmail a = some (id, storageId, t)) (hemail : σ.roster.users.lookup id = some email)
    (hprotects : t = .a ∨ eqIgnoreAsciiCase email superuserEmail)
    (hphase : .passed actor c ∈ σ.calls) (hactor : ¬eqIgnoreAsciiCase actor.email superuserEmail) :
    .passed actor c ∈ (σ.step superuserEmail a).calls := by
  cases a with
  | act i =>
    obtain ⟨j, hj⟩ := List.mem_iff_getElem?.mp hphase
    obtain rfl | hne := eq_or_ne i j
    · have hrefusal := h.admitted _ hphase actor c .passed
      cases c with
      | grantAccess storageId' userEmail t' =>
        obtain ⟨hordinary, hlow⟩ := (refusal_grant hrefusal).2 hactor
        simp only [puts, hj] at hput
        obtain ⟨id', hid', heq⟩ := Option.map_eq_some_iff.mp hput
        cases heq
        rw [Roster.lookup_of_byEmail? hid'] at hemail
        cases hemail
        exact absurd hprotects (not_or.mpr ⟨hlow, hordinary⟩)
      | restrictAccess storageId' userId =>
        simp only [puts, hj] at hput
        cases hput
    · have hsame : (σ.step superuserEmail (.act i)).calls[j]? = σ.calls[j]? := by
        cases hi : σ.calls[i]? with
        | none => simp only [Members.step, hi]
        | some phase =>
          simp only [Members.step, hi]
          cases phase with
          | passed actor' c' =>
            simp only [advance]
            cases c'.write σ.roster σ.storages <;> exact List.getElem?_set_ne hne
          | answered result => rfl
          | _ => exact List.getElem?_set_ne hne
      exact List.mem_of_getElem? (hsame.trans hj)
  | grantForUserId storageId' id' =>
    simp only [Members.step]
    cases σ.roster.grantForUserId σ.storages storageId' id' .a <;> exact hphase
  | grantSuperuser storageId' =>
    simp only [Members.step]
    cases σ.roster.createOrUpdate σ.storages storageId' superuserEmail .a <;> exact hphase
  | _ => cases hput

lemma level_of_puts {id storageId : Uuid} {t : AccessType} {email : List Char}
    (hput : σ.puts superuserEmail a = some (id, storageId, t)) (hemail : σ.roster.users.lookup id = some email)
    (hstorage : storageId ∈ σ.storages) :
    (σ.step superuserEmail a).roster.level id storageId = some t ∧
      (σ.step superuserEmail a).roster.users = σ.roster.users := by
  have hid : σ.roster.users.lookup id ≠ none := hemail ▸ Option.some_ne_none email
  have hrow : (σ.roster.putAccess id storageId t hid).level id storageId = some t := by
    rw [Roster.level_putAccess, if_pos rfl]
  have hgrant : ∀ {address}, σ.roster.byEmail? address = some id →
      σ.roster.createOrUpdate σ.storages storageId address t = .ok (σ.roster.putAccess id storageId t hid) := by
    intro address haddress
    simp only [Roster.createOrUpdate, haddress, Roster.grantForUserId, dif_pos hid, if_pos hstorage]
  cases a with
  | act i =>
    simp only [puts] at hput
    split at hput
    · next actor' storageId' userEmail t' hi =>
      obtain ⟨id', hid', heq⟩ := Option.map_eq_some_iff.mp hput
      cases heq
      have hwrite := hgrant hid'
      simp only [Members.step, hi, advance, MemberCall.write, hwrite]
      exact ⟨hrow, rfl⟩
    · cases hput
  | grantForUserId storageId' id' =>
    cases hput
    have hok : σ.roster.grantForUserId σ.storages storageId id .a =
        .ok (σ.roster.putAccess id storageId .a hid) := by
      simp only [Roster.grantForUserId, dif_pos hid, if_pos hstorage]
    simp only [Members.step, settle, hok]
    exact ⟨hrow, rfl⟩
  | grantSuperuser storageId' =>
    obtain ⟨id', hid', heq⟩ := Option.map_eq_some_iff.mp hput
    cases heq
    have hok := hgrant hid'
    simp only [Members.step, settle, hok]
    exact ⟨hrow, rfl⟩
  | _ => cases hput

lemma Managed.step_iff (h : σ.Sound superuserEmail) (hmanaged : σ.Managed superuserEmail) (a : MemberAct) :
    (σ.step superuserEmail a).Managed superuserEmail ↔ σ.Careful superuserEmail a := by
  obtain ⟨hkept, hfair⟩ := h.managed_iff.mp hmanaged
  rw [(h.step a).managed_iff]
  constructor
  · rintro ⟨-, hfair'⟩ id storageId t hput hstorage email hemail hprotects actor c hphase hactor rfl haims
    obtain ⟨hlevel, husers⟩ := level_of_puts hput hemail hstorage
    have hstays := h.passed_stays hput hemail hprotects hphase hactor
    have haims' : c.Aims (σ.step superuserEmail a).roster id := by
      cases c with
      | grantAccess storageId userEmail t' => exact (congrArg (AList.lookup id) husers).trans haims
      | restrictAccess storageId userId => exact haims
    obtain ⟨hlow, hordinary⟩ := hfair' actor c hstays hactor id t haims' hlevel
    exact hprotects.elim hlow (hordinary email ((congrArg (AList.lookup id) husers).trans hemail))
  · intro hcareful
    refine ⟨?_, fun actor c hphase hactor => ?_⟩
    · by_cases hact : ∃ i, a = .act i
      · obtain ⟨i, rfl⟩ := hact
        exact hmanaged.next i
      · unfold Kept
        rw [log_of_not_act fun i heq => hact ⟨i, heq⟩]
        exact hkept
    · obtain hold | ⟨actor', c', -, heq⟩ | ⟨before, hbefore, hmoves, hroster⟩ :=
        (callsStep superuserEmail σ a).mem hphase
      · exact (hfair actor c hold hactor).step hcareful hold hactor
      · cases heq
      · cases hmoves with
        | superuser _ hsuper => exact absurd hsuper hactor
        | guarded hunprotected =>
          obtain ⟨result, heq⟩ | hsame := hroster
          · cases heq
          · unfold Fair
            rw [hsame]
            exact fair_of_guard hunprotected

/-- Only the superuser manages admins, throughout a run, just when no row that makes an admin, or gives the
    superuser access, is put while somebody else's call about that row is behind the member list. -/
theorem managed_iff_careful (superuserEmail : List Char) (acts : List MemberAct) :
    Always (step superuserEmail) (Managed superuserEmail) fresh acts ↔
      AllOk (step superuserEmail) (Careful superuserEmail) fresh acts := by
  refine always_iff_allOk (I := Sound superuserEmail) (fun σ a h _ => h.step a)
    (fun σ a h hmanaged => hmanaged.step_iff h a) .fresh (Sound.fresh.managed_iff.mpr ⟨?_, ?_⟩)
  · exact fun change hchange => absurd hchange List.not_mem_nil
  · exact fun actor c hphase => absurd hphase List.not_mem_nil

/-! ## A promotion between -/

def root : AuthUser := ⟨1, ['r']⟩

def bob : AuthUser := ⟨2, ['b']⟩

def carol : AuthUser := ⟨3, ['c']⟩

/-- Bob's storage has Carol as a reader. His call to evict her passes the guard, and the superuser makes her an
    admin before its statement runs. -/
def promotion : List MemberAct :=
  [.register root.email, .register bob.email, .register carol.email,
    .createStorage, .grantForUserId 1 bob.id, .grantSuperuser 1,
    .call bob (.grantAccess 1 carol.email .r), .act 0, .act 0, .act 0,
    .call bob (.restrictAccess 1 carol.id), .act 1, .act 1,
    .call root (.grantAccess 1 carol.email .a), .act 2, .act 2,
    .act 1]

/-- Bob evicts an admin. -/
theorem promotion_lost : ¬(run (step root.email) fresh promotion).Kept root.email := by
  intro hkept
  have hlast : (run (step root.email) fresh promotion).log[2]?.map
      (fun change => (change.actor, change.before.level carol.id 1, change.after.level carol.id 1)) =
        some (bob, some .a, none) := by
    decide +kernel
  obtain ⟨change, hchange, heq⟩ := Option.map_eq_some_iff.mp hlast
  have hactor : change.actor = bob := congrArg (·.1) heq
  have hbefore : change.before.level carol.id 1 = some .a := congrArg (·.2.1) heq
  have hafter : change.after.level carol.id 1 = none := congrArg (·.2.2) heq
  have hother : ¬eqIgnoreAsciiCase change.actor.email root.email := by
    rw [hactor]
    decide
  refine (hkept change (List.mem_of_getElem? hchange) hother carol.id 1 ?_).was hbefore
  rw [hbefore, hafter]
  exact nofun

end Members

end Sarca.Server
