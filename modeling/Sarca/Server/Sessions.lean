import Sarca.Lib.Calendar
import Sarca.Lib.Run
import Sarca.Lib.Text

/-!
# Sessions of a user

A token carries the second it was issued in, and the row of the user the second after which tokens are good
(`sessions_valid_after`). Logging out, changing the password and disabling the account write the second that the
clock shows when their statement is put together. Checking the credential and issuing the tokens are steps of
their own, so something else can come between.

`Sessions` is the row of one user, the tokens that were issued and the calls under way. `epoch` counts what was
revoked so far, and a token keeps the epoch of the state that its call authenticated against; both are only
there to say which tokens may be accepted. The main result tells in which runs no token of an earlier epoch
is, and those of a changed password are.
-/

namespace Sarca.Server
open Sarca.Lib

/-- A row of `users` (Rust `models::users::User`); `sessionsValidAfter` counts whole seconds. -/
structure UserRow (η : Type*) where
  email : List Char
  passwordHash : Option η
  sessionsValidAfter : Nat
  disabledAt : Option Nat
deriving DecidableEq, Repr

/-- Rust `session_is_live`. -/
def UserRow.sessionIsLive {η : Type*} (r : UserRow η) (tokenIat : Nat) : Prop :=
  r.sessionsValidAfter ≤ tokenIat

instance UserRow.sessionIsLive.decidable {η : Type*} (r : UserRow η) (tokenIat : Nat) :
    Decidable (r.sessionIsLive tokenIat) :=
  inferInstanceAs (Decidable (_ ≤ _))

/-- The `token_type` texts. -/
inductive TokenType where
  | access
  | refresh
deriving DecidableEq, Repr

/-- The claims of a token (Rust `Claims`). `epoch` is what its call authenticated against, and `ownChange` says
    that the call changed the password. -/
structure SessionToken where
  tokenType : TokenType
  email : List Char
  iat : Nat
  exp : Nat
  epoch : Nat
  ownChange : Bool
deriving DecidableEq, Repr

/-- A token is decoded until a minute behind its `exp`. -/
def SessionToken.Unexpired (t : SessionToken) (clock : Nat) : Prop :=
  clock / second ≤ t.exp + 60

instance SessionToken.Unexpired.decidable (t : SessionToken) (clock : Nat) : Decidable (t.Unexpired clock) :=
  inferInstanceAs (Decidable (_ ≤ _))

/-- Rust `PasswordManager::verify`, and how many seconds tokens last. -/
structure AuthWorld (ρ η : Type*) where
  verify : ρ → η → Bool
  accessTokenExpire : Nat
  refreshTokenExpire : Nat

/-- What a user or the superuser asks for; tokens are given by their number. -/
inductive AuthCall (ρ η : Type*) where
  | login (password : ρ)
  | refresh (token : Nat)
  | logout (token : Nat)
  | changeOwnPassword (token : Nat) (current : ρ) (hash : η)
  | setPassword (hash : η)
  | setDisabled (disabled : Bool)

/-- An `UPDATE` of the row. -/
inductive UserUpdate (η : Type*) where
  | revokeSessions
  | updatePasswordHashById (hash : η) (own : Bool)
  | disable
  | enable

inductive AuthPhase (ρ η : Type*) where
  | arrived (call : AuthCall ρ η)
  /-- the token was decoded; the row is still to be read -/
  | decoded (call : AuthCall ρ η) (t : SessionToken)
  | loggedIn (call : AuthCall ρ η)
  /-- a statement whose seconds are still to be read off the clock -/
  | updating (update : UserUpdate η)
  | bound (update : UserUpdate η) (timestamp : Nat)
  | issuing (tokenType : TokenType) (epoch : Nat) (ownChange : Bool)
  | over

structure Sessions (ρ η : Type*) where
  clock : Nat
  row : UserRow η
  epoch : Nat
  tokens : List SessionToken
  calls : List (AuthPhase ρ η)

inductive AuthAct (ρ η : Type*) where
  /-- the clock of the system shows another time -/
  | clock (nanos : Nat)
  | call (c : AuthCall ρ η)
  /-- the next step of a call; without `ok` its statement fails, or it is dropped -/
  | act (i : Nat) (ok : Bool)
  /-- the process starts again; `create_superuser` writes the hash of the configured password -/
  | boot (hash : Option η)

namespace Sessions

variable {ρ η : Type*} (w : AuthWorld ρ η) (σ : Sessions ρ η)

def fresh (email : List Char) (hash : Option η) : Sessions ρ η :=
  ⟨0, ⟨email, hash, 0, none⟩, 0, [], []⟩

/-- Where the call stands once its token is decoded. -/
def decode (call : AuthCall ρ η) (token : Nat) (tokenType : TokenType) : AuthPhase ρ η :=
  match σ.tokens[token]? with
  | some t => if t.tokenType = tokenType ∧ t.Unexpired σ.clock then .decoded call t else .over
  | none => .over

/-- Where the call stands once it has read the row. -/
def readRow (call : AuthCall ρ η) (t : SessionToken) : AuthPhase ρ η :=
  match call with
  | .refresh _ =>
    if eqIgnoreAsciiCase σ.row.email t.email ∧ σ.row.sessionIsLive t.iat ∧ σ.row.disabledAt = none then
      .issuing .access σ.epoch false
    else .over
  -- Rust `logged_in_required`
  | .logout _ | .changeOwnPassword _ _ _ =>
    if σ.row.sessionIsLive t.iat ∧ σ.row.disabledAt = none then .loggedIn call else .over
  | _ => .over

def Knows (password : ρ) : Prop :=
  ∃ hash ∈ σ.row.passwordHash, w.verify password hash = true

instance Knows.decidable (password : ρ) : Decidable (σ.Knows w password) :=
  match h : σ.row.passwordHash with
  | none => isFalse fun ⟨hash, hin, _⟩ => Option.some_ne_none hash (hin.symm.trans h)
  | some hash => decidable_of_iff (w.verify password hash = true) <| by
    unfold Knows
    rw [h]
    exact ⟨fun hv => ⟨hash, rfl, hv⟩, fun ⟨_, heq, hv⟩ => Option.some.inj heq ▸ hv⟩

def update (u : UserUpdate η) (timestamp : Nat) : UserRow η :=
  match u with
  | .revokeSessions => { σ.row with sessionsValidAfter := timestamp }
  | .updatePasswordHashById hash _ =>
    { σ.row with passwordHash := some hash, sessionsValidAfter := timestamp }
  | .disable => { σ.row with disabledAt := some timestamp, sessionsValidAfter := timestamp }
  | .enable => { σ.row with disabledAt := none }

def epochAfter : UserUpdate η → Nat
  | .enable => σ.epoch
  | _ => σ.epoch + 1

def afterUpdate : UserUpdate η → AuthPhase ρ η
  | .updatePasswordHashById _ true => .issuing .access (σ.epoch + 1) true
  | _ => .over

/-- Rust `JWTManager::generate`. -/
def generate (tokenType : TokenType) (epoch : Nat) (ownChange : Bool) : SessionToken where
  tokenType := tokenType
  email := σ.row.email
  iat := σ.clock / second
  exp := σ.clock / second + match tokenType with
    | .access => w.accessTokenExpire
    | .refresh => w.refreshTokenExpire
  epoch := epoch
  ownChange := ownChange

def setCall (i : Nat) (phase : AuthPhase ρ η) : Sessions ρ η :=
  { σ with calls := σ.calls.set i phase }

def advance (i : Nat) : AuthPhase ρ η → Sessions ρ η
  | .arrived call =>
    match call with
    | .login password =>
      σ.setCall i (if σ.row.disabledAt = none ∧ σ.Knows w password then .issuing .access σ.epoch false
        else .over)
    | .refresh token => σ.setCall i (σ.decode call token .refresh)
    | .logout token | .changeOwnPassword token _ _ => σ.setCall i (σ.decode call token .access)
    | .setPassword hash => σ.setCall i (.updating (.updatePasswordHashById hash false))
    | .setDisabled disabled => σ.setCall i (.updating (if disabled then .disable else .enable))
  | .decoded call t => σ.setCall i (σ.readRow call t)
  | .loggedIn call =>
    match call with
    | .logout _ => σ.setCall i (.updating .revokeSessions)
    | .changeOwnPassword _ current hash =>
      σ.setCall i (if σ.Knows w current then .updating (.updatePasswordHashById hash true) else .over)
    | _ => σ.setCall i .over
  | .updating u => σ.setCall i (.bound u (σ.clock / second))
  | .bound u timestamp =>
    { σ.setCall i (σ.afterUpdate u) with row := σ.update u timestamp, epoch := σ.epochAfter u }
  | .issuing tokenType epoch ownChange =>
    { σ.setCall i (match tokenType with
        | .access => .issuing .refresh epoch ownChange
        | .refresh => .over) with
      tokens := σ.tokens ++ [σ.generate w tokenType epoch ownChange] }
  | .over => σ

def step : AuthAct ρ η → Sessions ρ η
  | .clock nanos => { σ with clock := nanos }
  | .call c => { σ with calls := σ.calls ++ [.arrived c] }
  | .act i ok =>
    match σ.calls[i]? with
    | some phase => if ok then σ.advance w i phase else σ.setCall i .over
    | none => σ
  | .boot hash =>
    { σ with
      row := { σ.row with passwordHash := hash.or σ.row.passwordHash }
      calls := [] }

/-- A token is accepted: by `logged_in_required`, or by `refresh`. -/
def Accepts (t : SessionToken) : Prop :=
  σ.row.sessionIsLive t.iat ∧ σ.row.disabledAt = none ∧ t.Unexpired σ.clock ∧
    (t.tokenType = .refresh → eqIgnoreAsciiCase σ.row.email t.email)

/-- No token is accepted whose call authenticated against a state that was revoked since, and those of a call
    that changed the password are live until something is revoked. -/
structure Revoked : Prop where
  evicted : ∀ t ∈ σ.tokens, σ.Accepts t → t.epoch = σ.epoch
  kept : ∀ t ∈ σ.tokens, t.ownChange = true → t.epoch = σ.epoch → σ.row.sessionIsLive t.iat

/-- The side condition of what a call does next. -/
def CarefulPhase : AuthPhase ρ η → Prop
  | .bound .enable _ => ∀ t ∈ σ.tokens, t.epoch ≠ σ.epoch → t.Unexpired σ.clock → ¬σ.row.sessionIsLive t.iat
  | .bound .disable _ => True
  | .bound _ timestamp => σ.row.disabledAt = none → ∀ t ∈ σ.tokens, t.Unexpired σ.clock → t.iat < timestamp
  | .issuing _ epoch ownChange =>
    if epoch = σ.epoch then ownChange = true → σ.row.sessionIsLive (σ.clock / second)
    else σ.row.disabledAt = none → ¬σ.row.sessionIsLive (σ.clock / second)
  | _ => True

/-- The side condition of a step. What is revoked is revoked in a later second than the tokens that are out were
    issued in; a call whose state was revoked issues its tokens in an earlier second than that; an account is
    enabled, and the clock set, when the tokens that were revoked are dead by their seconds. -/
def Careful : AuthAct ρ η → Prop
  | .clock nanos => ∀ t ∈ σ.tokens, t.epoch ≠ σ.epoch → σ.row.sessionIsLive t.iat →
    σ.row.disabledAt = none → ¬t.Unexpired nanos
  | .act i true => ∀ phase ∈ σ.calls[i]?, σ.CarefulPhase phase
  | _ => True

variable {w σ} {t : SessionToken} {i : Nat} {phase : AuthPhase ρ η}

/-! ## What every step keeps -/

/-- Nothing is of a later epoch than the row, and tokens name its address. -/
structure Sound (σ : Sessions ρ η) : Prop where
  email : ∀ t ∈ σ.tokens, t.email = σ.row.email
  issued : ∀ t ∈ σ.tokens, t.epoch ≤ σ.epoch
  issuing : ∀ tokenType epoch ownChange, .issuing tokenType epoch ownChange ∈ σ.calls → epoch ≤ σ.epoch

lemma Sound.fresh (email : List Char) (hash : Option η) : Sound (fresh (ρ := ρ) email hash) where
  email _ ht := absurd ht List.not_mem_nil
  issued _ ht := absurd ht List.not_mem_nil
  issuing _ _ _ hcall := absurd hcall List.not_mem_nil

lemma Sound.setCall (h : σ.Sound)
    (hissuing : ∀ tokenType epoch ownChange, phase = .issuing tokenType epoch ownChange → epoch ≤ σ.epoch) :
    (σ.setCall i phase).Sound := by
  refine ⟨h.email, h.issued, fun tokenType epoch ownChange hcall => ?_⟩
  obtain hcall | heq := List.mem_or_eq_of_mem_set hcall
  · exact h.issuing tokenType epoch ownChange hcall
  · exact hissuing tokenType epoch ownChange heq.symm

lemma Sound.decode (h : σ.Sound) (call : AuthCall ρ η) (token : Nat) (tokenType : TokenType) :
    (σ.setCall i (σ.decode call token tokenType)).Sound := by
  refine h.setCall fun _ _ _ heq => ?_
  unfold Sessions.decode at heq
  split at heq
  · split at heq <;> cases heq
  · cases heq

lemma Sound.advance (h : σ.Sound) (hphase : σ.calls[i]? = some phase) : (σ.advance w i phase).Sound := by
  have hnone : ∀ phase : AuthPhase ρ η, (∀ tokenType epoch ownChange,
      phase ≠ .issuing tokenType epoch ownChange) → (σ.setCall i phase).Sound :=
    fun phase hne => h.setCall fun tokenType epoch ownChange heq => absurd heq (hne tokenType epoch ownChange)
  cases phase with
  | arrived call =>
    cases call with
    | login password =>
      refine h.setCall fun _ _ _ heq => ?_
      split at heq
      · cases heq
        exact Nat.le_refl _
      · cases heq
    | refresh token => exact h.decode _ token .refresh
    | logout token => exact h.decode _ token .access
    | changeOwnPassword token current hash => exact h.decode _ token .access
    | setPassword hash => exact hnone _ nofun
    | setDisabled disabled => exact hnone _ nofun
  | decoded call t =>
    refine h.setCall fun _ _ _ heq => ?_
    unfold Sessions.readRow at heq
    split at heq
    · split at heq
      · cases heq
        exact Nat.le_refl _
      · cases heq
    · split at heq <;> cases heq
    · split at heq <;> cases heq
    · cases heq
  | loggedIn call =>
    cases call with
    | logout token => exact hnone _ nofun
    | changeOwnPassword token current hash =>
      refine hnone _ fun _ _ _ heq => ?_
      split at heq <;> cases heq
    | _ => exact hnone _ nofun
  | updating u => exact hnone _ nofun
  | bound u timestamp =>
    have hle : σ.epoch ≤ σ.epochAfter u := by
      cases u with
      | enable => exact Nat.le_refl _
      | _ => exact Nat.le_succ _
    have hemail : (σ.update u timestamp).email = σ.row.email := by
      cases u <;> rfl
    refine ⟨fun t ht => (h.email t ht).trans hemail.symm, fun t ht => (h.issued t ht).trans hle, ?_⟩
    intro tokenType epoch ownChange hcall
    obtain hcall | heq := List.mem_or_eq_of_mem_set hcall
    · exact (h.issuing tokenType epoch ownChange hcall).trans hle
    · unfold Sessions.afterUpdate at heq
      split at heq
      · cases heq
        exact Nat.le_refl _
      · cases heq
  | issuing tokenType epoch ownChange =>
    have hepoch := h.issuing tokenType epoch ownChange (List.mem_of_getElem? hphase)
    refine ⟨fun t ht => ?_, fun t ht => ?_, fun tokenType' epoch' ownChange' hcall => ?_⟩
    · obtain ht | ht := List.mem_append.mp ht
      · exact h.email t ht
      · rw [List.mem_singleton.mp ht]
        rfl
    · obtain ht | ht := List.mem_append.mp ht
      · exact h.issued t ht
      · rw [List.mem_singleton.mp ht]
        exact hepoch
    · obtain hcall | heq := List.mem_or_eq_of_mem_set hcall
      · exact h.issuing tokenType' epoch' ownChange' hcall
      · split at heq
        · cases heq
          exact hepoch
        · cases heq
  | _ => exact h

lemma Sound.step (h : σ.Sound) (a : AuthAct ρ η) : (σ.step w a).Sound := by
  cases a with
  | clock nanos => exact ⟨h.email, h.issued, h.issuing⟩
  | call c =>
    refine ⟨h.email, h.issued, fun tokenType epoch ownChange hcall => ?_⟩
    obtain hcall | hcall := List.mem_append.mp hcall
    · exact h.issuing tokenType epoch ownChange hcall
    · cases List.mem_singleton.mp hcall
  | act i ok =>
    simp only [Sessions.step]
    cases hphase : σ.calls[i]? with
    | none => exact h
    | some phase =>
      cases ok with
      | true => exact h.advance hphase
      | false => exact h.setCall fun _ _ _ heq => by cases heq
  | boot hash => exact ⟨h.email, h.issued, fun _ _ _ hcall => absurd hcall List.not_mem_nil⟩

/-! ## When a step leaves the tokens well -/

lemma Sound.accepts_iff (h : σ.Sound) (ht : t ∈ σ.tokens) :
    σ.Accepts t ↔ σ.row.sessionIsLive t.iat ∧ σ.row.disabledAt = none ∧ t.Unexpired σ.clock := by
  constructor
  · intro ⟨hlive, henabled, hunexpired, _⟩
    exact ⟨hlive, henabled, hunexpired⟩
  · intro ⟨hlive, henabled, hunexpired⟩
    refine ⟨hlive, henabled, hunexpired, fun _ => ?_⟩
    unfold eqIgnoreAsciiCase
    rw [h.email t ht]

lemma careful_act (hphase : σ.calls[i]? = some phase) :
    σ.Careful (.act i true) ↔ σ.CarefulPhase phase := by
  show (∀ phase ∈ σ.calls[i]?, σ.CarefulPhase phase) ↔ _
  rw [hphase]
  exact ⟨fun hall => hall phase rfl, fun hcareful _ heq => Option.some.inj heq ▸ hcareful⟩

lemma Revoked.evict_iff (h : σ.Sound) {row : UserRow η} {timestamp : Nat} {calls : List (AuthPhase ρ η)}
    (hemail : row.email = σ.row.email) (hdisabled : row.disabledAt = σ.row.disabledAt)
    (hstamp : row.sessionsValidAfter = timestamp) :
    ({ σ with row := row, epoch := σ.epoch + 1, calls := calls } : Sessions ρ η).Revoked ↔
      (σ.row.disabledAt = none → ∀ t ∈ σ.tokens, t.Unexpired σ.clock → t.iat < timestamp) := by
  have hold : ∀ t ∈ σ.tokens, t.epoch ≠ σ.epoch + 1 := fun t ht =>
    Nat.ne_of_lt (Nat.lt_succ_of_le (h.issued t ht))
  constructor
  · intro hrevoked henabled t ht hunexpired
    refine Nat.lt_of_not_le fun hle => hold t ht (hrevoked.evicted t ht ⟨?_, ?_, hunexpired, fun _ => ?_⟩)
    · exact hstamp.trans_le hle
    · exact hdisabled.trans henabled
    · show eqIgnoreAsciiCase row.email t.email
      unfold eqIgnoreAsciiCase
      rw [h.email t ht, hemail]
  · intro hdead
    refine ⟨fun t ht haccepts => ?_, fun t ht _ hepoch => absurd hepoch (hold t ht)⟩
    obtain ⟨hlive, henabled, hunexpired, -⟩ := haccepts
    have hlt := hdead (hdisabled.symm.trans henabled) t ht hunexpired
    exact absurd (hstamp.symm.trans_le hlive) (Nat.not_le.mpr hlt)

lemma Revoked.enable_iff (h : σ.Sound) (hr : σ.Revoked) {calls : List (AuthPhase ρ η)} :
    ({ σ with row := { σ.row with disabledAt := none }, calls := calls } : Sessions ρ η).Revoked ↔
      ∀ t ∈ σ.tokens, t.epoch ≠ σ.epoch → t.Unexpired σ.clock → ¬σ.row.sessionIsLive t.iat := by
  constructor
  · intro hrevoked t ht hne hunexpired hlive
    refine hne (hrevoked.evicted t ht ⟨hlive, rfl, hunexpired, fun _ => ?_⟩)
    show eqIgnoreAsciiCase σ.row.email t.email
    unfold eqIgnoreAsciiCase
    rw [h.email t ht]
  · intro hdead
    refine ⟨fun t ht haccepts => ?_, hr.kept⟩
    obtain ⟨hlive, -, hunexpired, -⟩ := haccepts
    by_contra hne
    exact hdead t ht hne hunexpired hlive

lemma Revoked.generate_iff (hr : σ.Revoked) {tokenType : TokenType} {epoch : Nat} {ownChange : Bool}
    {calls : List (AuthPhase ρ η)} :
    ({ σ with
        tokens := σ.tokens ++ [σ.generate w tokenType epoch ownChange]
        calls := calls } : Sessions ρ η).Revoked ↔
      if epoch = σ.epoch then ownChange = true → σ.row.sessionIsLive (σ.clock / second)
      else σ.row.disabledAt = none → ¬σ.row.sessionIsLive (σ.clock / second) := by
  have hlast : σ.generate w tokenType epoch ownChange ∈
      σ.tokens ++ [σ.generate w tokenType epoch ownChange] :=
    List.mem_append_right _ (List.mem_singleton_self _)
  have hunexpired : (σ.generate w tokenType epoch ownChange).Unexpired σ.clock :=
    (Nat.le_add_right _ _).trans (Nat.le_add_right _ _)
  constructor
  · intro hrevoked
    split
    · case isTrue heq => exact fun hown => hrevoked.kept _ hlast hown heq
    · case isFalse hne =>
      intro henabled hlive
      exact hne (hrevoked.evicted _ hlast ⟨hlive, henabled, hunexpired, fun _ => rfl⟩)
  · intro hcareful
    refine ⟨fun t ht haccepts => ?_, fun t ht hown hepoch => ?_⟩
    · obtain ht | ht := List.mem_append.mp ht
      · exact hr.evicted t ht haccepts
      · rw [List.mem_singleton.mp ht] at haccepts ⊢
        by_contra hne
        have hother : epoch ≠ σ.epoch := hne
        rw [if_neg hother] at hcareful
        exact hcareful haccepts.2.1 haccepts.1
    · obtain ht | ht := List.mem_append.mp ht
      · exact hr.kept t ht hown hepoch
      · rw [List.mem_singleton.mp ht] at hown hepoch ⊢
        have hcurrent : epoch = σ.epoch := hepoch
        rw [if_pos hcurrent] at hcareful
        exact hcareful hown

lemma Revoked.advance_iff (h : σ.Sound) (hr : σ.Revoked) (phase : AuthPhase ρ η) :
    (σ.advance w i phase).Revoked ↔ σ.CarefulPhase phase := by
  -- where a call stands says nothing about tokens
  have hmoved : ∀ phase' : AuthPhase ρ η, (σ.setCall i phase').Revoked := fun _ => ⟨hr.evicted, hr.kept⟩
  cases phase with
  | arrived call => cases call <;> exact iff_of_true (hmoved _) trivial
  | decoded call t => exact iff_of_true (hmoved _) trivial
  | loggedIn call => cases call <;> exact iff_of_true (hmoved _) trivial
  | updating u => exact iff_of_true (hmoved _) trivial
  | bound u timestamp =>
    cases u with
    | revokeSessions => exact evict_iff h rfl rfl rfl
    | updatePasswordHashById hash own => exact evict_iff h rfl rfl rfl
    | enable => exact hr.enable_iff h
    | disable =>
      refine iff_of_true ⟨fun t ht haccepts => ?_, fun t ht _ hepoch => ?_⟩ trivial
      · exact absurd haccepts.2.1 (Option.some_ne_none _)
      · exact absurd hepoch (Nat.ne_of_lt (Nat.lt_succ_of_le (h.issued t ht)))
  | issuing tokenType epoch ownChange => exact hr.generate_iff
  | _ => exact iff_of_true hr trivial

lemma Revoked.step_iff (h : σ.Sound) (hr : σ.Revoked) (a : AuthAct ρ η) :
    (σ.step w a).Revoked ↔ σ.Careful a := by
  cases a with
  | clock nanos =>
    constructor
    · intro hrevoked t ht hne hlive henabled hunexpired
      have hτ : (σ.step w (.clock nanos)).Sound := h.step _
      exact hne (hrevoked.evicted t ht ((hτ.accepts_iff ht).mpr ⟨hlive, henabled, hunexpired⟩))
    · intro hdead
      refine ⟨fun t ht haccepts => ?_, hr.kept⟩
      by_contra hne
      exact hdead t ht hne haccepts.1 haccepts.2.1 haccepts.2.2.1
  | call c => exact iff_of_true ⟨hr.evicted, hr.kept⟩ trivial
  | act i ok =>
    simp only [Sessions.step]
    cases ok with
    | true =>
      cases hphase : σ.calls[i]? with
      | none =>
        refine iff_of_true hr fun phase hin => ?_
        rw [hphase] at hin
        cases hin
      | some phase => exact (hr.advance_iff h phase).trans (careful_act hphase).symm
    | false =>
      refine iff_of_true ?_ trivial
      cases σ.calls[i]? with
      | none => exact hr
      | some phase => exact ⟨hr.evicted, hr.kept⟩
  | boot hash => exact iff_of_true ⟨hr.evicted, hr.kept⟩ trivial

/-- In a run no token is accepted that was revoked, by the state its call authenticated against, and those of a
    changed password stay live, just when every step of the run is careful. -/
theorem revoked_iff_careful (w : AuthWorld ρ η) (email : List Char) (hash : Option η)
    (acts : List (AuthAct ρ η)) :
    Always (fun σ a => σ.step w a) Revoked (fresh email hash) acts ↔
      AllOk (fun σ a => σ.step w a) (fun σ a => σ.Careful a) (fresh email hash) acts := by
  refine always_iff_allOk (I := Sound) (fun _ a h _ => h.step a) (fun _ a h hr => hr.step_iff h a)
    (.fresh email hash) ?_
  exact ⟨fun _ ht => absurd ht List.not_mem_nil, fun _ ht => absurd ht List.not_mem_nil⟩

/-! ### A second that is too long -/

def plainAuth : AuthWorld Nat Nat where
  verify password hash := password = hash
  accessTokenExpire := 1800
  refreshTokenExpire := 1209600

/-- A user signs in, and half a second later signs out everywhere. -/
def signOut : List (AuthAct Nat Nat) :=
  [.clock (1789992000 * second + 200 * 1000000), .call (.login 7), .act 0 true, .act 0 true, .act 0 true,
    .clock (1789992000 * second + 700 * 1000000), .call (.logout 0), .act 1 true, .act 1 true, .act 1 true,
    .act 1 true, .act 1 true]

/-- The tokens of before are accepted behind it. -/
theorem signOut_survived :
    (∃ t ∈ (run (fun σ a => σ.step plainAuth a) (fresh [] (some 7)) signOut).tokens, t.epoch = 0 ∧
      (run (fun σ a => σ.step plainAuth a) (fresh [] (some 7)) signOut).Accepts t) ∧
    ¬∀ acts, Always (fun σ a => σ.step plainAuth a) Revoked (fresh [] (some 7)) acts := by
  have hend : (run (fun σ a => σ.step plainAuth a) (fresh [] (some 7)) signOut).epoch = 1 := by
    decide +kernel
  have hsurvived : ∃ t ∈ (run (fun σ a => σ.step plainAuth a) (fresh [] (some 7)) signOut).tokens,
      t.epoch = 0 ∧ (run (fun σ a => σ.step plainAuth a) (fresh [] (some 7)) signOut).Accepts t := by
    unfold Accepts
    decide +kernel
  refine ⟨hsurvived, fun h => ?_⟩
  obtain ⟨t, ht, hepoch, haccepts⟩ := hsurvived
  have hcurrent := (h signOut).last.evicted t ht haccepts
  rw [hepoch, hend] at hcurrent
  exact absurd hcurrent (by decide)

end Sessions

end Sarca.Server
