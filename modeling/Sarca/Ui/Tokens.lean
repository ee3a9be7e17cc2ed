import Sarca.Lib.Run

/-!
# The session of the page

`api/request.js` keeps an access and a refresh token in the local store. A request that is answered 401, or that
finds its token expired, waits on `tryRefreshToken`, and every waiting request shares the one promise in
`refreshPromise`. Two places remove the tokens: `tryRefreshToken` itself, on an answer that is not ok, and
`forceReLogin`, once in the life of a page.

`Page` is the module's state with the requests and the refreshes under way; an `Act` is an answer, the callback
of a promise, or something the user does. A page sees of a refresh only the token or `null`; `Outcome` says
beside it where the `null` comes from. `RefreshChange` is all that an act does to the refreshes, and
`page_sound` what holds in every run.
-/

namespace Sarca.Ui.Tokens
open Sarca.Lib

abbrev Token := String

inductive Outcome where
  | renewed (access : Token)
  /-- answered 401 -/
  | rejected
  /-- answered with another error -/
  | refused (status : Nat)
  /-- no answer, or none that can be read -/
  | failed
  /-- there was no refresh token -/
  | noToken
deriving DecidableEq, Repr

def Outcome.token : Outcome → Option Token
  | .renewed access => some access
  | _ => none

/-- A refresh: `fetch` is under way, the body is, or it has ended. -/
inductive Refresh where
  | sent
  | reading
  | settled (outcome : Outcome)
deriving DecidableEq, Repr

def Refresh.inFlight : Refresh → Bool
  | .sent | .reading => true
  | .settled _ => false

inductive Caller where
  | apiRequest
  | apiMultipartRequest
  | getFreshAccessToken
deriving DecidableEq, Repr

/-- Where a request stands; a refresh is named by its number. -/
inductive Stage where
  | fetching (authToken : Option Token) (retried : Bool)
  | waiting (refresh : Nat)
  | ended
deriving DecidableEq, Repr

/-- A request, with the refresh it has waited on and what that gave it. -/
structure Request where
  caller : Caller
  stage : Stage
  seen : Option (Nat × Option Token)
deriving DecidableEq, Repr

/-- The tokens in the local store, the module's variables, and what is under way. -/
structure Page where
  accessToken : Option Token
  refreshToken : Option Token
  refreshPromise : Option Nat
  sessionExpiredHandled : Bool
  refreshes : List Refresh
  requests : List Request
deriving DecidableEq, Repr

def truthy (text : Option String) : Bool :=
  text.getD "" ≠ ""

namespace Page

def load (accessToken refreshToken : Option Token) : Page :=
  ⟨accessToken, refreshToken, none, false, [], []⟩

def removeTokens (p : Page) : Page :=
  { p with accessToken := none, refreshToken := none }

/-- The tokens go, and the browser is sent to `/login`. -/
def forceReLogin (p : Page) : Page :=
  if p.sessionExpiredHandled then p else { p.removeTokens with sessionExpiredHandled := true }

/-- The refresh that the caller waits on. Without a refresh token there is nothing to wait for, and
    `refreshPromise` stays as it is. -/
def tryRefreshToken (p : Page) : Page × Nat :=
  match p.refreshPromise with
  | some j => (p, j)
  | none =>
    let refresh := if truthy p.refreshToken then .sent else .settled .noToken
    ({ p with refreshes := p.refreshes ++ [refresh], refreshPromise := some p.refreshes.length },
      p.refreshes.length)

/-- The promise of a refresh resolves, behind its `finally`. -/
def settle (p : Page) (j : Nat) (outcome : Outcome) : Page :=
  { p with refreshes := p.refreshes.set j (.settled outcome), refreshPromise := none }

/-- The answer to a refresh, or none where the connection drops. -/
def refreshed (p : Page) (j : Nat) : Option Nat → Page
  | none => p.settle j .failed
  | some status =>
    if 200 ≤ status ∧ status < 300 then { p with refreshes := p.refreshes.set j .reading }
    else p.removeTokens.settle j (if status = 401 then .rejected else .refused status)

/-- The body of a refresh, or none where it cannot be read. -/
def refreshBody (p : Page) (j : Nat) : Option (Token × Token) → Page
  | none => p.settle j .failed
  | some (access, refresh) =>
    { p with accessToken := some access, refreshToken := some refresh }.settle j (.renewed access)

def setRequest (p : Page) (i : Nat) (r : Request) : Page :=
  { p with requests := p.requests.set i r }

/-- A request that was answered 401 refreshes once; `apiRequest` gives up after its second try. -/
def unauthorized (p : Page) (i : Nat) (r : Request) (retried : Bool) : Page :=
  if retried then
    let p := if r.caller = .apiRequest then p.forceReLogin else p
    p.setRequest i { r with stage := .ended }
  else
    let (p, j) := p.tryRefreshToken
    p.setRequest i { r with stage := .waiting j }

/-- The answer to a request, or none where there is none. -/
def answer (p : Page) (i : Nat) (status : Option Nat) : Page :=
  match p.requests[i]? with
  | some r =>
    match r.stage with
    | .fetching authToken retried =>
      if status = some 401 ∧ truthy authToken then p.unauthorized i r retried
      else p.setRequest i { r with stage := .ended }
    | _ => p
  | none => p

/-- A request goes on with what its refresh has given. -/
def wake (p : Page) (i : Nat) : Page :=
  match p.requests[i]? with
  | some r =>
    match r.stage with
    | .waiting j =>
      match p.refreshes[j]? with
      | some (.settled outcome) =>
        let r := { r with seen := some (j, outcome.token) }
        match outcome.token with
        | some access =>
          p.setRequest i { r with
            stage := if r.caller = .getFreshAccessToken then .ended else .fetching (some ("Bearer " ++ access)) true }
        | none => p.forceReLogin.setRequest i { r with stage := .ended }
      | _ => p
    | _ => p
  | none => p

/-- A call of `getFreshAccessToken`, where the access token is expired or not. -/
def getFreshAccessToken (p : Page) (expired : Bool) : Page :=
  if truthy p.accessToken ∧ expired then
    let (p, j) := p.tryRefreshToken
    { p with requests := p.requests ++ [⟨.getFreshAccessToken, .waiting j, none⟩] }
  else { p with requests := p.requests ++ [⟨.getFreshAccessToken, .ended, none⟩] }

end Page

inductive Act where
  /-- a call of `apiRequest` or `apiMultipartRequest` -/
  | request (multipart : Bool) (authToken : Option Token)
  | getFreshAccessToken (expired : Bool)
  | answer (i : Nat) (status : Option Nat)
  | refreshed (j : Nat) (status : Option Nat)
  | refreshBody (j : Nat) (tokens : Option (Token × Token))
  | wake (i : Nat)
  /-- a sign-in, or a change of the password -/
  | signIn (accessToken refreshToken : Token)
  /-- `clearSession` -/
  | signOut
deriving DecidableEq, Repr

/-- One act; an answer that nothing waits for does nothing. -/
def Page.step (p : Page) : Act → Page
  | .request multipart authToken =>
    let caller := if multipart then .apiMultipartRequest else .apiRequest
    { p with requests := p.requests ++ [⟨caller, .fetching authToken false, none⟩] }
  | .getFreshAccessToken expired => p.getFreshAccessToken expired
  | .answer i status => p.answer i status
  | .refreshed j status => if p.refreshes[j]? = some .sent then p.refreshed j status else p
  | .refreshBody j tokens => if p.refreshes[j]? = some .reading then p.refreshBody j tokens else p
  | .wake i => p.wake i
  | .signIn accessToken refreshToken =>
    { p with accessToken := some accessToken, refreshToken := some refreshToken }
  | .signOut => p.removeTokens

/-! ## What holds of a session -/

def Page.InFlight (p : Page) (j : Nat) : Prop :=
  ∃ r, p.refreshes[j]? = some r ∧ r.inFlight = true

def Loses (p p' : Page) : Prop :=
  p.accessToken.isSome ∧ p'.accessToken = none ∨ p.refreshToken.isSome ∧ p'.refreshToken = none

/-- An act has to do with a refresh: it answers it, or wakes a request that waits on it. -/
inductive Concerns (p : Page) (j : Nat) : Act → Prop
  | refreshed {status : Option Nat} : p.refreshes[j]? = some .sent → Concerns p j (.refreshed j status)
  | wake {i : Nat} {r : Request} : p.requests[i]? = some r → r.stage = .waiting j → Concerns p j (.wake i)

/-- Why a refresh has not brought a token, in a page that was loaded as `start` and has come through `acts`. -/
inductive Why (start : Page) (acts : List Act) (j : Nat) : Outcome → Prop
  | rejected : .refreshed j (some 401) ∈ acts → Why start acts j .rejected
  | noToken {before : List Act} : before <+: acts → truthy (run Page.step start before).refreshToken = false →
      Why start acts j .noToken
  /-- of these ends nothing is said -/
  | refused {status : Nat} : Why start acts j (.refused status)
  | failed : Why start acts j .failed

/-- Why an act may end the session behind `acts`. -/
inductive Ends (start : Page) (acts : List Act) (a : Act) : Prop
  | signOut : a = .signOut → Ends start acts a
  /-- the fresh token is not accepted either -/
  | again {i : Nat} {r : Request} {authToken : Option Token} : a = .answer i (some 401) →
      (run Page.step start acts).requests[i]? = some r → r.caller = .apiRequest →
      r.stage = .fetching authToken true → Ends start acts a
  | refresh {j : Nat} {outcome : Outcome} : Concerns (run Page.step start acts) j a →
      (run Page.step start (acts ++ [a])).refreshes[j]? = some (.settled outcome) →
      Why start (acts ++ [a]) j outcome → Ends start acts a

/-! ## What an act does to the refreshes -/

/-- What an act makes of `refreshPromise` and the refreshes. -/
inductive RefreshChange (p : Page) (a : Act) : Option Nat → List Refresh → Prop
  | none : RefreshChange p a p.refreshPromise p.refreshes
  | sent : p.refreshPromise = none →
      RefreshChange p a (some p.refreshes.length) (p.refreshes ++ [.sent])
  | noToken : p.refreshPromise = none → truthy p.refreshToken = false →
      RefreshChange p a (some p.refreshes.length) (p.refreshes ++ [.settled .noToken])
  | reading {j : Nat} : p.refreshes[j]? = some .sent →
      RefreshChange p a p.refreshPromise (p.refreshes.set j .reading)
  | settled {j : Nat} {outcome : Outcome} : p.InFlight j → outcome ≠ .noToken →
      (outcome = .rejected → a = .refreshed j (some 401)) →
      RefreshChange p a none (p.refreshes.set j (.settled outcome))

section Change

variable {p : Page} {a : Act}

lemma getElem?_concat {l : List Refresh} {r r' : Refresh} {j : Nat} (h : (l ++ [r])[j]? = some r') :
    l[j]? = some r' ∨ j = l.length ∧ r' = r := by
  obtain hlt | hle := Nat.lt_or_ge j l.length
  · rw [List.getElem?_append_left hlt] at h
    exact .inl h
  · have heq : j = l.length := by
      have hlength := (List.getElem?_eq_some_iff.mp h).1
      rw [List.length_append, List.length_singleton] at hlength
      omega
    rw [heq, List.getElem?_concat_length] at h
    exact .inr ⟨heq, (Option.some.inj h).symm⟩

lemma getElem?_set_some {l : List Refresh} {r r' : Refresh} {i j : Nat} (h : (l.set i r)[j]? = some r') :
    i ≠ j ∧ l[j]? = some r' ∨ i = j ∧ r' = r := by
  by_cases heq : i = j
  · rw [List.getElem?_set, if_pos heq] at h
    split at h
    · exact .inr ⟨heq, (Option.some.inj h).symm⟩
    · exact absurd h.symm (Option.some_ne_none r')
  · rw [List.getElem?_set_ne heq] at h
    exact .inl ⟨heq, h⟩

@[simp] lemma refreshes_forceReLogin : p.forceReLogin.refreshes = p.refreshes := by
  unfold Page.forceReLogin
  split
  · rfl
  · rfl

@[simp] lemma refreshPromise_forceReLogin : p.forceReLogin.refreshPromise = p.refreshPromise := by
  unfold Page.forceReLogin
  split
  · rfl
  · rfl

@[simp] lemma requests_forceReLogin : p.forceReLogin.requests = p.requests := by
  unfold Page.forceReLogin
  split
  · rfl
  · rfl

lemma change_tryRefreshToken :
    RefreshChange p a p.tryRefreshToken.1.refreshPromise p.tryRefreshToken.1.refreshes := by
  unfold Page.tryRefreshToken
  cases hp : p.refreshPromise with
  | some j =>
    show RefreshChange p a p.refreshPromise p.refreshes
    exact .none
  | none =>
    cases ht : truthy p.refreshToken with
    | true => exact .sent hp
    | false => exact .noToken hp ht

lemma change_unauthorized {i : Nat} {r : Request} {retried : Bool} :
    RefreshChange p a (p.unauthorized i r retried).refreshPromise (p.unauthorized i r retried).refreshes := by
  unfold Page.unauthorized Page.setRequest
  split
  · split
    · simp only [refreshes_forceReLogin, refreshPromise_forceReLogin]
      exact .none
    · exact .none
  · exact change_tryRefreshToken

lemma change_answer {i : Nat} {status : Option Nat} :
    RefreshChange p a (p.answer i status).refreshPromise (p.answer i status).refreshes := by
  unfold Page.answer
  split
  · split
    · split
      · exact change_unauthorized
      · exact .none
    · exact .none
  · exact .none

lemma change_wake {i : Nat} : RefreshChange p a (p.wake i).refreshPromise (p.wake i).refreshes := by
  unfold Page.wake
  split
  · split
    · split
      · dsimp only
        split
        · exact .none
        · simp only [Page.setRequest, refreshes_forceReLogin, refreshPromise_forceReLogin]
          exact .none
      · exact .none
    · exact .none
  · exact .none

lemma change_refreshed {j : Nat} {status : Option Nat} (h : p.refreshes[j]? = some .sent) :
    RefreshChange p (.refreshed j status) (p.refreshed j status).refreshPromise
      (p.refreshed j status).refreshes := by
  have hflight : p.InFlight j := ⟨.sent, h, rfl⟩
  cases status with
  | none => exact .settled hflight (by decide) (fun h => absurd h (by decide))
  | some status =>
    rw [Page.refreshed]
    split
    · exact .reading h
    · split
      · case isTrue hrejected =>
        subst hrejected
        exact .settled hflight (by decide) fun _ => rfl
      · exact .settled hflight Outcome.noConfusion Outcome.noConfusion

lemma change_step : RefreshChange p a (p.step a).refreshPromise (p.step a).refreshes := by
  cases a with
  | request multipart authToken => exact .none
  | getFreshAccessToken expired =>
    rw [Page.step, Page.getFreshAccessToken]
    split
    · exact change_tryRefreshToken
    · exact .none
  | answer i status => exact change_answer
  | refreshed j status =>
    rw [Page.step]
    split
    · case isTrue h => exact change_refreshed h
    · exact .none
  | refreshBody j tokens =>
    rw [Page.step]
    split
    · case isTrue h =>
      have hflight : p.InFlight j := ⟨.reading, h, rfl⟩
      cases tokens with
      | none => exact .settled hflight Outcome.noConfusion Outcome.noConfusion
      | some tokens => exact .settled hflight Outcome.noConfusion Outcome.noConfusion
    · exact .none
  | wake i => exact change_wake
  | signIn accessToken refreshToken => exact .none
  | signOut => exact .none

variable {promise : Option Nat} {refreshes : List Refresh} {j : Nat} {outcome : Outcome}

lemma RefreshChange.kept (h : RefreshChange p a promise refreshes)
    (hj : p.refreshes[j]? = some (.settled outcome)) : refreshes[j]? = some (.settled outcome) := by
  have hlt : j < p.refreshes.length := (List.getElem?_eq_some_iff.mp hj).1
  cases h with
  | none => exact hj
  | sent => rw [List.getElem?_append_left hlt, hj]
  | noToken => rw [List.getElem?_append_left hlt, hj]
  | @reading i hsent =>
    have hne : i ≠ j := fun heq => by
      rw [heq, hj] at hsent
      exact Refresh.noConfusion (Option.some.inj hsent)
    rw [List.getElem?_set_ne hne, hj]
  | @settled i _ hflight =>
    have hne : i ≠ j := fun heq => by
      obtain ⟨r, hr, hin⟩ := hflight
      rw [heq, hj] at hr
      rw [← Option.some.inj hr] at hin
      exact Bool.false_ne_true hin
    rw [List.getElem?_set_ne hne, hj]

lemma RefreshChange.origin (h : RefreshChange p a promise refreshes)
    (hj : refreshes[j]? = some (.settled outcome)) :
    p.refreshes[j]? = some (.settled outcome) ∨
      (outcome = .noToken → truthy p.refreshToken = false) ∧
        (outcome = .rejected → a = .refreshed j (some 401)) := by
  cases h with
  | none => exact .inl hj
  | sent =>
    obtain hj | ⟨-, heq⟩ := getElem?_concat hj
    · exact .inl hj
    · exact Refresh.noConfusion heq
  | noToken hnone hfalsy =>
    obtain hj | ⟨-, heq⟩ := getElem?_concat hj
    · exact .inl hj
    · rw [Refresh.settled.inj heq]
      exact .inr ⟨fun _ => hfalsy, fun h => Outcome.noConfusion h⟩
  | reading =>
    obtain ⟨-, hj⟩ | ⟨-, heq⟩ := getElem?_set_some hj
    · exact .inl hj
    · exact Refresh.noConfusion heq
  | settled hflight hne hrejected =>
    obtain ⟨-, hj⟩ | ⟨rfl, heq⟩ := getElem?_set_some hj
    · exact .inl hj
    · rw [Refresh.settled.inj heq]
      exact .inr ⟨fun h => absurd h hne, hrejected⟩

lemma RefreshChange.flying (h : RefreshChange p a promise refreshes)
    (hp : ∀ j, p.InFlight j → p.refreshPromise = some j) {r : Refresh} (hj : refreshes[j]? = some r)
    (hr : r.inFlight = true) : promise = some j := by
  cases h with
  | none => exact hp j ⟨r, hj, hr⟩
  | sent hnone =>
    obtain hj | ⟨heq, -⟩ := getElem?_concat hj
    · exact absurd ((hp j ⟨r, hj, hr⟩).symm.trans hnone) (Option.some_ne_none j)
    · exact congrArg some heq.symm
  | noToken hnone =>
    obtain hj | ⟨heq, -⟩ := getElem?_concat hj
    · exact absurd ((hp j ⟨r, hj, hr⟩).symm.trans hnone) (Option.some_ne_none j)
    · exact congrArg some heq.symm
  | reading hsent =>
    obtain ⟨-, hj⟩ | ⟨rfl, -⟩ := getElem?_set_some hj
    · exact hp j ⟨r, hj, hr⟩
    · exact hp _ ⟨_, hsent, rfl⟩
  | settled hflight =>
    obtain ⟨hne, hj⟩ | ⟨-, heq⟩ := getElem?_set_some hj
    · exact absurd (Option.some.inj ((hp _ hflight).symm.trans (hp j ⟨r, hj, hr⟩))) hne
    · rw [heq] at hr
      exact absurd hr Bool.false_ne_true

end Change

/-! ## What an act does to the requests -/

inductive RequestChange (p : Page) : List Request → Prop
  | none : RequestChange p p.requests
  | added {r : Request} : r.seen = none → RequestChange p (p.requests ++ [r])
  | moved {i : Nat} {r r' : Request} : p.requests[i]? = some r → r'.seen = r.seen →
      RequestChange p (p.requests.set i r')
  | woken {i j : Nat} {r' : Request} {outcome : Outcome} : p.refreshes[j]? = some (.settled outcome) →
      r'.seen = some (j, outcome.token) → RequestChange p (p.requests.set i r')

section Requests

variable {p : Page} {a : Act}

lemma requests_tryRefreshToken : p.tryRefreshToken.1.requests = p.requests := by
  unfold Page.tryRefreshToken
  split
  · rfl
  · rfl

lemma requests_refreshed {j : Nat} {status : Option Nat} : (p.refreshed j status).requests = p.requests := by
  cases status with
  | none => rfl
  | some status =>
    rw [Page.refreshed]
    split
    · rfl
    · rfl

lemma requestChange_answer {i : Nat} {status : Option Nat} : RequestChange p (p.answer i status).requests := by
  unfold Page.answer
  split
  · case h_1 r hr =>
    split
    · split
      · unfold Page.unauthorized Page.setRequest
        split
        · split
          · simp only [requests_forceReLogin]
            exact .moved hr rfl
          · exact .moved hr rfl
        · dsimp only
          rw [requests_tryRefreshToken]
          exact .moved hr rfl
      · exact .moved hr rfl
    · exact .none
  · exact .none

lemma requestChange_wake {i : Nat} : RequestChange p (p.wake i).requests := by
  unfold Page.wake
  split
  · split
    · split
      · case h_1 outcome hj =>
        dsimp only
        split
        · exact .woken hj rfl
        · simp only [Page.setRequest, requests_forceReLogin]
          exact .woken hj rfl
      · exact .none
    · exact .none
  · exact .none

lemma requestChange_step : RequestChange p (p.step a).requests := by
  cases a with
  | request multipart authToken => exact .added rfl
  | getFreshAccessToken expired =>
    rw [Page.step, Page.getFreshAccessToken]
    split
    · dsimp only
      rw [requests_tryRefreshToken]
      exact .added rfl
    · exact .added rfl
  | answer i status => exact requestChange_answer
  | refreshed j status =>
    rw [Page.step]
    split
    · rw [requests_refreshed]
      exact .none
    · exact .none
  | refreshBody j tokens =>
    rw [Page.step]
    split
    · cases tokens with
      | none => exact .none
      | some tokens => exact .none
    · exact .none
  | wake i => exact requestChange_wake
  | signIn accessToken refreshToken => exact .none
  | signOut => exact .none

lemma seen_step {r : Request} {j : Nat} {t : Option Token} (hr : r ∈ (p.step a).requests)
    (hseen : r.seen = some (j, t)) : (∃ r' ∈ p.requests, r'.seen = some (j, t)) ∨
      ∃ outcome, p.refreshes[j]? = some (.settled outcome) ∧ outcome.token = t := by
  generalize hrequests : (p.step a).requests = requests at hr
  have hchange : RequestChange p requests := hrequests ▸ requestChange_step
  cases hchange with
  | none => exact .inl ⟨r, hr, hseen⟩
  | added hnone =>
    obtain hr | hr := List.mem_append.mp hr
    · exact .inl ⟨r, hr, hseen⟩
    · rw [List.mem_singleton.mp hr, hnone] at hseen
      exact absurd hseen.symm (Option.some_ne_none _)
  | moved hi hsame =>
    obtain hr | rfl := List.mem_or_eq_of_mem_set hr
    · exact .inl ⟨r, hr, hseen⟩
    · exact .inl ⟨_, List.mem_of_getElem? hi, hsame ▸ hseen⟩
  | @woken i k r' outcome hk hwoken =>
    obtain hr | rfl := List.mem_or_eq_of_mem_set hr
    · exact .inl ⟨r, hr, hseen⟩
    · obtain ⟨rfl, rfl⟩ := Prod.mk.inj (Option.some.inj (hwoken.symm.trans hseen))
      exact .inr ⟨outcome, hk, rfl⟩

end Requests

/-! ## What an act does to the tokens -/

section Lost

variable {p p' : Page} {a : Act}

lemma not_loses (ha : p'.accessToken = p.accessToken) (hr : p'.refreshToken = p.refreshToken) : ¬Loses p p' := by
  rintro (⟨hsome, hnone⟩ | ⟨hsome, hnone⟩)
  · rw [← ha, hnone] at hsome
    exact Bool.false_ne_true hsome
  · rw [← hr, hnone] at hsome
    exact Bool.false_ne_true hsome

lemma not_loses_renewed {access refresh : Token} (ha : p'.accessToken = some access)
    (hr : p'.refreshToken = some refresh) : ¬Loses p p' := by
  rintro (⟨-, hnone⟩ | ⟨-, hnone⟩)
  · exact Option.some_ne_none access (ha.symm.trans hnone)
  · exact Option.some_ne_none refresh (hr.symm.trans hnone)

lemma tokens_tryRefreshToken : p.tryRefreshToken.1.accessToken = p.accessToken ∧
    p.tryRefreshToken.1.refreshToken = p.refreshToken := by
  unfold Page.tryRefreshToken
  split
  · exact ⟨rfl, rfl⟩
  · exact ⟨rfl, rfl⟩

inductive Removal (p : Page) : Act → Prop
  | signOut : Removal p .signOut
  | again {i : Nat} {r : Request} {authToken : Option Token} : p.requests[i]? = some r →
      r.caller = .apiRequest → r.stage = .fetching authToken true → Removal p (.answer i (some 401))
  | refresh {j : Nat} {outcome : Outcome} {a : Act} : Concerns p j a →
      (p.step a).refreshes[j]? = some (.settled outcome) → outcome.token = none → Removal p a

lemma removal_answer {i : Nat} {status : Option Nat} (h : Loses p (p.answer i status)) :
    Removal p (.answer i status) := by
  unfold Page.answer at h
  split at h
  · case h_1 r hr =>
    split at h
    · case h_1 authToken retried hstage =>
      split at h
      · case isTrue hunauthorized =>
        rw [hunauthorized.1]
        unfold Page.unauthorized at h
        split at h
        · case isTrue hretried =>
          split at h
          · case isTrue hcaller => exact .again hr hcaller (hretried ▸ hstage)
          · exact absurd h (not_loses rfl rfl)
        · exact absurd h (not_loses tokens_tryRefreshToken.1 tokens_tryRefreshToken.2)
      · exact absurd h (not_loses rfl rfl)
    · exact absurd h (not_loses rfl rfl)
  · exact absurd h (not_loses rfl rfl)

lemma removal_wake {i : Nat} (h : Loses p (p.wake i)) : Removal p (.wake i) := by
  unfold Page.wake at h
  split at h
  · case h_1 r hr =>
    split at h
    · case h_1 j hstage =>
      split at h
      · case h_1 outcome hj =>
        dsimp only at h
        split at h
        · exact absurd h (not_loses rfl rfl)
        · case h_2 htoken => exact .refresh (.wake hr hstage) (change_step.kept hj) htoken
      · exact absurd h (not_loses rfl rfl)
    · exact absurd h (not_loses rfl rfl)
  · exact absurd h (not_loses rfl rfl)

lemma removal_refreshed {j : Nat} {status : Option Nat} (hj : p.refreshes[j]? = some .sent)
    (h : Loses p (p.refreshed j status)) : Removal p (.refreshed j status) := by
  cases status with
  | none => exact absurd h (not_loses rfl rfl)
  | some status =>
    by_cases hok : 200 ≤ status ∧ status < 300
    · rw [Page.refreshed, if_pos hok] at h
      exact absurd h (not_loses rfl rfl)
    · have hlt : j < p.refreshes.length := (List.getElem?_eq_some_iff.mp hj).1
      have hstep : (p.step (.refreshed j (some status))).refreshes =
          p.refreshes.set j (.settled (if status = 401 then .rejected else .refused status)) := by
        rw [Page.step, if_pos hj, Page.refreshed, if_neg hok]
        rfl
      refine @Removal.refresh p j (if status = 401 then .rejected else .refused status) _ (.refreshed hj) ?_ ?_
      · rw [hstep, List.getElem?_set_self hlt]
      · split
        · rfl
        · rfl

lemma removal_step (h : Loses p (p.step a)) : Removal p a := by
  cases a with
  | request multipart authToken => exact absurd h (not_loses rfl rfl)
  | getFreshAccessToken expired =>
    rw [Page.step, Page.getFreshAccessToken] at h
    split at h
    · exact absurd h (not_loses tokens_tryRefreshToken.1 tokens_tryRefreshToken.2)
    · exact absurd h (not_loses rfl rfl)
  | answer i status => exact removal_answer h
  | refreshed j status =>
    rw [Page.step] at h
    split at h
    · case isTrue hj => exact removal_refreshed hj h
    · exact absurd h (not_loses rfl rfl)
  | refreshBody j tokens =>
    rw [Page.step] at h
    split at h
    · cases tokens with
      | none => exact absurd h (not_loses rfl rfl)
      | some tokens => exact absurd h (not_loses_renewed rfl rfl)
    · exact absurd h (not_loses rfl rfl)
  | wake i => exact removal_wake h
  | signIn accessToken refreshToken => exact absurd h (not_loses_renewed rfl rfl)
  | signOut => exact .signOut

end Lost

/-! ## Runs -/

section Runs

variable {start p : Page} {acts : List Act} {a : Act} {j : Nat} {outcome : Outcome}

lemma Why.mono {acts' : List Act} (h : Why start acts j outcome) (hle : acts <+: acts') :
    Why start acts' j outcome := by
  cases h with
  | rejected h => exact .rejected (hle.subset h)
  | noToken hbefore hfalsy => exact .noToken (hbefore.trans hle) hfalsy
  | refused => exact .refused
  | failed => exact .failed

structure Sound (start : Page) (acts : List Act) (p : Page) : Prop where
  flying : ∀ j, p.InFlight j → p.refreshPromise = some j
  why : ∀ j outcome, p.refreshes[j]? = some (.settled outcome) → outcome.token = none → Why start acts j outcome
  seen : ∀ r ∈ p.requests, ∀ j t, r.seen = some (j, t) →
    ∃ outcome, p.refreshes[j]? = some (.settled outcome) ∧ outcome.token = t

lemma Sound.step (h : Sound start acts (run Page.step start acts)) :
    Sound start (acts ++ [a]) ((run Page.step start acts).step a) where
  flying j := fun ⟨_, hr, hin⟩ => change_step.flying h.flying hr hin
  why j outcome hj htoken := by
    obtain hj | ⟨hnoToken, hrejected⟩ := (change_step (p := run Page.step start acts) (a := a)).origin hj
    · exact (h.why j outcome hj htoken).mono (List.prefix_append _ _)
    · cases outcome with
      | renewed => exact absurd htoken (Option.some_ne_none _)
      | rejected => exact .rejected (List.mem_append_right _ (List.mem_singleton.mpr (hrejected rfl).symm))
      | refused => exact .refused
      | failed => exact .failed
      | noToken => exact .noToken (List.prefix_append acts [a]) (hnoToken rfl)
  seen r hr j t hseen := by
    have hsettled : ∃ outcome, (run Page.step start acts).refreshes[j]? = some (.settled outcome) ∧
        outcome.token = t := by
      obtain ⟨r', hr', hseen'⟩ | hnow := seen_step hr hseen
      · exact h.seen r' hr' j t hseen'
      · exact hnow
    obtain ⟨outcome, hj, htoken⟩ := hsettled
    exact ⟨outcome, change_step.kept hj, htoken⟩

lemma sound_run (accessToken refreshToken : Option Token) (acts : List Act) :
    Sound (.load accessToken refreshToken) acts (run Page.step (.load accessToken refreshToken) acts) := by
  induction acts using List.reverseRecOn with
  | nil =>
    refine ⟨fun j => fun ⟨_, hr, _⟩ => ?_, fun j outcome hj => ?_, fun r hr => absurd hr List.not_mem_nil⟩
    · exact absurd hr.symm (Option.some_ne_none _)
    · exact absurd hj.symm (Option.some_ne_none _)
  | append_singleton acts a ih =>
    rw [run_append]
    exact ih.step

end Runs

/-- In every run of a page at most one refresh is under way, all that waited on a refresh have seen the one
    result of it, and an act that removes a token is the sign-out, the second 401 of a request, or it has to do
    with a refresh that has brought no token: one that was answered 401, or found no refresh token, or of which
    nothing is said here. -/
theorem page_sound (accessToken refreshToken : Option Token) (acts : List Act) :
    let start := Page.load accessToken refreshToken
    let p := run Page.step start acts
    (∀ j j', p.InFlight j → p.InFlight j' → j = j') ∧
    (∀ r ∈ p.requests, ∀ j t, r.seen = some (j, t) →
      ∃ outcome, p.refreshes[j]? = some (.settled outcome) ∧ outcome.token = t) ∧
    ∀ a, Loses p (p.step a) → Ends start acts a := by
  intro start p
  have hsound : Sound start acts p := sound_run accessToken refreshToken acts
  refine ⟨fun j j' hj hj' => ?_, hsound.seen, fun a ha => ?_⟩
  · exact Option.some.inj ((hsound.flying j hj).symm.trans (hsound.flying j' hj'))
  · have hstep : run Page.step start (acts ++ [a]) = p.step a := run_append start acts [a]
    have hnext : Sound start (acts ++ [a]) (p.step a) := hsound.step
    cases removal_step ha with
    | signOut => exact .signOut rfl
    | again hi hcaller hstage => exact .again rfl hi hcaller hstage
    | @refresh j outcome _ hconcerns hj htoken =>
      exact .refresh hconcerns (hstep ▸ hj) (hnext.why j outcome hj htoken)

/-- A page with tokens whose request is answered 401, refreshes, and is made again. -/
def renewal : List Act :=
  [.request false (some "Bearer old"), .answer 0 (some 401), .refreshed 0 (some 200),
    .refreshBody 0 (some ("new", "next")), .wake 0]

/-- The session ends on the second 401, though every refresh has succeeded; and a refresh that is answered 503
    ends it as well. -/
theorem renewal_ends :
    (run Page.step (.load (some "old") (some "stored")) renewal).accessToken = some "new" ∧
    (run Page.step (.load (some "old") (some "stored")) renewal).refreshToken = some "next" ∧
    Loses (run Page.step (.load (some "old") (some "stored")) renewal)
      (run Page.step (.load (some "old") (some "stored")) (renewal ++ [.answer 0 (some 401)])) ∧
    (∀ j, .refreshed j (some 401) ∉ renewal ++ [.answer 0 (some 401)]) ∧
    Loses (run Page.step (.load (some "old") (some "stored")) (renewal.take 2))
      (run Page.step (.load (some "old") (some "stored")) (renewal.take 2 ++ [.refreshed 0 (some 503)])) := by
  refine ⟨by decide, by decide, .inl (by decide), fun j => ?_, .inl (by decide)⟩
  simp [renewal]

end Sarca.Ui.Tokens
