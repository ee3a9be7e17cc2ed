import Sarca.Lib.Run
import Sarca.Lib.Saturating
import Sarca.Lib.Text
import Sarca.Server.Paths

/-!
# The session of the native client

The client keeps its session in `server.json` and in memory. Each writer (`connect`, `disconnect`, a refresh,
`update_session`) makes a whole `ServerConfig`, mostly out of a copy it read before, and `save_server_with`
writes it to the file and then to the memory. `Native` has both with the calls under way; `Native.step` is what
happens between two awaits, or less.

A token carries what the code does not see: the server that issued it and when the login it goes back to was
supplied. `Native.Kept` says that the file names the server that issued its tokens, that no token is older than
the last disconnect that returned, and that no refresh replaced newer tokens. The main result tells in which
runs it holds.
-/

namespace Sarca.Client
open Sarca.Lib Sarca.Server

namespace Session

variable {η : Type*}

/-- A token with the server that issued it and the instant its login was supplied at. -/
structure Token (η : Type*) where
  text : List Char
  issuer : Option η
  login : Nat
deriving DecidableEq

namespace Token

def none : Token η where
  text := []
  issuer := Option.none
  login := 0

/-- Rust `trim().is_empty()`. -/
def Blank (t : Token η) : Prop := trim t.text = []

instance Blank.decidable (t : Token η) : Decidable t.Blank :=
  inferInstanceAs (Decidable (_ = _))

lemma blank_none : (none : Token η).Blank := rfl

end Token

/-- Rust `ServerConfig`. `version` is when a login or a refresh last stored its tokens. -/
structure ServerConfig (η : Type*) where
  baseUrl : List Char
  accessToken : Token η
  refreshToken : Token η
  email : List Char
  emailVerified : Bool
  version : Nat
deriving DecidableEq

namespace ServerConfig

/-- Rust `ServerConfig::default`. -/
def default : ServerConfig η where
  baseUrl := []
  accessToken := .none
  refreshToken := .none
  email := []
  emailVerified := false
  version := 0

def tokens (cfg : ServerConfig η) : List (Token η) :=
  [cfg.accessToken, cfg.refreshToken].filter fun t => ¬ t.Blank

end ServerConfig

/-- What the client cannot see for itself: the server behind an address, the `exp` claim of a token and what
    `serde_json` makes of a JSON string. -/
structure World (η : Type*) where
  serverAt : List Char → η
  jwtExp : List Char → Option Nat
  fromJson : List Char → Option (List Char)

/-- The server a config names. A trailing slash makes no difference. -/
def World.server (w : World η) (cfg : ServerConfig η) : η :=
  w.serverAt (trimEndSlashes cfg.baseUrl)

/-- The tokens that are there come from the server the config names. -/
def ServerConfig.Paired (w : World η) (cfg : ServerConfig η) : Prop :=
  ∀ t ∈ cfg.tokens, t.issuer = some (w.server cfg)

/-- The answer to a refresh (Rust `LoginResponse`). -/
structure LoginResponse where
  accessToken : List Char
  refreshToken : List Char
  emailVerified : Bool

/-- The tokens of a page (Rust `WebviewSessionTokens`), with the server the page came from. -/
structure WebviewTokens (η : Type*) where
  page : η
  accessToken : List Char
  refreshToken : Option (List Char)
  email : Option (List Char)
  emailVerified : Option Bool

def accessTokenRefreshSkewSecs : Nat := 120

/-- Rust `access_token_needs_refresh`, at an instant in seconds. -/
def World.accessTokenNeedsRefresh (w : World η) (accessToken : List Char) (now : Nat) : Prop :=
  match trim accessToken with
  | [] => True
  | token =>
    match w.jwtExp token with
    | none => True
    | some exp => exp ≤ min (now + accessTokenRefreshSkewSecs) maxWord

instance World.accessTokenNeedsRefresh.decidable (w : World η) (accessToken : List Char) (now : Nat) :
    Decidable (w.accessTokenNeedsRefresh accessToken now) := by
  unfold World.accessTokenNeedsRefresh
  split
  · exact isTrue trivial
  · split
    · exact isTrue trivial
    · exact inferInstanceAs (Decidable (_ ≤ _))

/-- Rust `normalize_stored_token`. -/
def World.normalizeStoredToken (w : World η) (raw : List Char) : List Char :=
  let t := trim raw
  if t.head? = some '"' then (w.fromJson t).elim t trim else t

def missingAccessToken : String :=
  "Not authenticated — missing access token. Sign in again so Sync can use your session."

/-- Rust `merge_session_tokens`, of a login supplied at `login`. -/
def World.mergeSessionTokens (w : World η) (cfg : ServerConfig η) (tokens : WebviewTokens η) (login : Nat) :
    Except String (ServerConfig η) :=
  let given (text : List Char) : Token η := { text := text, issuer := some tokens.page, login := login }
  let access := w.normalizeStoredToken tokens.accessToken
  if access = [] then .error missingAccessToken
  else if trim cfg.baseUrl = [] then .error "Not connected"
  else .ok
    { cfg with
      accessToken := given access
      refreshToken := match tokens.refreshToken.map w.normalizeStoredToken with
        | none | some [] => cfg.refreshToken
        | some r => given r
      email := match tokens.email.map trim with
        | none | some [] => cfg.email
        | some e => e
      emailVerified := tokens.emailVerified.getD cfg.emailVerified }

/-- Rust `is_unauthorized`. -/
def isUnauthorized (msg : List Char) : Prop :=
  "401".toList <:+: msg ∨ "unauthorized".toList <:+: msg.map Char.toLower

instance isUnauthorized.decidable (msg : List Char) : Decidable (isUnauthorized msg) :=
  inferInstanceAs (Decidable (_ ∨ _))

/-! ## The calls -/

inductive Writer (η : Type*) where
  | login (page : η)
  /-- A refresh, or the end of the session, from tokens of that version. -/
  | refreshed (version : Nat)
  | connect
  /-- The last part of `connect`, where the server redirects to another address. -/
  | canonical
  | disconnect
deriving DecidableEq

inductive Call (η : Type*) where
  /-- `update_session` waits for the memory. -/
  | merging (tokens : WebviewTokens η) (login : Nat)
  /-- `connect` waits for the memory. -/
  | connecting (base : List Char)
  /-- A refresh waits for the server. -/
  | refreshing (cfg : ServerConfig η)
  /-- `save_server_with` before it writes the file, before it writes the memory, and while it waits for the
      engine. -/
  | toDisk (by' : Writer η) (cfg : ServerConfig η)
  | toMemory (by' : Writer η) (cfg : ServerConfig η)
  | settling (by' : Writer η) (cfg : ServerConfig η)
  /-- `connect` asks where the server redirects to. -/
  | probing (cfg : ServerConfig η)
  | returned

/-- `server.json`, the config in memory and the calls under way; `clock` counts the steps, `disconnected` is
    when a disconnect last returned, and `replaced` notes, for each refresh that wrote over tokens, the version
    it came from and the version of those tokens. -/
structure Native (η : Type*) where
  disk : ServerConfig η
  memory : ServerConfig η
  calls : List (Call η)
  clock : Nat
  disconnected : Nat
  replaced : List (Nat × Nat)

inductive Act (η : Type*) where
  | updateSession (tokens : WebviewTokens η)
  /-- `connect` to an address that `normalize_server_url` accepted. -/
  | connect (base : List Char)
  | disconnect
  /-- The keeper, the loop or a command, at an instant in seconds. -/
  | ensureFreshSession (now : Nat)
  /-- A command that got a 401. -/
  | forceRefreshSession
  /-- A call goes on. -/
  | next (i : Nat)
  /-- The server answers a refresh. -/
  | answer (i : Nat) (result : Except (List Char) LoginResponse)
  /-- The server redirects to an address of its own. -/
  | redirect (i : Nat) (canonical : List Char)
  /-- `server.json` cannot be written. -/
  | failWrite (i : Nat)
  /-- Five seconds are over for a disconnect. -/
  | timeout (i : Nat)
  | restart

/-- The config `connect` saves, out of the one in memory. -/
def connectConfig (previous : ServerConfig η) (base : List Char) : ServerConfig η :=
  if trimEndSlashes previous.baseUrl = trimEndSlashes base then { previous with baseUrl := base }
  else { ServerConfig.default with baseUrl := base }

/-- A config with the tokens a server gave for its refresh token. -/
def World.refreshedConfig (w : World η) (cfg : ServerConfig η) (response : LoginResponse) : ServerConfig η :=
  let given (text : List Char) : Token η :=
    { text := text, issuer := some (w.server cfg), login := cfg.refreshToken.login }
  { cfg with
    accessToken := given response.accessToken
    refreshToken := given response.refreshToken
    emailVerified := response.emailVerified }

def expiredConfig (cfg : ServerConfig η) : ServerConfig η :=
  { cfg with accessToken := .none, refreshToken := .none }

namespace Native

def new : Native η where
  disk := .default
  memory := .default
  calls := []
  clock := 0
  disconnected := 0
  replaced := []

def begin (σ : Native η) (c : Call η) : Native η :=
  { σ with calls := σ.calls ++ [c] }

def goOn (σ : Native η) (i : Nat) (c : Call η) : Native η :=
  { σ with calls := σ.calls.set i c }

/-- What a write over `old` has to note. -/
def note (σ : Native η) (by' : Writer η) (old : ServerConfig η) : List (Nat × Nat) :=
  match by' with
  | .refreshed version => if old.tokens = [] then σ.replaced else σ.replaced ++ [(version, old.version)]
  | _ => σ.replaced

def versioned (σ : Native η) (by' : Writer η) (cfg : ServerConfig η) : ServerConfig η :=
  match by' with
  | .login _ | .refreshed _ => { cfg with version := σ.clock }
  | _ => cfg

def writeDisk (σ : Native η) (by' : Writer η) (cfg : ServerConfig η) : Native η :=
  { σ with disk := cfg, replaced := σ.note by' σ.disk }

def writeMemory (σ : Native η) (by' : Writer η) (cfg : ServerConfig η) : Native η :=
  { σ with memory := cfg, replaced := σ.note by' σ.memory }

def advance (w : World η) (σ : Native η) (i : Nat) : Call η → Native η
  | .merging tokens login =>
    match w.mergeSessionTokens σ.memory tokens login with
    | .error _ => σ.goOn i .returned
    | .ok cfg => σ.goOn i (.toDisk (.login tokens.page) cfg)
  | .connecting base => σ.goOn i (.toDisk .connect (connectConfig σ.memory base))
  | .toDisk by' cfg =>
    let cfg := σ.versioned by' cfg
    (σ.writeDisk by' cfg).goOn i (.toMemory by' cfg)
  | .toMemory by' cfg => (σ.writeMemory by' cfg).goOn i (.settling by' cfg)
  | .settling .connect cfg => σ.goOn i (.probing cfg)
  | .settling .disconnect _ => { σ.goOn i .returned with disconnected := σ.clock }
  | .settling _ _ => σ.goOn i .returned
  | _ => σ

/-- What `force_refresh_session_with` starts with a config. -/
def refresh (σ : Native η) (cfg : ServerConfig η) : Native η :=
  if cfg.refreshToken.Blank then σ else σ.begin (.refreshing cfg)

def refreshed (w : World η) (σ : Native η) (i : Nat) (cfg : ServerConfig η) :
    Except (List Char) LoginResponse → Native η
  | .ok response => σ.goOn i (.toDisk (.refreshed cfg.version) (w.refreshedConfig cfg response))
  | .error msg =>
    if isUnauthorized msg then σ.goOn i (.toDisk (.refreshed cfg.version) (expiredConfig cfg))
    else σ.goOn i .returned

/-- Rust `canonicalized_server`. -/
def canonicalize [DecidableEq η] (w : World η) (σ : Native η) (i : Nat) (cfg : ServerConfig η)
    (canonical : List Char) : Native η :=
  if canonical = [] ∨ canonical = trimEndSlashes cfg.baseUrl then σ.goOn i .returned
  else if w.server { cfg with baseUrl := canonical } = w.server cfg then
    σ.goOn i (.toDisk .canonical { cfg with baseUrl := canonical })
  else σ

def tick (σ : Native η) : Native η :=
  { σ with clock := σ.clock + 1 }

/-- What an act does at the instant `σ.clock`. -/
def act [DecidableEq η] (w : World η) (σ : Native η) : Act η → Native η
  | .updateSession tokens => σ.begin (.merging tokens σ.clock)
  | .connect base => σ.begin (.connecting base)
  | .disconnect => σ.begin (.toDisk .disconnect .default)
  | .ensureFreshSession now =>
    if w.accessTokenNeedsRefresh σ.disk.accessToken.text now then σ.refresh σ.disk else σ
  | .forceRefreshSession => σ.refresh σ.memory
  | .next i =>
    match σ.calls[i]? with
    | none => σ
    | some c => σ.advance w i c
  | .answer i result =>
    match σ.calls[i]? with
    | some (.refreshing cfg) => σ.refreshed w i cfg result
    | _ => σ
  | .redirect i canonical =>
    match σ.calls[i]? with
    | some (.probing cfg) => σ.canonicalize w i cfg canonical
    | _ => σ
  | .failWrite i =>
    match σ.calls[i]? with
    | some (.toDisk _ _) => σ.goOn i .returned
    | _ => σ
  | .timeout i =>
    match σ.calls[i]? with
    | some (.toMemory .disconnect _) => { σ.goOn i .returned with disconnected := σ.clock }
    | some (.settling .disconnect _) => { σ.goOn i .returned with disconnected := σ.clock }
    | _ => σ
  | .restart => { σ with memory := σ.disk, calls := [] }

def step [DecidableEq η] (w : World η) (σ : Native η) (a : Act η) : Native η :=
  σ.tick.act w a

/-! ## The property and the condition -/

/-- No disconnect has returned since the logins that the tokens go back to. -/
def Later (σ : Native η) (cfg : ServerConfig η) : Prop :=
  ∀ t ∈ cfg.tokens, σ.disconnected < t.login

instance Later.decidable (σ : Native η) (cfg : ServerConfig η) : Decidable (σ.Later cfg) :=
  inferInstanceAs (Decidable (∀ t ∈ cfg.tokens, _))

/-- The file names the server its tokens come from, no token is left from before a disconnect, and no refresh
    replaced newer tokens. -/
structure Kept (w : World η) (σ : Native η) : Prop where
  paired : σ.disk.Paired w
  disk : σ.Later σ.disk
  memory : σ.Later σ.memory
  replaced : ∀ p ∈ σ.replaced, p.2 ≤ p.1

/-- A refresh writes over tokens that are no newer than those it came from. -/
def Overwrites (by' : Writer η) (old : ServerConfig η) : Prop :=
  match by' with
  | .refreshed version => old.tokens ≠ [] → old.version ≤ version
  | _ => True

/-- A login is of a page of the server that the config names. -/
def OfServer (w : World η) (by' : Writer η) (cfg : ServerConfig η) : Prop :=
  match by' with
  | .login page => page = w.server cfg
  | _ => True

def Clear (σ : Native η) : Prop :=
  σ.disk.tokens = [] ∧ σ.memory.tokens = []

def Finds (w : World η) (σ : Native η) : Call η → Prop
  | .toDisk by' cfg => OfServer w by' cfg ∧ σ.Later cfg ∧ Overwrites by' σ.disk
  | .toMemory by' cfg => σ.Later cfg ∧ Overwrites by' σ.memory
  | .settling .disconnect _ => σ.Clear
  | _ => True

/-- What a call has to find when its time is over. -/
def FindsLate (σ : Native η) : Call η → Prop
  | .toMemory .disconnect _ => σ.Clear
  | .settling .disconnect _ => σ.Clear
  | _ => True

/-- What a call writes is not out of date, and a disconnect leaves nothing behind. -/
def Settled (w : World η) (σ : Native η) : Act η → Prop
  | .next i => ∀ c, σ.calls[i]? = some c → σ.Finds w c
  | .timeout i => ∀ c, σ.calls[i]? = some c → σ.FindsLate c
  | _ => True

end Native

/-! ## Configs and their tokens -/

variable {w : World η} {cfg cfg' : ServerConfig η} {t : Token η} {m n : Nat}

lemma ServerConfig.mem_tokens :
    t ∈ cfg.tokens ↔ (t = cfg.accessToken ∨ t = cfg.refreshToken) ∧ ¬ t.Blank := by
  unfold ServerConfig.tokens
  rw [List.mem_filter, List.mem_cons, List.mem_singleton, decide_eq_true_iff]

/-- The tokens go back to logins up to an instant. -/
def ServerConfig.Dated (cfg : ServerConfig η) (n : Nat) : Prop :=
  ∀ t ∈ cfg.tokens, t.login ≤ n

lemma ServerConfig.Paired.of_same (h : cfg.Paired w) (hserver : w.server cfg' = w.server cfg)
    (htokens : ∀ t ∈ cfg'.tokens, t ∈ cfg.tokens) : cfg'.Paired w := by
  intro t ht
  rw [hserver]
  exact h t (htokens t ht)

lemma ServerConfig.tokens_default : (default : ServerConfig η).tokens = [] := rfl

lemma ServerConfig.paired_of_clear (h : cfg.tokens = []) : cfg.Paired w := by
  intro t ht
  rw [h] at ht
  exact absurd ht List.not_mem_nil

lemma ServerConfig.dated_of_clear (h : cfg.tokens = []) : cfg.Dated n := by
  intro t ht
  rw [h] at ht
  exact absurd ht List.not_mem_nil

lemma ServerConfig.Dated.mono (h : cfg.Dated m) (hle : m ≤ n) : cfg.Dated n :=
  fun t ht => (h t ht).trans hle

lemma tokens_expiredConfig : (expiredConfig cfg).tokens = [] := rfl

lemma tokens_connectConfig {base : List Char} (ht : t ∈ (connectConfig cfg base).tokens) :
    t ∈ cfg.tokens ∧ w.server (connectConfig cfg base) = w.server cfg := by
  unfold connectConfig at ht ⊢
  split at ht
  · case isTrue h =>
    rw [if_pos h]
    exact ⟨ht, congrArg w.serverAt h.symm⟩
  · exact absurd ht List.not_mem_nil

lemma paired_connectConfig {base : List Char} (h : cfg.Paired w) : (connectConfig cfg base).Paired w := by
  intro t ht
  obtain ⟨ht', hserver⟩ := tokens_connectConfig (w := w) ht
  rw [hserver]
  exact h t ht'

lemma dated_connectConfig {base : List Char} (h : cfg.Dated n) : (connectConfig cfg base).Dated n := by
  intro t ht
  unfold connectConfig at ht
  split at ht
  · exact h t ht
  · exact absurd ht List.not_mem_nil

lemma tokens_refreshedConfig {response : LoginResponse} (ht : t ∈ (w.refreshedConfig cfg response).tokens) :
    t.issuer = some (w.server cfg) ∧ t.login = cfg.refreshToken.login := by
  obtain ⟨rfl | rfl, -⟩ := ServerConfig.mem_tokens.mp ht
  · exact ⟨rfl, rfl⟩
  · exact ⟨rfl, rfl⟩

lemma paired_refreshedConfig {response : LoginResponse} : (w.refreshedConfig cfg response).Paired w :=
  fun _ ht => (tokens_refreshedConfig ht).1

lemma dated_refreshedConfig {response : LoginResponse} (h : cfg.Dated n) (hblank : ¬ cfg.refreshToken.Blank) :
    (w.refreshedConfig cfg response).Dated n := by
  intro t ht
  rw [(tokens_refreshedConfig ht).2]
  exact h cfg.refreshToken (ServerConfig.mem_tokens.mpr ⟨.inr rfl, hblank⟩)

lemma trim_normalizeStoredToken {raw : List Char} :
    trim (w.normalizeStoredToken raw) = w.normalizeStoredToken raw := by
  unfold World.normalizeStoredToken
  dsimp only
  split
  · cases w.fromJson (trim raw) with
    | none => exact trimBy_trimBy
    | some text => exact trimBy_trimBy
  · exact trimBy_trimBy

lemma mergeSessionTokens_ok {tokens : WebviewTokens η} {login : Nat}
    (h : w.mergeSessionTokens cfg tokens login = .ok cfg') :
    cfg'.baseUrl = cfg.baseUrl ∧ ¬ cfg'.accessToken.Blank ∧ cfg'.accessToken.issuer = some tokens.page ∧
      ∀ t ∈ cfg'.tokens, t.issuer = some tokens.page ∧ t.login = login ∨ t ∈ cfg.tokens := by
  unfold World.mergeSessionTokens at h
  dsimp only at h
  split at h
  · cases h
  · case isFalse haccess =>
    split at h
    · cases h
    · cases h
      refine ⟨rfl, ?_, rfl, ?_⟩
      · intro hblank
        exact haccess (trim_normalizeStoredToken.symm.trans hblank)
      · intro t ht
        obtain ⟨rfl | ht, hblank⟩ := ServerConfig.mem_tokens.mp ht
        · exact .inl ⟨rfl, rfl⟩
        · dsimp only at ht
          split at ht
          · exact .inr (ServerConfig.mem_tokens.mpr ⟨.inr ht, hblank⟩)
          · exact .inr (ServerConfig.mem_tokens.mpr ⟨.inr ht, hblank⟩)
          · subst ht
            exact .inl ⟨rfl, rfl⟩

/-! ## What holds of the calls -/

/-- A config whose tokens are its server's and go back to logins up to an instant. -/
structure ServerConfig.Good (w : World η) (n : Nat) (cfg : ServerConfig η) : Prop where
  paired : cfg.Paired w
  dated : cfg.Dated n

lemma ServerConfig.Good.mono (h : cfg.Good w m) (hle : m ≤ n) : cfg.Good w n :=
  ⟨h.paired, h.dated.mono hle⟩

lemma ServerConfig.good_of_clear (h : cfg.tokens = []) : cfg.Good w n :=
  ⟨paired_of_clear h, dated_of_clear h⟩

/-- What holds of a call at an instant. Only a login can hold a config that names another server. -/
def Call.Good (w : World η) (n : Nat) : Call η → Prop
  | .merging _ login => login ≤ n
  | .connecting _ => True
  | .refreshing cfg => cfg.Good w n ∧ ¬ cfg.refreshToken.Blank
  | .toDisk by' cfg => cfg.Dated n ∧ (Native.OfServer w by' cfg ↔ cfg.Paired w)
  | .toMemory _ cfg => cfg.Good w n
  | .settling _ cfg => cfg.Good w n
  | .probing cfg => cfg.Good w n
  | .returned => True

lemma Call.Good.mono {c : Call η} (h : c.Good w m) (hle : m ≤ n) : c.Good w n := by
  cases c with
  | merging tokens login => exact Nat.le_trans h hle
  | connecting base => trivial
  | refreshing cfg => exact ⟨h.1.mono hle, h.2⟩
  | toDisk by' cfg => exact ⟨h.1.mono hle, h.2⟩
  | toMemory by' cfg => exact ServerConfig.Good.mono h hle
  | settling by' cfg => exact ServerConfig.Good.mono h hle
  | probing cfg => exact ServerConfig.Good.mono h hle
  | returned => trivial

namespace Native

structure Sound (w : World η) (σ : Native η) : Prop where
  disk : σ.disk.Good w σ.clock
  memory : σ.memory.Good w σ.clock
  calls : ∀ c ∈ σ.calls, c.Good w σ.clock

variable {σ σ' : Native η} {i : Nat} {c : Call η} {by' : Writer η}

lemma Sound.new : (Native.new : Native η).Sound w where
  disk := ServerConfig.good_of_clear rfl
  memory := ServerConfig.good_of_clear rfl
  calls _ h := absurd h List.not_mem_nil

lemma Sound.tick (h : σ.Sound w) : σ.tick.Sound w where
  disk := h.disk.mono (Nat.le_succ _)
  memory := h.memory.mono (Nat.le_succ _)
  calls c hc := (h.calls c hc).mono (Nat.le_succ _)

lemma Sound.begin (h : σ.Sound w) (hc : c.Good w σ.clock) : (σ.begin c).Sound w where
  disk := h.disk
  memory := h.memory
  calls c' hc' := by
    rcases List.mem_append.mp hc' with hc' | hc'
    · exact h.calls c' hc'
    · obtain rfl := List.mem_singleton.mp hc'
      exact hc

lemma Sound.goOn (h : σ.Sound w) (hc : c.Good w σ.clock) : (σ.goOn i c).Sound w where
  disk := h.disk
  memory := h.memory
  calls c' hc' := by
    rcases List.mem_or_eq_of_mem_set hc' with hc' | rfl
    · exact h.calls c' hc'
    · exact hc

lemma Sound.returned (h : σ.Sound w) : Sound w { σ.goOn i .returned with disconnected := σ.clock } :=
  ⟨h.disk, h.memory, (h.goOn (c := .returned) trivial).calls⟩

lemma tokens_versioned : (σ.versioned by' cfg).tokens = cfg.tokens := by
  cases by' <;> rfl

lemma server_versioned : w.server (σ.versioned by' cfg) = w.server cfg := by
  cases by' <;> rfl

lemma good_versioned (h : cfg.Good w n) : (σ.versioned by' cfg).Good w n := by
  refine ⟨h.paired.of_same server_versioned ?_, ?_⟩
  · intro t ht
    rwa [tokens_versioned] at ht
  · intro t ht
    rw [tokens_versioned] at ht
    exact h.dated t ht

lemma good_toDisk (hby : OfServer w by' cfg) (h : cfg.Good w n) : (Call.toDisk by' cfg).Good w n :=
  ⟨h.dated, fun _ => h.paired, fun _ => hby⟩

lemma good_merged {tokens : WebviewTokens η} {login : Nat} (h : cfg.Good w n) (hlogin : login ≤ n)
    (hok : w.mergeSessionTokens cfg tokens login = .ok cfg') :
    (Call.toDisk (.login tokens.page) cfg').Good w n := by
  obtain ⟨hbase, hblank, hissuer, htokens⟩ := mergeSessionTokens_ok hok
  have hserver : w.server cfg' = w.server cfg := congrArg (fun url => w.serverAt (trimEndSlashes url)) hbase
  refine ⟨?_, ?_, ?_⟩
  · intro t ht
    rcases htokens t ht with ⟨-, hat⟩ | hold
    · exact hat.le.trans hlogin
    · exact h.dated t hold
  · intro hpage t ht
    rcases htokens t ht with ⟨hof, -⟩ | hold
    · exact hof.trans (congrArg some hpage)
    · rw [hserver]
      exact h.paired t hold
  · intro hpaired
    have haccess := hpaired cfg'.accessToken (ServerConfig.mem_tokens.mpr ⟨.inl rfl, hblank⟩)
    exact Option.some.inj (hissuer.symm.trans haccess)

lemma Sound.advance (h : σ.Sound w) (hc : c.Good w σ.clock) (hok : σ.Finds w c) : (σ.advance w i c).Sound w := by
  cases c with
  | merging tokens login =>
    simp only [Native.advance]
    split
    · exact h.goOn trivial
    · case h_2 cfg hcfg => exact h.goOn (good_merged h.memory hc hcfg)
  | connecting base =>
    refine h.goOn (good_toDisk trivial ?_)
    exact ⟨paired_connectConfig h.memory.paired, dated_connectConfig h.memory.dated⟩
  | toDisk by' cfg =>
    have hgood : (σ.versioned by' cfg).Good w σ.clock := good_versioned ⟨hc.2.mp hok.1, hc.1⟩
    have hw : (σ.writeDisk by' (σ.versioned by' cfg)).Sound w := ⟨hgood, h.memory, h.calls⟩
    exact hw.goOn hgood
  | toMemory by' cfg =>
    have hw : (σ.writeMemory by' cfg).Sound w := ⟨h.disk, hc, h.calls⟩
    exact hw.goOn hc
  | settling by' cfg =>
    cases by' with
    | connect => exact h.goOn hc
    | disconnect => exact h.returned
    | login page => exact h.goOn trivial
    | refreshed version => exact h.goOn trivial
    | canonical => exact h.goOn trivial
  | refreshing cfg => exact h
  | probing cfg => exact h
  | returned => exact h

lemma Sound.refresh (h : σ.Sound w) (hcfg : cfg.Good w σ.clock) : (σ.refresh cfg).Sound w := by
  unfold Native.refresh
  split
  · exact h
  · case isFalse hblank => exact h.begin ⟨hcfg, hblank⟩

lemma Sound.refreshed (h : σ.Sound w) (hcfg : cfg.Good w σ.clock) (hblank : ¬ cfg.refreshToken.Blank)
    (result : Except (List Char) LoginResponse) : (σ.refreshed w i cfg result).Sound w := by
  cases result with
  | ok response =>
    refine h.goOn (good_toDisk trivial ?_)
    exact ⟨paired_refreshedConfig, dated_refreshedConfig hcfg.dated hblank⟩
  | error msg =>
    simp only [Native.refreshed]
    split
    · exact h.goOn (good_toDisk trivial (ServerConfig.good_of_clear tokens_expiredConfig))
    · exact h.goOn trivial

lemma Sound.canonicalize [DecidableEq η] (h : σ.Sound w) (hcfg : cfg.Good w σ.clock) (canonical : List Char) :
    (σ.canonicalize w i cfg canonical).Sound w := by
  unfold Native.canonicalize
  split
  · exact h.goOn trivial
  · split
    · case isTrue hserver =>
      refine h.goOn (good_toDisk trivial ?_)
      exact ⟨hcfg.paired.of_same hserver fun _ ht => ht, hcfg.dated⟩
    · exact h

lemma Sound.act [DecidableEq η] (h : σ.Sound w) (a : Act η) (hok : σ.Settled w a) : (σ.act w a).Sound w := by
  have hcall : ∀ (i : Nat) (c : Call η), σ.calls[i]? = some c → c.Good w σ.clock := fun i c hi =>
    h.calls c (List.mem_of_getElem? hi)
  cases a with
  | updateSession tokens => exact h.begin (Nat.le_refl _)
  | connect base => exact h.begin trivial
  | disconnect => exact h.begin (good_toDisk trivial (ServerConfig.good_of_clear rfl))
  | ensureFreshSession now =>
    simp only [Native.act]
    split
    · exact h.refresh h.disk
    · exact h
  | forceRefreshSession => exact h.refresh h.memory
  | next i =>
    simp only [Native.act]
    split
    · exact h
    · case h_2 c hi => exact h.advance (hcall i c hi) (hok c hi)
  | answer i result =>
    simp only [Native.act]
    split
    · case h_1 cfg hi => exact h.refreshed (hcall i _ hi).1 (hcall i _ hi).2 result
    · exact h
  | redirect i canonical =>
    simp only [Native.act]
    split
    · case h_1 cfg hi => exact h.canonicalize (hcall i _ hi) canonical
    · exact h
  | failWrite i =>
    simp only [Native.act]
    split
    · exact h.goOn trivial
    · exact h
  | timeout i =>
    simp only [Native.act]
    split
    · exact h.returned
    · exact h.returned
    · exact h
  | restart => exact ⟨h.disk, h.disk, fun c hc => absurd hc List.not_mem_nil⟩

/-! ## What a step does to the property -/

lemma Kept.of_same (h : σ.Kept w) (hdisk : σ'.disk = σ.disk) (hmemory : σ'.memory = σ.memory)
    (hdisconnected : σ'.disconnected = σ.disconnected) (hreplaced : σ'.replaced = σ.replaced) : σ'.Kept w where
  paired := by
    rw [hdisk]
    exact h.paired
  disk := by
    unfold Later
    rw [hdisk, hdisconnected]
    exact h.disk
  memory := by
    unfold Later
    rw [hmemory, hdisconnected]
    exact h.memory
  replaced := by
    rw [hreplaced]
    exact h.replaced

@[simp] lemma kept_goOn : (σ.goOn i c).Kept w ↔ σ.Kept w :=
  ⟨fun h => h.of_same rfl rfl rfl rfl, fun h => h.of_same rfl rfl rfl rfl⟩

@[simp] lemma kept_begin : (σ.begin c).Kept w ↔ σ.Kept w :=
  ⟨fun h => h.of_same rfl rfl rfl rfl, fun h => h.of_same rfl rfl rfl rfl⟩

lemma note_le {old : ServerConfig η} (h : ∀ p ∈ σ.replaced, p.2 ≤ p.1) :
    (∀ p ∈ σ.note by' old, p.2 ≤ p.1) ↔ Overwrites by' old := by
  cases by' with
  | refreshed version =>
    simp only [note, Overwrites]
    split
    · case isTrue hclear => exact ⟨fun _ hne => absurd hclear hne, fun _ => h⟩
    · case isFalse hne =>
      constructor
      · intro hall _
        exact hall (version, old.version) (List.mem_append_right _ List.mem_cons_self)
      · intro hle p hp
        rcases List.mem_append.mp hp with hp | hp
        · exact h p hp
        · obtain rfl := List.mem_singleton.mp hp
          exact hle hne
  | login page => exact ⟨fun _ => trivial, fun _ => h⟩
  | connect => exact ⟨fun _ => trivial, fun _ => h⟩
  | canonical => exact ⟨fun _ => trivial, fun _ => h⟩
  | disconnect => exact ⟨fun _ => trivial, fun _ => h⟩

lemma kept_writeDisk (h : σ.Kept w) :
    (σ.writeDisk by' cfg).Kept w ↔ cfg.Paired w ∧ σ.Later cfg ∧ Overwrites by' σ.disk := by
  constructor
  · intro hk
    exact ⟨hk.paired, hk.disk, (note_le h.replaced).mp hk.replaced⟩
  · rintro ⟨hpaired, hlater, hover⟩
    exact ⟨hpaired, hlater, h.memory, (note_le h.replaced).mpr hover⟩

lemma kept_writeMemory (h : σ.Kept w) :
    (σ.writeMemory by' cfg).Kept w ↔ σ.Later cfg ∧ Overwrites by' σ.memory := by
  constructor
  · intro hk
    exact ⟨hk.memory, (note_le h.replaced).mp hk.replaced⟩
  · rintro ⟨hlater, hover⟩
    exact ⟨h.paired, h.disk, hlater, (note_le h.replaced).mpr hover⟩

lemma later_versioned : σ.Later (σ.versioned by' cfg) ↔ σ.Later cfg := by
  unfold Later
  rw [tokens_versioned]

lemma clear_of_later (h : cfg.Dated n) (hlater : ∀ t ∈ cfg.tokens, n < t.login) : cfg.tokens = [] :=
  List.eq_nil_iff_forall_not_mem.mpr fun t ht => absurd (h t ht) (Nat.not_le_of_lt (hlater t ht))

lemma kept_returned (hs : σ.Sound w) (h : σ.Kept w) :
    Kept w { σ.goOn i .returned with disconnected := σ.clock } ↔ σ.Clear := by
  constructor
  · intro hk
    exact ⟨clear_of_later hs.disk.dated hk.disk, clear_of_later hs.memory.dated hk.memory⟩
  · rintro ⟨hdisk, hmemory⟩
    refine ⟨h.paired, ?_, ?_, h.replaced⟩
    · intro t ht
      exact absurd (hdisk ▸ ht : t ∈ []) List.not_mem_nil
    · intro t ht
      exact absurd (hmemory ▸ ht : t ∈ []) List.not_mem_nil

lemma kept_advance (hs : σ.Sound w) (h : σ.Kept w) (hc : c.Good w σ.clock) :
    (σ.advance w i c).Kept w ↔ σ.Finds w c := by
  cases c with
  | merging tokens login =>
    simp only [Native.advance, Finds, iff_true]
    split
    · exact kept_goOn.mpr h
    · exact kept_goOn.mpr h
  | connecting base => exact ⟨fun _ => trivial, fun _ => kept_goOn.mpr h⟩
  | toDisk by' cfg =>
    simp only [Native.advance, Finds]
    rw [kept_goOn, kept_writeDisk h, later_versioned, hc.2]
    refine and_congr_left' ⟨fun hp => ?_, fun hp => ?_⟩
    · refine hp.of_same server_versioned.symm fun t ht => ?_
      rwa [tokens_versioned]
    · refine hp.of_same server_versioned fun t ht => ?_
      rwa [tokens_versioned] at ht
  | toMemory by' cfg =>
    simp only [Native.advance, Finds]
    rw [kept_goOn, kept_writeMemory h]
  | settling by' cfg =>
    cases by' with
    | connect => exact ⟨fun _ => trivial, fun _ => kept_goOn.mpr h⟩
    | disconnect => exact kept_returned hs h
    | login page => exact ⟨fun _ => trivial, fun _ => kept_goOn.mpr h⟩
    | refreshed version => exact ⟨fun _ => trivial, fun _ => kept_goOn.mpr h⟩
    | canonical => exact ⟨fun _ => trivial, fun _ => kept_goOn.mpr h⟩
  | refreshing cfg => exact ⟨fun _ => trivial, fun _ => h⟩
  | probing cfg => exact ⟨fun _ => trivial, fun _ => h⟩
  | returned => exact ⟨fun _ => trivial, fun _ => h⟩

lemma Kept.refresh (h : σ.Kept w) : (σ.refresh cfg).Kept w := by
  unfold Native.refresh
  split
  · exact h
  · exact kept_begin.mpr h

lemma Kept.refreshed (h : σ.Kept w) (result : Except (List Char) LoginResponse) :
    (σ.refreshed w i cfg result).Kept w := by
  cases result with
  | ok response => exact kept_goOn.mpr h
  | error msg =>
    simp only [Native.refreshed]
    split
    · exact kept_goOn.mpr h
    · exact kept_goOn.mpr h

lemma Kept.canonicalize [DecidableEq η] (h : σ.Kept w) (canonical : List Char) :
    (σ.canonicalize w i cfg canonical).Kept w := by
  unfold Native.canonicalize
  split
  · exact kept_goOn.mpr h
  · split
    · exact kept_goOn.mpr h
    · exact h

lemma forall_call {p : Call η → Prop} (hi : σ.calls[i]? = some c) :
    (∀ c', σ.calls[i]? = some c' → p c') ↔ p c := by
  constructor
  · intro h
    exact h c hi
  · intro h c' hc'
    obtain rfl := Option.some.inj (hi.symm.trans hc')
    exact h

lemma kept_act [DecidableEq η] (hs : σ.Sound w) (h : σ.Kept w) (a : Act η) :
    (σ.act w a).Kept w ↔ σ.Settled w a := by
  cases a with
  | updateSession tokens => exact ⟨fun _ => trivial, fun _ => kept_begin.mpr h⟩
  | connect base => exact ⟨fun _ => trivial, fun _ => kept_begin.mpr h⟩
  | disconnect => exact ⟨fun _ => trivial, fun _ => kept_begin.mpr h⟩
  | ensureFreshSession now =>
    simp only [Native.act, Settled, iff_true]
    split
    · exact h.refresh
    · exact h
  | forceRefreshSession => exact ⟨fun _ => trivial, fun _ => h.refresh⟩
  | next i =>
    cases hi : σ.calls[i]? with
    | none =>
      simp only [Native.act, Settled, hi]
      exact ⟨fun _ c hc => absurd hc.symm (Option.some_ne_none c), fun _ => h⟩
    | some c =>
      simp only [Native.act, Settled]
      rw [forall_call hi, hi]
      exact kept_advance hs h (hs.calls c (List.mem_of_getElem? hi))
  | answer i result =>
    simp only [Native.act, Settled, iff_true]
    split
    · exact h.refreshed result
    · exact h
  | redirect i canonical =>
    simp only [Native.act, Settled, iff_true]
    split
    · exact h.canonicalize canonical
    · exact h
  | failWrite i =>
    simp only [Native.act, Settled, iff_true]
    split
    · exact kept_goOn.mpr h
    · exact h
  | timeout i =>
    simp only [Native.act, Settled]
    split
    · case h_1 cfg hi =>
      rw [forall_call hi]
      exact kept_returned hs h
    · case h_2 cfg hi =>
      rw [forall_call hi]
      exact kept_returned hs h
    · case h_3 hmemory hsettling =>
      refine ⟨fun _ c hi => ?_, fun _ => h⟩
      unfold FindsLate
      split
      · case h_1 cfg => exact absurd hi (hmemory cfg)
      · case h_2 cfg => exact absurd hi (hsettling cfg)
      · trivial
  | restart => exact ⟨fun _ => trivial, fun _ => ⟨h.paired, h.disk, h.disk, h.replaced⟩⟩

lemma Kept.new : (Native.new : Native η).Kept w where
  paired := ServerConfig.paired_of_clear rfl
  disk _ h := absurd h List.not_mem_nil
  memory _ h := absurd h List.not_mem_nil
  replaced _ h := absurd h List.not_mem_nil

/-- The file names the server of its tokens, disconnected sessions stay away and newer tokens stay in place,
    just as long as what a call writes is not out of date and a disconnect leaves nothing behind. -/
theorem kept_iff_settled [DecidableEq η] (w : World η) (as : List (Act η)) :
    Always (step w) (Kept w) new as ↔ AllOk (step w) (Settled w) new as :=
  always_iff_allOk (fun _ a hs hok => hs.tick.act a hok)
    (fun _ a hs h => kept_act hs.tick (h.of_same rfl rfl rfl rfl) a) Sound.new Kept.new

/-- The keeper asks for new tokens, the user disconnects, and the answer is stored. -/
theorem token_back : ¬ ∀ (w : World Nat) (as : List (Act Nat)), Always (step w) (Kept w) new as := by
  intro h
  let w : World Nat := { serverAt := fun _ => 0, jwtExp := fun _ => none, fromJson := fun _ => none }
  let page : WebviewTokens Nat :=
    { page := 0, accessToken := ['a'], refreshToken := some ['r'], email := none, emailVerified := none }
  let as : List (Act Nat) := [.connect ['s'], .next 0, .next 0, .next 0, .next 0, .updateSession page, .next 1,
    .next 1, .next 1, .next 1, .ensureFreshSession 0, .disconnect, .next 3, .next 3, .next 3,
    .answer 2 (.ok { accessToken := ['b'], refreshToken := ['q'], emailVerified := true }), .next 2]
  have hlater := (h w as).last.disk
  exact absurd hlater (by decide +kernel)

end Native

end Session

end Sarca.Client
