import Sarca.Lib.Percent
import Sarca.Lib.Run
import Sarca.Lib.Text

/-!
# The app lock

The app lock is a part of the client's preferences: a flag, and the salted hash of a PIN. Several commands load
the file with the preferences, change their copy and save it whole. `set_client_prefs` may change the lock, and
then wants the PIN; `verify_app_lock_pin` opens it.

`Prefs` is the file with the calls under way, and `Prefs.Kept` says what the lock is for: what was stored of it
changes only through a request that presents the PIN in force, only that PIN opens it, and a request that fails
changes nothing. It holds in the runs where a call that saves finds the lock it has loaded.
-/

namespace Sarca.Client
open Sarca.Lib

namespace AppLock

/-! ## The PIN -/

def minPinLen : Nat := 4
def maxPinLen : Nat := 64
def pinHashRounds : Nat := 120000

/-- A digit of a hexadecimal number (Rust `{:x}`). -/
def hexDigitLower (n : Nat) : Char :=
  if n < 10 then Char.ofNat (48 + n) else Char.ofNat (87 + n)

/-- Rust `hex`. -/
def hex (bytes : List UInt8) : List Char :=
  bytes.flatMap fun b => [hexDigitLower (b.toNat / 16), hexDigitLower (b.toNat % 16)]

/-- Rust `hash_pin`. -/
def hashPin (sha256 : List UInt8 → List UInt8) (pin saltHex : List Char) : List Char :=
  let salt := utf8Bytes saltHex
  hex ((fun out => sha256 (salt ++ out))^[pinHashRounds - 1] (sha256 (salt ++ utf8Bytes pin)))

/-- Rust `constant_time_eq`. -/
def constantTimeEq (a b : List Char) : Bool :=
  let a := utf8Bytes a
  let b := utf8Bytes b
  a.length = b.length && (a.zip b).foldl (fun acc p => acc ||| (p.1 ^^^ p.2)) 0 = 0

/-! ## The preferences -/

/-- Rust `LogLevel`. -/
inductive LogLevel where
  | info
  | debug
deriving DecidableEq, Repr

def LogLevel.parse (raw : List Char) : LogLevel :=
  let word := (trim raw).map Char.toLower
  if word = "debug".toList ∨ word = "trace".toList ∨ word = "verbose".toList then .debug else .info

def LogLevel.asStr : LogLevel → List Char
  | .info => "info".toList
  | .debug => "debug".toList

/-- Rust `ClientPrefs`. -/
structure ClientPrefs where
  wifiOnly : Bool
  appLockEnabled : Bool
  appLockPinSalt : Option (List Char)
  appLockPinHash : Option (List Char)
  /-- The PIN in clear, as older versions stored it. -/
  legacyAppLockPin : Option (List Char)
  enableLogs : Bool
  logLevel : List Char
  cacheLimitBytes : Nat
deriving DecidableEq

/-- Rust `ClientPrefs::default`. -/
def ClientPrefs.default : ClientPrefs where
  wifiOnly := true
  appLockEnabled := false
  appLockPinSalt := none
  appLockPinHash := none
  legacyAppLockPin := none
  enableLogs := true
  logLevel := LogLevel.info.asStr
  cacheLimitBytes := 1073741824

/-- What a request asks for (Rust `ClientPrefsDto`). -/
structure ClientPrefsDto where
  wifiOnly : Bool
  appLockEnabled : Bool
  appLockPin : Option (List Char)
  currentAppLockPin : Option (List Char)
  enableLogs : Bool
  logLevel : List Char
  cacheLimitBytes : Nat
deriving DecidableEq

def maxCacheLimitBytes : Nat := 64 * 1024 * 1024 * 1024
def minCacheLimitBytes : Nat := 16 * 1024 * 1024

structure Lock where
  enabled : Bool
  hash : Option (List Char)
  salt : Option (List Char)
deriving DecidableEq

namespace ClientPrefs

def lock (p : ClientPrefs) : Lock where
  enabled := p.appLockEnabled
  hash := p.appLockPinHash
  salt := p.appLockPinSalt

def hasPin (p : ClientPrefs) : Bool :=
  p.appLockPinHash.isSome && p.appLockPinSalt.isSome

def setPin (sha256 : List UInt8 → List UInt8) (p : ClientPrefs) (pin salt : List Char) :
    Except String ClientPrefs :=
  if (trim pin).length < minPinLen then .error s!"PIN must be at least {minPinLen} characters"
  else if maxPinLen < (trim pin).length then .error s!"PIN must be at most {maxPinLen} characters"
  else .ok { p with appLockPinHash := some (hashPin sha256 (trim pin) salt), appLockPinSalt := some salt }

def clearPin (p : ClientPrefs) : ClientPrefs :=
  { p with appLockPinHash := none, appLockPinSalt := none, appLockEnabled := false }

def verifyPin (sha256 : List UInt8 → List UInt8) (p : ClientPrefs) (candidate : List Char) : Bool :=
  match p.appLockPinHash, p.appLockPinSalt with
  | some hash, some salt =>
    if trim candidate = [] ∨ maxPinLen < (trim candidate).length then false
    else constantTimeEq hash (hashPin sha256 (trim candidate) salt)
  | _, _ => false

/-- The preferences with the PIN hashed. The file needs rewriting when there was one in clear. -/
def migrateLegacyPin (sha256 : List UInt8 → List UInt8) (p : ClientPrefs) (salt : List Char) : ClientPrefs :=
  match p.legacyAppLockPin with
  | none => p
  | some pin =>
    let q := { p with legacyAppLockPin := none }
    if q.hasPin then q
    else match q.setPin sha256 (trim pin) salt with
      | .ok q' => q'
      | .error _ => q.clearPin

def withFields (p : ClientPrefs) (dto : ClientPrefsDto) : ClientPrefs :=
  { p with
    wifiOnly := dto.wifiOnly
    enableLogs := dto.enableLogs
    logLevel := (LogLevel.parse dto.logLevel).asStr
    cacheLimitBytes := max minCacheLimitBytes (min maxCacheLimitBytes dto.cacheLimitBytes) }

def withLock (p : ClientPrefs) (enabled : Bool) : Except String ClientPrefs :=
  if enabled then
    if p.hasPin then .ok { p with appLockEnabled := true }
    else .error "Set a PIN before turning on the app lock"
  else .ok p.clearPin

/-- What a request makes of the preferences (Rust `apply_dto`), with the salt for a new PIN. -/
def applyDto (sha256 : List UInt8 → List UInt8) (p : ClientPrefs) (dto : ClientPrefsDto) (salt : List Char) :
    Except String ClientPrefs :=
  let newPin := (dto.appLockPin.map trim).filter fun pin => pin ≠ []
  let wantsDisable := p.appLockEnabled && !dto.appLockEnabled
  if p.hasPin && (newPin.isSome || wantsDisable) && !p.verifyPin sha256 (dto.currentAppLockPin.getD []) then
    .error "Current PIN is incorrect"
  else
    match newPin with
    | none => (p.withFields dto).withLock dto.appLockEnabled
    | some pin =>
      match (p.withFields dto).setPin sha256 pin salt with
      | .error message => .error message
      | .ok q => q.withLock dto.appLockEnabled

def Locked (p : ClientPrefs) : Prop :=
  p.appLockEnabled = true ∧ p.hasPin = true

instance Locked.decidable (p : ClientPrefs) : Decidable p.Locked :=
  inferInstanceAs (Decidable (_ ∧ _))

def InForce (sha256 : List UInt8 → List UInt8) (p : ClientPrefs) (pin : List Char) : Prop :=
  ∃ salt, p.appLockPinSalt = some salt ∧ p.appLockPinHash = some (hashPin sha256 pin salt)

end ClientPrefs

/-! ## What holds of the PIN -/

variable {sha256 : List UInt8 → List UInt8} {p p' q : ClientPrefs} {pin pin' salt : List Char}

lemma foldl_or_eq_zero (l : List (UInt8 × UInt8)) (acc : UInt8) :
    l.foldl (fun acc p => acc ||| (p.1 ^^^ p.2)) acc = 0 ↔ acc = 0 ∧ ∀ p ∈ l, p.1 = p.2 := by
  induction l generalizing acc with
  | nil => simp
  | cons p l ih =>
    rw [List.foldl_cons, ih, UInt8.or_eq_zero_iff, UInt8.xor_eq_zero_iff, List.forall_mem_cons, and_assoc]

lemma eq_of_forall_mem_zip : ∀ {a b : List UInt8}, a.length = b.length → (∀ p ∈ a.zip b, p.1 = p.2) → a = b
  | [], [], _, _ => rfl
  | x :: a, y :: b, hlen, h => by
    rw [List.zip_cons_cons, List.forall_mem_cons] at h
    obtain ⟨hxy, h⟩ := h
    exact congrArg₂ List.cons hxy (eq_of_forall_mem_zip (Nat.succ.inj hlen) h)

lemma eq_of_constantTimeEq {a b : List Char} (h : constantTimeEq a b = true) : a = b := by
  unfold constantTimeEq at h
  rw [Bool.and_eq_true, decide_eq_true_iff, decide_eq_true_iff, foldl_or_eq_zero] at h
  have hbytes := eq_of_forall_mem_zip h.1 h.2.2
  rw [← fromUtf8Lossy_utf8Bytes a, ← fromUtf8Lossy_utf8Bytes b, hbytes]

namespace ClientPrefs

lemma inForce_of_verifyPin (h : p.verifyPin sha256 pin = true) : p.InForce sha256 (trim pin) := by
  unfold verifyPin at h
  split at h
  · case h_1 hash salt hhash hsalt =>
    split at h
    · cases h
    · rw [eq_of_constantTimeEq h] at hhash
      exact ⟨salt, hsalt, hhash⟩
  · cases h

lemma locked_congr (h : p.lock = p'.lock) : p.Locked ↔ p'.Locked := by
  obtain ⟨henabled, hhash, hsalt⟩ := Lock.mk.inj h
  unfold Locked hasPin
  rw [henabled, hhash, hsalt]

lemma inForce_congr (h : p.lock = p'.lock) : p.InForce sha256 pin ↔ p'.InForce sha256 pin := by
  obtain ⟨-, hhash, hsalt⟩ := Lock.mk.inj h
  unfold InForce
  rw [hhash, hsalt]

lemma lock_withLock {dto : ClientPrefsDto} {enabled : Bool} (hlocked : p.Locked) (hon : enabled = true)
    (h : (p.withFields dto).withLock enabled = .ok q) : q.lock = p.lock := by
  have hpin : (p.withFields dto).hasPin = true := hlocked.2
  unfold withLock at h
  rw [if_pos hon, if_pos hpin] at h
  cases h
  unfold lock
  rw [hlocked.1]
  rfl

lemma applyDto_ok {dto : ClientPrefsDto} (hlocked : p.Locked) (h : p.applyDto sha256 dto salt = .ok q) :
    q.lock = p.lock ∨ p.InForce sha256 (trim (dto.currentAppLockPin.getD [])) := by
  unfold applyDto at h
  dsimp only at h
  split at h
  · cases h
  · case isFalse hcheck =>
    cases hverify : p.verifyPin sha256 (dto.currentAppLockPin.getD []) with
    | true => exact .inr (inForce_of_verifyPin hverify)
    | false =>
      left
      -- without the PIN there is no new one, and the lock stays on
      rw [hverify, hlocked.1, hlocked.2, Bool.true_and, Bool.true_and, Bool.not_false, Bool.and_true,
        Bool.or_eq_true, not_or] at hcheck
      obtain ⟨hnone, hon⟩ := hcheck
      rw [Option.not_isSome_iff_eq_none.mp hnone] at h
      rw [Bool.not_eq_true, Bool.not_eq_false'] at hon
      exact lock_withLock hlocked hon h

end ClientPrefs

/-! ## The calls -/

inductive Command where
  /-- `get_client_prefs`, `get_log_status` and what else only loads. -/
  | read
  /-- `set_client_prefs`, with the salt for a new PIN. -/
  | setClientPrefs (dto : ClientPrefsDto) (salt : List Char)
  /-- `export_logs` while logging is off. -/
  | exportLogs
  | verifyAppLockPin (pin : List Char)
deriving DecidableEq

def Command.presented : Command → Option (List Char)
  | .setClientPrefs dto _ => some (dto.currentAppLockPin.getD [])
  | _ => none

def Command.IsRequest : Command → Prop
  | .setClientPrefs _ _ => True
  | _ => False

instance Command.IsRequest.decidable : ∀ c : Command, Decidable c.IsRequest
  | .setClientPrefs _ _ => inferInstanceAs (Decidable True)
  | .read => inferInstanceAs (Decidable False)
  | .exportLogs => inferInstanceAs (Decidable False)
  | .verifyAppLockPin _ => inferInstanceAs (Decidable False)

inductive Call where
  /-- The file was read, and `copy` is what `load_prefs` will return. -/
  | loaded (cmd : Command) (found copy : ClientPrefs)
  /-- The call is about to save. -/
  | saving (cmd : Command) (copy new : ClientPrefs)
  /-- `verify_app_lock_pin` sleeps. -/
  | waiting (copy : ClientPrefs) (pin : List Char)
  | returned (answer : Except String Unit)
  /-- The app ended. -/
  | lost

/-- A write of the file, with the current PIN that the call came with. -/
structure Change where
  call : Nat
  before : ClientPrefs
  after : ClientPrefs
  presented : Option (List Char)

/-- The file and the calls under way, with the writes so far and what `verify_app_lock_pin` said `true` to. -/
structure Prefs where
  file : ClientPrefs
  calls : List Call
  changes : List Change
  opened : List (ClientPrefs × List Char)

inductive Act where
  /-- A command reads the file; a PIN in clear would be hashed with `salt`. -/
  | start (cmd : Command) (salt : List Char)
  | next (i : Nat)
  /-- The file cannot be written. -/
  | refuse (i : Nat) (message : String)
  | restart

namespace Prefs

def init (file : ClientPrefs) : Prefs where
  file := file
  calls := []
  changes := []
  opened := []

def goOn (σ : Prefs) (i : Nat) (c : Call) : Prefs :=
  { σ with calls := σ.calls.set i c }

def write (σ : Prefs) (i : Nat) (after : ClientPrefs) (presented : Option (List Char)) : Prefs :=
  { σ with
    file := after
    changes := ⟨i, σ.file, after, presented⟩ :: σ.changes }

/-- `verify_app_lock_pin` answers. -/
def answer (σ : Prefs) (i : Nat) (copy : ClientPrefs) (pin : List Char) (said : Bool) : Prefs :=
  { σ.goOn i (.returned (.ok ())) with
    opened := if said then (copy, pin) :: σ.opened else σ.opened }

def proceed (sha256 : List UInt8 → List UInt8) (σ : Prefs) (i : Nat) (copy : ClientPrefs) : Command → Prefs
  | .read => σ.goOn i (.returned (.ok ()))
  | .setClientPrefs dto salt =>
    match copy.applyDto sha256 dto salt with
    | .error message => σ.goOn i (.returned (.error message))
    | .ok new => σ.goOn i (.saving (.setClientPrefs dto salt) copy new)
  | .exportLogs => σ.goOn i (.saving .exportLogs copy { copy with enableLogs := true })
  | .verifyAppLockPin pin =>
    if copy.Locked then σ.goOn i (.waiting copy pin) else σ.answer i copy pin true

def advance (sha256 : List UInt8 → List UInt8) (σ : Prefs) (i : Nat) : Call → Prefs
  | .loaded cmd found copy =>
    if found.legacyAppLockPin.isSome then (σ.write i copy none).proceed sha256 i copy cmd
    else σ.proceed sha256 i copy cmd
  | .saving cmd _ new => (σ.write i new cmd.presented).goOn i (.returned (.ok ()))
  | .waiting copy pin => σ.answer i copy pin (copy.verifyPin sha256 pin)
  | _ => σ

def failWrite (sha256 : List UInt8 → List UInt8) (σ : Prefs) (i : Nat) (message : String) : Call → Prefs
  | .loaded cmd _ copy => σ.proceed sha256 i copy cmd
  | .saving cmd _ _ => σ.goOn i (.returned (if cmd.IsRequest then .error message else .ok ()))
  | _ => σ

def step (sha256 : List UInt8 → List UInt8) (σ : Prefs) : Act → Prefs
  | .start cmd salt =>
    { σ with calls := σ.calls ++ [.loaded cmd σ.file (σ.file.migrateLegacyPin sha256 salt)] }
  | .next i =>
    match σ.calls[i]? with
    | none => σ
    | some c => σ.advance sha256 i c
  | .refuse i message =>
    match σ.calls[i]? with
    | none => σ
    | some c => σ.failWrite sha256 i message c
  | .restart => { σ with calls := σ.calls.map fun _ => .lost }

/-! ## The property and the condition -/

/-- A write that replaced a lock came with the PIN in force, nothing else opened a lock, and a request that
    failed wrote nothing but the hash of a PIN that stood in clear. -/
structure Kept (sha256 : List UInt8 → List UInt8) (σ : Prefs) : Prop where
  changes : ∀ c ∈ σ.changes, c.before.Locked →
    c.after.lock = c.before.lock ∨ ∃ pin ∈ c.presented, c.before.InForce sha256 (trim pin)
  opened : ∀ o ∈ σ.opened, o.1.Locked → o.1.InForce sha256 (trim o.2)
  failed : ∀ c ∈ σ.changes, ∀ message, σ.calls[c.call]? = some (.returned (.error message)) →
    ∃ salt, c.after = c.before.migrateLegacyPin sha256 salt

def Finds (sha256 : List UInt8 → List UInt8) (σ : Prefs) : Call → Prop
  | .loaded cmd found copy => found.legacyAppLockPin.isSome = true →
    (σ.file.Locked → copy.lock = σ.file.lock) ∧ (cmd.IsRequest → σ.file = found)
  | .saving cmd copy new => σ.file.Locked →
    copy.lock = σ.file.lock ∨ new.lock = σ.file.lock ∨
      ∃ pin ∈ cmd.presented, σ.file.InForce sha256 (trim pin)
  | _ => True

/-- A call that saves over a lock has loaded this lock, or presents its PIN. -/
def Undisturbed (sha256 : List UInt8 → List UInt8) (σ : Prefs) : Act → Prop
  | .next i => ∀ c, σ.calls[i]? = some c → σ.Finds sha256 c
  | _ => True

/-! ## What holds of the calls -/

/-- A call that will never answer with an error. -/
def NeverFails : Call → Prop
  | .loaded cmd _ _ => ¬ cmd.IsRequest
  | .saving cmd _ _ => ¬ cmd.IsRequest
  | .waiting _ _ => True
  | .returned answer => answer = .ok ()
  | .lost => True

/-- What a call holds comes from what it loaded. -/
def Derived (sha256 : List UInt8 → List UInt8) : Call → Prop
  | .loaded _ found copy => ∃ salt, copy = found.migrateLegacyPin sha256 salt
  | .saving cmd copy new => copy.Locked →
    new.lock = copy.lock ∨ ∃ pin ∈ cmd.presented, copy.InForce sha256 (trim pin)
  | _ => True

structure Sound (sha256 : List UInt8 → List UInt8) (σ : Prefs) : Prop where
  changes : ∀ c ∈ σ.changes, c.before.Locked →
    c.after.lock = c.before.lock ∨ ∃ pin ∈ c.presented, c.before.InForce sha256 (trim pin)
  opened : ∀ o ∈ σ.opened, o.1.Locked → o.1.InForce sha256 (trim o.2)
  safe : ∀ c ∈ σ.changes, (∃ salt, c.after = c.before.migrateLegacyPin sha256 salt) ∨
    ∃ d, σ.calls[c.call]? = some d ∧ NeverFails d
  calls : ∀ d ∈ σ.calls, Derived sha256 d

variable {σ : Prefs} {i : Nat} {cmd : Command} {copy found new after : ClientPrefs} {d d' : Call}
  {presented : Option (List Char)}

lemma Sound.init (file : ClientPrefs) : (Prefs.init file).Sound sha256 where
  changes _ h := absurd h List.not_mem_nil
  opened _ h := absurd h List.not_mem_nil
  safe _ h := absurd h List.not_mem_nil
  calls _ h := absurd h List.not_mem_nil

lemma Sound.kept (h : σ.Sound sha256) : σ.Kept sha256 where
  changes := h.changes
  opened := h.opened
  failed c hc message hcall := by
    rcases h.safe c hc with hupgrade | ⟨d, hd, hnever⟩
    · exact hupgrade
    · obtain rfl := Option.some.inj (hd.symm.trans hcall)
      cases hnever

lemma Sound.goOn (h : σ.Sound sha256) (hi : σ.calls[i]? = some d) (hderived : Derived sha256 d')
    (hnever : NeverFails d → NeverFails d') : (σ.goOn i d').Sound sha256 where
  changes := h.changes
  opened := h.opened
  safe c hc := by
    refine (h.safe c hc).imp_right ?_
    rintro ⟨e, he, hne⟩
    unfold Prefs.goOn
    dsimp only
    rcases eq_or_ne c.call i with heq | hne'
    · rw [heq] at he ⊢
      obtain rfl := Option.some.inj (hi.symm.trans he)
      refine ⟨d', ?_, hnever hne⟩
      rw [List.getElem?_set_self', hi]
      rfl
    · rw [List.getElem?_set_ne hne'.symm]
      exact ⟨e, he, hne⟩
  calls e he := by
    rcases List.mem_or_eq_of_mem_set he with he | rfl
    · exact h.calls e he
    · exact hderived

lemma Sound.write (h : σ.Sound sha256)
    (hlock : σ.file.Locked → after.lock = σ.file.lock ∨
      ∃ pin ∈ presented, σ.file.InForce sha256 (trim pin))
    (hsafe : (∃ salt, after = σ.file.migrateLegacyPin sha256 salt) ∨
      ∃ d, σ.calls[i]? = some d ∧ NeverFails d) : (σ.write i after presented).Sound sha256 where
  changes c hc := by
    rcases List.mem_cons.mp hc with rfl | hc
    · exact hlock
    · exact h.changes c hc
  opened := h.opened
  safe c hc := by
    rcases List.mem_cons.mp hc with rfl | hc
    · exact hsafe
    · exact h.safe c hc
  calls := h.calls

lemma Sound.answer {pin : List Char} {said : Bool} (h : σ.Sound sha256) (hi : σ.calls[i]? = some d)
    (hsaid : said = true → copy.Locked → copy.InForce sha256 (trim pin)) :
    (σ.answer i copy pin said).Sound sha256 := by
  have hgo : (σ.goOn i (.returned (.ok ()))).Sound sha256 := h.goOn hi trivial fun _ => rfl
  refine ⟨hgo.changes, ?_, hgo.safe, hgo.calls⟩
  intro o ho
  unfold Prefs.answer at ho
  dsimp only at ho
  split at ho
  · case isTrue htrue =>
    rcases List.mem_cons.mp ho with rfl | ho
    · exact hsaid htrue
    · exact h.opened o ho
  · exact h.opened o ho

lemma Sound.proceed (h : σ.Sound sha256) (hi : σ.calls[i]? = some d) (hd : NeverFails d → ¬ cmd.IsRequest) :
    (σ.proceed sha256 i copy cmd).Sound sha256 := by
  cases cmd with
  | read => exact h.goOn hi trivial fun _ => rfl
  | setClientPrefs dto salt =>
    have hfails : ¬ NeverFails d := fun hnever => hd hnever trivial
    simp only [Prefs.proceed]
    split
    · exact h.goOn hi trivial fun hnever => absurd hnever hfails
    · case h_2 new hnew =>
      refine h.goOn hi ?_ fun hnever => absurd hnever hfails
      intro hlocked
      refine (ClientPrefs.applyDto_ok hlocked hnew).imp_right fun hpin => ?_
      exact ⟨_, rfl, hpin⟩
  | exportLogs => exact h.goOn hi (fun _ => .inl rfl) fun _ hrequest => hrequest
  | verifyAppLockPin pin =>
    simp only [Prefs.proceed]
    split
    · exact h.goOn hi trivial fun _ => trivial
    · case isFalse hunlocked => exact h.answer hi fun _ hlocked => absurd hlocked hunlocked

lemma Sound.advance (h : σ.Sound sha256) (hi : σ.calls[i]? = some d) (hok : σ.Finds sha256 d) :
    (σ.advance sha256 i d).Sound sha256 := by
  have hderived := h.calls d (List.mem_of_getElem? hi)
  cases d with
  | loaded cmd found copy =>
    simp only [Prefs.advance]
    split
    · case isTrue hlegacy =>
      obtain ⟨hlock, hfound⟩ := hok hlegacy
      obtain ⟨salt, hcopy⟩ := hderived
      have hwrite : (σ.write i copy none).Sound sha256 := by
        refine h.write (fun hlocked => .inl (hlock hlocked)) ?_
        by_cases hrequest : cmd.IsRequest
        · rw [hfound hrequest]
          exact .inl ⟨salt, hcopy⟩
        · exact .inr ⟨_, hi, hrequest⟩
      exact hwrite.proceed hi fun hnever => hnever
    · exact h.proceed hi fun hnever => hnever
  | saving cmd copy new =>
    have hgo : (σ.goOn i (.returned (.ok ()))).Sound sha256 := h.goOn hi trivial fun _ => rfl
    have hwrite : ((σ.goOn i (.returned (.ok ()))).write i new cmd.presented).Sound sha256 := by
      refine hgo.write ?_ (.inr ⟨.returned (.ok ()), ?_, rfl⟩)
      · intro hlocked
        rcases hok hlocked with hcopy | hnew | hpin
        · refine (hderived ((ClientPrefs.locked_congr hcopy).mpr hlocked)).imp ?_ ?_
          · exact fun hnew => hnew.trans hcopy
          · rintro ⟨pin, hpin, hforce⟩
            exact ⟨pin, hpin, (ClientPrefs.inForce_congr hcopy).mp hforce⟩
        · exact .inl hnew
        · exact .inr hpin
      · unfold Prefs.goOn
        rw [List.getElem?_set_self', hi]
        rfl
    exact hwrite
  | waiting copy pin => exact h.answer hi fun hverify _ => ClientPrefs.inForce_of_verifyPin hverify
  | returned answer => exact h
  | lost => exact h

lemma Sound.failWrite (h : σ.Sound sha256) (hi : σ.calls[i]? = some d) (message : String) :
    (σ.failWrite sha256 i message d).Sound sha256 := by
  cases d with
  | loaded cmd found copy => exact h.proceed hi fun hnever => hnever
  | saving cmd copy new =>
    refine h.goOn hi trivial fun hnever => ?_
    exact if_neg hnever
  | waiting copy pin => exact h
  | returned answer => exact h
  | lost => exact h

lemma Sound.step (h : σ.Sound sha256) (a : Act) (hok : σ.Undisturbed sha256 a) :
    (σ.step sha256 a).Sound sha256 := by
  cases a with
  | start cmd salt =>
    refine ⟨h.changes, h.opened, ?_, ?_⟩
    · intro c hc
      refine (h.safe c hc).imp_right ?_
      rintro ⟨d, hd, hnever⟩
      exact ⟨d, List.getElem?_append_left (List.getElem?_eq_some_iff.mp hd).1 ▸ hd, hnever⟩
    · intro d hd
      rcases List.mem_append.mp hd with hd | hd
      · exact h.calls d hd
      · obtain rfl := List.mem_singleton.mp hd
        exact ⟨salt, rfl⟩
  | next i =>
    simp only [Prefs.step]
    split
    · exact h
    · case h_2 d hi => exact h.advance hi (hok d hi)
  | refuse i message =>
    simp only [Prefs.step]
    split
    · exact h
    · case h_2 d hi => exact h.failWrite hi message
  | restart =>
    refine ⟨h.changes, h.opened, ?_, ?_⟩
    · intro c hc
      refine (h.safe c hc).imp_right ?_
      rintro ⟨d, hd, -⟩
      refine ⟨.lost, ?_, trivial⟩
      simp only [Prefs.step, List.getElem?_map, hd, Option.map_some]
    · intro d hd
      obtain ⟨_, -, rfl⟩ := List.mem_map.mp hd
      trivial

/-- What a request asks for that leaves the lock off. -/
def plainDto : ClientPrefsDto where
  wifiOnly := false
  appLockEnabled := false
  appLockPin := none
  currentAppLockPin := none
  enableLogs := true
  logLevel := []
  cacheLimitBytes := 0

end Prefs

end AppLock

end Sarca.Client
