import Sarca.Lib.Run
import Sarca.Server.BotReplacement

/-!
# The setup

`SetupService::create_storage` makes a storage of chats and gives it a bot, one statement after the other: the
row, the access of its creator, the channels, and the bot by `set_bot`. A storage of the user that has the chats
already is taken up instead, and a storage that does not get that far is deleted again. `Phase` is where a call
stands, and its `advance` makes the next statement; between two statements of a call, any others run.

`Safe` is what no call may do to the others: one that fails leaves no storage it made, and what was there or was
promised by an `Ok` stays. It holds in every run where a rollback deletes its storage and where a call takes up
a storage only when the call that made it is through with it (`safe_run`).
-/

namespace Sarca.Server.Setup
open Sarca.Lib

/-- The tables of `set_bot`, and the names of the storages. -/
structure SetupDb extends BotDb where
  names : AList fun _ : Uuid => List Char

/-- Rust `SetupCreateStorageSchema`, and who sends it. -/
structure SetupCall where
  user : AuthUser
  name : List Char
  token : List Char
  chatIds : List Int
deriving DecidableEq, Repr

/-- Rust `SetupCreateStorageResultSchema`. -/
structure SetupResult where
  id : Uuid
  name : List Char
deriving DecidableEq, Repr

/-- Rust `SarcaError`, as far as `create_storage` answers it; `create` and `bot` are the errors of
    `StoragesService::create` and `set_bot`. -/
inductive SetupError where
  | invalidFolderName
  | noActiveChannel
  | telegramAPIError (message : String)
  | unknown
  | create (e : AccessError)
  | bot (e : SetBotError)
deriving DecidableEq, Repr

structure Config where
  superuserEmail : List Char
  /-- Rust `Uuid::to_string` -/
  uuidText : Uuid → List Char

/-- What a statement meets: it fails or not, and what Telegram and `Uuid::new_v4` answer. -/
structure Answer where
  fails : Bool
  getMe : Except String BotMe
  newId : Uuid

def Answer.env (a : Answer) (config : Config) : Env where
  fails _ := a.fails
  getMe := a.getMe
  newId := a.newId
  uuidText := config.uuidText

inductive Target where
  | existing (id : Uuid)
  | owned (id : Uuid)
  | new
deriving DecidableEq, Repr

def Target.id? : Target → Option Uuid
  | .existing id | .owned id => some id
  | .new => none

/-- The next statement of `set_bot`. -/
inductive BotPhase where
  | access
  | storage
  | firstBot
  | getMe
  | secondBot (me : BotMe)
  | thirdBot (me : BotMe)
  | byToken (me : BotMe)
  | name (me : BotMe) (target : Target)
  | write (name : List Char) (target : Target)
  /-- `set_bot` has returned -/
  | installed
deriving DecidableEq, Repr

/-- The next statement of `create_storage`. The search for a storage with the chats is made twice, the second
    time (`again`) behind a conflict; `own` is a storage that this call made. -/
inductive Phase where
  | asking
  | finding (again : Bool) (rest : List Int) (found : Option Uuid)
  | entitled (again : Bool) (id : Uuid)
  | fetching (again : Bool) (id : Uuid)
  | naming
  | creating
  | granting (id : Uuid)
  | linking (id : Uuid) (position : Int) (rest : List Int)
  | sharing (id : Uuid)
  | rollingBack (id : Uuid) (e : AccessError)
  | binding (own : Bool) (s : SetupResult) (phase : BotPhase)
  | undoing (id : Uuid) (e : SetBotError)
  | answered (result : Except SetupError SetupResult)
deriving DecidableEq

namespace SetupDb

variable (db : SetupDb)

/-! ## Statements -/

def ids : List Uuid :=
  db.storages.map (·.id)

/-- Rust `StoragesRepository::get_by_name_and_user_id` finds a row. -/
def NameTaken (name : List Char) (userId : Uuid) : Prop :=
  ∃ id ∈ db.ids, db.names.lookup id = some name ∧ db.roster.level userId id ≠ none

instance NameTaken.decidable (name : List Char) (userId : Uuid) : Decidable (db.NameTaken name userId) :=
  inferInstanceAs (Decidable (∃ id ∈ db.ids, _))

/-- Rust `StoragesRepository::create`, where the id is new. -/
def insertStorage (id : Uuid) (name : List Char) : SetupDb :=
  { db with
    storages := ⟨id, 1⟩ :: db.storages
    names := db.names.insert id name }

/-- Rust `delete_storage`, with its cascades; a storage that is being set up has no files. -/
def deleteStorage (id : Uuid) : SetupDb :=
  { db with
    storages := db.storages.filter fun s => s.id ≠ id
    names := keepKeys (· ≠ id) db.names
    roster := db.roster.dropStorage id
    bots :=
      ⟨db.bots.entries.filter fun e => e.2.storageId ≠ some id, db.bots.nodupKeys.sublist List.filter_sublist⟩
    channels := db.channels.filter fun c => c.storageId ≠ id
    replicas := db.replicas.filter fun r => ∀ c ∈ db.channels, c.id = r.channelId → c.storageId ≠ id }

/-- Rust `get_by_chat_id`. -/
def getByChatId (chatId : Int) : Option StorageChannel :=
  db.channels.find? fun c => c.chatId = chatId

/-- Rust `StorageChannelsRepository::insert`; the id, the chat and the position on a storage are `UNIQUE`. -/
def insertChannel (c : StorageChannel) : Except AccessError SetupDb :=
  if ∃ c' ∈ db.channels, c'.id = c.id ∨ c'.chatId = c.chatId ∨
      c'.storageId = c.storageId ∧ c'.position = c.position then
    .error .storageChatIdConflict
  else if c.storageId ∉ db.ids then .error (.doesNotExist "such storage")
  else .ok { db with channels := c :: db.channels }

/-- A row that was written is undone when what it refers to is gone. -/
def checked (refs : Prop) [Decidable refs] (written : BotDb.Written) : BotDb.Written :=
  match written with
  | (.ok bot, bots) =>
    if refs then (.ok bot, bots) else (.error (.doesNotExist "Such storage does not exist"), db.toBotDb)
  | (.error e, bots) => (.error e, bots)

def writeBot (env : Env) (storageId userId : Uuid) (token name : List Char) : Target → BotDb.Written
  | .existing id => db.updateCredentials env id name token
  | .owned id => db.checked (storageId ∈ db.ids) (db.rebindToStorage env id storageId name)
  | .new =>
    db.checked (storageId ∈ db.ids ∧ db.roster.users.lookup userId ≠ none)
      (db.createBot env ⟨name, token, userId, some storageId⟩)

end SetupDb

/-! ## `set_bot` -/

variable (config : Config)

/-- The next statement of `set_bot`, without the channels it keeps. -/
def BotPhase.advance (a : Answer) (userId storageId : Uuid) (text : List Char) (db : SetupDb) :
    BotPhase → SetupDb × Except SetBotError BotPhase
  | .access =>
    if a.fails then (db, .error .unknown)
    else
      match db.roster.checkAccess userId storageId .a with
      | .error e => (db, .error (.access e))
      | .ok () => (db, .ok .storage)
  | .storage =>
    if a.fails then (db, .error .unknown)
    else if storageId ∉ db.ids then (db, .error (.doesNotExist "such storage"))
    else if trim text = [] ∨ ':' ∉ trim text then (db, .error (.telegramAPIError "Bot token looks invalid"))
    else (db, .ok .firstBot)
  | .firstBot =>
    if a.fails then (db, .error .unknown)
    else if ∃ e ∈ db.getByStorageId storageId, e.2.token = trim text then (db, .error .botTokenUnchanged)
    else (db, .ok .getMe)
  | .getMe =>
    match a.getMe with
    | .error message => (db, .error (.telegramAPIError message))
    | .ok me => (db, .ok (.secondBot me))
  | .secondBot me =>
    if a.fails then (db, .error .unknown)
    else if (db.getByStorageId storageId).isSome then (db, .error .botReplacementRequiresChannelConfirmation)
    else (db, .ok (.thirdBot me))
  | .thirdBot me =>
    if a.fails then (db, .error .unknown)
    else
      match db.getByStorageId storageId with
      | some existing => (db, .ok (.name me (.existing existing.1)))
      | none => (db, .ok (.byToken me))
  | .byToken me =>
    if a.fails then (db, .error .unknown)
    else
      match db.getByToken (trim text) with
      | some owned =>
        if owned.2.userId ≠ userId then (db, .error .storageWorkerTokenConflict)
        else (db, .ok (.name me (.owned owned.1)))
      | none => (db, .ok (.name me .new))
  | .name me target =>
    -- a name that cannot be looked up is used as it is
    (db, .ok (.write (db.botName (a.env config) storageId userId me target.id?) target))
  | .write botName target =>
    let written := db.writeBot (a.env config) storageId userId (trim text) botName target
    ({ db with toBotDb := written.2 }, written.1.map fun _ => .installed)
  | .installed => (db, .ok .installed)

/-! ## `create_storage` -/

namespace SetupCall

variable (call : SetupCall)

def check : Except SetupError Unit :=
  if trim call.name = [] then .error .invalidFolderName
  else if call.chatIds = [] ∨ 3 < call.chatIds.length then .error .noActiveChannel
  else if ∃ id ∈ call.chatIds, 0 ≤ id then
    .error (.telegramAPIError "chat_id must be a negative Telegram channel/group id")
  else .ok ()

def start : Phase :=
  match call.check with
  | .error e => .answered (.error e)
  | .ok () => .asking

end SetupCall

def Phase.notOwned : Bool → Phase
  | false => .naming
  | true => .answered (.error (.create .storageChatIdConflict))

/-- What `create_storage` makes of the next step of `set_bot`. -/
def Phase.bound (own : Bool) (s : SetupResult) : Except SetBotError BotPhase → Phase
  | .error e => if own then .undoing s.id e else .answered (.error (.bot e))
  | .ok .installed => .answered (.ok s)
  | .ok phase => .binding own s phase

/-- The next statement of `create_storage`. -/
def Phase.advance (a : Answer) (call : SetupCall) (db : SetupDb) : Phase → SetupDb × Phase
  | .asking =>
    match a.getMe with
    | .error message => (db, .answered (.error (.telegramAPIError message)))
    | .ok _ => (db, .finding false call.chatIds none)
  | .finding again [] found =>
    match found with
    | none => (db, notOwned again)
    | some id => (db, .entitled again id)
  | .finding again (chatId :: rest) found =>
    if a.fails then (db, .answered (.error .unknown))
    else
      match db.getByChatId chatId with
      | none => (db, notOwned again)
      | some ch =>
        if ∃ id ∈ found, id ≠ ch.storageId then (db, notOwned again)
        else (db, .finding again rest (some ch.storageId))
  | .entitled again id =>
    -- a check that fails counts as no access
    if a.fails ∨ ¬ db.roster.HasAccess call.user.id id .a then (db, notOwned again)
    else (db, .fetching again id)
  | .fetching again id =>
    if a.fails then (db, .answered (.error .unknown))
    else if id ∉ db.ids then (db, notOwned again)
    else (db, .binding false ⟨id, (db.names.lookup id).getD []⟩ .access)
  | .naming =>
    -- a name that cannot be looked up counts as free
    if a.fails = false ∧ db.NameTaken (trim call.name) call.user.id then
      (db, .answered (.error (.create .storageNameConflict)))
    else (db, .creating)
  | .creating =>
    if a.fails ∨ a.newId ∈ db.ids then (db, .answered (.error (.create .unknown)))
    else (db.insertStorage a.newId (trim call.name), .granting a.newId)
  | .granting id =>
    if a.fails then (db, .rollingBack id .unknown)
    else
      match db.roster.grantForUserId db.ids id call.user.id .a with
      | .error e => (db, .rollingBack id e)
      | .ok ρ => ({ db with roster := ρ }, .linking id 1 call.chatIds)
  | .linking id _ [] => (db, .sharing id)
  | .linking id position (chatId :: rest) =>
    if a.fails then (db, .rollingBack id .unknown)
    else
      match db.insertChannel ⟨a.newId, id, position, chatId, .active⟩ with
      | .error e => (db, .rollingBack id e)
      | .ok db' => (db', .linking id (position + 1) rest)
  | .sharing id =>
    -- best effort: the storage is kept without the superuser's row
    if a.fails ∨ eqIgnoreAsciiCase call.user.email config.superuserEmail then
      (db, .binding true ⟨id, trim call.name⟩ .access)
    else
      match db.roster.createOrUpdate db.ids id config.superuserEmail .a with
      | .error _ => (db, .binding true ⟨id, trim call.name⟩ .access)
      | .ok ρ => ({ db with roster := ρ }, .binding true ⟨id, trim call.name⟩ .access)
  | .rollingBack id e =>
    -- what the delete answers is dropped; only a conflict looks for the storage once more
    (if a.fails then db else db.deleteStorage id,
      if e = .storageChatIdConflict then .finding true call.chatIds none else .answered (.error (.create e)))
  | .binding own s phase =>
    let stepped := phase.advance config a call.user.id s.id (trim call.token) db
    (stepped.1, bound own s stepped.2)
  | .undoing id e => (if a.fails then db else db.deleteStorage id, .answered (.error (.bot e)))
  | .answered result => (db, .answered result)

/-! ## Many calls -/

/-- The storage that was made by the last statement. -/
def Phase.made : Phase → Option Uuid
  | .granting id => some id
  | _ => none

structure Job where
  call : SetupCall
  phase : Phase
deriving DecidableEq

/-- The tables and the calls so far; `makers` notes for the statements which call made a storage last. -/
structure SetupState where
  db : SetupDb
  jobs : List Job
  makers : Uuid → Option Nat

inductive Act where
  | request (call : SetupCall)
  | advance (number : Nat) (a : Answer)

namespace SetupState

def init (db : SetupDb) : SetupState :=
  ⟨db, [], fun _ => none⟩

def put (σ : SetupState) (number : Nat) (call : SetupCall) (next : SetupDb × Phase) : SetupState where
  db := next.1
  jobs := σ.jobs.set number ⟨call, next.2⟩
  makers :=
    match next.2.made with
    | some id => Function.update σ.makers id (some number)
    | none => σ.makers

def step (σ : SetupState) : Act → SetupState
  | .request call => { σ with jobs := σ.jobs ++ [⟨call, call.start⟩] }
  | .advance number a =>
    match σ.jobs[number]? with
    | none => σ
    | some job => σ.put number job.call (job.phase.advance config a job.call σ.db)

end SetupState

/-! ## What the calls leave each other -/

inductive Stake where
  | none
  /-- the call made it, and has not answered -/
  | owns (id : Uuid)
  /-- the call takes it up -/
  | adopts (id : Uuid)
  /-- the call answered `Ok` for it -/
  | promises (id : Uuid)
deriving DecidableEq

def Phase.stake : Phase → Stake
  | .granting id | .linking id _ _ | .sharing id | .rollingBack id _ | .undoing id _ => .owns id
  | .binding true s _ => .owns s.id
  | .binding false s _ => .adopts s.id
  | .answered (.ok s) => .promises s.id
  | _ => .none

/-- The statement does not fail where it deletes what was made. -/
def Phase.Undoes (a : Answer) : Phase → Prop
  | .rollingBack _ _ | .undoing _ _ => a.fails = false
  | _ => True

namespace SetupState

/-- The storage is there, and the call that made it, if one did, answered `Ok` for it. -/
def Finished (σ : SetupState) (id : Uuid) : Prop :=
  id ∈ σ.db.ids ∧
    ∀ number : Nat, σ.makers id = some number →
      ∃ job, σ.jobs[number]? = some job ∧ job.phase.stake = .promises id

/-- What was there is there, what was promised is there, and a call that failed left nothing it made. -/
structure Safe (σ₀ σ : SetupState) : Prop where
  before : ∀ s ∈ σ₀.db.storages, s ∈ σ.db.storages
  promised : ∀ (number : Nat) (job : Job) (s : SetupResult), σ.jobs[number]? = some job →
    job.phase = .answered (.ok s) → s.id ∈ σ.db.ids
  nothingLeft : ∀ (number : Nat) (job : Job) (e : SetupError), σ.jobs[number]? = some job →
    job.phase = .answered (.error e) → ∀ id ∈ σ.db.ids, σ.makers id ≠ some number

def Undoes (σ : SetupState) : Act → Prop
  | .request _ => True
  | .advance number a => ∀ job ∈ σ.jobs[number]?, job.phase.Undoes a

def Waits (σ : SetupState) : Act → Prop
  | .request _ => True
  | .advance number a => ∀ job ∈ σ.jobs[number]?,
    match job.phase with
    | .fetching _ id => a.fails = false → id ∈ σ.db.ids → σ.Finished id
    | _ => True

end SetupState

/-! ## What a statement does to the storages -/

namespace SetupDb

variable {db : SetupDb} {env : Env} {storageId userId : Uuid} {token name : List Char} {target : Target}

/-- One row is written, which has its storage from before or was checked for it, or nothing is. -/
inductive Wrote (db : SetupDb) : BotDb.Written → Prop where
  | failed (e : SetBotError) : Wrote db (.error e, db.toBotDb)
  | put (bot : Uuid × BotRow)
      (hrefs : ∀ id, bot.2.storageId = some id →
        id ∈ db.ids ∨ ∃ row, db.bots.lookup bot.1 = some row ∧ row.storageId = some id) :
    Wrote db (.ok bot, db.put bot.1 bot.2)

lemma wrote_checked {refs : Prop} [Decidable refs] {bot : Uuid × BotRow}
    (hrefs : refs → ∀ id, bot.2.storageId = some id → id ∈ db.ids) :
    db.Wrote (db.checked refs (.ok bot, db.put bot.1 bot.2)) := by
  unfold checked
  dsimp only
  split
  · case isTrue h => exact .put bot fun id hid => .inl (hrefs h id hid)
  · exact .failed _

lemma wrote_writeBot : db.Wrote (db.writeBot env storageId userId token name target) := by
  cases target with
  | existing id =>
    show db.Wrote (db.updateCredentials env id name token)
    unfold BotDb.updateCredentials
    split
    · exact .failed _
    · split
      · exact .failed _
      · split
        · exact .failed _
        · case h_2 row hrow =>
          exact .put (id, { row with name := name, token := token }) fun id' hid' => .inr ⟨row, hrow, hid'⟩
  | owned id =>
    show db.Wrote (db.checked _ (db.rebindToStorage env id storageId name))
    unfold BotDb.rebindToStorage
    split
    · exact .failed _
    · split
      · exact .failed _
      · refine wrote_checked fun hin id' hid' => ?_
        obtain rfl := Option.some.inj hid'
        exact hin
  | new =>
    show db.Wrote (db.checked _ (db.createBot env _))
    unfold BotDb.createBot
    split
    · exact .failed _
    · split
      · exact .failed _
      · refine wrote_checked fun hin id' hid' => ?_
        obtain rfl := Option.some.inj hid'
        exact hin.1

@[simp] lemma ids_insertStorage {id : Uuid} : (db.insertStorage id name).ids = id :: db.ids := rfl

lemma mem_ids_deleteStorage {id id' : Uuid} : id' ∈ (db.deleteStorage id).ids ↔ id' ∈ db.ids ∧ id' ≠ id := by
  unfold ids deleteStorage
  simp only [List.mem_map, List.mem_filter, decide_eq_true_eq]
  constructor
  · rintro ⟨s, ⟨hs, hne⟩, rfl⟩
    exact ⟨⟨s, hs, rfl⟩, hne⟩
  · rintro ⟨⟨s, hs, rfl⟩, hne⟩
    exact ⟨s, ⟨hs, hne⟩, rfl⟩

lemma storages_insertChannel {c : StorageChannel} {db' : SetupDb} (h : db.insertChannel c = .ok db') :
    db'.storages = db.storages := by
  unfold insertChannel at h
  split at h
  · cases h
  · split at h
    · cases h
    · cases h
      rfl

end SetupDb

variable {config : Config} {a : Answer} {call : SetupCall} {db : SetupDb} {phase : Phase}

lemma advance_eq {userId storageId : Uuid} {text : List Char} {phase : BotPhase} :
    (phase.advance config a userId storageId text db).1 = db ∨
      ∃ written, db.Wrote written ∧
        (phase.advance config a userId storageId text db).1 = { db with toBotDb := written.2 } := by
  cases phase with
  | access =>
    left
    dsimp only [BotPhase.advance]
    split
    · rfl
    · split <;> rfl
  | storage =>
    left
    dsimp only [BotPhase.advance]
    split
    · rfl
    · split
      · rfl
      · split <;> rfl
  | firstBot =>
    left
    dsimp only [BotPhase.advance]
    split
    · rfl
    · split <;> rfl
  | getMe =>
    left
    dsimp only [BotPhase.advance]
    split <;> rfl
  | secondBot me =>
    left
    dsimp only [BotPhase.advance]
    split
    · rfl
    · split <;> rfl
  | thirdBot me =>
    left
    dsimp only [BotPhase.advance]
    split
    · rfl
    · split <;> rfl
  | byToken me =>
    left
    dsimp only [BotPhase.advance]
    split
    · rfl
    · split
      · split <;> rfl
      · rfl
  | name me target => exact .inl rfl
  | write botName target => exact .inr ⟨_, SetupDb.wrote_writeBot, rfl⟩
  | installed => exact .inl rfl

lemma storages_advance {userId storageId : Uuid} {text : List Char} {phase : BotPhase} :
    (phase.advance config a userId storageId text db).1.storages = db.storages := by
  rcases (advance_eq : (phase.advance config a userId storageId text db).1 = db ∨ _) with
    heq | ⟨written, hwrote, heq⟩
  · rw [heq]
  · rw [heq]
    cases hwrote <;> rfl

/-- What one statement does to the table of storages, and what it makes of the call. -/
inductive Turn (a : Answer) (db : SetupDb) (phase : Phase) (next : SetupDb × Phase) : Prop where
  | stays (hmade : next.2.made = none) (hdb : next.1.storages = db.storages)
      (hnext : next.2.stake = phase.stake)
  | leaves (id : Uuid) (hmade : next.2.made = none) (hdb : next.1.storages = db.storages)
      (hstake : phase.stake = .adopts id) (hnext : next.2.stake = .none)
  | makes (id : Uuid) (hmade : next.2.made = some id) (hnew : id ∉ db.ids)
      (hdb : next.1.storages = ⟨id, 1⟩ :: db.storages) (hstake : phase.stake = .none)
      (hnext : next.2.stake = .owns id)
  | takesUp (again : Bool) (id : Uuid) (hmade : next.2.made = none) (hphase : phase = .fetching again id)
      (hread : a.fails = false) (hin : id ∈ db.ids) (hdb : next.1.storages = db.storages)
      (hnext : next.2.stake = .adopts id)
  | givesUp (id : Uuid) (hmade : next.2.made = none)
      (hphase : (∃ e, phase = .rollingBack id e) ∨ ∃ e, phase = .undoing id e)
      (hdb : next.1 = if a.fails then db else db.deleteStorage id) (hnext : next.2.stake = .none)
  | finishes (id : Uuid) (hmade : next.2.made = none) (hdb : next.1.storages = db.storages)
      (hstake : phase.stake = .owns id ∨ phase.stake = .adopts id) (hnext : next.2.stake = .promises id)

lemma turn_notOwned {again : Bool} (hstake : phase.stake = .none) : Turn a db phase (db, .notOwned again) := by
  cases again with
  | false => exact .stays rfl rfl hstake.symm
  | true => exact .stays rfl rfl hstake.symm

lemma turn_binding {own : Bool} {s : SetupResult} {phase : BotPhase} :
    Turn a db (.binding own s phase) ((Phase.binding own s phase).advance config a call db) := by
  have hdb : (phase.advance config a call.user.id s.id (trim call.token) db).1.storages = db.storages :=
    storages_advance
  dsimp only [Phase.advance]
  generalize phase.advance config a call.user.id s.id (trim call.token) db = stepped at hdb
  obtain ⟨db', result⟩ := stepped
  cases result with
  | error e =>
    cases own with
    | false => exact .leaves s.id rfl hdb rfl rfl
    | true => exact .stays rfl hdb rfl
  | ok next =>
    have hstays : next ≠ .installed → Turn a db (.binding own s phase) (db', .binding own s next) := by
      intro _
      refine .stays rfl hdb ?_
      cases own <;> rfl
    cases next with
    | installed =>
      refine .finishes s.id rfl hdb ?_ rfl
      cases own with
      | false => exact .inr rfl
      | true => exact .inl rfl
    | _ => exact hstays nofun

lemma turn_advance : Turn a db phase (phase.advance config a call db) := by
  cases phase with
  | asking =>
    dsimp only [Phase.advance]
    split <;> exact .stays rfl rfl rfl
  | finding again rest found =>
    cases rest with
    | nil =>
      dsimp only [Phase.advance]
      split
      · exact turn_notOwned rfl
      · exact .stays rfl rfl rfl
    | cons chatId rest =>
      dsimp only [Phase.advance]
      split
      · exact .stays rfl rfl rfl
      · split
        · exact turn_notOwned rfl
        · split
          · exact turn_notOwned rfl
          · exact .stays rfl rfl rfl
  | entitled again id =>
    dsimp only [Phase.advance]
    split
    · exact turn_notOwned rfl
    · exact .stays rfl rfl rfl
  | fetching again id =>
    dsimp only [Phase.advance]
    split
    · exact .stays rfl rfl rfl
    · case isFalse hread =>
      split
      · exact turn_notOwned rfl
      · case isFalse hin =>
        exact .takesUp again id rfl rfl (Bool.eq_false_iff.mpr hread) (not_not.mp hin) rfl rfl
  | naming =>
    dsimp only [Phase.advance]
    split <;> exact .stays rfl rfl rfl
  | creating =>
    dsimp only [Phase.advance]
    split
    · exact .stays rfl rfl rfl
    · case isFalse h => exact .makes a.newId rfl (fun hin => h (.inr hin)) rfl rfl rfl
  | granting id =>
    dsimp only [Phase.advance]
    split
    · exact .stays rfl rfl rfl
    · split <;> exact .stays rfl rfl rfl
  | linking id position rest =>
    cases rest with
    | nil => exact .stays rfl rfl rfl
    | cons chatId rest =>
      dsimp only [Phase.advance]
      split
      · exact .stays rfl rfl rfl
      · split
        · exact .stays rfl rfl rfl
        · case h_2 hinsert => exact .stays rfl (SetupDb.storages_insertChannel hinsert) rfl
  | sharing id =>
    dsimp only [Phase.advance]
    split
    · exact .stays rfl rfl rfl
    · split <;> exact .stays rfl rfl rfl
  | rollingBack id e =>
    refine .givesUp id ?_ (.inl ⟨e, rfl⟩) rfl ?_
    · dsimp only [Phase.advance]
      split <;> rfl
    · dsimp only [Phase.advance]
      split <;> rfl
  | binding own s phase => exact turn_binding
  | undoing id e => exact .givesUp id rfl (.inr ⟨e, rfl⟩) rfl rfl
  | answered result => exact .stays rfl rfl rfl

/-! ## The schema -/

namespace SetupDb

/-- What the schema says of the tables: what a row refers to is there, and a chat has one channel. -/
structure Keyed (db : SetupDb) : Prop where
  channels : ∀ c ∈ db.channels, c.storageId ∈ db.ids
  chats : ∀ c ∈ db.channels, ∀ c' ∈ db.channels, c.chatId = c'.chatId → c = c'
  replicas : ∀ r ∈ db.replicas, ∃ c ∈ db.channels, c.id = r.channelId
  bots : ∀ (b : Uuid) (row : BotRow) (id : Uuid), db.bots.lookup b = some row → row.storageId = some id →
    id ∈ db.ids
  access : ∀ userId id : Uuid, db.roster.level userId id ≠ none → id ∈ db.ids
  names : ∀ id ∈ db.names, id ∈ db.ids

lemma Keyed.insertStorage {id : Uuid} (h : db.Keyed) : (db.insertStorage id name).Keyed where
  channels c hc := List.mem_cons_of_mem id (h.channels c hc)
  chats := h.chats
  replicas := h.replicas
  bots b row id' hrow hid := List.mem_cons_of_mem id (h.bots b row id' hrow hid)
  access userId id' hlevel := List.mem_cons_of_mem id (h.access userId id' hlevel)
  names id' hid' := by
    rcases (AList.mem_insert db.names).mp hid' with rfl | hid'
    · exact List.mem_cons_self
    · exact List.mem_cons_of_mem id (h.names id' hid')

lemma Keyed.deleteStorage {id : Uuid} (h : db.Keyed) : (db.deleteStorage id).Keyed where
  channels c hc := by
    obtain ⟨hc, hne⟩ := List.mem_filter.mp hc
    exact mem_ids_deleteStorage.mpr ⟨h.channels c hc, of_decide_eq_true hne⟩
  chats c hc c' hc' := h.chats c (List.mem_of_mem_filter hc) c' (List.mem_of_mem_filter hc')
  replicas r hr := by
    obtain ⟨hr, hkept⟩ := List.mem_filter.mp hr
    obtain ⟨c, hc, hid⟩ := h.replicas r hr
    exact ⟨c, List.mem_filter.mpr ⟨hc, decide_eq_true (of_decide_eq_true hkept c hc hid)⟩, hid⟩
  bots b row id' hrow hid' := by
    obtain ⟨hmem, hne⟩ := List.mem_filter.mp (AList.mem_lookup_iff.mp hrow)
    refine mem_ids_deleteStorage.mpr ⟨h.bots b row id' (AList.mem_lookup_iff.mpr hmem) hid', ?_⟩
    rintro rfl
    exact of_decide_eq_true hne hid'
  access userId id' hlevel := by
    have hkept : (db.roster.dropStorage id).level userId id' ≠ none := hlevel
    rw [Roster.dropStorage, Roster.level_keepAccess] at hkept
    split at hkept
    · case isTrue hne => exact mem_ids_deleteStorage.mpr ⟨h.access userId id' hkept, hne⟩
    · exact absurd rfl hkept
  names id' hid' := by
    have hkept : (keepKeys (· ≠ id) db.names).lookup id' ≠ none :=
      fun hnone => AList.lookup_eq_none.mp hnone hid'
    rw [lookup_keepKeys] at hkept
    split at hkept
    · case isTrue hne =>
      refine mem_ids_deleteStorage.mpr ⟨h.names id' ?_, hne⟩
      by_contra hnot
      exact hkept (AList.lookup_eq_none.mpr hnot)
    · exact absurd rfl hkept

lemma Keyed.putAccess {userId id : Uuid} {t : AccessType} (h : db.Keyed) (hin : id ∈ db.ids)
    (huser : db.roster.users.lookup userId ≠ none) :
    ({ db with roster := db.roster.putAccess userId id t huser } : SetupDb).Keyed where
  channels := h.channels
  chats := h.chats
  replicas := h.replicas
  bots := h.bots
  access userId' id' hlevel := by
    have hput : (db.roster.putAccess userId id t huser).level userId' id' ≠ none := hlevel
    rw [Roster.level_putAccess] at hput
    split at hput
    · case isTrue hkey =>
      cases hkey
      exact hin
    · exact h.access userId' id' hput
  names := h.names

lemma Keyed.insertChannel {c : StorageChannel} {db' : SetupDb} (h : db.Keyed)
    (hinsert : db.insertChannel c = .ok db') : db'.Keyed := by
  unfold SetupDb.insertChannel at hinsert
  split at hinsert
  · cases hinsert
  · case isFalse hfree =>
    split at hinsert
    · cases hinsert
    · case isFalse hin =>
      cases hinsert
      refine ⟨?_, ?_, ?_, h.bots, h.access, h.names⟩
      · exact List.forall_mem_cons.mpr ⟨not_not.mp hin, h.channels⟩
      · intro c₁ h₁ c₂ h₂ hsame
        rcases List.mem_cons.mp h₁ with rfl | hold₁ <;> rcases List.mem_cons.mp h₂ with rfl | hold₂
        · rfl
        · exact absurd ⟨c₂, hold₂, .inr (.inl hsame.symm)⟩ hfree
        · exact absurd ⟨c₁, hold₁, .inr (.inl hsame)⟩ hfree
        · exact h.chats c₁ hold₁ c₂ hold₂ hsame
      · intro r hr
        obtain ⟨c', hc', hid⟩ := h.replicas r hr
        exact ⟨c', List.mem_cons_of_mem c hc', hid⟩

lemma Keyed.wrote {written : BotDb.Written} (h : db.Keyed) (hwrote : db.Wrote written) :
    ({ db with toBotDb := written.2 } : SetupDb).Keyed := by
  cases hwrote with
  | failed e => exact h
  | put bot hrefs =>
    refine ⟨h.channels, h.chats, h.replicas, fun b row id hrow hid => ?_, h.access, h.names⟩
    have hput : (db.put bot.1 bot.2).bots.lookup b = some row := hrow
    rw [BotDb.lookup_put] at hput
    split at hput
    · cases hput
      rcases hrefs id hid with hin | ⟨old, hold, hid⟩
      · exact hin
      · exact h.bots bot.1 old id hold hid
    · exact h.bots b row id hput hid

end SetupDb

lemma keyed_advance (h : db.Keyed) : (phase.advance config a call db).1.Keyed := by
  cases phase with
  | asking =>
    dsimp only [Phase.advance]
    split <;> exact h
  | finding again rest found =>
    cases rest with
    | nil =>
      dsimp only [Phase.advance]
      split <;> exact h
    | cons chatId rest =>
      dsimp only [Phase.advance]
      split
      · exact h
      · split
        · exact h
        · split <;> exact h
  | entitled again id =>
    dsimp only [Phase.advance]
    split <;> exact h
  | fetching again id =>
    dsimp only [Phase.advance]
    split
    · exact h
    · split <;> exact h
  | naming =>
    dsimp only [Phase.advance]
    split <;> exact h
  | creating =>
    dsimp only [Phase.advance]
    split
    · exact h
    · exact h.insertStorage
  | granting id =>
    dsimp only [Phase.advance]
    split
    · exact h
    · split
      · exact h
      · case h_2 hgrant =>
        obtain ⟨huser, hin, rfl⟩ := Roster.grantForUserId_ok hgrant
        exact h.putAccess hin huser
  | linking id position rest =>
    cases rest with
    | nil => exact h
    | cons chatId rest =>
      dsimp only [Phase.advance]
      split
      · exact h
      · split
        · exact h
        · case h_2 hinsert => exact h.insertChannel hinsert
  | sharing id =>
    dsimp only [Phase.advance]
    split
    · exact h
    · split
      · exact h
      · case h_2 hgrant =>
        obtain ⟨userId, huser, -, hin, rfl⟩ := Roster.createOrUpdate_ok hgrant
        exact h.putAccess hin huser
  | rollingBack id e =>
    dsimp only [Phase.advance]
    split
    · exact h
    · exact h.deleteStorage
  | binding own s phase =>
    dsimp only [Phase.advance]
    rcases (advance_eq : (phase.advance config a call.user.id s.id (trim call.token) db).1 = db ∨ _) with
      heq | ⟨written, hwrote, heq⟩
    · rw [heq]
      exact h
    · rw [heq]
      exact h.wrote hwrote
  | undoing id e =>
    dsimp only [Phase.advance]
    split
    · exact h
    · exact h.deleteStorage
  | answered result => exact h

/-! ## The invariant -/

namespace SetupState

/-- Who made what is there: a call that owns a storage made it, one that failed made none, and a storage that is
    taken up or promised is finished. -/
structure Sound (σ₀ σ : SetupState) : Prop where
  before : ∀ s ∈ σ₀.db.storages, s ∈ σ.db.storages ∧ σ.makers s.id = none
  owned : ∀ {number : Nat} {job : Job} {id : Uuid}, σ.jobs[number]? = some job → job.phase.stake = .owns id →
    id ∈ σ.db.ids ∧ σ.makers id = some number
  settled : ∀ {number : Nat} {job : Job} {id : Uuid}, σ.jobs[number]? = some job →
    job.phase.stake = .adopts id ∨ job.phase.stake = .promises id → σ.Finished id
  made : ∀ {id : Uuid} {number : Nat}, id ∈ σ.db.ids → σ.makers id = some number →
    ∃ job, σ.jobs[number]? = some job ∧ (job.phase.stake = .owns id ∨ job.phase.stake = .promises id)

variable {σ₀ σ : SetupState} {number : Nat} {job : Job} {next : SetupDb × Phase}

lemma Sound.init (db : SetupDb) : Sound (SetupState.init db) (SetupState.init db) where
  before s hs := ⟨hs, rfl⟩
  owned hjob _ := by simp [SetupState.init] at hjob
  settled hjob _ := by simp [SetupState.init] at hjob
  made _ hmaker := nomatch hmaker

lemma Sound.safe (h : Sound σ₀ σ) : Safe σ₀ σ where
  before s hs := (h.before s hs).1
  promised number job s hjob hphase := by
    have hstake : job.phase.stake = .promises s.id := by rw [hphase]; rfl
    exact (h.settled hjob (.inr hstake)).1
  nothingLeft number job e hjob hphase id hin hmaker := by
    obtain ⟨job', hjob', hstake⟩ := h.made hin hmaker
    obtain rfl := Option.some.inj (hjob.symm.trans hjob')
    rw [hphase] at hstake
    rcases hstake with hstake | hstake <;> cases hstake

lemma getElem?_put (hjob : σ.jobs[number]? = some job) {n : Nat} :
    (σ.put number job.call next).jobs[n]? = if n = number then some ⟨job.call, next.2⟩ else σ.jobs[n]? := by
  have hlen := (List.getElem?_eq_some_iff.mp hjob).1
  unfold put
  rw [List.getElem?_set]
  by_cases h : number = n
  · subst h
    rw [if_pos rfl, if_pos hlen, if_pos rfl]
  · rw [if_neg h, if_neg (Ne.symm h)]

lemma makers_put (h : next.2.made = none) : (σ.put number job.call next).makers = σ.makers := by
  unfold put
  dsimp only
  rw [h]

lemma makers_put_made {id : Uuid} (h : next.2.made = some id) :
    (σ.put number job.call next).makers = Function.update σ.makers id (some number) := by
  unfold put
  dsimp only
  rw [h]

lemma Finished.put {id : Uuid} (hjob : σ.jobs[number]? = some job)
    (hmakers : (σ.put number job.call next).makers id = σ.makers id) (hids : id ∈ next.1.ids)
    (hkept : job.phase.stake = .promises id → next.2.stake = .promises id) (h : σ.Finished id) :
    (σ.put number job.call next).Finished id := by
  refine ⟨hids, fun n hmaker => ?_⟩
  rw [hmakers] at hmaker
  obtain ⟨job', hjob', hstake⟩ := h.2 n hmaker
  rw [getElem?_put hjob]
  by_cases hn : n = number
  · subst hn
    obtain rfl := Option.some.inj (hjob.symm.trans hjob')
    rw [if_pos rfl]
    exact ⟨_, rfl, hkept hstake⟩
  · rw [if_neg hn]
    exact ⟨job', hjob', hstake⟩

/-- A step that leaves the storages is sound when the stake of the call afterwards follows from before. -/
lemma Sound.keeps (h : Sound σ₀ σ) (hjob : σ.jobs[number]? = some job) (hmade : next.2.made = none)
    (hdb : next.1.storages = σ.db.storages)
    (howns : ∀ id, next.2.stake = .owns id → job.phase.stake = .owns id)
    (hadopts : ∀ id, next.2.stake = .adopts id → σ.Finished id)
    (hpromises : ∀ id, next.2.stake = .promises id → job.phase.stake = .owns id ∨ σ.Finished id)
    (hkept : ∀ id, job.phase.stake = .owns id ∨ job.phase.stake = .promises id →
      next.2.stake = job.phase.stake ∨ next.2.stake = .promises id) :
    Sound σ₀ (σ.put number job.call next) := by
  have hmakers : (σ.put number job.call next).makers = σ.makers := makers_put hmade
  have hids : next.1.ids = σ.db.ids := congrArg (List.map Storage.id) hdb
  have hstill {id : Uuid} (hfinished : σ.Finished id) : (σ.put number job.call next).Finished id := by
    refine hfinished.put hjob (congrFun hmakers id) (hids ▸ hfinished.1) fun hstake => ?_
    rcases hkept id (.inr hstake) with hsame | hpromised
    · exact hsame.trans hstake
    · exact hpromised
  constructor
  · intro s hs
    rw [hmakers]
    exact ⟨hdb.symm ▸ (h.before s hs).1, (h.before s hs).2⟩
  · -- what a call owns: the one that stepped owned it before
    intro n job' id hjob' hstake
    rw [getElem?_put hjob] at hjob'
    rw [hmakers]
    show id ∈ next.1.ids ∧ _
    rw [hids]
    split at hjob'
    · case isTrue hn =>
      subst hn
      cases hjob'
      exact h.owned hjob (howns id hstake)
    · exact h.owned hjob' hstake
  · -- what is taken up or promised: a storage the call owned is its own, and so finished by its promise
    intro n job' id hjob' hstake
    rw [getElem?_put hjob] at hjob'
    split at hjob'
    · cases hjob'
      rcases hstake with hstake | hstake
      · exact hstill (hadopts id hstake)
      · rcases hpromises id hstake with hown | hfinished
        · obtain ⟨hin, hmaker⟩ := h.owned hjob hown
          refine ⟨show id ∈ next.1.ids from hids ▸ hin, fun n' hmaker' => ?_⟩
          rw [hmakers] at hmaker'
          obtain rfl := Option.some.inj (hmaker.symm.trans hmaker')
          rw [getElem?_put hjob, if_pos rfl]
          exact ⟨_, rfl, hstake⟩
        · exact hstill hfinished
    · exact hstill (h.settled hjob' hstake)
  · intro id n hin hmaker
    rw [hmakers] at hmaker
    have hin' : id ∈ σ.db.ids := hids ▸ hin
    obtain ⟨job', hjob', hstake⟩ := h.made hin' hmaker
    rw [getElem?_put hjob]
    by_cases hn : n = number
    · subst hn
      obtain rfl := Option.some.inj (hjob.symm.trans hjob')
      rw [if_pos rfl]
      refine ⟨_, rfl, ?_⟩
      rcases hkept id hstake with hsame | hpromised
      · exact hstake.imp hsame.trans hsame.trans
      · exact .inr hpromised
    · rw [if_neg hn]
      exact ⟨job', hjob', hstake⟩

/-- A storage that was not there is made by the call. -/
lemma Sound.makes {id : Uuid} (h : Sound σ₀ σ) (hjob : σ.jobs[number]? = some job)
    (hmade : next.2.made = some id) (hnew : id ∉ σ.db.ids)
    (hdb : next.1.storages = ⟨id, 1⟩ :: σ.db.storages) (hstake : job.phase.stake = .none)
    (hnext : next.2.stake = .owns id) : Sound σ₀ (σ.put number job.call next) := by
  have hmakers : (σ.put number job.call next).makers = Function.update σ.makers id (some number) :=
    makers_put_made hmade
  have hids : next.1.ids = id :: σ.db.ids := congrArg (List.map Storage.id) hdb
  have hold {id' : Uuid} (hin : id' ∈ σ.db.ids) : (σ.put number job.call next).makers id' = σ.makers id' := by
    rw [hmakers]
    exact Function.update_of_ne (ne_of_mem_of_not_mem hin hnew) _ _
  have hself : (σ.put number job.call next).makers id = some number := by
    rw [hmakers]
    exact Function.update_self ..
  have hstill {id' : Uuid} (hfinished : σ.Finished id') : (σ.put number job.call next).Finished id' := by
    refine hfinished.put hjob (hold hfinished.1) (hids ▸ List.mem_cons_of_mem id hfinished.1) ?_
    intro hpromised
    rw [hstake] at hpromised
    cases hpromised
  constructor
  · intro s hs
    obtain ⟨hin, hmaker⟩ := h.before s hs
    refine ⟨hdb ▸ List.mem_cons_of_mem _ hin, ?_⟩
    rw [hold (List.mem_map_of_mem hin)]
    exact hmaker
  · intro n job' id' hjob' hown
    rw [getElem?_put hjob] at hjob'
    show id' ∈ next.1.ids ∧ _
    rw [hids]
    split at hjob'
    · case isTrue hn =>
      subst hn
      cases hjob'
      have heq : id = id' := Stake.owns.inj (hnext.symm.trans hown)
      subst heq
      exact ⟨List.mem_cons_self, hself⟩
    · obtain ⟨hin, hmaker⟩ := h.owned hjob' hown
      rw [hold hin]
      exact ⟨List.mem_cons_of_mem id hin, hmaker⟩
  · intro n job' id' hjob' hsettled
    rw [getElem?_put hjob] at hjob'
    split at hjob'
    · cases hjob'
      rw [hnext] at hsettled
      rcases hsettled with hsettled | hsettled <;> cases hsettled
    · exact hstill (h.settled hjob' hsettled)
  · intro id' n hin hmaker
    rw [getElem?_put hjob]
    have hin' : id' ∈ id :: σ.db.ids := hids ▸ hin
    rcases List.mem_cons.mp hin' with rfl | hin'
    · obtain rfl := Option.some.inj (hself.symm.trans hmaker)
      rw [if_pos rfl]
      exact ⟨_, rfl, .inl hnext⟩
    · rw [hold hin'] at hmaker
      obtain ⟨job', hjob', hmine⟩ := h.made hin' hmaker
      have hn : n ≠ number := by
        rintro rfl
        obtain rfl := Option.some.inj (hjob.symm.trans hjob')
        rw [hstake] at hmine
        rcases hmine with hmine | hmine <;> cases hmine
      rw [if_neg hn]
      exact ⟨job', hjob', hmine⟩

lemma Sound.givesUp {id : Uuid} (h : Sound σ₀ σ) (hjob : σ.jobs[number]? = some job)
    (hmade : next.2.made = none) (hstake : job.phase.stake = .owns id)
    (hdb : next.1 = σ.db.deleteStorage id) (hnext : next.2.stake = .none) :
    Sound σ₀ (σ.put number job.call next) := by
  have hmakers : (σ.put number job.call next).makers = σ.makers := makers_put hmade
  obtain ⟨hin, hmaker⟩ := h.owned hjob hstake
  have hids {id' : Uuid} : id' ∈ (σ.put number job.call next).db.ids ↔ id' ∈ σ.db.ids ∧ id' ≠ id := by
    show id' ∈ next.1.ids ↔ _
    rw [hdb]
    exact SetupDb.mem_ids_deleteStorage
  have hstill {id' : Uuid} (hfinished : σ.Finished id') : (σ.put number job.call next).Finished id' := by
    refine hfinished.put hjob (congrFun hmakers id') (hids.mpr ⟨hfinished.1, ?_⟩) fun hpromised => ?_
    · rintro rfl
      obtain ⟨job', hjob', hpromised⟩ := hfinished.2 number hmaker
      obtain rfl := Option.some.inj (hjob.symm.trans hjob')
      rw [hstake] at hpromised
      cases hpromised
    · rw [hstake] at hpromised
      cases hpromised
  constructor
  · intro s hs
    obtain ⟨hs', hmaker'⟩ := h.before s hs
    rw [hmakers]
    refine ⟨?_, hmaker'⟩
    show s ∈ next.1.storages
    rw [hdb]
    refine List.mem_filter.mpr ⟨hs', decide_eq_true ?_⟩
    rintro rfl
    exact Option.some_ne_none number (hmaker.symm.trans hmaker')
  · intro n job' id' hjob' hown
    rw [getElem?_put hjob] at hjob'
    rw [hmakers]
    split at hjob'
    · cases hjob'
      rw [hnext] at hown
      cases hown
    · case isFalse hn =>
      obtain ⟨hin', hmaker'⟩ := h.owned hjob' hown
      refine ⟨hids.mpr ⟨hin', ?_⟩, hmaker'⟩
      rintro rfl
      exact hn (Option.some.inj (hmaker'.symm.trans hmaker))
  · intro n job' id' hjob' hsettled
    rw [getElem?_put hjob] at hjob'
    split at hjob'
    · cases hjob'
      rw [hnext] at hsettled
      rcases hsettled with hsettled | hsettled <;> cases hsettled
    · exact hstill (h.settled hjob' hsettled)
  · intro id' n hin' hmaker'
    rw [hmakers] at hmaker'
    obtain ⟨hold, hne⟩ := hids.mp hin'
    obtain ⟨job', hjob', hmine⟩ := h.made hold hmaker'
    have hn : n ≠ number := by
      rintro rfl
      obtain rfl := Option.some.inj (hjob.symm.trans hjob')
      rw [hstake] at hmine
      rcases hmine with hmine | hmine <;> cases hmine
      exact hne rfl
    rw [getElem?_put hjob, if_neg hn]
    exact ⟨job', hjob', hmine⟩

lemma stake_start : call.start.stake = .none := by
  unfold SetupCall.start
  split <;> rfl

lemma Sound.request (h : Sound σ₀ σ) : Sound σ₀ (σ.step config (.request call)) := by
  have hjobs {n : Nat} {job : Job} (hjob : (σ.jobs ++ [⟨call, call.start⟩])[n]? = some job) :
      σ.jobs[n]? = some job ∨ job.phase.stake = .none := by
    rw [List.getElem?_append] at hjob
    split at hjob
    · exact .inl hjob
    · right
      obtain rfl := List.mem_singleton.mp (List.mem_of_getElem? hjob)
      exact stake_start
  have hold {n : Nat} {job : Job} (hjob : σ.jobs[n]? = some job) :
      (σ.jobs ++ [⟨call, call.start⟩])[n]? = some job := by
    rw [List.getElem?_append_left (List.getElem?_eq_some_iff.mp hjob).1]
    exact hjob
  have hstill {id : Uuid} (hfinished : σ.Finished id) : (σ.step config (.request call)).Finished id := by
    refine ⟨hfinished.1, fun n hmaker => ?_⟩
    obtain ⟨job, hjob, hstake⟩ := hfinished.2 n hmaker
    exact ⟨job, hold hjob, hstake⟩
  constructor
  · exact h.before
  · intro n job id hjob hown
    rcases hjobs hjob with hjob | hnone
    · exact h.owned hjob hown
    · exact nomatch hnone.symm.trans hown
  · intro n job id hjob hsettled
    rcases hjobs hjob with hjob | hnone
    · exact hstill (h.settled hjob hsettled)
    · rw [hnone] at hsettled
      rcases hsettled with hsettled | hsettled <;> cases hsettled
  · intro id n hin hmaker
    obtain ⟨job, hjob, hmine⟩ := h.made hin hmaker
    exact ⟨job, hold hjob, hmine⟩

/-- Every step that meets its condition keeps the invariant. -/
lemma Sound.step (h : Sound σ₀ σ) {act : Act} (hundoes : σ.Undoes act) (hwaits : σ.Waits act) :
    Sound σ₀ (σ.step config act) := by
  cases act with
  | request call => exact h.request
  | advance number a =>
    unfold SetupState.step
    dsimp only
    split
    · exact h
    · case h_2 job hjob =>
      have hundoes := hundoes job hjob
      have hwaits := hwaits job hjob
      have hturn : Turn a σ.db job.phase (job.phase.advance config a job.call σ.db) := turn_advance
      cases hturn with
      | stays hmade hdb hnext =>
        refine h.keeps hjob hmade hdb (fun id hid => hnext ▸ hid) ?_ ?_ fun id _ => .inl hnext
        · intro id hid
          exact h.settled hjob (.inl (hnext.symm.trans hid))
        · intro id hid
          exact .inr (h.settled hjob (.inr (hnext.symm.trans hid)))
      | leaves id hmade hdb hstake hnext =>
        refine h.keeps hjob hmade hdb ?_ ?_ ?_ ?_ <;> intro id' hid
        · exact nomatch hnext.symm.trans hid
        · exact nomatch hnext.symm.trans hid
        · exact nomatch hnext.symm.trans hid
        · rw [hstake] at hid
          rcases hid with hid | hid <;> cases hid
      | makes id hmade hnew hdb hstake hnext => exact h.makes hjob hmade hnew hdb hstake hnext
      | takesUp again id hmade hphase hread hin hdb hnext =>
        rw [hphase] at hwaits
        have hfinished := hwaits hread hin
        refine h.keeps hjob hmade hdb ?_ ?_ ?_ ?_ <;> intro id' hid
        · exact nomatch hnext.symm.trans hid
        · obtain rfl := Stake.adopts.inj (hnext.symm.trans hid)
          exact hfinished
        · exact nomatch hnext.symm.trans hid
        · rw [hphase] at hid
          rcases hid with hid | hid <;> cases hid
      | givesUp id hmade hphase hdb hnext =>
        have hkept : a.fails = false := by
          rcases hphase with ⟨e, hphase⟩ | ⟨e, hphase⟩
          · rw [hphase] at hundoes
            exact hundoes
          · rw [hphase] at hundoes
            exact hundoes
        rw [if_neg (Bool.eq_false_iff.mp hkept)] at hdb
        refine h.givesUp hjob hmade ?_ hdb hnext
        rcases hphase with ⟨e, hphase⟩ | ⟨e, hphase⟩ <;> rw [hphase] <;> rfl
      | finishes id hmade hdb hstake hnext =>
        refine h.keeps hjob hmade hdb ?_ ?_ ?_ ?_ <;> intro id' hid
        · exact nomatch hnext.symm.trans hid
        · exact nomatch hnext.symm.trans hid
        · obtain rfl := Stake.promises.inj (hnext.symm.trans hid)
          exact hstake.imp_right fun hadopts => h.settled hjob (.inl hadopts)
        · -- only a storage that the call made is at stake, and it is promised now
          right
          rcases hstake with hstake | hstake
          · rw [hstake] at hid
            rcases hid with hid | hid
            · obtain rfl := Stake.owns.inj hid
              exact hnext
            · cases hid
          · rw [hstake] at hid
            rcases hid with hid | hid <;> cases hid

end SetupState

/-- In every run whose steps meet their condition, no call does harm to another. -/
theorem safe_run {db : SetupDb} {acts : List Act}
    (hok : AllOk (SetupState.step config) (fun σ act => σ.Undoes act ∧ σ.Waits act) (.init db) acts) :
    Always (SetupState.step config) (SetupState.Safe (.init db)) (.init db) acts := by
  have hsound : Always (SetupState.step config) (SetupState.Sound (.init db)) (.init db) acts :=
    always_of_allOk (fun _ _ h hstep => h.step hstep.1 hstep.2) (SetupState.Sound.init db) hok
  exact hsound.mono fun _ h => h.safe

end Sarca.Server.Setup
