import Mathlib.Data.List.Sort
import Sarca.Lib.Text
import Sarca.Server.Access

/-!
# Replacing the bot of a storage

`StoragesService::set_bot` checks a new token, drops the channels of the storage if the caller confirmed it,
and installs the token: into the bot the storage has, by moving a bot of the same user here, or into a new row.
Each statement runs on its own and any of them can fail. `BotDb` holds the tables they touch, and `Env` what is
outside: which statements fail, what Telegram says of the token, and the new id.

`AllOrNothing` says what a caller wants: an error leaves everything as it was, and a success leaves this storage
one bot, leaves no other storage without its bot, and dropped no channel unasked. The main result tells for
which inputs the code does this.
-/

namespace Sarca.Server
open Sarca.Lib

/-- A row of `storage_workers` without its id (Rust `StorageWorker`). -/
structure BotRow where
  name : List Char
  token : List Char
  userId : Uuid
  storageId : Option Uuid
deriving DecidableEq, Repr

/-- The tables of `set_bot`. -/
structure BotDb where
  storages : List Storage
  roster : Roster
  bots : AList fun _ : Uuid => BotRow
  channels : List StorageChannel
  replicas : List ChunkReplica

/-- Rust `SetStorageBotSchema`. -/
structure SetStorageBot where
  token : List Char
  removeChannels : Bool
deriving DecidableEq, Repr

/-- What Telegram says of a token (Rust `BotMe`). -/
structure BotMe where
  id : Int
  username : List Char
deriving DecidableEq, Repr

/-- Rust `SarcaError`, as far as `set_bot` uses it. -/
inductive SetBotError where
  | access (e : AccessError)
  | telegramAPIError (message : String)
  | botTokenUnchanged
  | botReplacementRequiresChannelConfirmation
  | storageWorkerTokenConflict
  | doesNotExist (what : String)
  | unknown
deriving DecidableEq, Repr

/-- The statements of one call, in their order. -/
inductive Query where
  | access
  | storage
  /-- `get_by_storage_id` before Telegram is asked, behind it, and before the token is installed. -/
  | firstBot
  | secondBot
  | thirdBot
  | channels
  | drop (channelId : Uuid)
  | primary
  | token
  | name
  /-- The statement that installs the token. -/
  | write
deriving DecidableEq, Repr

structure Env where
  fails : Query → Bool
  getMe : Except String BotMe
  /-- Rust `Uuid::new_v4` -/
  newId : Uuid
  /-- Rust `Uuid::to_string` -/
  uuidText : Uuid → List Char

namespace BotDb

/-! ## Statements -/

/-- Rust `get_by_storage_id`. -/
def getByStorageId (db : BotDb) (storageId : Uuid) : Option (Uuid × BotRow) :=
  let rows := (db.bots.entries.filter fun e => e.2.storageId = some storageId).map fun e => (e.1, e.2)
  (rows.insertionSort fun e e' => pathLt e'.2.name e.2.name = false).head?

/-- Rust `get_by_token`. -/
def getByToken (db : BotDb) (token : List Char) : Option (Uuid × BotRow) :=
  (db.bots.entries.find? fun e => e.2.token = token).map fun e => (e.1, e.2)

/-- Rust `get_by_name_and_user_id`. -/
def getByNameAndUserId (db : BotDb) (name : List Char) (userId : Uuid) : Option (Uuid × BotRow) :=
  (db.bots.entries.find? fun e => e.2.name = name ∧ e.2.userId = userId).map fun e => (e.1, e.2)

/-- A row of `bots` with its id, as it is afterwards. -/
def put (db : BotDb) (id : Uuid) (row : BotRow) : BotDb :=
  { db with bots := db.bots.insert id row }

/-- A statement on a row, and the row it returns. -/
abbrev Written := Except SetBotError (Uuid × BotRow) × BotDb

/-- Rust `update_credentials`; `token` is `UNIQUE`. -/
def updateCredentials (env : Env) (db : BotDb) (id : Uuid) (name token : List Char) : Written :=
  if env.fails .write then (.error .unknown, db)
  else if ∃ e ∈ db.bots.entries, e.2.token = token ∧ e.1 ≠ id then (.error .storageWorkerTokenConflict, db)
  else
    match db.bots.lookup id with
    | none => (.error (.doesNotExist "storage_worker"), db)
    | some row =>
      let row := { row with name := name, token := token }
      (.ok (id, row), db.put id row)

/-- Rust `rebind_to_storage`. -/
def rebindToStorage (env : Env) (db : BotDb) (id storageId : Uuid) (name : List Char) : Written :=
  if env.fails .write then (.error .unknown, db)
  else
    match db.bots.lookup id with
    | none => (.error (.doesNotExist "storage_worker"), db)
    | some row =>
      let row := { row with storageId := some storageId, name := name }
      (.ok (id, row), db.put id row)

/-- Rust `StorageWorkersRepository::create`; the id is the primary key, and `token` is `UNIQUE`. -/
def createBot (env : Env) (db : BotDb) (row : BotRow) : Written :=
  if env.fails .write then (.error .unknown, db)
  else if env.newId ∈ db.bots ∨ ∃ e ∈ db.bots.entries, e.2.token = row.token then
    (.error .storageWorkerTokenConflict, db)
  else (.ok (env.newId, row), db.put env.newId row)

/-- Rust `StorageChannelsRepository::delete`, with its cascade. -/
def dropChannel (db : BotDb) (id : Uuid) : BotDb :=
  { db with
    channels := db.channels.filter fun c => c.id ≠ id
    replicas := db.replicas.filter fun r => r.channelId ≠ id }

/-- Rust `set_primary_position`. -/
def setPrimaryPosition (db : BotDb) (storageId : Uuid) (position : Int) : BotDb :=
  { db with
    storages := db.storages.map fun s => if s.id = storageId then { s with primaryPosition := position } else s }

/-! ## `set_bot` -/

/-- What `set_bot` checks before it writes anything. -/
def admits (env : Env) (db : BotDb) (storageId userId : Uuid) (body : SetStorageBot) : Except SetBotError BotMe :=
  if env.fails .access then .error .unknown
  else
    match db.roster.checkAccess userId storageId .a with
    | .error e => .error (.access e)
    | .ok () =>
      if env.fails .storage ∨ ∀ s ∈ db.storages, s.id ≠ storageId then .error (.doesNotExist "storage")
      else if trim body.token = [] ∨ ':' ∉ trim body.token then
        .error (.telegramAPIError "Bot token looks invalid")
      else if env.fails .firstBot then .error .unknown
      else if ∃ e ∈ db.getByStorageId storageId, e.2.token = trim body.token then .error .botTokenUnchanged
      else
        match env.getMe with
        | .error message => .error (.telegramAPIError message)
        | .ok me =>
          if env.fails .secondBot then .error .unknown
          else if (db.getByStorageId storageId).isSome ∧ body.removeChannels = false then
            .error .botReplacementRequiresChannelConfirmation
          else .ok me

/-- The channels are dropped one by one; one that cannot be dropped stays. -/
def dropEach (env : Env) : BotDb → List Uuid → BotDb
  | db, [] => db
  | db, id :: ids => dropEach env (if env.fails (.drop id) then db else db.dropChannel id) ids

/-- What is left when the channels are dropped. -/
def dropped (env : Env) (db : BotDb) (storageId : Uuid) : BotDb :=
  let ids := ((db.channels.filter fun c => c.storageId = storageId).insertionSort
    fun c c' => c.position ≤ c'.position).map (·.id)
  let db := db.dropEach env ids
  if env.fails .primary then db else db.setPrimaryPosition storageId 1

/-- The name of a bot, which another bot of the user may have. -/
def botName (env : Env) (db : BotDb) (storageId userId : Uuid) (me : BotMe) (own : Option Uuid) : List Char :=
  let name := if trim me.username = [] then "bot_".toList ++ decimal me.id else me.username
  if env.fails .name then name
  else
    match db.getByNameAndUserId name userId with
    | none => name
    | some other =>
      if some other.1 = own then name else name ++ '_' :: (env.uuidText storageId).take 8

/-- The last part of `set_bot`, which installs the token. -/
def install (env : Env) (db : BotDb) (storageId userId : Uuid) (token : List Char) (me : BotMe) : Written :=
  if env.fails .thirdBot then (.error .unknown, db)
  else
    match db.getByStorageId storageId with
    | some existing =>
      db.updateCredentials env existing.1 (db.botName env storageId userId me (some existing.1)) token
    | none =>
      if env.fails .token then (.error .unknown, db)
      else
        match db.getByToken token with
        | some owned =>
          if owned.2.userId ≠ userId then (.error .storageWorkerTokenConflict, db)
          else db.rebindToStorage env owned.1 storageId (db.botName env storageId userId me (some owned.1))
        | none =>
          db.createBot env
            { name := db.botName env storageId userId me none
              token := token
              userId := userId
              storageId := some storageId }

/-- Rust `set_bot`. -/
def setBot (env : Env) (db : BotDb) (storageId userId : Uuid) (body : SetStorageBot) : Written :=
  match db.admits env storageId userId body with
  | .error e => (.error e, db)
  | .ok me =>
    if body.removeChannels then
      if env.fails .channels then (.error .unknown, db)
      else (db.dropped env storageId).install env storageId userId (trim body.token) me
    else db.install env storageId userId (trim body.token) me

/-! ## The property and the condition -/

/-- What a success leaves: one bot for the storage, with the new token, the other storages with theirs, and
    the channels unless the caller gave them up. -/
structure Installed (db db' : BotDb) (storageId : Uuid) (body : SetStorageBot) (bot : Uuid × BotRow) : Prop where
  stored : db'.bots.lookup bot.1 = some bot.2 ∧ bot.2.storageId = some storageId ∧ bot.2.token = trim body.token
  only : ∀ id row, db'.bots.lookup id = some row → row.storageId = some storageId → id = bot.1
  others : ∀ other, other ≠ storageId → (∃ id row, db.bots.lookup id = some row ∧ row.storageId = some other) →
    ∃ id row, db'.bots.lookup id = some row ∧ row.storageId = some other
  kept : body.removeChannels = false →
    db'.channels = db.channels ∧ db'.replicas = db.replicas ∧ db'.storages = db.storages

/-- An error leaves everything as it was, and a success is one. -/
def AllOrNothing (db : BotDb) (storageId : Uuid) (body : SetStorageBot) (written : Written) : Prop :=
  match written.1 with
  | .error _ => written.2 = db
  | .ok bot => Installed db written.2 storageId body bot

def Drops (env : Env) (db : BotDb) (storageId : Uuid) : Prop :=
  (∃ c ∈ db.channels, c.storageId = storageId ∧ env.fails (.drop c.id) = false) ∨
    env.fails .primary = false ∧ ∃ s ∈ db.storages, s.id = storageId ∧ s.primaryPosition ≠ 1

def Installs (env : Env) (db : BotDb) (storageId userId : Uuid) (token : List Char) : Prop :=
  env.fails .thirdBot = false ∧ env.fails .write = false ∧
    match db.getByStorageId storageId with
    | some existing => ∀ id row, db.bots.lookup id = some row → row.token = token → id = existing.1
    | none => env.fails .token = false ∧
      match db.getByToken token with
      | some owned => owned.2.userId = userId
      | none => env.newId ∉ db.bots

/-- The storage has no second bot, and a bot that moves here is not the only one where it was. -/
def LeavesBots (db : BotDb) (storageId : Uuid) (token : List Char) : Prop :=
  match db.getByStorageId storageId with
  | some existing => ∀ id row, db.bots.lookup id = some row → row.storageId = some storageId → id = existing.1
  | none => ∀ owned other, db.getByToken token = some owned → owned.2.storageId = some other →
    ∃ id row, db.bots.lookup id = some row ∧ row.storageId = some other ∧ id ≠ owned.1

/-- A call that gets past the checks and drops something can install the token, and one that installs it leaves
    every storage its bot. -/
def Spared (env : Env) (db : BotDb) (storageId userId : Uuid) (body : SetStorageBot) : Prop :=
  ∀ me, db.admits env storageId userId body = .ok me →
    (body.removeChannels = true → env.fails .channels = false) →
    (body.removeChannels = true → db.Drops env storageId → db.Installs env storageId userId (trim body.token)) ∧
      (db.Installs env storageId userId (trim body.token) → db.LeavesBots storageId (trim body.token))

/-! ## Rows -/

variable {env : Env} {db db' db₁ : BotDb} {storageId userId id : Uuid} {token : List Char} {me : BotMe}
  {row : BotRow} {e bot : Uuid × BotRow} {body : SetStorageBot}

lemma mem_entries :
    (⟨id, row⟩ : Sigma fun _ : Uuid => BotRow) ∈ db.bots.entries ↔ db.bots.lookup id = some row :=
  AList.mem_lookup_iff.symm

lemma getByStorageId_some (h : db.getByStorageId storageId = some e) :
    db.bots.lookup e.1 = some e.2 ∧ e.2.storageId = some storageId := by
  have hmem := List.mem_of_mem_head? h
  rw [List.mem_insertionSort] at hmem
  obtain ⟨entry, hentry, rfl⟩ := List.mem_map.mp hmem
  rw [List.mem_filter, decide_eq_true_iff] at hentry
  exact ⟨mem_entries.mp hentry.1, hentry.2⟩

lemma getByStorageId_none (h : db.getByStorageId storageId = none) (hrow : db.bots.lookup id = some row) :
    row.storageId ≠ some storageId := by
  intro hstorage
  have hempty := List.head?_eq_none_iff.mp h
  have hmem : (id, row) ∈ ((db.bots.entries.filter fun e => e.2.storageId = some storageId).map
      fun e => (e.1, e.2)).insertionSort fun e e' => pathLt e'.2.name e.2.name = false := by
    rw [List.mem_insertionSort]
    apply List.mem_map.mpr
    refine ⟨⟨id, row⟩, ?_, rfl⟩
    rw [List.mem_filter, decide_eq_true_iff]
    exact ⟨mem_entries.mpr hrow, hstorage⟩
  rw [hempty] at hmem
  exact List.not_mem_nil hmem

lemma getByToken_some (h : db.getByToken token = some e) :
    db.bots.lookup e.1 = some e.2 ∧ e.2.token = token := by
  obtain ⟨entry, hfind, rfl⟩ := Option.map_eq_some_iff.mp h
  have htest := List.find?_some hfind
  exact ⟨mem_entries.mp (List.mem_of_find?_eq_some hfind), of_decide_eq_true htest⟩

lemma getByToken_none (h : db.getByToken token = none) (hrow : db.bots.lookup id = some row) :
    row.token ≠ token := by
  have hfind := Option.map_eq_none_iff.mp h
  intro htoken
  exact List.find?_eq_none.mp hfind ⟨id, row⟩ (mem_entries.mpr hrow) (decide_eq_true htoken)

lemma lookup_put {id' : Uuid} :
    (db.put id row).bots.lookup id' = if id' = id then some row else db.bots.lookup id' := by
  unfold put
  split
  · case isTrue h =>
    subst h
    exact AList.lookup_insert _
  · case isFalse h => exact AList.lookup_insert_ne h

/-! ## What the statements do -/

/-- How the token gets in: nothing is written, or one row. -/
inductive Installing (env : Env) (db : BotDb) (storageId userId : Uuid) (token : List Char) :
    Written → Prop where
  | failed (e : SetBotError) (hnot : ¬ db.Installs env storageId userId token) :
    Installing env db storageId userId token (.error e, db)
  | updated {existing : Uuid × BotRow} {bot : Uuid × BotRow}
      (hexisting : db.getByStorageId storageId = some existing)
      (hinstalls : db.Installs env storageId userId token) (hid : bot.1 = existing.1)
      (hstorage : bot.2.storageId = some storageId) (htoken : bot.2.token = token) :
    Installing env db storageId userId token (.ok bot, db.put bot.1 bot.2)
  | rebound {owned : Uuid × BotRow} {bot : Uuid × BotRow} (hnone : db.getByStorageId storageId = none)
      (howned : db.getByToken token = some owned) (hinstalls : db.Installs env storageId userId token)
      (hid : bot.1 = owned.1) (hstorage : bot.2.storageId = some storageId) (htoken : bot.2.token = token) :
    Installing env db storageId userId token (.ok bot, db.put bot.1 bot.2)
  | created {bot : Uuid × BotRow} (hnone : db.getByStorageId storageId = none)
      (hfree : db.getByToken token = none) (hinstalls : db.Installs env storageId userId token)
      (hid : db.bots.lookup bot.1 = none) (hstorage : bot.2.storageId = some storageId)
      (htoken : bot.2.token = token) :
    Installing env db storageId userId token (.ok bot, db.put bot.1 bot.2)

lemma installing_update {name : List Char} (hbot : env.fails .thirdBot = false)
    (hexisting : db.getByStorageId storageId = some e) :
    Installing env db storageId userId token (db.updateCredentials env e.1 name token) := by
  obtain ⟨hrow, hstorage⟩ := getByStorageId_some hexisting
  unfold updateCredentials
  split
  · case isTrue hwrite =>
    refine .failed _ fun h => ?_
    rw [h.2.1] at hwrite
    exact Bool.false_ne_true hwrite
  · case isFalse hwrite =>
    split
    · case isTrue htaken =>
      obtain ⟨⟨id, row⟩, hmem, htoken, hne⟩ := htaken
      refine .failed _ fun h => hne ?_
      have hown := h.2.2
      rw [hexisting] at hown
      exact hown id row (mem_entries.mp hmem) htoken
    · case isFalse hfree =>
      rw [hrow]
      refine .updated hexisting ⟨hbot, Bool.eq_false_iff.mpr hwrite, ?_⟩ rfl hstorage rfl
      rw [hexisting]
      intro id row hlookup htoken
      by_contra hne
      exact hfree ⟨⟨id, row⟩, mem_entries.mpr hlookup, htoken, hne⟩

lemma installing_rebind {name : List Char} (hbot : env.fails .thirdBot = false)
    (hnone : db.getByStorageId storageId = none) (hread : env.fails .token = false)
    (howned : db.getByToken token = some e) (huser : e.2.userId = userId) :
    Installing env db storageId userId token (db.rebindToStorage env e.1 storageId name) := by
  obtain ⟨hrow, htoken⟩ := getByToken_some howned
  unfold rebindToStorage
  split
  · case isTrue hwrite =>
    refine .failed _ fun h => ?_
    rw [h.2.1] at hwrite
    exact Bool.false_ne_true hwrite
  · case isFalse hwrite =>
    rw [hrow]
    refine .rebound hnone howned ⟨hbot, Bool.eq_false_iff.mpr hwrite, ?_⟩ rfl rfl htoken
    rw [hnone, howned]
    exact ⟨hread, huser⟩

lemma installing_create {name : List Char} (hbot : env.fails .thirdBot = false)
    (hnone : db.getByStorageId storageId = none) (hread : env.fails .token = false)
    (hfree : db.getByToken token = none) :
    Installing env db storageId userId token (db.createBot env ⟨name, token, userId, some storageId⟩) := by
  unfold createBot
  split
  · case isTrue hwrite =>
    refine .failed _ fun h => ?_
    rw [h.2.1] at hwrite
    exact Bool.false_ne_true hwrite
  · case isFalse hwrite =>
    split
    · case isTrue htaken =>
      refine .failed _ fun h => ?_
      have hnew := h.2.2
      rw [hnone, hfree] at hnew
      rcases htaken with hid | ⟨⟨id, row⟩, hmem, htoken⟩
      · exact hnew.2 hid
      · exact getByToken_none hfree (mem_entries.mp hmem) htoken
    · case isFalse hnew =>
      have hid : env.newId ∉ db.bots := fun hid => hnew (.inl hid)
      refine .created hnone hfree ⟨hbot, Bool.eq_false_iff.mpr hwrite, ?_⟩ (AList.lookup_eq_none.mpr hid) rfl rfl
      rw [hnone, hfree]
      exact ⟨hread, hid⟩

lemma installing_install :
    Installing env db storageId userId token (db.install env storageId userId token me) := by
  unfold install
  split
  · case isTrue hbot =>
    refine .failed _ fun h => ?_
    rw [h.1] at hbot
    exact Bool.false_ne_true hbot
  · case isFalse hbot =>
    have hbot := Bool.eq_false_iff.mpr hbot
    split
    · case h_1 existing hexisting => exact installing_update hbot hexisting
    · case h_2 hnone =>
      split
      · case isTrue hread =>
        refine .failed _ fun h => ?_
        have htoken := h.2.2
        rw [hnone] at htoken
        exact Bool.false_ne_true (htoken.1.symm.trans hread)
      · case isFalse hread =>
        have hread := Bool.eq_false_iff.mpr hread
        split
        · case h_1 owned howned =>
          split
          · case isTrue huser =>
            refine .failed _ fun h => huser ?_
            have hsame := h.2.2
            rw [hnone, howned] at hsame
            exact hsame.2
          · case isFalse huser => exact installing_rebind hbot hnone hread howned (not_not.mp huser)
        · case h_2 hfree => exact installing_create hbot hnone hread hfree

/-! ## Dropping the channels -/

lemma bots_dropEach {ids : List Uuid} : (db.dropEach env ids).bots = db.bots := by
  induction ids generalizing db with
  | nil => rfl
  | cons id ids ih =>
    unfold dropEach
    rw [ih]
    split <;> rfl

lemma storages_dropEach {ids : List Uuid} : (db.dropEach env ids).storages = db.storages := by
  induction ids generalizing db with
  | nil => rfl
  | cons id ids ih =>
    unfold dropEach
    rw [ih]
    split <;> rfl

lemma not_mem_dropEach {ids : List Uuid} (hid : id ∈ ids) (hdrop : env.fails (.drop id) = false) :
    ∀ c ∈ (db.dropEach env ids).channels, c.id ≠ id := by
  -- what is gone stays gone
  have hgone : ∀ (ids : List Uuid) (db : BotDb), (∀ c ∈ db.channels, c.id ≠ id) →
      ∀ c ∈ (db.dropEach env ids).channels, c.id ≠ id := by
    intro ids
    induction ids with
    | nil => exact fun db h => h
    | cons id' ids ih =>
      intro db h
      apply ih
      split
      · exact h
      · intro c hc
        exact h c (List.mem_of_mem_filter hc)
  induction ids generalizing db with
  | nil => exact absurd hid List.not_mem_nil
  | cons id' ids ih =>
    unfold dropEach
    rcases List.mem_cons.mp hid with rfl | hid
    · apply hgone
      rw [if_neg (Bool.eq_false_iff.mp hdrop)]
      intro c hc
      exact of_decide_eq_true (List.mem_filter.mp hc).2
    · exact ih hid

lemma dropEach_eq_self {ids : List Uuid} (h : ∀ id ∈ ids, env.fails (.drop id) = true) :
    db.dropEach env ids = db := by
  induction ids with
  | nil => rfl
  | cons id ids ih =>
    obtain ⟨hid, hids⟩ := List.forall_mem_cons.mp h
    unfold dropEach
    rw [if_pos hid]
    exact ih hids

lemma mem_listed {channelId : Uuid} :
    channelId ∈ (((db.channels.filter fun c => c.storageId = storageId).insertionSort
      fun c c' => c.position ≤ c'.position).map (·.id)) ↔
      ∃ c ∈ db.channels, c.storageId = storageId ∧ c.id = channelId := by
  simp only [List.mem_map, List.mem_insertionSort, List.mem_filter, decide_eq_true_eq, and_assoc]

lemma setPrimaryPosition_eq_self_iff :
    db.setPrimaryPosition storageId 1 = db ↔ ∀ s ∈ db.storages, s.id = storageId → s.primaryPosition = 1 := by
  constructor
  · intro h s hs hid
    have hmap : db.storages.map (fun s => if s.id = storageId then { s with primaryPosition := 1 } else s) =
        db.storages.map id := (congrArg storages h).trans (List.map_id _).symm
    have hself := List.map_inj_left.mp hmap s hs
    rw [if_pos hid] at hself
    exact (congrArg Storage.primaryPosition hself).symm
  · intro h
    have hmap : db.storages.map (fun s => if s.id = storageId then { s with primaryPosition := 1 } else s) =
        db.storages := by
      rw [List.map_congr_left (g := id), List.map_id]
      intro s hs
      split
      · case isTrue hid =>
        show Storage.mk s.id 1 = s
        rw [← h s hs hid]
      · rfl
    unfold setPrimaryPosition
    rw [hmap]

lemma dropped_eq_self_iff : db.dropped env storageId = db ↔ ¬ db.Drops env storageId := by
  unfold dropped Drops
  dsimp only
  rw [not_or, not_exists]
  constructor
  · intro h
    constructor
    · rintro c ⟨hc, hstorage, hdrop⟩
      have hgone : ∀ c' ∈ (db.dropEach env _).channels, c'.id ≠ c.id :=
        not_mem_dropEach (mem_listed.mpr ⟨c, hc, hstorage, rfl⟩) hdrop
      refine hgone c ?_ rfl
      have hchannels := congrArg channels h
      split at hchannels
      · rwa [hchannels]
      · exact hchannels.symm ▸ hc
    · rintro ⟨hprimary, s, hs, hid, hne⟩
      rw [if_neg (Bool.eq_false_iff.mp hprimary)] at h
      have hmap : db.storages.map (fun s => if s.id = storageId then { s with primaryPosition := 1 } else s) =
          db.storages := by
        have hstorages := congrArg storages h
        unfold setPrimaryPosition at hstorages
        rwa [storages_dropEach] at hstorages
      have hself : db.setPrimaryPosition storageId 1 = db := by
        unfold setPrimaryPosition
        rw [hmap]
      exact hne (setPrimaryPosition_eq_self_iff.mp hself s hs hid)
  · rintro ⟨hnone, hprimary⟩
    have hall : ∀ id ∈ (((db.channels.filter fun c => c.storageId = storageId).insertionSort
        fun c c' => c.position ≤ c'.position).map (·.id)), env.fails (.drop id) = true := by
      intro id hid
      obtain ⟨c, hc, hstorage, rfl⟩ := mem_listed.mp hid
      by_contra hdrop
      exact hnone c ⟨hc, hstorage, Bool.eq_false_iff.mpr hdrop⟩
    rw [dropEach_eq_self hall]
    split
    · rfl
    · case isFalse hfails =>
      apply setPrimaryPosition_eq_self_iff.mpr
      intro s hs hid
      by_contra hne
      exact hprimary ⟨Bool.eq_false_iff.mpr hfails, s, hs, hid, hne⟩

lemma bots_dropped : (db.dropped env storageId).bots = db.bots := by
  unfold dropped
  dsimp only
  split
  · exact bots_dropEach
  · exact bots_dropEach

/-! ## The property -/

lemma installs_congr (h : db₁.bots = db.bots) :
    db₁.Installs env storageId userId token ↔ db.Installs env storageId userId token := by
  unfold Installs getByStorageId getByToken
  rw [h]

lemma installed_iff (hbots : db₁.bots = db.bots) (hstorage : bot.2.storageId = some storageId)
    (htoken : bot.2.token = trim body.token)
    (hkept : body.removeChannels = false →
      db₁.channels = db.channels ∧ db₁.replicas = db.replicas ∧ db₁.storages = db.storages) :
    Installed db (db₁.put bot.1 bot.2) storageId body bot ↔
      (∀ id row, db.bots.lookup id = some row → row.storageId = some storageId → id = bot.1) ∧
      ∀ row other, db.bots.lookup bot.1 = some row → row.storageId = some other → other ≠ storageId →
        ∃ id row, db.bots.lookup id = some row ∧ row.storageId = some other ∧ id ≠ bot.1 := by
  have hlookup : ∀ id, (db₁.put bot.1 bot.2).bots.lookup id =
      if id = bot.1 then some bot.2 else db.bots.lookup id := by
    intro id
    rw [lookup_put, hbots]
  constructor
  · intro h
    constructor
    · intro id row hrow hhere
      by_contra hne
      refine hne (h.only id row ?_ hhere)
      rw [hlookup, if_neg hne]
      exact hrow
    · intro row other hrow hother hne
      obtain ⟨id, row', hrow', hother'⟩ := h.others other hne ⟨bot.1, row, hrow, hother⟩
      rw [hlookup] at hrow'
      split at hrow'
      · obtain rfl := Option.some.inj hrow'
        exact absurd (Option.some.inj (hother'.symm.trans hstorage)) hne
      · case isFalse hid => exact ⟨id, row', hrow', hother', hid⟩
  · rintro ⟨honly, hmissed⟩
    refine ⟨⟨by rw [hlookup, if_pos rfl], hstorage, htoken⟩, ?_, ?_, hkept⟩
    · intro id row hrow hhere
      rw [hlookup] at hrow
      split at hrow
      · assumption
      · exact honly id row hrow hhere
    · rintro other hne ⟨id, row, hrow, hother⟩
      rcases eq_or_ne id bot.1 with rfl | hid
      · obtain ⟨id', row', hrow', hother', hid'⟩ := hmissed row other hrow hother hne
        refine ⟨id', row', ?_, hother'⟩
        rw [hlookup, if_neg hid']
        exact hrow'
      · refine ⟨id, row, ?_, hother⟩
        rw [hlookup, if_neg hid]
        exact hrow

/-- What an installation comes to: an error where nothing was dropped, or a bot that is not missed elsewhere. -/
lemma allOrNothing_installing {written : Written} (hbots : db₁.bots = db.bots)
    (hkept : body.removeChannels = false →
      db₁.channels = db.channels ∧ db₁.replicas = db.replicas ∧ db₁.storages = db.storages)
    (h : Installing env db₁ storageId userId (trim body.token) written) :
    AllOrNothing db storageId body written ↔
      (¬ db.Installs env storageId userId (trim body.token) → db₁ = db) ∧
      (db.Installs env storageId userId (trim body.token) → db.LeavesBots storageId (trim body.token)) := by
  have hone : ∀ s, db₁.getByStorageId s = db.getByStorageId s := by
    intro s
    unfold getByStorageId
    rw [hbots]
  have htoken : db₁.getByToken (trim body.token) = db.getByToken (trim body.token) := by
    unfold getByToken
    rw [hbots]
  cases h with
  | failed e hnot =>
    rw [installs_congr hbots] at hnot
    show db₁ = db ↔ _
    exact ⟨fun h => ⟨fun _ => h, fun h' => absurd h' hnot⟩, fun h => h.1 hnot⟩
  | @updated existing bot hexisting hinstalls hid hstorage hnew =>
    rw [installs_congr hbots] at hinstalls
    rw [hone] at hexisting
    obtain ⟨hrow, hhere⟩ := getByStorageId_some hexisting
    show Installed db _ storageId body bot ↔ _
    rw [installed_iff hbots hstorage hnew hkept]
    unfold LeavesBots
    rw [hexisting, hid]
    constructor
    · rintro ⟨honly, -⟩
      exact ⟨fun hnot => absurd hinstalls hnot, fun _ => honly⟩
    · rintro ⟨-, hleaves⟩
      refine ⟨hleaves hinstalls, ?_⟩
      intro row other hrow' hother hne
      obtain rfl := Option.some.inj (hrow.symm.trans hrow')
      exact absurd (Option.some.inj (hother.symm.trans hhere)) hne
  | @rebound owned bot hnone howned hinstalls hid hstorage hnew =>
    rw [installs_congr hbots] at hinstalls
    rw [hone] at hnone
    rw [htoken] at howned
    obtain ⟨hrow, -⟩ := getByToken_some howned
    show Installed db _ storageId body bot ↔ _
    rw [installed_iff hbots hstorage hnew hkept]
    unfold LeavesBots
    rw [hnone, hid]
    constructor
    · rintro ⟨-, hmissed⟩
      refine ⟨fun hnot => absurd hinstalls hnot, fun _ => ?_⟩
      intro owned' other howned' hother
      obtain rfl := Option.some.inj (howned.symm.trans howned')
      apply hmissed owned.2 other hrow hother
      rintro rfl
      exact getByStorageId_none hnone hrow hother
    · rintro ⟨-, hleaves⟩
      constructor
      · intro id row hrow' hhere
        exact absurd hhere (getByStorageId_none hnone hrow')
      · intro row other hrow' hother hne
        obtain rfl := Option.some.inj (hrow.symm.trans hrow')
        exact hleaves hinstalls owned other howned hother
  | @created bot hnone hfree hinstalls hid hstorage hnew =>
    rw [installs_congr hbots] at hinstalls
    rw [hone] at hnone
    rw [htoken] at hfree
    rw [hbots] at hid
    show Installed db _ storageId body bot ↔ _
    rw [installed_iff hbots hstorage hnew hkept]
    unfold LeavesBots
    rw [hnone]
    constructor
    · intro _
      refine ⟨fun hnot => absurd hinstalls hnot, fun _ => ?_⟩
      intro owned other howned _
      exact absurd (hfree.symm.trans howned).symm (Option.some_ne_none owned)
    · intro _
      constructor
      · intro id row hrow hhere
        exact absurd hhere (getByStorageId_none hnone hrow)
      · intro row other hrow _ _
        exact absurd (hid.symm.trans hrow).symm (Option.some_ne_none row)

/-- An error leaves everything as it was and a success every storage its bot, just when a call that gets past
    the checks and drops something can install the token, and takes no storage's only bot. -/
theorem allOrNothing_iff_spared (env : Env) (db : BotDb) (storageId userId : Uuid) (body : SetStorageBot) :
    AllOrNothing db storageId body (db.setBot env storageId userId body) ↔
      db.Spared env storageId userId body := by
  unfold setBot Spared
  cases hadmit : db.admits env storageId userId body with
  | error e => exact ⟨fun _ me h => (by cases h), fun _ => rfl⟩
  | ok me =>
    dsimp only
    split
    · case isTrue hremove =>
      split
      · case isTrue hlist =>
        refine ⟨fun _ me' _ hread => ?_, fun _ => rfl⟩
        exact absurd ((hread hremove).symm.trans hlist) Bool.false_ne_true
      · case isFalse hlist =>
        have hkept : body.removeChannels = false → (db.dropped env storageId).channels = db.channels ∧
            (db.dropped env storageId).replicas = db.replicas ∧
            (db.dropped env storageId).storages = db.storages :=
          fun hkeep => absurd (hkeep.symm.trans hremove) Bool.false_ne_true
        rw [allOrNothing_installing bots_dropped hkept installing_install, dropped_eq_self_iff]
        constructor
        · rintro ⟨hnothing, hleaves⟩ me' - -
          exact ⟨fun _ hdrops => by_contra fun hnot => hnothing hnot hdrops, hleaves⟩
        · intro h
          obtain ⟨hinstalls, hleaves⟩ := h me rfl fun _ => Bool.eq_false_iff.mpr hlist
          exact ⟨fun hnot hdrops => hnot (hinstalls hremove hdrops), hleaves⟩
    · case isFalse hremove =>
      rw [allOrNothing_installing rfl (fun _ => ⟨rfl, rfl, rfl⟩) installing_install]
      constructor
      · rintro ⟨-, hleaves⟩ me' - -
        exact ⟨fun h => absurd h hremove, hleaves⟩
      · intro h
        exact ⟨fun _ => rfl, (h me rfl fun hyes => absurd hyes hremove).2⟩

/-- The new token belongs to somebody else, which the statement that installs it finds out. -/
theorem channels_lost : ¬ ∀ (env : Env) (db : BotDb) (storageId userId : Uuid) (body : SetStorageBot),
    AllOrNothing db storageId body (db.setBot env storageId userId body) := by
  intro h
  let env : Env := ⟨fun _ => false, .ok ⟨7, "new_bot".toList⟩, 9, fun _ => "00000001".toList⟩
  let roster := ((Roster.empty.register ['u']).grantForUserId [1] 1 1 .a).toOption.getD .empty
  let db : BotDb :=
    { storages := [⟨1, 1⟩]
      roster := roster
      bots := (AList.insert 3 ⟨['b'], "2:b".toList, 2, some 2⟩ ∅).insert 2 ⟨['a'], "1:a".toList, 1, some 1⟩
      channels := [⟨4, 1, 1, -100, .active⟩]
      replicas := [⟨6, 5, 4, some "document", some 1, .uploaded⟩] }
  let body : SetStorageBot := ⟨"2:b".toList, true⟩
  have herror : (db.setBot env 1 1 body).1 = .error .storageWorkerTokenConflict := by decide +kernel
  have hlost : (db.setBot env 1 1 body).2.channels = [] := by decide +kernel
  have hall := h env db 1 1 body
  unfold AllOrNothing at hall
  rw [herror] at hall
  rw [hall] at hlost
  exact absurd hlost (List.cons_ne_nil _ _)

end BotDb

end Sarca.Server
