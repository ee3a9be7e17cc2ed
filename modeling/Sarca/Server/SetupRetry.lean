import Sarca.Server.Setup

/-!
# Setting up again

What a call does when no other makes a step meanwhile. `Stage` says at each phase what the tables have become
since the call began: as they were, or `Made`, which deleting the new storage undoes, or `Bound` when it answers
`Ok`. So a call that fails leaves nothing, and may be made again (`Ready`); what an `Ok` means to the caller is
`Served`.
-/

namespace Sarca.Server.Setup
open Sarca.Lib

section Keep

variable {κ : Type*} {β : κ → Type*} {p : κ → Prop} [DecidablePred p] {table : AList β} {key : κ}

lemma keepKeys_eq_self (h : ∀ key ∈ table, p key) : keepKeys p table = table := by
  apply AList.ext
  unfold keepKeys
  dsimp only
  rw [List.filter_eq_self]
  intro entry hentry
  exact decide_eq_true (h entry.1 (List.mem_keys_of_mem hentry))

variable [DecidableEq κ]

lemma keepKeys_insert {value : β key} (h : ¬p key) :
    keepKeys p (table.insert key value) = keepKeys p table := by
  have hfilter : ∀ entries : List (Sigma β), (List.kerase key entries).filter (fun entry => p entry.1) =
      entries.filter fun entry => p entry.1 := by
    intro entries
    induction entries with
    | nil => rfl
    | cons entry entries ih =>
      by_cases hkey : key = entry.1
      · rw [List.kerase_cons_eq hkey, List.filter_cons_of_neg]
        rw [← hkey, decide_eq_true_eq]
        exact h
      · rw [List.kerase_cons_ne hkey, List.filter_cons, List.filter_cons, ih]
  apply AList.ext
  unfold keepKeys
  dsimp only
  rw [AList.entries_insert, List.filter_cons_of_neg, hfilter]
  rw [decide_eq_true_eq]
  exact h

end Keep

/-! ## Undoing -/

namespace SetupDb

variable {db : SetupDb} {id : Uuid}

lemma deleteStorage_insertStorage {name : List Char} (hkeyed : db.Keyed) (hnew : id ∉ db.ids) :
    (db.insertStorage id name).deleteStorage id = db := by
  have hstorages : (⟨id, 1⟩ :: db.storages : List Storage).filter (fun s => s.id ≠ id) = db.storages := by
    rw [List.filter_cons_of_neg (by simp), List.filter_eq_self]
    intro s hs
    exact decide_eq_true (ne_of_mem_of_not_mem (List.mem_map_of_mem hs) hnew)
  have hnames : keepKeys (· ≠ id) (db.names.insert id name) = db.names := by
    rw [keepKeys_insert (fun h => h rfl)]
    exact keepKeys_eq_self fun id' hid' => ne_of_mem_of_not_mem (hkeyed.names id' hid') hnew
  have hroster : db.roster.dropStorage id = db.roster := by
    have haccess : keepKeys (fun key : Uuid × Uuid => key.2 ≠ id) db.roster.access = db.roster.access := by
      refine keepKeys_eq_self fun key hkey => ne_of_mem_of_not_mem (hkeyed.access key.1 key.2 ?_) hnew
      exact fun hnone => AList.lookup_eq_none.mp hnone hkey
    unfold Roster.dropStorage Roster.keepAccess
    simp only [haccess]
  have hbots : (⟨db.bots.entries.filter fun e => e.2.storageId ≠ some id,
      db.bots.nodupKeys.sublist List.filter_sublist⟩ : AList fun _ : Uuid => BotRow) = db.bots := by
    apply AList.ext
    refine List.filter_eq_self.mpr fun e he => decide_eq_true fun hid => hnew ?_
    exact hkeyed.bots e.1 e.2 id (AList.mem_lookup_iff.mpr he) hid
  have hchannels : db.channels.filter (fun c => c.storageId ≠ id) = db.channels :=
    List.filter_eq_self.mpr fun c hc => decide_eq_true (ne_of_mem_of_not_mem (hkeyed.channels c hc) hnew)
  have hreplicas : db.replicas.filter (fun r => ∀ c ∈ db.channels, c.id = r.channelId → c.storageId ≠ id) =
      db.replicas :=
    List.filter_eq_self.mpr fun r _ => decide_eq_true fun c hc _ =>
      ne_of_mem_of_not_mem (hkeyed.channels c hc) hnew
  unfold deleteStorage insertStorage
  simp only [hstorages, hnames, hroster, hbots, hchannels, hreplicas]

lemma deleteStorage_grant {userId : Uuid} {t : AccessType} (h : db.roster.users.lookup userId ≠ none) :
    ({ db with roster := db.roster.putAccess userId id t h } : SetupDb).deleteStorage id =
      db.deleteStorage id := by
  have hroster : (db.roster.putAccess userId id t h).dropStorage id = db.roster.dropStorage id := by
    have haccess : keepKeys (fun key : Uuid × Uuid => key.2 ≠ id) (db.roster.access.insert (userId, id) t) =
        keepKeys (fun key : Uuid × Uuid => key.2 ≠ id) db.roster.access :=
      keepKeys_insert fun hne => hne rfl
    unfold Roster.dropStorage Roster.keepAccess Roster.putAccess
    simp only [haccess]
  unfold deleteStorage
  simp only [hroster]

lemma deleteStorage_link {c : StorageChannel} (hstorage : c.storageId = id)
    (hnew : ∀ c' ∈ db.channels, c'.id ≠ c.id)
    (hreplicas : ∀ r ∈ db.replicas, ∃ c ∈ db.channels, c.id = r.channelId) :
    ({ db with channels := c :: db.channels } : SetupDb).deleteStorage id = db.deleteStorage id := by
  have hchannels : (c :: db.channels).filter (fun c => c.storageId ≠ id) =
      db.channels.filter fun c => c.storageId ≠ id := by
    rw [List.filter_cons_of_neg]
    simp [hstorage]
  have hkept : db.replicas.filter (fun r => ∀ c' ∈ c :: db.channels, c'.id = r.channelId → c'.storageId ≠ id) =
      db.replicas.filter fun r => ∀ c' ∈ db.channels, c'.id = r.channelId → c'.storageId ≠ id := by
    refine List.filter_congr fun r hr => decide_eq_decide.mpr ?_
    rw [List.forall_mem_cons]
    refine and_iff_right fun hid => ?_
    obtain ⟨c', hc', hid'⟩ := hreplicas r hr
    exact absurd (hid'.trans hid.symm) (hnew c' hc')
  unfold deleteStorage
  simp only [hchannels, hkept]

lemma getByChatId_some {chatId : Int} {c : StorageChannel} (h : db.getByChatId chatId = some c) :
    c ∈ db.channels ∧ c.chatId = chatId := by
  have htest := List.find?_some h
  exact ⟨List.mem_of_find?_eq_some h, of_decide_eq_true htest⟩

lemma getByChatId_none {chatId : Int} (h : ∀ c ∈ db.channels, c.chatId ≠ chatId) :
    db.getByChatId chatId = none :=
  List.find?_eq_none.mpr fun c hc hchat => h c hc (of_decide_eq_true hchat)

lemma not_mem_of_undone {db₀ : SetupDb} (h : db.deleteStorage id = db₀) : id ∉ db₀.ids := by
  rw [← h, mem_ids_deleteStorage]
  exact fun hin => hin.2 rfl

lemma mem_channels_of_undone {db₀ : SetupDb} (h : db.deleteStorage id = db₀) {c : StorageChannel} :
    c ∈ db₀.channels ↔ c ∈ db.channels ∧ c.storageId ≠ id := by
  rw [← h]
  unfold deleteStorage
  rw [List.mem_filter, decide_eq_true_eq]

lemma users_of_undone {db₀ : SetupDb} (h : db.deleteStorage id = db₀) : db.roster.users = db₀.roster.users := by
  rw [← h]
  rfl

end SetupDb

/-! ## The bot -/

variable {config : Config} {a : Answer} {call : SetupCall} {db db₀ : SetupDb}

/-- The row that the token goes into, when the storage has no bot. -/
def SetupDb.Aims (db : SetupDb) (token : List Char) : Target → Prop
  | .existing _ => False
  | .owned id => ∃ row, db.bots.lookup id = some row ∧ row.token = token
  | .new => db.getByToken token = none

/-- What `set_bot` has found out. -/
def BotPhase.Stage (db : SetupDb) (storageId : Uuid) (token : List Char) : BotPhase → Prop
  | .access | .storage | .firstBot | .getMe | .secondBot _ => True
  | .thirdBot _ | .byToken _ => db.getByStorageId storageId = none
  | .name _ target | .write _ target => db.getByStorageId storageId = none ∧ db.Aims token target
  | .installed => False

/-- The storage has got the bot of the token, which had another storage or none. -/
structure Bound (db db' : SetupDb) (storageId : Uuid) (token : List Char) (bot : Uuid × BotRow) : Prop where
  written : db' = { db with toBotDb := db.put bot.1 bot.2 }
  stored : bot.2.storageId = some storageId
  carries : bot.2.token = token
  only : ∀ (id : Uuid) (row : BotRow), db.bots.lookup id = some row → row.storageId ≠ some storageId
  moved : ∀ row, db.bots.lookup bot.1 = some row → row.token = token

/-- What one step of `set_bot` comes to. -/
inductive BotTurn (db : SetupDb) (storageId : Uuid) (token : List Char) :
    SetupDb × Except SetBotError BotPhase → Prop where
  | failed (e : SetBotError) : BotTurn db storageId token (db, .error e)
  | goes {next : BotPhase} (h : next.Stage db storageId token) : BotTurn db storageId token (db, .ok next)
  | done {db' : SetupDb} (bot : Uuid × BotRow) (h : Bound db db' storageId token bot) :
    BotTurn db storageId token (db', .ok .installed)

lemma botTurn_write {userId storageId : Uuid} {text name : List Char} {target : Target}
    (hnone : db.getByStorageId storageId = none) (haims : db.Aims (trim text) target) :
    BotTurn db storageId (trim text)
      ((BotPhase.write name target).advance config a userId storageId text db) := by
  have honly : ∀ (id : Uuid) (row : BotRow), db.bots.lookup id = some row → row.storageId ≠ some storageId :=
    fun id row => BotDb.getByStorageId_none hnone
  dsimp only [BotPhase.advance]
  cases target with
  | existing id => exact haims.elim
  | owned id =>
    obtain ⟨row, hrow, htoken⟩ := haims
    show BotTurn db storageId (trim text) ({ db with toBotDb := (db.checked _ _).2 }, (db.checked _ _).1.map _)
    have hcases : (∃ e, db.rebindToStorage (a.env config) id storageId name = (.error e, db.toBotDb)) ∨
        db.rebindToStorage (a.env config) id storageId name =
          (.ok (id, { row with storageId := some storageId, name := name }),
            db.put id { row with storageId := some storageId, name := name }) := by
      unfold BotDb.rebindToStorage
      split
      · exact .inl ⟨_, rfl⟩
      · rw [hrow]
        exact .inr rfl
    rcases hcases with ⟨e, hwritten⟩ | hwritten
    · rw [hwritten]
      exact .failed e
    · rw [hwritten]
      unfold SetupDb.checked
      dsimp only
      split
      · refine .done (id, { row with storageId := some storageId, name := name }) ⟨rfl, rfl, htoken, honly, ?_⟩
        intro row' hrow'
        obtain rfl := Option.some.inj (hrow.symm.trans hrow')
        exact htoken
      · exact .failed _
  | new =>
    show BotTurn db storageId (trim text) ({ db with toBotDb := (db.checked _ _).2 }, (db.checked _ _).1.map _)
    have hcases : (∃ e, db.createBot (a.env config) ⟨name, trim text, userId, some storageId⟩ =
        (.error e, db.toBotDb)) ∨
        a.newId ∉ db.bots ∧ db.createBot (a.env config) ⟨name, trim text, userId, some storageId⟩ =
          (.ok (a.newId, ⟨name, trim text, userId, some storageId⟩),
            db.put a.newId ⟨name, trim text, userId, some storageId⟩) := by
      unfold BotDb.createBot
      split
      · exact .inl ⟨_, rfl⟩
      · split
        · exact .inl ⟨_, rfl⟩
        · case isFalse hfree => exact .inr ⟨fun hid => hfree (.inl hid), rfl⟩
    rcases hcases with ⟨e, hwritten⟩ | ⟨hfree, hwritten⟩
    · rw [hwritten]
      exact .failed e
    · rw [hwritten]
      unfold SetupDb.checked
      dsimp only
      split
      · refine .done (a.newId, ⟨name, trim text, userId, some storageId⟩) ⟨rfl, rfl, rfl, honly, ?_⟩
        intro row hrow
        exact nomatch (AList.lookup_eq_none.mpr hfree).symm.trans hrow
      · exact .failed _

lemma botTurn_advance {userId storageId : Uuid} {text : List Char} {phase : BotPhase}
    (h : phase.Stage db storageId (trim text)) :
    BotTurn db storageId (trim text) (phase.advance config a userId storageId text db) := by
  cases phase with
  | access =>
    dsimp only [BotPhase.advance]
    split
    · exact .failed _
    · split
      · exact .failed _
      · exact .goes trivial
  | storage =>
    dsimp only [BotPhase.advance]
    split
    · exact .failed _
    · split
      · exact .failed _
      · split
        · exact .failed _
        · exact .goes trivial
  | firstBot =>
    dsimp only [BotPhase.advance]
    split
    · exact .failed _
    · split
      · exact .failed _
      · exact .goes trivial
  | getMe =>
    dsimp only [BotPhase.advance]
    split
    · exact .failed _
    · exact .goes trivial
  | secondBot me =>
    dsimp only [BotPhase.advance]
    split
    · exact .failed _
    · split
      · exact .failed _
      · case isFalse hnone => exact .goes (Option.not_isSome_iff_eq_none.mp hnone)
  | thirdBot me =>
    have hnone : db.getByStorageId storageId = none := h
    dsimp only [BotPhase.advance]
    split
    · exact .failed _
    · rw [hnone]
      exact .goes hnone
  | byToken me =>
    dsimp only [BotPhase.advance]
    split
    · exact .failed _
    · split
      · case h_1 owned howned =>
        split
        · exact .failed _
        · exact .goes ⟨h, owned.2, BotDb.getByToken_some howned⟩
      · case h_2 hfree => exact .goes ⟨h, hfree⟩
  | name me target => exact .goes h
  | write name target => exact botTurn_write h.1 h.2
  | installed => exact h.elim

/-! ## The storage -/

/-- The tables with a storage that is being made, and the chats it has so far. -/
structure Made (db₀ db : SetupDb) (id : Uuid) (chats : List Int) : Prop where
  undone : db.deleteStorage id = db₀
  present : id ∈ db.ids
  bots : db.bots = db₀.bots
  linked : ∀ chat, (∃ c ∈ db.channels, c.storageId = id ∧ c.chatId = chat) ↔ chat ∈ chats
  placed : ∀ c ∈ db.channels, c.storageId = id → c.position ≤ chats.length
  free : ∀ c ∈ db₀.channels, c.chatId ∉ chats
  replicas : ∀ r ∈ db.replicas, ∃ c ∈ db.channels, c.id = r.channelId

def SetupDb.Links (db : SetupDb) (call : SetupCall) (id : Uuid) : Prop :=
  ∃ c ∈ db.channels, c.chatId ∈ call.chatIds ∧ c.storageId = id

/-- Where the bot of a call goes: a storage it found, or one it made. -/
def Held (db₀ db : SetupDb) (call : SetupCall) (own : Bool) (id : Uuid) : Prop :=
  (if own then Made db₀ db id call.chatIds else db = db₀ ∧ id ∈ db₀.ids ∧ db₀.Links call id) ∧
    db.roster.HasAccess call.user.id id .a

/-- What the tables have become since a call began. -/
def Phase.Stage (db₀ : SetupDb) (call : SetupCall) (db : SetupDb) : Phase → Prop
  | .asking | .naming | .creating => db = db₀
  | .finding _ rest found => db = db₀ ∧ rest <:+ call.chatIds ∧ ∀ id ∈ found, db₀.Links call id
  | .entitled _ id => db = db₀ ∧ db₀.Links call id
  | .fetching _ id => db = db₀ ∧ db₀.Links call id ∧ db₀.roster.HasAccess call.user.id id .a
  | .granting id => Made db₀ db id []
  | .linking id position rest =>
    ∃ chats, chats ++ rest = call.chatIds ∧ position = chats.length + 1 ∧ Made db₀ db id chats ∧
      db.roster.HasAccess call.user.id id .a
  | .sharing id => Held db₀ db call true id
  | .rollingBack id _ | .undoing id _ => db.deleteStorage id = db₀
  | .binding own s phase => Held db₀ db call own s.id ∧ phase.Stage db s.id (trim call.token)
  | .answered (.error _) => db = db₀
  | .answered (.ok s) =>
    ∃ own mid bot, Held db₀ mid call own s.id ∧ Bound mid db s.id (trim call.token) bot

/-- A call on its own, with the tables it works on. -/
def serve (config : Config) (call : SetupCall) (x : SetupDb × Phase) (a : Answer) : SetupDb × Phase :=
  x.2.advance config a call x.1

lemma trim_trim (text : List Char) : trim (trim text) = trim text :=
  trimBy_trimBy

lemma Made.grant {id : Uuid} {chats : List Int} {userId : Uuid} {t : AccessType} (h : Made db₀ db id chats)
    (huser : db.roster.users.lookup userId ≠ none) :
    Made db₀ { db with roster := db.roster.putAccess userId id t huser } id chats where
  undone := (SetupDb.deleteStorage_grant huser).trans h.undone
  present := h.present
  bots := h.bots
  linked := h.linked
  placed := h.placed
  free := h.free
  replicas := h.replicas

lemma Made.link {id channelId : Uuid} {chats : List Int} {chat : Int} {db' : SetupDb} (h : Made db₀ db id chats)
    (hinsert : db.insertChannel ⟨channelId, id, chats.length + 1, chat, .active⟩ = .ok db') :
    Made db₀ db' id (chats ++ [chat]) ∧ db'.roster = db.roster := by
  unfold SetupDb.insertChannel at hinsert
  split at hinsert
  · cases hinsert
  · case isFalse hfree =>
    split at hinsert
    · cases hinsert
    · cases hinsert
      have hfree : ∀ c ∈ db.channels, c.id ≠ channelId ∧ c.chatId ≠ chat := by
        intro c hc
        exact ⟨fun hid => hfree ⟨c, hc, .inl hid⟩, fun hchat => hfree ⟨c, hc, .inr (.inl hchat)⟩⟩
      refine ⟨⟨?_, h.present, h.bots, ?_, ?_, ?_, ?_⟩, rfl⟩
      · exact (SetupDb.deleteStorage_link rfl (fun c hc => (hfree c hc).1) h.replicas).trans h.undone
      · intro chat'
        rw [List.mem_append, List.mem_singleton, ← h.linked chat', List.exists_mem_cons_iff]
        constructor
        · rintro (⟨-, rfl⟩ | hlinked)
          · exact .inr rfl
          · exact .inl hlinked
        · rintro (hlinked | rfl)
          · exact .inr hlinked
          · exact .inl ⟨rfl, rfl⟩
      · rw [List.forall_mem_cons, List.length_append]
        refine ⟨fun _ => by simp, fun c hc hid => ?_⟩
        have hplaced := h.placed c hc hid
        push_cast
        omega
      · intro c hc hchat
        rcases List.mem_append.mp hchat with hchat | hchat
        · exact h.free c hc hchat
        · have hold := ((SetupDb.mem_channels_of_undone h.undone).mp hc).1
          exact (hfree c hold).2 (List.mem_singleton.mp hchat)
      · intro r hr
        obtain ⟨c, hc, hid⟩ := h.replicas r hr
        exact ⟨c, List.mem_cons_of_mem _ hc, hid⟩

lemma Made.links {id channelId : Uuid} {chats : List Int} {chat : Int} (h : Made db₀ db id chats)
    (hnot : chat ∉ chats) (hfree : ∀ c ∈ db₀.channels, c.chatId ≠ chat)
    (hnew : ∀ c ∈ db.channels, c.id ≠ channelId) :
    ∃ db', db.insertChannel ⟨channelId, id, chats.length + 1, chat, .active⟩ = .ok db' := by
  have hunique : ¬∃ c ∈ db.channels, c.id = channelId ∨ c.chatId = chat ∨
      c.storageId = id ∧ c.position = (chats.length : Int) + 1 := by
    rintro ⟨c, hc, hid | hsame | ⟨hid, hposition⟩⟩
    · exact hnew c hc hid
    · by_cases hid : c.storageId = id
      · exact hnot ((h.linked chat).mp ⟨c, hc, hid, hsame⟩)
      · exact hfree c ((SetupDb.mem_channels_of_undone h.undone).mpr ⟨hc, hid⟩) hsame
    · have hplaced := h.placed c hc hid
      omega
  refine ⟨_, (if_neg hunique).trans (if_neg ?_)⟩
  exact not_not.mpr h.present

lemma made_insertStorage {id : Uuid} {name : List Char} (hkeyed : db₀.Keyed) (hnew : id ∉ db₀.ids) :
    Made db₀ (db₀.insertStorage id name) id [] where
  undone := SetupDb.deleteStorage_insertStorage hkeyed hnew
  present := List.mem_cons_self
  bots := rfl
  linked chat := by
    refine iff_of_false ?_ List.not_mem_nil
    rintro ⟨c, hc, rfl, -⟩
    exact hnew (hkeyed.channels c hc)
  placed c hc hid := absurd (hid ▸ hkeyed.channels c hc) hnew
  free c _ := List.not_mem_nil
  replicas := hkeyed.replicas

lemma hasAccess_putAccess {ρ : Roster} {userId id : Uuid} (h : ρ.users.lookup userId ≠ none) :
    (ρ.putAccess userId id .a h).HasAccess userId id .a :=
  ⟨.a, by rw [Roster.level_putAccess, if_pos rfl]; rfl, rfl⟩

lemma HasAccess.putAccess {ρ : Roster} {userId userId' id : Uuid} (h : ρ.users.lookup userId' ≠ none)
    (haccess : ρ.HasAccess userId id .a) : (ρ.putAccess userId' id .a h).HasAccess userId id .a := by
  obtain ⟨held, hlevel, hheld⟩ := haccess
  by_cases hkey : (userId, id) = (userId', id)
  · refine ⟨.a, ?_, rfl⟩
    rw [Roster.level_putAccess, if_pos hkey]
    rfl
  · refine ⟨held, ?_, hheld⟩
    rw [Roster.level_putAccess, if_neg hkey]
    exact hlevel

lemma stage_notOwned {again : Bool} : (Phase.notOwned again).Stage db₀ call db₀ := by
  cases again <;> rfl

lemma undone_of_held {own : Bool} {id : Uuid} (h : Held db₀ db call own id) :
    if own then db.deleteStorage id = db₀ else db = db₀ := by
  cases own with
  | false => exact h.1.1
  | true => exact h.1.undone

lemma stage_bound {own : Bool} {s : SetupResult} {stepped : SetupDb × Except SetBotError BotPhase}
    (h : Held db₀ db call own s.id) (hturn : BotTurn db s.id (trim call.token) stepped) :
    (Phase.bound own s stepped.2).Stage db₀ call stepped.1 := by
  cases hturn with
  | failed e =>
    have hundone := undone_of_held h
    cases own with
    | false => exact hundone
    | true => exact hundone
  | @goes next hnext =>
    have hbinding : next ≠ .installed → (Phase.binding own s next).Stage db₀ call db := fun _ => ⟨h, hnext⟩
    cases next with
    | installed => exact hnext.elim
    | _ => exact hbinding nofun
  | done bot hbound => exact ⟨own, db, bot, h, hbound⟩

lemma stage_finding {again : Bool} {rest : List Int} {found : Option Uuid} (hrest : rest <:+ call.chatIds)
    (hfound : ∀ id ∈ found, db₀.Links call id) :
    ((Phase.finding again rest found).advance config a call db₀).2.Stage db₀ call
      ((Phase.finding again rest found).advance config a call db₀).1 := by
  cases rest with
  | nil =>
    dsimp only [Phase.advance]
    split
    · exact stage_notOwned
    · exact ⟨rfl, hfound _ rfl⟩
  | cons chatId rest =>
    dsimp only [Phase.advance]
    split
    · rfl
    · split
      · exact stage_notOwned
      · case h_2 ch hch =>
        split
        · exact stage_notOwned
        · -- the storage of the channel has the chat that was looked for
          refine ⟨rfl, (List.suffix_cons chatId rest).trans hrest, fun id hid => ?_⟩
          obtain rfl := Option.some.inj hid
          obtain ⟨hmem, rfl⟩ := SetupDb.getByChatId_some hch
          exact ⟨ch, hmem, hrest.subset List.mem_cons_self, rfl⟩

lemma stage_linking {id : Uuid} {position : Int} {rest : List Int}
    (h : (Phase.linking id position rest).Stage db₀ call db) :
    ((Phase.linking id position rest).advance config a call db).2.Stage db₀ call
      ((Phase.linking id position rest).advance config a call db).1 := by
  obtain ⟨chats, hchats, rfl, hmade, haccess⟩ := h
  cases rest with
  | nil =>
    rw [List.append_nil] at hchats
    rw [hchats] at hmade
    exact ⟨hmade, haccess⟩
  | cons chatId rest =>
    dsimp only [Phase.advance]
    split
    · exact hmade.undone
    · split
      · exact hmade.undone
      · case h_2 db' hinsert =>
        obtain ⟨hmade', hroster⟩ := hmade.link hinsert
        refine ⟨chats ++ [chatId], ?_, ?_, hmade', ?_⟩
        · rw [List.append_assoc]
          exact hchats
        · rw [List.length_append]
          push_cast
          rfl
        · rw [hroster]
          exact haccess

/-- Every statement leads to the next stage. -/
lemma stage_advance {phase : Phase} (hkeyed : db₀.Keyed) (h : phase.Stage db₀ call db)
    (hundoes : phase.Undoes a) :
    (phase.advance config a call db).2.Stage db₀ call (phase.advance config a call db).1 := by
  cases phase with
  | asking =>
    obtain rfl : db = db₀ := h
    dsimp only [Phase.advance]
    split
    · rfl
    · exact ⟨rfl, List.suffix_refl _, nofun⟩
  | finding again rest found =>
    obtain ⟨rfl, hrest, hfound⟩ := h
    exact stage_finding hrest hfound
  | entitled again id =>
    obtain ⟨rfl, hlinks⟩ := h
    dsimp only [Phase.advance]
    split
    · exact stage_notOwned
    · case isFalse hcond =>
      rw [not_or, not_not] at hcond
      exact ⟨rfl, hlinks, hcond.2⟩
  | fetching again id =>
    obtain ⟨rfl, hlinks, haccess⟩ := h
    dsimp only [Phase.advance]
    split
    · rfl
    · split
      · exact stage_notOwned
      · case isFalse hin => exact ⟨⟨⟨rfl, not_not.mp hin, hlinks⟩, haccess⟩, trivial⟩
  | naming =>
    obtain rfl : db = db₀ := h
    dsimp only [Phase.advance]
    split <;> rfl
  | creating =>
    obtain rfl : db = db₀ := h
    dsimp only [Phase.advance]
    split
    · rfl
    · case isFalse hcond => exact made_insertStorage hkeyed fun hin => hcond (.inr hin)
  | granting id =>
    have hmade : Made db₀ db id [] := h
    dsimp only [Phase.advance]
    split
    · exact hmade.undone
    · split
      · exact hmade.undone
      · case h_2 ρ hgrant =>
        obtain ⟨huser, -, rfl⟩ := Roster.grantForUserId_ok hgrant
        exact ⟨[], rfl, rfl, hmade.grant huser, hasAccess_putAccess huser⟩
  | linking id position rest => exact stage_linking h
  | sharing id =>
    have hheld : Held db₀ db call true id := h
    dsimp only [Phase.advance]
    split
    · exact ⟨hheld, trivial⟩
    · split
      · exact ⟨hheld, trivial⟩
      · case h_2 ρ hgrant =>
        obtain ⟨userId, huser, -, -, rfl⟩ := Roster.createOrUpdate_ok hgrant
        exact ⟨⟨Made.grant hheld.1 huser, HasAccess.putAccess huser hheld.2⟩, trivial⟩
  | rollingBack id e =>
    have hundone : db.deleteStorage id = db₀ := h
    have hfails : a.fails = false := hundoes
    dsimp only [Phase.advance]
    rw [if_neg (Bool.eq_false_iff.mp hfails), hundone]
    split
    · exact ⟨rfl, List.suffix_refl _, nofun⟩
    · rfl
  | binding own s phase =>
    have hturn : BotTurn db s.id (trim (trim call.token))
        (phase.advance config a call.user.id s.id (trim call.token) db) :=
      botTurn_advance ((trim_trim call.token).symm ▸ h.2)
    rw [trim_trim] at hturn
    exact stage_bound h.1 hturn
  | undoing id e =>
    have hundone : db.deleteStorage id = db₀ := h
    have hfails : a.fails = false := hundoes
    dsimp only [Phase.advance]
    rw [if_neg (Bool.eq_false_iff.mp hfails), hundone]
    rfl
  | answered result => exact h

/-! ## What a caller wants -/

/-- The storage has the chats of the call and the bot of its token, no other has one of them, and no bot but
    that one has moved. -/
structure Served (db₀ db : SetupDb) (call : SetupCall) (id : Uuid) : Prop where
  present : id ∈ db.ids
  linked : ∀ chat, (∃ c ∈ db.channels, c.storageId = id ∧ c.chatId = chat) ↔ chat ∈ call.chatIds
  alone : ∀ c ∈ db.channels, c.chatId ∈ call.chatIds → c.storageId = id
  bot : ∃ b row, db.bots.lookup b = some row ∧ row.storageId = some id ∧ row.token = trim call.token ∧
    ∀ b' row', db.bots.lookup b' = some row' → row'.storageId = some id → b' = b
  others : ∀ b row, db₀.bots.lookup b = some row → row.token ≠ trim call.token → db.bots.lookup b = some row

structure Fresh (db : SetupDb) (call : SetupCall) : Prop where
  name : ¬db.NameTaken (trim call.name) call.user.id
  user : db.roster.users.lookup call.user.id ≠ none
  chats : ∀ c ∈ db.channels, c.chatId ∉ call.chatIds
  distinct : call.chatIds.Nodup

/-- The storage is there, with the chats of the call and without a bot. -/
structure HalfBuilt (db : SetupDb) (call : SetupCall) (id : Uuid) : Prop where
  present : id ∈ db.ids
  admin : db.roster.HasAccess call.user.id id .a
  linked : ∀ chat, (∃ c ∈ db.channels, c.storageId = id ∧ c.chatId = chat) ↔ chat ∈ call.chatIds
  noBot : ∀ b row, db.bots.lookup b = some row → row.storageId ≠ some id

/-- The call is in order, its token is nobody else's, and its storage can be made or finished. -/
structure Ready (db : SetupDb) (call : SetupCall) : Prop where
  checked : call.check = .ok ()
  token : ':' ∈ trim call.token
  mine : ∀ b row, db.bots.lookup b = some row → row.token = trim call.token → row.userId = call.user.id
  storage : Fresh db call ∨ ∃ id, HalfBuilt db call id

/-- The storage of the call is there, and is the user's. -/
structure Owned (db : SetupDb) (call : SetupCall) (id : Uuid) : Prop where
  present : id ∈ db.ids
  admin : db.roster.HasAccess call.user.id id .a
  linked : ∀ chat ∈ call.chatIds, ∃ c ∈ db.channels, c.chatId = chat
  alone : ∀ c ∈ db.channels, c.chatId ∈ call.chatIds → c.storageId = id

lemma HalfBuilt.alone {id : Uuid} (h : HalfBuilt db call id) (hkeyed : db.Keyed) {c : StorageChannel}
    (hc : c ∈ db.channels) (hchat : c.chatId ∈ call.chatIds) : c.storageId = id := by
  obtain ⟨c', hc', hid, hsame⟩ := (h.linked c.chatId).mpr hchat
  rw [hkeyed.chats c hc c' hc' hsame.symm]
  exact hid

lemma HalfBuilt.owned {id : Uuid} (h : HalfBuilt db call id) (hkeyed : db.Keyed) : Owned db call id where
  present := h.present
  admin := h.admin
  linked chat hchat := by
    obtain ⟨c, hc, -, hsame⟩ := (h.linked chat).mpr hchat
    exact ⟨c, hc, hsame⟩
  alone _ hc hchat := h.alone hkeyed hc hchat

lemma Held.chats {own : Bool} {id : Uuid} (hkeyed : db₀.Keyed) (hready : Ready db₀ call)
    (h : Held db₀ db call own id) :
    (∀ chat, (∃ c ∈ db.channels, c.storageId = id ∧ c.chatId = chat) ↔ chat ∈ call.chatIds) ∧
      ∀ c ∈ db.channels, c.chatId ∈ call.chatIds → c.storageId = id := by
  cases own with
  | true =>
    have hmade : Made db₀ db id call.chatIds := h.1
    refine ⟨hmade.linked, fun c hc hchat => ?_⟩
    by_contra hne
    exact hmade.free c ((SetupDb.mem_channels_of_undone hmade.undone).mpr ⟨hc, hne⟩) hchat
  | false =>
    obtain ⟨rfl, -, c, hc, hchat, rfl⟩ := h.1
    rcases hready.storage with hfresh | ⟨id, hhalf⟩
    · exact absurd hchat (hfresh.chats c hc)
    · obtain rfl := hhalf.alone hkeyed hc hchat
      exact ⟨hhalf.linked, fun c' hc' hchat' => hhalf.alone hkeyed hc' hchat'⟩

lemma Held.bots {own : Bool} {id : Uuid} (h : Held db₀ db call own id) : db.bots = db₀.bots := by
  cases own with
  | true => exact h.1.bots
  | false => exact congrArg (fun db => db.bots) h.1.1

lemma Held.present {own : Bool} {id : Uuid} (h : Held db₀ db call own id) : id ∈ db.ids := by
  cases own with
  | true => exact h.1.present
  | false =>
    obtain ⟨rfl, hin, -⟩ := h.1
    exact hin

lemma Bound.served {own : Bool} {mid : SetupDb} {id : Uuid} {bot : Uuid × BotRow} (hkeyed : db₀.Keyed)
    (hready : Ready db₀ call) (hheld : Held db₀ mid call own id) (h : Bound mid db id (trim call.token) bot) :
    Served db₀ db call id ∧ Owned db call id := by
  obtain ⟨hlinked, halone⟩ := hheld.chats hkeyed hready
  have hlookup (b : Uuid) : db.bots.lookup b = if b = bot.1 then some bot.2 else mid.bots.lookup b := by
    rw [h.written]
    exact BotDb.lookup_put
  have hids : id ∈ db.ids := by
    rw [h.written]
    exact hheld.present
  have hchannels : db.channels = mid.channels := by
    rw [h.written]
    rfl
  have hroster : db.roster = mid.roster := by
    rw [h.written]
    rfl
  have halone' : ∀ c ∈ db.channels, c.chatId ∈ call.chatIds → c.storageId = id := hchannels ▸ halone
  refine ⟨⟨hids, hchannels ▸ hlinked, halone', ?_, ?_⟩, hids, hroster ▸ hheld.2, ?_, halone'⟩
  · refine ⟨bot.1, bot.2, by rw [hlookup, if_pos rfl], h.stored, h.carries, fun b row hrow hstored => ?_⟩
    rw [hlookup] at hrow
    split at hrow
    · assumption
    · exact absurd hstored (h.only b row hrow)
  · intro b row hrow hother
    rw [← hheld.bots] at hrow
    rw [hlookup, if_neg, hrow]
    rintro rfl
    exact hother (h.moved row hrow)
  · intro chat hchat
    obtain ⟨c, hc, -, hsame⟩ := (hlinked chat).mpr hchat
    exact ⟨c, hchannels ▸ hc, hsame⟩

/-! ## A call that nothing hinders -/

structure Answer.Smooth (a : Answer) (db : SetupDb) : Prop where
  runs : a.fails = false
  known : a.getMe.isOk = true
  newStorage : a.newId ∉ db.ids
  newBot : a.newId ∉ db.bots
  newChannel : ∀ c ∈ db.channels, c.id ≠ a.newId

lemma Answer.Smooth.undoes (h : a.Smooth db) (phase : Phase) : phase.Undoes a := by
  cases phase <;> first | exact trivial | exact h.runs

lemma Answer.Smooth.me (h : a.Smooth db) : ∃ me, a.getMe = .ok me := by
  cases hme : a.getMe with
  | ok me => exact ⟨me, rfl⟩
  | error message =>
    have hok := h.known
    rw [hme] at hok
    cases hok

/-- How many statements `set_bot` has left. -/
def BotPhase.left : BotPhase → Nat
  | .access => 9
  | .storage => 8
  | .firstBot => 7
  | .getMe => 6
  | .secondBot _ => 5
  | .thirdBot _ => 4
  | .byToken _ => 3
  | .name _ _ => 2
  | .write _ _ => 1
  | .installed => 0

/-- How many statements a call has left at most, if nothing hinders it. -/
def Phase.left (call : SetupCall) : Phase → Nat
  | .asking => 16 + 2 * call.chatIds.length
  | .finding _ rest _ => 15 + call.chatIds.length + rest.length
  | .naming => 14 + call.chatIds.length
  | .creating => 13 + call.chatIds.length
  | .granting _ => 12 + call.chatIds.length
  | .linking _ _ rest => 11 + rest.length
  | .entitled _ _ => 11
  | .fetching _ _ | .sharing _ => 10
  | .binding _ _ phase => phase.left
  | .rollingBack _ _ | .undoing _ _ | .answered _ => 0

def SetupCall.steps (call : SetupCall) : Nat :=
  16 + 2 * call.chatIds.length

/-- A storage without a bot gets the bot of the token, one statement after the other. -/
lemma bot_goes {userId storageId : Uuid} {text : List Char} {phase : BotPhase} (hsmooth : a.Smooth db)
    (haccess : db.roster.HasAccess userId storageId .a) (hin : storageId ∈ db.ids) (htext : ':' ∈ trim text)
    (hnone : db.getByStorageId storageId = none)
    (hmine : ∀ b row, db.bots.lookup b = some row → row.token = trim text → row.userId = userId)
    (hstage : phase.Stage db storageId (trim text)) :
    ∃ next, (phase.advance config a userId storageId text db).2 = .ok next ∧ next.left + 1 = phase.left := by
  have hruns : ¬a.fails = true := Bool.eq_false_iff.mp hsmooth.runs
  have hwrite : ¬(a.env config).fails .write = true := hruns
  cases phase with
  | access =>
    dsimp only [BotPhase.advance, Roster.checkAccess]
    rw [if_neg hruns, if_pos haccess]
    exact ⟨_, rfl, rfl⟩
  | storage =>
    dsimp only [BotPhase.advance]
    have hform : ¬(trim text = [] ∨ ':' ∉ trim text) :=
      not_or.mpr ⟨List.ne_nil_of_mem htext, not_not.mpr htext⟩
    rw [if_neg hruns, if_neg (not_not.mpr hin), if_neg hform]
    exact ⟨_, rfl, rfl⟩
  | firstBot =>
    dsimp only [BotPhase.advance]
    rw [if_neg hruns, hnone, if_neg (by simp)]
    exact ⟨_, rfl, rfl⟩
  | getMe =>
    obtain ⟨me, hme⟩ := hsmooth.me
    dsimp only [BotPhase.advance]
    rw [hme]
    exact ⟨_, rfl, rfl⟩
  | secondBot me =>
    dsimp only [BotPhase.advance]
    rw [if_neg hruns, hnone]
    exact ⟨_, rfl, rfl⟩
  | thirdBot me =>
    dsimp only [BotPhase.advance]
    rw [if_neg hruns, hnone]
    exact ⟨_, rfl, rfl⟩
  | byToken me =>
    dsimp only [BotPhase.advance]
    rw [if_neg hruns]
    cases howned : db.getByToken (trim text) with
    | none => exact ⟨_, rfl, rfl⟩
    | some owned =>
      obtain ⟨hrow, htoken⟩ := BotDb.getByToken_some howned
      dsimp only
      rw [if_neg (not_not.mpr (hmine owned.1 owned.2 hrow htoken))]
      exact ⟨_, rfl, rfl⟩
  | name me target => exact ⟨_, rfl, rfl⟩
  | write name target =>
    dsimp only [BotPhase.advance]
    cases target with
    | existing id => exact hstage.2.elim
    | owned id =>
      obtain ⟨row, hrow, -⟩ := hstage.2
      dsimp only [SetupDb.writeBot, BotDb.rebindToStorage]
      rw [if_neg hwrite, hrow]
      dsimp only [SetupDb.checked]
      rw [if_pos hin]
      exact ⟨_, rfl, rfl⟩
    | new =>
      have hfree : ¬((a.env config).newId ∈ db.bots ∨ ∃ e ∈ db.bots.entries, e.2.token = trim text) := by
        rintro (hid | ⟨e, he, htoken⟩)
        · exact hsmooth.newBot hid
        · exact BotDb.getByToken_none hstage.2 (AList.mem_lookup_iff.mpr he) htoken
      have huser : db.roster.users.lookup userId ≠ none := by
        obtain ⟨held, hlevel, -⟩ := haccess
        exact Roster.level_ne_none (Option.ne_none_iff_exists'.mpr ⟨held, hlevel⟩)
      dsimp only [SetupDb.writeBot, BotDb.createBot]
      rw [if_neg hwrite, if_neg hfree]
      dsimp only [SetupDb.checked]
      rw [if_pos ⟨hin, huser⟩]
      exact ⟨_, rfl, rfl⟩
  | installed => exact hstage.elim

lemma SetupCall.chats_of_check (h : call.check = .ok ()) : call.chatIds ≠ [] := by
  rintro hnil
  unfold SetupCall.check at h
  split at h
  · cases h
  · rw [if_pos (.inl hnil)] at h
    cases h

lemma SetupDb.getByStorageId_eq_none {id : Uuid}
    (h : ∀ b row, db.bots.lookup b = some row → row.storageId ≠ some id) : db.getByStorageId id = none := by
  cases hbot : db.getByStorageId id with
  | none => rfl
  | some e =>
    obtain ⟨hrow, hstored⟩ := BotDb.getByStorageId_some hbot
    exact absurd hstored (h e.1 e.2 hrow)

lemma Held.goes (config : Config) {own : Bool} {s : SetupResult} {phase : BotPhase} (hready : Ready db₀ call)
    (hheld : Held db₀ db call own s.id)
    (hnone : ∀ b row, db₀.bots.lookup b = some row → row.storageId ≠ some s.id)
    (hstage : phase.Stage db s.id (trim call.token)) (hsmooth : a.Smooth db) :
    ∃ next, ((Phase.binding own s phase).advance config a call db).2 = .bound own s (.ok next) ∧
      next.left + 1 = phase.left := by
  have hbot : db.getByStorageId s.id = none :=
    SetupDb.getByStorageId_eq_none fun b row hrow => hnone b row (hheld.bots ▸ hrow)
  have hmine : ∀ b row, db.bots.lookup b = some row → row.token = trim call.token → row.userId = call.user.id :=
    fun b row hrow htoken => hready.mine b row (hheld.bots ▸ hrow) htoken
  have htoken := hready.token
  rw [← trim_trim call.token] at hstage hmine htoken
  have hgoes : ∃ next, (phase.advance config a call.user.id s.id (trim call.token) db).2 = .ok next ∧
      next.left + 1 = phase.left :=
    bot_goes hsmooth hheld.2 hheld.present htoken hbot hmine hstage
  obtain ⟨next, hnext, hleft⟩ := hgoes
  refine ⟨next, ?_, hleft⟩
  dsimp only [Phase.advance]
  rw [hnext]

lemma left_bound {own : Bool} {s : SetupResult} {next : BotPhase} :
    (Phase.bound own s (.ok next)).left call = next.left := by
  cases next <;> rfl

/-- The phases of a call that makes its storage. -/
def Phase.OnFresh (call : SetupCall) : Phase → Prop
  | .asking | .naming | .creating | .granting _ | .linking _ _ _ | .sharing _ | .answered (.ok _) => True
  | .finding again rest found => again = false ∧ rest = call.chatIds ∧ found = none
  | .binding own _ _ => own = true
  | _ => False

lemma fresh_advance {phase : Phase} (hkeyed : db₀.Keyed) (hready : Ready db₀ call) (hfresh : Fresh db₀ call)
    (h : phase.Stage db₀ call db) (hon : phase.OnFresh call) (hsmooth : a.Smooth db) :
    (phase.advance config a call db).2.OnFresh call ∧
      (phase.advance config a call db).2.left call ≤ phase.left call - 1 := by
  have hruns : ¬a.fails = true := Bool.eq_false_iff.mp hsmooth.runs
  cases phase with
  | asking =>
    obtain ⟨me, hme⟩ := hsmooth.me
    dsimp only [Phase.advance]
    rw [hme]
    refine ⟨⟨rfl, rfl, rfl⟩, ?_⟩
    dsimp only [Phase.left]
    omega
  | finding again rest found =>
    obtain ⟨rfl, rfl, rfl⟩ := hon
    obtain ⟨rfl, -, -⟩ := h
    cases hchats : call.chatIds with
    | nil => exact absurd hchats (SetupCall.chats_of_check hready.checked)
    | cons chatId rest =>
      have hnone : db.getByChatId chatId = none := by
        refine SetupDb.getByChatId_none fun c hc hchat => hfresh.chats c hc ?_
        rw [hchats, hchat]
        exact List.mem_cons_self
      dsimp only [Phase.advance]
      rw [if_neg hruns, hnone]
      refine ⟨trivial, ?_⟩
      dsimp only [Phase.notOwned, Phase.left]
      omega
  | naming =>
    obtain rfl : db = db₀ := h
    dsimp only [Phase.advance]
    rw [if_neg fun htaken => hfresh.name htaken.2]
    refine ⟨trivial, ?_⟩
    dsimp only [Phase.left]
    omega
  | creating =>
    dsimp only [Phase.advance]
    rw [if_neg (not_or.mpr ⟨hruns, hsmooth.newStorage⟩)]
    refine ⟨trivial, ?_⟩
    dsimp only [Phase.left]
    omega
  | granting id =>
    have hmade : Made db₀ db id [] := h
    have huser : db.roster.users.lookup call.user.id ≠ none := by
      rw [SetupDb.users_of_undone hmade.undone]
      exact hfresh.user
    dsimp only [Phase.advance]
    rw [if_neg hruns, Roster.grantForUserId, dif_pos huser, if_pos hmade.present]
    refine ⟨trivial, ?_⟩
    dsimp only [Phase.left]
    omega
  | linking id position rest =>
    obtain ⟨chats, hchats, rfl, hmade, -⟩ := h
    cases rest with
    | nil =>
      refine ⟨trivial, ?_⟩
      dsimp only [Phase.advance, Phase.left]
      exact Nat.le_refl _
    | cons chatId rest =>
      have hchat : chatId ∈ call.chatIds := hchats ▸ List.mem_append_right chats List.mem_cons_self
      have hnot : chatId ∉ chats := by
        have hdistinct := hfresh.distinct
        rw [← hchats] at hdistinct
        exact fun hin => (List.disjoint_of_nodup_append hdistinct) hin List.mem_cons_self
      obtain ⟨db', hinsert⟩ := hmade.links hnot
        (fun c hc hsame => hfresh.chats c hc (hsame ▸ hchat)) hsmooth.newChannel
      dsimp only [Phase.advance]
      rw [if_neg hruns, hinsert]
      refine ⟨trivial, ?_⟩
      dsimp only [Phase.left, List.length_cons]
      omega
  | sharing id =>
    dsimp only [Phase.advance]
    split
    · exact ⟨rfl, Nat.le_refl _⟩
    · split <;> exact ⟨rfl, Nat.le_refl _⟩
  | binding own s phase =>
    obtain rfl : own = true := hon
    obtain ⟨hheld, hstage⟩ := h
    have hnew : s.id ∉ db₀.ids := SetupDb.not_mem_of_undone hheld.1.undone
    obtain ⟨next, hnext, hleft⟩ := hheld.goes config hready
      (fun b row hrow hstored => hnew (hkeyed.bots b row s.id hrow hstored)) hstage hsmooth
    rw [hnext, left_bound]
    refine ⟨?_, ?_⟩
    · cases next <;> first | exact trivial | rfl
    · show next.left ≤ phase.left - 1
      omega
  | answered result => exact ⟨hon, Nat.zero_le _⟩
  | entitled _ _ => exact hon.elim
  | fetching _ _ => exact hon.elim
  | rollingBack _ _ => exact hon.elim
  | undoing _ _ => exact hon.elim

/-- The phases of a call that looks for the storage that is there. -/
def Phase.OnFind (call : SetupCall) (id : Uuid) : Phase → Prop
  | .asking => True
  | .finding again rest found => again = false ∧ (found = some id ∨ found = none ∧ rest = call.chatIds)
  | .entitled again id' | .fetching again id' => again = false ∧ id' = id
  | _ => False

lemma find_advance (config : Config) {phase : Phase} {id : Uuid} (hcheck : call.check = .ok ())
    (howned : Owned db₀ call id)
    (h : phase.Stage db₀ call db) (hon : phase.OnFind call id) (hsmooth : a.Smooth db) :
    ((phase.advance config a call db).2.OnFind call id ∨
        ∃ s, s.id = id ∧ (phase.advance config a call db).2 = .binding false s .access) ∧
      (phase.advance config a call db).2.left call ≤ phase.left call - 1 := by
  have hruns : ¬a.fails = true := Bool.eq_false_iff.mp hsmooth.runs
  cases phase with
  | asking =>
    obtain ⟨me, hme⟩ := hsmooth.me
    dsimp only [Phase.advance]
    rw [hme]
    refine ⟨.inl ⟨rfl, .inr ⟨rfl, rfl⟩⟩, ?_⟩
    dsimp only [Phase.left]
    omega
  | finding again rest found =>
    obtain ⟨rfl, hfound⟩ := hon
    obtain ⟨rfl, hrest, -⟩ := h
    cases rest with
    | nil =>
      rcases hfound with rfl | ⟨rfl, hall⟩
      · refine ⟨.inl ⟨rfl, rfl⟩, ?_⟩
        dsimp only [Phase.advance, Phase.left]
        omega
      · exact absurd hall.symm (SetupCall.chats_of_check hcheck)
    | cons chatId rest =>
      have hchat : chatId ∈ call.chatIds := hrest.subset List.mem_cons_self
      obtain ⟨c, hc, rfl⟩ := howned.linked chatId hchat
      cases hch : db.getByChatId c.chatId with
      | none => exact absurd (decide_eq_true rfl) (List.find?_eq_none.mp hch c hc)
      | some ch =>
        obtain ⟨hmem, hsame⟩ := SetupDb.getByChatId_some hch
        have hid : ch.storageId = id := howned.alone ch hmem (hsame ▸ hchat)
        have hagrees : ¬∃ id' ∈ found, id' ≠ ch.storageId := by
          rintro ⟨id', hid', hne⟩
          rcases hfound with rfl | ⟨rfl, -⟩
          · exact hne ((Option.some.inj hid').symm.trans hid.symm)
          · exact nomatch hid'
        dsimp only [Phase.advance]
        rw [if_neg hruns, hch]
        dsimp only
        rw [if_neg hagrees]
        refine ⟨.inl ⟨rfl, .inl (congrArg some hid)⟩, ?_⟩
        dsimp only [Phase.left, List.length_cons]
        omega
  | entitled again id' =>
    obtain ⟨rfl, rfl⟩ := hon
    obtain ⟨rfl, -⟩ := h
    dsimp only [Phase.advance]
    rw [if_neg (not_or.mpr ⟨hruns, not_not.mpr howned.admin⟩)]
    exact ⟨.inl ⟨rfl, rfl⟩, Nat.le_refl _⟩
  | fetching again id' =>
    obtain ⟨rfl, rfl⟩ := hon
    obtain ⟨rfl, -⟩ := h
    dsimp only [Phase.advance]
    rw [if_neg hruns, if_neg (not_not.mpr howned.present)]
    exact ⟨.inr ⟨_, rfl, rfl⟩, Nat.le_refl _⟩
  | naming => exact hon.elim
  | creating => exact hon.elim
  | granting _ => exact hon.elim
  | linking _ _ _ => exact hon.elim
  | sharing _ => exact hon.elim
  | rollingBack _ _ => exact hon.elim
  | binding _ _ _ => exact hon.elim
  | undoing _ _ => exact hon.elim
  | answered _ => exact hon.elim

/-- The phases of a call that finishes the storage it found. -/
def Phase.OnAdopt (call : SetupCall) (id : Uuid) (phase : Phase) : Prop :=
  phase.OnFind call id ∨ (∃ s bot, phase = .binding false s bot ∧ s.id = id) ∨ ∃ s, phase = .answered (.ok s)

lemma adopt_advance {phase : Phase} {id : Uuid} (hkeyed : db₀.Keyed) (hready : Ready db₀ call)
    (hhalf : HalfBuilt db₀ call id) (h : phase.Stage db₀ call db) (hon : phase.OnAdopt call id)
    (hsmooth : a.Smooth db) :
    (phase.advance config a call db).2.OnAdopt call id ∧
      (phase.advance config a call db).2.left call ≤ phase.left call - 1 := by
  rcases hon with hfind | ⟨s, bot, rfl, rfl⟩ | ⟨s, rfl⟩
  · obtain ⟨hnext, hleft⟩ := find_advance config hready.checked (hhalf.owned hkeyed) h hfind hsmooth
    refine ⟨hnext.imp_right fun ⟨s, hid, hbinding⟩ => .inl ⟨s, .access, hbinding, hid⟩, hleft⟩
  · obtain ⟨next, hnext, hleft⟩ := h.1.goes config hready hhalf.noBot h.2 hsmooth
    rw [hnext, left_bound]
    refine ⟨?_, ?_⟩
    · cases next <;> first | exact .inr (.inr ⟨s, rfl⟩) | exact .inr (.inl ⟨s, _, rfl, rfl⟩)
    · show next.left ≤ bot.left - 1
      omega
  · exact ⟨.inr (.inr ⟨s, rfl⟩), Nat.zero_le _⟩

/-- The storage is there with its bot, which has the token of the call. -/
structure Kept (db : SetupDb) (call : SetupCall) (id : Uuid) : Prop extends Owned db call id where
  bot : ∃ e, db.getByStorageId id = some e ∧ e.2.token = trim call.token

lemma Served.kept {id : Uuid} (h : Served db₀ db call id) (howned : Owned db call id) : Kept db call id := by
  obtain ⟨b, row, hrow, hstored, htoken, honly⟩ := h.bot
  refine ⟨howned, ?_⟩
  cases hbot : db.getByStorageId id with
  | none => exact absurd hstored (BotDb.getByStorageId_none hbot hrow)
  | some e =>
    obtain ⟨hrow', hstored'⟩ := BotDb.getByStorageId_some hbot
    obtain rfl := honly e.1 e.2 hrow' hstored'
    obtain rfl := Option.some.inj (hrow.symm.trans hrow')
    exact ⟨e, rfl, htoken⟩

/-- The phases of a call that finds its storage with the bot. -/
def Phase.OnRepeat (call : SetupCall) (id : Uuid) (phase : Phase) : Prop :=
  phase.OnFind call id ∨
    (∃ s bot, phase = .binding false s bot ∧ s.id = id ∧ (bot = .access ∨ bot = .storage ∨ bot = .firstBot)) ∨
    phase = .answered (.error (.bot .botTokenUnchanged))

lemma repeat_advance {phase : Phase} {id : Uuid} (hcheck : call.check = .ok ()) (htoken : ':' ∈ trim call.token)
    (hkept : Kept db₀ call id) (h : phase.Stage db₀ call db) (hon : phase.OnRepeat call id)
    (hsmooth : a.Smooth db) :
    (phase.advance config a call db).2.OnRepeat call id ∧
      (phase.advance config a call db).2.left call ≤ phase.left call - 1 := by
  have hruns : ¬a.fails = true := Bool.eq_false_iff.mp hsmooth.runs
  have htext : trim (trim call.token) = trim call.token := trim_trim call.token
  rcases hon with hfind | ⟨s, bot, rfl, rfl, hbot⟩ | rfl
  · obtain ⟨hnext, hleft⟩ := find_advance config hcheck hkept.toOwned h hfind hsmooth
    refine ⟨hnext.imp_right fun ⟨s, hid, hbinding⟩ => .inl ⟨s, .access, hbinding, hid, .inl rfl⟩, hleft⟩
  · obtain rfl : db = db₀ := h.1.1.1
    rcases hbot with rfl | rfl | rfl
    · dsimp only [Phase.advance, BotPhase.advance, Roster.checkAccess]
      rw [if_neg hruns, if_pos hkept.admin]
      exact ⟨.inr (.inl ⟨s, .storage, rfl, rfl, .inr (.inl rfl)⟩), Nat.le_refl _⟩
    · have hform : ¬(trim (trim call.token) = [] ∨ ':' ∉ trim (trim call.token)) := by
        rw [htext]
        exact not_or.mpr ⟨List.ne_nil_of_mem htoken, not_not.mpr htoken⟩
      dsimp only [Phase.advance, BotPhase.advance]
      rw [if_neg hruns, if_neg (not_not.mpr hkept.present), if_neg hform]
      exact ⟨.inr (.inl ⟨s, .firstBot, rfl, rfl, .inr (.inr rfl)⟩), Nat.le_refl _⟩
    · obtain ⟨e, hstored, hsame⟩ := hkept.bot
      dsimp only [Phase.advance, BotPhase.advance]
      rw [if_neg hruns, if_pos ⟨e, hstored, hsame.trans htext.symm⟩]
      exact ⟨.inr (.inr rfl), Nat.zero_le _⟩
  · exact ⟨.inr (.inr rfl), Nat.zero_le _⟩

/-! ## A call from its start to its answer -/

variable {as : List Answer}

lemma start_of_check (h : call.check = .ok ()) : call.start = .asking := by
  unfold SetupCall.start
  rw [h]

lemma stage_start : call.start.Stage db call db := by
  unfold SetupCall.start
  split <;> rfl

lemma stage_run (hkeyed : db₀.Keyed)
    (hok : AllOk (serve config call) (fun x a => x.2.Undoes a) (db₀, call.start) as) :
    (run (serve config call) (db₀, call.start) as).2.Stage db₀ call
      (run (serve config call) (db₀, call.start) as).1 :=
  (always_of_allOk (P := fun x => x.2.Stage db₀ call x.1) (fun _ _ h hundoes => stage_advance hkeyed h hundoes)
    stage_start hok).last

lemma answered_of_left {phase : Phase} (h : phase.Stage db₀ call db) (hleft : phase.left call = 0) :
    (∃ result, phase = .answered result) ∨ (∃ id e, phase = .rollingBack id e) ∨
      ∃ id e, phase = .undoing id e := by
  cases phase with
  | answered result => exact .inl ⟨result, rfl⟩
  | rollingBack id e => exact .inr (.inl ⟨id, e, rfl⟩)
  | undoing id e => exact .inr (.inr ⟨id, e, rfl⟩)
  | binding own s phase =>
    cases phase with
    | installed => exact h.2.elim
    | _ => exact nomatch hleft
  | _ => exact absurd hleft (by dsimp only [Phase.left]; omega)

lemma run_way (on : Phase → Prop)
    (hway : ∀ (db : SetupDb) (phase : Phase) (a : Answer), phase.Stage db₀ call db → on phase → a.Smooth db →
      on (phase.advance config a call db).2 ∧
        (phase.advance config a call db).2.left call ≤ phase.left call - 1)
    (hback : ∀ id e, ¬on (.rollingBack id e)) (hundo : ∀ id e, ¬on (.undoing id e)) (hkeyed : db₀.Keyed)
    (hcheck : call.check = .ok ()) (hon : on .asking)
    (hok : AllOk (serve config call) (fun x a => a.Smooth x.1) (db₀, call.start) as)
    (hlen : call.steps ≤ as.length) :
    ∃ result, (run (serve config call) (db₀, call.start) as).2 = .answered result ∧ on (.answered result) := by
  rw [start_of_check hcheck] at hok ⊢
  obtain ⟨⟨hstage, hon⟩, hleft⟩ := run_settles (P := fun x => x.2.Stage db₀ call x.1 ∧ on x.2)
    (m := fun x : SetupDb × Phase => x.2.left call)
    (fun x a h hsmooth =>
      have hnext := hway x.1 x.2 a h.1 h.2 hsmooth
      ⟨⟨stage_advance hkeyed h.1 (hsmooth.undoes _), hnext.1⟩, hnext.2⟩)
    ⟨rfl, hon⟩ hok hlen
  rcases answered_of_left hstage hleft with ⟨result, hphase⟩ | ⟨id, e, hphase⟩ | ⟨id, e, hphase⟩
  · exact ⟨result, hphase, hphase ▸ hon⟩
  · exact absurd (hphase ▸ hon) (hback id e)
  · exact absurd (hphase ▸ hon) (hundo id e)

lemma answers_ok (hkeyed : db₀.Keyed) (hready : Ready db₀ call)
    (hok : AllOk (serve config call) (fun x a => a.Smooth x.1) (db₀, call.start) as)
    (hlen : call.steps ≤ as.length) :
    ∃ s, (run (serve config call) (db₀, call.start) as).2 = .answered (.ok s) := by
  rcases hready.storage with hfresh | ⟨id, hhalf⟩
  · obtain ⟨result, hphase, hon⟩ := run_way (Phase.OnFresh call)
      (fun db phase a h hon hsmooth => fresh_advance hkeyed hready hfresh h hon hsmooth)
      (fun _ _ h => h) (fun _ _ h => h) hkeyed hready.checked trivial hok hlen
    cases result with
    | ok s => exact ⟨s, hphase⟩
    | error e => exact hon.elim
  · obtain ⟨result, hphase, hon⟩ := run_way (Phase.OnAdopt call id)
      (fun db phase a h hon hsmooth => adopt_advance hkeyed hready hhalf h hon hsmooth)
      (by rintro _ _ (h | ⟨_, _, h, _⟩ | ⟨_, h⟩) <;> cases h)
      (by rintro _ _ (h | ⟨_, _, h, _⟩ | ⟨_, h⟩) <;> cases h) hkeyed hready.checked (.inl trivial) hok hlen
    rcases hon with hfind | ⟨s, bot, heq, -⟩ | ⟨s, heq⟩
    · exact hfind.elim
    · cases heq
    · exact ⟨s, hphase.trans heq⟩

lemma answers_unchanged {id : Uuid} (hkeyed : db₀.Keyed) (hcheck : call.check = .ok ())
    (htoken : ':' ∈ trim call.token) (hkept : Kept db₀ call id)
    (hok : AllOk (serve config call) (fun x a => a.Smooth x.1) (db₀, call.start) as)
    (hlen : call.steps ≤ as.length) :
    (run (serve config call) (db₀, call.start) as).2 = .answered (.error (.bot .botTokenUnchanged)) := by
  obtain ⟨result, hphase, hon⟩ := run_way (Phase.OnRepeat call id)
    (fun db phase a h hon hsmooth => repeat_advance hcheck htoken hkept h hon hsmooth)
    (by rintro _ _ (h | ⟨_, _, h, _⟩ | h) <;> cases h)
    (by rintro _ _ (h | ⟨_, _, h, _⟩ | h) <;> cases h) hkeyed hcheck (.inl trivial) hok hlen
  rcases hon with hfind | ⟨s, bot, heq, -⟩ | heq
  · exact hfind.elim
  · cases heq
  · exact hphase.trans heq

/-! ## In the system -/

namespace SetupState

/-- A call that is made now and that no other call interrupts. -/
def solo (σ : SetupState) (call : SetupCall) (as : List Answer) : List Act :=
  .request call :: as.map (.advance σ.jobs.length)

def after (config : Config) (σ : SetupState) (call : SetupCall) (as : List Answer) : SetupState :=
  run (step config) σ (σ.solo call as)

def Answers (σ : SetupState) (number : Nat) (result : Except SetupError SetupResult) : Prop :=
  (σ.jobs[number]?).map Job.phase = some (.answered result)

def Smooth (σ : SetupState) : Act → Prop
  | .request _ => True
  | .advance _ a => a.Smooth σ.db

/-- The tables and the call of a number, as the call on its own has them. -/
def At (number : Nat) (call : SetupCall) (σ : SetupState) (x : SetupDb × Phase) : Prop :=
  σ.db = x.1 ∧ σ.jobs[number]? = some ⟨call, x.2⟩

variable {σ : SetupState} {number : Nat} {x : SetupDb × Phase}

lemma At.step (h : At number call σ x) :
    At number call (σ.step config (.advance number a)) (serve config call x a) := by
  obtain ⟨hdb, hjob⟩ := h
  unfold SetupState.step
  dsimp only
  rw [hjob, hdb]
  refine ⟨rfl, ?_⟩
  rw [getElem?_put hjob, if_pos rfl]
  rfl

lemma at_request : At σ.jobs.length call (σ.step config (.request call)) (σ.db, call.start) :=
  ⟨rfl, List.getElem?_concat_length⟩

lemma at_after :
    At σ.jobs.length call (σ.after config call as) (run (serve config call) (σ.db, call.start) as) :=
  run_simulates (fun _ _ _ h => h.step) at_request as

lemma allOk_undoes (h : AllOk (step config) Undoes σ (σ.solo call as)) :
    AllOk (serve config call) (fun x a => x.2.Undoes a) (σ.db, call.start) as :=
  allOk_simulates (fun _ _ _ h => h.step) (fun _ _ _ hat hundoes => hundoes _ hat.2) at_request h.2

lemma allOk_smooth (h : AllOk (step config) Smooth σ (σ.solo call as)) :
    AllOk (serve config call) (fun x a => a.Smooth x.1) (σ.db, call.start) as :=
  allOk_simulates (fun _ _ _ h => h.step) (fun _ _ _ hat hsmooth => hat.1 ▸ hsmooth) at_request h.2

lemma answers_iff {result : Except SetupError SetupResult} :
    (σ.after config call as).Answers σ.jobs.length result ↔
      (run (serve config call) (σ.db, call.start) as).2 = .answered result := by
  unfold Answers
  rw [at_after.2, Option.map_some, Option.some_inj]

lemma keyed_run {acts : List Act} (h : σ.db.Keyed) : (run (step config) σ acts).db.Keyed := by
  refine run_invariant (I := fun σ : SetupState => σ.db.Keyed) (fun σ act h => ?_) h acts
  cases act with
  | request call => exact h
  | advance number a =>
    unfold SetupState.step
    dsimp only
    split
    · exact h
    · exact keyed_advance h

end SetupState

def SetupCall.named (call : SetupCall) (name : List Char) : SetupCall :=
  { call with name := name }

/-- What repeating a call comes to, when no other call makes a step meanwhile. -/
structure Retriable (config : Config) (σ : SetupState) (call : SetupCall) : Prop where
  /-- A call that fails leaves the tables as they were. -/
  nothingLeft : ∀ as e, AllOk (SetupState.step config) SetupState.Undoes σ (σ.solo call as) →
    (σ.after config call as).Answers σ.jobs.length (.error e) → (σ.after config call as).db = σ.db
  /-- A call that nothing hinders makes or finishes its storage. -/
  serves : Ready σ.db call → ∀ as, AllOk (SetupState.step config) SetupState.Smooth σ (σ.solo call as) →
    call.steps ≤ as.length →
      ∃ s, (σ.after config call as).Answers σ.jobs.length (.ok s) ∧
        Served σ.db (σ.after config call as).db call s.id
  /-- So does any that could before, when the call failed. -/
  again : ∀ call', Ready σ.db call' → ∀ σ' first e, σ' = σ.after config call first →
    AllOk (SetupState.step config) SetupState.Undoes σ (σ.solo call first) →
      σ'.Answers σ.jobs.length (.error e) →
        ∀ as, AllOk (SetupState.step config) SetupState.Smooth σ' (σ'.solo call' as) → call'.steps ≤ as.length →
          ∃ s, (σ'.after config call' as).Answers σ'.jobs.length (.ok s) ∧
            Served σ.db (σ'.after config call' as).db call' s.id
  /-- And the call made again under any name, when it was cut off behind its channels. -/
  cutOff : Ready σ.db call → ∀ first own s phase name, trim name ≠ [] →
    AllOk (SetupState.step config) SetupState.Undoes σ (σ.solo call first) →
      ((σ.after config call first).jobs[σ.jobs.length]?).map Job.phase = some (.binding own s phase) →
        Ready (σ.after config call first).db (call.named name)
  /-- A call whose `Ok` was lost has served; made again under any name, it answers that the token is unchanged,
      and changes nothing. -/
  lost : Ready σ.db call → ∀ σ' first s, σ' = σ.after config call first →
    AllOk (SetupState.step config) SetupState.Undoes σ (σ.solo call first) →
      σ'.Answers σ.jobs.length (.ok s) → Served σ.db σ'.db call s.id ∧
        ∀ name as, trim name ≠ [] →
          AllOk (SetupState.step config) SetupState.Smooth σ' (σ'.solo (call.named name) as) →
            call.steps ≤ as.length →
              (σ'.after config (call.named name) as).Answers σ'.jobs.length (.error (.bot .botTokenUnchanged)) ∧
                (σ'.after config (call.named name) as).db = σ'.db

section Repeat

variable {σ : SetupState}

lemma stage_after (hkeyed : σ.db.Keyed)
    (hok : AllOk (SetupState.step config) SetupState.Undoes σ (σ.solo call as)) :
    (run (serve config call) (σ.db, call.start) as).2.Stage σ.db call (σ.after config call as).db := by
  rw [SetupState.at_after.1]
  exact stage_run hkeyed (SetupState.allOk_undoes hok)

lemma undoes_of_smooth (hok : AllOk (SetupState.step config) SetupState.Smooth σ (σ.solo call as)) :
    AllOk (SetupState.step config) SetupState.Undoes σ (σ.solo call as) := by
  refine hok.mono fun σ act hsmooth => ?_
  cases act with
  | request call => trivial
  | advance number a => exact fun job _ => Answer.Smooth.undoes hsmooth job.phase

lemma db_of_error {e : SetupError} (hkeyed : σ.db.Keyed)
    (hok : AllOk (SetupState.step config) SetupState.Undoes σ (σ.solo call as))
    (hanswer : (σ.after config call as).Answers σ.jobs.length (.error e)) :
    (σ.after config call as).db = σ.db := by
  have hstage := stage_after hkeyed hok
  rw [SetupState.answers_iff.mp hanswer] at hstage
  exact hstage

lemma served_of_ok {s : SetupResult} (hkeyed : σ.db.Keyed) (hready : Ready σ.db call)
    (hok : AllOk (SetupState.step config) SetupState.Undoes σ (σ.solo call as))
    (hanswer : (σ.after config call as).Answers σ.jobs.length (.ok s)) :
    Served σ.db (σ.after config call as).db call s.id ∧ Owned (σ.after config call as).db call s.id := by
  have hstage := stage_after hkeyed hok
  rw [SetupState.answers_iff.mp hanswer] at hstage
  obtain ⟨own, mid, bot, hheld, hbound⟩ := hstage
  exact hbound.served hkeyed hready hheld

lemma serves_of_ready (hkeyed : σ.db.Keyed) (hready : Ready σ.db call)
    (hok : AllOk (SetupState.step config) SetupState.Smooth σ (σ.solo call as))
    (hlen : call.steps ≤ as.length) :
    ∃ s, (σ.after config call as).Answers σ.jobs.length (.ok s) ∧
      Served σ.db (σ.after config call as).db call s.id := by
  obtain ⟨s, hphase⟩ := answers_ok hkeyed hready (SetupState.allOk_smooth hok) hlen
  have hanswer := SetupState.answers_iff.mpr hphase
  exact ⟨s, hanswer, (served_of_ok hkeyed hready (undoes_of_smooth hok) hanswer).1⟩

lemma SetupCall.check_named {name : List Char} (h : call.check = .ok ()) (hname : trim name ≠ []) :
    (call.named name).check = .ok () := by
  unfold SetupCall.check at h
  split at h
  · cases h
  · exact (if_neg hname).trans h

lemma ready_of_binding {own : Bool} {s : SetupResult} {phase : BotPhase} {name : List Char} (hkeyed : db₀.Keyed)
    (hready : Ready db₀ call) (hname : trim name ≠ []) (h : (Phase.binding own s phase).Stage db₀ call db) :
    Ready db (call.named name) := by
  obtain ⟨hheld, -⟩ := h
  have hbots := hheld.bots
  refine ⟨SetupCall.check_named hready.checked hname, hready.token, hbots ▸ hready.mine, .inr ⟨s.id, ?_⟩⟩
  obtain ⟨hlinked, -⟩ := hheld.chats hkeyed hready
  refine ⟨hheld.present, hheld.2, hlinked, fun b row hrow hstored => ?_⟩
  rw [hbots] at hrow
  cases own with
  | true => exact SetupDb.not_mem_of_undone hheld.1.undone (hkeyed.bots b row s.id hrow hstored)
  | false =>
    obtain ⟨-, -, c, hc, hchat, hid⟩ := hheld.1
    rcases hready.storage with hfresh | ⟨id, hhalf⟩
    · exact hfresh.chats c hc hchat
    · rw [← hid, hhalf.alone hkeyed hc hchat] at hstored
      exact hhalf.noBot b row hrow hstored

lemma retriable (hkeyed : σ.db.Keyed) : Retriable config σ call where
  nothingLeft as e hok hanswer := db_of_error hkeyed hok hanswer
  serves hready as hok hlen := serves_of_ready hkeyed hready hok hlen
  again call' hready σ' first e hσ' hfirst hanswer as hok hlen := by
    subst hσ'
    have hdb := db_of_error hkeyed hfirst hanswer
    have hserves := serves_of_ready (hdb.symm ▸ hkeyed) (hdb.symm ▸ hready) hok hlen
    rw [hdb] at hserves
    exact hserves
  cutOff hready first own s phase name hname hok hphase := by
    have hstage := stage_after hkeyed hok
    rw [SetupState.at_after.2] at hphase
    have hbinding : (run (serve config call) (σ.db, call.start) first).2 = .binding own s phase :=
      Option.some.inj hphase
    rw [hbinding] at hstage
    exact ready_of_binding hkeyed hready hname hstage
  lost hready σ' first s hσ' hfirst hanswer := by
    subst hσ'
    obtain ⟨hserved, howned⟩ := served_of_ok hkeyed hready hfirst hanswer
    refine ⟨hserved, fun name as hname hok hlen => ?_⟩
    have hkeyed' : (σ.after config call first).db.Keyed := SetupState.keyed_run hkeyed
    have hkept := hserved.kept howned
    have hphase := answers_unchanged hkeyed' (SetupCall.check_named hready.checked hname) hready.token
      ⟨⟨hkept.present, hkept.admin, hkept.linked, hkept.alone⟩, hkept.bot⟩ (SetupState.allOk_smooth hok) hlen
    have hanswer' := SetupState.answers_iff.mpr hphase
    exact ⟨hanswer', db_of_error hkeyed' (undoes_of_smooth hok) hanswer'⟩

end Repeat

/-! ## Two storages of one user -/

instance Answer.Smooth.decidable (a : Answer) (db : SetupDb) : Decidable (a.Smooth db) :=
  decidable_of_iff (a.fails = false ∧ a.getMe.isOk = true ∧ a.newId ∉ db.ids ∧ a.newId ∉ db.bots ∧
      ∀ c ∈ db.channels, c.id ≠ a.newId)
    ⟨fun ⟨h₁, h₂, h₃, h₄, h₅⟩ => ⟨h₁, h₂, h₃, h₄, h₅⟩, fun ⟨h₁, h₂, h₃, h₄, h₅⟩ => ⟨h₁, h₂, h₃, h₄, h₅⟩⟩

instance Phase.Undoes.decidable (a : Answer) : (phase : Phase) → Decidable (phase.Undoes a)
  | .rollingBack _ _ | .undoing _ _ => inferInstanceAs (Decidable (a.fails = false))
  | .asking | .finding _ _ _ | .entitled _ _ | .fetching _ _ | .naming | .creating | .granting _
  | .linking _ _ _ | .sharing _ | .binding _ _ _ | .answered _ => inferInstanceAs (Decidable True)

namespace SetupState

instance Undoes.decidable (σ : SetupState) : (act : Act) → Decidable (σ.Undoes act)
  | .request _ => inferInstanceAs (Decidable True)
  | .advance number a => decideMem σ.jobs[number]? fun job => job.phase.Undoes a

instance Smooth.decidable (σ : SetupState) : (act : Act) → Decidable (σ.Smooth act)
  | .request _ => inferInstanceAs (Decidable True)
  | .advance _ a => inferInstanceAs (Decidable (a.Smooth σ.db))

instance Answers.decidable (σ : SetupState) (number : Nat) (result : Except SetupError SetupResult) :
    Decidable (σ.Answers number result) :=
  inferInstanceAs (Decidable (_ = _))

end SetupState

def emptyDb : SetupDb where
  storages := []
  roster := Roster.empty.register ['u']
  bots := ∅
  channels := []
  replicas := []
  names := ∅

lemma keyed_emptyDb : emptyDb.Keyed where
  channels _ hc := absurd hc List.not_mem_nil
  chats _ hc := absurd hc List.not_mem_nil
  replicas _ hr := absurd hr List.not_mem_nil
  bots b _ _ hrow := nomatch (AList.lookup_empty b).symm.trans hrow
  access userId id hlevel := absurd (AList.lookup_empty (userId, id)) hlevel
  names id hid := absurd hid (AList.notMem_empty id)

def oneUser : Config :=
  ⟨['r'], fun _ => "00000001".toList⟩

/-- The user sets up one storage, and another one with the same bot. -/
def firstCall : SetupCall :=
  ⟨⟨1, ['u']⟩, ['a'], "1:t".toList, [-100]⟩

def secondCall : SetupCall :=
  ⟨⟨1, ['u']⟩, ['b'], "1:t".toList, [-200]⟩

def smoothAnswers (start : Nat) : List Answer :=
  (List.range 20).map fun n => ⟨false, .ok ⟨7, "bot".toList⟩, start + n⟩

/-- Telegram does not know the token any more when it comes to the bot. -/
def brokenAnswers (start : Nat) : List Answer :=
  (List.range 20).map fun n => ⟨false, if n = 0 then .ok ⟨7, "bot".toList⟩ else .error "timeout", start + n⟩

lemma ready_emptyDb : Ready emptyDb firstCall where
  checked := by decide
  token := by decide
  mine b _ hrow := nomatch (AList.lookup_empty b).symm.trans hrow
  storage := .inl
    { name := by decide
      user := by decide
      chats := fun _ hc => absurd hc List.not_mem_nil
      distinct := by decide }

def afterFirst : SetupState :=
  (SetupState.init emptyDb).after oneUser firstCall (smoothAnswers 100)

def afterSecond : SetupState :=
  afterFirst.after oneUser secondCall (smoothAnswers 200)

/-- No call does harm to another where a rollback deletes its storage and nobody takes up what is not finished;
    and a call that is made again has the storage in the end. -/
theorem setup_retried (config : Config) :
    (∀ db acts, AllOk (SetupState.step config) (fun σ act => σ.Undoes act ∧ σ.Waits act) (.init db) acts →
      Always (SetupState.step config) (SetupState.Safe (.init db)) (.init db) acts) ∧
    ∀ (σ : SetupState) (call : SetupCall), σ.db.Keyed → Retriable config σ call :=
  ⟨fun _ _ hok => safe_run hok, fun _ _ hkeyed => retriable hkeyed⟩

/-- The bot of the first attempt fails, and the second one serves. -/
theorem setup_retried_first : ∃ σ' s,
    σ' = (SetupState.init emptyDb).after oneUser firstCall (brokenAnswers 100) ∧
    σ'.Answers 0 (.error (.bot (.telegramAPIError "timeout"))) ∧
    (σ'.after oneUser firstCall (smoothAnswers 200)).Answers 1 (.ok s) ∧
    Served emptyDb (σ'.after oneUser firstCall (smoothAnswers 200)).db firstCall s.id := by
  have hretriable := (setup_retried oneUser).2 (.init emptyDb) firstCall keyed_emptyDb
  have hfailed : ((SetupState.init emptyDb).after oneUser firstCall (brokenAnswers 100)).Answers 0
      (.error (.bot (.telegramAPIError "timeout"))) := by decide +kernel
  obtain ⟨s, hok, hserved⟩ := hretriable.again firstCall ready_emptyDb _ (brokenAnswers 100) _ rfl
    (by decide +kernel) hfailed (smoothAnswers 200) (by decide +kernel) (by decide)
  exact ⟨_, s, rfl, hfailed, hok, hserved⟩

/-- The second storage gets the bot of the first, which has none then, and the call made again does not end
    `Ok`. -/
theorem bot_moves :
    (¬ ∀ (config : Config) (σ : SetupState) (call : SetupCall) (as : List Answer) (id : Uuid), σ.db.Keyed →
      AllOk (SetupState.step config) SetupState.Smooth σ (σ.solo call as) → call.steps ≤ as.length →
        (σ.db.getByStorageId id).isSome → ((σ.after config call as).db.getByStorageId id).isSome) ∧
    ¬ ∀ (config : Config) (σ : SetupState) (call : SetupCall) (as again : List Answer), σ.db.Keyed →
      AllOk (SetupState.step config) SetupState.Smooth σ (σ.solo call as) → call.steps ≤ as.length →
        ∀ σ', σ' = σ.after config call as →
          AllOk (SetupState.step config) SetupState.Smooth σ' (σ'.solo call again) → call.steps ≤ again.length →
            ∃ s, (σ'.after config call again).Answers σ'.jobs.length (.ok s) := by
  have hkeyed : afterFirst.db.Keyed := SetupState.keyed_run keyed_emptyDb
  have hsmooth : AllOk (SetupState.step oneUser) SetupState.Smooth afterFirst
      (afterFirst.solo secondCall (smoothAnswers 200)) := by decide +kernel
  constructor
  · intro h
    have hkept := h oneUser afterFirst secondCall (smoothAnswers 200) 103 hkeyed hsmooth (by decide)
      (by decide +kernel)
    exact absurd hkept (by decide +kernel)
  · intro h
    obtain ⟨s, hok⟩ := h oneUser afterFirst secondCall (smoothAnswers 200) (smoothAnswers 300) hkeyed hsmooth
      (by decide) afterSecond rfl (by decide +kernel) (by decide)
    have herror : (afterSecond.after oneUser secondCall (smoothAnswers 300)).Answers afterSecond.jobs.length
        (.error (.bot .botTokenUnchanged)) := by decide +kernel
    exact nomatch hok.symm.trans herror

end Sarca.Server.Setup
