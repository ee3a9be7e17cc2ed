import Sarca.Lib.Text

/-!
# Finding the channels of a bot

`validate_bot` and `poll_channel` of the setup wizard read the bot's pending updates page by page, and asking
for the next page confirms the one before. `Telegram` is the queue of what is not confirmed, in the order of
the ids, with what the requests for pages meet; `BotAnswers` is what the other calls to the Bot API answer.

A mention of a chat is `Kept` when the wizard gets the chat, or the update is still pending, or the chat is one
that the wizard passes over (`discovery_keeps`). A call that fails behind the first page has no answer, and
what it confirmed is gone (`discovery_drops`).
-/

namespace Sarca.Server.Discovery
open Sarca.Lib

abbrev ChatId := Int

/-! ## Updates -/

/-- Rust `UpdateChatSchema`. -/
structure UpdateChat where
  id : ChatId
  title : Option String
  username : Option String
  firstName : Option String
  chatType : Option String
deriving DecidableEq, Repr

/-- Rust `ForwardOriginSchema`. -/
structure ForwardOrigin where
  originType : Option String
  chat : Option UpdateChat
deriving DecidableEq, Repr

/-- Rust `MessageChatSchema`. -/
structure MessageChat where
  chat : UpdateChat
  forwardFromChat : Option UpdateChat
  forwardOrigin : Option ForwardOrigin
deriving DecidableEq, Repr

/-- Rust `ChatMemberUpdateSchema`, with the status of the new member. -/
structure ChatMemberUpdate where
  chat : UpdateChat
  newChatMember : Option (Option String)
deriving DecidableEq, Repr

/-- Rust `UpdateSchema`. -/
structure Update where
  updateId : Int
  channelPost : Option MessageChat
  myChatMember : Option ChatMemberUpdate
  message : Option MessageChat
deriving DecidableEq, Repr

structure DetectedChat where
  chatId : ChatId
  title : String
deriving DecidableEq, Repr

/-- The chat of a promotion, or of a payload without a status. -/
def ChatMemberUpdate.chats (member : ChatMemberUpdate) : List UpdateChat :=
  match member.newChatMember.bind id with
  | some status => if status = "administrator" ∨ status = "creator" then [member.chat] else []
  | none => [member.chat]

/-- The group of a message, and the channel it is forwarded from. -/
def MessageChat.chats (msg : MessageChat) : List UpdateChat :=
  let t := msg.chat.chatType.getD ""
  (if t = "group" ∨ t = "supergroup" ∨ t = "channel" then [msg.chat] else []) ++
    (msg.forwardFromChat.toList.filter fun fwd => fwd.chatType = some "channel" ∨ fwd.id < 0) ++
    msg.forwardOrigin.toList.flatMap fun origin =>
      origin.chat.toList.filter fun chat =>
        origin.originType = some "channel" ∨ chat.chatType = some "channel" ∨ chat.id < 0

def Update.chats (u : Update) : List UpdateChat :=
  (u.channelPost.toList.map fun post => post.chat) ++ u.myChatMember.toList.flatMap ChatMemberUpdate.chats ++
    u.message.toList.flatMap MessageChat.chats

def UpdateChat.detected (chat : UpdateChat) : DetectedChat where
  chatId := chat.id
  title := ((chat.title.or chat.username).or chat.firstName).getD (toString chat.id)

/-- `seen.insert(chat.chat_id)`, and `push`. -/
def insertChat (all : List DetectedChat) (chat : DetectedChat) : List DetectedChat :=
  if all.any fun c => c.chatId = chat.chatId then all else all ++ [chat]

def pushDetected (out : List DetectedChat) (chat : UpdateChat) : List DetectedChat :=
  insertChat out chat.detected

def chatsFromUpdates (result : List Update) : List DetectedChat :=
  (result.flatMap Update.chats).foldl pushDetected []

/-! ## The Bot API -/

/-- What a request for a page meets: the first updates that are pending, or a failure, before or after the
    request has reached the Bot API. -/
inductive PageAnswer where
  | page (count : Nat)
  | conflict (reached : Bool)
  | failed (reached : Bool)
deriving DecidableEq, Repr

def PageAnswer.reached : PageAnswer → Bool
  | .page _ => true
  | .conflict reached | .failed reached => reached

structure Telegram where
  pending : List Update
  sorted : pending.Pairwise fun u v => u.updateId < v.updateId
  answers : List PageAnswer

/-- The updates before the offset are confirmed, and dropped. -/
def Telegram.confirm (σ : Telegram) (offset : Option Int) : Telegram where
  pending := σ.pending.filter fun u => offset.all (· ≤ u.updateId)
  sorted := σ.sorted.filter _
  answers := σ.answers

/-- One `getUpdates` request; `none` where no answer comes. -/
def Telegram.request (σ : Telegram) (offset : Option Int) : Option PageAnswer × Telegram :=
  match σ.answers with
  | [] => (none, σ)
  | answer :: answers =>
    (some answer, { (if answer.reached then σ.confirm offset else σ) with answers := answers })

/-- The chats of a page, and the offset that confirms it. -/
def pageOf (result : List Update) : List DetectedChat × Option Int :=
  if result = [] then ([], none)
  else (chatsFromUpdates result, (result.map Update.updateId).max?.map (· + 1))

/-- Rust `get_updates_page`, which retries once on a `409`. -/
def getUpdatesPage (offset : Option Int) (σ : Telegram) :
    Option (List DetectedChat × Option Int) × Telegram :=
  match σ.request offset with
  | (some (.page count), σ) => (some (pageOf (σ.pending.take count)), σ)
  | (some (.conflict _), σ) =>
    match σ.request offset with
    | (some (.page count), σ) => (some (pageOf (σ.pending.take count)), σ)
    | (_, σ) => (none, σ)
  | (_, σ) => (none, σ)

/-- The pages of `drain_update_chats`, as many as are left to be asked for. -/
def drainPages : Nat → Option Int → List DetectedChat → Telegram → Option (List DetectedChat) × Telegram
  | 0, _, all, σ => (some all, σ)
  | n + 1, offset, all, σ =>
    match getUpdatesPage offset σ with
    | (none, σ) => (none, σ)
    | (some (chats, nextOffset), σ) =>
      let all := chats.foldl insertChat all
      match nextOffset with
      | some next => drainPages n (some next) all σ
      | none => (some all, σ)

def drainUpdateChats (σ : Telegram) : Option (List DetectedChat) × Telegram :=
  drainPages 20 none [] σ

/-- The last loop of `get_updates`. A page takes an answer, so it ends within as many turns as there are
    answers. -/
def restOfPages : Nat → Option Int → List DetectedChat → Telegram → Option (List DetectedChat) × Telegram
  | _, none, all, σ => (some all, σ)
  | 0, some _, _, σ => (none, σ)
  | n + 1, some off, all, σ =>
    match getUpdatesPage (some off) σ with
    | (none, σ) => (none, σ)
    | (some (more, nextOffset), σ) => restOfPages n nextOffset (more.foldl insertChat all) σ

def getUpdates (σ : Telegram) : Option (List DetectedChat) × Telegram :=
  match drainUpdateChats σ with
  | (none, σ) => (none, σ)
  | (some drained, σ) =>
    if drained ≠ [] then (some drained, σ)
    else
      match getUpdatesPage none σ with
      | (none, σ) => (none, σ)
      | (some (first, next), σ) =>
        if first = [] then (some first, σ) else restOfPages (σ.answers.length + 1) next first σ

/-! ## The wizard -/

structure BotMe where
  id : Int
  username : String
deriving DecidableEq, Repr

/-- What `getMe`, `getChat` and `getChatMember` answer; `none` where they fail. -/
structure BotAnswers where
  me : Option BotMe
  title : ChatId → Option String
  memberStatus : ChatId → Int → Option String

inductive AdminClass where
  | admin (title : String)
  | notAdmin
  | unknown
deriving DecidableEq, Repr

def classifyAdminChat (bot : BotAnswers) (chatId : ChatId) (botId : Int) (fallbackTitle : Option String) :
    AdminClass :=
  let title := (bot.title chatId).getD (fallbackTitle.getD (toString chatId))
  match bot.memberStatus chatId botId with
  | some status => if status = "administrator" ∨ status = "creator" then .admin title else .notAdmin
  | none => .unknown

/-- What `discover_admin_chats` has collected. -/
structure Scan where
  seen : List ChatId
  found : List (ChatId × String)
  skippedExcluded : List String
  sawNonAdmin : Bool

/-- The chats that are probed first; an error is the early answer. -/
def probeChats (bot : BotAnswers) (me : BotMe) (exclude : List ChatId) :
    List ChatId → Scan → Except String Scan
  | [], s => .ok s
  | chatId :: probe, s =>
    if chatId ≥ 0 ∨ s.seen.contains chatId then probeChats bot me exclude probe s
    else
      let s := { s with seen := chatId :: s.seen }
      if exclude.contains chatId then
        probeChats bot me exclude probe { s with skippedExcluded := s.skippedExcluded ++ [toString chatId] }
      else
        match classifyAdminChat bot chatId me.id none with
        | .admin title => probeChats bot me exclude probe { s with found := s.found ++ [(chatId, title)] }
        | .notAdmin =>
          .error ("Bot is in chat " ++ toString chatId ++ " but is not an admin. Give it admin rights " ++
            "with Post messages and Delete messages.")
        | .unknown =>
          .error ("Cannot access chat " ++ toString chatId ++
            ". Add the bot as an admin there, or check the id.")

def scanChat (bot : BotAnswers) (me : BotMe) (exclude : List ChatId) (s : Scan) (chat : DetectedChat) : Scan :=
  if s.seen.contains chat.chatId then s
  else
    let s := { s with seen := chat.chatId :: s.seen }
    if exclude.contains chat.chatId then { s with skippedExcluded := s.skippedExcluded ++ [chat.title] }
    else if chat.chatId ≥ 0 then s
    else
      match classifyAdminChat bot chat.chatId me.id (some chat.title) with
      | .admin title => { s with found := s.found ++ [(chat.chatId, title)] }
      | .notAdmin | .unknown => { s with sawNonAdmin := true }

def Scan.hint (s : Scan) : Option String :=
  if s.found ≠ [] then none
  else if s.skippedExcluded ≠ [] then
    some ("Seen channel(s) already linked to another storage: " ++ ", ".intercalate s.skippedExcluded ++
      ". Use a different channel, or open the existing storage instead of creating a new one.")
  else if s.sawNonAdmin then
    some ("Bot was added to a channel but does not have admin rights. Make it an admin with " ++
      "Post messages and Delete messages.")
  else none

def discoverAdminChats (bot : BotAnswers) (exclude probe : List ChatId) (σ : Telegram) :
    Option (List (ChatId × String) × Option String) × Telegram :=
  match bot.me with
  | none => (none, σ)
  | some me =>
    match probeChats bot me exclude probe ⟨[], [], [], false⟩ with
    | .error hint => (some ([], some hint), σ)
    | .ok s =>
      match if s.found = [] then getUpdates σ else drainUpdateChats σ with
      | (none, σ) => (none, σ)
      | (some chats, σ) =>
        let s := chats.foldl (scanChat bot me exclude) s
        (some (s.found, s.hint), σ)

structure BotValidate where
  botId : Int
  username : String
  channels : List (ChatId × String)
deriving DecidableEq, Repr

structure ChannelPollResult where
  channels : List (ChatId × String)
  hint : Option String
deriving DecidableEq, Repr

/-- Rust `validate_bot`, which asks `getMe` itself; `occupied` are the chats of all storages. A `deleteWebhook`
    that fails is passed over. -/
def validateBot (bot : BotAnswers) (me : Option BotMe) (token : List Char) (occupied : List ChatId)
    (σ : Telegram) : Option BotValidate × Telegram :=
  let token := trim token
  if token = [] ∨ ':' ∉ token then (none, σ)
  else
    match me with
    | none => (none, σ)
    | some me =>
      match discoverAdminChats bot occupied [] σ with
      | (none, σ) => (none, σ)
      | (some (found, _), σ) => (some ⟨me.id, me.username, found.take 3⟩, σ)

/-- Rust `poll_channel`. -/
def pollChannel (bot : BotAnswers) (exclude probe occupied : List ChatId) (σ : Telegram) :
    Option ChannelPollResult × Telegram :=
  let skip := exclude.foldl (fun skip id => if skip.contains id then skip else skip ++ [id]) occupied
  match discoverAdminChats bot skip probe σ with
  | (none, σ) => (none, σ)
  | (some (found, hint), σ) =>
    let channels := found.take (3 - exclude.length)
    (some ⟨channels, if channels = [] then hint else none⟩, σ)

/-! ## What is seen -/

/-- Every chat that is read from the update is among those. -/
def SeenIn (u : Update) (all : List DetectedChat) : Prop :=
  ∀ chat ∈ u.chats, chat.id ∈ all.map DetectedChat.chatId

lemma chatId_insertChat {all : List DetectedChat} {chat : DetectedChat} {id : ChatId} :
    id ∈ (insertChat all chat).map DetectedChat.chatId ↔
      id ∈ all.map DetectedChat.chatId ∨ id = chat.chatId := by
  unfold insertChat
  split
  · case isTrue h =>
    obtain ⟨c, hc, heq⟩ := List.any_eq_true.mp h
    refine ⟨Or.inl, fun hid => hid.elim (fun h => h) fun hid => ?_⟩
    rw [hid, ← of_decide_eq_true heq]
    exact List.mem_map_of_mem hc
  · rw [List.map_append, List.mem_append, List.map_singleton, List.mem_singleton]

lemma chatId_foldl_insertChat {chats : List DetectedChat} {id : ChatId} : ∀ {all : List DetectedChat},
    id ∈ (chats.foldl insertChat all).map DetectedChat.chatId ↔
      id ∈ all.map DetectedChat.chatId ∨ id ∈ chats.map DetectedChat.chatId := by
  induction chats with
  | nil => simp
  | cons chat chats ih =>
    intro all
    rw [List.foldl_cons, ih, chatId_insertChat, List.map_cons, List.mem_cons, or_assoc]

lemma seenIn_chatsFromUpdates {result : List Update} {u : Update} (hu : u ∈ result) :
    SeenIn u (chatsFromUpdates result) := by
  have hfold : chatsFromUpdates result =
      ((result.flatMap Update.chats).map UpdateChat.detected).foldl insertChat [] := by
    rw [List.foldl_map]
    rfl
  intro chat hchat
  rw [hfold, chatId_foldl_insertChat, List.map_map]
  exact Or.inr (List.mem_map_of_mem (List.mem_flatMap.mpr ⟨u, hu, hchat⟩))

/-- What is pending from the offset on, and what has been seen, are all the updates. -/
def Accounted (start : List Update) (all : List DetectedChat) (offset : Option Int) (σ : Telegram) : Prop :=
  ∀ u ∈ start, u ∈ σ.pending ∧ (∀ off ∈ offset, off ≤ u.updateId) ∨ SeenIn u all

variable {start : List Update} {all chats : List DetectedChat} {offset next : Option Int} {σ σ' : Telegram}

lemma SeenIn.mono {u : Update} (h : SeenIn u all ∨ SeenIn u chats) : SeenIn u (chats.foldl insertChat all) := by
  intro chat hchat
  rw [chatId_foldl_insertChat]
  exact h.imp (fun h => h chat hchat) fun h => h chat hchat

lemma mem_confirm {u : Update} :
    u ∈ (σ.confirm offset).pending ↔ u ∈ σ.pending ∧ ∀ off ∈ offset, off ≤ u.updateId := by
  rw [Telegram.confirm, List.mem_filter]
  cases offset <;> simp

lemma Accounted.request (h : Accounted start all offset σ) :
    Accounted start all offset (σ.request offset).2 := by
  intro u hu
  refine (h u hu).imp_left fun ⟨hpending, hoff⟩ => ⟨?_, hoff⟩
  unfold Telegram.request
  split
  · exact hpending
  · dsimp only
    split
    · exact mem_confirm.mpr ⟨hpending, hoff⟩
    · exact hpending

lemma pageOf_accounted (count : Nat) (h : Accounted start all offset σ)
    (hpage : pageOf (σ.pending.take count) = (chats, next)) :
    Accounted start (chats.foldl insertChat all) next σ := by
  intro u hu
  cases h u hu with
  | inr hseen => exact Or.inr (SeenIn.mono (Or.inl hseen))
  | inl hin =>
    obtain ⟨hpending, -⟩ := hin
    unfold pageOf at hpage
    split at hpage
    · cases hpage
      exact Or.inl ⟨hpending, fun off hoff => by cases hoff⟩
    · cases hpage
      rw [← List.take_append_drop count σ.pending, List.mem_append] at hpending
      cases hpending with
      | inl hfirst => exact Or.inr (SeenIn.mono (Or.inr (seenIn_chatsFromUpdates hfirst)))
      | inr hlater =>
        refine Or.inl ⟨List.mem_of_mem_drop hlater, fun off hoff => ?_⟩
        obtain ⟨last, hlast, rfl⟩ := Option.map_eq_some_iff.mp hoff
        obtain ⟨v, hv, rfl⟩ := List.mem_map.mp (List.max?_mem hlast)
        have hsorted := σ.sorted
        rw [← List.take_append_drop count σ.pending, List.pairwise_append] at hsorted
        exact hsorted.2.2 v hv u hlater

lemma getUpdatesPage_accounted (h : Accounted start all offset σ)
    (hpage : getUpdatesPage offset σ = (some (chats, next), σ')) :
    Accounted start (chats.foldl insertChat all) next σ' := by
  have hrequest := h.request
  unfold getUpdatesPage at hpage
  split at hpage
  · case h_1 count σ₁ hfirst =>
    rw [hfirst] at hrequest
    obtain ⟨heq, rfl⟩ := Prod.mk.inj hpage
    exact pageOf_accounted count hrequest (Option.some.inj heq)
  · case h_2 reached σ₁ hfirst =>
    rw [hfirst] at hrequest
    have hretry := hrequest.request
    split at hpage
    · case h_1 count σ₂ hsecond =>
      rw [hsecond] at hretry
      obtain ⟨heq, rfl⟩ := Prod.mk.inj hpage
      exact pageOf_accounted count hretry (Option.some.inj heq)
    · cases hpage
  · cases hpage

lemma Accounted.pending (h : Accounted start all offset σ) : ∀ u ∈ start, u ∈ σ.pending ∨ SeenIn u all :=
  fun u hu => (h u hu).imp_left And.left

lemma drainPages_accounted (n : Nat) : ∀ {offset : Option Int} {all found : List DetectedChat}
    {σ σ' : Telegram}, Accounted start all offset σ → drainPages n offset all σ = (some found, σ') →
      ∀ u ∈ start, u ∈ σ'.pending ∨ SeenIn u found := by
  induction n with
  | zero =>
    intro offset all found σ σ' h hdrain
    cases hdrain
    exact h.pending
  | succ n ih =>
    intro offset all found σ σ' h hdrain
    rw [drainPages] at hdrain
    split at hdrain
    · cases hdrain
    · case h_2 chats next σ₁ hpage =>
      have hnext := getUpdatesPage_accounted h hpage
      dsimp only at hdrain
      split at hdrain
      · exact ih hnext hdrain
      · cases hdrain
        exact hnext.pending

lemma restOfPages_accounted (n : Nat) : ∀ {offset : Option Int} {all found : List DetectedChat}
    {σ σ' : Telegram}, Accounted start all offset σ → restOfPages n offset all σ = (some found, σ') →
      ∀ u ∈ start, u ∈ σ'.pending ∨ SeenIn u found := by
  induction n with
  | zero =>
    intro offset all found σ σ' h hrest
    cases offset with
    | none =>
      cases hrest
      exact h.pending
    | some off => cases hrest
  | succ n ih =>
    intro offset all found σ σ' h hrest
    cases offset with
    | none =>
      cases hrest
      exact h.pending
    | some off =>
      rw [restOfPages] at hrest
      split at hrest
      · cases hrest
      · case h_2 chats next σ₁ hpage => exact ih (getUpdatesPage_accounted h hpage) hrest

lemma accounted_start (σ : Telegram) : Accounted σ.pending [] none σ :=
  fun _ hu => Or.inl ⟨hu, fun _ hoff => by cases hoff⟩

lemma drainUpdateChats_accounted {found : List DetectedChat} (h : drainUpdateChats σ = (some found, σ')) :
    ∀ u ∈ σ.pending, u ∈ σ'.pending ∨ SeenIn u found :=
  drainPages_accounted 20 (accounted_start σ) h

lemma Accounted.fresh (h : Accounted start (chats.foldl insertChat []) offset σ) :
    Accounted start chats offset σ := by
  intro u hu
  refine (h u hu).imp_right fun hseen chat hchat => ?_
  exact (chatId_foldl_insertChat.mp (hseen chat hchat)).resolve_left List.not_mem_nil

lemma getUpdates_accounted {found : List DetectedChat} (h : getUpdates σ = (some found, σ')) :
    ∀ u ∈ σ.pending, u ∈ σ'.pending ∨ SeenIn u found := by
  unfold getUpdates at h
  split at h
  · cases h
  · case h_2 drained σ₁ hdrain =>
    have hdrained := drainUpdateChats_accounted hdrain
    split at h
    · cases h
      exact hdrained
    · case isFalse hnone =>
      obtain rfl : drained = [] := Decidable.not_not.mp hnone
      have haccounted : Accounted σ.pending [] none σ₁ := fun u hu =>
        (hdrained u hu).imp_left fun hpending => ⟨hpending, fun _ hoff => by cases hoff⟩
      split at h
      · cases h
      · case h_2 first next σ₂ hpage =>
        have hfirst := (getUpdatesPage_accounted haccounted hpage).fresh
        split at h
        · cases h
          exact hfirst.pending
        · exact restOfPages_accounted _ hfirst h

/-! ## What is found -/

/-- The member check says that the bot is an admin. -/
def BotAnswers.IsAdmin (bot : BotAnswers) (me : BotMe) (chatId : ChatId) : Prop :=
  ∃ status ∈ bot.memberStatus chatId me.id, status = "administrator" ∨ status = "creator"

/-- A chat that was come to is found, or is one to pass over. -/
def Scan.Covers (bot : BotAnswers) (me : BotMe) (exclude : List ChatId) (s : Scan) (chatId : ChatId) : Prop :=
  chatId ∈ s.found.map Prod.fst ∨ chatId ∈ exclude ∨ 0 ≤ chatId ∨ ¬bot.IsAdmin me chatId

def Scan.Sound (bot : BotAnswers) (me : BotMe) (exclude : List ChatId) (s : Scan) : Prop :=
  ∀ chatId ∈ s.seen, s.Covers bot me exclude chatId

variable {bot : BotAnswers} {me : BotMe} {exclude : List ChatId} {s s' : Scan}

lemma classify_not_admin {chatId : ChatId} {title : Option String}
    (h : ∀ t, classifyAdminChat bot chatId me.id title ≠ .admin t) : ¬bot.IsAdmin me chatId := by
  rintro ⟨status, hstatus, hadmin⟩
  refine h ((bot.title chatId).getD (title.getD (toString chatId))) ?_
  unfold classifyAdminChat
  rw [Option.mem_def.mp hstatus]
  dsimp only
  rw [if_pos hadmin]

lemma Scan.Covers.mono {chatId : ChatId} (h : s.Covers bot me exclude chatId) (hfound : s.found ⊆ s'.found) :
    s'.Covers bot me exclude chatId :=
  h.imp_left fun h => List.map_subset _ hfound h

lemma Scan.Sound.cons {chatId : ChatId} (h : s.Sound bot me exclude) (hseen : s'.seen = chatId :: s.seen)
    (hfound : s.found ⊆ s'.found) (hnew : s'.Covers bot me exclude chatId) : s'.Sound bot me exclude := by
  intro id hid
  rw [hseen] at hid
  cases List.mem_cons.mp hid with
  | inl heq => exact heq ▸ hnew
  | inr hold => exact (h id hold).mono hfound

lemma probeChats_sound (probe : List ChatId) : ∀ {s s' : Scan}, s.Sound bot me exclude →
    probeChats bot me exclude probe s = .ok s' → s'.Sound bot me exclude := by
  induction probe with
  | nil =>
    intro s s' h hprobe
    cases hprobe
    exact h
  | cons chatId probe ih =>
    intro s s' h hprobe
    rw [probeChats] at hprobe
    split at hprobe
    · exact ih h hprobe
    · dsimp only at hprobe
      split at hprobe
      · case isTrue hexcluded =>
        refine ih ?_ hprobe
        exact h.cons rfl (List.Subset.refl _) (Or.inr (Or.inl (List.contains_iff_mem.mp hexcluded)))
      · split at hprobe
        · case h_1 title hadmin =>
          refine ih ?_ hprobe
          refine h.cons rfl (List.subset_append_left _ _) (Or.inl ?_)
          rw [List.map_append, List.mem_append]
          exact Or.inr List.mem_cons_self
        · cases hprobe
        · cases hprobe

lemma scanChat_sound (chat : DetectedChat) (h : s.Sound bot me exclude) :
    (scanChat bot me exclude s chat).Sound bot me exclude ∧
      chat.chatId ∈ (scanChat bot me exclude s chat).seen ∧ s.seen ⊆ (scanChat bot me exclude s chat).seen := by
  unfold scanChat
  split
  · case isTrue hseen => exact ⟨h, List.contains_iff_mem.mp hseen, List.Subset.refl _⟩
  · dsimp only
    split
    · case isTrue hexcluded =>
      refine ⟨h.cons rfl (List.Subset.refl _) (Or.inr (Or.inl (List.contains_iff_mem.mp hexcluded))), ?_⟩
      exact ⟨List.mem_cons_self, List.subset_cons_self _ _⟩
    · split
      · case isTrue hprivate =>
        refine ⟨h.cons rfl (List.Subset.refl _) (Or.inr (Or.inr (Or.inl hprivate))), ?_⟩
        exact ⟨List.mem_cons_self, List.subset_cons_self _ _⟩
      · have hseen : ∀ s' : Scan, s'.seen = chat.chatId :: s.seen →
            chat.chatId ∈ s'.seen ∧ s.seen ⊆ s'.seen := by
          intro s' heq
          rw [heq]
          exact ⟨List.mem_cons_self, List.subset_cons_self _ _⟩
        cases hclass : classifyAdminChat bot chat.chatId me.id (some chat.title) with
        | admin title =>
          refine ⟨h.cons rfl (List.subset_append_left _ _) (Or.inl ?_), hseen _ rfl⟩
          rw [List.map_append, List.mem_append]
          exact Or.inr List.mem_cons_self
        | notAdmin | unknown =>
          have hnot : ¬bot.IsAdmin me chat.chatId :=
            classify_not_admin fun t => by rw [hclass]; exact nofun
          exact ⟨h.cons rfl (List.Subset.refl _) (Or.inr (Or.inr (Or.inr hnot))), hseen _ rfl⟩

lemma scanChats_sound (chats : List DetectedChat) : ∀ {s : Scan}, s.Sound bot me exclude →
    (chats.foldl (scanChat bot me exclude) s).Sound bot me exclude ∧
      s.seen ⊆ (chats.foldl (scanChat bot me exclude) s).seen ∧
      ∀ id ∈ chats.map DetectedChat.chatId, id ∈ (chats.foldl (scanChat bot me exclude) s).seen := by
  induction chats with
  | nil => exact fun h => ⟨h, List.Subset.refl _, fun id hid => absurd hid List.not_mem_nil⟩
  | cons chat chats ih =>
    intro s h
    obtain ⟨hsound, hmem, hsub⟩ := scanChat_sound chat h
    obtain ⟨hrest, hkept, hall⟩ := ih hsound
    refine ⟨hrest, List.Subset.trans hsub hkept, fun id hid => ?_⟩
    cases List.mem_cons.mp hid with
    | inl heq => exact heq ▸ hkept hmem
    | inr hlater => exact hall id hlater

lemma discover_covers {probe : List ChatId} {found : List (ChatId × String)} {hint : Option String}
    (hme : bot.me = some me) (h : discoverAdminChats bot exclude probe σ = (some (found, hint), σ')) :
    ∀ u ∈ σ.pending, ∀ chat ∈ u.chats, u ∈ σ'.pending ∨ chat.id ∈ found.map Prod.fst ∨ chat.id ∈ exclude ∨
      0 ≤ chat.id ∨ ¬bot.IsAdmin me chat.id := by
  intro u hu chat hchat
  unfold discoverAdminChats at h
  rw [hme] at h
  dsimp only at h
  split at h
  · obtain ⟨-, rfl⟩ := Prod.mk.inj h
    exact Or.inl hu
  · case h_2 s hprobe =>
    have hsound : s.Sound bot me exclude := 
      probeChats_sound probe (fun id hid => absurd hid List.not_mem_nil) hprobe
    split at h
    · cases h
    · case h_2 chats σ₁ hchats =>
      obtain ⟨heq, rfl⟩ := Prod.mk.inj h
      obtain ⟨rfl, -⟩ := Prod.mk.inj (Option.some.inj heq)
      have hseen : u ∈ σ₁.pending ∨ SeenIn u chats := by
        split at hchats
        · exact getUpdates_accounted hchats u hu
        · exact drainUpdateChats_accounted hchats u hu
      refine hseen.imp_right fun hseen => ?_
      obtain ⟨hall, -, hmem⟩ := scanChats_sound chats hsound
      exact hall chat.id (hmem chat.id (hseen chat hchat))

/-! ## What the wizard gets -/

/-- A mention of a chat in an update: the wizard gets the chat, or the update is still pending, or the chat is
    passed over, its member check does not say that the bot is an admin, or the answer is full. -/
def Kept (bot : BotAnswers) (me : BotMe) (skip : List ChatId) (room : Nat) (channels : List (ChatId × String))
    (σ : Telegram) (u : Update) (chatId : ChatId) : Prop :=
  chatId ∈ channels.map Prod.fst ∨ u ∈ σ.pending ∨ chatId ∈ skip ∨ 0 ≤ chatId ∨ ¬bot.IsAdmin me chatId ∨
    channels.length = room

lemma kept_of_covered {skip : List ChatId} {found : List (ChatId × String)} {u : Update} {chatId : ChatId}
    (room : Nat) (h : u ∈ σ.pending ∨ chatId ∈ found.map Prod.fst ∨ chatId ∈ skip ∨ 0 ≤ chatId ∨
      ¬bot.IsAdmin me chatId) : Kept bot me skip room (found.take room) σ u chatId := by
  rcases h with hpending | hfound | hskip | hprivate | hnot
  · exact Or.inr (Or.inl hpending)
  · rcases Nat.le_total found.length room with hroom | hfull
    · rw [List.take_of_length_le hroom]
      exact Or.inl hfound
    · have hlength := List.length_take_of_le hfull
      exact Or.inr (Or.inr (Or.inr (Or.inr (Or.inr hlength))))
  · exact Or.inr (Or.inr (Or.inl hskip))
  · exact Or.inr (Or.inr (Or.inr (Or.inl hprivate)))
  · exact Or.inr (Or.inr (Or.inr (Or.inr (Or.inl hnot))))

lemma mem_skip {id : ChatId} (exclude : List ChatId) : ∀ {occupied : List ChatId},
    id ∈ exclude.foldl (fun skip id => if skip.contains id then skip else skip ++ [id]) occupied ↔
      id ∈ occupied ++ exclude := by
  induction exclude with
  | nil => simp
  | cons first exclude ih =>
    intro occupied
    rw [List.foldl_cons, ih, List.mem_append, List.mem_append, List.mem_cons]
    split
    · case isTrue hmem =>
      have hfirst : id = first → id ∈ occupied := fun heq => heq ▸ List.contains_iff_mem.mp hmem
      tauto
    · rw [List.mem_append, List.mem_singleton, or_assoc]

/-- Whatever is pending, however it is split into pages and whatever the requests meet: an answer of the wizard
    keeps every mention, and an answer that is given for a probed chat confirms nothing. -/
theorem discovery_keeps (bot : BotAnswers) (first : Option BotMe) (token : List Char)
    (exclude probe occupied : List ChatId) (σ : Telegram) :
    (∀ me ∈ bot.me, ∀ v σ', validateBot bot first token occupied σ = (some v, σ') →
      ∀ u ∈ σ.pending, ∀ chat ∈ u.chats, Kept bot me occupied 3 v.channels σ' u chat.id) ∧
    (∀ me ∈ bot.me, ∀ r σ', pollChannel bot exclude probe occupied σ = (some r, σ') →
      ∀ u ∈ σ.pending, ∀ chat ∈ u.chats,
        Kept bot me (occupied ++ exclude) (3 - exclude.length) r.channels σ' u chat.id) ∧
    ∀ me ∈ bot.me, ∀ skip hint, probeChats bot me skip probe ⟨[], [], [], false⟩ = .error hint →
      discoverAdminChats bot skip probe σ = (some ([], some hint), σ) := by
  refine ⟨?_, ?_, ?_⟩
  · intro me hme v σ' h u hu chat hchat
    unfold validateBot at h
    dsimp only at h
    split at h
    · cases h
    · split at h
      · cases h
      · split at h
        · cases h
        · case h_2 found hint σ₁ hdiscover =>
          obtain ⟨heq, rfl⟩ := Prod.mk.inj h
          obtain rfl := Option.some.inj heq
          exact kept_of_covered 3 (discover_covers hme hdiscover u hu chat hchat)
  · intro me hme r σ' h u hu chat hchat
    unfold pollChannel at h
    dsimp only at h
    split at h
    · cases h
    · case h_2 found hint σ₁ hdiscover =>
      obtain ⟨heq, rfl⟩ := Prod.mk.inj h
      obtain rfl := Option.some.inj heq
      refine kept_of_covered _ ?_
      rw [← mem_skip]
      exact discover_covers hme hdiscover u hu chat hchat
  · intro me hme skip hint hprobe
    unfold discoverAdminChats
    rw [Option.mem_def.mp hme]
    dsimp only
    rw [hprobe]

/-! ### What is lost -/

def promoted (updateId : Int) (chatId : ChatId) : Update :=
  let channel : UpdateChat := ⟨chatId, some "channel", none, none, some "channel"⟩
  ⟨updateId, none, some ⟨channel, some (some "administrator")⟩, none⟩

def everywhereAdmin : BotAnswers :=
  ⟨some ⟨7, "bot"⟩, fun _ => none, fun _ _ => some "administrator"⟩

def unanswered : BotAnswers :=
  { everywhereAdmin with memberStatus := fun _ _ => none }

def fourPromotions (answers : List PageAnswer) : Telegram where
  pending := [promoted 1 (-1), promoted 2 (-2), promoted 3 (-3), promoted 4 (-4)]
  sorted := by decide
  answers := answers

/-- A page that fails, a member check that fails, a chat that is taken and a fourth channel are each neither
    in the answer nor pending. -/
theorem discovery_drops :
    (let ended := pollChannel everywhereAdmin [] [] [] (fourPromotions [.page 2, .failed true]);
      ended.1 = none ∧ ended.2.pending = [promoted 3 (-3), promoted 4 (-4)]) ∧
    (let ended := validateBot unanswered unanswered.me "7:token".toList []
        (fourPromotions [.page 4, .page 0, .page 0]);
      ended.1 = some ⟨7, "bot", []⟩ ∧ ended.2.pending = []) ∧
    (let ended := validateBot everywhereAdmin everywhereAdmin.me "7:token".toList [-1]
        (fourPromotions [.page 4, .page 0]);
      ended.1 = some ⟨7, "bot", [(-2, "channel"), (-3, "channel"), (-4, "channel")]⟩ ∧ ended.2.pending = []) ∧
    (let ended := pollChannel everywhereAdmin [] [] [] (fourPromotions [.page 4, .page 0]);
      ended.1 = some ⟨[(-1, "channel"), (-2, "channel"), (-3, "channel")], none⟩ ∧ ended.2.pending = []) := by
  decide +kernel

end Sarca.Server.Discovery
