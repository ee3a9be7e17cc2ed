import Mathlib.Data.List.AList
import Sarca.Lib.Text
import Sarca.Server.Rows

/-!
# Accounts and access rows

`Roster` is the tables `users` and `access`, each keyed as its unique index has it: an account by its id, and
an access row by its user and storage. Its fields say what the schema checks: no two accounts have one address,
and a row is of an account that exists. Ids are numbers, and `next` was never given out.

What a statement does is told by `Roster.level`, the `access_type` of a user on a storage. The storages are in a
table of their own, and a statement is given the ids in it.
-/

namespace Sarca.Server
open Sarca.Lib

/-- The `access_type` texts. -/
inductive AccessType where
  | r
  | w
  | a
deriving DecidableEq, Repr

/-- The filter of `has_access`. -/
def AccessType.Admits : AccessType → AccessType → Prop
  | .r, _ => True
  | .w, held => held = .w ∨ held = .a
  | .a, held => held = .a

instance AccessType.Admits.decidable : (asked held : AccessType) → Decidable (asked.Admits held)
  | .r, _ => inferInstanceAs (Decidable True)
  | .w, _ => inferInstanceAs (Decidable (_ ∨ _))
  | .a, _ => inferInstanceAs (Decidable (_ = _))

/-- Who calls (Rust `AuthUser`). -/
structure AuthUser where
  id : Uuid
  email : List Char
deriving DecidableEq, Repr

/-- A row of `list_users_with_access`. -/
structure UserWithAccess where
  id : Uuid
  email : List Char
  accessType : AccessType
deriving DecidableEq, Repr

/-- The errors of `SarcaError` that calls about access answer. -/
inductive AccessError where
  | doesNotExist (what : String)
  | storageNameConflict
  | storageChatIdConflict
  | noActiveChannel
  | tooManyChannels
  | notAuthenticated
  | cannotManageAccessOfYourself
  | cannotDeleteSuperuser
  | onlySuperuserManagesAdmins
  | forbidden
  | unknown
deriving DecidableEq, Repr

section Keep

variable {κ : Type*} {β : κ → Type*} [DecidableEq κ]

def keepKeys (p : κ → Prop) [DecidablePred p] (table : AList β) : AList β :=
  ⟨table.entries.filter fun entry => p entry.1, table.nodupKeys.sublist List.filter_sublist⟩

lemma lookup_keepKeys {p : κ → Prop} [DecidablePred p] {table : AList β} (key : κ) :
    (keepKeys p table).lookup key = if p key then table.lookup key else none := by
  have hmem : ∀ value, value ∈ (keepKeys p table).lookup key ↔ p key ∧ value ∈ table.lookup key := by
    intro value
    rw [AList.mem_lookup_iff, AList.mem_lookup_iff, keepKeys, List.mem_filter, decide_eq_true_eq, and_comm]
  refine Option.ext fun value => ?_
  by_cases hp : p key
  · rw [if_pos hp]
    exact (hmem value).trans (and_iff_right hp)
  · rw [if_neg hp]
    exact (hmem value).trans ⟨fun h => absurd h.1 hp, fun h => absurd h (Option.not_mem_none value)⟩

end Keep

/-- The tables `users` and `access`. -/
structure Roster where
  users : AList fun _ : Uuid => List Char
  access : AList fun _ : Uuid × Uuid => AccessType
  next : Uuid
  unique : ∀ (id id' : Uuid) (email : List Char),
    users.lookup id = some email → users.lookup id' = some email → id = id'
  owned : ∀ (id storageId : Uuid), access.lookup (id, storageId) ≠ none → users.lookup id ≠ none
  given : ∀ id : Uuid, users.lookup id ≠ none → id < next

namespace Roster

variable (ρ : Roster)

def empty : Roster where
  users := ∅
  access := ∅
  next := 1
  unique _ _ _ h := nomatch h
  owned _ _ h := absurd (AList.lookup_empty _) h
  given _ h := absurd (AList.lookup_empty _) h

/-- The `access_type` of a user on a storage. -/
def level (id storageId : Uuid) : Option AccessType :=
  ρ.access.lookup (id, storageId)

/-- The account with an address (Rust `get_by_email`). -/
def byEmail? (email : List Char) : Option Uuid :=
  (ρ.users.entries.find? fun u => u.2 = email).map (·.1)

/-- Rust `has_access`. -/
def HasAccess (id storageId : Uuid) (t : AccessType) : Prop :=
  ∃ held ∈ ρ.level id storageId, t.Admits held

instance HasAccess.decidable (id storageId : Uuid) (t : AccessType) : Decidable (ρ.HasAccess id storageId t) :=
  match h : ρ.level id storageId with
  | none => isFalse fun ⟨held, hin, _⟩ => Option.some_ne_none held (hin.symm.trans h)
  | some held => decidable_of_iff (t.Admits held)
    ⟨fun ha => ⟨held, h, ha⟩, fun ⟨_, heq, ha⟩ => Option.some.inj (h.symm.trans heq) ▸ ha⟩

/-- Rust `check_access`. -/
def checkAccess (id storageId : Uuid) (t : AccessType) : Except AccessError Unit :=
  if ρ.HasAccess id storageId t then .ok () else .error (.doesNotExist "storage")

/-- Rust `list_users_with_access`. -/
def listUsersWithAccess (storageId : Uuid) : List UserWithAccess :=
  ρ.access.entries.filterMap fun row =>
    if row.1.2 = storageId then (ρ.users.lookup row.1.1).map fun email => ⟨row.1.1, email, row.2⟩ else none

/-! ### Statements -/

variable {ρ}

lemma lookup_of_byEmail? {email : List Char} {id : Uuid} (h : ρ.byEmail? email = some id) :
    ρ.users.lookup id = some email := by
  obtain ⟨u, hfind, rfl⟩ := Option.map_eq_some_iff.mp h
  have htest := List.find?_some hfind
  have hemail : u.2 = email := of_decide_eq_true htest
  exact AList.mem_lookup_iff.mpr (hemail ▸ List.mem_of_find?_eq_some hfind)

lemma byEmail?_eq_none {email : List Char} :
    ρ.byEmail? email = none ↔ ∀ id, ρ.users.lookup id ≠ some email := by
  rw [byEmail?, Option.map_eq_none_iff, List.find?_eq_none]
  constructor
  · intro h id hid
    exact h _ (AList.mem_lookup_iff.mp hid) (decide_eq_true rfl)
  · intro h u hu hemail
    exact h u.1 (AList.mem_lookup_iff.mpr (of_decide_eq_true hemail ▸ hu))

lemma byEmail?_iff {email : List Char} {id : Uuid} :
    ρ.byEmail? email = some id ↔ ρ.users.lookup id = some email := by
  refine ⟨lookup_of_byEmail?, fun h => ?_⟩
  cases hfind : ρ.byEmail? email with
  | none => exact absurd h (byEmail?_eq_none.mp hfind id)
  | some id' => rw [ρ.unique id id' email h (lookup_of_byEmail? hfind)]

lemma mem_listUsersWithAccess {storageId : Uuid} {m : UserWithAccess} :
    m ∈ ρ.listUsersWithAccess storageId ↔
      ρ.users.lookup m.id = some m.email ∧ ρ.level m.id storageId = some m.accessType := by
  unfold listUsersWithAccess level
  rw [List.mem_filterMap]
  constructor
  · rintro ⟨⟨⟨id, storageId'⟩, t⟩, hrow, heq⟩
    split at heq
    · next hsame =>
      obtain ⟨email, hemail, rfl⟩ := Option.map_eq_some_iff.mp heq
      cases hsame
      exact ⟨hemail, AList.mem_lookup_iff.mpr hrow⟩
    · cases heq
  · rintro ⟨hemail, hrow⟩
    refine ⟨⟨(m.id, storageId), m.accessType⟩, AList.mem_lookup_iff.mp hrow, ?_⟩
    rw [if_pos rfl, hemail]
    rfl

variable (ρ)

/-- A row for an account; `ON CONFLICT DO UPDATE` gives the row that is there another `access_type`. -/
def putAccess (id storageId : Uuid) (t : AccessType) (h : ρ.users.lookup id ≠ none) : Roster :=
  { ρ with
    access := ρ.access.insert (id, storageId) t
    owned := by
      intro id' storageId' hrow
      by_cases hkey : (id', storageId') = (id, storageId)
      · cases hkey
        exact h
      · rw [AList.lookup_insert_ne hkey] at hrow
        exact ρ.owned id' storageId' hrow }

/-- Rust `grant_for_user_id`; both foreign keys are checked. -/
def grantForUserId (storages : List Uuid) (storageId id : Uuid) (t : AccessType) :
    Except AccessError Roster :=
  if h : ρ.users.lookup id ≠ none then
    if storageId ∈ storages then .ok (ρ.putAccess id storageId t h) else .error (.doesNotExist "storage")
  else .error .notAuthenticated

/-- Rust `create_or_update`, which finds the account by its very address. -/
def createOrUpdate (storages : List Uuid) (storageId : Uuid) (email : List Char) (t : AccessType) :
    Except AccessError Roster :=
  match ρ.byEmail? email with
  | some id => ρ.grantForUserId storages storageId id t
  | none => .error (.doesNotExist "user")

def keepAccess (p : Uuid × Uuid → Prop) [DecidablePred p] : Roster :=
  { ρ with
    access := keepKeys p ρ.access
    owned := by
      intro id storageId hrow
      rw [lookup_keepKeys] at hrow
      split at hrow
      · exact ρ.owned id storageId hrow
      · exact absurd rfl hrow }

/-- Rust `delete_access`. -/
def deleteAccess (id storageId : Uuid) : Roster :=
  ρ.keepAccess (· ≠ (id, storageId))

def dropStorage (storageId : Uuid) : Roster :=
  ρ.keepAccess fun key => key.2 ≠ storageId

/-- Rust `UsersRepository::create`; an address that is taken answers `AlreadyExists`. -/
def register (email : List Char) : Roster :=
  if h : ρ.byEmail? email = none then
    { ρ with
      users := ρ.users.insert ρ.next email
      next := ρ.next + 1
      unique := by
        intro id id' email' hid hid'
        obtain rfl | hne := eq_or_ne id ρ.next
        · obtain rfl | hne' := eq_or_ne id' ρ.next
          · rfl
          · rw [AList.lookup_insert] at hid
            rw [AList.lookup_insert_ne hne', ← Option.some.inj hid] at hid'
            exact absurd hid' (byEmail?_eq_none.mp h id')
        · rw [AList.lookup_insert_ne hne] at hid
          obtain rfl | hne' := eq_or_ne id' ρ.next
          · rw [AList.lookup_insert] at hid'
            rw [← Option.some.inj hid'] at hid
            exact absurd hid (byEmail?_eq_none.mp h id)
          · rw [AList.lookup_insert_ne hne'] at hid'
            exact ρ.unique id id' email' hid hid'
      owned := by
        intro id storageId hrow
        obtain rfl | hne := eq_or_ne id ρ.next
        · rw [AList.lookup_insert]
          exact Option.some_ne_none email
        · rw [AList.lookup_insert_ne hne]
          exact ρ.owned id storageId hrow
      given := by
        intro id hid
        obtain rfl | hne := eq_or_ne id ρ.next
        · exact Nat.lt_succ_self _
        · rw [AList.lookup_insert_ne hne] at hid
          exact Nat.lt_succ_of_lt (ρ.given id hid) }
  else ρ

/-- Rust `UsersRepository::delete`, with its cascade. -/
def removeUser (id : Uuid) : Roster :=
  { ρ with
    users := keepKeys (· ≠ id) ρ.users
    access := keepKeys (fun key => key.1 ≠ id) ρ.access
    unique := by
      intro id₁ id₂ email h₁ h₂
      rw [lookup_keepKeys] at h₁ h₂
      split at h₁
      · split at h₂
        · exact ρ.unique id₁ id₂ email h₁ h₂
        · cases h₂
      · cases h₁
    owned := by
      intro id' storageId hrow
      rw [lookup_keepKeys] at hrow
      split at hrow
      · next hne =>
        rw [lookup_keepKeys, if_pos hne]
        exact ρ.owned id' storageId hrow
      · exact absurd rfl hrow
    given := by
      intro id' hid
      rw [lookup_keepKeys] at hid
      split at hid
      · exact ρ.given id' hid
      · exact absurd rfl hid }

variable {ρ} {id storageId : Uuid} {t : AccessType}

/-! ### What a statement does to the levels -/

lemma level_ne_none (h : ρ.level id storageId ≠ none) : ρ.users.lookup id ≠ none :=
  ρ.owned id storageId h

@[simp] lemma users_putAccess (h : ρ.users.lookup id ≠ none) : (ρ.putAccess id storageId t h).users = ρ.users :=
  rfl

@[simp] lemma next_putAccess (h : ρ.users.lookup id ≠ none) : (ρ.putAccess id storageId t h).next = ρ.next :=
  rfl

@[simp] lemma users_keepAccess (p : Uuid × Uuid → Prop) [DecidablePred p] : (ρ.keepAccess p).users = ρ.users :=
  rfl

@[simp] lemma next_keepAccess (p : Uuid × Uuid → Prop) [DecidablePred p] : (ρ.keepAccess p).next = ρ.next :=
  rfl

lemma level_putAccess (h : ρ.users.lookup id ≠ none) (id' storageId' : Uuid) :
    (ρ.putAccess id storageId t h).level id' storageId' =
      if (id', storageId') = (id, storageId) then some t else ρ.level id' storageId' := by
  unfold level putAccess
  split
  · next hkey =>
    rw [hkey]
    exact AList.lookup_insert ρ.access
  · next hkey => exact AList.lookup_insert_ne hkey

lemma level_keepAccess (p : Uuid × Uuid → Prop) [DecidablePred p] (id storageId : Uuid) :
    (ρ.keepAccess p).level id storageId = if p (id, storageId) then ρ.level id storageId else none :=
  lookup_keepKeys (id, storageId)

lemma level_removeUser (id id' storageId : Uuid) :
    (ρ.removeUser id).level id' storageId = if id' ≠ id then ρ.level id' storageId else none :=
  lookup_keepKeys (p := fun key : Uuid × Uuid => key.1 ≠ id) (id', storageId)

lemma users_removeUser (id id' : Uuid) :
    (ρ.removeUser id).users.lookup id' = if id' ≠ id then ρ.users.lookup id' else none :=
  lookup_keepKeys (p := (· ≠ id)) id'

lemma register_cases (ρ : Roster) (email : List Char) :
    (ρ.byEmail? email = none ∧ (ρ.register email).users = ρ.users.insert ρ.next email ∧
        (ρ.register email).next = ρ.next + 1 ∧ (ρ.register email).access = ρ.access) ∨
      ρ.register email = ρ := by
  by_cases h : ρ.byEmail? email = none
  · left
    unfold register
    rw [dif_pos h]
    exact ⟨h, rfl, rfl, rfl⟩
  · right
    exact dif_neg h

lemma grantForUserId_ok {storages : List Uuid} {ρ' : Roster}
    (h : ρ.grantForUserId storages storageId id t = .ok ρ') :
    ∃ hid, storageId ∈ storages ∧ ρ' = ρ.putAccess id storageId t hid := by
  unfold grantForUserId at h
  split at h
  · next hid =>
    split at h
    · next hstorage =>
      cases h
      exact ⟨hid, hstorage, rfl⟩
    · cases h
  · cases h

lemma createOrUpdate_ok {storages : List Uuid} {email : List Char} {ρ' : Roster}
    (h : ρ.createOrUpdate storages storageId email t = .ok ρ') :
    ∃ id hid, ρ.byEmail? email = some id ∧ storageId ∈ storages ∧ ρ' = ρ.putAccess id storageId t hid := by
  unfold createOrUpdate at h
  split at h
  · next id hemail =>
    obtain ⟨hid, hstorage, rfl⟩ := grantForUserId_ok h
    exact ⟨id, hid, hemail, hstorage, rfl⟩
  · cases h

end Roster

end Sarca.Server
