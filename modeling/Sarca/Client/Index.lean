import Sarca.Lib.FileTree
import Sarca.Server.Chunks

/-!
# The index of a client

`LocalIndex` is the SQLite database of `index.rs`: a table each for bindings with their cursors, entries,
conflicts and upload failures, the last three by binding and relative path. A statement on one table leaves
the others alone, and one key's row never changes another's.
-/

namespace Sarca.Client
open Sarca.Lib Sarca.Server

abbrev BindingId := String

inductive BindingMode where
  | sync
  | autoUpload
  | folderUpload
deriving DecidableEq, Repr

structure Binding where
  id : BindingId
  storageId : Uuid
  remoteRoot : Path
  localPath : Path
  mode : BindingMode
  enabled : Bool
deriving DecidableEq, Repr

/-- A row of `bindings`. -/
structure BindingRow extends Binding where
  cursor : Int
deriving DecidableEq, Repr

/-- A row of `entries`, without its key. -/
structure IndexEntry where
  size : Int
  mtimeMs : Int
  contentHash : Option ContentHash
  remoteFileId : Option Uuid
  lastCursor : Int
deriving DecidableEq, Repr

/-- A row of `conflicts`. -/
structure Conflict where
  localHash : Option ContentHash
  remoteHash : Option ContentHash
deriving DecidableEq, Repr

/-- A row of `upload_failures`, without its key. -/
structure UploadFailure where
  failCount : Int
  nextAttemptMs : Int
deriving DecidableEq, Repr

/-- The primary key of `entries`, `conflicts` and `upload_failures`. -/
abbrev Key := BindingId × Path

structure LocalIndex where
  bindings : AList fun _ : BindingId => BindingRow
  entries : AList fun _ : Key => IndexEntry
  conflicts : AList fun _ : Key => Conflict
  uploadFailures : AList fun _ : Key => UploadFailure
deriving DecidableEq

namespace LocalIndex

/-- What `migrate` makes of a new file. -/
def new : LocalIndex where
  bindings := ∅
  entries := ∅
  conflicts := ∅
  uploadFailures := ∅

def binding (ix : LocalIndex) (id : BindingId) : Option BindingRow :=
  ix.bindings.lookup id

/-- A row that is there keeps its cursor, whatever else changes. -/
def upsertBinding (ix : LocalIndex) (b : Binding) : LocalIndex :=
  let cursor := ((ix.binding b.id).map (·.cursor)).getD 0
  { ix with bindings := ix.bindings.insert b.id { b with cursor := cursor } }

def removeBinding (ix : LocalIndex) (id : BindingId) : LocalIndex where
  bindings := ix.bindings.erase id
  entries := discard (fun k => k.1 = id) ix.entries
  conflicts := discard (fun k => k.1 = id) ix.conflicts
  uploadFailures := discard (fun k => k.1 = id) ix.uploadFailures

def setBindingEnabled (ix : LocalIndex) (id : BindingId) (enabled : Bool) : Option LocalIndex :=
  (ix.binding id).map fun row =>
    { ix with bindings := ix.bindings.insert id { row with enabled := enabled } }

def getCursor (ix : LocalIndex) (id : BindingId) : Int :=
  ((ix.binding id).map (·.cursor)).getD 0

def setCursor (ix : LocalIndex) (id : BindingId) (cursor : Int) : LocalIndex :=
  match ix.binding id with
  | some row => { ix with bindings := ix.bindings.insert id { row with cursor := cursor } }
  | none => ix

def getEntry (ix : LocalIndex) (id : BindingId) (rel : Path) : Option IndexEntry :=
  ix.entries.lookup (id, rel)

def upsertEntry (ix : LocalIndex) (id : BindingId) (rel : Path) (e : IndexEntry) : LocalIndex :=
  { ix with entries := ix.entries.insert (id, rel) e }

def deleteEntry (ix : LocalIndex) (id : BindingId) (rel : Path) : LocalIndex :=
  { ix with entries := ix.entries.erase (id, rel) }

def getConflict (ix : LocalIndex) (id : BindingId) (rel : Path) : Option Conflict :=
  ix.conflicts.lookup (id, rel)

def addConflict (ix : LocalIndex) (id : BindingId) (rel : Path) (c : Conflict) : LocalIndex :=
  { ix with conflicts := ix.conflicts.insert (id, rel) c }

def clearConflict (ix : LocalIndex) (id : BindingId) (rel : Path) : LocalIndex :=
  { ix with conflicts := ix.conflicts.erase (id, rel) }

def conflictCount (ix : LocalIndex) (id : BindingId) : Nat :=
  (ix.conflicts.keys.filter fun k => k.1 = id).length

def getUploadFailure (ix : LocalIndex) (id : BindingId) (rel : Path) : Option UploadFailure :=
  ix.uploadFailures.lookup (id, rel)

def setUploadFailure (ix : LocalIndex) (id : BindingId) (rel : Path) (f : UploadFailure) :
    LocalIndex :=
  { ix with uploadFailures := ix.uploadFailures.insert (id, rel) f }

def clearUploadFailure (ix : LocalIndex) (id : BindingId) (rel : Path) : LocalIndex :=
  { ix with uploadFailures := ix.uploadFailures.erase (id, rel) }

def clearUploadBackoff (ix : LocalIndex) (id : BindingId) : LocalIndex :=
  { ix with uploadFailures := discard (fun k => k.1 = id) ix.uploadFailures }

def uploadFailureCount (ix : LocalIndex) (id : BindingId) : Nat :=
  (ix.uploadFailures.keys.filter fun k => k.1 = id).length

variable {ix ix' : LocalIndex} {id id' : BindingId} {b : Binding} {rel rel' : Path} {e : IndexEntry}
  {cursor : Int} {c : Conflict}

/-! ## Bindings -/

lemma binding_upsertBinding : (ix.upsertBinding b).binding id =
    if id = b.id then some { b with cursor := ix.getCursor b.id } else ix.binding id := by
  unfold upsertBinding binding
  split
  · case isTrue h =>
    subst h
    exact AList.lookup_insert _
  · case isFalse h => exact AList.lookup_insert_ne h

lemma binding_removeBinding : (ix.removeBinding id').binding id =
    if id = id' then none else ix.binding id := by
  unfold removeBinding binding
  split
  · case isTrue h =>
    subst h
    exact AList.lookup_erase _ _
  · case isFalse h => exact AList.lookup_erase_ne h

lemma binding_setCursor : (ix.setCursor id' cursor).binding id =
    if id = id' then (ix.binding id).map fun row => { row with cursor := cursor }
    else ix.binding id := by
  unfold setCursor
  cases hrow : ix.binding id' with
  | none =>
    dsimp only
    split
    · case isTrue h =>
      subst h
      rw [hrow]
      rfl
    · rfl
  | some row =>
    dsimp only
    split
    · case isTrue h =>
      subst h
      rw [hrow]
      exact AList.lookup_insert _
    · case isFalse h => exact AList.lookup_insert_ne h

lemma binding_setBindingEnabled {enabled : Bool} (id : BindingId)
    (h : ix.setBindingEnabled id' enabled = some ix') :
    ix'.entries = ix.entries ∧ ix'.binding id =
      if id = id' then (ix.binding id).map fun row => { row with enabled := enabled }
      else ix.binding id := by
  unfold setBindingEnabled at h
  obtain ⟨row, hrow, hix⟩ := Option.map_eq_some_iff.mp h
  subst hix
  refine ⟨rfl, ?_⟩
  split
  · case isTrue heq =>
    subst heq
    rw [hrow]
    exact AList.lookup_insert _
  · case isFalse hne => exact AList.lookup_insert_ne hne

@[simp] lemma binding_upsertEntry : (ix.upsertEntry id' rel e).binding id = ix.binding id := rfl
@[simp] lemma binding_deleteEntry : (ix.deleteEntry id' rel).binding id = ix.binding id := rfl
@[simp] lemma binding_addConflict : (ix.addConflict id' rel c).binding id = ix.binding id := rfl
@[simp] lemma binding_clearConflict : (ix.clearConflict id' rel).binding id = ix.binding id := rfl

/-! ## Entries -/

lemma getEntry_upsertEntry : (ix.upsertEntry id' rel' e).getEntry id rel =
    if id = id' ∧ rel = rel' then some e else ix.getEntry id rel := by
  unfold upsertEntry getEntry
  split
  · case isTrue h =>
    obtain ⟨rfl, rfl⟩ := h
    exact AList.lookup_insert _
  · case isFalse h =>
    refine AList.lookup_insert_ne fun heq => h ?_
    cases heq
    exact ⟨rfl, rfl⟩

lemma getEntry_deleteEntry : (ix.deleteEntry id' rel').getEntry id rel =
    if id = id' ∧ rel = rel' then none else ix.getEntry id rel := by
  unfold deleteEntry getEntry
  split
  · case isTrue h =>
    obtain ⟨rfl, rfl⟩ := h
    exact AList.lookup_erase _ _
  · case isFalse h =>
    refine AList.lookup_erase_ne fun heq => h ?_
    cases heq
    exact ⟨rfl, rfl⟩

lemma getEntry_removeBinding : (ix.removeBinding id').getEntry id rel =
    if id = id' then none else ix.getEntry id rel := by
  unfold removeBinding getEntry
  rw [lookup_discard]
  by_cases h : id = id' <;> simp [h]

@[simp] lemma getEntry_upsertBinding : (ix.upsertBinding b).getEntry id rel = ix.getEntry id rel := rfl
@[simp] lemma getEntry_addConflict :
    (ix.addConflict id' rel' c).getEntry id rel = ix.getEntry id rel := rfl
@[simp] lemma getEntry_clearConflict :
    (ix.clearConflict id' rel').getEntry id rel = ix.getEntry id rel := rfl

@[simp] lemma getEntry_setCursor : (ix.setCursor id' cursor).getEntry id rel = ix.getEntry id rel := by
  unfold setCursor
  split <;> rfl

def recorded (ix : LocalIndex) (id : BindingId) (rel : Path) : Option ContentHash :=
  (ix.getEntry id rel).bind (·.contentHash)

end LocalIndex

end Sarca.Client
