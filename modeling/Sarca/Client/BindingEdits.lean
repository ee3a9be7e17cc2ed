import Mathlib.Data.List.Sort
import Sarca.Lib.Run
import Sarca.Lib.Text
import Sarca.Client.Index

/-!
# Edits of the bindings

The commands that edit a binding (`add_binding`, `remove_binding`, `set_binding_enabled`,
`update_binding_local_path`, `update_binding_remote_root`) and the engine's `heal_stale_storage` share the
table of bindings. Most of them read a whole row, change a field and write the whole row back, and anything
may happen in between. `Editor` is the index with the calls under way; `Editor.step` is one index call.

What the edits mean is `inForce`: each edit that was acknowledged changes its own field of a binding that
is there. `Kept` says that the table is what the edits mean, that no removed binding is back, and that one
binding at most uploads the camera. It holds throughout a run just when every row is written over the row
it was read from, and every camera binding into a table without another one.
-/

namespace Sarca.Client

def LocalIndex.listBindings (ix : LocalIndex) : List Binding :=
  (ix.bindings.entries.map fun e => e.2.toBinding).insertionSort fun b b' => b.id ≤ b'.id

namespace Edits
open Sarca.Lib Sarca.Server

/-! ## What edits mean -/

/-- A field of a binding, with the value an edit gives it. -/
inductive Change where
  | enabled (on : Bool)
  | localPath (path : Path)
  | remoteRoot (root : Path)
  | storageId (storage : Uuid)
deriving DecidableEq

def Change.apply (b : Binding) : Change → Binding
  | .enabled on => { b with enabled := on }
  | .localPath path => { b with localPath := path }
  | .remoteRoot root => { b with remoteRoot := root }
  | .storageId storage => { b with storageId := storage }

inductive Edit where
  | added (b : Binding)
  | removed (id : BindingId)
  | changed (id : BindingId) (c : Change)
deriving DecidableEq

abbrev Table := BindingId → Option Binding

def Edit.apply (t : Table) : Edit → Table
  | .added b => Function.update t b.id (some b)
  | .removed id => Function.update t id none
  | .changed id c => Function.update t id ((t id).map fun b => c.apply b)

/-- The bindings as the edits leave them, each changing its own field. -/
def inForce (log : List Edit) : Table :=
  log.foldl Edit.apply fun _ => none

lemma Change.id_apply {b : Binding} {c : Change} : (c.apply b).id = b.id := by
  cases c <;> rfl

lemma Change.mode_apply {b : Binding} {c : Change} : (c.apply b).mode = b.mode := by
  cases c <;> rfl

lemma inForce_append (log : List Edit) (e : Edit) : inForce (log ++ [e]) = e.apply (inForce log) := by
  unfold inForce
  rw [List.foldl_append]
  rfl

def Change.SameField : Change → Change → Prop
  | .enabled _, .enabled _ => True
  | .localPath _, .localPath _ => True
  | .remoteRoot _, .remoteRoot _ => True
  | .storageId _, .storageId _ => True
  | _, _ => False

/-- An edit leaves the field of another edit alone. -/
def Edit.Spares (id : BindingId) (c : Change) : Edit → Prop
  | .added b => b.id ≠ id
  | .removed _ => True
  | .changed id' c' => id' = id → ¬ c.SameField c'

lemma Change.apply_apply {b : Binding} {c c' : Change} (hfield : ¬ c.SameField c') (h : c.apply b = b) :
    c.apply (c'.apply b) = c'.apply b := by
  have hcomm : c.apply (c'.apply b) = c'.apply (c.apply b) := by
    cases c <;> cases c' <;> first
      | rfl
      | exact absurd trivial hfield
  rw [hcomm, h]

lemma inForce_changed {id : BindingId} {b : Binding} {c : Change} {log post : List Edit}
    (hpost : ∀ e ∈ post, e.Spares id c) (hb : inForce (log ++ .changed id c :: post) id = some b) : c.apply b = b := by
  induction post using List.reverseRecOn generalizing b with
  | nil =>
    rw [inForce_append] at hb
    unfold Edit.apply at hb
    dsimp only at hb
    rw [Function.update_self] at hb
    obtain ⟨a, -, rfl⟩ := Option.map_eq_some_iff.mp hb
    cases c <;> rfl
  | append_singleton post e ih =>
    rw [← List.cons_append, ← List.append_assoc, inForce_append] at hb
    have ih : ∀ a, inForce (log ++ .changed id c :: post) id = some a → c.apply a = a := fun a ha =>
      ih (fun e he => hpost e (List.mem_append_left _ he)) ha
    have he := hpost e (List.mem_append_right _ List.mem_cons_self)
    cases e with
    | added a =>
      rw [Edit.apply, Function.update_of_ne (Ne.symm he)] at hb
      exact ih b hb
    | removed id' =>
      rw [Edit.apply, Function.update_apply] at hb
      split at hb
      · exact absurd hb.symm (Option.some_ne_none b)
      · exact ih b hb
    | changed id' c' =>
      rw [Edit.apply, Function.update_apply] at hb
      split at hb
      · case isTrue heq =>
        subst heq
        obtain ⟨a, ha, rfl⟩ := Option.map_eq_some_iff.mp hb
        exact Change.apply_apply (he rfl) (ih a ha)
      · exact ih b hb

/-! ## The calls -/

inductive Call where
  /-- `add_binding` of a camera binding, before it lists the others. -/
  | listing (b : Binding)
  /-- `add_binding` with the bindings that are still to be removed. -/
  | removing (b : Binding) (ids : List BindingId)
  /-- An update, before it looks its binding up. -/
  | reading (id : BindingId) (c : Change)
  /-- An update with its copy of the row. -/
  | writing (copy : Binding) (c : Change)
  /-- A tick's copy of a row, before `list_storages` answers. -/
  | healing (copy : Binding)
  | returned (answer : Except String Unit)

def Call.new : Call → Option Binding
  | .listing b => some b
  | .removing b _ => some b
  | _ => none

def Call.copy : Call → Option Binding
  | .writing copy _ => some copy
  | .healing copy => some copy
  | _ => none

/-- The index, the calls under way, and what the code does not keep: the ids `Uuid::new_v4` gave, those of
    them that were inserted and those whose removal has returned, and the acknowledged edits. -/
structure Editor where
  index : LocalIndex
  calls : List Call
  used : List BindingId
  added : List BindingId
  gone : List BindingId
  log : List Edit

inductive Act where
  | addBinding (id : BindingId) (storageId : Uuid) (remoteRoot localPath : Path) (mode : BindingMode)
  | removeBinding (id : BindingId)
  | setBindingEnabled (id : BindingId) (enabled : Bool)
  | updateBindingLocalPath (id : BindingId) (localPath : Path)
  | updateBindingRemoteRoot (id : BindingId) (remoteRoot : Path)
  /-- A tick lists the bindings and takes its copy of one that is enabled. -/
  | tick (id : BindingId)
  /-- The next index call of a command. -/
  | next (i : Nat)
  /-- `list_storages` answers a tick. -/
  | healStaleStorage (i : Nat) (storages : List Uuid)
  /-- An index call fails, and the command with it. -/
  | refuse (i : Nat) (message : String)
  /-- A pass notes how far the feed of a binding was read. -/
  | setCursor (id : BindingId) (cursor : Int)
  | restart

/-- Rust `trim_matches('/')`. -/
def trimSlashes (text : Path) : Path :=
  trimBy (· = '/') text

def isUploadOnly (mode : BindingMode) : Bool :=
  mode = .autoUpload || mode = .folderUpload

/-- Why a two-way binding is not changed (Rust `ensure_local_path_change_allowed` and
    `ensure_remote_root_change_allowed`). -/
def refusal : Change → String
  | .localPath _ => "Changing the local folder is only supported for upload-only bindings"
  | _ => "Changing the remote folder is only supported for upload-only bindings"

def newBinding (id : BindingId) (storageId : Uuid) (remoteRoot localPath : Path) (mode : BindingMode) :
    Binding where
  id := id
  storageId := storageId
  remoteRoot := remoteRoot
  localPath := localPath
  mode := mode
  enabled := true

namespace Editor

def new : Editor where
  index := .new
  calls := []
  used := []
  added := []
  gone := []
  log := []

def begin (σ : Editor) (c : Call) : Editor :=
  { σ with calls := σ.calls ++ [c] }

def goOn (σ : Editor) (i : Nat) (c : Call) : Editor :=
  { σ with calls := σ.calls.set i c }

def remove (σ : Editor) (id : BindingId) : Editor :=
  { σ with
    index := σ.index.removeBinding id
    gone := if id ∈ σ.added then id :: σ.gone else σ.gone
    log := σ.log ++ [.removed id] }

def insert (σ : Editor) (b : Binding) : Editor :=
  { σ with
    index := σ.index.upsertBinding b
    added := b.id :: σ.added
    log := σ.log ++ [.added b] }

/-- A whole row is written, with one field changed. -/
def write (σ : Editor) (copy : Binding) (c : Change) : Editor :=
  { σ with
    index := σ.index.upsertBinding (c.apply copy)
    log := σ.log ++ [.changed copy.id c] }

/-- The camera bindings besides `b`. -/
def others (σ : Editor) (b : Binding) : List BindingId :=
  (σ.index.listBindings.filter fun b' => b'.mode = .autoUpload ∧ b'.id ≠ b.id).map (·.id)

def advance (σ : Editor) (i : Nat) : Call → Editor
  | .listing b => σ.goOn i (.removing b (σ.others b))
  | .removing b (id :: ids) => (σ.remove id).goOn i (.removing b ids)
  | .removing b [] => (σ.insert b).goOn i (.returned (.ok ()))
  | .reading id c =>
    match σ.index.listBindings.find? fun b => b.id = id with
    | none => σ.goOn i (.returned (.error s!"binding not found: {id}"))
    | some b =>
      if isUploadOnly b.mode then σ.goOn i (.writing b c)
      else σ.goOn i (.returned (.error (refusal c)))
  | .writing copy c => (σ.write copy c).goOn i (.returned (.ok ()))
  | .healing _ => σ
  | .returned _ => σ

def step (σ : Editor) : Act → Editor
  | .addBinding id storageId remoteRoot localPath mode =>
    if id ∈ σ.used then σ
    else
      let b := newBinding id storageId remoteRoot localPath mode
      { σ with used := id :: σ.used }.begin (if mode = BindingMode.autoUpload then .listing b else .removing b [])
  | .removeBinding id => σ.remove id
  | .setBindingEnabled id enabled =>
    match σ.index.setBindingEnabled id enabled with
    | none => σ
    | some index => { σ with index := index, log := σ.log ++ [.changed id (.enabled enabled)] }
  | .updateBindingLocalPath id localPath => σ.begin (.reading id (.localPath localPath))
  | .updateBindingRemoteRoot id remoteRoot => σ.begin (.reading id (.remoteRoot (trimSlashes (trim remoteRoot))))
  | .tick id =>
    match σ.index.binding id with
    | none => σ
    | some row => if row.enabled then σ.begin (.healing row.toBinding) else σ
  | .next i =>
    match σ.calls[i]? with
    | none => σ
    | some c => σ.advance i c
  | .healStaleStorage i storages =>
    match σ.calls[i]? with
    | some (.healing copy) =>
      if copy.storageId ∈ storages then σ.goOn i (.returned (.ok ()))
      else match storages with
        | [only] => (σ.write copy (.storageId only)).goOn i (.returned (.ok ()))
        | _ => σ.goOn i (.returned (.ok ()))
    | _ => σ
  | .refuse i message =>
    match σ.calls[i]? with
    | none => σ
    | some _ => σ.goOn i (.returned (.error message))
  | .setCursor id cursor => { σ with index := σ.index.setCursor id cursor }
  | .restart => { σ with calls := [] }

/-! ## The property and the condition -/

def table (σ : Editor) : Table := fun id => (σ.index.binding id).map (·.toBinding)

/-- The rows are what the edits mean, no removed binding is back, and there is one camera binding at most. -/
structure Kept (σ : Editor) : Prop where
  inForce : σ.table = inForce σ.log
  gone : ∀ id ∈ σ.gone, σ.table id = none
  one : ∀ id b id' b', σ.table id = some b → σ.table id' = some b' →
    b.mode = .autoUpload → b'.mode = .autoUpload → id = id'

/-- The row is there, and the copy differs from it in the changed field at most. -/
def Current (σ : Editor) (copy : Binding) (c : Change) : Prop :=
  (σ.table copy.id).map (fun b => c.apply b) = some (c.apply copy)

def Alone (σ : Editor) (b : Binding) : Prop :=
  b.mode = .autoUpload → ∀ id b', σ.table id = some b' → b'.mode = .autoUpload → id = b.id

/-- What the next index call of a command has to find. -/
def Finds (σ : Editor) : Call → Prop
  | .writing copy c => σ.Current copy c
  | .removing b [] => σ.Alone b
  | _ => True

/-- A step writes a row back over the one it was read from, and adds a camera binding to a table without
    another one. -/
def Undisturbed (σ : Editor) : Act → Prop
  | .next i => ∀ call, σ.calls[i]? = some call → σ.Finds call
  | .healStaleStorage i storages => ∀ copy only, σ.calls[i]? = some (.healing copy) →
      copy.storageId ∉ storages → storages = [only] → σ.Current copy (.storageId only)
  | _ => True

/-! ## What is about to be added -/

def pending (σ : Editor) (i : Nat) : Option Binding :=
  σ.calls[i]?.bind Call.new

/-- Ids are given once, and only what was added can be gone. -/
structure Sound (σ : Editor) : Prop where
  added : ∀ id ∈ σ.added, id ∈ σ.used
  gone : ∀ id ∈ σ.gone, id ∈ σ.added
  fresh : ∀ i b, σ.pending i = some b → b.id ∈ σ.used ∧ b.id ∉ σ.added
  apart : ∀ i j b b', σ.pending i = some b → σ.pending j = some b' → b.id = b'.id → i = j

variable {σ σ' : Editor} {i : Nat} {id : BindingId} {b copy : Binding} {c : Change} {call call' : Call}
  {ids : List BindingId}

lemma Sound.new : Editor.new.Sound where
  added _ h := absurd h List.not_mem_nil
  gone _ h := absurd h List.not_mem_nil
  fresh _ _ h := absurd h.symm (Option.some_ne_none _)
  apart _ _ _ _ h := absurd h.symm (Option.some_ne_none _)

lemma Sound.of_pending (h : σ.Sound) (hused : σ'.used = σ.used) (hadded : σ'.added = σ.added)
    (hgone : ∀ id ∈ σ'.gone, id ∈ σ.added)
    (hpending : ∀ i b, σ'.pending i = some b → σ.pending i = some b) : σ'.Sound where
  added := by
    rw [hused, hadded]
    exact h.added
  gone := by
    rw [hadded]
    exact hgone
  fresh i b hb := by
    rw [hused, hadded]
    exact h.fresh i b (hpending i b hb)
  apart i j b b' hb hb' := h.apart i j b b' (hpending i b hb) (hpending j b' hb')

lemma pending_goOn {j : Nat} :
    (σ.goOn i call).pending j = some b → j = i ∧ call.new = some b ∨ j ≠ i ∧ σ.pending j = some b := by
  intro hb
  unfold pending goOn at hb
  dsimp only at hb
  rcases eq_or_ne j i with rfl | hne
  · obtain ⟨call', hcall', hnew⟩ := Option.bind_eq_some_iff.mp hb
    rw [List.getElem?_set_self'] at hcall'
    obtain ⟨_, -, rfl⟩ := Option.map_eq_some_iff.mp hcall'
    exact .inl ⟨rfl, hnew⟩
  · rw [List.getElem?_set_ne hne.symm] at hb
    exact .inr ⟨hne, hb⟩

lemma pending_begin {j : Nat} (hb : (σ.begin call).pending j = some b) :
    j = σ.calls.length ∧ call.new = some b ∨ j ≠ σ.calls.length ∧ σ.pending j = some b := by
  unfold pending begin at hb
  dsimp only at hb
  rcases lt_trichotomy j σ.calls.length with hlt | heq | hgt
  · rw [List.getElem?_append_left hlt] at hb
    exact .inr ⟨hlt.ne, hb⟩
  · subst heq
    rw [List.getElem?_concat_length] at hb
    exact .inl ⟨rfl, hb⟩
  · rw [List.getElem?_eq_none (by rw [List.length_append, List.length_singleton]; omega)] at hb
    exact absurd hb.symm (Option.some_ne_none b)

lemma Sound.goOn (h : σ.Sound) (hnew : ∀ b, call.new = some b → σ.pending i = some b) :
    (σ.goOn i call).Sound := by
  refine h.of_pending rfl rfl h.gone fun j b hb => ?_
  rcases pending_goOn hb with ⟨rfl, hb'⟩ | ⟨-, hb'⟩
  · exact hnew b hb'
  · exact hb'

lemma Sound.ended (h : σ.Sound) (answer : Except String Unit) : (σ.goOn i (.returned answer)).Sound :=
  h.goOn fun b hb => absurd hb.symm (Option.some_ne_none b)

lemma Sound.begin (h : σ.Sound) (hnew : call.new = none) : (σ.begin call).Sound := by
  refine h.of_pending rfl rfl h.gone fun j b hb => ?_
  rcases pending_begin hb with ⟨-, hb⟩ | ⟨-, hb⟩
  · rw [hnew] at hb
    exact absurd hb.symm (Option.some_ne_none b)
  · exact hb

lemma Sound.write (h : σ.Sound) : (σ.write copy c).Sound :=
  h.of_pending rfl rfl h.gone fun _ _ hb => hb

lemma Sound.remove (h : σ.Sound) (id : BindingId) : (σ.remove id).Sound := by
  refine h.of_pending rfl rfl ?_ fun j b hb => hb
  intro id' hid'
  unfold Editor.remove at hid'
  dsimp only at hid'
  split at hid'
  · case isTrue hid =>
    rcases List.mem_cons.mp hid' with rfl | hid'
    · exact hid
    · exact h.gone id' hid'
  · exact h.gone id' hid'

lemma Sound.insert (h : σ.Sound) (hb : σ.pending i = some b) (answer : Except String Unit) :
    ((σ.insert b).goOn i (.returned answer)).Sound := by
  have hpending : ∀ j b', ((σ.insert b).goOn i (.returned answer)).pending j = some b' →
      j ≠ i ∧ σ.pending j = some b' := by
    intro j b' hb'
    rcases pending_goOn hb' with ⟨-, hb'⟩ | ⟨hne, hb'⟩
    · exact absurd hb'.symm (Option.some_ne_none b')
    · exact ⟨hne, hb'⟩
  refine ⟨?_, fun id hid => List.mem_cons_of_mem _ (h.gone id hid), ?_, ?_⟩
  · intro id hid
    rcases List.mem_cons.mp hid with rfl | hid
    · exact (h.fresh i b hb).1
    · exact h.added id hid
  · intro j b' hb'
    obtain ⟨hne, hb'⟩ := hpending j b' hb'
    refine ⟨(h.fresh j b' hb').1, fun hmem => ?_⟩
    rcases List.mem_cons.mp hmem with heq | hmem
    · exact hne (h.apart j i b' b hb' hb heq)
    · exact (h.fresh j b' hb').2 hmem
  · intro j k b' b'' hb' hb''
    exact h.apart j k b' b'' (hpending j b' hb').2 (hpending k b'' hb'').2

lemma Sound.beginNew (h : σ.Sound) (hid : b.id ∉ σ.used) (hnew : call.new = some b) :
    Sound (({ σ with used := b.id :: σ.used } : Editor).begin call) := by
  have hpending : ∀ j b', (({ σ with used := b.id :: σ.used } : Editor).begin call).pending j = some b' →
      j = σ.calls.length ∧ b' = b ∨ σ.pending j = some b' := by
    intro j b' hb'
    rcases pending_begin hb' with ⟨hj, hb'⟩ | ⟨-, hb'⟩
    · rw [hnew] at hb'
      exact .inl ⟨hj, (Option.some.inj hb').symm⟩
    · exact .inr hb'
  have hother : ∀ j b', σ.pending j = some b' → b'.id ≠ b.id := by
    intro j b' hb' heq
    exact hid (heq ▸ (h.fresh j b' hb').1)
  refine ⟨fun id hid => List.mem_cons_of_mem _ (h.added id hid), h.gone, ?_, ?_⟩
  · intro j b' hb'
    rcases hpending j b' hb' with ⟨-, rfl⟩ | hb'
    · exact ⟨List.mem_cons_self, fun hmem => hid (h.added _ hmem)⟩
    · exact ⟨List.mem_cons_of_mem _ (h.fresh j b' hb').1, (h.fresh j b' hb').2⟩
  · intro j k b' b'' hb' hb'' heq
    rcases hpending j b' hb' with ⟨hj, hb'⟩ | hb' <;> rcases hpending k b'' hb'' with ⟨hk, hb''⟩ | hb''
    · exact hj.trans hk.symm
    · exact absurd (heq.symm.trans (congrArg Binding.id hb')) (hother k b'' hb'')
    · exact absurd (heq.trans (congrArg Binding.id hb'')) (hother j b' hb')
    · exact h.apart j k b' b'' hb' hb'' heq

lemma Sound.advance (h : σ.Sound) (hcall : σ.calls[i]? = some call) : (σ.advance i call).Sound := by
  have hpending : σ.pending i = call.new := by
    unfold pending
    rw [hcall]
    rfl
  cases call with
  | listing b => exact h.goOn fun b' hb' => hpending.trans hb'
  | removing b ids =>
    cases ids with
    | nil => exact h.insert hpending _
    | cons id ids => exact (h.remove id).goOn fun b' hb' => hpending.trans hb'
  | reading id c =>
    simp only [Editor.advance]
    split
    · exact h.ended _
    · split
      · exact h.goOn fun b' hb' => absurd hb'.symm (Option.some_ne_none b')
      · exact h.ended _
  | writing copy c => exact h.write.ended _
  | healing copy => exact h
  | returned answer => exact h

lemma Sound.step (h : σ.Sound) (a : Act) : (σ.step a).Sound := by
  cases a with
  | addBinding id storageId remoteRoot localPath mode =>
    simp only [Editor.step]
    split
    · exact h
    · case isFalse hid =>
      refine h.beginNew (b := newBinding id storageId remoteRoot localPath mode) hid ?_
      split <;> rfl
  | removeBinding id => exact h.remove id
  | setBindingEnabled id enabled =>
    simp only [Editor.step]
    split
    · exact h
    · exact h.of_pending rfl rfl h.gone fun j b hb => hb
  | updateBindingLocalPath id localPath => exact h.begin rfl
  | updateBindingRemoteRoot id remoteRoot => exact h.begin rfl
  | tick id =>
    simp only [Editor.step]
    split
    · exact h
    · split
      · exact h.begin rfl
      · exact h
  | next i =>
    simp only [Editor.step]
    split
    · exact h
    · case h_2 call hcall => exact h.advance hcall
  | healStaleStorage i storages =>
    simp only [Editor.step]
    split
    · case h_1 copy hcall =>
      split
      · exact h.ended _
      · split
        · exact h.write.ended _
        · exact h.ended _
    · exact h
  | refuse i message =>
    simp only [Editor.step]
    split
    · exact h
    · exact h.ended _
  | setCursor id cursor => exact h.of_pending rfl rfl h.gone fun j b hb => hb
  | restart =>
    refine h.of_pending rfl rfl h.gone fun j b hb => ?_
    simp only [pending, Editor.step] at hb
    rw [List.getElem?_nil] at hb
    exact absurd hb.symm (Option.some_ne_none b)

/-! ## What the index calls do to the bindings -/

lemma table_upsertBinding (h : σ'.index = σ.index.upsertBinding b) :
    σ'.table = Function.update σ.table b.id (some b) := by
  funext id
  unfold table
  rw [h, LocalIndex.binding_upsertBinding, Function.update_apply]
  split <;> rfl

lemma table_removeBinding (h : σ'.index = σ.index.removeBinding id) :
    σ'.table = Function.update σ.table id none := by
  funext id'
  unfold table
  rw [h, LocalIndex.binding_removeBinding, Function.update_apply]
  split <;> rfl

lemma table_setBindingEnabled {enabled : Bool} (h : σ.index.setBindingEnabled id enabled = some σ'.index) :
    σ'.table = Function.update σ.table id ((σ.table id).map fun b => (Change.enabled enabled).apply b) := by
  funext id'
  unfold table
  rw [(LocalIndex.binding_setBindingEnabled id' h).2, Function.update_apply]
  split
  · case isTrue heq =>
    subst heq
    cases σ.index.binding id' <;> rfl
  · rfl

lemma table_setCursor (id : BindingId) (cursor : Int) (h : σ'.index = σ.index.setCursor id cursor) :
    σ'.table = σ.table := by
  funext id'
  unfold table
  rw [h, LocalIndex.binding_setCursor]
  split
  · cases σ.index.binding id' <;> rfl
  · rfl

/-! ## What a step does to the edits in force -/

lemma Kept.of_same (h : σ.Kept) (htable : σ'.table = σ.table) (hgone : σ'.gone = σ.gone)
    (hlog : σ'.log = σ.log) : σ'.Kept where
  inForce := by
    rw [htable, hlog]
    exact h.inForce
  gone := by
    rw [htable, hgone]
    exact h.gone
  one := by
    rw [htable]
    exact h.one

@[simp] lemma kept_goOn : (σ.goOn i call).Kept ↔ σ.Kept :=
  ⟨fun h => h.of_same rfl rfl rfl, fun h => h.of_same rfl rfl rfl⟩

@[simp] lemma kept_begin : (σ.begin call).Kept ↔ σ.Kept :=
  ⟨fun h => h.of_same rfl rfl rfl, fun h => h.of_same rfl rfl rfl⟩

lemma Kept.change (h : σ.Kept) (id : BindingId) (c : Change)
    (htable : σ'.table = Function.update σ.table id ((σ.table id).map fun b => c.apply b))
    (hgone : σ'.gone = σ.gone) (hlog : σ'.log = σ.log ++ [.changed id c]) : σ'.Kept := by
  -- a row after the edit was there before, with the same mode
  have hbefore : ∀ id' b', σ'.table id' = some b' → ∃ b, σ.table id' = some b ∧ b.mode = b'.mode := by
    intro id' b' hb'
    rw [htable, Function.update_apply] at hb'
    split at hb'
    · case isTrue heq =>
      subst heq
      obtain ⟨b, hb, rfl⟩ := Option.map_eq_some_iff.mp hb'
      exact ⟨b, hb, Change.mode_apply.symm⟩
    · exact ⟨b', hb', rfl⟩
  refine ⟨?_, ?_, ?_⟩
  · rw [hlog, inForce_append, htable, ← h.inForce]
    rfl
  · intro id' hid'
    rw [hgone] at hid'
    have hnone := h.gone id' hid'
    cases hrow : σ'.table id' with
    | none => rfl
    | some b' =>
      obtain ⟨b, hb, -⟩ := hbefore id' b' hrow
      exact absurd (hnone.symm.trans hb).symm (Option.some_ne_none b)
  · intro id₁ b₁ id₂ b₂ h₁ h₂ hm₁ hm₂
    obtain ⟨a₁, ha₁, hmode₁⟩ := hbefore id₁ b₁ h₁
    obtain ⟨a₂, ha₂, hmode₂⟩ := hbefore id₂ b₂ h₂
    exact h.one id₁ a₁ id₂ a₂ ha₁ ha₂ (hmode₁.trans hm₁) (hmode₂.trans hm₂)

/-- Writing a copy back is an edit of its field when the copy is current, and undoes something else
    when it is not. -/
lemma kept_write (h : σ.Kept) : (σ.write copy c).Kept ↔ σ.Current copy c := by
  have htable : (σ.write copy c).table = Function.update σ.table copy.id (some (c.apply copy)) := by
    rw [table_upsertBinding (σ := σ) (b := c.apply copy) rfl, Change.id_apply]
  constructor
  · intro hk
    have heq := congrFun hk.inForce copy.id
    rw [htable, show (σ.write copy c).log = σ.log ++ [.changed copy.id c] from rfl, inForce_append,
      ← h.inForce, Function.update_self] at heq
    unfold Current
    rw [heq]
    exact (Function.update_self copy.id _ σ.table).symm
  · intro hcurrent
    refine h.change copy.id c ?_ rfl rfl
    rw [htable, ← hcurrent]

lemma Kept.remove (h : σ.Kept) (id : BindingId) : (σ.remove id).Kept := by
  have htable : (σ.remove id).table = Function.update σ.table id none := table_removeBinding rfl
  have hbefore : ∀ id' b', (σ.remove id).table id' = some b' → σ.table id' = some b' := by
    intro id' b' hb'
    rw [htable, Function.update_apply] at hb'
    split at hb'
    · exact absurd hb'.symm (Option.some_ne_none b')
    · exact hb'
  refine ⟨?_, ?_, ?_⟩
  · rw [show (σ.remove id).log = σ.log ++ [.removed id] from rfl, inForce_append, htable, ← h.inForce]
    rfl
  · intro id' hid'
    rw [htable, Function.update_apply]
    split
    · rfl
    · case isFalse hne =>
      refine h.gone id' ?_
      unfold Editor.remove at hid'
      dsimp only at hid'
      split at hid'
      · exact (List.mem_cons.mp hid').resolve_left hne
      · exact hid'
  · intro id₁ b₁ id₂ b₂ h₁ h₂
    exact h.one id₁ b₁ id₂ b₂ (hbefore id₁ b₁ h₁) (hbefore id₂ b₂ h₂)

lemma kept_insert (hs : σ.Sound) (h : σ.Kept) (hb : σ.pending i = some b) :
    (σ.insert b).Kept ↔ σ.Alone b := by
  have htable : (σ.insert b).table = Function.update σ.table b.id (some b) := table_upsertBinding rfl
  have hself : (σ.insert b).table b.id = some b := by rw [htable, Function.update_self]
  have hrow : ∀ id b', id ≠ b.id → σ.table id = some b' → (σ.insert b).table id = some b' := by
    intro id b' hne hb'
    rw [htable, Function.update_of_ne hne]
    exact hb'
  constructor
  · intro hk hmode id b' hb' hmode'
    by_contra hne
    exact hne (hk.one id b' b.id b (hrow id b' hne hb') hself hmode' hmode)
  · intro halone
    have hbefore : ∀ id b', (σ.insert b).table id = some b' →
        id = b.id ∧ b' = b ∨ σ.table id = some b' := by
      intro id b' hb'
      rw [htable, Function.update_apply] at hb'
      split at hb'
      · case isTrue heq => exact .inl ⟨heq, (Option.some.inj hb').symm⟩
      · exact .inr hb'
    refine ⟨?_, ?_, ?_⟩
    · rw [show (σ.insert b).log = σ.log ++ [.added b] from rfl, inForce_append, htable, ← h.inForce]
      rfl
    · intro id hid
      have hne : id ≠ b.id := by
        rintro rfl
        exact (hs.fresh i b hb).2 (hs.gone b.id hid)
      rw [htable, Function.update_of_ne hne]
      exact h.gone id hid
    · intro id₁ b₁ id₂ b₂ h₁ h₂ hm₁ hm₂
      rcases hbefore id₁ b₁ h₁ with ⟨rfl, rfl⟩ | h₁' <;> rcases hbefore id₂ b₂ h₂ with ⟨rfl, hb₂⟩ | h₂'
      · rfl
      · exact (halone hm₁ id₂ b₂ h₂' hm₂).symm
      · subst hb₂
        exact halone hm₂ id₁ b₁ h₁' hm₁
      · exact h.one id₁ b₁ id₂ b₂ h₁' h₂' hm₁ hm₂

lemma kept_advance (hs : σ.Sound) (h : σ.Kept) (hcall : σ.calls[i]? = some call) :
    (σ.advance i call).Kept ↔ σ.Undisturbed (.next i) := by
  have hcond : σ.Undisturbed (.next i) ↔ σ.Finds call := by
    constructor
    · intro hok
      exact hok call hcall
    · intro hok call' hcall'
      obtain rfl := Option.some.inj (hcall.symm.trans hcall')
      exact hok
  rw [hcond]
  have hpending : σ.pending i = call.new := by
    unfold pending
    rw [hcall]
    rfl
  cases call with
  | listing b =>
    simp only [Editor.advance, Finds, iff_true]
    exact kept_goOn.mpr h
  | removing b ids =>
    cases ids with
    | nil =>
      simp only [Editor.advance]
      rw [kept_goOn]
      exact kept_insert hs h hpending
    | cons id ids =>
      simp only [Editor.advance, Finds, iff_true]
      exact kept_goOn.mpr (h.remove id)
  | reading id c =>
    simp only [Editor.advance, Finds, iff_true]
    split
    · exact kept_goOn.mpr h
    · split
      · exact kept_goOn.mpr h
      · exact kept_goOn.mpr h
  | writing copy c =>
    simp only [Editor.advance]
    rw [kept_goOn]
    exact kept_write h
  | healing copy => exact ⟨fun _ => trivial, fun _ => h⟩
  | returned answer => exact ⟨fun _ => trivial, fun _ => h⟩

/-- A step keeps the edits just when what it writes back is what it read. -/
lemma kept_step (hs : σ.Sound) (h : σ.Kept) (a : Act) : (σ.step a).Kept ↔ σ.Undisturbed a := by
  cases a with
  | addBinding id storageId remoteRoot localPath mode =>
    simp only [Editor.step, Undisturbed, iff_true]
    split
    · exact h
    · exact kept_begin.mpr (h.of_same rfl rfl rfl)
  | removeBinding id =>
    simp only [Editor.step, Undisturbed, iff_true]
    exact h.remove id
  | setBindingEnabled id enabled =>
    simp only [Editor.step, Undisturbed, iff_true]
    split
    · exact h
    · case h_2 index hindex =>
      refine h.change id (.enabled enabled) ?_ rfl rfl
      exact table_setBindingEnabled hindex
  | updateBindingLocalPath id localPath =>
    simp only [Editor.step, Undisturbed, iff_true]
    exact kept_begin.mpr h
  | updateBindingRemoteRoot id remoteRoot =>
    simp only [Editor.step, Undisturbed, iff_true]
    exact kept_begin.mpr h
  | tick id =>
    simp only [Editor.step, Undisturbed, iff_true]
    split
    · exact h
    · split
      · exact kept_begin.mpr h
      · exact h
  | next i =>
    simp only [Editor.step]
    split
    · case h_1 hnone =>
      refine ⟨fun _ call hcall => ?_, fun _ => h⟩
      exact absurd (hnone.symm.trans hcall).symm (Option.some_ne_none call)
    · case h_2 call hcall => exact kept_advance hs h hcall
  | healStaleStorage i storages =>
    simp only [Editor.step]
    split
    · case h_1 copy hcall =>
      have hcond : σ.Undisturbed (.healStaleStorage i storages) ↔
          ∀ only, copy.storageId ∉ storages → storages = [only] → σ.Current copy (.storageId only) := by
        constructor
        · intro hok only
          exact hok copy only hcall
        · intro hok copy' only hcall'
          cases hcall.symm.trans hcall'
          exact hok only
      rw [hcond]
      split
      · case isTrue hmem =>
        rw [kept_goOn]
        exact ⟨fun _ only hnot => absurd hmem hnot, fun _ => h⟩
      · case isFalse hmem =>
        split
        · case h_1 only =>
          rw [kept_goOn, kept_write h]
          constructor
          · intro hcurrent only' _ heq
            cases heq
            exact hcurrent
          · intro hok
            exact hok only hmem rfl
        · case h_2 hne =>
          rw [kept_goOn]
          exact ⟨fun _ only _ heq => absurd heq (hne only), fun _ => h⟩
    · case h_2 hne =>
      exact ⟨fun _ copy only hcall => absurd hcall (hne copy), fun _ => h⟩
  | refuse i message =>
    simp only [Editor.step, Undisturbed, iff_true]
    split
    · exact h
    · exact kept_goOn.mpr h
  | setCursor id cursor =>
    simp only [Editor.step, Undisturbed, iff_true]
    exact h.of_same (table_setCursor id cursor rfl) rfl rfl
  | restart =>
    simp only [Editor.step, Undisturbed, iff_true]
    exact h.of_same rfl rfl rfl

lemma Kept.new : Editor.new.Kept where
  inForce := rfl
  gone _ h := absurd h List.not_mem_nil
  one _ _ _ _ h := absurd h.symm (Option.some_ne_none _)

/-- Edits are kept, removed bindings stay away and one binding at most uploads the camera, just as long as
    rows are written over what they were read from and a camera binding is added to a table without one. -/
theorem kept_iff_undisturbed (as : List Act) :
    Always step Kept new as ↔ AllOk step Undisturbed new as :=
  always_iff_allOk (I := Sound) (fun _ a h _ => h.step a) (fun _ a hs h => kept_step hs h a)
    Sound.new Kept.new

/-- A tick copies a camera binding, the user removes the binding, and the tick, which finds the storage
    gone and another one left, writes its copy back. -/
theorem removed_binding_back : ¬ ∀ as, Always step Kept new as := by
  intro h
  let as : List Act := [.addBinding "camera" 1 "DCIM".toList "/dcim".toList .autoUpload, .next 0, .next 0,
    .tick "camera", .removeBinding "camera", .healStaleStorage 1 [2]]
  have hgone : "camera" ∈ (run step new as).gone := by decide +kernel
  have hback : ((run step new as).table "camera").isSome := by decide +kernel
  rw [(h as).last.gone "camera" hgone] at hback
  exact absurd hback (by decide)

end Editor

end Edits

end Sarca.Client
