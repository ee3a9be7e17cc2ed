import Sarca.Client.Bound
import Sarca.Client.PushAccounts

/-!
# What an entry rests on

`push_local` writes an entry where the server has the file. `Pushed` is the index with what the server has
told in preflights and in answers to uploads, an upload with the hash that was sent and the bytes that were
read then: a file may change after it is hashed. `TurnOk` is what one file's turn may do, and
`entries_rest_on_told` says it of every turn of every pass.
-/

namespace Sarca.Client
open Sarca.Lib Sarca.Server

/-- What a candidate meets, with the bytes that are read when it is sent. -/
structure SendAnswer extends PushAnswer where
  sent : Bytes

/-- A preflight that finds a path stored, or an upload that was answered so. -/
inductive Told where
  | reported (storageId : Uuid) (remotePath : Path) (hash : ContentHash)
  | accepted (storageId : Uuid) (parent name : Path) (hash : ContentHash) (sent : Bytes)
deriving DecidableEq, Repr

structure Pushed where
  index : LocalIndex
  told : List Told

/-- What `push_local` meets; a file that is listed twice may meet two answers. -/
structure PushPass where
  binding : Binding
  candidates : List LocalCandidate
  nowMs : Int
  answers : Nat → SendAnswer

/-- The pending files, each with what it meets. -/
def PushPass.batch (p : PushPass) (ix : LocalIndex) : List (LocalCandidate × SendAnswer) :=
  (filterPendingCandidates ix p.binding.id p.nowMs p.candidates).zipIdx.map fun ci => (ci.1, p.answers ci.2)

section Turns

variable (sha256 : Bytes → ContentHash) (b : Binding)

def toldBy (c : LocalCandidate) (a : SendAnswer) (ix : LocalIndex) : List Told :=
  (match a.remote.bind fun r => if r.isUploaded then r.contentHash else none with
    | some hash => [.reported b.storageId (joinRemote b.remoteRoot c.relativePath) hash]
    | none => []) ++
  match a.content, (pushOne sha256 b c a.toPushAnswer ix).2 with
  | some bytes, .ok .stored =>
    let (parent, filename) := splitParentName c.relativePath
    [.accepted b.storageId (joinRemote b.remoteRoot parent) filename (sha256 bytes) a.sent]
  | _, _ => []

def pushTurn (s : Pushed) (ca : LocalCandidate × SendAnswer) : Pushed where
  index := (pushNoted sha256 b ca.1 ca.2.toPushAnswer s.index).1
  told := toldBy sha256 b ca.1 ca.2 s.index ++ s.told

/-- The turns of a batch, up to where it stops. -/
def attempted : List (LocalCandidate × SendAnswer) → LocalIndex → Nat → List (LocalCandidate × SendAnswer)
  | [], _, _ => []
  | (c, a) :: rest, ix, consecutive =>
    (c, a) ::
      match pushNoted sha256 b c a.toPushAnswer ix with
      | (ix, .ok _) => attempted rest ix 0
      | (ix, .error .busy) => attempted rest ix consecutive
      | (_, .error .link) => []
      | (ix, .error .file) =>
        if consecutive + 1 ≥ maxConsecutiveUploadFailures then []
        else attempted rest ix (consecutive + 1)

end Turns

section Passes

variable (sha256 : Bytes → ContentHash)

def PushPass.turns (p : PushPass) (s : Pushed) : List (LocalCandidate × SendAnswer) :=
  attempted sha256 p.binding (p.batch s.index) s.index 0

def pushPass (s : Pushed) (p : PushPass) : Pushed :=
  run (pushTurn sha256 p.binding) s (p.turns sha256 s)

/-- The server has said that the file's remote path holds the hash, or has answered an upload of the file with
    it as stored. -/
def Vouched (b : Binding) (rel : Path) (hash : ContentHash) (told : List Told) : Prop :=
  .reported b.storageId (joinRemote b.remoteRoot rel) hash ∈ told ∨
    ∃ sent, .accepted b.storageId (joinRemote b.remoteRoot (splitParentName rel).1) (splitParentName rel).2
      hash sent ∈ told

structure TurnOk (b : Binding) (s : Pushed) (ca : LocalCandidate × SendAnswer) : Prop where
  /-- an entry that is written has its candidate's size and time, and a hash that is vouched for or was there -/
  writes : ∀ id rel e, (pushTurn sha256 b s ca).index.getEntry id rel = some e →
    s.index.getEntry id rel ≠ some e →
    id = b.id ∧ rel = ca.1.relativePath ∧ e.size = ca.1.size ∧ e.mtimeMs = ca.1.mtimeMs ∧
      ∃ hash, e.contentHash = some hash ∧
        (Vouched b rel hash (pushTurn sha256 b s ca).told ∨
          ∃ e₀, s.index.getEntry id rel = some e₀ ∧ e₀.contentHash = some hash)
  /-- a file that is sent as it was hashed is accepted with its own hash -/
  steady : ca.2.content = some ca.2.sent → ∀ storageId parent name hash sent,
    .accepted storageId parent name hash sent ∈ toldBy sha256 b ca.1 ca.2 s.index → hash = sha256 sent
  /-- what is handed off, relaying, busy or failed leaves the entries alone -/
  keeps : (pushNoted sha256 b ca.1 ca.2.toPushAnswer s.index).2 ≠ .ok .stored →
    (pushNoted sha256 b ca.1 ca.2.toPushAnswer s.index).2 ≠ .ok .skipped →
    (pushTurn sha256 b s ca).index.entries = s.index.entries
  /-- what went well is not put off -/
  due : ∀ outcome, (pushNoted sha256 b ca.1 ca.2.toPushAnswer s.index).2 = .ok outcome →
    (pushTurn sha256 b s ca).index.getUploadFailure b.id ca.1.relativePath = none

end Passes

section Passes

variable {sha256 : Bytes → ContentHash} {b : Binding}

lemma run_attempted_index (batch : List (LocalCandidate × SendAnswer)) :
    ∀ (s : Pushed) (t : PushLocalResult) (consecutive : Nat),
      (run (pushTurn sha256 b) s (attempted sha256 b batch s.index consecutive)).index =
        (pushBatch sha256 b (batch.map fun ca => (ca.1, ca.2.toPushAnswer)) s.index t consecutive).1 := by
  induction batch with
  | nil => exact fun s t consecutive => rfl
  | cons ca batch ih =>
    intro s t consecutive
    obtain ⟨c, a⟩ := ca
    have hindex : (pushTurn sha256 b s (c, a)).index = (pushNoted sha256 b c a.toPushAnswer s.index).1 := rfl
    rw [attempted, run_cons, List.map_cons, pushBatch]
    generalize pushTurn sha256 b s (c, a) = s' at hindex ⊢
    generalize pushNoted sha256 b c a.toPushAnswer s.index = noted at hindex ⊢
    obtain ⟨ix, verdict⟩ := noted
    subst hindex
    cases verdict with
    | ok outcome => exact ih s' _ 0
    | error scope =>
      cases scope with
      | busy => exact ih s' t consecutive
      | link => rfl
      | file =>
        dsimp only
        split
        · rfl
        · exact ih s' _ (consecutive + 1)

lemma pushPass_index (s : Pushed) (p : PushPass) : (pushPass sha256 s p).index =
    (pushLocalAt sha256 p.binding p.candidates p.nowMs (fun i => (p.answers i).toPushAnswer) s.index).1 := by
  have hbatch : (p.batch s.index).map (fun ca => (ca.1, ca.2.toPushAnswer)) =
      pendingBatch p.binding p.candidates p.nowMs (fun i => (p.answers i).toPushAnswer) s.index := by
    rw [PushPass.batch, List.map_map]
    rfl
  rw [pushPass, PushPass.turns, run_attempted_index, hbatch]
  rfl

/-! ## A turn -/

lemma pushNoted_entries (c : LocalCandidate) (a : PushAnswer) (ix : LocalIndex) :
    (pushNoted sha256 b c a ix).1.entries = (pushOne sha256 b c a ix).1.entries ∧
      (pushNoted sha256 b c a ix).2 = (pushOne sha256 b c a ix).2 := by
  unfold pushNoted
  generalize pushOne sha256 b c a ix = pushed
  obtain ⟨ix', verdict⟩ := pushed
  cases verdict with
  | ok outcome => exact ⟨rfl, rfl⟩
  | error scope => cases scope <;> exact ⟨rfl, rfl⟩

lemma pushTurn_getEntry (s : Pushed) (ca : LocalCandidate × SendAnswer) (id : BindingId) (rel : Path) :
    (pushTurn sha256 b s ca).index.getEntry id rel =
      (pushOne sha256 b ca.1 ca.2.toPushAnswer s.index).1.getEntry id rel := by
  unfold LocalIndex.getEntry
  rw [← (pushNoted_entries ca.1 ca.2.toPushAnswer s.index).1]
  rfl

lemma eq_of_upsertEntry {ix : LocalIndex} {id id' : BindingId} {rel rel' : Path} {e e' : IndexEntry}
    (h : (ix.upsertEntry id rel e).getEntry id' rel' = some e') (hnew : ix.getEntry id' rel' ≠ some e') :
    id' = id ∧ rel' = rel ∧ e' = e := by
  rw [LocalIndex.getEntry_upsertEntry] at h
  split at h
  · case isTrue hkey => exact ⟨hkey.1, hkey.2, (Option.some.inj h).symm⟩
  · exact absurd h hnew

lemma vouched_of_reported {c : LocalCandidate} {a : SendAnswer} {ix : LocalIndex} {r : RemoteFileStatus}
    {hash : ContentHash} (hr : a.remote = some r) (huploaded : r.isUploaded = true)
    (hhash : r.contentHash = some hash) : Vouched b c.relativePath hash (toldBy sha256 b c a ix) := by
  refine Or.inl (List.mem_append_left _ ?_)
  rw [hr, Option.bind_some, if_pos huploaded, hhash]
  exact List.mem_singleton_self _

lemma vouched_of_accepted {c : LocalCandidate} {a : SendAnswer} {ix : LocalIndex} {bytes : Bytes}
    (hbytes : a.content = some bytes) (hstored : (pushOne sha256 b c a.toPushAnswer ix).2 = .ok .stored) :
    Vouched b c.relativePath (sha256 bytes) (toldBy sha256 b c a ix) := by
  refine Or.inr ⟨a.sent, List.mem_append_right _ ?_⟩
  rw [hbytes, hstored]
  exact List.mem_singleton_self _

lemma Vouched.mono {rel : Path} {hash : ContentHash} {told told' : List Told} (h : Vouched b rel hash told)
    (hsub : told ⊆ told') : Vouched b rel hash told' :=
  h.imp (fun h => hsub h) fun ⟨sent, h⟩ => ⟨sent, hsub h⟩

lemma mem_toldBy_accepted {c : LocalCandidate} {a : SendAnswer} {ix : LocalIndex} {storageId : Uuid}
    {parent name : Path} {hash : ContentHash} {sent : Bytes}
    (h : .accepted storageId parent name hash sent ∈ toldBy sha256 b c a ix) :
    ∃ bytes, a.content = some bytes ∧ hash = sha256 bytes ∧ sent = a.sent := by
  cases List.mem_append.mp h with
  | inl hreported =>
    split at hreported
    · cases List.mem_singleton.mp hreported
    · cases hreported
  | inr haccepted =>
    split at haccepted
    · case h_1 bytes hbytes _ =>
      cases List.mem_singleton.mp haccepted
      exact ⟨bytes, hbytes, rfl, rfl⟩
    · cases haccepted

variable (sha256 b) in
/-- Every turn, whatever it meets. -/
lemma turnOk (s : Pushed) (ca : LocalCandidate × SendAnswer) : TurnOk sha256 b s ca := by
  obtain ⟨c, a⟩ := ca
  have hcase := pushOne_case sha256 b c a.toPushAnswer s.index
  obtain ⟨hentries, hverdict⟩ := @pushNoted_entries sha256 b c a.toPushAnswer s.index
  constructor
  · intro id rel e he hnew
    rw [pushTurn_getEntry] at he
    dsimp only at he ⊢
    have hsub : toldBy sha256 b c a s.index ⊆ (pushTurn sha256 b s (c, a)).told := List.subset_append_left _ _
    generalize hres : pushOne sha256 b c a.toPushAnswer s.index = res at hcase he
    cases hcase with
    | relaying hr hrelaying hsize => exact absurd he hnew
    | unread hno => exact absurd he hnew
    | refused hbytes hnew' hup => exact absurd he hnew
    | handedOff hbytes hnew' hup => exact absurd he hnew
    | touched hbytes he₀ hsame =>
      obtain ⟨rfl, rfl, rfl⟩ := eq_of_upsertEntry he hnew
      exact ⟨rfl, rfl, rfl, rfl, _, hsame, Or.inr ⟨_, he₀, hsame⟩⟩
    | confirmed hbytes hnew' hr huploaded hhash =>
      obtain ⟨rfl, rfl, rfl⟩ := eq_of_upsertEntry he hnew
      exact ⟨rfl, rfl, rfl, rfl, _, rfl, Or.inl ((vouched_of_reported hr huploaded hhash).mono hsub)⟩
    | stored hbytes hnew' hup =>
      obtain ⟨rfl, rfl, rfl⟩ := eq_of_upsertEntry he hnew
      have hstored : (pushOne sha256 b c a.toPushAnswer s.index).2 = .ok .stored := by rw [hres]
      exact ⟨rfl, rfl, rfl, rfl, _, rfl, Or.inl ((vouched_of_accepted hbytes hstored).mono hsub)⟩
  · intro hsteady storageId parent name hash sent hmem
    obtain ⟨bytes, hbytes, rfl, rfl⟩ := mem_toldBy_accepted hmem
    obtain rfl : bytes = a.sent := Option.some.inj (hbytes.symm.trans hsteady)
    rfl
  · intro hstored hskipped
    refine hentries.trans ?_
    rw [hverdict] at hstored hskipped
    generalize pushOne sha256 b c a.toPushAnswer s.index = res at hcase hstored hskipped ⊢
    cases hcase with
    | relaying hr hrelaying hsize => rfl
    | unread hno => rfl
    | refused hbytes hnew hup => rfl
    | handedOff hbytes hnew hup => rfl
    | touched hbytes he₀ hsame => exact absurd rfl hskipped
    | confirmed hbytes hnew hr huploaded hhash => exact absurd rfl hskipped
    | stored hbytes hnew hup => exact absurd rfl hstored
  · intro outcome hok
    unfold pushTurn
    unfold pushNoted at hok ⊢
    dsimp only at hok ⊢
    generalize pushOne sha256 b c a.toPushAnswer s.index = pushed at hok ⊢
    obtain ⟨ix', verdict⟩ := pushed
    cases verdict with
    | ok outcome =>
      dsimp only
      rw [getUploadFailure_clear, if_pos rfl]
    | error scope => cases scope <;> cases hok

/-! ## Any number of passes -/

/-- A recorded hash was there at the start, or is vouched for by what the server said to one of the passes. -/
def Rests (start : LocalIndex) (passes : List PushPass) (s : Pushed) : Prop :=
  ∀ id rel e, s.index.getEntry id rel = some e →
    (∃ e₀, start.getEntry id rel = some e₀ ∧ e₀.contentHash = e.contentHash) ∨
      ∃ p ∈ passes, p.binding.id = id ∧ ∃ hash, e.contentHash = some hash ∧ Vouched p.binding rel hash s.told

lemma Rests.turn {start : LocalIndex} {passes : List PushPass} {s : Pushed} {p : PushPass} (hp : p ∈ passes)
    (h : Rests start passes s) (ca : LocalCandidate × SendAnswer) :
    Rests start passes (pushTurn sha256 p.binding s ca) := by
  have hsub : s.told ⊆ (pushTurn sha256 p.binding s ca).told := List.subset_append_right _ _
  -- what an older entry rests on is still there
  have hold : ∀ id rel (e₀ : IndexEntry), s.index.getEntry id rel = some e₀ →
      (∃ e₁, start.getEntry id rel = some e₁ ∧ e₁.contentHash = e₀.contentHash) ∨
        ∃ p' ∈ passes, p'.binding.id = id ∧ ∃ hash, e₀.contentHash = some hash ∧
          Vouched p'.binding rel hash (pushTurn sha256 p.binding s ca).told := by
    intro id rel e₀ he₀
    refine (h id rel e₀ he₀).imp_right ?_
    rintro ⟨p', hp', hid, hash, hhash, hvouched⟩
    exact ⟨p', hp', hid, hash, hhash, hvouched.mono hsub⟩
  intro id rel e he
  by_cases hnew : s.index.getEntry id rel = some e
  · exact hold id rel e hnew
  · obtain ⟨rfl, -, -, -, hash, hhash, hvouched | ⟨e₀, he₀, hhash₀⟩⟩ :=
      (turnOk sha256 p.binding s ca).writes id rel e he hnew
    · exact Or.inr ⟨p, hp, rfl, hash, hhash, hvouched⟩
    · have hsame : e₀.contentHash = e.contentHash := hhash₀.trans hhash.symm
      rw [← hsame]
      exact hold _ rel e₀ he₀

lemma Rests.passes {start : LocalIndex} {all : List PushPass} (passes : List PushPass) :
    ∀ s : Pushed, passes ⊆ all → Rests start all s → Rests start all (run (pushPass sha256) s passes) := by
  induction passes with
  | nil => exact fun s _ h => h
  | cons p passes ih =>
    intro s hsub h
    obtain ⟨hp, hrest⟩ := List.cons_subset.mp hsub
    exact ih _ hrest (run_invariant (fun s ca hs => hs.turn hp ca) h _)

lemma pending_of_changed {ix : LocalIndex} {id : BindingId} {nowMs : Int} {candidates : List LocalCandidate}
    {c : LocalCandidate} {e : IndexEntry} (hc : c ∈ candidates) (he : ix.getEntry id c.relativePath = some e)
    (hchanged : e.size ≠ c.size ∨ e.mtimeMs ≠ c.mtimeMs) :
    c ∈ filterPendingCandidates ix id nowMs candidates ∨ HeldBack ix id nowMs c := by
  by_cases hheld : HeldBack ix id nowMs c
  · exact Or.inr hheld
  · refine Or.inl (List.mem_filter.mpr ⟨hc, ?_⟩)
    rw [HeldBack, Bool.not_eq_true] at hheld
    rw [he, Option.all_some, decide_eq_true hchanged, hheld]
    rfl

/-- After any number of passes a recorded hash was there before, or the server vouched for it; so it is with
    every turn of the next pass; and a file that changes is pending again unless its retry is put off. -/
theorem entries_rest_on_told (sha256 : Bytes → ContentHash) (s : Pushed) (passes : List PushPass) :
    Rests s.index passes (run (pushPass sha256) s passes) ∧
      ∀ p : PushPass,
        AllOk (pushTurn sha256 p.binding) (TurnOk sha256 p.binding) (run (pushPass sha256) s passes)
          (p.turns sha256 (run (pushPass sha256) s passes)) ∧
        ∀ c ∈ p.candidates, ∀ e,
          (run (pushPass sha256) s passes).index.getEntry p.binding.id c.relativePath = some e →
          e.size ≠ c.size ∨ e.mtimeMs ≠ c.mtimeMs →
          c ∈ filterPendingCandidates (run (pushPass sha256) s passes).index p.binding.id p.nowMs p.candidates ∨
            HeldBack (run (pushPass sha256) s passes).index p.binding.id p.nowMs c := by
  constructor
  · exact Rests.passes passes s (List.Subset.refl passes) fun id rel e he => Or.inl ⟨e, he, rfl⟩
  · intro p
    refine ⟨?_, fun c hc e he hchanged => pending_of_changed hc he hchanged⟩
    refine AllOk.mono (fun s ca _ => turnOk sha256 p.binding s ca) (allOk_of_forall (p := fun _ => True) ?_)
    exact fun _ _ => trivial

/-! ### A file that goes on changing -/

def photoPass (nowMs : Int) (c : LocalCandidate) (a : SendAnswer) : PushPass :=
  ⟨camera, [c], nowMs, fun _ => a⟩

/-- It is written to between being hashed and being sent. -/
def writtenTo : PushPass :=
  photoPass 0 ⟨"a.jpg".toList, 1, 6⟩ ⟨⟨some [1], none, .ok .stored, 0⟩, [2]⟩

def failedOnce : PushPass :=
  photoPass 1000 ⟨"a.jpg".toList, 2, 7⟩ ⟨⟨some [3], none, .error .file, 1000⟩, [3]⟩

/-- The entry has a hash of bytes that never went up, and a photo that changed again is not pending. -/
theorem entries_misstate :
    let s := run (pushPass twoHashes) ⟨LocalIndex.new, []⟩ [writtenTo]
    let s' := run (pushPass twoHashes) s [failedOnce]
    (s.index.getEntry "camera" "a.jpg".toList).bind (·.contentHash) = some "sha256:1" ∧
      s.told = [.accepted 1 "Camera".toList "a.jpg".toList "sha256:1" [2]] ∧ twoHashes [2] ≠ "sha256:1" ∧
      (s'.index.getEntry "camera" "a.jpg".toList).map (·.size) = some 1 ∧
      filterPendingCandidates s'.index "camera" 2000 [⟨"a.jpg".toList, 3, 8⟩] = [] := by
  decide +kernel

end Passes

end Sarca.Client
