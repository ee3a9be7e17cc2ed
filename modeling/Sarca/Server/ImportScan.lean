import Mathlib.Algebra.Order.Ring.Nat
import Mathlib.Data.Finset.Card
import Sarca.Lib.Percent
import Sarca.Lib.Run
import Sarca.Lib.Worklist
import Sarca.Server.Files
import Sarca.Server.Import

/-!
# The scan of an import

`ImportRunner::scan` of `services/import/mod.rs` walks the source folder by folder, and `WebDavClient::list` of
`services/import/webdav.rs` says what a folder holds. What the server answers to each request is an argument: a
listing, or a failure. An address is `η`, and `Url` what the code uses of the `url` crate.

The folders are a stack (`Lib/Worklist`). `scan_sound` says when no folder is asked for twice, that the scan then
ends, and what it has recorded of a server whose listings speak of one tree.
-/

namespace Sarca.Server
open Sarca.Lib

namespace ImportScan

variable {η : Type*}

/-- What the code uses of the `url` crate: `Url::path`, `Url::join`, and `path_segments_mut` with
    `pop_if_empty`, `extend` and, for a folder, an empty segment at the end. -/
structure Url (η : Type*) where
  path : η → Path
  join : η → Path → Option η
  extend : η → List Path → η

/-- A response of a listing (Rust `RawEntry`). -/
structure RawEntry where
  href : Path
  isDir : Bool
  size : Nat
  mtime : Option Instant
deriving DecidableEq, Repr

/-- Rust `DavEntry`. -/
structure DavEntry where
  relPath : Path
  isDir : Bool
  size : Nat
  mtime : Option Instant
deriving DecidableEq, Repr

/-- Rust `NewImportItem`. -/
structure NewImportItem where
  relPath : Path
  size : Int
  sourceMtime : Option Instant
deriving DecidableEq, Repr

/-- An answer to a request for a folder; `meant` is what the server speaks of, or none for the folder itself. -/
structure Response extends RawEntry where
  meant : Option DavEntry

section Listing

variable (u : Url η) (root : η)

/-- Rust `url_for` of a folder. -/
def urlFor (relPath : Path) : η :=
  if relPath = [] then root else u.extend root (relPath.splitOn '/')

def decodedPath (url : η) : Path :=
  percentDecode (u.path url)

/-- What `list` makes of a response to the request for `relDir`. -/
def readEntry (relDir : Path) (raw : RawEntry) : Option DavEntry :=
  (u.join (urlFor u root relDir) raw.href).bind fun href =>
    let path := decodedPath u href
    if trimEndSlashes path = trimEndSlashes (decodedPath u (urlFor u root relDir)) then none
    else
      (path.dropPrefix? (decodedPath u root)).bind fun rel =>
        let rel := trimBy (· = '/') rel
        if rel = [] ∨ ((rel.splitOn '/').any fun seg => seg = [] ∨ seg = ['.'] ∨ seg = ['.', '.']) then none
        else some ⟨rel, raw.isDir, raw.size, raw.mtime⟩

/-- Rust `list`, of a listing that was answered. -/
def list (relDir : Path) (responses : List Response) : List DavEntry :=
  responses.filterMap fun r => readEntry u root relDir r.toRawEntry

end Listing

def DavEntry.item (e : DavEntry) : NewImportItem :=
  ⟨e.relPath, if (e.size : Int) < 2 ^ 63 then e.size else 2 ^ 63 - 1, e.mtime⟩

/-- `INSERT OR IGNORE`: a path is recorded once. -/
def insertItem (items : List NewImportItem) (item : NewImportItem) : List NewImportItem :=
  if items.any fun recorded => recorded.relPath = item.relPath then items else items ++ [item]

/-- A scan under way: the folders, what is recorded, and whether it was given up. -/
structure Scan extends Worklist Path where
  items : List NewImportItem
  stopped : Bool

/-- The answer to the next request, or the end of the scan with an error or because the job was paused. -/
inductive Answer where
  | listing (responses : List Response)
  | stop

variable (u : Url η) (root : η)

/-- A scan over what an earlier one may have recorded. -/
def Scan.start (items : List NewImportItem) : Scan :=
  ⟨Worklist.start [], items, false⟩

def Scan.Over (σ : Scan) : Prop :=
  σ.stopped = true ∨ σ.stack = []

instance Scan.Over.decidable (σ : Scan) : Decidable σ.Over :=
  inferInstanceAs (Decidable (_ ∨ _))

def Scan.entries (σ : Scan) (responses : List Response) : List DavEntry :=
  list u root (σ.stack.headD []) responses

def Scan.dirs (σ : Scan) (responses : List Response) : List Path :=
  ((σ.entries u root responses).filter (·.isDir)).map (·.relPath)

/-- One turn of the loop of `scan`. -/
def Scan.step (σ : Scan) (a : Answer) : Scan :=
  if σ.Over then σ
  else
    match a with
    | .stop => { σ with stopped := true }
    | .listing responses =>
      { σ.visit (σ.dirs u root responses) with
        items := (((σ.entries u root responses).filter fun e => !e.isDir).map DavEntry.item).foldl insertItem σ.items
        stopped := false }

/-! ## A source that is one tree -/

/-- A tree of folders: what lies in each, under a path that it has nowhere else. -/
structure Source where
  entries : Path → List DavEntry
  nodup : ∀ d, ((entries d).map (·.relPath)).Nodup
  one : ∀ d d' e e', e ∈ entries d → e' ∈ entries d' → e.relPath = e'.relPath → d = d'
  notRoot : ∀ d, ∀ e ∈ entries d, e.relPath ≠ []

def Source.folders (s : Source) (d : Path) : List Path :=
  ((s.entries d).filter (·.isDir)).map (·.relPath)

def Source.Below (s : Source) : Path → Prop :=
  Relation.ReflTransGen (fun d d' => d' ∈ s.folders d) []

lemma Source.forest (s : Source) : Worklist.Forest s.folders [] where
  once d := (s.nodup d).sublist ((List.filter_sublist ..).map _)
  one d d' p h h' := by
    obtain ⟨e, he, rfl⟩ := List.mem_map.mp h
    obtain ⟨e', he', heq⟩ := List.mem_map.mp h'
    exact s.one d d' e e' (List.mem_of_mem_filter he) (List.mem_of_mem_filter he') heq.symm
  notFound d h := by
    obtain ⟨e, he, hroot⟩ := List.mem_map.mp h
    exact s.notRoot d e (List.mem_of_mem_filter he) hroot

/-- The listing speaks of what lies in the folder, once of each. -/
def Honest (s : Source) (d : Path) (responses : List Response) : Prop :=
  (responses.filterMap (·.meant)).Perm (s.entries d)

def LinesUp (d : Path) (responses : List Response) : Prop :=
  ∀ r ∈ responses, readEntry u root d r.toRawEntry = r.meant

/-- The listing names no folder that has been named before, and none twice. -/
def NamesNew (σ : Scan) : Answer → Prop
  | .listing responses => ¬σ.Over → σ.Fresh (σ.dirs u root responses)
  | .stop => True

/-- The folders that the listing names are among these. -/
def NamesAmong (paths : Finset Path) (σ : Scan) : Answer → Prop
  | .listing responses => ∀ d ∈ σ.dirs u root responses, d ∈ paths
  | .stop => True

/-- The listing is that of an honest server, and its addresses line up with the root. -/
def Speaks (s : Source) (σ : Scan) : Answer → Prop
  | .listing responses => ¬σ.Over →
      Honest s (σ.stack.headD []) responses ∧ LinesUp u root (σ.stack.headD []) responses
  | .stop => True

section Steps

variable {u : Url η} {root : η} {σ : Scan} {a : Answer} {s : Source}

lemma step_over (h : σ.Over) : σ.step u root a = σ :=
  if_pos h

lemma step_listing {responses : List Response} (h : ¬σ.Over) :
    σ.step u root (.listing responses) = { σ.visit (σ.dirs u root responses) with
      items := (((σ.entries u root responses).filter fun e => !e.isDir).map DavEntry.item).foldl insertItem σ.items
      stopped := false } :=
  if_neg h

lemma step_stop (h : ¬σ.Over) : σ.step u root .stop = { σ with stopped := true } :=
  if_neg h

lemma once_step (h : σ.Once) : (σ.step u root a).Once ↔ NamesNew u root σ a := by
  by_cases hover : σ.Over
  · rw [step_over hover]
    cases a with
    | stop => exact iff_of_true h trivial
    | listing responses => exact iff_of_true h fun hnot => absurd hover hnot
  · cases a with
    | stop =>
      rw [step_stop hover]
      exact iff_of_true h trivial
    | listing responses =>
      rw [step_listing hover]
      exact (Worklist.once_visit_iff h).trans ⟨fun hfresh _ => hfresh, fun hnew => hnew hover⟩

lemma stack_cons (h : ¬σ.Over) : ∃ d rest, σ.stack = d :: rest :=
  List.exists_cons_of_ne_nil fun hnil => h (.inr hnil)

lemma run_over (h : σ.Over) (acts : List Answer) : run (Scan.step u root) σ acts = σ := by
  induction acts with
  | nil => rfl
  | cons a acts ih => rw [run_cons, step_over h, ih]

lemma length_taken_run (acts : List Answer) (h : ¬(run (Scan.step u root) σ acts).Over) :
    (run (Scan.step u root) σ acts).taken.length = σ.taken.length + acts.length := by
  induction acts generalizing σ with
  | nil => rfl
  | cons a acts ih =>
    rw [run_cons] at h ⊢
    have hover : ¬σ.Over := fun hover => by
      rw [step_over hover, run_over hover] at h
      exact h hover
    have hone : (σ.step u root a).taken.length = σ.taken.length + 1 := by
      cases a with
      | stop =>
        have hstopped : (σ.step u root .stop).Over := by
          rw [step_stop hover]
          exact .inl rfl
        rw [run_over hstopped] at h
        exact absurd hstopped h
      | listing responses =>
        obtain ⟨d, rest, hstack⟩ := stack_cons hover
        rw [step_listing hover]
        exact Worklist.length_taken_visit hstack
    rw [ih h, hone, List.length_cons]
    omega

/-- What has been or will be asked for is the root, or has been named. -/
def Within (paths : Finset Path) (σ : Scan) : Prop :=
  ∀ d ∈ σ.taken ++ σ.stack, d = [] ∨ d ∈ paths

lemma within_step {paths : Finset Path} (h : Within paths σ) (ha : NamesAmong u root paths σ a) :
    Within paths (σ.step u root a) := by
  by_cases hover : σ.Over
  · rw [step_over hover]
    exact h
  · cases a with
    | stop =>
      rw [step_stop hover]
      exact h
    | listing responses =>
      obtain ⟨d, rest, hstack⟩ := stack_cons hover
      rw [step_listing hover]
      intro d' hd'
      rw [(Worklist.visit_perm hstack).mem_iff, List.mem_append] at hd'
      obtain hd' | hd' := hd'
      · exact .inr (ha d' hd')
      · exact h d' hd'

lemma over_of_once {paths : Finset Path} (honce : σ.Once) (hwithin : Within paths σ)
    (hlong : paths.card < σ.taken.length) : σ.Over := by
  by_contra hover
  obtain ⟨d, rest, hstack⟩ := stack_cons hover
  have hsub : (σ.taken ++ σ.stack).toFinset ⊆ insert [] paths := fun d hd => by
    rw [Finset.mem_insert]
    exact hwithin d (List.mem_toFinset.mp hd)
  have hcard := (Finset.card_le_card hsub).trans (Finset.card_insert_le [] paths)
  rw [List.toFinset_card_of_nodup honce, List.length_append, hstack, List.length_cons] at hcard
  omega

lemma entries_perm {responses : List Response} (hhonest : Honest s (σ.stack.headD []) responses)
    (hlines : LinesUp u root (σ.stack.headD []) responses) :
    (σ.entries u root responses).Perm (s.entries (σ.stack.headD [])) := by
  have heq : σ.entries u root responses = responses.filterMap (·.meant) :=
    List.filterMap_congr hlines
  exact heq ▸ hhonest

lemma insertItem_paths {items : List NewImportItem} {item : NewImportItem} (h : (items.map (·.relPath)).Nodup) :
    ((insertItem items item).map (·.relPath)).Nodup ∧
      ∀ p, p ∈ (insertItem items item).map (·.relPath) ↔ p ∈ items.map (·.relPath) ∨ p = item.relPath := by
  have hany : (items.any fun recorded => recorded.relPath = item.relPath) = true ↔
      item.relPath ∈ items.map (·.relPath) := by
    simp only [List.any_eq_true, decide_eq_true_eq, List.mem_map]
  unfold insertItem
  split
  · case isTrue hmem =>
    exact ⟨h, fun p => ⟨.inl, fun hp => hp.elim id fun heq => heq ▸ hany.mp hmem⟩⟩
  · case isFalse hnew =>
    rw [List.map_append, List.map_singleton]
    refine ⟨List.nodup_append.mpr ⟨h, List.nodup_singleton _, fun p hp q hq heq => ?_⟩, fun p => ?_⟩
    · rw [List.mem_singleton] at hq
      exact hnew (hany.mpr (hq ▸ heq ▸ hp))
    · rw [List.mem_append, List.mem_singleton]

lemma foldl_insertItem_paths {items batch : List NewImportItem} (h : (items.map (·.relPath)).Nodup) :
    ((batch.foldl insertItem items).map (·.relPath)).Nodup ∧
      ∀ p, p ∈ (batch.foldl insertItem items).map (·.relPath) ↔
        p ∈ items.map (·.relPath) ∨ p ∈ batch.map (·.relPath) := by
  induction batch generalizing items with
  | nil => exact ⟨h, fun p => ⟨.inl, fun hp => hp.elim id fun hnil => absurd hnil List.not_mem_nil⟩⟩
  | cons item batch ih =>
    obtain ⟨hnodup, hmem⟩ := @insertItem_paths _ item h
    obtain ⟨hnodup', hmem'⟩ := ih hnodup
    refine ⟨hnodup', fun p => ?_⟩
    rw [List.foldl_cons, hmem', hmem, List.map_cons, List.mem_cons, or_assoc]

/-- The scan has come through the source, and has recorded the files of every folder it has listed. -/
structure Recorded (s : Source) (σ : Scan) : Prop where
  explored : Worklist.Explored s.folders [] σ.toWorklist
  nodup : (σ.items.map (·.relPath)).Nodup
  files : ∀ d ∈ σ.taken, ∀ e ∈ s.entries d, e.isDir = false → e.relPath ∈ σ.items.map (·.relPath)

lemma Recorded.step (h : Recorded s σ) (ha : Speaks u root s σ a) :
    NamesNew u root σ a ∧ Recorded s (σ.step u root a) := by
  by_cases hover : σ.Over
  · rw [step_over hover]
    cases a with
    | stop => exact ⟨trivial, h⟩
    | listing responses => exact ⟨fun hnot => absurd hover hnot, h⟩
  · cases a with
    | stop =>
      rw [step_stop hover]
      exact ⟨trivial, h.explored, h.nodup, h.files⟩
    | listing responses =>
      obtain ⟨hhonest, hlines⟩ := ha hover
      obtain ⟨d, rest, hstack⟩ := stack_cons hover
      have hperm := entries_perm hhonest hlines
      have hhead : σ.stack.headD [] = d := by rw [hstack, List.headD_cons]
      rw [hhead] at hperm
      have hfound : ∀ x rest, σ.stack = x :: rest → (σ.dirs u root responses).Perm (s.folders x) :=
        fun x rest' hx => by
          obtain rfl : d = x := (List.cons.inj (hstack.symm.trans hx)).1
          exact (hperm.filter _).map _
      obtain ⟨hfresh, hexplored⟩ := h.explored.visit s.forest hfound
      obtain ⟨hnodup, hmem⟩ := @foldl_insertItem_paths _
        (((σ.entries u root responses).filter fun e => !e.isDir).map DavEntry.item) h.nodup
      rw [step_listing hover]
      refine ⟨fun _ => hfresh, hexplored, hnodup, fun d' hd' e he hfile => ?_⟩
      have htaken : (σ.visit (σ.dirs u root responses)).taken = σ.taken ++ [d] := by
        rw [Worklist.visit, hstack]
      rw [htaken, List.mem_append, List.mem_singleton] at hd'
      rw [hmem]
      obtain hd' | rfl := hd'
      · exact .inl (h.files d' hd' e he hfile)
      · refine .inr (List.mem_map.mpr ⟨e.item, List.mem_map_of_mem ?_, rfl⟩)
        exact List.mem_filter.mpr ⟨hperm.mem_iff.mpr he, by rw [hfile]; rfl⟩

lemma recorded_run (h : Recorded s σ) (acts : List Answer)
    (hacts : AllOk (Scan.step u root) (Speaks u root s) σ acts) :
    AllOk (Scan.step u root) (NamesNew u root) σ acts ∧ Recorded s (run (Scan.step u root) σ acts) := by
  induction acts generalizing σ with
  | nil => exact ⟨trivial, h⟩
  | cons a acts ih =>
    obtain ⟨hnew, hstep⟩ := h.step hacts.1
    obtain ⟨hrest, hrun⟩ := ih hstep hacts.2
    exact ⟨⟨hnew, hrest⟩, hrun⟩

end Steps

/-- In every scan: each folder is asked for once just when every listing names new folders; the scan then ends
    when it has come to all the folders that are named; and with an honest server whose listings line up with
    the root, every listing names new folders, and a finished scan has recorded each file below the root once. -/
theorem scan_sound (items : List NewImportItem) (hitems : (items.map (·.relPath)).Nodup) (acts : List Answer) :
    (Always (Scan.step u root) (fun σ => σ.Once) (.start items) acts ↔
      AllOk (Scan.step u root) (NamesNew u root) (.start items) acts) ∧
    (∀ paths : Finset Path, AllOk (Scan.step u root) (NamesNew u root) (.start items) acts →
      AllOk (Scan.step u root) (NamesAmong u root paths) (.start items) acts → paths.card < acts.length →
      (run (Scan.step u root) (.start items) acts).Over) ∧
    ∀ s : Source, AllOk (Scan.step u root) (Speaks u root s) (.start items) acts →
      AllOk (Scan.step u root) (NamesNew u root) (.start items) acts ∧
      ((run (Scan.step u root) (.start items) acts).stack = [] → ∀ d, s.Below d → ∀ e ∈ s.entries d,
        e.isDir = false →
        ((run (Scan.step u root) (.start items) acts).items.map (·.relPath)).count e.relPath = 1) := by
  have honce : (Scan.start items).Once := Worklist.once_start []
  have hiff : Always (Scan.step u root) (fun σ => σ.Once) (.start items) acts ↔
      AllOk (Scan.step u root) (NamesNew u root) (.start items) acts :=
    always_iff_allOk (fun σ a (_ : True) (_ : NamesNew u root σ a) => trivial)
      (fun σ a _ (h : σ.Once) => once_step h) trivial honce
  refine ⟨hiff, fun paths hnew hamong hlong => ?_, fun s hspeaks => ?_⟩
  · by_contra hover
    have hwithin : Within paths (run (Scan.step u root) (.start items) acts) :=
      (always_of_allOk (fun σ a => within_step) (fun d hd => .inl (List.mem_singleton.mp hd)) hamong).last
    have hlength := length_taken_run acts hover
    refine hover (over_of_once (hiff.mpr hnew).last hwithin ?_)
    rw [hlength]
    exact Nat.lt_add_left _ hlong
  · have hstart : Recorded s (.start items) :=
      ⟨Worklist.explored_start, hitems, fun d hd => absurd hd List.not_mem_nil⟩
    obtain ⟨hnew, hrun⟩ := recorded_run hstart acts hspeaks
    refine ⟨hnew, fun hdone d hd e he hfile => ?_⟩
    exact List.count_eq_one_of_mem hrun.nodup (hrun.files d (hrun.explored.mem_taken hdone hd) e he hfile)

/-! ## Servers -/

/-- Addresses of one host, without anything to escape. -/
def hostPaths : Url Path where
  path := id
  join base href := some (if href.head? = some '/' then href else base ++ href)
  extend root segments := root ++ ['/'].intercalate segments ++ ['/']

def folderResponse (href : String) (meant : Option DavEntry) : Response :=
  ⟨⟨href.toList, true, 0, none⟩, meant⟩

def fileResponse (href : String) (meant : Option DavEntry) : Response :=
  ⟨⟨href.toList, false, 3, none⟩, meant⟩

def siblings : List Answer :=
  [.listing [folderResponse "/dav/" none, folderResponse "/dav/a/" none],
    .listing [folderResponse "/dav/a/" none, folderResponse "/dav/b/" none],
    .listing [folderResponse "/dav/b/" none, folderResponse "/dav/a/" none]]

def note : DavEntry := ⟨['x'], false, 3, none⟩

def oneFile : Source where
  entries d := if d = [] then [note] else []
  nodup d := by
    split
    · exact List.nodup_singleton _
    · exact List.nodup_nil
  one d d' e e' he he' _ := by
    have hroot : ∀ d e, e ∈ (if d = [] then [note] else []) → d = ([] : Path) := fun d e h => by
      by_contra hne
      rw [if_neg hne] at h
      exact List.not_mem_nil h
    rw [hroot d e he, hroot d' e' he']
  notRoot d e he := by
    split at he
    · rw [List.mem_singleton.mp he]
      exact List.cons_ne_nil _ _
    · exact absurd he List.not_mem_nil

/-- The listing of the root, with the addresses below it. -/
def straight : List Response :=
  [folderResponse "/dav/" none, fileResponse "/dav/x" (some note)]

/-- The same listing behind a redirect to `/remote.php/dav/`. -/
def redirected : List Response :=
  [folderResponse "/remote.php/dav/" none, fileResponse "/remote.php/dav/x" (some note)]

lemma straight_speaks :
    AllOk (Scan.step hostPaths "/dav/".toList) (Speaks hostPaths "/dav/".toList oneFile) (.start [])
      [.listing straight] := by
  refine ⟨fun _ => ⟨List.Perm.refl _, ?_⟩, trivial⟩
  show ∀ r ∈ straight, readEntry hostPaths "/dav/".toList [] r.toRawEntry = r.meant
  decide

theorem straight_recorded :
    ((run (Scan.step hostPaths "/dav/".toList) (.start []) [.listing straight]).items.map (·.relPath)).count ['x'] =
      1 :=
  ((scan_sound hostPaths "/dav/".toList [] List.nodup_nil [.listing straight]).2.2 oneFile straight_speaks).2
    (by decide) [] .refl note (List.mem_singleton.mpr rfl) rfl

/-- Siblings that name each other are asked for again and again, and behind a redirect the file is lost. -/
theorem siblings_and_redirect :
    (¬(run (Scan.step hostPaths "/dav/".toList) (.start []) siblings).Once ∧
      ¬(run (Scan.step hostPaths "/dav/".toList) (.start []) siblings).Over ∧
      (run (Scan.step hostPaths "/dav/".toList) (.start []) (siblings ++ siblings.drop 1)).stack =
        (run (Scan.step hostPaths "/dav/".toList) (.start []) siblings).stack) ∧
    Honest oneFile [] redirected ∧
    (run (Scan.step hostPaths "/dav/".toList) (.start []) [.listing redirected]).stack = [] ∧
    (run (Scan.step hostPaths "/dav/".toList) (.start []) [.listing redirected]).items = [] := by
  refine ⟨⟨?_, by decide, by decide⟩, List.Perm.refl _, by decide, by decide⟩
  unfold Worklist.Once
  decide

end ImportScan

end Sarca.Server
