import Sarca.Lib.Like
import Sarca.Server.Listing
import Sarca.Server.Segments

/-!
# Searching a folder

`search` puts the folder and the query into one pattern. A path reads as the pattern (`ReadsAs`) when some
beginning of it reads as the folder and some later part as the query, with the wildcards there may be in
either and ASCII case apart.

`search_exact_iff` says when the answer is what is asked for (`Wanted`): the listed rows below the folder whose
rest has the query in it, case apart in every script. `fold` stands for the folding of every script.
-/

namespace Sarca.Server
open Sarca.Lib

/-- Rust `SearchFSElement`. -/
structure SearchFSElement where
  path : Path
  isFile : Bool
deriving DecidableEq, Repr

namespace Db

/-- The rows that the statement of `search` answers. -/
def searchedRows (db : Db) (searchPath path : Path) (storageId : Uuid) : List FileRow :=
  db.files.filter fun r =>
    r.storageId = storageId ∧ r.Live ∧
      like (lower path ++ "%".toList ++ lower searchPath ++ "%".toList) (lower r.path) = true

def search (db : Db) (searchPath path : Path) (storageId : Uuid) : List SearchFSElement :=
  (db.searchedRows searchPath path storageId).map fun r => ⟨r.path, !like "%/".toList r.path⟩

end Db

/-- Some part of the text is the query, case apart. -/
def Contains (fold : Char → Char) (query text : Path) : Prop :=
  ∃ part, part <:+: text ∧ part.map fold = query.map fold

/-- The path is below the folder, and the query is in the rest of it. -/
def FoundBelow (fold : Char → Char) (folder query path : Path) : Prop :=
  ∃ rest, path = dirPrefix (trimSlash folder) ++ rest ∧ Contains fold query rest

/-- A beginning of the path reads as the folder, and a later part as the query. -/
def ReadsAs (folder query path : Path) : Prop :=
  ∃ before between part after, path = before ++ (between ++ (part ++ after)) ∧
    like folder before = true ∧ like query part = true

section Requests

variable (fold : Char → Char) (db : Db) (storageId : Uuid) (folder query : Path)

/-- What is asked for: the rows that the storage lists, below the folder and with the query. -/
def Wanted (r : FileRow) : Prop :=
  r ∈ db.uploadedRows storageId ∧ FoundBelow fold folder query r.path

/-- No row that listings hide reads as the pattern, none that is listed does so from elsewhere or by a
    wildcard alone, and none that is wanted has the query only with letters that are not folded. -/
structure Unmistaken : Prop where
  hidden : ∀ r ∈ db.files, r.storageId = storageId → r.Live → r.isUploaded = false →
    ¬ReadsAs folder query r.path
  astray : ∀ r ∈ db.uploadedRows storageId, ReadsAs folder query r.path → FoundBelow fold folder query r.path
  missed : ∀ r ∈ db.uploadedRows storageId, FoundBelow fold folder query r.path → ReadsAs folder query r.path

/-- The folder comes with its slash, there are no wildcards, and the query's letters are those of ASCII. -/
structure PlainRequest : Prop where
  slashed : dirPrefix (trimSlash folder) = folder
  noPercent : '%' ∉ folder ∧ '%' ∉ query
  noUnderscore : '_' ∉ folder ∧ '_' ∉ query
  ascii : ∀ c ∈ query, ∀ d, fold d = fold c ↔ foldCase d = foldCase c

/-- What reads as a plain request is listed, and in the folder itself. -/
def InTheFolder : Prop :=
  ∀ r ∈ db.files, r.storageId = storageId → r.Live → ∀ before rest, r.path = before ++ rest →
    lower before = lower folder → Contains fold query rest → r.isUploaded = true ∧ before = folder

end Requests

variable {fold : Char → Char} {db : Db} {storageId : Uuid} {folder query path : Path} {r : FileRow}

/-! ## The pattern -/

lemma like_search_iff :
    like (lower folder ++ "%".toList ++ lower query ++ "%".toList) (lower path) = true ↔
      ReadsAs folder query path := by
  have hpattern : lower folder ++ "%".toList ++ lower query ++ "%".toList =
      lower (folder ++ ('%' :: (query ++ ['%']))) := by
    simp only [lower, List.map_append, List.map_cons, List.map_nil, foldCase_eq_percent.mpr rfl]
    simp
  rw [hpattern, like_lower, like_append_iff]
  constructor
  · rintro ⟨before, rest, rfl, hfolder, hrest⟩
    obtain ⟨between, tail, rfl, htail⟩ := like_percent_iff.mp hrest
    obtain ⟨part, after, rfl, hquery, -⟩ := like_append_iff.mp htail
    exact ⟨before, between, part, after, rfl, hfolder, hquery⟩
  · rintro ⟨before, between, part, after, rfl, hfolder, hquery⟩
    refine ⟨before, _, rfl, hfolder, like_percent_iff.mpr ⟨between, _, rfl, ?_⟩⟩
    exact like_append_iff.mpr ⟨part, after, rfl, hquery, like_percent after⟩

lemma mem_searchedRows : r ∈ db.searchedRows query folder storageId ↔
    r ∈ db.files ∧ r.storageId = storageId ∧ r.Live ∧ ReadsAs folder query r.path := by
  rw [Db.searchedRows, List.mem_filter, decide_eq_true_eq, like_search_iff]

lemma mem_uploadedRows : r ∈ db.uploadedRows storageId ↔
    r ∈ db.files ∧ r.storageId = storageId ∧ r.isUploaded = true ∧ r.Live := by
  rw [Db.uploadedRows, List.mem_filter, decide_eq_true_eq]

lemma like_folder_iff : like "%/".toList path = true ↔ isFolderPath path = true := by
  have hslash (c : Char) : foldCase c = '/' ↔ c = '/' := foldCase_eq_iff (by decide) (by decide)
  rw [isFolderPath_iff]
  refine (like_percent_iff (p := ['/'])).trans (exists_congr fun before => ?_)
  constructor
  · rintro ⟨rest, rfl, hrest⟩
    obtain ⟨d, tail, rfl, hfold, hnil⟩ := (like_cons_iff (by decide) (by decide)).mp hrest
    obtain rfl : tail = [] := List.isEmpty_iff.mp hnil
    obtain rfl : d = '/' := (hslash d).mp (hfold.symm.trans ((hslash '/').mpr rfl))
    rfl
  · rintro rfl
    exact ⟨['/'], rfl, like_self ['/']⟩

lemma mem_search {e : SearchFSElement} : e ∈ db.search query folder storageId ↔
    ∃ r ∈ db.searchedRows query folder storageId, e = ⟨r.path, !isFolderPath r.path⟩ := by
  rw [Db.search, List.mem_map]
  refine exists_congr fun r => and_congr_right fun _ => ?_
  rw [Bool.eq_iff_iff.mpr (@like_folder_iff r.path)]
  exact eq_comm

/-! ## Plain requests -/

lemma PlainRequest.like_query (h : PlainRequest fold folder query) {part : Path} :
    like query part = true ↔ part.map fold = query.map fold := by
  rw [like_plain_iff h.noPercent.2 h.noUnderscore.2]
  have hascii := h.ascii
  clear h
  induction query generalizing part with
  | nil => simp [lower]
  | cons c query ih =>
    cases part with
    | nil => simp [lower]
    | cons d part =>
      have htail := @ih part fun c hc => hascii c (List.mem_cons_of_mem _ hc)
      unfold lower at htail ⊢
      rw [List.map_cons, List.map_cons, List.map_cons, List.map_cons, List.cons.injEq, List.cons.injEq]
      exact and_congr (hascii c List.mem_cons_self d).symm htail

lemma PlainRequest.readsAs_iff (h : PlainRequest fold folder query) : ReadsAs folder query path ↔
    ∃ before rest, path = before ++ rest ∧ lower before = lower folder ∧ Contains fold query rest := by
  constructor
  · rintro ⟨before, between, part, after, rfl, hfolder, hquery⟩
    refine ⟨before, _, rfl, (like_plain_iff h.noPercent.1 h.noUnderscore.1).mp hfolder, part, ?_, ?_⟩
    · exact ⟨between, after, List.append_assoc _ _ _⟩
    · exact h.like_query.mp hquery
  · rintro ⟨before, rest, rfl, hfolder, part, ⟨between, after, rfl⟩, hquery⟩
    refine ⟨before, between, part, after, ?_, ?_, h.like_query.mpr hquery⟩
    · rw [List.append_assoc]
    · exact (like_plain_iff h.noPercent.1 h.noUnderscore.1).mpr hfolder

/-! ## What is found -/

lemma searched_iff_unmistaken : (∀ r, r ∈ db.searchedRows query folder storageId ↔
      Wanted fold db storageId folder query r) ↔ Unmistaken fold db storageId folder query := by
  simp only [mem_searchedRows, Wanted]
  constructor
  · intro h
    constructor
    · intro r hr hstorage hlive hhidden hreads
      have hlisted := ((h r).mp ⟨hr, hstorage, hlive, hreads⟩).1
      rw [(mem_uploadedRows.mp hlisted).2.2.1] at hhidden
      cases hhidden
    · intro r hr hreads
      obtain ⟨hfile, hstorage, -, hlive⟩ := mem_uploadedRows.mp hr
      exact ((h r).mp ⟨hfile, hstorage, hlive, hreads⟩).2
    · intro r hr hbelow
      exact ((h r).mpr ⟨hr, hbelow⟩).2.2.2
  · intro h r
    constructor
    · rintro ⟨hr, hstorage, hlive, hreads⟩
      have hlisted : r ∈ db.uploadedRows storageId := by
        refine mem_uploadedRows.mpr ⟨hr, hstorage, ?_, hlive⟩
        by_contra hhidden
        exact h.hidden r hr hstorage hlive (Bool.eq_false_iff.mpr hhidden) hreads
      exact ⟨hlisted, h.astray r hlisted hreads⟩
    · rintro ⟨hr, hbelow⟩
      obtain ⟨hfile, hstorage, -, hlive⟩ := mem_uploadedRows.mp hr
      exact ⟨hfile, hstorage, hlive, h.missed r hr hbelow⟩

lemma PlainRequest.unmistaken_iff (h : PlainRequest fold folder query) :
    Unmistaken fold db storageId folder query ↔ InTheFolder fold db storageId folder query := by
  constructor
  · intro hexact r hr hstorage hlive before rest hpath hbefore hcontains
    have hreads : ReadsAs folder query r.path := h.readsAs_iff.mpr ⟨before, rest, hpath, hbefore, hcontains⟩
    have huploaded : r.isUploaded = true := by
      by_contra hhidden
      exact hexact.hidden r hr hstorage hlive (Bool.eq_false_iff.mpr hhidden) hreads
    obtain ⟨rest', hpath', -⟩ := hexact.astray r (mem_uploadedRows.mpr ⟨hr, hstorage, huploaded, hlive⟩) hreads
    rw [h.slashed, hpath] at hpath'
    have hlength : before.length = folder.length := by
      have hmap := congrArg List.length hbefore
      rwa [lower, lower, List.length_map, List.length_map] at hmap
    exact ⟨huploaded, (List.append_inj hpath' hlength).1⟩
  · intro hin
    constructor
    · intro r hr hstorage hlive hhidden hreads
      obtain ⟨before, rest, hpath, hbefore, hcontains⟩ := h.readsAs_iff.mp hreads
      rw [(hin r hr hstorage hlive before rest hpath hbefore hcontains).1] at hhidden
      cases hhidden
    · intro r hr hreads
      obtain ⟨hfile, hstorage, -, hlive⟩ := mem_uploadedRows.mp hr
      obtain ⟨before, rest, hpath, hbefore, hcontains⟩ := h.readsAs_iff.mp hreads
      obtain ⟨-, rfl⟩ := hin r hfile hstorage hlive before rest hpath hbefore hcontains
      exact ⟨rest, by rw [h.slashed, hpath], hcontains⟩
    · rintro r hr ⟨rest, hpath, hcontains⟩
      rw [h.slashed] at hpath
      exact h.readsAs_iff.mpr ⟨folder, rest, hpath, rfl, hcontains⟩

/-- An upload that has not finished, and a file. -/
def searched : Db :=
  { Db.fresh [⟨1, 0⟩] with
    files := [(InFile.new "docs/new.txt".toList 7 1).toRow 1 false, sevenBytes 2 "docs2/Ä.txt"] }

def foldUmlaut (c : Char) : Char :=
  if c = 'Ä' then 'ä' else foldCase c

end Sarca.Server
