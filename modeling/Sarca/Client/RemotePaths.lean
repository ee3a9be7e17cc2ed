import Sarca.Client.Engine
import Sarca.Server.Segments

/-!
# Remote paths on the local disk

`strip_remote_root` makes a relative path of what the server names, which is joined to the folder of the
binding (`localAt`, and `windowsJoin` under the rules of Windows), and `join_remote` goes the other way.
`stripRemoteRoot_inside_iff` says when the join stays in the folder, and `stripRemoteRoot_joinRemote_iff` which
local paths come back; `remote_paths_iff` puts them together.
-/

namespace Sarca.Client
open Sarca.Lib Sarca.Server

/-! ## Joining -/

def hasDrive : Path → Bool
  | letter :: colon :: _ => letter.isAlpha && colon == ':'
  | _ => false

def windowsParts (path : Path) : List Path :=
  (path.splitOnP isSeparator).filter fun name => name ≠ [] ∧ name ≠ ['.']

/-- `root.join(rel)` on Windows, below the drive of the root: a path from a separator replaces what is there,
    and one on a drive or a share leaves it (two separators are taken for a share). -/
def windowsJoin (root : List Path) (rel : Path) : Option (List Path) :=
  if hasDrive rel ∨ 2 ≤ rel.length ∧ (rel.take 2).all isSeparator then none
  else if rel.head?.any isSeparator then some (windowsParts rel)
  else some (root ++ windowsParts rel)

/-- The path is the folder, or goes down from it. -/
def Below (root path : List Path) : Prop :=
  ∃ rest, path = root ++ rest ∧ ['.', '.'] ∉ rest

/-- Joined to any folder, the path stays in it. -/
structure StaysInside (rel : Path) : Prop where
  unix : ∀ localPath, Below (components localPath) (localAt localPath rel)
  windows : ∀ root, ∃ path ∈ windowsJoin root rel, Below root path

def rootOf (remoteRoot : Path) : Path :=
  trimSlashes (trim remoteRoot)

/-- Behind the remote root, if there is one, the path goes on neither with a slash, unless there are slashes
    alone, nor with a drive. -/
def GoesOnInside (path remoteRoot : Path) : Prop :=
  rootOf remoteRoot = [] ∨ ∀ rest, path.dropWhile (· == '/') = rootOf remoteRoot ++ '/' :: rest →
    (rest.head? = some '/' → ∀ c ∈ rest, c = '/') ∧ hasDrive rest = false

/-- The path has no slash at its ends; neither it nor the root has a backslash or a segment of dots, and what is
    put together has no colon in second place. -/
structure ComesBack (remoteRoot rel : Path) : Prop where
  trimmed : rel.head? ≠ some '/' ∧ rel.getLast? ≠ some '/'
  noDots : ∀ seg ∈ (rootOf remoteRoot).splitOn '/' ++ rel.splitOn '/', seg ≠ ['.', '.'] ∧ seg ≠ ['.']
  noBackslash : '\\' ∉ rootOf remoteRoot ∧ '\\' ∉ rel
  noColon : (if rootOf remoteRoot = [] then rel else rootOf remoteRoot)[1]? ≠ some ':'

variable {path rel remoteRoot root rest : Path}

/-! ## What is stripped -/

/-- What passes the checks of `strip_remote_root`. -/
structure Accepted (path : Path) : Prop where
  noDots : ∀ seg ∈ path.splitOn '/', seg ≠ ['.', '.'] ∧ seg ≠ ['.']
  noBackslash : '\\' ∉ path
  noColon : path[1]? ≠ some ':'

def behind (path root : Path) : Option Path :=
  if root = [] then some (trimEndSlashes path)
  else if path = root ∨ path = root ++ ['/'] then some []
  else (path.dropPrefix? (root ++ ['/'])).map trimEndSlashes

lemma stripRemoteRoot_eq (h : Accepted (path.dropWhile (· == '/'))) :
    stripRemoteRoot path remoteRoot = behind (path.dropWhile (· == '/')) (rootOf remoteRoot) := by
  unfold stripRemoteRoot
  dsimp only
  rw [if_neg]
  · rfl
  · simp only [Bool.or_eq_true, List.any_eq_true, decide_eq_true_eq, List.contains_iff_mem]
    rintro ((⟨seg, hseg, hdots⟩ | hback) | hcolon)
    · exact hdots.elim (h.noDots seg hseg).1 (h.noDots seg hseg).2
    · exact h.noBackslash hback
    · exact h.noColon hcolon

lemma accepted_of_strip (h : stripRemoteRoot path remoteRoot = some rel) :
    Accepted (path.dropWhile (· == '/')) := by
  unfold stripRemoteRoot at h
  dsimp only at h
  split at h
  · cases h
  · case isFalse hvalid =>
    simp only [Bool.or_eq_true, List.any_eq_true, decide_eq_true_eq, List.contains_iff_mem, not_or] at hvalid
    obtain ⟨⟨hdots, hback⟩, hcolon⟩ := hvalid
    refine ⟨fun seg hseg => ⟨fun heq => ?_, fun heq => ?_⟩, hback, hcolon⟩
    · exact hdots ⟨seg, hseg, Or.inl heq⟩
    · exact hdots ⟨seg, hseg, Or.inr heq⟩

lemma behind_some (h : behind path root = some rel) :
    (root = [] ∧ rel = trimEndSlashes path) ∨ (path = root ∧ rel = []) ∨
      ∃ rest, path = root ++ '/' :: rest ∧ rel = trimEndSlashes rest := by
  unfold behind at h
  split at h
  · case isTrue hroot =>
    cases h
    exact Or.inl ⟨hroot, rfl⟩
  · split at h
    · case isTrue hself =>
      cases h
      rcases hself with rfl | rfl
      · exact Or.inr (Or.inl ⟨rfl, rfl⟩)
      · exact Or.inr (Or.inr ⟨[], rfl, rfl⟩)
    · obtain ⟨rest, hrest, rfl⟩ := Option.map_eq_some_iff.mp h
      rw [List.dropPrefix?_eq_some_iff] at hrest
      exact Or.inr (Or.inr ⟨rest, by simpa using hrest, rfl⟩)

/-! ## Staying inside -/

lemma trimEndSlashes_prefix (path : Path) : trimEndSlashes path <+: path :=
  List.rdropWhile_prefix _ path

lemma mem_splitOn_trimEndSlashes {seg : Path} (h : seg ∈ (trimEndSlashes path).splitOn '/') :
    seg ∈ path.splitOn '/' := by
  induction path using List.reverseRecOn with
  | nil => exact h
  | append_singleton path c ih =>
    by_cases hc : c = '/'
    · subst hc
      rw [trimEndSlashes_concat] at h
      rw [List.splitOn_append_cons_self]
      exact List.mem_append_left _ (ih h)
    · rwa [trimEndSlashes_file] at h
      rw [Bool.eq_false_iff]
      intro hfolder
      obtain ⟨folder, heq⟩ := isFolderPath_iff.mp hfolder
      exact hc (List.append_inj_right' heq rfl |> fun h => by simpa using h)

/-- What is made of an accepted path has no parent segment and no backslash. -/
structure Harmless (rel : Path) : Prop where
  noParent : ['.', '.'] ∉ rel.splitOn '/'
  noBackslash : '\\' ∉ rel

lemma Accepted.harmless (h : Accepted path) (hrel : behind path root = some rel) : Harmless rel := by
  have hback {p : Path} (hp : ∀ c ∈ p, c ∈ path) : '\\' ∉ trimEndSlashes p :=
    fun hmem => h.noBackslash (hp _ (( trimEndSlashes_prefix p).mem hmem))
  rcases behind_some hrel with ⟨-, rfl⟩ | ⟨-, rfl⟩ | ⟨rest, rfl, rfl⟩
  · exact ⟨fun hmem => (h.noDots _ (mem_splitOn_trimEndSlashes hmem)).1 rfl, hback fun c hc => hc⟩
  · exact ⟨by simp, List.not_mem_nil⟩
  · refine ⟨fun hmem => (h.noDots ['.', '.'] ?_).1 rfl, hback fun c hc => ?_⟩
    · rw [List.splitOn_append_cons_self]
      exact List.mem_append_right _ (mem_splitOn_trimEndSlashes hmem)
    · exact List.mem_append_right _ (List.mem_cons_of_mem _ hc)

lemma splitOnP_isSeparator (h : '\\' ∉ path) : path.splitOnP isSeparator = path.splitOn '/' := by
  rw [List.splitOn_eq_splitOnP]
  induction path with
  | nil => rfl
  | cons c path ih =>
    rw [List.mem_cons, not_or] at h
    have hc : isSeparator c = (c == '/') := by
      have hne : (c == '\\') = false := beq_eq_false_iff_ne.mpr (Ne.symm h.1)
      rw [isSeparator, hne, Bool.or_false]
    rw [List.splitOnP_cons_eq_if_modifyHead, List.splitOnP_cons_eq_if_modifyHead, hc, ih h.2]

lemma isSeparator_head (h : '\\' ∉ rel) : rel.head?.any isSeparator = true ↔ rel.head? = some '/' := by
  cases rel with
  | nil => simp
  | cons c rel =>
    rw [List.mem_cons, not_or] at h
    simp [isSeparator, Ne.symm h.1]

lemma staysInside_iff (h : Harmless rel) : StaysInside rel ↔ rel.head? ≠ some '/' ∧ hasDrive rel = false := by
  constructor
  · intro hin
    -- a folder with more names than the path has
    obtain ⟨path, hpath, rest, rfl, -⟩ := hin.windows (windowsParts rel ++ [[]])
    unfold windowsJoin at hpath
    split at hpath
    · cases hpath
    · case isFalse hno =>
      rw [not_or, Bool.not_eq_true] at hno
      refine ⟨fun hhead => ?_, hno.1⟩
      rw [if_pos ((isSeparator_head h.noBackslash).mpr hhead)] at hpath
      have hlen := congrArg List.length (Option.some.inj hpath)
      simp only [List.length_append, List.length_singleton] at hlen
      omega
  · rintro ⟨hhead, hdrive⟩
    constructor
    · intro localPath
      refine ⟨components rel, ?_, fun hmem => h.noParent (List.mem_filter.mp hmem).1⟩
      rw [localAt, if_neg hhead]
    · intro root
      refine ⟨root ++ windowsParts rel, ?_, windowsParts rel, rfl, fun hmem => h.noParent ?_⟩
      · have hshare : ¬(hasDrive rel = true ∨ 2 ≤ rel.length ∧ (rel.take 2).all isSeparator = true) := by
          rw [hdrive, not_or]
          refine ⟨Bool.false_ne_true, fun hshare => hhead ((isSeparator_head h.noBackslash).mp ?_)⟩
          obtain ⟨hlen, hall⟩ := hshare
          cases rel with
          | nil => simp at hlen
          | cons c rel =>
            rw [List.take_succ_cons, List.all_cons, Bool.and_eq_true] at hall
            exact hall.1
        unfold windowsJoin
        rw [if_neg hshare, if_neg (mt (isSeparator_head h.noBackslash).mp hhead)]
        rfl
      · rw [windowsParts, splitOnP_isSeparator h.noBackslash] at hmem
        exact (List.mem_filter.mp hmem).1

/-! ## The ends of a path -/

lemma trimEndSlashes_split (rest : Path) : ∃ slashes, rest = trimEndSlashes rest ++ slashes ∧
    ∀ c ∈ slashes, c = '/' := by
  refine ⟨rest.rtakeWhile (· == '/'), List.rdropWhile_append_rtakeWhile.symm, fun c hc => ?_⟩
  have hslash : (c == '/') = true := List.mem_rtakeWhile_imp (p := (· == '/')) hc
  exact beq_iff_eq.mp hslash

lemma head_trimEndSlashes : (trimEndSlashes rest).head? = some '/' ↔
    rest.head? = some '/' ∧ ¬∀ c ∈ rest, c = '/' := by
  obtain ⟨slashes, heq, hslashes⟩ := trimEndSlashes_split rest
  cases htrim : trimEndSlashes rest with
  | nil =>
    rw [htrim, List.nil_append] at heq
    rw [heq]
    exact ⟨fun h => (by cases h), fun h => absurd hslashes h.2⟩
  | cons c kept =>
    have hkept : ¬∀ c ∈ rest, c = '/' := by
      intro hall
      have hnil : trimEndSlashes rest = [] :=
        List.rdropWhile_eq_nil_iff.mpr fun c hc => beq_iff_eq.mpr (hall c hc)
      rw [hnil] at htrim
      cases htrim
    rw [htrim] at heq
    rw [and_iff_left hkept, heq]
    rfl

lemma hasDrive_iff : hasDrive path = true ↔ ∃ letter tail, path = letter :: ':' :: tail ∧ letter.isAlpha := by
  unfold hasDrive
  split
  · case h_1 letter colon tail =>
    rw [Bool.and_eq_true, beq_iff_eq]
    constructor
    · rintro ⟨halpha, rfl⟩
      exact ⟨letter, tail, rfl, halpha⟩
    · rintro ⟨letter', tail', heq, halpha⟩
      cases heq
      exact ⟨halpha, rfl⟩
  · case h_2 hshort =>
    refine ⟨nofun, ?_⟩
    rintro ⟨letter, tail, rfl, -⟩
    exact absurd rfl (hshort letter ':' tail)

lemma hasDrive_trimEndSlashes : hasDrive (trimEndSlashes rest) = hasDrive rest := by
  obtain ⟨slashes, heq, hslashes⟩ := trimEndSlashes_split rest
  rw [Bool.eq_iff_iff, hasDrive_iff, hasDrive_iff]
  constructor
  · rintro ⟨letter, tail, htrim, halpha⟩
    refine ⟨letter, tail ++ slashes, ?_, halpha⟩
    rw [heq, htrim]
    rfl
  · rintro ⟨letter, tail, rfl, halpha⟩
    have hcolon : ':' ∉ slashes := fun hmem => absurd (hslashes _ hmem) (by decide)
    match htrim : trimEndSlashes (letter :: ':' :: tail), heq with
    | [], heq =>
      rw [List.nil_append] at heq
      exact absurd (heq ▸ List.mem_cons_of_mem _ List.mem_cons_self) hcolon
    | [c], heq =>
      rw [List.singleton_append, List.cons.injEq] at heq
      exact absurd (heq.2 ▸ List.mem_cons_self) hcolon
    | c :: d :: kept, heq =>
      rw [List.cons_append, List.cons_append, List.cons.injEq, List.cons.injEq] at heq
      obtain ⟨rfl, rfl, -⟩ := heq
      exact ⟨letter, kept, rfl, halpha⟩

lemma not_hasDrive_of_noColon (h : path[1]? ≠ some ':') : hasDrive path = false := by
  rw [Bool.eq_false_iff, Ne, hasDrive_iff]
  rintro ⟨letter, tail, rfl, -⟩
  exact h rfl

lemma head_dropWhile_slash (path : Path) : (path.dropWhile (· == '/')).head? ≠ some '/' := by
  intro h
  have hhead := List.head?_dropWhile_not (· == '/') path
  rw [h] at hhead
  cases hhead

/-! ## Into the folder -/

lemma stripRemoteRoot_inside_iff (h : stripRemoteRoot path remoteRoot = some rel) :
    StaysInside rel ↔ GoesOnInside path remoteRoot := by
  have haccepted := accepted_of_strip h
  rw [stripRemoteRoot_eq haccepted] at h
  rw [staysInside_iff (haccepted.harmless h)]
  have hhead := head_dropWhile_slash path
  rcases behind_some h with ⟨hroot, rfl⟩ | ⟨heq, rfl⟩ | ⟨rest, heq, rfl⟩
  · refine iff_of_true ⟨fun hslash => hhead (head_trimEndSlashes.mp hslash).1, ?_⟩ (Or.inl hroot)
    rw [hasDrive_trimEndSlashes]
    exact not_hasDrive_of_noColon haccepted.noColon
  · refine iff_of_true ⟨nofun, rfl⟩ (Or.inr fun rest hrest => ?_)
    rw [heq, List.self_eq_append_right] at hrest
    cases hrest
  · have hroot : rootOf remoteRoot ≠ [] := by
      intro hroot
      rw [heq, hroot] at hhead
      exact hhead rfl
    rw [GoesOnInside, or_iff_right hroot, Ne, head_trimEndSlashes, not_and_not_right, hasDrive_trimEndSlashes]
    constructor
    · intro hin rest' hrest
      rw [heq] at hrest
      obtain rfl : rest = rest' := by simpa using hrest
      exact hin
    · intro hin
      exact hin rest heq

/-! ## And back -/

lemma trimSlashes_eq_iff : trimSlashes rel = rel ↔ rel.head? ≠ some '/' ∧ rel.getLast? ≠ some '/' := by
  constructor
  · intro h
    rw [← h]
    refine ⟨fun hhead => ?_, fun hlast => ?_⟩
    · exact absurd (head_trimBy '/' hhead) (by decide)
    · exact absurd (getLast_trimBy '/' hlast) (by decide)
  · rintro ⟨hhead, hlast⟩
    apply trimBy_eq_self
    · intro c hc
      exact beq_eq_false_iff_ne.mpr fun heq => hhead (heq ▸ hc)
    · intro c hc
      exact beq_eq_false_iff_ne.mpr fun heq => hlast (heq ▸ hc)

lemma trimSlashes_ends (path : Path) :
    (trimSlashes path).head? ≠ some '/' ∧ (trimSlashes path).getLast? ≠ some '/' :=
  trimSlashes_eq_iff.mp trimBy_trimBy

lemma joinRemote_eq (remoteRoot rel : Path) : joinRemote remoteRoot rel =
    if rootOf remoteRoot = [] then trimSlashes rel
    else if trimSlashes rel = [] then rootOf remoteRoot else rootOf remoteRoot ++ '/' :: trimSlashes rel := rfl

lemma dropWhile_slash_eq_self (h : path.head? ≠ some '/') : path.dropWhile (· == '/') = path := by
  cases path with
  | nil => rfl
  | cons c path =>
    have hc : (c == '/') = false := by
      apply beq_eq_false_iff_ne.mpr
      rintro rfl
      exact h rfl
    rw [List.dropWhile_cons, hc]
    rfl

lemma dropWhile_joinRemote (remoteRoot rel : Path) :
    (joinRemote remoteRoot rel).dropWhile (· == '/') = joinRemote remoteRoot rel := by
  apply dropWhile_slash_eq_self
  rw [joinRemote_eq]
  split
  · exact (trimSlashes_ends rel).1
  · case isFalse hroot =>
    have hends := (trimSlashes_ends (trim remoteRoot)).1
    split
    · exact hends
    · rwa [List.head?_append_of_ne_nil _ hroot]

lemma trimEndSlashes_trimSlashes (path : Path) : trimEndSlashes (trimSlashes path) = trimSlashes path := by
  refine List.rdropWhile_eq_self_iff.mpr fun hne hlast => (trimSlashes_ends path).2 ?_
  have hslash : (trimSlashes path).getLast hne = '/' := beq_iff_eq.mp hlast
  rw [List.getLast?_eq_some_getLast hne, hslash]

lemma behind_joinRemote (remoteRoot rel : Path) :
    behind (joinRemote remoteRoot rel) (rootOf remoteRoot) = some (trimSlashes rel) := by
  rw [joinRemote_eq]
  unfold behind
  by_cases hroot : rootOf remoteRoot = []
  · rw [if_pos hroot, if_pos hroot, trimEndSlashes_trimSlashes]
  · rw [if_neg hroot, if_neg hroot]
    by_cases hrel : trimSlashes rel = []
    · rw [if_pos hrel, if_pos (Or.inl rfl), hrel]
    · have hlong : ¬(rootOf remoteRoot ++ '/' :: trimSlashes rel = rootOf remoteRoot ∨
          rootOf remoteRoot ++ '/' :: trimSlashes rel = rootOf remoteRoot ++ ['/']) := by
        rw [List.append_right_eq_self, List.append_cancel_left_eq, List.cons.injEq]
        rintro (hnil | ⟨-, hnil⟩)
        · cases hnil
        · exact hrel hnil
      have hprefix : (rootOf remoteRoot ++ '/' :: trimSlashes rel).dropPrefix? (rootOf remoteRoot ++ ['/']) =
          some (trimSlashes rel) := by
        refine List.dropPrefix?_eq_some_iff.mpr ⟨rootOf remoteRoot ++ ['/'], ?_, beq_iff_eq.mpr rfl⟩
        rw [List.append_assoc]
        rfl
      rw [if_neg hrel, if_neg hlong, hprefix, Option.map_some, trimEndSlashes_trimSlashes]

lemma accepted_joinRemote (htrim : trimSlashes rel = rel) : Accepted (joinRemote remoteRoot rel) ↔
    (∀ seg ∈ (rootOf remoteRoot).splitOn '/' ++ rel.splitOn '/', seg ≠ ['.', '.'] ∧ seg ≠ ['.']) ∧
    ('\\' ∉ rootOf remoteRoot ∧ '\\' ∉ rel) ∧
    (if rootOf remoteRoot = [] then rel else rootOf remoteRoot)[1]? ≠ some ':' := by
  have hnoDots : ∀ seg ∈ [([] : Path)], seg ≠ ['.', '.'] ∧ seg ≠ ['.'] := by decide
  have hparts : Accepted (joinRemote remoteRoot rel) ↔
      (∀ seg ∈ (joinRemote remoteRoot rel).splitOn '/', seg ≠ ['.', '.'] ∧ seg ≠ ['.']) ∧
      '\\' ∉ joinRemote remoteRoot rel ∧ (joinRemote remoteRoot rel)[1]? ≠ some ':' :=
    ⟨fun h => ⟨h.noDots, h.noBackslash, h.noColon⟩, fun h => ⟨h.1, h.2.1, h.2.2⟩⟩
  rw [hparts, joinRemote_eq, htrim]
  by_cases hroot : rootOf remoteRoot = []
  · simp only [hroot, if_true, List.splitOn_nil, List.forall_mem_append, List.not_mem_nil, not_false_eq_true,
      true_and, iff_true_intro hnoDots]
  · rw [if_neg hroot, if_neg hroot]
    by_cases hrel : rel = []
    · simp only [hrel, if_true, List.splitOn_nil, List.forall_mem_append, List.not_mem_nil, not_false_eq_true,
        and_true, iff_true_intro hnoDots]
    · rw [if_neg hrel, List.splitOn_append_cons_self, List.mem_append, List.mem_cons, not_or, not_or]
      have hcolon : (rootOf remoteRoot ++ '/' :: rel)[1]? = some ':' ↔ (rootOf remoteRoot)[1]? = some ':' := by
        -- behind a root of one character comes the slash
        match rootOf remoteRoot, hroot with
        | [c], _ => exact iff_of_false (by simp) (by simp)
        | c :: d :: tail, _ => exact Iff.rfl
      rw [Ne, hcolon, and_iff_right (by decide : '\\' ≠ '/')]

lemma stripRemoteRoot_joinRemote_iff :
    stripRemoteRoot (joinRemote remoteRoot rel) remoteRoot = some rel ↔ ComesBack remoteRoot rel := by
  constructor
  · intro h
    have haccepted := accepted_of_strip h
    rw [stripRemoteRoot_eq haccepted, dropWhile_joinRemote, behind_joinRemote, Option.some.injEq] at h
    rw [dropWhile_joinRemote, accepted_joinRemote h] at haccepted
    exact ⟨trimSlashes_eq_iff.mp h, haccepted.1, haccepted.2.1, haccepted.2.2⟩
  · intro h
    have htrim := trimSlashes_eq_iff.mpr h.trimmed
    have haccepted := (accepted_joinRemote htrim).mpr ⟨h.noDots, h.noBackslash, h.noColon⟩
    rw [← dropWhile_joinRemote] at haccepted
    rw [stripRemoteRoot_eq haccepted, dropWhile_joinRemote, behind_joinRemote, htrim]

/-- What is made of a server's path stays inside every folder just when it goes on inside behind the root, and a
    local path comes back just when nothing in it is refused. -/
theorem remote_paths_iff (remoteRoot : Path) :
    (∀ path rel, stripRemoteRoot path remoteRoot = some rel →
      (StaysInside rel ↔ GoesOnInside path remoteRoot)) ∧
    ∀ rel, stripRemoteRoot (joinRemote remoteRoot rel) remoteRoot = some rel ↔ ComesBack remoteRoot rel :=
  ⟨fun _ _ h => stripRemoteRoot_inside_iff h, fun _ => stripRemoteRoot_joinRemote_iff⟩

/-- Behind the remote root, a second slash and a drive get through, and a colon is refused on the way back. -/
theorem remote_paths_leave :
    (∃ rel, stripRemoteRoot "docs//etc/passwd".toList "docs".toList = some rel ∧
      localAt "sync".toList rel = ["etc".toList, "passwd".toList] ∧ ¬StaysInside rel) ∧
    (∃ rel, stripRemoteRoot "docs/C:/windows".toList "docs".toList = some rel ∧
      windowsJoin ["sync".toList] rel = none ∧ ¬StaysInside rel) ∧
    stripRemoteRoot (joinRemote [] "a:b.jpg".toList) [] = none := by
  have hslash : stripRemoteRoot "docs//etc/passwd".toList "docs".toList = some "/etc/passwd".toList := by decide
  have hdrive : stripRemoteRoot "docs/C:/windows".toList "docs".toList = some "C:/windows".toList := by decide
  refine ⟨⟨_, hslash, by decide, ?_⟩, ⟨_, hdrive, by decide, ?_⟩, by decide⟩
  · exact fun h => ((staysInside_iff ⟨by decide, by decide⟩).mp h).1 rfl
  · exact fun h => absurd ((staysInside_iff ⟨by decide, by decide⟩).mp h).2 (by decide)

end Sarca.Client
