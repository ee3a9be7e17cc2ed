import Sarca.Server.Segments
import Sarca.Server.Undelete

/-!
# Paths in requests

The web client writes a path into a URL, each segment through `encodeURIComponent` (`encodeFilePath`). The
browser takes the dot segments out of it, and the router matches what is left and decodes it once (`routePath`,
`wildcard`).

A path is `Carried` when none of its segments is empty or made of dots. Such a path arrives as it is
(`routePath_carried`), and any other one arrives shorter (`routePath_lt`): so a path comes back from a handler
that decodes it once more, and shortens it, only if nothing was done to it (`carried_of_twice`).
-/

namespace Sarca.Server
open Sarca.Lib

/-! ## From the client to the handler -/

/-- A path in a URL of the API (JavaScript `encodeFilePath`, `encodeShareRelPath`). -/
def encodeFilePath (path : Path) : Path :=
  let encoded := ['/'].intercalate (((path.splitOn '/').filter (· ≠ [])).map encodeURIComponent)
  if isFolderPath path ∧ encoded ≠ [] then encoded ++ ['/'] else encoded

/-- What stands behind the fixed part of the route in the URL of a path; `none` when the dot segments lead
    out of it. -/
def urlRest (path : Path) : Option Path :=
  (removeDots [] ((encodeFilePath path).splitOn '/')).map fun segments => ['/'].intercalate segments

/-- The path that the router hands to an endpoint. -/
def routePath (path : Path) : Option Path :=
  (urlRest path).map percentDecode

/-- The path that `/{*path}` takes, which is not empty, unless a route of its own matches. -/
def wildcard (routes : List Path) (path : Path) : Option Path :=
  match urlRest path with
  | none => none
  | some rest => if rest = [] ∨ routes.any (· = rest) then none else some (percentDecode rest)

/-! ## What the URL carries -/

/-- The segments with something in them, and the empty one behind the slash of a folder. -/
def requestSegments (path : Path) : List Path :=
  let named := (path.splitOn '/').filter (· ≠ [])
  if named = [] then [[]] else if isFolderPath path then named ++ [[]] else named

/-- No segment is empty or made of dots; a folder has one slash more. -/
def Carried (path : Path) : Prop :=
  path = [] ∨ ∀ seg ∈ (trimSlash path).splitOn '/', seg ≠ [] ∧ seg ≠ ['.'] ∧ seg ≠ ['.', '.']

instance (path : Path) : Decidable (Carried path) :=
  inferInstanceAs (Decidable (_ ∨ ∀ seg ∈ (trimSlash path).splitOn '/', _))

variable {path p q : Path} {segs seen out : List Path}

lemma encodeURIComponent_eq_iff {s t : Path} (ht : encodeURIComponent t = t) :
    encodeURIComponent s = t ↔ s = t := by
  constructor
  · intro h
    have hdecode := congrArg percentDecode (h.trans ht.symm)
    rwa [percentDecode_encodeURIComponent, percentDecode_encodeURIComponent] at hdecode
  · rintro rfl
    exact ht

lemma splitOn_encodeFilePath :
    (encodeFilePath path).splitOn '/' = (requestSegments path).map encodeURIComponent := by
  unfold encodeFilePath requestSegments
  by_cases hnamed : (path.splitOn '/').filter (· ≠ []) = []
  · have hnil : ['/'].intercalate (([] : List Path).map encodeURIComponent) = [] := rfl
    simp only [hnamed, hnil, ne_eq, not_true_eq_false, and_false, if_true, if_false]
    rfl
  · have hsplit :
        (['/'].intercalate (((path.splitOn '/').filter (· ≠ [])).map encodeURIComponent)).splitOn '/' =
        ((path.splitOn '/').filter (· ≠ [])).map encodeURIComponent := by
      refine List.splitOn_intercalate '/' (fun seg hseg => ?_) (by simpa using hnamed)
      obtain ⟨s, -, rfl⟩ := List.mem_map.mp hseg
      exact slash_not_mem_encodeURIComponent s
    have hne : ['/'].intercalate (((path.splitOn '/').filter (· ≠ [])).map encodeURIComponent) ≠ [] := by
      intro hnil
      rw [hnil] at hsplit
      have hmem : ([] : Path) ∈ ((path.splitOn '/').filter (· ≠ [])).map encodeURIComponent := by
        rw [← hsplit]
        simp
      obtain ⟨s, hs, henc⟩ := List.mem_map.mp hmem
      rw [encodeURIComponent_eq_iff rfl] at henc
      simp [henc] at hs
    simp only [hnamed, hne, if_false, ne_eq, not_false_eq_true, and_true]
    split
    · rw [List.splitOn_append_cons_self, hsplit, List.map_append]
      rfl
    · exact hsplit

lemma removeDots_map_encode (seen segs : List Path) :
    removeDots (seen.map encodeURIComponent) (segs.map encodeURIComponent) =
      (removeDots seen segs).map (List.map encodeURIComponent) := by
  have hdot (s : Path) : encodeURIComponent s = ['.'] ↔ s = ['.'] :=
    encodeURIComponent_eq_iff (by decide)
  have hdots (s : Path) : encodeURIComponent s = ['.', '.'] ↔ s = ['.', '.'] :=
    encodeURIComponent_eq_iff (by decide)
  have hnil : encodeURIComponent [] = [] := rfl
  induction segs generalizing seen with
  | nil => simp [removeDots]
  | cons seg rest ih =>
    unfold removeDots
    simp only [List.map_cons, hdot, hdots, List.map_eq_nil_iff]
    split
    · cases seen with
      | nil => rfl
      | cons last seen =>
        rw [List.map_cons]
        dsimp only
        split
        · simp [hnil]
        · exact ih seen
    · split
      · split
        · simp [hnil]
        · exact ih seen
      · exact ih (seg :: seen)

lemma routePath_eq : routePath path =
    (removeDots [] (requestSegments path)).map fun segments => ['/'].intercalate segments := by
  have hmap := removeDots_map_encode [] (requestSegments path)
  rw [List.map_nil] at hmap
  rw [routePath, urlRest, splitOn_encodeFilePath, hmap, Option.map_map, Option.map_map]
  congr 1
  funext segments
  show percentDecode (['/'].intercalate (segments.map encodeURIComponent)) = _
  rw [percentDecode_intercalate (by decide) (by decide), List.map_map]
  congr 1
  exact (List.map_congr_left fun s _ => percentDecode_encodeURIComponent s).trans (List.map_id _)

lemma slashedLength_reverse (segs : List Path) : slashedLength segs.reverse = slashedLength segs := by
  induction segs with
  | nil => rfl
  | cons seg segs ih =>
    rw [List.reverse_cons, slashedLength_append, ih, slashedLength, slashedLength, slashedLength]
    omega

lemma removeDots_length (h : removeDots seen segs = some out) :
    slashedLength out ≤ slashedLength seen + slashedLength segs ∧
      ((∃ seg ∈ segs, seg = ['.'] ∨ seg = ['.', '.']) →
        slashedLength out < slashedLength seen + slashedLength segs) ∧
      (seen ≠ [] ∨ segs ≠ [] → out ≠ []) := by
  induction segs generalizing seen with
  | nil =>
    cases h
    simp [slashedLength_reverse, slashedLength]
  | cons seg rest ih =>
    unfold removeDots at h
    split at h
    · case isTrue hdots =>
      subst hdots
      cases seen with
      | nil => cases h
      | cons last seen =>
        dsimp only at h
        split at h
        · cases h
          simp only [slashedLength_reverse, slashedLength, List.length_cons, List.length_nil]
          exact ⟨by omega, fun _ => by omega, fun _ => by simp⟩
        · case isFalse hrest =>
          obtain ⟨hle, -, hne⟩ := ih h
          simp only [slashedLength, List.length_cons, List.length_nil]
          exact ⟨by omega, fun _ => by omega, fun _ => hne (Or.inr hrest)⟩
    · case isFalse hdots =>
      split at h
      · case isTrue hdot =>
        subst hdot
        split at h
        · cases h
          simp only [slashedLength_reverse, slashedLength, List.length_cons, List.length_nil]
          exact ⟨by omega, fun _ => by omega, fun _ => by simp⟩
        · case isFalse hrest =>
          obtain ⟨hle, -, hne⟩ := ih h
          simp only [slashedLength, List.length_cons, List.length_nil]
          exact ⟨by omega, fun _ => by omega, fun _ => hne (Or.inr hrest)⟩
      · case isFalse hdot =>
        obtain ⟨hle, hlt, hne⟩ := ih h
        simp only [slashedLength] at hle hlt ⊢
        refine ⟨by omega, ?_, fun _ => hne (Or.inl (List.cons_ne_nil seg seen))⟩
        rintro ⟨s, hs, hdotted⟩
        rcases List.mem_cons.mp hs with rfl | hs
        · exact absurd hdotted (by simp [hdot, hdots])
        · have hrest := hlt ⟨s, hs, hdotted⟩
          omega

lemma slashedLength_lt_of_sublist {xs ys : List Path} (h : xs.Sublist ys) (hne : xs ≠ ys) :
    slashedLength xs < slashedLength ys := by
  induction h with
  | slnil => exact absurd rfl hne
  | cons y hsub _ =>
    have hle := slashedLength_le_of_sublist hsub
    rw [slashedLength]
    omega
  | cons_cons y _ ih => exact Nat.add_lt_add_left (ih fun heq => hne (congrArg _ heq)) _

lemma splitOn_trimSlash (path : Path) : path.splitOn '/' =
    (trimSlash path).splitOn '/' ++ (if isFolderPath path then [[]] else []) := by
  cases hfolder : isFolderPath path with
  | false => simp [trimSlash_file hfolder]
  | true =>
    obtain ⟨folder, rfl⟩ := isFolderPath_iff.mp hfolder
    rw [trimSlash_concat, List.splitOn_append_cons_self]
    simp

lemma filter_splitOn_trimSlash :
    (path.splitOn '/').filter (· ≠ []) = ((trimSlash path).splitOn '/').filter (· ≠ []) := by
  rw [splitOn_trimSlash path, List.filter_append]
  split <;> simp

lemma requestSegments_sublist (path : Path) : (requestSegments path).Sublist (path.splitOn '/') := by
  unfold requestSegments
  dsimp only
  split
  · case isTrue hnone =>
    obtain ⟨seg, rest, hsplit⟩ := List.exists_cons_of_ne_nil (List.splitOn_ne_nil '/' path)
    have hseg : seg = [] := by
      by_contra hne
      have hmem : seg ∈ (path.splitOn '/').filter (· ≠ []) :=
        List.mem_filter.mpr ⟨by rw [hsplit]; exact List.mem_cons_self, by simpa using hne⟩
      rw [hnone] at hmem
      cases hmem
    rw [hsplit, hseg]
    exact (List.nil_sublist rest).cons_cons []
  · split
    · case isTrue hfolder =>
      rw [filter_splitOn_trimSlash, splitOn_trimSlash path, if_pos hfolder]
      exact List.filter_sublist.append (List.Sublist.refl _)
    · exact List.filter_sublist

lemma requestSegments_carried (h : Carried path) : requestSegments path = path.splitOn '/' := by
  rcases h with rfl | h
  · rfl
  · have hfilter : ((trimSlash path).splitOn '/').filter (· ≠ []) = (trimSlash path).splitOn '/' :=
      List.filter_eq_self.mpr fun seg hseg => by simpa using (h seg hseg).1
    unfold requestSegments
    dsimp only
    rw [filter_splitOn_trimSlash, hfilter, if_neg (List.splitOn_ne_nil '/' _), splitOn_trimSlash path]
    split
    · rfl
    · rw [List.append_nil]

lemma carried_of_requestSegments (h : requestSegments path = path.splitOn '/')
    (hdots : ¬∃ seg ∈ path.splitOn '/', seg = ['.'] ∨ seg = ['.', '.']) : Carried path := by
  unfold requestSegments at h
  dsimp only at h
  split at h
  · left
    have hwhole : ['/'].intercalate (path.splitOn '/') = path := List.intercalate_splitOn '/'
    rw [← hwhole, ← h]
    rfl
  · case isFalse hsome =>
    have hall : ((trimSlash path).splitOn '/').filter (· ≠ []) = (trimSlash path).splitOn '/' := by
      rw [filter_splitOn_trimSlash, splitOn_trimSlash path] at h
      split at h
      · exact List.append_cancel_right h
      · rwa [List.append_nil] at h
    right
    intro seg hseg
    have hmem : seg ∈ path.splitOn '/' := by
      rw [splitOn_trimSlash path]
      exact List.mem_append_left _ hseg
    refine ⟨by simpa using List.filter_eq_self.mp hall seg hseg, fun hdot => ?_, fun hdot => ?_⟩
    · exact hdots ⟨seg, hmem, Or.inl hdot⟩
    · exact hdots ⟨seg, hmem, Or.inr hdot⟩

lemma Carried.noDots (h : Carried path) : ∀ seg ∈ path.splitOn '/', seg ≠ ['.'] ∧ seg ≠ ['.', '.'] := by
  intro seg hseg
  rcases h with rfl | h
  · simp at hseg
    simp [hseg]
  · rw [splitOn_trimSlash path] at hseg
    rcases List.mem_append.mp hseg with hseg | hseg
    · exact (h seg hseg).2
    · split at hseg
      · simp [List.mem_singleton.mp hseg]
      · cases hseg

lemma routePath_carried (h : Carried path) : routePath path = some path := by
  rw [routePath_eq, requestSegments_carried h, removeDots_of_noDots h.noDots, List.reverse_nil, List.nil_append,
    Option.map_some, List.intercalate_splitOn]

lemma routePath_lt (h : ¬Carried path) (hp : routePath path = some p) : p.length < path.length := by
  rw [routePath_eq] at hp
  obtain ⟨out, hout, rfl⟩ := Option.map_eq_some_iff.mp hp
  obtain ⟨hle, hlt, hne⟩ := removeDots_length hout
  have hsub := requestSegments_sublist path
  have hne' : requestSegments path ≠ [] := by
    unfold requestSegments
    dsimp only
    split
    · simp
    · case isFalse hsome =>
      split
      · simp
      · exact hsome
  have hlen := length_intercalate (hne (Or.inr hne'))
  have hwhole := slashedLength_splitOn path
  rw [slashedLength, Nat.zero_add] at hle hlt
  by_cases heq : requestSegments path = path.splitOn '/'
  · have hdots : ∃ seg ∈ path.splitOn '/', seg = ['.'] ∨ seg = ['.', '.'] := by
      by_contra hno
      exact h (carried_of_requestSegments heq hno)
    have hless := hlt (heq ▸ hdots)
    rw [heq] at hless
    omega
  · have hless := slashedLength_lt_of_sublist hsub heq
    omega

lemma removeDots_getLast (h : removeDots seen segs = some out) (hlast : segs.getLast? = some []) :
    out.getLast? = some [] := by
  induction segs generalizing seen with
  | nil => cases hlast
  | cons seg rest ih =>
    have hrest : rest ≠ [] → rest.getLast? = some [] := by
      intro hne
      obtain ⟨next, rest', rfl⟩ := List.exists_cons_of_ne_nil hne
      rwa [List.getLast?_cons_cons] at hlast
    unfold removeDots at h
    split at h
    · cases seen with
      | nil => cases h
      | cons last seen =>
        dsimp only at h
        split at h
        · cases h
          simp
        · case isFalse hne => exact ih h (hrest hne)
    · split at h
      · split at h
        · cases h
          simp
        · case isFalse hne => exact ih h (hrest hne)
      · by_cases hne : rest = []
        · subst hne
          cases h
          rw [List.getLast?_singleton] at hlast
          simp [Option.some.inj hlast]
        · exact ih h (hrest hne)

lemma routePath_folder (h : isFolderPath path = true) (hp : routePath path = some p) :
    p = [] ∨ isFolderPath p = true := by
  rw [routePath_eq] at hp
  obtain ⟨out, hout, rfl⟩ := Option.map_eq_some_iff.mp hp
  have hlast : (requestSegments path).getLast? = some [] := by
    unfold requestSegments
    dsimp only
    split
    · rfl
    · rw [List.getLast?_concat]
  obtain ⟨init, rfl⟩ := List.getLast?_eq_some_iff.mp (removeDots_getLast hout hlast)
  by_cases hinit : init = []
  · subst hinit
    exact Or.inl rfl
  · right
    rw [intercalate_append hinit (List.cons_ne_nil _ _)]
    exact isFolderPath_iff.mpr ⟨['/'].intercalate init, by simp [List.intercalate]⟩

lemma isFolderPath_percentDecode (h : isFolderPath path = true) : isFolderPath (percentDecode path) = true := by
  obtain ⟨folder, rfl⟩ := isFolderPath_iff.mp h
  have hdecode := percentDecode_intercalate (show '/' ≠ '%' by decide) (by decide) [folder, []]
  have hjoin (a : Path) : ['/'].intercalate [a, []] = a ++ ['/'] := by simp [List.intercalate, List.intersperse]
  have hnil : percentDecode [] = [] := rfl
  rw [List.map_cons, List.map_cons, List.map_nil, hnil, hjoin, hjoin] at hdecode
  rw [hdecode]
  exact isFolderPath_concat

lemma dropWhile_folder (h : isFolderPath path = true) :
    path.dropWhile (· = '/') = [] ∨ isFolderPath (path.dropWhile (· = '/')) = true := by
  by_cases hnil : path.dropWhile (· = '/') = []
  · exact Or.inl hnil
  · right
    rwa [← @List.takeWhile_append_dropWhile _ (· = '/') path, isFolderPath_append hnil] at h

/-! ## Twice decoded -/

lemma length_percentDecode_le (text : Path) : (percentDecode text).length ≤ text.length := by
  by_cases h : NoEscape text
  · rw [percentDecode_eq_self_iff.mpr h]
  · have hlt := length_decodeFrom_lt (Nat.le_refl _) h []
    unfold percentDecode
    simp only [List.length_nil, Nat.zero_add] at hlt
    omega

lemma carried_of_twice {shorten : Path → Path} (hshorten : ∀ text, (shorten text).length ≤ text.length)
    (hp : routePath path = some p) (h : shorten (percentDecode p) = path) :
    Carried path ∧ NoEscape path ∧ shorten path = path := by
  have hdecode := length_percentDecode_le p
  have hlen := hshorten (percentDecode p)
  rw [h] at hlen
  have hcarried : Carried path := by
    by_contra hno
    have hlt := routePath_lt hno hp
    omega
  obtain rfl : path = p := Option.some.inj ((routePath_carried hcarried).symm.trans hp)
  have hself : NoEscape path := by
    by_contra hno
    have hlt := length_decodeFrom_lt (Nat.le_refl _) hno []
    unfold percentDecode at hlen
    simp only [List.length_nil, Nat.zero_add] at hlt
    omega
  refine ⟨hcarried, hself, ?_⟩
  rwa [percentDecode_eq_self_iff.mpr hself] at h

lemma carried_of_once (hp : routePath path = some path) : Carried path := by
  by_contra hno
  exact absurd (routePath_lt hno hp) (Nat.lt_irrefl _)

lemma dropWhile_length (text : Path) : (text.dropWhile (· = '/')).length ≤ text.length :=
  (List.dropWhile_sublist _).length_le

lemma dropWhile_decode_folder (h : isFolderPath path = true) (hp : routePath path = some p) :
    (percentDecode p).dropWhile (· = '/') = [] ∨
      isFolderPath ((percentDecode p).dropWhile (· = '/')) = true := by
  rcases routePath_folder h hp with rfl | hfolder
  · exact Or.inl rfl
  · exact dropWhile_folder (isFolderPath_percentDecode hfolder)

/-! ## Carried paths -/

lemma trimEndSlashes_folder (h : isFolderPath path = true) (hslashes : ¬['/', '/'] <:+ path)
    (hroot : path ≠ ['/']) : trimEndSlashes path ++ ['/'] = path := by
  obtain ⟨folder, rfl⟩ := isFolderPath_iff.mp h
  have hfile : isFolderPath folder = false := by
    rw [Bool.eq_false_iff]
    intro hfolder
    obtain ⟨above, rfl⟩ := isFolderPath_iff.mp hfolder
    exact hslashes ⟨above, by simp⟩
  rw [trimEndSlashes_concat, trimEndSlashes_file hfile]

lemma Carried.dropLast (h : Carried path) : ∀ seg ∈ (path.splitOn '/').dropLast, seg ≠ [] := by
  rcases h with rfl | h
  · simp
  · rw [splitOn_trimSlash path]
    split
    · rw [List.dropLast_concat]
      exact fun seg hseg => (h seg hseg).1
    · rw [List.append_nil]
      exact fun seg hseg => (h seg (List.mem_of_mem_dropLast hseg)).1

lemma mem_dropLast_splitOn {before after : Path} {seg : Path} (h : seg ∈ before.splitOn '/') :
    seg ∈ ((before ++ '/' :: after).splitOn '/').dropLast := by
  rw [List.splitOn_append_cons_self, List.dropLast_append_of_ne_nil (List.splitOn_ne_nil '/' after)]
  exact List.mem_append_left _ h

lemma Carried.slashes (h : Carried path) : path.head? ≠ some '/' ∧ ¬['/', '/'] <:+: path := by
  constructor
  · intro hhead
    obtain ⟨rest, rfl⟩ := List.head?_eq_some_iff.mp hhead
    exact h.dropLast [] (@mem_dropLast_splitOn [] rest [] (by simp)) rfl
  · rintro ⟨before, after, rfl⟩
    have hmem : ([] : Path) ∈ ((before ++ ['/']) ++ '/' :: after |>.splitOn '/').dropLast := by
      refine mem_dropLast_splitOn ?_
      rw [List.splitOn_append_cons_self]
      simp
    refine h.dropLast [] ?_ rfl
    simpa using hmem

lemma Carried.dropWhile (h : Carried path) : path.dropWhile (· = '/') = path := by
  cases path with
  | nil => rfl
  | cons c path =>
    rw [List.dropWhile_cons_of_neg]
    intro hc
    exact h.slashes.1 (congrArg some (of_decide_eq_true hc))

lemma Carried.validatePath (h : Carried path) : validatePath path = true := by
  unfold Server.validatePath
  rw [Bool.and_eq_true, Bool.and_eq_true, Bool.not_eq_true', ← Bool.not_eq_true, holdsPattern_iff,
    List.all_eq_true]
  refine ⟨⟨decide_eq_true h.slashes.1, h.slashes.2⟩, fun seg hseg => ?_⟩
  rw [Bool.and_eq_true]
  exact ⟨decide_eq_true (h.noDots seg hseg).2, decide_eq_true (h.noDots seg hseg).1⟩

lemma Carried.trimEndSlashes (h : Carried path) (hfolder : isFolderPath path = true) :
    trimEndSlashes path ++ ['/'] = path := by
  refine trimEndSlashes_folder hfolder (fun hsuffix => h.slashes.2 hsuffix.isInfix) ?_
  rintro rfl
  exact h.slashes.1 rfl

lemma not_carried_root : ¬Carried ['/'] := by
  decide

lemma wildcard_eq {routes : List Path} : wildcard routes path = some p ↔
    ∃ rest, urlRest path = some rest ∧ rest ≠ [] ∧ rest ∉ routes ∧ percentDecode rest = p := by
  unfold wildcard
  cases hrest : urlRest path with
  | none => simp
  | some rest =>
    dsimp only
    have hany : (routes.any fun x => decide (x = rest)) = true ↔ rest ∈ routes := by simp
    simp only [hany]
    split
    · case isTrue hor =>
      constructor
      · intro h
        cases h
      · rintro ⟨rest', hsome, hne, hmem, -⟩
        cases hsome
        exact absurd hor (not_or.mpr ⟨hne, hmem⟩)
    · case isFalse hor =>
      rw [not_or] at hor
      simp [hor.1, hor.2]

lemma wildcard_routePath {routes : List Path} (h : wildcard routes path = some p) :
    routePath path = some p := by
  obtain ⟨rest, hrest, -, -, rfl⟩ := wildcard_eq.mp h
  rw [routePath, hrest, Option.map_some]

lemma wildcard_carried {routes : List Path} (hroutes : ∀ r ∈ routes, encodeFilePath r = r ∧ percentDecode r = r)
    (h : Carried path) :
    wildcard routes path = some path ↔ path ≠ [] ∧ path ∉ routes := by
  have hurl : urlRest path = some (encodeFilePath path) := by
    have hdots : ∀ seg ∈ (requestSegments path).map encodeURIComponent, seg ≠ ['.'] ∧ seg ≠ ['.', '.'] := by
      intro seg hseg
      obtain ⟨s, hs, rfl⟩ := List.mem_map.mp hseg
      rw [requestSegments_carried h] at hs
      have hnot := h.noDots s hs
      exact ⟨fun heq => hnot.1 ((encodeURIComponent_eq_iff (by decide)).mp heq),
        fun heq => hnot.2 ((encodeURIComponent_eq_iff (by decide)).mp heq)⟩
    rw [urlRest, splitOn_encodeFilePath, removeDots_of_noDots hdots, List.reverse_nil, List.nil_append,
      Option.map_some, ← splitOn_encodeFilePath, List.intercalate_splitOn]
  have hdecode : percentDecode (encodeFilePath path) = path := by
    have hroute := routePath_carried h
    rw [routePath, hurl, Option.map_some] at hroute
    exact Option.some.inj hroute
  rw [wildcard_eq]
  constructor
  · rintro ⟨rest, hrest, hne, hmem, -⟩
    obtain rfl := Option.some.inj (hurl.symm.trans hrest)
    refine ⟨?_, fun hroute => hmem ?_⟩
    · rintro rfl
      exact hne rfl
    · rwa [(hroutes path hroute).1]
  · rintro ⟨hne, hmem⟩
    refine ⟨encodeFilePath path, hurl, fun hnil => hne ?_, fun hroute => hmem ?_, hdecode⟩
    · rw [← hdecode, hnil]
      rfl
    · rwa [(hroutes _ hroute).2.symm.trans hdecode] at hroute

end Sarca.Server
