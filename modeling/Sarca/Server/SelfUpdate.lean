import Mathlib.Logic.Function.Basic

/-!
# Putting an update in place

`swap_in_place` of `services/update.rs` moves the staged binary and UI over the live ones: two deletions of
what an earlier update left behind, and then four renames, of which three undo what came before when they
fail. `InstallDir` is the install directory with the staging under it, `Faults` says which call the system
refuses, and `swapInPlace` runs the calls one after the other.

A failed deletion may leave a folder as it was, or empty. A rename fails onto a folder that is not empty, as
it does on POSIX. `allOrNothing_iff` says after which failures the old install is back.
-/

namespace Sarca.Server

/-- What lies under a name: a file, or a folder that may be empty. -/
inductive Entry where
  | file (object : Nat)
  | folder (object : Nat) (empty : Bool)
deriving DecidableEq, Repr

inductive InstallName where
  | binary
  | ui
  /-- `sarca.old` -/
  | oldBinary
  /-- `ui.old` -/
  | oldUi
  | newBinary
  | newUi
deriving DecidableEq, Repr

abbrev InstallDir := InstallName → Option Entry

/-- The file or folder itself, whatever is in it. -/
def Entry.object : Entry → Nat
  | .file object => object
  | .folder object _ => object

/-- A folder that is not empty, which no rename replaces. -/
def Entry.inTheWay : Entry → Bool
  | .folder _ empty => !empty
  | .file _ => false

/-- How `remove_dir_all` ends: a failed one leaves the folder, with or without what was in it. -/
inductive Removal where
  | done
  | emptied
  | refused
deriving DecidableEq, Repr

/-- The calls that fail (`true`), in their order. -/
structure Faults where
  removeOldBinary : Bool
  removeOldUi : Removal
  uiAside : Bool
  uiIn : Bool
  uiBack : Bool
  binaryAside : Bool
  binaryIn : Bool
  binaryBack : Bool
  removeUi : Removal
  uiBackAgain : Bool
  removeOldUiLast : Removal
  removeOldBinaryLast : Bool
deriving DecidableEq, Repr

namespace InstallDir

/-- `std::fs::remove_file` -/
def removeFile (d : InstallDir) (name : InstallName) (fails : Bool) : InstallDir :=
  if fails then d else Function.update d name none

/-- `std::fs::remove_dir_all` -/
def removeDirAll (d : InstallDir) (name : InstallName) : Removal → InstallDir
  | .done => Function.update d name none
  | .emptied => Function.update d name ((d name).map fun e => .folder e.object true)
  | .refused => d

/-- `std::fs::rename`, if it succeeds. -/
def rename (d : InstallDir) (source target : InstallName) (fails : Bool) : Option InstallDir :=
  match d source with
  | none => none
  | some e =>
    if fails || (d target).any Entry.inTheWay then none
    else some (Function.update (Function.update d source none) target (some e))

/-- A live part is moved aside, if there is one. -/
def aside (d : InstallDir) (source target : InstallName) (fails : Bool) : Option InstallDir :=
  if (d source).isSome then d.rename source target fails else some d

end InstallDir

/-- The directory, and whether a rename that was to move something back has failed. -/
structure Swapping where
  dir : InstallDir
  stuck : Bool

/-- A rename that puts something back; its failure is passed over. -/
def Swapping.rollBack (s : Swapping) (source target : InstallName) (fails : Bool) : Swapping :=
  match s.dir.rename source target fails with
  | some d => { s with dir := d }
  | none => { s with stuck := s.stuck || (s.dir source).isSome }

/-- The second half of `swap_in_place`: the binary. -/
def swapBinary (d : InstallDir) (f : Faults) : Except String Unit × Swapping :=
  match d.aside .binary .oldBinary f.binaryAside with
  | none => (.error "cannot replace the installed binary", ⟨d, false⟩)
  | some d =>
    match d.rename .newBinary .binary f.binaryIn with
    | none =>
      let s := Swapping.rollBack ⟨d, false⟩ .oldBinary .binary f.binaryBack
      let s := { s with dir := s.dir.removeDirAll .ui f.removeUi }
      (.error "cannot install the new binary", s.rollBack .oldUi .ui f.uiBackAgain)
    | some d =>
      (.ok (), ⟨(d.removeDirAll .oldUi f.removeOldUiLast).removeFile .oldBinary f.removeOldBinaryLast, false⟩)

/-- Rust `swap_in_place`. -/
def swapInPlace (d : InstallDir) (f : Faults) : Except String Unit × Swapping :=
  let d := (d.removeFile .oldBinary f.removeOldBinary).removeDirAll .oldUi f.removeOldUi
  match d.aside .ui .oldUi f.uiAside with
  | none => (.error "cannot replace the installed UI", ⟨d, false⟩)
  | some d =>
    match d.rename .newUi .ui f.uiIn with
    | none => (.error "cannot install the new UI", Swapping.rollBack ⟨d, false⟩ .oldUi .ui f.uiBack)
    | some d => swapBinary d f

/-- An install directory as `apply` hands it on: a binary and a UI are staged, live and left over are a
    binary or none and a folder or none, and the staged UI is not the live one. -/
structure Staged where
  dir : InstallDir
  binary : Nat
  ui : Nat
  newBinary : dir .newBinary = some (.file binary)
  /-- there is an `index.html` in it -/
  newUi : dir .newUi = some (.folder ui false)
  binaries : ∀ e, dir .binary = some e ∨ dir .oldBinary = some e → ∃ object, e = .file object
  uis : ∀ e, dir .ui = some e ∨ dir .oldUi = some e → ∃ object empty, e = .folder object empty
  apart : ∀ e, dir .ui = some e → e.object ≠ ui

/-- The install is the new one when the swap succeeds, and what it was when the swap fails. -/
def AllOrNothing (I : Staged) (f : Faults) : Prop :=
  match swapInPlace I.dir f with
  | (.ok (), s) => s.dir .binary = some (.file I.binary) ∧ s.dir .ui = some (.folder I.ui false)
  | (.error _, s) => s.dir .binary = I.dir .binary ∧ s.dir .ui = I.dir .ui

/-- The leftover UI of an earlier update, behind its deletion. -/
def Staged.leftUi (I : Staged) (f : Faults) : Option Entry :=
  (I.dir.removeDirAll .oldUi f.removeOldUi) .oldUi

def Staged.UiAside (I : Staged) (f : Faults) : Prop :=
  I.dir .ui = none ∨ f.uiAside = false ∧ (I.leftUi f).any Entry.inTheWay = false

/-- The live binary goes aside, or there is none. -/
def Staged.BinaryAside (I : Staged) (f : Faults) : Prop :=
  I.dir .binary = none ∨ f.binaryAside = false

structure Undone (I : Staged) (f : Faults) : Prop where
  /-- the rename of the live binary is the one that nothing undoes -/
  aside : I.UiAside f → f.uiIn = false → I.BinaryAside f
  /-- without a live UI there is no leftover one to be taken for it -/
  noUi : I.dir .ui = none → f.uiIn = true → I.leftUi f = none
  /-- nor when the binary fails, and the new UI goes away again -/
  noUiAgain : I.dir .ui = none → f.uiIn = false → I.BinaryAside f → f.binaryIn = true →
    I.leftUi f = none ∧ f.removeUi = .done
  /-- without a live binary there is no leftover one to be taken for it -/
  noBinary : I.dir .binary = none → I.UiAside f → f.uiIn = false → f.binaryIn = true →
    I.dir .oldBinary = none ∨ f.removeOldBinary = false

section Renames

variable {d d' : InstallDir} {source target : InstallName} {fails : Bool}

lemma rename_moves (h : d.rename source target fails = some d') :
    ∃ e, d source = some e ∧ d' = Function.update (Function.update d source none) target (some e) := by
  unfold InstallDir.rename at h
  split at h
  · exact absurd h (Option.some_ne_none d').symm
  · case h_2 e he =>
    split at h
    · exact absurd h (Option.some_ne_none d').symm
    · exact ⟨e, he, (Option.some.inj h).symm⟩

lemma rename_free {e : Entry} (hs : d source = some e) (ht : d target = none) : d.rename source target fails =
    if fails then none else some (Function.update (Function.update d source none) target (some e)) := by
  simp [InstallDir.rename, hs, ht]

lemma aside_eq_none : d.aside source target fails = none ↔
    (d source).isSome = true ∧ (fails || (d target).any Entry.inTheWay) = true := by
  unfold InstallDir.aside InstallDir.rename
  cases d source with
  | none => simp
  | some e =>
    cases fails with
    | true => simp
    | false => simp

lemma aside_moves (hne : source ≠ target) (h : d.aside source target fails = some d') :
    d' source = none ∧ d' target = (d source).or (d target) ∧
      ∀ other, other ≠ source → other ≠ target → d' other = d other := by
  unfold InstallDir.aside at h
  split at h
  · obtain ⟨e, he, rfl⟩ := rename_moves h
    refine ⟨?_, ?_, fun other hs ht => ?_⟩
    · rw [Function.update_of_ne hne, Function.update_self]
    · rw [Function.update_self, he, Option.some_or]
    · rw [Function.update_of_ne ht, Function.update_of_ne hs]
  · case isFalse hnone =>
    obtain rfl := Option.some.inj h
    have hd : d source = none := Option.not_isSome_iff_eq_none.mp hnone
    exact ⟨hd, by rw [hd, Option.none_or], fun _ _ _ => rfl⟩

lemma rollBack_moves {s : Swapping} (h : (s.rollBack source target fails).stuck = false) :
    s.stuck = false ∧ (s.rollBack source target fails).dir target = (s.dir source).or (s.dir target) ∧
      ∀ other, other ≠ source → other ≠ target → (s.rollBack source target fails).dir other = s.dir other := by
  unfold Swapping.rollBack at h ⊢
  split at h
  · case h_1 d hd =>
    obtain ⟨e, he, rfl⟩ := rename_moves hd
    refine ⟨h, ?_, fun other hs ht => ?_⟩
    · exact (Function.update_self ..).trans (he ▸ Option.some_or.symm)
    · exact (Function.update_of_ne ht ..).trans (Function.update_of_ne hs ..)
  · rw [Bool.or_eq_false_iff, Option.isSome_eq_false_iff, Option.isNone_iff_eq_none] at h
    exact ⟨h.1, by rw [h.2, Option.none_or], fun _ _ _ => rfl⟩

end Renames

section Stages

variable (I : Staged) (f : Faults)

/-- The directory once the leftovers of an earlier update have been deleted. -/
def Staged.cleaned (I : Staged) (f : Faults) : InstallDir :=
  (I.dir.removeFile .oldBinary f.removeOldBinary).removeDirAll .oldUi f.removeOldUi

@[simp] lemma removeDirAll_of_ne {d : InstallDir} {name other : InstallName} (h : other ≠ name) (r : Removal) :
    d.removeDirAll name r other = d other := by
  cases r with
  | done => exact Function.update_of_ne h ..
  | emptied => exact Function.update_of_ne h ..
  | refused => rfl

@[simp] lemma removeFile_of_ne {d : InstallDir} {name other : InstallName} (h : other ≠ name) (fails : Bool) :
    d.removeFile name fails other = d other := by
  unfold InstallDir.removeFile
  split
  · rfl
  · exact Function.update_of_ne h ..

lemma removeDirAll_congr {d d' : InstallDir} {name : InstallName} (h : d name = d' name) (r : Removal) :
    d.removeDirAll name r name = d'.removeDirAll name r name := by
  cases r with
  | done => simp [InstallDir.removeDirAll]
  | emptied => simp [InstallDir.removeDirAll, h]
  | refused => exact h

lemma removeDirAll_eq_none {d : InstallDir} {name : InstallName} {r : Removal} :
    d.removeDirAll name r name = none ↔ d name = none ∨ r = .done := by
  cases r with
  | done => simp [InstallDir.removeDirAll]
  | emptied => simp [InstallDir.removeDirAll]
  | refused => simp [InstallDir.removeDirAll]

lemma cleaned_of_ne {name : InstallName} (hb : name ≠ .oldBinary) (hu : name ≠ .oldUi) :
    I.cleaned f name = I.dir name := by
  rw [Staged.cleaned, removeDirAll_of_ne hu, removeFile_of_ne hb]

lemma cleaned_oldBinary : I.cleaned f .oldBinary = if f.removeOldBinary then I.dir .oldBinary else none := by
  rw [Staged.cleaned]
  cases h : f.removeOldBinary with
  | true => simp [InstallDir.removeFile]
  | false => simp [InstallDir.removeFile]

lemma cleaned_oldUi : I.cleaned f .oldUi = I.leftUi f :=
  removeDirAll_congr (removeFile_of_ne (by decide) _) _

variable {d : InstallDir} {b : Nat}

lemma swapBinary_ends (hnew : d .newBinary = some (.file b)) (hold : (d .oldBinary).any Entry.inTheWay = false)
    (hs : (swapBinary d f).2.stuck = false) :
    if (d .binary).isSome && f.binaryAside then ∃ e, swapBinary d f = (.error e, ⟨d, false⟩)
    else if f.binaryIn then ∃ e s, swapBinary d f = (.error e, s) ∧
      s.dir .binary = (d .binary).or (d .oldBinary) ∧
      s.dir .ui = (d .oldUi).or (d.removeDirAll .ui f.removeUi .ui)
    else ∃ s, swapBinary d f = (.ok (), s) ∧ s.dir .binary = some (.file b) ∧ s.dir .ui = d .ui := by
  unfold swapBinary at hs ⊢
  cases ha : d.aside .binary .oldBinary f.binaryAside with
  | none =>
    rw [aside_eq_none, hold, Bool.or_false] at ha
    rw [ha.1, ha.2]
    exact ⟨_, rfl⟩
  | some d₁ =>
    have hgone : ¬((d .binary).isSome && f.binaryAside) = true := fun h => by
      rw [Bool.and_eq_true] at h
      exact Option.some_ne_none d₁ (ha.symm.trans (aside_eq_none.mpr ⟨h.1, Bool.or_eq_true_iff.mpr (.inl h.2)⟩))
    rw [if_neg hgone]
    obtain ⟨hbinary, holdBinary, hother⟩ := aside_moves (by decide) ha
    have hnew₁ : d₁ .newBinary = some (.file b) := by rw [hother _ (by decide) (by decide), hnew]
    simp only [ha, rename_free hnew₁ hbinary] at hs ⊢
    cases hin : f.binaryIn with
    | false =>
      have hui : d₁ .ui = d .ui := hother _ (by decide) (by decide)
      exact ⟨_, rfl, by simp, by simp [hui]⟩
    | true =>
      simp only [hin, if_true] at hs ⊢
      obtain ⟨hs₁, hbackUi, hkeep⟩ := rollBack_moves hs
      obtain ⟨-, hbackBinary, hkeep₁⟩ := rollBack_moves hs₁
      have holdUi : d₁ .oldUi = d .oldUi := hother _ (by decide) (by decide)
      have hui : d₁ .ui = d .ui := hother _ (by decide) (by decide)
      refine ⟨_, _, rfl, ?_, ?_⟩
      · rw [hkeep _ (by decide) (by decide)]
        simp [hbackBinary, hbinary, holdBinary]
      · have hin : (Swapping.rollBack ⟨d₁, false⟩ .oldBinary .binary f.binaryBack).dir .ui = d .ui :=
          (hkeep₁ _ (by decide) (by decide)).trans hui
        have hold : (Swapping.rollBack ⟨d₁, false⟩ .oldBinary .binary f.binaryBack).dir .oldUi = d .oldUi :=
          (hkeep₁ _ (by decide) (by decide)).trans holdUi
        rw [hbackUi, ← removeDirAll_congr hin]
        simp [hold]

lemma swapInPlace_ends (hs : (swapInPlace I.dir f).2.stuck = false) :
    (¬I.UiAside f ∧ ∃ e, swapInPlace I.dir f = (.error e, ⟨I.cleaned f, false⟩)) ∨
    (I.UiAside f ∧ f.uiIn = true ∧ ∃ e s, swapInPlace I.dir f = (.error e, s) ∧
      s.dir .binary = I.dir .binary ∧ s.dir .ui = (I.dir .ui).or (I.leftUi f)) ∨
    (I.UiAside f ∧ f.uiIn = false ∧ ∃ d, swapInPlace I.dir f = swapBinary d f ∧
      d .ui = some (.folder I.ui false) ∧ d .oldUi = (I.dir .ui).or (I.leftUi f) ∧
      ∀ name, name ≠ .ui → name ≠ .oldUi → name ≠ .newUi → d name = I.cleaned f name) := by
  have hcleanUi : I.cleaned f .ui = I.dir .ui := cleaned_of_ne I f (by decide) (by decide)
  have haside : (I.cleaned f).aside .ui .oldUi f.uiAside = none ↔ ¬I.UiAside f := by
    rw [aside_eq_none, cleaned_oldUi, hcleanUi, Staged.UiAside, not_or, Option.isSome_iff_ne_none]
    cases f.uiAside with
    | true => simp
    | false => simp
  unfold swapInPlace at hs ⊢
  rw [← Staged.cleaned] at hs ⊢
  cases ha : (I.cleaned f).aside .ui .oldUi f.uiAside with
  | none => exact .inl ⟨haside.mp ha, "cannot replace the installed UI", by simp only [ha]⟩
  | some d =>
    have hUi : I.UiAside f := by
      by_contra hnot
      exact Option.some_ne_none d (ha.symm.trans (haside.mpr hnot))
    obtain ⟨hui, holdUi, hother⟩ := aside_moves (by decide) ha
    rw [hcleanUi, cleaned_oldUi] at holdUi
    have hnew : d .newUi = some (.folder I.ui false) := by
      rw [hother _ (by decide) (by decide), cleaned_of_ne I f (by decide) (by decide), I.newUi]
    simp only [ha, rename_free hnew hui] at hs ⊢
    cases hin : f.uiIn with
    | true =>
      simp only [hin, if_true] at hs ⊢
      obtain ⟨-, hback, hkeep⟩ := rollBack_moves hs
      refine .inr (.inl ⟨hUi, trivial, _, _, rfl, ?_, ?_⟩)
      · calc
          _ = d .binary := hkeep _ (by decide) (by decide)
          _ = I.cleaned f .binary := hother _ (by decide) (by decide)
          _ = I.dir .binary := cleaned_of_ne I f (by decide) (by decide)
      · calc
          _ = (d .oldUi).or (d .ui) := hback
          _ = (I.dir .ui).or (I.leftUi f) := by rw [holdUi, hui, Option.or_none]
    | false =>
      refine .inr (.inr ⟨hUi, rfl, _, rfl, by simp, by simp [holdUi], fun name hn ho hw => ?_⟩)
      rw [Function.update_of_ne hn, Function.update_of_ne hw, hother _ hn ho]

lemma cleaned_oldBinary_eq_none :
    I.cleaned f .oldBinary = none ↔ I.dir .oldBinary = none ∨ f.removeOldBinary = false := by
  rw [cleaned_oldBinary]
  cases f.removeOldBinary with
  | true => simp
  | false => simp

lemma cleaned_oldBinary_free : (I.cleaned f .oldBinary).any Entry.inTheWay = false := by
  rw [cleaned_oldBinary]
  split
  · cases he : I.dir .oldBinary with
    | none => rfl
    | some e =>
      obtain ⟨object, rfl⟩ := I.binaries e (.inr he)
      rfl
  · rfl

lemma or_eq_left {α : Type} {live left : Option α} : live.or left = live ↔ (live = none → left = none) := by
  cases live with
  | none => simp
  | some a => simp


end Stages

theorem allOrNothing_iff (I : Staged) (f : Faults) (h : (swapInPlace I.dir f).2.stuck = false) :
    AllOrNothing I f ↔ Undone I f := by
  obtain ⟨hnot, e, hends⟩ | ⟨hUi, hin, e, s, hends, hbinary, hui⟩ | ⟨hUi, hin, d, hends, hui, holdUi, hother⟩ :=
    swapInPlace_ends I f h
  · -- the UI stays where it is
    have hdone : AllOrNothing I f := by
      rw [AllOrNothing, hends]
      exact ⟨cleaned_of_ne I f (by decide) (by decide), cleaned_of_ne I f (by decide) (by decide)⟩
    have hundone : Undone I f := by
      refine ⟨fun hUi => absurd hUi hnot, fun hno => ?_, fun hno => ?_, fun _ hUi => absurd hUi hnot⟩
      · exact absurd (.inl hno) hnot
      · exact absurd (.inl hno) hnot
    exact iff_of_true hdone hundone
  · -- the new UI does not come in
    have hiff : AllOrNothing I f ↔ (I.dir .ui = none → I.leftUi f = none) := by
      rw [AllOrNothing, hends]
      simp only [hbinary, hui, or_eq_left, true_and]
    rw [hiff]
    have hout : f.uiIn ≠ false := by rw [hin]; decide
    constructor
    · exact fun hno => ⟨fun _ h => absurd h hout, fun h _ => hno h, fun _ h => absurd h hout,
        fun _ _ h => absurd h hout⟩
    · exact fun hundone hno => hundone.noUi hno hin
  · have hnew : d .newBinary = some (.file I.binary) := by
      rw [hother _ (by decide) (by decide) (by decide), cleaned_of_ne I f (by decide) (by decide), I.newBinary]
    have hold : d .oldBinary = I.cleaned f .oldBinary := hother _ (by decide) (by decide) (by decide)
    have hbinary : d .binary = I.dir .binary :=
      (hother _ (by decide) (by decide) (by decide)).trans (cleaned_of_ne I f (by decide) (by decide))
    have hbinaryEnds := swapBinary_ends f hnew (hold ▸ cleaned_oldBinary_free I f) (hends ▸ h)
    rw [hbinary] at hbinaryEnds
    split at hbinaryEnds
    · -- nothing brings the old UI back once the binary does not go aside
      case isTrue hfails =>
        rw [Bool.and_eq_true] at hfails
        obtain ⟨e, hfailed⟩ := hbinaryEnds
        have hmixed : ¬AllOrNothing I f := by
          rw [AllOrNothing, hends, hfailed]
          exact fun hdone => I.apart _ (hdone.2.symm.trans hui) rfl
        have hnot : ¬I.BinaryAside f := fun hor => hor.elim
          (fun hnone => Option.isSome_iff_ne_none.mp hfails.1 hnone)
          (fun hdone => Bool.false_ne_true (hdone.symm.trans hfails.2))
        exact iff_of_false hmixed fun hundone => hnot (hundone.aside hUi hin)
    · case isFalse hgoes =>
        have haside : I.BinaryAside f := by
          rw [Staged.BinaryAside, ← Option.not_isSome_iff_eq_none, ← Bool.not_eq_true, ← not_and_or,
            ← Bool.and_eq_true]
          exact hgoes
        split at hbinaryEnds
        · case isTrue hfails =>
            obtain ⟨e, s, hfailed, hb, hu⟩ := hbinaryEnds
            have hiff : AllOrNothing I f ↔ (I.dir .binary = none → I.cleaned f .oldBinary = none) ∧
                (I.dir .ui = none → I.leftUi f = none ∧ f.removeUi = .done) := by
              rw [AllOrNothing, hends, hfailed]
              simp only [hb, hu, holdUi, hold, or_eq_left, Option.or_assoc, Option.or_eq_none_iff,
                removeDirAll_eq_none, hui, reduceCtorEq, false_or]
            rw [hiff, cleaned_oldBinary_eq_none]
            have hnot : f.uiIn ≠ true := by rw [hin]; decide
            constructor
            · exact fun hback => ⟨fun _ _ => haside, fun _ h => absurd h hnot, fun hno _ _ _ => hback.2 hno,
                fun hno _ _ _ => hback.1 hno⟩
            · exact fun hundone => ⟨fun hno => hundone.noBinary hno hUi hin hfails,
                fun hno => hundone.noUiAgain hno hin haside hfails⟩
        · case isFalse hin' =>
            obtain ⟨s, hok, hb, hu⟩ := hbinaryEnds
            have hdone : AllOrNothing I f := by
              rw [AllOrNothing, hends, hok]
              exact ⟨hb, hu.trans hui⟩
            have hnot : f.uiIn ≠ true := by rw [hin]; decide
            exact iff_of_true hdone ⟨fun _ _ => haside, fun _ h => absurd h hnot, fun _ _ _ h => absurd h hin',
              fun _ _ _ h => absurd h hin'⟩

/-- A server at work: a binary and its UI, and nothing left over. -/
def running : Staged where
  dir
    | .binary => some (.file 1)
    | .ui => some (.folder 2 false)
    | .oldBinary => none
    | .oldUi => none
    | .newBinary => some (.file 3)
    | .newUi => some (.folder 4 false)
  binary := 3
  ui := 4
  newBinary := rfl
  newUi := rfl
  binaries := fun e h => h.elim (fun h => ⟨1, (Option.some.inj h).symm⟩)
    (fun h => absurd h.symm (Option.some_ne_none e))
  uis := fun e h => h.elim (fun h => ⟨2, false, (Option.some.inj h).symm⟩)
    (fun h => absurd h.symm (Option.some_ne_none e))
  apart := fun e h => by
    obtain rfl := Option.some.inj h
    decide

def noFaults : Faults where
  removeOldBinary := false
  removeOldUi := .done
  uiAside := false
  uiIn := false
  uiBack := false
  binaryAside := false
  binaryIn := false
  binaryBack := false
  removeUi := .done
  uiBackAgain := false
  removeOldUiLast := .done
  removeOldBinaryLast := false

/-- The new binary does not come in, and everything is put back. -/
theorem running_undone : (swapInPlace running.dir { noFaults with binaryIn := true }).2.stuck = false ∧
    (AllOrNothing running { noFaults with binaryIn := true } ↔
      Undone running { noFaults with binaryIn := true }) :=
  ⟨rfl, allOrNothing_iff _ _ rfl⟩

/-- The running binary does not go aside: the install is left with the new UI and the old binary, and the
    rollback was never tried. -/
theorem mixed_install : ∃ s, swapInPlace running.dir { noFaults with binaryAside := true } =
      (.error "cannot replace the installed binary", s) ∧ s.stuck = false ∧
      s.dir .binary = some (.file 1) ∧ s.dir .ui = some (.folder 4 false) ∧
      running.dir .ui = some (.folder 2 false) ∧
      ¬AllOrNothing running { noFaults with binaryAside := true } := by
  refine ⟨_, rfl, rfl, rfl, rfl, rfl, fun h => ?_⟩
  exact absurd h.2 (by decide)

end Sarca.Server
