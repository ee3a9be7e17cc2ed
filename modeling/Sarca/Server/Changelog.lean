import Sarca.Lib.Log
import Sarca.Server.Files

/-!
# The changelog as a mirror of the live rows

A client that starts from a map of paths and replays the events behind its cursor holds a `Mirror`;
`Mirror.view` is the map this gives it. `Depicts` says that a map describes the live rows of a
storage: every live row that is listed (uploaded or a folder marker) stands in it with its id and
hash, and a path without live row does not stand in it. A path whose live row still waits for its
bytes is left open, as the triggers leave it.

`describes_insertFile` and `describes_replaceFile` say that an `INSERT` and a visited row of an
`UPDATE` keep the description, the latter unless a trashed row with a live twin leaves its path.
`view_deleteEach` and `view_updateEach` compute the map after a whole `DELETE` and after an `UPDATE`
that moves trashed rows: both only take paths away.
-/

namespace Sarca.Server
open Sarca.Lib

/-- What a map of paths says about a path: the file at it and its hash. -/
abbrev PathMap := Path → Option (Uuid × Option ContentHash)

/-- The map describes the live rows of the storage. -/
structure Depicts (m : PathMap) (s : Uuid) (db : Db) : Prop where
  present : ∀ r ∈ db.files, r.storageId = s → r.Live → r.Listed →
    m r.path = some (r.id, r.contentHash)
  absent : ∀ p, (∀ r ∈ db.files, r.storageId = s → r.Live → r.path ≠ p) → m p = none

/-- What an event means to the client that replays it. -/
def EventData.entry (e : EventData) : Log.Entry Path (Uuid × Option ContentHash) :=
  match e.op with
  | .upsert => .set e.path (e.fileId, e.contentHash)
  | .delete => .del e.path

def entriesOf (s : Uuid) (evs : List EventData) :
    List (Log.Entry Path (Uuid × Option ContentHash)) :=
  (evs.filter fun e => e.storageId = s).map (·.entry)

/-- A map of paths a client starts from, and the cursor it reads the changelog behind. -/
structure Mirror where
  start : PathMap
  cursor : Nat

/-- The mirror that replays the whole changelog. -/
def Mirror.empty : Mirror where
  start := fun _ => none
  cursor := 0

namespace Mirror

def unread (μ : Mirror) (s : Uuid) (db : Db) : List SyncEvent :=
  (db.eventsOf s).filter fun e => μ.cursor < e.id

/-- The map the client holds once it replayed the changelog. -/
def view (μ : Mirror) (s : Uuid) (db : Db) : PathMap :=
  Log.replay μ.start ((μ.unread s db).map (·.entry))

/-- The map the client holds describes the live rows of the storage. -/
abbrev Describes (μ : Mirror) (s : Uuid) (db : Db) : Prop :=
  Depicts (μ.view s db) s db

/-- What every run keeps: the schema, and a cursor that names no event of the future. -/
structure Sane (μ : Mirror) (db : Db) : Prop where
  wf : db.Wf
  past : μ.cursor ≤ db.eventSeq

end Mirror

/-! ## Events and maps -/

@[simp] lemma entry_key (e : EventData) : e.entry.key = e.path := by
  unfold EventData.entry
  cases e.op <;> rfl

@[simp] lemma entriesOf_nil (s : Uuid) : entriesOf s [] = [] := rfl

lemma entriesOf_append (s : Uuid) (evs evs' : List EventData) :
    entriesOf s (evs ++ evs') = entriesOf s evs ++ entriesOf s evs' := by
  simp [entriesOf]

lemma entriesOf_singleton {s : Uuid} {op : EventOp} {r : FileRow} (h : r.storageId = s) :
    entriesOf s [eventOf op r] = [(eventOf op r).entry] := by
  simp [entriesOf, h]

lemma entriesOf_other {s : Uuid} {evs : List EventData} (h : ∀ e ∈ evs, e.storageId ≠ s) :
    entriesOf s evs = [] := by
  simp only [entriesOf, List.map_eq_nil_iff, List.filter_eq_nil_iff, decide_eq_true_eq]
  exact h

@[simp] lemma entry_upsert (r : FileRow) :
    (eventOf .upsert r).entry = .set r.path (r.id, r.contentHash) := rfl

@[simp] lemma entry_delete (r : FileRow) : (eventOf .delete r).entry = .del r.path := rfl

lemma number_entries (s : Uuid) (c seq : Nat) (hc : c ≤ seq) (evs : List EventData) :
    (((number seq evs).filter fun e => e.storageId = s).filter fun e => c < e.id).map (·.entry) =
      entriesOf s evs := by
  induction evs generalizing seq with
  | nil => rfl
  | cons d evs ih =>
    have hd : c < seq + 1 := by omega
    have htail := ih (seq + 1) (by omega)
    by_cases hs : d.storageId = s
    · simp only [number, entriesOf, List.filter_cons, hs, hd, decide_true, if_true, List.map_cons]
      rw [htail, entriesOf]
    · simp only [number, entriesOf, List.filter_cons, hs, decide_false, Bool.false_eq_true, if_false]
      rw [htail, entriesOf]

namespace Mirror

variable {μ : Mirror} {s : Uuid} {db db' : Db}

lemma view_emit (db : Db) (hpast : μ.cursor ≤ db.eventSeq) (evs : List EventData) :
    μ.view s (db.emit evs) = Log.replay (μ.view s db) (entriesOf s evs) := by
  have happ : (μ.unread s (db.emit evs)).map (·.entry) =
      (μ.unread s db).map (·.entry) ++ entriesOf s evs := by
    simp only [unread, Db.eventsOf, Db.emit, List.filter_append, List.map_append]
    congr 1
    exact number_entries s μ.cursor db.eventSeq hpast evs
  rw [view, happ, Log.replay_append, view]

lemma Sane.emit (h : μ.Sane db) (evs : List EventData) : μ.Sane (db.emit evs) where
  wf := h.wf.emit evs
  past := Nat.le_trans h.past (Nat.le_add_right _ _)

/-! ## One inserted row -/

lemma Sane.insertFile (h : μ.Sane db) {row : FileRow} (hok : db.insertFile row = .ok db') :
    μ.Sane db' := by
  refine ⟨h.wf.insertFile hok, ?_⟩
  obtain ⟨-, -, -, rfl⟩ := Db.insertFile_ok hok
  exact Nat.le_trans h.past (Nat.le_add_right _ _)

lemma view_insertFile (h : μ.Sane db) {row : FileRow} (hok : db.insertFile row = .ok db')
    (p : Path) :
    μ.view s db' p =
      if row.storageId = s ∧ row.Live ∧ row.Listed ∧ p = row.path
        then some (row.id, row.contentHash) else μ.view s db p := by
  obtain ⟨-, -, -, rfl⟩ := Db.insertFile_ok hok
  rw [view_emit { db with files := db.files ++ [row] } h.past]
  have hview : μ.view s { db with files := db.files ++ [row] } = μ.view s db := rfl
  rw [hview]
  unfold filesSyncEventInsert
  by_cases hr : row.Live ∧ row.Listed
  · rw [if_pos hr]
    by_cases hs : row.storageId = s
    · simp only [entriesOf_singleton hs, Log.replay_cons, Log.replay_nil, entry_upsert,
        Log.apply_eq, Log.Entry.key, Log.Entry.value, hs, hr, true_and]
      rfl
    · rw [entriesOf_other (by simpa using hs)]
      simp [hs]
  · rw [if_neg hr, if_neg fun h' => hr ⟨h'.2.1, h'.2.2.1⟩]
    rfl

lemma describes_insertFile (h : μ.Sane db) (hd : μ.Describes s db) {row : FileRow}
    (hok : db.insertFile row = .ok db') : μ.Describes s db' := by
  obtain ⟨-, hfree, -, -⟩ := Db.insertFile_ok hok
  have hmem : ∀ r, r ∈ db'.files ↔ r ∈ db.files ∨ r = row := fun r => Db.mem_insertFile hok
  constructor
  · intro r hr hs hl hlist
    rw [view_insertFile h hok]
    rcases (hmem r).mp hr with hr | rfl
    · rw [if_neg, hd.present r hr hs hl hlist]
      rintro ⟨hs', hl', -, hp⟩
      exact Db.liveAt_none.mp (hfree hl') r hr (hs.trans hs'.symm) hl hp
    · rw [if_pos ⟨hs, hl, hlist, rfl⟩]
  · intro p hp
    rw [view_insertFile h hok, if_neg]
    · exact hd.absent p fun r hr => hp r ((hmem r).mpr (Or.inl hr))
    · rintro ⟨hs, hl, -, rfl⟩
      exact hp row ((hmem row).mpr (Or.inr rfl)) hs hl rfl

/-! ## One updated row -/

lemma Sane.replaceFile (h : μ.Sane db) {old new : FileRow} (hold : old ∈ db.files)
    (hok : db.replaceFile old new = .ok db') (hid : new.id = old.id)
    (hst : new.storageId = old.storageId) : μ.Sane db' := by
  refine ⟨h.wf.replaceFile hold hok hid hst, ?_⟩
  obtain ⟨-, rfl⟩ := Db.replaceFile_ok hok
  exact Nat.le_trans h.past (Nat.le_add_right _ _)

lemma replay_update (m : PathMap) {old new : FileRow} (hold : old.storageId = s)
    (hnew : new.storageId = s) (p : Path) :
    Log.replay m (entriesOf s (filesSyncEventUpdate old new)) p =
      if p = new.path ∧ new.Live ∧ new.Listed ∧ (old.path ≠ new.path ∨ contentChanged old new)
        then some (new.id, new.contentHash)
      else if p = old.path ∧ (old.path ≠ new.path ∨ ¬ new.Live ∧ old.Live) then none
      else m p := by
  unfold filesSyncEventUpdate
  by_cases hpath : old.path = new.path
  · by_cases hl : new.Live
    · by_cases hc : new.Listed ∧ contentChanged old new
      · simp [hpath, hl, hc, entriesOf_singleton hnew, Log.apply_eq, Log.Entry.key,
          Log.Entry.value]
        rfl
      · simp [hpath, hl, hc]
    · by_cases hol : old.Live
      · simp [hpath, hl, hol, entriesOf_singleton hnew, Log.apply_eq, Log.Entry.key,
          Log.Entry.value]
        rfl
      · simp [hpath, hl, hol]
  · by_cases hc : new.Live ∧ new.Listed
    · simp only [hpath, hc, ne_eq, not_false_eq_true, true_and, false_and, and_self, if_true,
        if_false, List.append_nil, entriesOf_append, entriesOf_singleton hold,
        entriesOf_singleton hnew, Log.replay_append, Log.replay_cons, Log.replay_nil,
        Log.apply_eq, entry_delete, entry_upsert, Log.Entry.key, Log.Entry.value, true_or,
        and_true]
      rfl
    · have hc' : ¬ (old.path ≠ new.path ∧ new.Live ∧ new.Listed) := fun h => hc h.2
      have hc'' : ¬ (p = new.path ∧ new.Live ∧ new.Listed ∧
          (old.path ≠ new.path ∨ contentChanged old new)) := fun h => hc ⟨h.2.1, h.2.2.1⟩
      rw [if_pos hpath, if_neg hc', if_neg (by simp [hpath]), if_neg (by simp [hpath]), if_neg hc'']
      simp [entriesOf_singleton hold, Log.apply_eq, Log.Entry.key, Log.Entry.value, hpath]
      rfl

lemma view_replaceFile (h : μ.Sane db) {old new : FileRow} (hok : db.replaceFile old new = .ok db') :
    μ.view s db' = Log.replay (μ.view s db) (entriesOf s (filesSyncEventUpdate old new)) := by
  obtain ⟨-, rfl⟩ := Db.replaceFile_ok hok
  exact view_emit
    { db with files := db.files.map fun r => if r.id = old.id then new else r } h.past _

lemma entriesOf_update_other {old new : FileRow} (hold : old.storageId ≠ s)
    (hnew : new.storageId ≠ s) : entriesOf s (filesSyncEventUpdate old new) = [] := by
  apply entriesOf_other
  intro e he
  simp only [filesSyncEventUpdate, List.mem_append] at he
  rcases he with ((he | he) | he) | he <;>
    · split at he
      · rw [List.mem_singleton.mp he]
        assumption
      · exact absurd he List.not_mem_nil

/-- A visited row of an `UPDATE` keeps the description, unless a trashed row leaves a path at which a
    listed row stands live. -/
lemma describes_replaceFile (h : μ.Sane db) (hd : μ.Describes s db) {old new : FileRow}
    (hold : old ∈ db.files) (hid : new.id = old.id) (hst : new.storageId = old.storageId)
    (hsafe : old.Live ∨ old.path = new.path ∨
      ∀ r ∈ db.files, r.storageId = s → r.Live → r.Listed → r.path ≠ old.path)
    (hok : db.replaceFile old new = .ok db') : μ.Describes s db' := by
  have hmem : ∀ r, r ∈ db'.files ↔ r = new ∨ r ∈ db.files ∧ r ≠ old :=
    fun r => Db.mem_replaceFile h.wf hold hok
  obtain ⟨hfree, -⟩ := Db.replaceFile_ok hok
  by_cases hs : old.storageId = s
  · have hs' : new.storageId = s := hst.trans hs
    have hview := fun p =>
      (congrFun (view_replaceFile h hok) p).trans (replay_update (μ.view s db) hs hs' p)
    constructor
    · intro r hr hrs hl hlist
      rw [hview]
      rcases (hmem r).mp hr with rfl | ⟨hm, hne⟩
      · by_cases hc : old.path ≠ r.path ∨ contentChanged old r
        · rw [if_pos ⟨rfl, hl, hlist, hc⟩]
        · -- nothing of what is reported changed: the map already has the row
          simp only [contentChanged, not_or, not_not, ne_eq] at hc
          obtain ⟨hpath, hol, hup, hsz, hhash, hmt⟩ := hc
          have hol' : old.Listed := by
            unfold FileRow.Listed at hlist ⊢
            rwa [hup, hpath]
          rw [if_neg, if_neg, ← hpath, hd.present old hold hs hol hol', hid, hhash]
          · rintro ⟨-, hne | ⟨hnl, -⟩⟩
            · exact hne hpath
            · exact hnl hl
          · rintro ⟨-, -, -, hne | hne⟩
            · exact hne hpath
            · simp_all [contentChanged]
      · rw [if_neg, if_neg, hd.present r hm hrs hl hlist]
        · rintro ⟨hp, hleft⟩
          by_cases hol : old.Live
          · exact hne (h.wf.aliveUnique r hm old hold hl hol (hrs.trans hs.symm) hp)
          · rcases hsafe with hol' | hpath | hnone
            · exact hol hol'
            · rcases hleft with hne' | ⟨-, hol'⟩
              · exact hne' hpath
              · exact hol hol'
            · exact hnone r hm hrs hl hlist hp
        · rintro ⟨hp, hnl, -, -⟩
          have hne' : r.id ≠ new.id := fun he => hne (h.wf.idUnique r hm old hold (he.trans hid))
          exact hfree ⟨hnl, r, hm, hne', hl, hrs.trans hs'.symm, hp⟩
    · intro p hp
      rw [hview, if_neg]
      · by_cases hleft : p = old.path ∧ (old.path ≠ new.path ∨ ¬ new.Live ∧ old.Live)
        · rw [if_pos hleft]
        · rw [if_neg hleft]
          apply hd.absent
          intro r hr hrs hl hrp
          by_cases hro : r = old
          · subst hro
            -- the row stood at `p` and stays there live
            have hsame : r.path = new.path := by
              by_contra hne
              exact hleft ⟨hrp.symm, Or.inl hne⟩
            have hnl : new.Live := by
              by_contra hnl
              exact hleft ⟨hrp.symm, Or.inr ⟨hnl, hl⟩⟩
            exact hp new ((hmem new).mpr (Or.inl rfl)) hs' hnl (hsame.symm.trans hrp)
          · exact hp r ((hmem r).mpr (Or.inr ⟨hr, hro⟩)) hrs hl hrp
      · rintro ⟨rfl, hnl, -, -⟩
        exact hp new ((hmem new).mpr (Or.inl rfl)) hs' hnl rfl
  · have hs' : new.storageId ≠ s := fun he => hs (hst.symm.trans he)
    have hview : μ.view s db' = μ.view s db := by
      rw [view_replaceFile h hok, entriesOf_update_other hs hs', Log.replay_nil]
    constructor
    · intro r hr hrs hl hlist
      rw [hview]
      rcases (hmem r).mp hr with rfl | ⟨hm, -⟩
      · exact absurd hrs hs'
      · exact hd.present r hm hrs hl hlist
    · intro p hp
      rw [hview]
      apply hd.absent
      intro r hr hrs
      exact hp r ((hmem r).mpr (Or.inr ⟨hr, fun he => hs (he ▸ hrs)⟩)) hrs

end Mirror

/-! ## Whole statements -/

lemma ite_or_none {α : Type} (P Q : Prop) [Decidable P] [Decidable Q] (v : Option α) :
    (if P then none else if Q then none else v) = if P ∨ Q then none else v := by
  by_cases hP : P <;> simp [hP]

/-- The `SET` clause leaves id and storage of a row alone. -/
def KeepsKey (f : FileRow → FileRow) : Prop :=
  ∀ r, (f r).id = r.id ∧ (f r).storageId = r.storageId

namespace Mirror

variable {μ : Mirror} {s : Uuid} {db db' : Db} {f : FileRow → FileRow}

lemma Sane.updateEach (h : μ.Sane db) {ids : List Uuid} (hok : db.updateEach f ids = .ok db')
    (hf : KeepsKey f) : μ.Sane db' := by
  apply Db.updateEach_induct (P := fun _ db => μ.Sane db) ?_ ?_ hok h
  · intro _ _ _ _ h
    exact h
  · intro _ _ _ _ old hsome hrep h
    exact h.replaceFile (Db.fileById_some hsome).1 hrep (hf old).1 (hf old).2

lemma describes_updateEach (h : μ.Sane db) (hd : μ.Describes s db) {ids : List Uuid}
    (hok : db.updateEach f ids = .ok db') (hf : KeepsKey f) (hnodup : ids.Nodup)
    (hsafe : ∀ r ∈ db.files, r.id ∈ ids → r.Live ∨ (f r).path = r.path) : μ.Describes s db' := by
  have hend := Db.updateEach_induct
    (P := fun ids db => (μ.Sane db ∧ μ.Describes s db) ∧ ids.Nodup ∧
      ∀ r ∈ db.files, r.id ∈ ids → r.Live ∨ (f r).path = r.path) ?_ ?_ hok
    ⟨⟨h, hd⟩, hnodup, hsafe⟩
  · exact hend.1.2
  · rintro id ids db - ⟨hsd, hnd, hsafe⟩
    exact ⟨hsd, hnd.of_cons, fun r hr hm => hsafe r hr (List.mem_cons_of_mem id hm)⟩
  · rintro id ids db db₁ old hsome hrep ⟨⟨h, hd⟩, hnd, hsafe⟩
    obtain ⟨hold, rfl⟩ := Db.fileById_some hsome
    obtain ⟨hid, hst⟩ := hf old
    refine ⟨⟨h.replaceFile hold hrep hid hst, ?_⟩, hnd.of_cons, ?_⟩
    · apply describes_replaceFile h hd hold hid hst ?_ hrep
      rcases hsafe old hold List.mem_cons_self with hl | hp
      · exact Or.inl hl
      · exact Or.inr (Or.inl hp.symm)
    · intro r hr hm
      -- the ids still to visit name rows the statement has not written yet
      rcases (Db.mem_replaceFile h.wf hold hrep).mp hr with rfl | ⟨hr, -⟩
      · rw [hid] at hm
        exact absurd hm hnd.notMem
      · exact hsafe r hr (List.mem_cons_of_mem _ hm)

lemma view_replaceFile_trashed (h : μ.Sane db) {old new : FileRow}
    (hok : db.replaceFile old new = .ok db') (hst : new.storageId = old.storageId)
    (hto : ¬ old.Live) (htn : ¬ new.Live) (p : Path) :
    μ.view s db' p =
      if old.storageId = s ∧ old.path = p ∧ new.path ≠ old.path then none
        else μ.view s db p := by
  rw [view_replaceFile h hok]
  by_cases hs : old.storageId = s
  · rw [replay_update (μ.view s db) hs (hst.trans hs), if_neg fun hc => htn hc.2.1]
    simp only [hto, and_false, or_false, hs, true_and, eq_comm (a := p), ne_comm (a := old.path)]
  · rw [entriesOf_update_other hs (hst ▸ hs), Log.replay_nil, if_neg fun hc => hs hc.1]

/-- The map after an `UPDATE` that moves trashed rows: the paths they leave are gone, also those at
    which another row stands live. -/
lemma view_updateEach_trashed (h : μ.Sane db) {g : Path → Path} {ids : List Uuid}
    (hnodup : ids.Nodup) (htrash : ∀ r ∈ db.files, r.id ∈ ids → ¬ r.Live)
    (hok : db.updateEach (fun r => r.withPath (g r.path)) ids = .ok db') (p : Path) :
    μ.view s db' p =
      if ∃ r ∈ db.files, r.id ∈ ids ∧ r.storageId = s ∧ r.path = p ∧ g r.path ≠ r.path
        then none else μ.view s db p := by
  induction ids generalizing db with
  | nil =>
    cases hok
    simp
  | cons id ids ih =>
    unfold Db.updateEach at hok
    split at hok
    · case h_1 hnone =>
      have hid : ∀ r ∈ db.files, r.id ≠ id := by
        intro r hr
        simpa using List.find?_eq_none.mp hnone r hr
      rw [ih h hnodup.of_cons (fun r hr hm => htrash r hr (List.mem_cons_of_mem id hm)) hok]
      congr 1
      simp only [List.mem_cons, eq_iff_iff]
      constructor
      · rintro ⟨r, hr, hm, hrest⟩
        exact ⟨r, hr, Or.inr hm, hrest⟩
      · rintro ⟨r, hr, hm | hm, hrest⟩
        · exact absurd hm (hid r hr)
        · exact ⟨r, hr, hm, hrest⟩
    · case h_2 old hsome =>
      obtain ⟨hold, rfl⟩ := Db.fileById_some hsome
      split at hok
      · cases hok
      · case h_2 db₁ hrep =>
        have hto := htrash old hold List.mem_cons_self
        have hmem := fun r => Db.mem_replaceFile (r := r) h.wf hold hrep
        have hlater : ∀ r, r ∈ db₁.files ∧ r.id ∈ ids ↔ r ∈ db.files ∧ r.id ∈ ids := by
          intro r
          constructor
          · rintro ⟨hr, hm⟩
            rcases (hmem r).mp hr with rfl | ⟨hr, -⟩
            · exact absurd hm hnodup.notMem
            · exact ⟨hr, hm⟩
          · rintro ⟨hr, hm⟩
            refine ⟨(hmem r).mpr (Or.inr ⟨hr, ?_⟩), hm⟩
            rintro rfl
            exact hnodup.notMem hm
        have hsane := h.replaceFile hold hrep rfl rfl
        rw [ih hsane hnodup.of_cons (fun r hr hm =>
            htrash r ((hlater r).mp ⟨hr, hm⟩).1 (List.mem_cons_of_mem _ hm)) hok,
          view_replaceFile_trashed h hrep rfl hto hto]
        have hsplit : (∃ r ∈ db.files, r.id ∈ old.id :: ids ∧ r.storageId = s ∧ r.path = p ∧
              g r.path ≠ r.path) ↔
            (∃ r ∈ db₁.files, r.id ∈ ids ∧ r.storageId = s ∧ r.path = p ∧ g r.path ≠ r.path) ∨
              (old.storageId = s ∧ old.path = p ∧ g old.path ≠ old.path) := by
          constructor
          · rintro ⟨r, hr, hm, hrest⟩
            rcases List.mem_cons.mp hm with hm | hm
            · rw [h.wf.idUnique r hr old hold hm] at hrest
              exact Or.inr hrest
            · exact Or.inl ⟨r, ((hlater r).mpr ⟨hr, hm⟩).1, hm, hrest⟩
          · rintro (⟨r, hr, hm, hrest⟩ | hrest)
            · exact ⟨r, ((hlater r).mp ⟨hr, hm⟩).1, List.mem_cons_of_mem _ hm, hrest⟩
            · exact ⟨old, hold, List.mem_cons_self, hrest⟩
        simp only [hsplit, FileRow.withPath_path]
        exact ite_or_none _ _ _

lemma mem_updateEach_trashed (h : μ.Sane db) {g : Path → Path} {ids : List Uuid}
    (hnodup : ids.Nodup) (htrash : ∀ r ∈ db.files, r.id ∈ ids → ¬ r.Live)
    (hok : db.updateEach (fun r => r.withPath (g r.path)) ids = .ok db')
    {r : FileRow} (hl : r.Live) : r ∈ db'.files ↔ r ∈ db.files := by
  have hend := Db.updateEach_induct
    (P := fun ids d => μ.Sane d ∧ ids.Nodup ∧ (∀ q ∈ d.files, q.id ∈ ids → ¬ q.Live) ∧
      (r ∈ d.files ↔ r ∈ db.files)) ?_ ?_ hok ⟨h, hnodup, htrash, Iff.rfl⟩
  · exact hend.2.2.2
  · rintro id ids d - ⟨hs, hnd, ht, hiff⟩
    exact ⟨hs, hnd.of_cons, fun q hq hm => ht q hq (List.mem_cons_of_mem id hm), hiff⟩
  · rintro id ids d d₁ old hsome hrep ⟨hs, hnd, ht, hiff⟩
    obtain ⟨hold, rfl⟩ := Db.fileById_some hsome
    have hto := ht old hold List.mem_cons_self
    have hmem := fun q => Db.mem_replaceFile (r := q) hs.wf hold hrep
    refine ⟨hs.replaceFile hold hrep rfl rfl, hnd.of_cons, ?_, ?_⟩
    · intro q hq hm
      rcases (hmem q).mp hq with rfl | ⟨hq, -⟩
      · exact hto
      · exact ht q hq (List.mem_cons_of_mem _ hm)
    · rw [hmem r, ← hiff]
      constructor
      · rintro (rfl | ⟨hr, -⟩)
        · exact absurd hl hto
        · exact hr
      · intro hr
        refine Or.inr ⟨hr, ?_⟩
        rintro rfl
        exact hto hl

lemma Sane.deleteFile (h : μ.Sane db) (old : FileRow) : μ.Sane (db.deleteFile old) where
  wf := h.wf.deleteFile old
  past := Nat.le_trans h.past (Nat.le_add_right _ _)

lemma Sane.deleteEach (h : μ.Sane db) (ids : List Uuid) : μ.Sane (db.deleteEach ids) := by
  induction ids generalizing db with
  | nil => exact h
  | cons id ids ih =>
    unfold Db.deleteEach
    split
    · exact ih h
    · case h_2 old _ => exact ih (h.deleteFile old)

lemma view_deleteFile (h : μ.Sane db) {old : FileRow} (hold : old ∈ db.files) (p : Path) :
    μ.view s (db.deleteFile old) p =
      if old.storageId = s ∧ old.path = p then none else μ.view s db p := by
  have hview : μ.view s (db.deleteFile old) =
      Log.replay (μ.view s db) (entriesOf s (filesSyncEventDelete db old)) := by
    exact view_emit
      { db with
        files := db.files.filter fun r => r.id ≠ old.id
        chunks := db.chunks.filter fun c => c.fileId ≠ old.id
        replicas := db.replicas.filter fun r =>
          ∀ c ∈ db.chunks, c.fileId = old.id → c.id ≠ r.chunkId } h.past _
  rw [hview, filesSyncEventDelete, if_pos (h.wf.storageExists old hold)]
  by_cases hs : old.storageId = s
  · simp only [entriesOf_singleton hs, Log.replay_cons, Log.replay_nil, entry_delete, Log.apply_eq,
      Log.Entry.key, Log.Entry.value, hs, true_and, eq_comm (a := p)]
  · rw [entriesOf_other (by simpa using hs), if_neg fun hc => hs hc.1, Log.replay_nil]

lemma mem_deleteEach {ids : List Uuid} {r : FileRow} :
    r ∈ (db.deleteEach ids).files ↔ r ∈ db.files ∧ r.id ∉ ids := by
  induction ids generalizing db with
  | nil => simp [Db.deleteEach]
  | cons id ids ih =>
    unfold Db.deleteEach
    split
    · case h_1 hnone =>
      rw [ih, List.mem_cons, not_or]
      refine ⟨fun ⟨hr, hm⟩ => ⟨hr, ?_, hm⟩, fun ⟨hr, _, hm⟩ => ⟨hr, hm⟩⟩
      simpa using List.find?_eq_none.mp hnone r hr
    · case h_2 old hsome =>
      obtain ⟨-, rfl⟩ := Db.fileById_some hsome
      rw [ih, Db.mem_deleteFile, List.mem_cons, not_or, and_assoc]

lemma view_deleteEach (h : μ.Sane db) (ids : List Uuid) (p : Path) :
    μ.view s (db.deleteEach ids) p =
      if ∃ r ∈ db.files, r.id ∈ ids ∧ r.storageId = s ∧ r.path = p then none
        else μ.view s db p := by
  induction ids generalizing db with
  | nil => simp [Db.deleteEach]
  | cons id ids ih =>
    unfold Db.deleteEach
    split
    · case h_1 hnone =>
      have hid : ∀ r ∈ db.files, r.id ≠ id := by
        intro r hr
        simpa using List.find?_eq_none.mp hnone r hr
      rw [ih h]
      congr 1
      simp only [List.mem_cons, eq_iff_iff]
      constructor
      · rintro ⟨r, hr, hm, hrest⟩
        exact ⟨r, hr, Or.inr hm, hrest⟩
      · rintro ⟨r, hr, hm | hm, hrest⟩
        · exact absurd hm (hid r hr)
        · exact ⟨r, hr, hm, hrest⟩
    · case h_2 old hsome =>
      obtain ⟨hold, rfl⟩ := Db.fileById_some hsome
      rw [ih (h.deleteFile old), view_deleteFile h hold]
      have hsplit : (∃ r ∈ db.files, r.id ∈ old.id :: ids ∧ r.storageId = s ∧ r.path = p) ↔
          (∃ r ∈ (db.deleteFile old).files, r.id ∈ ids ∧ r.storageId = s ∧ r.path = p) ∨
            (old.storageId = s ∧ old.path = p) := by
        constructor
        · rintro ⟨r, hr, hm, hrest⟩
          by_cases hro : r.id = old.id
          · rw [h.wf.idUnique r hr old hold hro] at hrest
            exact Or.inr hrest
          · exact Or.inl ⟨r, Db.mem_deleteFile.mpr ⟨hr, hro⟩,
              (List.mem_cons.mp hm).resolve_left hro, hrest⟩
        · rintro (⟨r, hr, hm, hrest⟩ | hrest)
          · exact ⟨r, (Db.mem_deleteFile.mp hr).1, List.mem_cons_of_mem _ hm, hrest⟩
          · exact ⟨old, hold, List.mem_cons_self, hrest⟩
      simp only [hsplit]
      exact ite_or_none _ _ _

end Mirror

end Sarca.Server
