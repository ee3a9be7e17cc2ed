import Mathlib.Data.List.Dedup
import Sarca.Lib.Sqlite

/-!
# A backup copied over the live database

Restore (Rust `BackupService::restore`) attaches the snapshot of an archive and copies every table of it
over the live one, in a transaction: the triggers are taken away, every user table is emptied, the tables
both have are filled with the columns both have, and the triggers are put back. The tables are visited in
the order of a hash set.

`copyTables_restores`: what a copy that succeeds leaves, and that one that fails leaves what was there.
-/

namespace Sarca.Server.Restore
open Sarca.Lib Sarca.Lib.Sqlite

/-- Rust `SarcaError`, as far as the copy uses it. -/
inductive RestoreError where
  | unknown
  | invalidBackupFile (message : String)
deriving DecidableEq

/-- What was moved (Rust `RestoreOutcome`). -/
structure RestoreOutcome where
  tables : Nat
  rows : Nat
  skippedTables : List String

/-- `text LIKE pattern`, where `ASCII` letters match in either case. -/
def like : List Char → List Char → Bool
  | [], text => text.isEmpty
  | '%' :: pattern, text => text.tails.any (like pattern)
  | '_' :: pattern, text =>
    match text with
    | [] => false
    | _ :: text => like pattern text
  | c :: pattern, text =>
    match text with
    | [] => false
    | d :: text => c.toLower = d.toLower && like pattern text

/-- A table of the user, not of `SQLite`'s own bookkeeping. -/
def isUserTable (name : String) : Bool :=
  !like "sqlite_%".toList name.toList

structure Visit where
  order : List String → List String
  perm : ∀ names, (order names).Perm names

def userTables (s : Content) : List String :=
  ((s.tables.map (·.name)).filter isUserTable).dedup

def report : Statement → Error → RestoreError
  | .select (.tables _), e => .invalidBackupFile s!"could not read the table list ({e})"
  | _, _ => .unknown

variable {D : Dialect}

abbrev Copy (D : Dialect) := Script (Conn D) Statement RestoreError

def tableNames (schema : Schema) : Copy D (List String) := do
  Script.exec (.select (.tables schema))
  let c ← Script.store
  pure (userTables (c.schema schema).toContent)

def columnNames (schema : Schema) (table : String) : Copy D (List String) := do
  Script.exec (.select (.columns schema table))
  let c ← Script.store
  pure (((c.schema schema).table? table).elim [] fun t => t.columns.map (·.name))

def dropEach : List (Trigger D) → Copy D Unit
  | [] => pure ()
  | t :: triggers => do
    Script.exec (.dropTrigger t.name)
    dropEach triggers

/-- Drop every trigger, and return the statements that put them back. -/
def takeTriggers : Copy D (List String) := do
  Script.exec (.select .triggers)
  let c ← Script.store
  dropEach c.view.triggers
  pure (c.view.triggers.map (·.sql))

def restoreTriggers : List String → Copy D Unit
  | [] => pure ()
  | sql :: triggers => do
    Script.exec (.createTrigger sql)
    restoreTriggers triggers

/-- The first loop: every live table is emptied. -/
def clearEach : List String → Copy D Unit
  | [] => pure ()
  | table :: tables => do
    Script.exec (.delete table)
    clearEach tables

/-- The columns of the live table that the incoming one has, too. -/
def shared (liveColumns incomingColumns : List String) : List String :=
  liveColumns.filter (· ∈ incomingColumns)

/-- The second loop, with the counts of tables and rows so far. -/
def copyEach (live : List String) : List String → Nat × Nat → Copy D (Nat × Nat)
  | [], counts => pure counts
  | table :: tables, counts =>
    if table ∉ live then copyEach live tables counts
    else do
      let liveColumns ← columnNames .main table
      let incomingColumns ← columnNames .attached table
      let columns := shared liveColumns incomingColumns
      if columns = [] then copyEach live tables counts
      else do
        Script.exec (.insertFrom table columns)
        let c ← Script.store
        let affected := ((c.attached.table? table).elim [] (·.rows)).length
        copyEach live tables (counts.1 + 1, counts.2 + affected)

def copyTablesInTransaction (visitLive visitIncoming : Visit) (live incoming : List String) :
    Copy D RestoreOutcome := do
  let triggers ← takeTriggers
  clearEach (visitLive.order live)
  let counts ← copyEach live (visitIncoming.order incoming) (0, 0)
  restoreTriggers triggers
  pure ⟨counts.1, counts.2, ((visitIncoming.order incoming).filter (· ∉ live)).mergeSort⟩

def readTables : Copy D (List String × List String) := do
  let live ← tableNames .main
  let incoming ← tableNames .attached
  pure (live, incoming)

def copyTables (refuses : Refuses D) (visitLive visitIncoming : Visit) (c : Conn D) :
    Except RestoreError RestoreOutcome × Conn D :=
  match readTables.execute (answer refuses report) c with
  | (.ok (live, incoming), c) =>
    transaction refuses report (copyTablesInTransaction visitLive visitIncoming live incoming) c
  | (.error e, c) => (.error e, c)

/-- The connection of its own with the snapshot attached, which may fail, and what the closed connection
    leaves; the snapshot is detached and the log truncated on the way, which changes no row. -/
def applySnapshot (refuses : Refuses D) (visitLive visitIncoming : Visit) (attach : Option Error)
    (live snapshot : Database D) : Except RestoreError RestoreOutcome × Database D :=
  match attach with
  | some _ => (.error .unknown, live)
  | none =>
    let (outcome, c) := copyTables refuses visitLive visitIncoming ⟨live, none, snapshot⟩
    (outcome, c.close.committed)

/-! ## What a copy leaves -/

def sharedColumns (t source : Table) : List String :=
  shared (t.columns.map (·.name)) (source.columns.map (·.name))

/-- What a restore leaves: the triggers, and the tables with the archive's rows on the columns both have
    and the defaults on the others. A user table that shares no column with the archive is empty. -/
structure Restored (live archive after : Database D) : Prop where
  triggers : after.triggers = live.triggers
  kept : ∀ name, isUserTable name = false → after.table? name = live.table? name
  both : ∀ name t source, isUserTable name = true → live.table? name = some t →
    archive.table? name = some source → sharedColumns t source ≠ [] →
      ∃ rows, after.table? name = some { t with rows := rows } ∧
        Database.Inserted D t (sharedColumns t source) source rows (live.seqOf name) (after.seqOf name)
  emptied : ∀ name t, isUserTable name = true → live.table? name = some t →
    (∀ source, archive.table? name = some source → sharedColumns t source = []) →
      after.table? name = some { t with rows := [] }
  absent : ∀ name, live.table? name = none → after.table? name = none

section Stages

variable (L A : Database D)

/-- The first loop has emptied the tables `cleared`. -/
structure Cleared (cleared : List String) (db : Database D) : Prop where
  triggers : db.triggers = []
  seqOf : db.seqOf = L.seqOf
  table : ∀ name, db.table? name =
    (L.table? name).map fun t => if name ∈ cleared then { t with rows := [] } else t

/-- The second loop has filled the table, or has nothing to fill it with yet. -/
inductive Refilled (done : Prop) (name : String) (t : Table) (db : Database D) : Prop where
  | filled (source : Table) (rows : List Row) (hdone : done) (hsource : A.table? name = some source)
      (hshared : sharedColumns t source ≠ []) (htable : db.table? name = some { t with rows := rows })
      (hrows : Database.Inserted D t (sharedColumns t source) source rows (L.seqOf name) (db.seqOf name))
  | empty (hnone : done → ∀ source, A.table? name = some source → sharedColumns t source = [])
      (htable : db.table? name = some { t with rows := [] }) (hseq : db.seqOf name = L.seqOf name)

/-- The second loop has come past the tables `done`. -/
structure Stage (live done : List String) (db : Database D) : Prop where
  triggers : db.triggers = []
  kept : ∀ name, name ∉ live → db.table? name = L.table? name ∧ db.seqOf name = L.seqOf name
  refilled : ∀ name t, name ∈ live → L.table? name = some t → Refilled L A (name ∈ done) name t db

end Stages

variable {refuses : Refuses D} {L A : Database D}

lemma dropEach_spec (C : Content) (triggers : List (Trigger D)) :
    Triple refuses report L A (fun db => db.toContent = C ∧ ∀ t ∈ db.triggers, t ∈ triggers)
      (dropEach triggers) fun _ db => db.toContent = C ∧ db.triggers = [] := by
  induction triggers with
  | nil =>
    refine Triple.pure fun db hdb => ⟨hdb.1, List.eq_nil_iff_forall_not_mem.mpr fun t ht => ?_⟩
    exact List.not_mem_nil (hdb.2 t ht)
  | cons t triggers ih =>
    refine Triple.bind (Triple.exec (·.dropTrigger t.name) (fun _ _ => rfl) ?_) fun _ => ih
    rintro db db' ⟨hC, hmem⟩ hdrop
    obtain ⟨hcontent, htriggers⟩ := Database.dropTrigger_ok hdrop
    refine ⟨hcontent.trans hC, fun u hu => ?_⟩
    rw [htriggers, List.mem_filter, decide_eq_true_eq] at hu
    obtain rfl | hu' := List.mem_cons.mp (hmem u hu.1)
    · exact absurd rfl hu.2
    · exact hu'

lemma takeTriggers_spec : Triple refuses report L A (· = L) takeTriggers
    fun sqls db => db.toContent = L.toContent ∧ db.triggers = [] ∧ sqls = L.triggers.map (·.sql) := by
  refine Triple.bind (Triple.select _) fun _ => Triple.store ?_
  rintro db rfl
  refine Triple.bind ((dropEach_spec db.toContent db.triggers).weaken ?_) fun _ => Triple.pure ?_
  · rintro db' rfl
    exact ⟨rfl, fun _ => id⟩
  · rintro db' ⟨hC, hnone⟩
    exact ⟨hC, hnone, rfl⟩

lemma restoreTriggers_spec (C : Content) (back triggers : List (Trigger D)) :
    Triple refuses report L A (fun db => db.toContent = C ∧ db.triggers = back)
      (restoreTriggers (triggers.map (·.sql)))
      fun _ db => db.toContent = C ∧ db.triggers = back ++ triggers := by
  induction triggers generalizing back with
  | nil => exact Triple.pure fun db hdb => ⟨hdb.1, by rw [hdb.2, List.append_nil]⟩
  | cons t triggers ih =>
    rw [List.append_cons]
    refine Triple.bind (Triple.exec (·.createTrigger t.sql) (fun _ _ => rfl) ?_) fun _ => ih (back ++ [t])
    rintro db db' ⟨hC, hback⟩ hcreate
    obtain ⟨hcontent, htriggers⟩ := Database.createTrigger_ok hcreate
    exact ⟨hcontent.trans hC, hback ▸ htriggers⟩

lemma Cleared.delete {cleared : List String} {name : String} {db db' : Database D}
    (h : Cleared L cleared db) (hdelete : db.delete name = .ok db') : Cleared L (cleared ++ [name]) db' := by
  obtain ⟨t, ht, htable, htriggers, hseq, hothers⟩ := Database.delete_ok h.triggers hdelete
  refine ⟨htriggers, hseq.trans h.seqOf, fun other => ?_⟩
  obtain rfl | hother := eq_or_ne other name
  · rw [h.table] at ht
    obtain ⟨u, hu, rfl⟩ := Option.map_eq_some_iff.mp ht
    rw [htable, hu]
    by_cases hmem : other ∈ cleared <;> simp [hmem]
  · rw [hothers other hother, h.table]
    simp [hother]

lemma clearEach_spec (cleared tables : List String) :
    Triple refuses report L A (Cleared L cleared) (clearEach tables)
      fun _ => Cleared L (cleared ++ tables) := by
  induction tables generalizing cleared with
  | nil => exact Triple.pure fun db h => by rwa [List.append_nil]
  | cons name tables ih =>
    rw [List.append_cons]
    exact Triple.bind (Triple.exec (·.delete name) (fun _ _ => rfl) fun _ _ h => h.delete)
      fun _ => ih (cleared ++ [name])

lemma columnNames_spec {P : Database D → Prop} (schema : Schema) (table : String) {names : List String}
    (h : ∀ db, P db → (((Conn.schema ⟨L, some db, A⟩ schema).table? table).elim [] fun t =>
      t.columns.map (·.name)) = names) :
    Triple refuses report L A P (columnNames schema table) fun columns db => columns = names ∧ P db := by
  refine Triple.bind (Triple.select _) fun _ => Triple.store fun db hP => Triple.pure ?_
  rintro db' rfl
  exact ⟨h db' hP, hP⟩

lemma columnNames_attached {P : Database D → Prop} (table : String) :
    Triple refuses report L A P (columnNames .attached table) fun columns db =>
      columns = ((A.table? table).elim [] fun t => t.columns.map (·.name)) ∧ P db :=
  columnNames_spec .attached table fun _ _ => rfl

lemma Stage.pass {live done : List String} {name : String} {db : Database D} (h : Stage L A live done db)
    (hpass : name ∈ live → ∀ t, L.table? name = some t → name ∉ done →
      ∀ source, A.table? name = some source → sharedColumns t source = []) :
    Stage L A live (done ++ [name]) db := by
  refine ⟨h.triggers, h.kept, fun other t hlive ht => ?_⟩
  cases h.refilled other t hlive ht with
  | filled source rows hdone hsource hshared htable hrows =>
    exact .filled source rows (List.mem_append_left _ hdone) hsource hshared htable hrows
  | empty hnone htable hseq =>
    refine .empty (fun hmem => ?_) htable hseq
    by_cases hdone : other ∈ done
    · exact hnone hdone
    · obtain hmem | hmem := List.mem_append.mp hmem
      · exact absurd hmem hdone
      · cases List.mem_singleton.mp hmem
        exact hpass hlive t ht hdone

lemma Stage.insert {live done : List String} {name : String} {t source : Table} {db db' : Database D}
    (h : Stage L A live done db) (hlive : name ∈ live) (hdone : name ∉ done) (ht : L.table? name = some t)
    (hsource : A.table? name = some source) (hshared : sharedColumns t source ≠ [])
    (hinsert : db.insertFrom A name (sharedColumns t source) = .ok db') :
    Stage L A live (done ++ [name]) db' := by
  -- Up to here the table is empty and its counter as it was.
  have hempty : db.table? name = some { t with rows := [] } ∧ db.seqOf name = L.seqOf name := by
    cases h.refilled name t hlive ht with
    | filled _ _ hmem => exact absurd hmem hdone
    | empty _ htable hseq => exact ⟨htable, hseq⟩
  obtain ⟨u, source', rows, hu, hsource', htable, htriggers, hrows, hothers⟩ :=
    Database.insertFrom_ok h.triggers (fun u hu => by cases hempty.1.symm.trans hu; rfl) hinsert
  cases hempty.1.symm.trans hu
  cases hsource.symm.trans hsource'
  rw [hempty.2] at hrows
  refine ⟨htriggers, fun other hother => ?_, fun other v hmem hv => ?_⟩
  · obtain ⟨htable', hseq'⟩ := hothers other fun heq => hother (heq ▸ hlive)
    obtain ⟨hkept, hseq⟩ := h.kept other hother
    exact ⟨htable'.trans hkept, hseq'.trans hseq⟩
  · obtain rfl | hother := eq_or_ne other name
    · cases ht.symm.trans hv
      exact .filled source rows (List.mem_append_right _ List.mem_cons_self) hsource hshared htable
        ⟨hrows.stores, hrows.ids⟩
    · obtain ⟨htable', hseq'⟩ := hothers other hother
      cases h.refilled other v hmem hv with
      | filled source rows hdone hsource hshared htable hrows =>
        exact .filled source rows (List.mem_append_left _ hdone) hsource hshared (htable'.trans htable)
          (hseq' ▸ hrows)
      | empty hnone htable hseq =>
        refine .empty (fun hmem' => hnone ?_) (htable'.trans htable) (hseq'.trans hseq)
        obtain hmem' | hmem' := List.mem_append.mp hmem'
        · exact hmem'
        · exact absurd (List.mem_singleton.mp hmem') hother

lemma Stage.columns {live done : List String} {name : String} {t : Table} {db : Database D}
    (h : Stage L A live done db) (hlive : name ∈ live) (ht : L.table? name = some t) :
    ((db.table? name).elim [] fun t => t.columns.map (·.name)) = t.columns.map (·.name) := by
  cases h.refilled name t hlive ht with
  | filled _ _ _ _ _ htable => rw [htable, Option.elim_some]
  | empty _ htable => rw [htable, Option.elim_some]

lemma copyEach_spec {live : List String} (hlive : ∀ name ∈ live, ∃ t, L.table? name = some t)
    (done tables : List String) (counts : Nat × Nat) (hnodup : tables.Nodup) (hnew : ∀ name ∈ tables, name ∉ done) :
    Triple refuses report L A (Stage L A live done) (copyEach live tables counts)
      fun _ => Stage L A live (done ++ tables) := by
  induction tables generalizing done counts with
  | nil => exact Triple.pure fun db h => by rwa [List.append_nil]
  | cons name tables ih =>
    obtain ⟨hname, hnodup⟩ := List.nodup_cons.mp hnodup
    have hfresh : ∀ other ∈ tables, other ∉ done ++ [name] := by
      intro other hother hmem
      obtain hmem | hmem := List.mem_append.mp hmem
      · exact hnew other (List.mem_cons_of_mem name hother) hmem
      · exact hname (List.mem_singleton.mp hmem ▸ hother)
    have hrest := fun counts => ih (done ++ [name]) counts hnodup hfresh
    rw [List.append_cons]
    unfold copyEach
    split
    · next hmem => exact (hrest counts).weaken fun db h => h.pass fun hlive => absurd hlive hmem
    · next hmem =>
      have hmem := not_not.mp hmem
      obtain ⟨t, ht⟩ := hlive name hmem
      refine Triple.bind (columnNames_spec .main name fun db h => h.columns hmem ht) fun liveColumns =>
        Triple.bind (columnNames_attached name) fun incomingColumns => ?_
      dsimp only
      split
      · next hnone =>
        refine (hrest counts).weaken ?_
        rintro db ⟨hincoming, hcolumns, h⟩
        subst hincoming hcolumns
        refine h.pass fun _ u hu _ source hsource => ?_
        cases ht.symm.trans hu
        simpa only [hsource, Option.elim_some, sharedColumns] using hnone
      · next hsome =>
        have hinsert : Triple refuses report L A
            (fun db => incomingColumns = ((A.table? name).elim [] fun t => t.columns.map (·.name)) ∧
              liveColumns = t.columns.map (·.name) ∧ Stage L A live done db)
            (Script.exec (.insertFrom name (shared liveColumns incomingColumns)))
            fun _ => Stage L A live (done ++ [name]) := by
          refine Triple.exec (·.insertFrom A name (shared liveColumns incomingColumns)) ?_ ?_
          · rintro c rfl
            rfl
          · rintro db db' ⟨hincoming, hcolumns, h⟩ hok
            subst hincoming hcolumns
            cases hsource : A.table? name with
            | none => simp [hsource, shared] at hsome
            | some source =>
              simp only [hsource, Option.elim_some] at hsome hok
              exact h.insert hmem (hnew name List.mem_cons_self) ht hsource hsome hok
        refine Triple.bind hinsert fun _ => Triple.store fun db h => ?_
        refine (hrest _).weaken ?_
        rintro db' rfl
        exact h

lemma mem_userTables {s : Content} {name : String} :
    name ∈ userTables s ↔ isUserTable name = true ∧ ∃ t, s.table? name = some t := by
  simp only [userTables, List.mem_dedup, List.mem_filter, List.mem_map]
  constructor
  · rintro ⟨⟨t, ht, rfl⟩, huser⟩
    refine ⟨huser, ?_⟩
    cases hfind : s.table? t.name with
    | none => simpa using List.find?_eq_none.mp hfind t ht
    | some u => exact ⟨u, rfl⟩
  · rintro ⟨huser, t, ht⟩
    exact ⟨⟨t, List.mem_of_find?_eq_some ht, Content.name_of_table? ht⟩, huser⟩

variable (visitLive visitIncoming : Visit)

lemma Cleared.stage {cleared : List String} {db : Database D} (h : Cleared L cleared db)
    (hcleared : ∀ name, name ∈ cleared ↔ name ∈ userTables L.toContent) :
    Stage L A (userTables L.toContent) [] db := by
  refine ⟨h.triggers, fun name hname => ⟨?_, congrFun h.seqOf name⟩, fun name t hname ht => ?_⟩
  · rw [h.table]
    simp [mt (hcleared name).mp hname]
  · refine .empty (fun hmem => absurd hmem List.not_mem_nil) ?_ (congrFun h.seqOf name)
    rw [h.table, ht]
    simp [(hcleared name).mpr hname]

lemma Stage.restored {incoming : List String} {filled after : Database D}
    (h : Stage L A (userTables L.toContent) incoming filled)
    (hincoming : ∀ name, name ∈ incoming ↔ name ∈ userTables A.toContent)
    (hcontent : filled.toContent = after.toContent) (htriggers : after.triggers = L.triggers) :
    Restored L A after := by
  refine ⟨htriggers, fun name huser => ?_, fun name t source huser ht hsource hshared => ?_,
    fun name t huser ht hnone => ?_, fun name hnone => ?_⟩ <;> rw [← hcontent]
  · refine (h.kept name fun hmem => ?_).1
    exact Bool.false_ne_true (huser.symm.trans (mem_userTables.mp hmem).1)
  · cases h.refilled name t (mem_userTables.mpr ⟨huser, t, ht⟩) ht with
    | filled source' rows hdone hsource' hshared htable hrows =>
      cases hsource.symm.trans hsource'
      exact ⟨rows, htable, hcontent ▸ hrows⟩
    | empty hnone =>
      have hdone : name ∈ incoming := (hincoming name).mpr (mem_userTables.mpr ⟨huser, source, hsource⟩)
      exact absurd (hnone hdone source hsource) hshared
  · cases h.refilled name t (mem_userTables.mpr ⟨huser, t, ht⟩) ht with
    | filled source rows _ hsource hshared => exact absurd (hnone source hsource) hshared
    | empty _ htable => exact htable
  · refine (h.kept name fun hmem => ?_).1.trans hnone
    obtain ⟨-, t, ht⟩ := mem_userTables.mp hmem
    cases ht.symm.trans hnone

variable (refuses L A) in
lemma copyTablesInTransaction_spec :
    Triple refuses report L A (· = L)
      (copyTablesInTransaction visitLive visitIncoming (userTables L.toContent) (userTables A.toContent))
      fun _ => Restored L A := by
  have hincoming := visitIncoming.perm (userTables A.toContent)
  refine Triple.bind takeTriggers_spec fun sqls => Triple.fix fun db hdb => ?_
  obtain ⟨hC, hnone, rfl⟩ := hdb
  refine Triple.bind ((clearEach_spec [] _).weaken ?_) fun _ =>
    Triple.bind ((copyEach_spec (fun name h => (mem_userTables.mp h).2) [] _ (0, 0) ?_ ?_).weaken ?_) fun counts =>
      Triple.fix fun filled hfilled => Triple.bind
        ((restoreTriggers_spec filled.toContent [] L.triggers).weaken ?_) fun _ => Triple.pure ?_
  · rintro _ rfl
    refine ⟨hnone, by rw [hC], fun name => ?_⟩
    rw [hC]
    simp
  · exact hincoming.nodup_iff.mpr (List.nodup_dedup _)
  · exact fun _ _ => List.not_mem_nil
  · exact fun db h => h.stage fun name => by rw [List.nil_append, (visitLive.perm _).mem_iff]
  · rintro _ rfl
    exact ⟨rfl, hfilled.triggers⟩
  · rintro after ⟨hcontent, htriggers⟩
    exact hfilled.restored (fun _ => hincoming.mem_iff) hcontent.symm htriggers

lemma tableNames_execute (schema : Schema) (c : Conn D) :
    (tableNames schema).execute (answer refuses report) c =
      match refuses c (.select (.tables schema)) with
      | some e => (.error (report (.select (.tables schema)) e), c)
      | none => (.ok (userTables (c.schema schema).toContent), c) := by
  simp only [tableNames, Script.execute_bind, Script.exec, Script.execute, answer, attempt]
  cases refuses c (.select (.tables schema)) <;> rfl

variable (refuses) in
lemma readTables_execute (c : Conn D) :
    readTables.execute (answer refuses report) c =
        (.ok (userTables (c.schema .main).toContent, userTables (c.schema .attached).toContent), c) ∨
      ∃ e, readTables.execute (answer refuses report) c = (.error e, c) := by
  unfold readTables
  rw [Script.execute_bind, tableNames_execute]
  cases refuses c (.select (.tables .main)) with
  | some e => exact .inr ⟨_, rfl⟩
  | none =>
    dsimp only
    rw [Script.execute_bind, tableNames_execute]
    cases refuses c (.select (.tables .attached)) with
    | some e => exact .inr ⟨_, rfl⟩
    | none => exact .inl rfl

lemma copyTables_atomic (refuses : Refuses D) (visitLive visitIncoming : Visit)
    (live archive : Database D) :
    Atomic live (fun _ => Restored live archive)
      (copyTables refuses visitLive visitIncoming ⟨live, none, archive⟩) := by
  unfold copyTables
  obtain hread | ⟨e, hread⟩ := readTables_execute refuses ⟨live, none, archive⟩
  · rw [hread]
    exact transaction_atomic (copyTablesInTransaction_spec refuses live archive visitLive visitIncoming)
  · rw [hread]
    rfl

/-- For every live database and archive, every order in which the tables are visited and every statement
    that is refused: a copy that succeeds has restored the archive, one that fails has left the live rows
    and triggers as they were, and so has the connection once it is closed. -/
theorem applySnapshot_restores (refuses : Refuses D) (visitLive visitIncoming : Visit)
    (attach : Option Error) (live archive : Database D) :
    Atomic live (fun _ => Restored live archive)
        (copyTables refuses visitLive visitIncoming ⟨live, none, archive⟩) ∧
      match applySnapshot refuses visitLive visitIncoming attach live archive with
      | (.ok _, after) => Restored live archive after
      | (.error _, after) => after = live := by
  have hcopy := copyTables_atomic refuses visitLive visitIncoming live archive
  refine ⟨hcopy, ?_⟩
  unfold applySnapshot
  cases attach with
  | some e => rfl
  | none =>
    generalize copyTables refuses visitLive visitIncoming ⟨live, none, archive⟩ = answer at hcopy
    obtain ⟨e | outcome, c⟩ := answer
    · exact hcopy
    · exact hcopy

/-! ## A table without a shared column, and a trigger -/

def asListed : Visit where
  order := id
  perm := List.Perm.refl

/-- Values are stored as they are, and one text is a trigger: it notes each new file as an event. -/
def sampleDialect : Dialect where
  trigger sql := if sql = "CREATE TRIGGER files_event_insert" then
    some ⟨"files_event_insert", "files", .insert, fun row s => (s.insertRow "events" (.null :: row.drop 1)).map (·.2)⟩
    else none
  store _ v := v
  default _ := .null

def oneTable (name : String) (columns : List String) (rows : List Row) : Database sampleDialect where
  tables := [⟨name, columns.map (⟨·, "TEXT", none⟩), none, false, rows⟩]
  sequence := []
  triggers := []

/-- The archive has a row and the live table has none, although the copy succeeded: they share no column. -/
theorem unshared_rows_lost :
    ∃ outcome c,
      copyTables (fun _ _ => none) asListed asListed
        ⟨oneTable "notes" ["body"] [], none, oneTable "notes" ["text"] [[.text "x"]]⟩ = (.ok outcome, c) ∧
      c.attached.table? "notes" = some ⟨"notes", [⟨"text", "TEXT", none⟩], none, false, [[.text "x"]]⟩ ∧
      c.committed.table? "notes" = some ⟨"notes", [⟨"body", "TEXT", none⟩], none, false, []⟩ :=
  ⟨_, _, rfl, by decide, by decide⟩

lemma sample_named :
    (sampleDialect.trigger "CREATE TRIGGER files_event_insert").map TriggerDef.name =
      some "files_event_insert" :=
  rfl

/-- Two linked tables with a trigger between them. -/
def linked (files events : List Row) : Database sampleDialect where
  tables := [⟨"files", [⟨"id", "INTEGER", none⟩, ⟨"path", "TEXT", none⟩], some "id", false, files⟩,
    ⟨"events", [⟨"id", "INTEGER", none⟩, ⟨"path", "TEXT", none⟩], some "id", true, events⟩]
  sequence := []
  triggers := [⟨"files_event_insert", "CREATE TRIGGER files_event_insert", sample_named⟩]

/-- The file of the archive comes with the one event it had. -/
example :
    ((copyTables (fun _ _ => none) asListed asListed
      ⟨linked [] [], none, linked [[.integer 1, .text "a.txt"]] [[.integer 1, .text "a.txt"]]⟩).2.committed.table?
        "events").map (·.rows) = some [[.integer 1, .text "a.txt"]] := by
  decide +kernel

end Sarca.Server.Restore
