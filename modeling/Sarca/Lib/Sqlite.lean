import Mathlib.Data.List.Forall2
import Sarca.Lib.Script

/-!
# `SQLite` databases

Tables with their rows, the triggers of a catalogue, and the connection through which statements reach
them. A `Dialect` holds what is not defined here: what the text of a `CREATE TRIGGER` says, what a
column makes of a value that is stored in it, and its default. Foreign keys are not enforced.

A statement takes effect as a whole or fails and changes nothing (`attempt`); it may fail for any reason
of the environment, `refuses`, besides its own. `Conn` keeps what is committed apart from the transaction
under way, so that what fails before `COMMIT` is as if it had not been tried.
-/

namespace Sarca.Lib.Sqlite

/-- A stored value. -/
inductive Value where
  | null
  | integer (n : Int)
  | real (bits : UInt64)
  | text (s : String)
  | blob (bytes : List UInt8)
deriving DecidableEq

/-- A column, with the text of its `DEFAULT` clause. -/
structure Column where
  name : String
  declaredType : String
  dfltValue : Option String
deriving DecidableEq

/-- A row: one value for each column of its table. -/
abbrev Row := List Value

/-- The value under a name. -/
def cell (columns : List Column) (row : Row) (name : String) : Value :=
  (((columns.map (·.name)).zip row).lookup name).getD .null

/-- A table; `rowid` is its `INTEGER PRIMARY KEY`. -/
structure Table where
  name : String
  columns : List Column
  rowid : Option String
  autoincrement : Bool
  rows : List Row
deriving DecidableEq

/-- What statements on rows change: the tables, and `sqlite_sequence`. -/
structure Content where
  tables : List Table
  sequence : List (String × Int)
deriving DecidableEq

/-- What a `CREATE TRIGGER` says: the statement it watches, and what it does for a row. -/
inductive Event where
  | insert
  | update
  | delete
deriving DecidableEq

abbrev Error := String

structure TriggerDef where
  name : String
  table : String
  event : Event
  body : Row → Content → Except Error Content

/-- What the database engine decides. -/
structure Dialect where
  trigger : String → Option TriggerDef
  store : Column → Value → Value
  default : Column → Value

/-- A trigger of the catalogue, under the name its text gives it. -/
structure Trigger (D : Dialect) where
  name : String
  sql : String
  named : (D.trigger sql).map TriggerDef.name = some name

structure Database (D : Dialect) extends Content where
  triggers : List (Trigger D)

/-! ## Rows -/

namespace Content

def table? (s : Content) (name : String) : Option Table :=
  s.tables.find? (·.name = name)

/-- The last id `AUTOINCREMENT` handed out for a table. -/
def seqOf (s : Content) (name : String) : Int :=
  (s.sequence.lookup name).getD 0

def setRows (s : Content) (name : String) (f : List Row → List Row) : Content :=
  { s with tables := s.tables.map fun t => if t.name = name then { t with rows := f t.rows } else t }

end Content

namespace Table

/-- The id a row brings. -/
def idOf (t : Table) (row : Row) : Option Int :=
  match t.rowid.map (cell t.columns row) with
  | some (.integer n) => some n
  | _ => none

/-- The ids of the rows. -/
def ids (t : Table) : List Int :=
  t.rows.filterMap t.idOf

/-- The id of a row that brings none. -/
def nextId (t : Table) (seq : Int) : Int :=
  t.ids.foldl max (if t.autoincrement then seq else 0) + 1

/-- A row as it is stored, with its id: a `NULL` where the id belongs is the next one. -/
def settle (t : Table) (seq : Int) (row : Row) : Except Error (Row × Option Int) :=
  match t.rowid with
  | none => .ok (row, none)
  | some id =>
    match cell t.columns row id with
    | .integer n => .ok (row, some n)
    | .null =>
      let n := t.nextId seq
      .ok (t.columns.zipWith (fun c v => if c.name = id ∧ v = .null then .integer n else v) row, some n)
    | _ => .error "datatype mismatch"

end Table

namespace Content

/-- `sqlite_sequence` after a row with that id. -/
def note (s : Content) (t : Table) : Option Int → Content
  | some n => if t.autoincrement then
      { s with sequence := (t.name, max (s.seqOf t.name) n) :: s.sequence } else s
  | none => s

def insertRow (s : Content) (name : String) (row : Row) : Except Error (Row × Content) :=
  match s.table? name with
  | none => .error s!"no such table: {name}"
  | some t =>
    match t.settle (s.seqOf name) row with
    | .error e => .error e
    | .ok (row, id) => .ok (row, (s.setRows name (· ++ [row])).note t id)

end Content

section Statements

variable {D : Dialect}

/-- The triggers of an event act on a row, one after the other. -/
def fire (event : Event) (name : String) (row : Row) : List (Trigger D) → Content → Except Error Content
  | [], s => .ok s
  | t :: ts, s =>
    match D.trigger t.sql with
    | none => fire event name row ts s
    | some d =>
      if d.event = event ∧ d.table = name then
        match d.body row s with
        | .error e => .error e
        | .ok s => fire event name row ts s
      else fire event name row ts s

def insertEach (triggers : List (Trigger D)) (name : String) : List Row → Content → Except Error Content
  | [], s => .ok s
  | row :: rows, s =>
    match s.insertRow name row with
    | .error e => .error e
    | .ok (row, s) =>
      match fire .insert name row triggers s with
      | .error e => .error e
      | .ok s => insertEach triggers name rows s

def deleteEach (triggers : List (Trigger D)) (name : String) : List Row → Content → Except Error Content
  | [], s => .ok s
  | row :: rows, s =>
    match fire .delete name row triggers (s.setRows name (·.erase row)) with
    | .error e => .error e
    | .ok s => deleteEach triggers name rows s

/-- What an `INSERT` of some columns puts into a column for a row of another table. -/
def fill (D : Dialect) (names : List String) (source : Table) (row : Row) (c : Column) : Value :=
  if c.name ∈ names then D.store c (cell source.columns row c.name) else D.default c

/-- The rows an `INSERT … SELECT` of some columns writes. -/
def written (D : Dialect) (t : Table) (names : List String) (source : Table) : List Row :=
  source.rows.map fun row => t.columns.map (fill D names source row)

end Statements

/-! ## Statements -/

/-- The databases of a connection: `main`, and the one that is attached to it. -/
inductive Schema where
  | main
  | attached
deriving DecidableEq

/-- A query of the catalogue. -/
inductive Query where
  | tables (schema : Schema)
  | columns (schema : Schema) (table : String)
  | triggers
deriving DecidableEq

inductive Statement where
  | begin
  | commit
  | rollback
  | select (query : Query)
  | dropTrigger (name : String)
  | createTrigger (sql : String)
  | delete (table : String)
  | insertFrom (table : String) (columns : List String)
deriving DecidableEq

/-- A connection. -/
structure Conn (D : Dialect) where
  committed : Database D
  pending : Option (Database D)
  attached : Database D

namespace Database

variable {D : Dialect}

def dropTrigger (db : Database D) (name : String) : Except Error (Database D) :=
  if ∃ t ∈ db.triggers, t.name = name then
    .ok { db with triggers := db.triggers.filter (·.name ≠ name) }
  else .error s!"no such trigger: {name}"

def createTrigger (db : Database D) (sql : String) : Except Error (Database D) :=
  match h : D.trigger sql with
  | none => .error "syntax error"
  | some d =>
    if ∃ t ∈ db.triggers, t.name = d.name then .error s!"trigger {d.name} already exists"
    else .ok { db with triggers := db.triggers ++ [⟨d.name, sql, congrArg (Option.map _) h⟩] }

/-- `DELETE FROM table` -/
def delete (db : Database D) (name : String) : Except Error (Database D) :=
  match db.table? name with
  | none => .error s!"no such table: {name}"
  | some t => (deleteEach db.triggers name t.rows db.toContent).map fun s => { db with toContent := s }

/-- `INSERT INTO main.table (columns) SELECT columns FROM attached.table` -/
def insertFrom (db attached : Database D) (name : String) (columns : List String) :
    Except Error (Database D) :=
  match db.table? name, attached.table? name with
  | some t, some source =>
    (insertEach db.triggers name (written D t columns source) db.toContent).map
      fun s => { db with toContent := s }
  | _, _ => .error s!"no such table: {name}"

end Database

namespace Conn

variable {D : Dialect}

/-- What the connection reads. -/
def view (c : Conn D) : Database D :=
  c.pending.getD c.committed

/-- A statement outside a transaction commits by itself. -/
def write (c : Conn D) (db : Database D) : Conn D :=
  match c.pending with
  | some _ => { c with pending := some db }
  | none => { c with committed := db }

def schema (c : Conn D) : Schema → Database D
  | .main => c.view
  | .attached => c.attached

/-- The connection closes: a transaction under way is gone. -/
def close (c : Conn D) : Conn D :=
  { c with pending := none }

end Conn

variable {D : Dialect}

/-- What a statement does where the environment lets it. -/
def effect (c : Conn D) : Statement → Except Error (Conn D)
  | .begin =>
    match c.pending with
    | none => .ok { c with pending := some c.committed }
    | some _ => .error "cannot start a transaction within a transaction"
  | .commit =>
    match c.pending with
    | some db => .ok { c with committed := db, pending := none }
    | none => .error "cannot commit - no transaction is active"
  | .rollback =>
    match c.pending with
    | some _ => .ok { c with pending := none }
    | none => .error "cannot rollback - no transaction is active"
  | .select _ => .ok c
  | .dropTrigger name => (c.view.dropTrigger name).map c.write
  | .createTrigger sql => (c.view.createTrigger sql).map c.write
  | .delete table => (c.view.delete table).map c.write
  | .insertFrom table columns => (c.view.insertFrom c.attached table columns).map c.write

/-- The environment refuses a statement, for whatever reason. -/
abbrev Refuses (D : Dialect) := Conn D → Statement → Option Error

def attempt (refuses : Refuses D) (c : Conn D) (s : Statement) : Except Error (Conn D) :=
  match refuses c s with
  | some e => .error e
  | none => effect c s

/-- A row is the list of its cells. -/
lemma map_cell {columns : List Column} {row : Row} (hnodup : (columns.map (·.name)).Nodup)
    (hlength : row.length = columns.length) : columns.map (fun c => cell columns row c.name) = row := by
  induction columns generalizing row with
  | nil => exact (List.length_eq_zero_iff.mp hlength).symm
  | cons c columns ih =>
    cases row with
    | nil => cases hlength
    | cons v row =>
      obtain ⟨hc, hnodup⟩ := List.nodup_cons.mp hnodup
      have hrest : ∀ d ∈ columns, cell (c :: columns) (v :: row) d.name = cell columns row d.name := by
        intro d hd
        have hne : (d.name == c.name) = false :=
          beq_eq_false_iff_ne.mpr fun heq => hc (List.mem_map.mpr ⟨d, hd, heq⟩)
        simp only [cell, List.map_cons, List.zip_cons_cons, List.lookup_cons, hne]
      rw [List.map_cons, List.map_congr_left hrest, ih hnodup (Nat.succ_inj.mp hlength)]
      simp [cell]

/-! ## What statements do where no trigger is in place -/

namespace Content

variable {s : Content} {name other : String} {f : List Row → List Row}

lemma name_of_table? {t : Table} (h : s.table? name = some t) : t.name = name := by
  simpa using List.find?_some h

lemma table?_setRows : (s.setRows name f).table? other =
    (s.table? other).map fun t => if other = name then { t with rows := f t.rows } else t := by
  simp only [table?, setRows, List.find?_map]
  have hname : ((fun t : Table => decide (t.name = other)) ∘ fun t : Table =>
      if t.name = name then { t with rows := f t.rows } else t) = fun t => decide (t.name = other) := by
    funext t
    simp only [Function.comp_apply]
    split <;> rfl
  rw [hname]
  cases hfind : s.tables.find? fun t => decide (t.name = other) with
  | none => rfl
  | some t => simp only [Option.map_some, name_of_table? hfind]

@[simp] lemma seqOf_setRows : (s.setRows name f).seqOf other = s.seqOf other := rfl

@[simp] lemma table?_note {t : Table} (id : Option Int) : (s.note t id).table? other = s.table? other := by
  unfold note
  split
  · split <;> rfl
  · rfl

/-- Only the counter of the table moves. -/
lemma seqOf_note {t : Table} (id : Option Int) : (s.note t id).seqOf other =
    if other = t.name ∧ t.autoincrement then id.toList.foldl max (s.seqOf other) else s.seqOf other := by
  cases id with
  | none => simp only [note, Option.toList_none, List.foldl_nil, ite_self]
  | some n =>
    by_cases hauto : t.autoincrement
    · by_cases hname : other = t.name
      · subst hname
        simp [note, hauto, seqOf]
      · have hbeq : (other == t.name) = false := beq_eq_false_iff_ne.mpr hname
        simp [note, hauto, seqOf, hname, List.lookup_cons, hbeq]
    · simp [note, hauto]

end Content

namespace Table

/-- What a column of the table holds once `v` is stored: `v`, or the next id for a `NULL`. -/
def Holds (t : Table) (c : Column) (v held : Value) : Prop :=
  held = v ∨ t.rowid = some c.name ∧ v = .null ∧ ∃ n, held = .integer n

/-- The row holds in every column what `f` gives it. -/
def Stores (t : Table) (f : Column → Value) (row : Row) : Prop :=
  List.Forall₂ (fun c held => t.Holds c (f c) held) t.columns row

variable {t : Table} {f : Column → Value} {seq : Int}

lemma stores_self : t.Stores f (t.columns.map f) :=
  List.forall₂_map_right_iff.mpr (List.forall₂_same.mpr fun _ _ => .inl rfl)

lemma settle_stores {row : Row} {id : Option Int} (h : t.settle seq (t.columns.map f) = .ok (row, id)) :
    t.Stores f row := by
  unfold settle at h
  cases hrowid : t.rowid with
  | none =>
    simp only [hrowid] at h
    cases h
    exact stores_self
  | some name =>
    simp only [hrowid] at h
    split at h
    · cases h
      exact stores_self
    · cases h
      rw [List.zipWith_map_right, List.zipWith_self]
      refine List.forall₂_map_right_iff.mpr (List.forall₂_same.mpr fun c _ => ?_)
      split
      · next hc => exact .inr ⟨hrowid.trans (congrArg some hc.1.symm), hc.2, _, rfl⟩
      · exact .inl rfl
    · cases h

/-- A row that brings its id is stored as it is. -/
lemma settle_of_idOf {row : Row} {n : Int} (h : t.idOf row = some n) :
    t.settle seq row = .ok (row, some n) := by
  unfold idOf at h
  cases hrowid : t.rowid with
  | none => simp [hrowid] at h
  | some name =>
    simp only [hrowid, Option.map_some] at h
    unfold settle
    cases hcell : cell t.columns row name <;> simp_all

end Table

section Insert

variable {D : Dialect} {name : String} {s s' : Content} {t : Table}

/-- What `INSERT` leaves of a row. -/
lemma Content.insertRow_ok {row stored : Row} (ht : s.table? name = some t)
    (h : s.insertRow name row = .ok (stored, s')) :
    ∃ id, t.settle (s.seqOf name) row = .ok (stored, id) ∧
      s'.table? name = some { t with rows := t.rows ++ [stored] } ∧
      (∀ other, other ≠ name → s'.table? other = s.table? other ∧ s'.seqOf other = s.seqOf other) ∧
      s'.seqOf name = if t.autoincrement then id.toList.foldl max (s.seqOf name) else s.seqOf name := by
  simp only [insertRow, ht] at h
  have htname := name_of_table? ht
  cases hsettle : t.settle (s.seqOf name) row with
  | error e => simp [hsettle] at h
  | ok settled =>
    obtain ⟨row', id⟩ := settled
    simp only [hsettle] at h
    cases h
    refine ⟨id, rfl, ?_, fun other hother => ⟨?_, ?_⟩, ?_⟩
    · rw [table?_note, table?_setRows, ht]
      simp
    · rw [table?_note, table?_setRows]
      simp [hother]
    · rw [seqOf_note, if_neg (fun hc => hother (hc.1.trans htname)), seqOf_setRows]
    · simp [seqOf_note, htname]

/-- `INSERT` without triggers stores each row in the table and touches no other table. -/
theorem insertEach_stores {α : Type} {f : α → Column → Value} {sources : List α}
    (ht : s.table? name = some t)
    (h : insertEach ([] : List (Trigger D)) name (sources.map fun r => t.columns.map (f r)) s = .ok s') :
    ∃ new, List.Forall₂ (fun r row => t.Stores (f r) row) sources new ∧
      s'.table? name = some { t with rows := t.rows ++ new } ∧
      ∀ other, other ≠ name → s'.table? other = s.table? other ∧ s'.seqOf other = s.seqOf other := by
  induction sources generalizing s t with
  | nil =>
    cases h
    exact ⟨[], .nil, by simpa using ht, fun _ _ => ⟨rfl, rfl⟩⟩
  | cons r sources ih =>
    simp only [List.map_cons, insertEach, fire] at h
    cases hrow : s.insertRow name (t.columns.map (f r)) with
    | error e => simp [hrow] at h
    | ok stored =>
      obtain ⟨row, s₁⟩ := stored
      simp only [hrow] at h
      obtain ⟨id, hsettle, htable, hothers, -⟩ := Content.insertRow_ok ht hrow
      obtain ⟨new, hnew, htable', hothers'⟩ := ih htable h
      refine ⟨row :: new, .cons (Table.settle_stores hsettle) hnew, ?_, fun other hother => ?_⟩
      · rw [htable', List.append_assoc, List.singleton_append]
      · obtain ⟨h₁, h₂⟩ := hothers other hother
        obtain ⟨h₃, h₄⟩ := hothers' other hother
        exact ⟨h₃.trans h₁, h₄.trans h₂⟩

/-- Rows that bring their ids are stored as they are, and the counter passes them. -/
theorem insertEach_ids {α : Type} {f : α → Column → Value} {id : α → Int} {sources : List α}
    (ht : s.table? name = some t) (hids : ∀ r ∈ sources, t.idOf (t.columns.map (f r)) = some (id r))
    (h : insertEach ([] : List (Trigger D)) name (sources.map fun r => t.columns.map (f r)) s = .ok s') :
    s'.table? name = some { t with rows := t.rows ++ sources.map fun r => t.columns.map (f r) } ∧
      s'.seqOf name =
        if t.autoincrement then (sources.map id).foldl max (s.seqOf name) else s.seqOf name := by
  induction sources generalizing s t with
  | nil =>
    cases h
    exact ⟨by simpa using ht, by simp⟩
  | cons r sources ih =>
    simp only [List.map_cons, insertEach, fire] at h
    cases hrow : s.insertRow name (t.columns.map (f r)) with
    | error e => simp [hrow] at h
    | ok stored =>
      obtain ⟨row, s₁⟩ := stored
      simp only [hrow] at h
      obtain ⟨n, hsettle, htable, -, hseq⟩ := Content.insertRow_ok ht hrow
      rw [Table.settle_of_idOf (hids r List.mem_cons_self)] at hsettle
      cases hsettle
      obtain ⟨htable', hseq'⟩ := ih htable (fun r' hr' => hids r' (List.mem_cons_of_mem r hr')) h
      refine ⟨?_, ?_⟩
      · rw [htable', List.append_assoc, List.singleton_append, List.map_cons]
      · rw [hseq', hseq]
        dsimp only
        split <;> rfl

/-- `DELETE` without triggers empties the table and touches no other one. -/
lemma deleteEach_empties {rows : List Row} (ht : s.table? name = some t) (hrows : t.rows = rows)
    (h : deleteEach ([] : List (Trigger D)) name rows s = .ok s') :
    s'.table? name = some { t with rows := [] } ∧ s'.seqOf = s.seqOf ∧
      ∀ other, other ≠ name → s'.table? other = s.table? other := by
  induction rows generalizing s t with
  | nil =>
    cases h
    exact ⟨by rw [ht, ← hrows], rfl, fun _ _ => rfl⟩
  | cons row rows ih =>
    simp only [deleteEach, fire] at h
    have htable : (s.setRows name (·.erase row)).table? name = some { t with rows := rows } := by
      rw [Content.table?_setRows, ht, Option.map_some, if_pos rfl, hrows, List.erase_cons_head]
    obtain ⟨hempty, hseq, hothers⟩ := ih htable rfl h
    refine ⟨hempty, hseq, fun other hother => ?_⟩
    rw [hothers other hother, Content.table?_setRows]
    simp [hother]

end Insert

namespace Database

variable {D : Dialect} {db db' attached : Database D} {name : String}

lemma delete_ok (hnone : db.triggers = []) (h : db.delete name = .ok db') :
    ∃ t, db.table? name = some t ∧ db'.table? name = some { t with rows := [] } ∧ db'.triggers = [] ∧
      db'.seqOf = db.seqOf ∧ ∀ other, other ≠ name → db'.table? other = db.table? other := by
  unfold delete at h
  cases ht : db.table? name with
  | none => simp [ht] at h
  | some t =>
    simp only [ht, hnone] at h
    cases hrows : deleteEach ([] : List (Trigger D)) name t.rows db.toContent with
    | error e => simp [hrows, Except.map] at h
    | ok s =>
      simp only [hrows, Except.map, Except.ok.injEq] at h
      subst h
      obtain ⟨hempty, hseq, hothers⟩ := deleteEach_empties ht rfl hrows
      exact ⟨t, rfl, hempty, rfl, hseq, hothers⟩

/-- What `INSERT … SELECT` makes of the rows of another table. -/
structure Inserted (D : Dialect) (t : Table) (names : List String) (source : Table) (rows : List Row)
    (seq seq' : Int) : Prop where
  stores : List.Forall₂ (fun r row => t.Stores (fill D names source r) row) source.rows rows
  ids : ∀ id : Row → Int,
    (∀ r ∈ source.rows, t.idOf (t.columns.map (fill D names source r)) = some (id r)) →
      rows = written D t names source ∧
        seq' = if t.autoincrement then (source.rows.map id).foldl max seq else seq

lemma insertFrom_ok {columns : List String} (hnone : db.triggers = [])
    (ht : ∀ t, db.table? name = some t → t.rows = []) (h : db.insertFrom attached name columns = .ok db') :
    ∃ t source rows, db.table? name = some t ∧ attached.table? name = some source ∧
      db'.table? name = some { t with rows := rows } ∧ db'.triggers = [] ∧
      Inserted D t columns source rows (db.seqOf name) (db'.seqOf name) ∧
      ∀ other, other ≠ name → db'.table? other = db.table? other ∧ db'.seqOf other = db.seqOf other := by
  unfold insertFrom at h
  split at h
  · next t source htable hsource =>
    rw [hnone] at h
    cases hrows : insertEach ([] : List (Trigger D)) name (written D t columns source) db.toContent with
    | error e => simp [hrows, Except.map] at h
    | ok s =>
      simp only [hrows, Except.map, Except.ok.injEq] at h
      subst h
      obtain ⟨rows, hstores, hnew, hothers⟩ := insertEach_stores htable hrows
      rw [ht t htable, List.nil_append] at hnew
      refine ⟨t, source, rows, htable, hsource, hnew, rfl, ⟨hstores, fun id hid => ?_⟩, hothers⟩
      obtain ⟨hnew', hseq⟩ := insertEach_ids htable hid hrows
      rw [ht t htable, List.nil_append, hnew] at hnew'
      exact ⟨congrArg Table.rows (Option.some.inj hnew'), hseq⟩
  · cases h

/-- A dropped trigger leaves the others and the rows. -/
lemma dropTrigger_ok (h : db.dropTrigger name = .ok db') :
    db'.toContent = db.toContent ∧ db'.triggers = db.triggers.filter (·.name ≠ name) := by
  unfold dropTrigger at h
  split at h
  · cases h
    exact ⟨rfl, rfl⟩
  · cases h

/-- A created trigger is the one whose text it is. -/
lemma createTrigger_ok {t : Trigger D} (h : db.createTrigger t.sql = .ok db') :
    db'.toContent = db.toContent ∧ db'.triggers = db.triggers ++ [t] := by
  unfold createTrigger at h
  split at h
  · cases h
  · next d hd =>
    split at h
    · cases h
    · cases h
      refine ⟨rfl, congrArg (db.triggers ++ [·]) ?_⟩
      have hname : some d.name = some t.name := by
        rw [← t.named, hd, Option.map_some]
      obtain ⟨name, sql, named⟩ := t
      simp only at hname
      cases hname
      rfl

end Database

/-! ## Transactions -/

section Transaction

variable {D : Dialect} {ε α β : Type} (refuses : Refuses D) (report : Statement → Error → ε)

/-- A statement, and how its failure is reported. -/
def answer (c : Conn D) (s : Statement) : Except ε (Conn D) :=
  (attempt refuses c s).mapError (report s)

/-- A script between `BEGIN` and `COMMIT`; a script that fails is rolled back, and a rollback that fails
    leaves the transaction to the closing connection. -/
def transaction (p : Script (Conn D) Statement ε α) (c : Conn D) : Except ε α × Conn D :=
  match (Script.exec .begin).execute (answer refuses report) c with
  | (.error e, c) => (.error e, c)
  | (.ok (), c) =>
    match p.execute (answer refuses report) c with
    | (.ok a, c) => (Script.exec .commit >>= fun _ => pure a).execute (answer refuses report) c
    | (.error e, c) => (.error e, ((Script.exec .rollback).execute (answer refuses report) c).2)

/-- Inside a transaction over `committed`, the script leads from `P` to `Q`, and commits nothing. -/
def Triple (committed attached : Database D) (P : Database D → Prop) (p : Script (Conn D) Statement ε α)
    (Q : α → Database D → Prop) : Prop :=
  ∀ db, P db →
    match p.execute (answer refuses report) ⟨committed, some db, attached⟩ with
    | (.ok a, c) => ∃ db', c = ⟨committed, some db', attached⟩ ∧ Q a db'
    | (.error _, c) => c.committed = committed ∧ c.attached = attached

/-- What a call leaves committed: an answer meets `Q`, an error leaves what was there. -/
def Atomic (before : Database D) (Q : α → Database D → Prop) : Except ε α × Conn D → Prop
  | (.ok a, c) => Q a c.committed
  | (.error _, c) => c.committed = before

variable {refuses report} {committed attached : Database D} {P R : Database D → Prop}
  {p : Script (Conn D) Statement ε α} {f : α → Script (Conn D) Statement ε β}
  {Q : α → Database D → Prop} {S : β → Database D → Prop}

lemma Triple.pure {a : α} (h : ∀ db, P db → Q a db) :
    Triple refuses report committed attached P (Pure.pure a) Q :=
  fun db hP => ⟨db, rfl, h db hP⟩

lemma Triple.bind (hp : Triple refuses report committed attached P p Q)
    (hf : ∀ a, Triple refuses report committed attached (Q a) (f a) S) :
    Triple refuses report committed attached P (p >>= f) S := by
  intro db hP
  have hp := hp db hP
  rw [Script.execute_bind]
  split at hp
  · next a c hexec =>
    obtain ⟨db', rfl, hQ⟩ := hp
    rw [hexec]
    exact hf a db' hQ
  · next e c hexec =>
    rw [hexec]
    exact hp

/-- What a script reads of the connection. -/
lemma Triple.store {f : Conn D → Script (Conn D) Statement ε β}
    (hf : ∀ db, P db → Triple refuses report committed attached (· = db)
      (f ⟨committed, some db, attached⟩) S) :
    Triple refuses report committed attached P (Script.store >>= f) S :=
  fun db hP => hf db hP db rfl

/-- A query changes nothing. -/
lemma Triple.select (query : Query) :
    Triple refuses report committed attached P (Script.exec (.select query)) fun _ => P := by
  intro db hP
  simp only [Script.exec, Script.execute, answer, attempt]
  cases refuses ⟨committed, some db, attached⟩ (.select query) with
  | some e => exact ⟨rfl, rfl⟩
  | none => exact ⟨db, rfl, hP⟩

/-- A statement that changes the database. -/
lemma Triple.exec (change : Database D → Except Error (Database D)) {s : Statement}
    (hs : ∀ c : Conn D, c.attached = attached → effect c s = (change c.view).map c.write)
    (h : ∀ db db', P db → change db = .ok db' → R db') :
    Triple refuses report committed attached P (Script.exec s) fun _ => R := by
  intro db hP
  have heffect := hs ⟨committed, some db, attached⟩ rfl
  simp only [Script.exec, Script.execute, answer, attempt]
  cases refuses ⟨committed, some db, attached⟩ s with
  | some e => exact ⟨rfl, rfl⟩
  | none =>
    simp only [heffect, Conn.view, Option.getD_some]
    cases hchange : change db with
    | error e => exact ⟨rfl, rfl⟩
    | ok db' => exact ⟨db', rfl, h db db' hP hchange⟩

lemma Triple.weaken {P' : Database D → Prop} (hp : Triple refuses report committed attached P p Q)
    (h : ∀ db, P' db → P db) : Triple refuses report committed attached P' p Q :=
  fun db hP => hp db (h db hP)

/-- A rollback commits nothing, also when it fails. -/
lemma committed_rollback (c : Conn D) :
    ((Script.exec .rollback).execute (answer refuses report) c).2.committed = c.committed := by
  simp only [Script.exec, Script.execute, answer, attempt]
  cases refuses c .rollback with
  | some e => rfl
  | none =>
    simp only [effect]
    cases c.pending <;> rfl

/-- The state a script starts from may be fixed. -/
lemma Triple.fix (h : ∀ db, P db → Triple refuses report committed attached (· = db) p Q) :
    Triple refuses report committed attached P p Q :=
  fun db hP => h db hP db rfl

/-- A transaction takes effect as a whole or not at all. -/
theorem transaction_atomic (hp : Triple refuses report committed attached (· = committed) p Q) :
    Atomic committed Q (transaction refuses report p ⟨committed, none, attached⟩) := by
  have hp := hp committed rfl
  have hbegin : (Script.exec .begin).execute (answer refuses report) ⟨committed, none, attached⟩ =
      match refuses ⟨committed, none, attached⟩ .begin with
      | some e => (.error (report .begin e), ⟨committed, none, attached⟩)
      | none => (.ok (), ⟨committed, some committed, attached⟩) := by
    simp only [Script.exec, Script.execute, answer, attempt]
    cases refuses ⟨committed, none, attached⟩ .begin <;> rfl
  unfold transaction
  rw [hbegin]
  cases refuses ⟨committed, none, attached⟩ .begin with
  | some e => rfl
  | none =>
    dsimp only
    split at hp
    · next a c hexec =>
      obtain ⟨db', rfl, hQ⟩ := hp
      simp only [Script.execute_bind, Script.exec, Script.execute, answer, attempt]
      cases refuses ⟨committed, some db', attached⟩ .commit with
      | some e => rfl
      | none => exact hQ
    · next e c hexec => exact (committed_rollback c).trans hp.1

end Transaction

end Sarca.Lib.Sqlite
