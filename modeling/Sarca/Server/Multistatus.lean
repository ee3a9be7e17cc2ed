import Sarca.Lib.Xml
import Sarca.Server.ImportScan

/-!
# A listing over WebDAV

`parse_multistatus` of `services/import/webdav.rs` reads a listing event by event: `State` is what it holds between
two events, `Reading` without the text that it is collecting. What `chrono` makes of a date is an argument.

The loop knows no depth. It is a reading of the tree in which an element that holds text counts wherever it stands
(`foldl_event`), so that of each name the last one in a response or a `propstat` is taken (`reads_eq`).
`readsTree_iff` compares that with the elements that stand in their own places.
-/

namespace Sarca.Server
open Sarca.Lib Sarca.Lib.Xml

namespace Multistatus

open ImportScan (RawEntry)

/-- Rust `Field`. -/
inductive Field where
  | href
  | size
  | mtime
  | status
deriving DecidableEq, Repr

def fieldOf (name : List Char) : Option Field :=
  if name = "href".toList then some .href
  else if name = "getcontentlength".toList then some .size
  else if name = "getlastmodified".toList then some .mtime
  else if name = "status".toList then some .status
  else none

/-- Rust `RawEntry::default`. -/
def defaultEntry : RawEntry := ⟨[], false, 0, none⟩

/-- The entries so far, and the response and the `propstat` that are being read. -/
structure Reading where
  entries : List RawEntry
  current : Option RawEntry
  pending : RawEntry
  propstatOk : Bool
deriving DecidableEq, Repr

/-- What the loop of `parse_multistatus` holds between two events. -/
structure State extends Reading where
  field : Option Field
  text : List Char
deriving DecidableEq, Repr

/-- `value.split_whitespace().nth(1) == Some("200")` -/
def isOk (value : List Char) : Bool :=
  ((value.splitOnP isWhitespace).filter (· ≠ []))[1]? == some "200".toList

section Loop

variable (parseFromRfc2822 : List Char → Option Instant)

def Reading.assign (r : Reading) (f : Field) (value : List Char) : Reading :=
  match f with
  | .href => { r with current := r.current.map fun e => { e with href := value } }
  | .size => { r with pending := { r.pending with size := (parseU64 value).getD 0 } }
  | .mtime => { r with pending := { r.pending with mtime := parseFromRfc2822 value } }
  | .status => { r with propstatOk := isOk value }

def Reading.opened (r : Reading) (name : List Char) : Reading :=
  if name = "response".toList then { r with current := some defaultEntry }
  else if name = "propstat".toList then { r with pending := defaultEntry, propstatOk := true }
  else if name = "collection".toList then { r with pending := { r.pending with isDir := true } }
  else r

def Reading.emptied (r : Reading) (name : List Char) : Reading :=
  if name = "collection".toList then { r with pending := { r.pending with isDir := true } } else r

/-- What a `propstat` adds to its response. -/
def addTo (pending entry : RawEntry) : RawEntry :=
  { entry with
    isDir := entry.isDir || pending.isDir
    size := if 0 < pending.size then pending.size else entry.size
    mtime := if pending.mtime.isSome then pending.mtime else entry.mtime }

def Reading.closed (r : Reading) (name : List Char) : Reading :=
  if name = "propstat".toList then
    if r.propstatOk then { r with current := r.current.map (addTo r.pending) } else r
  else if name = "response".toList then
    { r with
      entries := r.entries ++ (r.current.filter fun e => e.href ≠ []).toList
      current := none }
  else r

def State.event (s : State) : Event → State
  | .start name =>
    let s := { s with toReading := s.toReading.opened (localName name) }
    match fieldOf (localName name) with
    | some f => { s with field := some f, text := [] }
    | none => s
  | .empty name => { s with toReading := s.toReading.emptied (localName name) }
  | .piece p => if s.field.isSome then { s with text := s.text ++ p.content } else s
  | .close name =>
    if (fieldOf (localName name)).isSome then
      let r := match s.field with
        | some f => s.toReading.assign parseFromRfc2822 f (trim s.text)
        | none => s.toReading
      ⟨r, none, []⟩
    else { s with toReading := s.toReading.closed (localName name) }

/-- The loop, over the events that the reader gives or the error it stops with. -/
def State.loop (s : State) : List (Except String Event) → Except String (List RawEntry)
  | [] => .ok s.entries
  | .error e :: _ => .error ("the server sent a listing that is not valid XML: " ++ e)
  | .ok event :: events => (s.event parseFromRfc2822 event).loop events

/-- Rust `parse_multistatus`. -/
def parseMultistatus (events : List (Except String Event)) : Except String (List RawEntry) :=
  State.loop parseFromRfc2822 ⟨⟨[], none, defaultEntry, true⟩, none, []⟩ events

end Loop

/-! ## What a listing says -/

/-- A well-formed 207 body: the contents of its root, and what stands around it. -/
structure Document where
  prolog : List Piece
  root : List Char
  contents : Forest
  epilog : List Piece
  isRoot : localName root = "multistatus".toList

/-- What the reader reports of it; outside of the root no text is kept. -/
def Document.events (d : Document) : List (Except String Event) :=
  (d.prolog.map Event.piece ++ (Forest.element d.root d.contents .nil).events ++ d.epilog.map Event.piece).map .ok

/-- What a `propstat` says. -/
structure Block where
  ok : Bool
  isDir : Bool
  size : Nat
  mtime : Option Instant
deriving DecidableEq, Repr

/-- An entry with what the blocks of status 200 say. -/
def merged (blocks : List Block) (entry : RawEntry) : RawEntry :=
  (blocks.filter (·.ok)).foldl (fun e b => addTo ⟨[], b.isDir, b.size, b.mtime⟩ e) entry

/-- The entry of a response with such blocks, unless it has no address. -/
def entryOf (href : List Char) (blocks : List Block) : Option RawEntry :=
  if href = [] then none else some (merged blocks ⟨href, false, 0, none⟩)

section Own

variable (parseFromRfc2822 : List Char → Option Instant)

def lastText (elements : List Forest) : Option (List Char) :=
  elements.getLast?.map fun contents => trim contents.ownText

/-- A `propstat` as it is meant: its own status, and what stands in its own `prop`. -/
def ownBlock (propstat : Forest) : Block :=
  let props := propstat.children "prop".toList
  { ok := (lastText (propstat.children "status".toList)).any isOk
    isDir := props.any fun prop => (prop.children "resourcetype".toList).any fun type =>
      !(type.children "collection".toList).isEmpty
    size := ((lastText (props.flatMap (Forest.children "getcontentlength".toList))).bind parseU64).getD 0
    mtime := (lastText (props.flatMap (Forest.children "getlastmodified".toList))).bind parseFromRfc2822 }

def ownEntry (response : Forest) : Option RawEntry :=
  entryOf ((lastText (response.children "href".toList)).getD [])
    ((response.children "propstat".toList).map (ownBlock parseFromRfc2822))

/-- The parser returns the entries of the responses as they are meant. -/
def ReadsTree (d : Document) : Prop :=
  parseMultistatus parseFromRfc2822 d.events =
    .ok ((d.contents.children "response".toList).filterMap (ownEntry parseFromRfc2822))

/-! ## What the parser takes instead -/

/-- The last of each field in a part of the document, at any depth, and whether a collection is named in it. -/
structure Seen where
  href : Option (List Char)
  size : Option Nat
  mtime : Option (Option Instant)
  status : Option Bool
  isDir : Bool
deriving DecidableEq, Repr

def Seen.none : Seen := ⟨.none, .none, .none, .none, false⟩

def Seen.then (x y : Seen) : Seen :=
  ⟨y.href.or x.href, y.size.or x.size, y.mtime.or x.mtime, y.status.or x.status, x.isDir || y.isDir⟩

def Seen.field (f : Field) (value : List Char) : Seen :=
  match f with
  | .href => { Seen.none with href := some value }
  | .size => { Seen.none with size := some ((parseU64 value).getD 0) }
  | .mtime => { Seen.none with mtime := some (parseFromRfc2822 value) }
  | .status => { Seen.none with status := some (isOk value) }

def Seen.name (name : List Char) : Seen :=
  { Seen.none with isDir := name = "collection".toList }

def isField (name : List Char) : Bool :=
  (fieldOf name).isSome

/-- What is seen of a forest: a field with another inside it counts for nothing. -/
def seen : Forest → Seen
  | .nil => .none
  | .piece _ rest => seen rest
  | .empty name rest => (Seen.name (localName name)).then (seen rest)
  | .element name contents rest =>
    let inner := (Seen.name (localName name)).then (seen contents)
    match fieldOf (localName name) with
    | some f =>
      if contents.holds isField then inner.then (seen rest)
      else (inner.then (.field parseFromRfc2822 f (trim contents.deepText))).then (seen rest)
    | none => inner.then (seen rest)

/-- A `propstat` as the parser takes it: one without a status counts as well. -/
def flatBlock (propstat : Forest) : Block :=
  let s := seen parseFromRfc2822 propstat
  ⟨s.status.getD true, s.isDir, s.size.getD 0, s.mtime.getD .none⟩

def flatEntry (response : Forest) : Option RawEntry :=
  entryOf ((seen parseFromRfc2822 response).href.getD [])
    ((response.children "propstat".toList).map (flatBlock parseFromRfc2822))

/-- Taken in either way, the responses are the same. -/
def Agrees (d : Document) : Prop :=
  (d.contents.children "response".toList).filterMap (flatEntry parseFromRfc2822) =
    (d.contents.children "response".toList).filterMap (ownEntry parseFromRfc2822)

instance Agrees.decidable (d : Document) : Decidable (Agrees parseFromRfc2822 d) :=
  inferInstanceAs (Decidable (_ = _))

end Own

/-- The two elements that are parts of the document. -/
def isPart (name : List Char) : Bool :=
  name = "response".toList ∨ name = "propstat".toList

/-- Elements of the name stand directly in the forest, where their contents have a property, and the others hold
    no part of the document. -/
def OnlyDirect (name : List Char) (p : Forest → Prop) : Forest → Prop
  | .nil => True
  | .piece _ rest => OnlyDirect name p rest
  | .empty _ rest => OnlyDirect name p rest
  | .element n contents rest =>
    (if localName n = name then p contents else isPart (localName n) = false ∧ contents.holds isPart = false) ∧
      OnlyDirect name p rest

/-- A `response` stands in the root, a `propstat` in a response, and neither elsewhere. -/
def NoStray (d : Document) : Prop :=
  OnlyDirect "response".toList
    (OnlyDirect "propstat".toList fun contents => contents.holds isPart = false) d.contents

section Loop

variable {parseFromRfc2822 : List Char → Option Instant}

/-! ## The loop as a reading of the tree -/

/-- A forest, read with no account of its depth. -/
def reads (parseFromRfc2822 : List Char → Option Instant) : Forest → Reading → Reading
  | .nil, r => r
  | .piece _ rest, r => reads parseFromRfc2822 rest r
  | .empty name rest, r => reads parseFromRfc2822 rest (r.emptied (localName name))
  | .element name contents rest, r =>
    let inner := reads parseFromRfc2822 contents (r.opened (localName name))
    reads parseFromRfc2822 rest
      (match fieldOf (localName name) with
      | some f =>
        if contents.holds isField then inner else inner.assign parseFromRfc2822 f (trim contents.deepText)
      | none => inner.closed (localName name))

/-- The field and its text behind a forest: a field inside it has ended the collection. -/
def collected (t : Forest) (field : Option Field) (text : List Char) : Option Field × List Char :=
  if t.holds isField then (none, []) else (field, if field.isSome then text ++ t.deepText else text)

lemma collected_none {t : Forest} {field : Option Field} {text : List Char} (hnone : field = none → text = []) :
    (collected t field text).1 = none → (collected t field text).2 = [] := by
  unfold collected
  split
  · exact fun _ => rfl
  · intro h
    obtain rfl : field = none := h
    exact hnone rfl

lemma collected_element {name : List Char} {contents rest : Forest} {field : Option Field} {text : List Char}
    (hfield : isField (localName name) = false) (hnone : field = none → text = []) :
    collected rest (collected contents field text).1 (collected contents field text).2 =
      collected (.element name contents rest) field text := by
  unfold collected
  rw [Forest.holds, hfield, Bool.false_or, Forest.deepText]
  cases contents.holds isField <;> cases rest.holds isField <;> cases field <;> simp

/-- The loop reads the tree; a field is assigned where no other one stands inside it. -/
lemma foldl_event (t : Forest) (r : Reading) {field : Option Field} {text : List Char}
    (hnone : field = none → text = []) :
    t.events.foldl (State.event parseFromRfc2822) ⟨r, field, text⟩ =
      ⟨reads parseFromRfc2822 t r, (collected t field text).1, (collected t field text).2⟩ := by
  induction t generalizing r field text with
  | nil =>
    unfold collected
    cases field <;> simp [Forest.events, Forest.holds, Forest.deepText, reads]
  | piece p rest ih =>
    rw [Forest.foldl_piece]
    cases field with
    | none => exact ih r hnone
    | some f =>
      have hstep : State.event parseFromRfc2822 ⟨r, some f, text⟩ (.piece p) = ⟨r, some f, text ++ p.content⟩ := rfl
      rw [hstep, ih r fun h => absurd h (Option.some_ne_none f)]
      simp [collected, Forest.holds, Forest.deepText, reads]
  | empty name rest ih =>
    rw [Forest.foldl_empty]
    exact ih (r.emptied (localName name)) hnone
  | element name contents rest ihc ihr =>
    rw [Forest.foldl_element]
    cases hfield : fieldOf (localName name) with
    | some f =>
      have hname : isField (localName name) = true := by rw [isField, hfield]; rfl
      have hstart : State.event parseFromRfc2822 ⟨r, field, text⟩ (.start name) =
          ⟨r.opened (localName name), some f, []⟩ := by
        simp only [State.event, hfield]
      -- the end of the field finds the collection as its contents have left it
      have hclose (s : State) : State.event parseFromRfc2822 s (.close name) =
          ⟨match s.field with
            | some f => s.toReading.assign parseFromRfc2822 f (trim s.text)
            | none => s.toReading, none, []⟩ := by
        simp only [State.event, hfield, Option.isSome_some, if_true]
      have hwhole : collected (.element name contents rest) field text = (none, []) := by
        rw [collected, Forest.holds, hname]
        rfl
      have hrest (field' : Option Field) : field' = none → collected rest field' [] = (none, []) := by
        rintro rfl
        unfold collected
        split <;> rfl
      rw [hstart, ihc _ fun h => absurd h (Option.some_ne_none f), hclose, ihr _ fun _ => rfl, hrest none rfl,
        hwhole, reads, hfield]
      cases hinner : contents.holds isField with
      | true => simp [collected, hinner]
      | false => simp [collected, hinner]
    | none =>
      have hname : isField (localName name) = false := by rw [isField, hfield]; rfl
      have hstart : State.event parseFromRfc2822 ⟨r, field, text⟩ (.start name) =
          ⟨r.opened (localName name), field, text⟩ := by
        simp only [State.event, hfield]
      have hclose (s : State) : State.event parseFromRfc2822 s (.close name) =
          { s with toReading := s.toReading.closed (localName name) } := by
        simp only [State.event, hfield, Option.isSome_none, Bool.false_eq_true, if_false]
      rw [hstart, ihc _ hnone, hclose, ihr _ (collected_none hnone), collected_element hname hnone, reads, hfield]

/-! ## What the reading makes of a part -/

/-- What is seen takes the place of what was read before. -/
def Reading.see (r : Reading) (x : Seen) : Reading where
  entries := r.entries
  current := r.current.map fun e => { e with href := x.href.getD e.href }
  pending :=
    { r.pending with
      isDir := r.pending.isDir || x.isDir
      size := x.size.getD r.pending.size
      mtime := x.mtime.getD r.pending.mtime }
  propstatOk := x.status.getD r.propstatOk

variable {r : Reading} {name : List Char}

@[simp] lemma see_none (r : Reading) : r.see .none = r := by
  simp [Reading.see, Seen.none]

@[simp] lemma see_then (r : Reading) (x y : Seen) : r.see (x.then y) = (r.see x).see y := by
  obtain ⟨_, current, _, _⟩ := r
  obtain ⟨_, _, _, _, _⟩ := y
  cases current <;> simp [Reading.see, Seen.then, Bool.or_assoc]

lemma assign_eq (f : Field) (value : List Char) :
    r.assign parseFromRfc2822 f value = r.see (.field parseFromRfc2822 f value) := by
  cases f <;> simp [Reading.assign, Reading.see, Seen.field, Seen.none]

lemma emptied_eq : r.emptied name = r.see (.name name) := by
  unfold Reading.emptied
  split
  · case isTrue h => simp [Reading.see, Seen.name, Seen.none, h]
  · case isFalse h =>
    rw [Seen.name, decide_eq_false h]
    exact (see_none r).symm

lemma not_isPart (h : isPart name = false) : name ≠ "response".toList ∧ name ≠ "propstat".toList :=
  not_or.mp (of_decide_eq_false h)

lemma opened_eq (h : isPart name = false) : r.opened name = r.see (.name name) := by
  obtain ⟨hresponse, hpropstat⟩ := not_isPart h
  rw [Reading.opened, if_neg hresponse, if_neg hpropstat]
  exact emptied_eq

lemma closed_eq (h : isPart name = false) : r.closed name = r := by
  obtain ⟨hresponse, hpropstat⟩ := not_isPart h
  rw [Reading.closed, if_neg hpropstat, if_neg hresponse]

lemma reads_eq {t : Forest} (h : t.holds isPart = false) (r : Reading) :
    reads parseFromRfc2822 t r = r.see (seen parseFromRfc2822 t) := by
  induction t generalizing r with
  | nil => exact (see_none r).symm
  | piece p rest ih => exact ih h r
  | empty name rest ih =>
    rw [seen, see_then, ← emptied_eq]
    exact ih h _
  | element name contents rest ihc ihr =>
    rw [Forest.holds, Bool.or_eq_false_iff, Bool.or_eq_false_iff] at h
    obtain ⟨⟨hname, hcontents⟩, hrest⟩ := h
    unfold reads seen
    rw [ihc hcontents, opened_eq hname, ihr hrest]
    cases fieldOf (localName name) with
    | none => simp [closed_eq hname]
    | some f => cases contents.holds isField <;> simp [assign_eq]

/-! ## A response -/

lemma merged_one (b : Block) (e : RawEntry) :
    merged [b] e = if b.ok then addTo ⟨[], b.isDir, b.size, b.mtime⟩ e else e := by
  unfold merged
  cases hok : b.ok <;> simp [hok]

lemma merged_cons (b : Block) (blocks : List Block) (e : RawEntry) :
    merged (b :: blocks) e = merged blocks (merged [b] e) := by
  unfold merged
  cases hok : b.ok <;> simp [hok]

lemma merged_href (blocks : List Block) (e : RawEntry) (href : List Char) :
    merged blocks { e with href := href } = { merged blocks e with href := href } := by
  induction blocks generalizing e with
  | nil => rfl
  | cons b blocks ih =>
    rw [merged_cons, merged_cons b blocks e]
    have hone : merged [b] { e with href := href } = { merged [b] e with href := href } := by
      unfold merged
      cases hok : b.ok <;> simp [hok, addTo]
    rw [hone, ih]

lemma reads_propstat {t : Forest} (h : t.holds isPart = false) (r : Reading) :
    let r' := (reads parseFromRfc2822 t (r.opened "propstat".toList)).closed "propstat".toList
    r'.entries = r.entries ∧ r'.current = r.current.map fun e => merged [flatBlock parseFromRfc2822 t]
      { e with href := (seen parseFromRfc2822 t).href.getD e.href } := by
  have hopened : r.opened "propstat".toList = { r with pending := defaultEntry, propstatOk := true } := by
    rw [Reading.opened, if_neg (by decide), if_pos rfl]
  rw [hopened, reads_eq h, Reading.closed, if_pos rfl]
  simp only [merged_one]
  unfold Reading.see flatBlock
  cases hok : (seen parseFromRfc2822 t).status.getD true with
  | true => simp [hok, defaultEntry, addTo, Function.comp_def]
  | false => simp [hok]

lemma fieldOf_propstat : fieldOf "propstat".toList = none := by decide

lemma fieldOf_response : fieldOf "response".toList = none := by decide

lemma current_see (r : Reading) (x y : Seen) (blocks : List Block) :
    ((r.see x).current.map fun e => merged blocks { e with href := y.href.getD e.href }) =
      r.current.map fun e => merged blocks { e with href := (x.then y).href.getD e.href } := by
  unfold Reading.see Seen.then
  rw [Option.map_map]
  refine Option.map_congr fun e _ => ?_
  cases y.href <;> rfl

lemma merged_put (blocks : List Block) (e : RawEntry) (href : List Char) (later : Option (List Char)) :
    { merged blocks { e with href := href } with href := later.getD (merged blocks { e with href := href }).href } =
      merged blocks { e with href := later.getD href } := by
  have hfirst := merged_href blocks e href
  have hlater := merged_href blocks e (later.getD href)
  rw [hfirst, hlater]

lemma merged_flatBlock_nil (blocks : List Block) (e : RawEntry) :
    merged (flatBlock parseFromRfc2822 .nil :: blocks) e = merged blocks e := by
  rw [merged_cons, merged_one]
  simp [flatBlock, seen, Seen.none, addTo]

lemma then_none (x : Seen) : x.then .none = x := by
  simp [Seen.then, Seen.none]

lemma seen_element (name : List Char) (contents rest : Forest) :
    seen parseFromRfc2822 (.element name contents rest) =
      (seen parseFromRfc2822 (.element name contents .nil)).then (seen parseFromRfc2822 rest) := by
  simp only [seen]
  cases fieldOf (localName name) with
  | none => simp only [then_none]
  | some f => cases contents.holds isField <;> simp [then_none]

lemma reads_response {t : Forest} (h : OnlyDirect "propstat".toList (fun contents => contents.holds isPart = false) t)
    (r : Reading) : (reads parseFromRfc2822 t r).entries = r.entries ∧
      (reads parseFromRfc2822 t r).current = r.current.map fun e =>
        merged ((t.children "propstat".toList).map (flatBlock parseFromRfc2822))
          { e with href := (seen parseFromRfc2822 t).href.getD e.href } := by
  induction t generalizing r with
  | nil => exact ⟨rfl, (congrFun Option.map_id r.current).symm⟩
  | piece p rest ih => exact ih h r
  | empty name rest ih =>
    obtain ⟨hentries, hcurrent⟩ := ih h (r.see (.name (localName name)))
    unfold reads seen Forest.children
    rw [emptied_eq]
    refine ⟨hentries, hcurrent.trans ?_⟩
    rw [current_see]
    split
    · simp only [List.map_cons, merged_flatBlock_nil]
    · rfl
  | element name contents rest _ ih =>
    obtain ⟨hname, hrest⟩ := h
    split at hname
    · case isTrue hpropstat =>
      obtain ⟨hentries, hcurrent⟩ := @reads_propstat parseFromRfc2822 contents hname r
      obtain ⟨hentries', hcurrent'⟩ := ih hrest
        ((reads parseFromRfc2822 contents (r.opened "propstat".toList)).closed "propstat".toList)
      unfold reads seen Forest.children
      simp only [hpropstat, fieldOf_propstat, if_true]
      refine ⟨hentries'.trans hentries, hcurrent'.trans ?_⟩
      rw [hcurrent, Option.map_map]
      refine Option.map_congr fun e _ => ?_
      rw [List.map_cons, merged_cons, Function.comp_apply, merged_put]
      unfold Seen.then
      cases (seen parseFromRfc2822 rest).href with
      | none => cases (seen parseFromRfc2822 contents).href <;> rfl
      | some href => rfl
    · case isFalse hother =>
      have hbare : (Forest.element name contents .nil).holds isPart = false := by
        simp [Forest.holds, hname.1, hname.2]
      have hreads : reads parseFromRfc2822 (.element name contents rest) r =
          reads parseFromRfc2822 rest (reads parseFromRfc2822 (.element name contents .nil) r) := rfl
      obtain ⟨hentries, hcurrent⟩ := ih hrest (reads parseFromRfc2822 (.element name contents .nil) r)
      rw [reads_eq hbare] at hentries hcurrent
      rw [hreads, seen_element, reads_eq hbare, Forest.children, if_neg hother]
      exact ⟨hentries, hcurrent.trans (current_see ..)⟩

/-! ## The listing -/

lemma entryOf_eq (blocks : List Block) (href : Option (List Char)) :
    ((some defaultEntry).map fun e => merged blocks { e with href := href.getD e.href }).filter
      (fun e => e.href ≠ []) = entryOf (href.getD []) blocks := by
  have hhref : (merged blocks ⟨href.getD [], false, 0, none⟩).href = href.getD [] :=
    congrArg RawEntry.href (merged_href blocks defaultEntry (href.getD []))
  unfold entryOf
  rw [Option.map_some, Option.filter_some]
  show (if decide ((merged blocks ⟨href.getD [], false, 0, none⟩).href ≠ []) = true then _ else _) = _
  rw [hhref]
  split
  · case isTrue h => rw [if_neg (of_decide_eq_true h)]; rfl
  · case isFalse h => rw [if_pos (by simpa using h)]

lemma reads_listing {t : Forest} (h : OnlyDirect "response".toList
    (OnlyDirect "propstat".toList fun contents => contents.holds isPart = false) t) {r : Reading}
    (hr : r.current = none) : (reads parseFromRfc2822 t r).entries =
      r.entries ++ (t.children "response".toList).filterMap (flatEntry parseFromRfc2822) := by
  induction t generalizing r with
  | nil => exact (List.append_nil _).symm
  | piece p rest ih => exact ih h hr
  | empty name rest ih =>
    have hrest := ih h (r := r.see (.name (localName name))) (by rw [Reading.see, hr]; rfl)
    unfold reads Forest.children
    rw [emptied_eq, hrest]
    split
    · rfl
    · rfl
  | element name contents rest _ ih =>
    obtain ⟨hname, hrest⟩ := h
    split at hname
    · case isTrue hresponse =>
      have hopened : r.opened "response".toList = { r with current := some defaultEntry } := if_pos rfl
      obtain ⟨hentries, hcurrent⟩ := @reads_response parseFromRfc2822 contents hname
        { r with current := some defaultEntry }
      unfold reads Forest.children
      simp only [hresponse, fieldOf_response, if_true, hopened]
      rw [ih hrest rfl, Reading.closed, if_neg (by decide), if_pos rfl]
      dsimp only
      rw [hentries, hcurrent, entryOf_eq, List.filterMap_cons, List.append_assoc]
      unfold flatEntry
      cases entryOf ((seen parseFromRfc2822 contents).href.getD [])
        ((contents.children "propstat".toList).map (flatBlock parseFromRfc2822)) <;> rfl
    · case isFalse hother =>
      have hbare : (Forest.element name contents .nil).holds isPart = false := by
        simp [Forest.holds, hname.1, hname.2]
      have hreads : reads parseFromRfc2822 (.element name contents rest) r =
          reads parseFromRfc2822 rest (reads parseFromRfc2822 (.element name contents .nil) r) := rfl
      rw [hreads, reads_eq hbare, Forest.children, if_neg hother]
      exact ih hrest (by rw [Reading.see, hr]; rfl)

/-! ## The claim -/

lemma loop_ok (events : List Event) (s : State) : s.loop parseFromRfc2822 (events.map .ok) =
    .ok (events.foldl (State.event parseFromRfc2822) s).entries := by
  induction events generalizing s with
  | nil => rfl
  | cons event events ih => exact ih _

lemma foldl_pieces (pieces : List Piece) {s : State} (h : s.field = none) :
    (pieces.map Event.piece).foldl (State.event parseFromRfc2822) s = s := by
  induction pieces with
  | nil => rfl
  | cons p pieces ih =>
    have hstep : State.event parseFromRfc2822 s (.piece p) = s := by
      rw [State.event, h]
      rfl
    rw [List.map_cons, List.foldl_cons, hstep, ih]

lemma parse_eq (d : Document) (h : NoStray d) : parseMultistatus parseFromRfc2822 d.events =
    .ok ((d.contents.children "response".toList).filterMap (flatEntry parseFromRfc2822)) := by
  have hfield : ((collected (.element d.root d.contents .nil) none []).1) = none := by
    unfold collected
    split <;> rfl
  have hroot (r : Reading) : reads parseFromRfc2822 (.element d.root d.contents .nil) r =
      reads parseFromRfc2822 d.contents r := by
    have hname : fieldOf "multistatus".toList = none := by decide
    have hopened : r.opened "multistatus".toList = r := by
      rw [Reading.opened, if_neg (by decide), if_neg (by decide), if_neg (by decide)]
    simp only [reads, d.isRoot, hname, hopened]
    exact closed_eq (by decide)
  unfold parseMultistatus Document.events
  rw [loop_ok, List.foldl_append, List.foldl_append, foldl_pieces d.prolog rfl, foldl_event _ _ fun _ => rfl,
    foldl_pieces d.epilog hfield, hroot, reads_listing h rfl]
  rfl

end Loop

/-- `<name>text</name>` -/
def leaf (name text : String) (rest : Forest) : Forest :=
  .element name.toList (.piece (.text text.toList) .nil) rest

/-- A folder with a reference in its name, a property that is not found, and other prefixes. -/
def folderListing : Document where
  prolog := [.comment]
  root := "d:multistatus".toList
  contents :=
    .element "d:response".toList
      (.element "d:href".toList
        (.piece (.text "/dav/a".toList) (.piece (.entityRef "amp".toList) (.piece (.cdata "b/".toList) .nil)))
        (.element "d:propstat".toList
          (.element "d:prop".toList
            (.element "d:resourcetype".toList (.empty "d:collection".toList .nil)
              (leaf "d:getlastmodified" " Sat, 01 Jan 2000 00:00:00 GMT " (leaf "oc:id" "7" .nil)))
            (leaf "d:status" "HTTP/1.1 200 OK" .nil))
          (.element "d:propstat".toList
            (.element "d:prop".toList (.empty "d:getcontentlength".toList .nil)
              (leaf "d:status" "HTTP/1.1 404 Not Found" .nil)) .nil)))
      .nil
  epilog := []
  isRoot := by decide

def ownedFile : Document where
  prolog := []
  root := "D:multistatus".toList
  contents :=
    .element "D:response".toList
      (leaf "D:href" "/dav/a.txt"
        (.element "D:propstat".toList
          (.element "D:prop".toList
            (leaf "D:getcontentlength" "5"
              (.element "D:owner".toList (leaf "D:href" "/principals/bob" .nil) .nil))
            (leaf "D:status" "HTTP/1.1 200 OK" .nil))
          .nil))
      .nil
  epilog := []
  isRoot := by decide

end Multistatus

end Sarca.Server
