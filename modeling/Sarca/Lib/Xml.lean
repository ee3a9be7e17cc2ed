import Sarca.Lib.Text

/-!
# XML as a tree and as events

A `Forest` is what stands inside an element: pieces of text, comments and elements, one behind the other.
`Forest.events` is what a reader of events reports of it. `children` are the contents of the elements of a local
name that stand directly in it, `ownText` is the text that does, and `deepText` the text at any depth.
-/

namespace Sarca.Lib.Xml

/-- A part of a text: a comment or an instruction is an empty one. -/
inductive Piece where
  | text (t : List Char)
  | cdata (t : List Char)
  | charRef (c : Char)
  | entityRef (name : List Char)
  | comment
deriving DecidableEq, Repr

/-- What an event reader reports, with the qualified name of an element. -/
inductive Event where
  | start (name : List Char)
  | empty (name : List Char)
  | piece (p : Piece)
  | close (name : List Char)
deriving DecidableEq, Repr

inductive Forest where
  | nil
  | piece (p : Piece) (rest : Forest)
  /-- `<name/>` -/
  | empty (name : List Char) (rest : Forest)
  | element (name : List Char) (contents rest : Forest)
deriving DecidableEq, Repr

/-- The character behind one of the five predefined entities. -/
def predefinedEntity (name : List Char) : Option Char :=
  if name = "lt".toList then some '<'
  else if name = "gt".toList then some '>'
  else if name = "amp".toList then some '&'
  else if name = "apos".toList then some (Char.ofNat 39)
  else if name = "quot".toList then some (Char.ofNat 34)
  else none

def Piece.content : Piece → List Char
  | .text t => t
  | .cdata t => t
  | .charRef c => [c]
  | .entityRef name => (predefinedEntity name).toList
  | .comment => []

/-- The name without its prefix. -/
def localName (name : List Char) : List Char :=
  match splitOnce ':' name with
  | some (_, after) => after
  | none => name

namespace Forest

/-- The events of a forest, in the order of the document. -/
def events : Forest → List Event
  | nil => []
  | piece p rest => .piece p :: rest.events
  | empty name rest => .empty name :: rest.events
  | element name contents rest => .start name :: contents.events ++ .close name :: rest.events

/-- The contents of the elements of a local name that stand directly in the forest. -/
def children (name : List Char) : Forest → List Forest
  | nil => []
  | piece _ rest => rest.children name
  | empty n rest => if localName n = name then nil :: rest.children name else rest.children name
  | element n contents rest =>
    if localName n = name then contents :: rest.children name else rest.children name

/-- The text that stands directly in the forest. -/
def ownText : Forest → List Char
  | nil => []
  | piece p rest => p.content ++ rest.ownText
  | empty _ rest => rest.ownText
  | element _ _ rest => rest.ownText

/-- The text at any depth. -/
def deepText : Forest → List Char
  | nil => []
  | piece p rest => p.content ++ rest.deepText
  | empty _ rest => rest.deepText
  | element _ contents rest => contents.deepText ++ rest.deepText

/-- An element with such a local name stands in the forest, at any depth, with a start and an end of its own. -/
def holds (p : List Char → Bool) : Forest → Bool
  | nil => false
  | piece _ rest => rest.holds p
  | empty _ rest => rest.holds p
  | element name contents rest => p (localName name) || contents.holds p || rest.holds p

variable {σ : Type*} (step : σ → Event → σ)

@[simp] lemma foldl_piece (s : σ) (p : Piece) (rest : Forest) :
    (piece p rest).events.foldl step s = rest.events.foldl step (step s (.piece p)) := rfl

@[simp] lemma foldl_empty (s : σ) (name : List Char) (rest : Forest) :
    (empty name rest).events.foldl step s = rest.events.foldl step (step s (.empty name)) := rfl

/-- An element is read between its start and its end. -/
@[simp] lemma foldl_element (s : σ) (name : List Char) (contents rest : Forest) :
    (element name contents rest).events.foldl step s =
      rest.events.foldl step (step (contents.events.foldl step (step s (.start name))) (.close name)) := by
  show ((.start name :: contents.events) ++ (.close name :: rest.events)).foldl step s = _
  rw [List.foldl_append]
  rfl

end Forest

end Sarca.Lib.Xml
