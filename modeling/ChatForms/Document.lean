import ChatForms.Tree

namespace ChatForms

/-- An element as it stands in a document, with the numbers of its parent and its children. -/
structure Entry extends Element where
  parent : Option Nat
  children : List Nat
deriving DecidableEq

/-- The elements of a message, numbered in the order in which they begin. The root is number 0. -/
structure Document where
  entries : Array Entry
deriving DecidableEq

namespace Document

def empty : Document := ⟨#[]⟩

def size (d : Document) : Nat := d.entries.size

def get? (d : Document) (i : Nat) : Option Entry := d.entries[i]?

def root? (d : Document) : Option Entry := d.get? 0

/-- A new element becomes the last child of `parent`; its number is the size so far. -/
def attach (d : Document) (e : Element) (parent : Option Nat) : Document :=
  let linked := match parent with
    | some p =>
      d.entries.modify p fun entry => { entry with children := entry.children ++ [d.size] }
    | none => d.entries
  ⟨linked.push { e with parent := parent, children := [] }⟩

def parent? (d : Document) (i : Nat) : Option Nat := d.get? i >>= (·.parent)

def children (d : Document) (i : Nat) : List Nat := ((d.get? i).map (·.children)).getD []

def child? (d : Document) (i n : Nat) : Option Entry := (d.children i)[n]? >>= d.get?

def climb (d : Document) : Nat → Option Nat → List Nat
  | 0, _ => []
  | _, none => []
  | n + 1, some i => i :: d.climb n (d.parent? i)

/-- The way from an element up to the root, both included. It never passes an element twice. -/
def lineage (d : Document) (start : Option Nat) : List Nat := d.climb d.size start

def ancestors (d : Document) (i : Nat) : List Nat := d.lineage (d.parent? i)

/-- The kinds on the way from an element up to the root, nearest first. -/
def lineageKinds (d : Document) (start : Option Nat) : List Kind :=
  (d.lineage start).filterMap fun i => (d.get? i).map (·.kind)

/-- The trees below the entries numbered `start`, `start + 1`, …. Children come after their parents,
so each tree is put together from trees that are already there. -/
def treesFrom (start : Nat) : List Entry → List Tree
  | [] => []
  | e :: rest =>
    let later := treesFrom (start + 1) rest
    .node e.toElement (e.children.filterMap fun c => later[c - (start + 1)]?) :: later

def subtree? (d : Document) (i : Nat) : Option Tree := (treesFrom 0 d.entries.toList)[i]?

/-- The whole message as a tree. -/
def tree (d : Document) : Tree := (d.subtree? 0).getD default

def textContent (d : Document) (i : Nat) : String := ((d.subtree? i).map (·.textContent)).getD ""

/-- The document with all elements as if an author had written them. -/
def forgetOrigin (d : Document) : Document :=
  ⟨d.entries.map fun e => { e with toElement := e.toElement.forgetOrigin }⟩

/-- Equal but for the way in which the elements were written. -/
def Same (d e : Document) : Prop := d.forgetOrigin = e.forgetOrigin

instance (d e : Document) : Decidable (d.Same e) := inferInstanceAs (Decidable (_ = _))

/-- The first number under which two documents differ, apart from how elements were written. -/
def firstDifference? (d e : Document) : Option Nat :=
  (List.range (max d.size e.size)).find? fun i =>
    d.forgetOrigin.get? i ≠ e.forgetOrigin.get? i

end Document
end ChatForms
