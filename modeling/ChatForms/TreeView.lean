import ChatForms.Document

namespace ChatForms

namespace TreeView

def icon : Kind → String
  | .message => "⧉"
  | .form => "▤"
  | .div => "▢"
  | .button => "⏺"
  | .checkbox => "☑"
  | .personSelector => "☺"
  | .text => "◦"

def maxLabel : Nat := 30

/-- A long text loses its end to an ellipsis. -/
def truncate (s : String) : String :=
  if maxLabel < s.length then String.ofList (s.toList.take (maxLabel - 1)) ++ "…" else s

/-- What an element is, its values in the order of their names, and whether it was rendered. -/
def label (e : Element) : String :=
  (match e.text with
    | some s => "\"" ++ truncate s ++ "\""
    | none => e.kind.tag) ++
  String.join (e.attributes.entries.map fun a => " " ++ a.1 ++ "=" ++ a.2) ++
  if e.origin = .presentation ∧ e.kind ≠ .text then " (pml)" else ""

def line (e : Element) : String := icon e.kind ++ " " ++ label e ++ "\n"

def connector (isLast : Bool) : String := if isLast then "└─" else "├─"

/-- What goes on below an element at the left of its descendants. -/
def rule (isLast : Bool) : String := if isLast then "  " else "│ "

mutual
def drawBelow (margin : String) (isLast : Bool) : Tree → String
  | .node e children =>
    margin ++ connector isLast ++ " " ++ line e ++ drawAll (margin ++ rule isLast) children
def drawAll (margin : String) : List Tree → String
  | [] => ""
  | t :: ts => drawBelow margin ts.isEmpty t ++ drawAll margin ts
end

end TreeView

/-- The document drawn as a tree, an element a line. -/
def Document.treeView (d : Document) : String :=
  TreeView.line d.tree.element ++ TreeView.drawAll "" d.tree.children

end ChatForms
