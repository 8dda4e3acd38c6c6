import ChatForms.Containment
import ChatForms.Recognition

namespace ChatForms.Document

/-- An element joins the document if nothing is wrong with it: its attribute names, its place, its
values and its content, examined in this order. -/
def accept (d : Document) (rules : Containment) (parent : Option Nat) (c : Candidate)
    (own : List Markup) : Except Fault Document := do
  let attributes ← c.kind.collect c.origin c.attributes
  if let some fault := c.kind.placementFault? rules d parent then throw fault
  if let some fault := c.kind.attributesFault? attributes then throw fault
  if let some fault := c.kind.contentFault? c.origin (c.children own) then throw fault
  pure (d.attach ⟨c.kind, attributes, none, c.origin⟩ parent)

mutual
/-- A child of an element joins the document, followed by all that is below it. Text belongs to the
element around it and counts as written the same way. -/
def add (rules : Containment) (parent : Nat) (origin : Origin) (d : Document) :
    Markup → Except Fault Document
  | .text s => .ok (d.attach (.ofText s origin) (some parent))
  | .element tag attributes own => do
    let c ← Candidate.ofInner (.element tag attributes own)
    let accepted ← d.accept rules (some parent) c own
    match c.label with
    | some s => pure (accepted.attach (.ofText s c.origin) (some d.size))
    | none => addAll rules d.size c.origin accepted own
def addAll (rules : Containment) (parent : Nat) (origin : Origin) (d : Document) :
    List Markup → Except Fault Document
  | [] => .ok d
  | m :: rest => do addAll rules parent origin (← add rules parent origin d m) rest
end

/-- The document that markup stands for, or the first defect in the order of the text. -/
def build (rules : Containment) (m : Markup) : Except Fault Document := do
  let c ← Candidate.ofRoot m
  let d ← Document.empty.accept rules none c m.children
  addAll rules 0 c.origin d m.children

end ChatForms.Document
