import ChatForms.Contract
import ChatForms.Markup

namespace ChatForms

/-- One part of a pattern of children: elements of one tag, with the least and the greatest number
of them. -/
structure PatternPart where
  tag : String
  min : Nat
  max : Nat
deriving DecidableEq, Repr

abbrev Pattern := List PatternPart

namespace Pattern

/-- One input and perhaps one label. -/
def checkboxGroup : Pattern := [⟨"input", 1, 1⟩, ⟨"label", 0, 1⟩]

/-- The part that takes elements of a tag: the first one with it. -/
def partFor? (p : Pattern) (tag : String) : Option Nat := p.findIdx? fun part => part.tag = tag

/-- Children with their numbers. -/
def numbered (children : List Markup) : List (Nat × Markup) :=
  children.zipIdx.map fun c => (c.2, c.1)

/-- The slots of the parts with one more child, which comes with its number among all children. An
element goes to the end of the slot of its part. Blank text does not count; other text and tags
outside the pattern spoil it. -/
def place? (p : Pattern) (slots : List (List (Nat × Markup))) (child : Nat × Markup) :
    Option (List (List (Nat × Markup))) :=
  match child.2.tag? with
  | some tag => (p.partFor? tag).map fun part => slots.modify part (· ++ [child])
  | none => if child.2.isBlankText then some slots else none

/-- The children divided among the parts, provided every part gets as many as it takes. -/
def match? (p : Pattern) (children : List Markup) : Option (List (List (Nat × Markup))) := do
  let slots ← (numbered children).foldlM p.place? (p.map fun _ => [])
  if (p.zip slots).all fun s => s.1.min ≤ s.2.length && s.2.length ≤ s.1.max then some slots
  else none

end Pattern

namespace Kind

/-- What is wrong with the children of an element as they were written. A rendering is only told
that it is malformed, since what was rendered may not show in it. -/
def contentFault? (k : Kind) (origin : Origin) (children : List Markup) : Option Fault :=
  let blame (fault : Fault) : Option Fault :=
    match origin with
    | .author => some fault
    | .presentation => some (.invalidPresentation k.tag)
  match k.contract.content with
  | .any => none
  | .empty => if children.isEmpty then none else some (.contentNotAllowed k.tag)
  | .text required =>
    match children.findSome? Markup.tag? with
    | some child => blame (.elementNotAllowed k.tag child)
    | none =>
      if 1 < children.length then blame (.fragmentedText k.tag)
      else if required && Markup.textContents children = "" then blame (.missingText k.tag)
      else none

end Kind
end ChatForms
