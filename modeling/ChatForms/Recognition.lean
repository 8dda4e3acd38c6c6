import ChatForms.Content
import ChatForms.Text.Lower

namespace ChatForms

/-- An element that markup stands for, not examined yet. A label that was gathered from the markup
takes the place of its children. -/
structure Candidate where
  kind : Kind
  attributes : List (String × String)
  label : Option String
  origin : Origin
deriving DecidableEq

namespace Candidate

def children (c : Candidate) (own : List Markup) : List Markup :=
  match c.label with
  | some s => [.text s]
  | none => own

/-- The markup is the element as it stands. -/
def asWritten (k : Kind) (m : Markup) : Candidate := ⟨k, m.attributes, none, .author⟩

end Candidate

namespace Presentation

def formatAttribute : String := "data-format"

def formatName : String := "PresentationML"

def versionAttribute : String := "data-version"

def version : String := "2.0"

def groupClass : String := "checkbox-group"

def selectorClass : String := "person-selector"

/-- The wrapper of a whole rendering. One without a version is read as the current one. -/
def envelope? (m : Markup) : Except Fault (Option Candidate) :=
  let reject (name value : String) : Except Fault (Option Candidate) :=
    .error (.invalidAttributeValue Kind.div.tag name [value] .bracketed)
  if m.tag? ≠ some Kind.div.tag then .ok none
  else match m.attribute? formatAttribute with
    | some format =>
      if format ≠ formatName then reject formatAttribute formatName
      else if (m.attribute? versionAttribute).any (· ≠ version) then
        reject versionAttribute version
      else
        .ok (some ⟨.message, Markup.without [formatAttribute, versionAttribute] m.attributes, none,
          .presentation⟩)
    | none => .ok none

def isCheckboxInput (m : Markup) : Bool :=
  (m.attribute? "type").any fun type => Text.lowerAscii type = "checkbox"

/-- Any other class would be lost when the element is rendered again. -/
def hasOnlyClass (m : Markup) (name : String) : Bool := m.classes.all (· = name)

def invalidCheckbox : Fault := .invalidPresentation Kind.checkbox.tag

/-- The text of a label, which has neither attributes nor elements. -/
def labelText? (m : Markup) : Option String :=
  if m.attributes.isEmpty && m.children.all fun c => c.tag?.isNone then some m.textContent else none

/-- A checkbox with its label, empty if none is written. The shape is settled before any attribute
is looked at. -/
def checkboxGroup (m : Markup) : Except Fault Candidate := do
  if !hasOnlyClass m groupClass then throw invalidCheckbox
  match Pattern.checkboxGroup.match? m.children with
  | some [[(_, input)], labels] =>
    if !isCheckboxInput input || !input.children.isEmpty then throw invalidCheckbox
    match labels.mapM fun l => labelText? l.2 with
    | some texts =>
      pure ⟨.checkbox,
        Markup.without ["class"] m.attributes ++ Markup.without ["type"] input.attributes,
        some (String.join texts), .presentation⟩
    | none => throw invalidCheckbox
  | _ => throw invalidCheckbox

/-- A checkbox without a label. -/
def bareCheckbox (m : Markup) : Except Fault Candidate :=
  if m.children.isEmpty then
    .ok ⟨.checkbox, Markup.without ["type"] m.attributes, none, .presentation⟩
  else .error invalidCheckbox

def personSelector (m : Markup) : Except Fault Candidate :=
  if hasOnlyClass m selectorClass then
    .ok ⟨.personSelector, Markup.without ["class"] m.attributes, none, .presentation⟩
  else .error (.invalidPresentation Kind.personSelector.tag)

/-- A rendered field, or nothing where the markup bears no mark of one. -/
def field? (m : Markup) : Except Fault (Option Candidate) :=
  if m.tag? = some "div" && m.hasClass groupClass then some <$> checkboxGroup m
  else if m.tag? = some "div" && m.hasClass selectorClass then some <$> personSelector m
  else if m.tag? = some "input" && isCheckboxInput m then some <$> bareCheckbox m
  else .ok none

end Presentation

namespace Candidate

/-- What the root of a message stands for. -/
def ofRoot (m : Markup) : Except Fault Candidate := do
  match ← Presentation.envelope? m with
  | some c => pure c
  | none =>
    if m.tag? = some Kind.message.tag then pure (asWritten .message m)
    else throw (.invalidRoot (m.tag?.getD Kind.text.tag))

/-- What an element below the root stands for. -/
def ofInner (m : Markup) : Except Fault Candidate := do
  match ← Presentation.field? m with
  | some c => pure c
  | none =>
    let tag := m.tag?.getD ""
    match Kind.ofTag? tag with
    | some k => pure (asWritten k m)
    | none => throw (.unknownElement tag)

end Candidate
end ChatForms
