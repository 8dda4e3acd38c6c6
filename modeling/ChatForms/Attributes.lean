import ChatForms.Contract
import ChatForms.StringMap
import ChatForms.Text.Blank
import ChatForms.Text.Lower

namespace ChatForms

/-- The values of an element, each under the name of its attribute. -/
abbrev Attributes := StringMap String

/-- Listed values are always compared and stored in lower case. -/
def AttributeRule.normalize (r : AttributeRule) (value : String) : String :=
  if r.values.isSome || r.normalization = .lowercase then Text.lower value else value

def Requirement.applies (r : Requirement) (attributes : Attributes) : Bool :=
  match r.provided with
  | some (name, value) => attributes.get? name = some value
  | none => true

def Requirement.isMet (r : Requirement) (attributes : Attributes) : Bool :=
  (r.name :: r.alternatives).any fun name =>
    (attributes.get? name).any fun value => !Text.isBlank value

namespace Kind

/-- The values as written, each in its stored form. The last of several under one name counts. -/
def collectListed (k : Kind) (attributes : Attributes) :
    List (String × String) → Except Fault Attributes
  | [] => .ok attributes
  | (name, value) :: rest =>
    match k.contract.rule? name with
    | some rule => k.collectListed (attributes.insert name (rule.normalize value)) rest
    | none => .error (.unknownAttribute k.tag name)

def addDefaults (attributes : Attributes) (rules : List AttributeRule) : Attributes :=
  rules.foldl
    (fun m r => match r.default with
      | some (.stored value) => m.insertIfNew r.name value
      | _ => m)
    attributes

/-- The stored attributes that written ones stand for. Where no attributes are allowed, an author
is told so, while a rendering is blamed for the one it brings. -/
def collect (k : Kind) (origin : Origin) (written : List (String × String)) :
    Except Fault Attributes :=
  match k.contract.attributes, written, origin with
  | .listed rules, _, _ => (k.collectListed .empty written).map (addDefaults · rules)
  | .forbidden, [], _ => .ok .empty
  | .forbidden, _ :: _, .author => .error (.attributesNotAllowed k.tag)
  | .forbidden, (name, _) :: _, .presentation => .error (.unknownAttribute k.tag name)

def ruleFault? (k : Kind) (attributes : Attributes) (r : AttributeRule) : Option Fault :=
  match r.values, attributes.get? r.name with
  | some set, some value =>
    if set.values.contains value then none
    else some (.invalidAttributeValue k.tag r.name set.values set.style)
  | _, _ => none

def requirementFault? (k : Kind) (attributes : Attributes) (r : Requirement) : Option Fault :=
  if r.applies attributes && !r.isMet attributes then
    some (.missingRequiredAttribute k.tag r.name r.condition)
  else none

/-- The first defect among stored attributes: values outside their sets before missing ones, and
each in the order of the contract. -/
def attributesFault? (k : Kind) (attributes : Attributes) : Option Fault :=
  (k.contract.rules.findSome? (k.ruleFault? attributes)).or
    (k.contract.requirements.findSome? (k.requirementFault? attributes))

end Kind
end ChatForms
