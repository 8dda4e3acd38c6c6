import ChatForms.Fault

namespace ChatForms

/-- How a value is stored. -/
inductive Normalization where
  | verbatim | lowercase
deriving DecidableEq, Repr

/-- The values that an attribute may take, and how a message lists them. -/
structure ValueSet where
  values : List String
  style : ValueStyle
deriving DecidableEq, Repr

/-- A default that is stored when the attribute is missing, or one that is only understood. -/
inductive Default where
  | stored (value : String)
  | implicit (value : String)
deriving DecidableEq, Repr

def Default.value : Default → String
  | stored value | implicit value => value

structure AttributeRule where
  name : String
  normalization : Normalization
  values : Option ValueSet
  default : Option Default
deriving DecidableEq, Repr

def AttributeRule.plain (name : String) : AttributeRule := ⟨name, .verbatim, none, none⟩

def AttributeRule.lowercase (name : String) : AttributeRule := ⟨name, .lowercase, none, none⟩

/-- The attribute or one of the alternatives must have a value that is not blank, provided that
another attribute has a certain value. -/
structure Requirement where
  name : String
  alternatives : List String
  provided : Option (String × String)
  condition : Option String
deriving DecidableEq, Repr

def Requirement.always (name : String) : Requirement := ⟨name, [], none, none⟩

inductive AttributeSet where
  | listed (rules : List AttributeRule)
  | forbidden
deriving DecidableEq, Repr

/-- Where an element may stand. -/
inductive Placement where
  | root
  | anywhere (nestable : Bool)
  | within (container : Kind) (policy : Policy)
deriving DecidableEq, Repr

/-- What may stand inside an element. -/
inductive ContentModel where
  | any
  | empty
  | text (required : Bool)
deriving DecidableEq, Repr

/-- All that is asked of the elements of one kind. -/
structure Contract where
  attributes : AttributeSet
  requirements : List Requirement
  placement : Placement
  content : ContentModel
deriving DecidableEq, Repr

def Contract.rules (c : Contract) : List AttributeRule :=
  match c.attributes with
  | .listed rules => rules
  | .forbidden => []

def Contract.rule? (c : Contract) (name : String) : Option AttributeRule :=
  c.rules.find? fun r => r.name = name

namespace Kind

def buttonRules : List AttributeRule :=
  [.lowercase "name",
   .lowercase "id",
   ⟨"type", .lowercase, some ⟨["action", "reset"], .prose⟩, some (.stored "action")⟩,
   ⟨"class", .lowercase,
     some ⟨["primary", "secondary", "primary-destructive", "secondary-destructive"], .prose⟩, none⟩]

def checkboxRules : List AttributeRule :=
  [.plain "name",
   ⟨"value", .verbatim, none, some (.stored "on")⟩,
   ⟨"checked", .lowercase, some ⟨["true", "false"], .bracketed⟩, some (.implicit "false")⟩]

def contract : Kind → Contract
  | message => ⟨.listed [], [], .root, .any⟩
  | form => ⟨.listed [.plain "id"], [.always "id"], .anywhere false, .any⟩
  | div => ⟨.listed [.plain "class"], [], .anywhere true, .any⟩
  | button =>
    ⟨.listed buttonRules,
      [⟨"name", ["id"], some ("type", "action"), some "generic action buttons"⟩],
      .within form .transitive, .text true⟩
  | checkbox =>
    ⟨.listed checkboxRules, [.always "name"], .within form .transitive, .text false⟩
  | personSelector => ⟨.forbidden, [], .within form .direct, .empty⟩
  | text => ⟨.forbidden, [], .anywhere true, .empty⟩

end Kind
end ChatForms
