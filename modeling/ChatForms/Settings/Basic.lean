import ChatForms.Containment
import ChatForms.Settings.Value

namespace ChatForms

/-- What the tools can be told: how strictly fields are placed, which format to convert to when
nothing else decides, and whether data is laid out for reading. -/
structure Settings where
  button : Policy
  checkbox : Policy
  personSelector : Policy
  defaultTarget : String
  prettyJson : Bool
deriving DecidableEq, Repr

namespace Settings

def containment (s : Settings) : Containment :=
  ((Containment.standard.set .button s.button).set .checkbox s.checkbox).set .personSelector
    s.personSelector

/-- What holds unless a layer says otherwise. -/
def defaults : Value :=
  .table [
    ("containment", .table [
      ("button", .string "transitive"),
      ("checkbox", .string "transitive"),
      ("person_selector", .string "direct")]),
    ("convert", .table [("default_target", .string "presentationml")]),
    ("inspect", .table [("pretty_json", .bool true)])]

/-- A member of a group of settings, which is a table or else a list in the order of the members. -/
def Value.member? (position : Nat) (name : String) : Value → Option Value
  | .table entries => entries.lookup name
  | .list items => items[position]?
  | _ => none

/-- A policy is named by a text or by the one key of a table, in capital or small letters. -/
def Value.policy? : Value → Option Policy
  | .string name | .table [(name, _)] => Policy.ofLabel? (Text.lower name)
  | _ => none

/-- The settings that a value amounts to, if none is missing or unusable. -/
def ofValue? (v : Value) : Option Settings := do
  let containment ← v.member? 0 "containment"
  let convert ← v.member? 1 "convert"
  let inspect ← v.member? 2 "inspect"
  pure {
    button := ← (containment.member? 0 "button") >>= Value.policy?
    checkbox := ← (containment.member? 1 "checkbox") >>= Value.policy?
    personSelector := ← (containment.member? 2 "person_selector") >>= Value.policy?
    defaultTarget := ← (convert.member? 0 "default_target") >>= Value.text?
    prettyJson := ← (inspect.member? 0 "pretty_json") >>= Value.flag? }

end Settings
end ChatForms
