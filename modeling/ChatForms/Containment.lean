import ChatForms.Document

namespace ChatForms

/-- The containment policies that differ from those of the contracts, or repeat them. -/
structure Containment where
  overrides : Kind → Option Policy

namespace Containment

def standard : Containment := ⟨fun _ => none⟩

def set (c : Containment) (k : Kind) (p : Policy) : Containment :=
  ⟨fun other => if other = k then some p else c.overrides other⟩

/-- No policy has been set, not even one that repeats a contract. -/
def isPristine (c : Containment) : Bool := Kind.all.all fun k => (c.overrides k).isNone

/-- The policy in force; only kinds with a required container have one. -/
def policy? (c : Containment) (k : Kind) : Option Policy :=
  match k.contract.placement with
  | .within _ policy => some ((c.overrides k).getD policy)
  | _ => none

end Containment

namespace Kind

/-- What is wrong with an element below elements of the kinds `above`, nearest first. The list is
empty above the root. -/
def placementFaultBelow? (k : Kind) (rules : Containment) (above : List Kind) : Option Fault :=
  match k.contract.placement with
  | .root => if above.isEmpty then none else some (.rootOnly k.tag)
  | .anywhere nestable =>
    if nestable || !above.contains k then none else some (.nestedElement k.tag)
  | .within container standard =>
    let policy := (rules.policy? k).getD standard
    let isContained : Bool := match policy with
      | .direct => above.head? == some container
      | .transitive => above.contains container
    if isContained then none else some (.illegalContainment k.tag container.tag policy)

/-- What is wrong with a new element below `parent`. -/
def placementFault? (k : Kind) (rules : Containment) (d : Document) (parent : Option Nat) :
    Option Fault :=
  k.placementFaultBelow? rules (d.lineageKinds parent)

end Kind
end ChatForms
