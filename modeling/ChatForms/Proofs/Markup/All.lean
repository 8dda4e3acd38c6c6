import ChatForms.Markup

namespace ChatForms.Markup

/-- A property holds of markup and of everything inside it. -/
inductive All (P : Markup → Prop) : Markup → Prop where
  | text {s : String} (self : P (text s)) : All P (text s)
  | element {tag : String} {attributes : List (String × String)} {children : List Markup}
      (self : P (element tag attributes children)) (inside : ∀ m ∈ children, All P m) :
      All P (element tag attributes children)

namespace All
variable {P Q : Markup → Prop} {m : Markup}

theorem self (h : All P m) : P m := by cases h <;> assumption

theorem inside (h : All P m) : ∀ c ∈ m.children, All P c := by
  cases h with
  | text _ => simp [children]
  | element _ inside => exact inside

theorem imp (h : ∀ m, P m → Q m) (hm : All P m) : All Q m := by
  induction hm with
  | text self => exact text (h _ self)
  | element self _ ih => exact element (h _ self) ih

theorem and (hP : All P m) (hQ : All Q m) : All (fun m => P m ∧ Q m) m := by
  induction hP with
  | text self => exact text ⟨self, hQ.self⟩
  | element self _ ih => exact element ⟨self, hQ.self⟩ fun c hc => ih c hc (hQ.inside c hc)

end All

/-- What is handed on from the children to every element holds of all markup. -/
theorem induction {motive : Markup → Prop} (text : ∀ s, motive (text s))
    (element : ∀ tag attributes children, (∀ m ∈ children, motive m) →
      motive (element tag attributes children)) (m : Markup) : motive m := by
  match m with
  | .text s => exact text s
  | .element tag attributes children =>
    refine element tag attributes children fun m hm => ?_
    have := List.sizeOf_lt_of_mem hm
    exact induction text element m

end ChatForms.Markup
