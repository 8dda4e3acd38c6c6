import ChatForms.Proofs.Build.Growth
import ChatForms.Proofs.Containment
import ChatForms.Settings.Layers

namespace ChatForms

/-! ### Looser rules -/

namespace Containment

/-- Every field has the policy that it had, or it need no longer stand right below its form. -/
def Loosens (strict loose : Containment) : Prop :=
  ∀ k ∈ Kind.fields, strict.policy? k = loose.policy? k ∨
    strict.policy? k = some .direct ∧ loose.policy? k = some .transitive

instance (strict loose : Containment) : Decidable (strict.Loosens loose) :=
  List.decidableBAll _ _

/-- The fault of a field that does not stand right below a form, as the first rules ask for and the
second ones do not. -/
def IsTooStrict (strict loose : Containment) (fault : Fault) : Prop :=
  ∃ k ∈ Kind.fields, strict.policy? k ≠ loose.policy? k ∧
    fault = .illegalContainment k.tag Kind.form.tag .direct

/-- The rules under which every field may stand anywhere in its form. -/
def loosest : Containment := ⟨fun _ => some .transitive⟩

theorem loosens_loosest (rules : Containment) : rules.Loosens loosest := by
  have hpolicy : ∀ k ∈ Kind.fields, loosest.policy? k = some .transitive ∧
      ∃ p, rules.policy? k = some p := by
    intro k hk
    cases k with
    | message | form | div | text => exact absurd hk (by decide)
    | button | checkbox | personSelector => exact ⟨rfl, _, rfl⟩
  intro k hk
  obtain ⟨hloosest, p, hp⟩ := hpolicy k hk
  rw [hloosest, hp]
  cases p with
  | direct => exact Or.inr ⟨rfl, rfl⟩
  | transitive => exact Or.inl rfl

theorem policy?_eq_none {k : Kind} (h : k ∉ Kind.fields) (rules : Containment) :
    rules.policy? k = none := by
  cases k with
  | message | form | div | text => rfl
  | button | checkbox | personSelector => exact absurd (by decide) h

/-- The override of a kind says nothing about the policies of others. -/
theorem policy?_congr {rules rules' : Containment} {k : Kind}
    (h : rules.overrides k = rules'.overrides k) : rules.policy? k = rules'.policy? k := by
  rw [policy?, policy?, h]

theorem loosens_of_eq {rules rules' : Containment}
    (h : ∀ k ∈ Kind.fields, rules.policy? k = rules'.policy? k) : rules.Loosens rules' :=
  fun k hk => Or.inl (h k hk)

/-- Rules with the same policies are never too strict for each other. -/
theorem not_isTooStrict {rules rules' : Containment}
    (h : ∀ k ∈ Kind.fields, rules.policy? k = rules'.policy? k) (fault : Fault) :
    ¬rules.IsTooStrict rules' fault := by
  rintro ⟨k, hk, hne, -⟩
  exact hne (h k hk)

end Containment

open Containment

theorem Kind.placementFaultBelow?_congr {k : Kind} {rules rules' : Containment}
    (h : rules.policy? k = rules'.policy? k) (above : List Kind) :
    k.placementFaultBelow? rules above = k.placementFaultBelow? rules' above := by
  rw [placementFaultBelow?, placementFaultBelow?, h]

theorem Policy.IsMet.transitive {above : List Kind} (h : direct.IsMet above) :
    Policy.transitive.IsMet above :=
  List.mem_of_mem_head? h

/-- At one place, stricter rules find what looser ones find, or a fault that is due to them
alone. -/
theorem Kind.placementFaultBelow?_loosens {strict loose : Containment} (h : strict.Loosens loose)
    (k : Kind) (above : List Kind) :
    k.placementFaultBelow? strict above = k.placementFaultBelow? loose above ∨
      ∃ fault, strict.IsTooStrict loose fault ∧
        k.placementFaultBelow? strict above = some fault := by
  by_cases hpolicy : strict.policy? k = loose.policy? k
  · exact Or.inl (placementFaultBelow?_congr hpolicy above)
  · have hk : k ∈ Kind.fields := by
      by_contra hk
      exact hpolicy (by rw [policy?_eq_none hk, policy?_eq_none hk])
    obtain ⟨hstrict, hloose⟩ := (h k hk).resolve_left hpolicy
    rw [placementFaultBelow?_within hstrict, placementFaultBelow?_within hloose]
    by_cases hmet : Policy.direct.IsMet above
    · exact Or.inl (by rw [if_pos hmet, if_pos hmet.transitive])
    · exact Or.inr ⟨_, ⟨k, hk, hpolicy, rfl⟩, if_neg hmet⟩

/-! ### Two runs in step -/

/-- The first computation ends as the second one does, unless it ends because its rules are too
strict. -/
def KeepsStep {α : Type} (strict loose : Containment) (x y : Except Fault α) : Prop :=
  x = y ∨ ∃ fault, strict.IsTooStrict loose fault ∧ x = .error fault

namespace KeepsStep
variable {α β : Type} {strict loose : Containment} {x y : Except Fault α}

theorem refl (x : Except Fault α) : KeepsStep strict loose x x := Or.inl rfl

theorem bind {f g : α → Except Fault β} (h : KeepsStep strict loose x y)
    (hnext : ∀ a, KeepsStep strict loose (f a) (g a)) :
    KeepsStep strict loose (x >>= f) (y >>= g) := by
  obtain rfl | ⟨fault, hfault, rfl⟩ := h
  · cases x with
    | error fault => exact refl _
    | ok a => exact hnext a
  · exact Or.inr ⟨fault, hfault, rfl⟩

theorem map (f : α → β) (h : KeepsStep strict loose x y) :
    KeepsStep strict loose (x.map f) (y.map f) := by
  obtain rfl | ⟨fault, hfault, rfl⟩ := h
  · exact refl _
  · exact Or.inr ⟨fault, hfault, rfl⟩

theorem eq_of_ok {a : α} (h : KeepsStep strict loose (.ok a) y) : y = .ok a := by
  obtain h | ⟨_, -, h⟩ := h
  · exact h.symm
  · cases h

end KeepsStep

theorem Candidate.keepsStep_examine {strict loose : Containment} (h : strict.Loosens loose)
    (c : Candidate) (above : List Kind) (own : List Markup) :
    KeepsStep strict loose (c.examine strict above own) (c.examine loose above own) := by
  refine .bind (.refl _) fun attributes => ?_
  obtain heq | ⟨fault, hfault, hplace⟩ := c.kind.placementFaultBelow?_loosens h above
  · rw [heq]
    exact .refl _
  · rw [hplace]
    exact Or.inr ⟨fault, hfault, rfl⟩

namespace Tree

variable {strict loose : Containment}

mutual
theorem keepsStep_ofMarkup (h : strict.Loosens loose) (above : List Kind) (origin : Origin)
    (m : Markup) :
    KeepsStep strict loose (ofMarkup strict above origin m) (ofMarkup loose above origin m) := by
  match m with
  | .text s => exact .refl _
  | .element tag attributes own =>
    rw [ofMarkup, ofMarkup]
    refine .bind (.refl _) fun c => .bind (c.keepsStep_examine h above own) fun e => ?_
    cases c.label with
    | some s => exact .refl _
    | none =>
      exact .bind (keepsStep_ofMarkups h (c.kind :: above) c.origin own) fun ts => .refl _
theorem keepsStep_ofMarkups (h : strict.Loosens loose) (above : List Kind) (origin : Origin)
    (ms : List Markup) :
    KeepsStep strict loose (ofMarkups strict above origin ms)
      (ofMarkups loose above origin ms) := by
  match ms with
  | [] => exact .refl _
  | m :: rest =>
    rw [ofMarkups, ofMarkups]
    exact .bind (keepsStep_ofMarkup h above origin m) fun t =>
      .bind (keepsStep_ofMarkups h above origin rest) fun ts => .refl _
end

theorem keepsStep_ofRoot (h : strict.Loosens loose) (m : Markup) :
    KeepsStep strict loose (ofRoot strict m) (ofRoot loose m) := by
  rw [ofRoot, ofRoot]
  exact .bind (.refl _) fun c => .bind (c.keepsStep_examine h [] m.children) fun e =>
    .bind (keepsStep_ofMarkups h [c.kind] c.origin m.children) fun ts => .refl _

/-- The rules have no say in what grows, only in whether anything does. -/
theorem ofRoot_unique {rules rules' : Containment} {m : Markup} {t t' : Tree}
    (ht : ofRoot rules m = .ok t) (ht' : ofRoot rules' m = .ok t') : t = t' := by
  have hloose : ∀ {rules t}, ofRoot rules m = .ok t → ofRoot loosest m = .ok t := by
    intro rules t ht
    have hstep := keepsStep_ofRoot rules.loosens_loosest m
    rw [ht] at hstep
    exact hstep.eq_of_ok
  exact Except.ok.inj ((hloose ht).symm.trans (hloose ht'))

end Tree

namespace Document

theorem keepsStep_build {strict loose : Containment} (h : strict.Loosens loose) (m : Markup) :
    KeepsStep strict loose (build strict m) (build loose m) := by
  rw [build_eq, build_eq]
  exact (Tree.keepsStep_ofRoot h m).map ofTree

theorem build_congr {rules rules' : Containment}
    (h : ∀ k ∈ Kind.fields, rules.policy? k = rules'.policy? k) (m : Markup) :
    build rules m = build rules' m := by
  obtain heq | ⟨fault, hfault, -⟩ := keepsStep_build (loosens_of_eq h) m
  · exact heq
  · exact absurd hfault (not_isTooStrict h fault)

/-- Looser rules bring the same document or the same fault, unless the stricter rules end with a
field of another policy that does not stand right below a form. Policies of other elements do not
matter, and rules with the same policies are the same, be they those of the settings that hold
unless others are given. -/
theorem build_loosened (m : Markup) :
    (∀ strict loose : Containment, strict.Loosens loose →
      (build strict m = build loose m ∨
        ∃ k ∈ Kind.fields, strict.policy? k ≠ loose.policy? k ∧
          build strict m = .error (.illegalContainment k.tag Kind.form.tag .direct)) ∧
      ∀ d, build strict m = .ok d → build loose m = .ok d) ∧
    (∀ rules rules' : Containment, (∀ k ∈ Kind.fields, rules.overrides k = rules'.overrides k) →
      build rules m = build rules' m) ∧
    (∀ rules rules' : Containment, (∀ k, rules.policy? k = rules'.policy? k) →
      build rules m = build rules' m) ∧
    ∃ s, Settings.Layers.empty.load = .ok s ∧ build s.containment m = build .standard m := by
  refine ⟨fun strict loose h => ⟨?_, fun d hd => ?_⟩, fun rules rules' h => ?_,
    fun rules rules' h => build_congr (fun k _ => h k) m, ?_⟩
  · obtain heq | ⟨_, ⟨k, hk, hne, rfl⟩, hbuild⟩ := keepsStep_build h m
    · exact Or.inl heq
    · exact Or.inr ⟨k, hk, hne, hbuild⟩
  · have hstep := keepsStep_build h m
    rw [hd] at hstep
    exact hstep.eq_of_ok
  · exact build_congr (fun k hk => policy?_congr (h k hk)) m
  · exact ⟨⟨.transitive, .transitive, .direct, "presentationml", true⟩, by rfl,
      build_congr (by decide) m⟩

/-- A message in which a person selector stands in a div of its form. -/
def deepSelector : Markup :=
  .element "messageML" [] [.element "form" [("id", "f")]
    [.element "div" [] [.element "person-selector" [] []]]]

theorem build_loosened_deepSelector :
    (build .standard deepSelector = .error (.illegalContainment "person-selector" "form" .direct) ∧
      (build .standard deepSelector =
          build (Containment.standard.set .personSelector .transitive) deepSelector ∨
        ∃ k ∈ Kind.fields, Containment.standard.policy? k ≠
            (Containment.standard.set .personSelector .transitive).policy? k ∧
          build .standard deepSelector =
            .error (.illegalContainment k.tag Kind.form.tag .direct))) ∧
      build (Containment.standard.set .div .direct) deepSelector = build .standard deepSelector ∧
      build (Containment.standard.set .checkbox .transitive) deepSelector =
        build .standard deepSelector := by
  obtain ⟨hloosened, hothers, hpolicies, -⟩ := build_loosened deepSelector
  have hfault : build .standard deepSelector =
      .error (.illegalContainment "person-selector" "form" .direct) := by decide +kernel
  refine ⟨⟨hfault, (hloosened _ _ (by decide)).1⟩, hothers _ _ (by decide), hpolicies _ _ ?_⟩
  intro k
  cases k <;> rfl

end Document
end ChatForms
