import ChatForms.Proofs.Build.Growth
import ChatForms.Proofs.Document.Spaces
import ChatForms.Proofs.Recognition

namespace ChatForms

/-! ### Content -/

/-- The children that may be written below an element of a kind. -/
def Kind.Admits (k : Kind) (children : List Markup) : Prop :=
  match k.contract.content with
  | .any => True
  | .empty => children = []
  | .text required =>
    (children = [] ∧ required = false) ∨ ∃ s, children = [.text s] ∧ (required = true → s ≠ "")

/-- The children that stand below an element of a kind. -/
def Kind.Holds (k : Kind) (children : List Tree) : Prop :=
  match k.contract.content with
  | .any => True
  | .empty => children = []
  | .text required =>
    (children = [] ∧ required = false) ∨
      ∃ s origin, children = [.node (.ofText s origin) []] ∧ (required = true → s ≠ "")

theorem Kind.contentFault?_eq_none_iff {k : Kind} {origin : Origin} {children : List Markup} :
    k.contentFault? origin children = none ↔ k.Admits children := by
  unfold contentFault? Admits
  cases k.contract.content with
  | any => simp
  | empty => cases children <;> simp
  | text required =>
    match children with
    | [] => cases required <;> cases origin <;> simp [Markup.textContents]
    | [.element tag attributes own] => cases origin <;> simp [Markup.tag?]
    | [.text s] =>
      cases required <;> cases origin <;>
        simp [Markup.tag?, Markup.textContents, Markup.textContent]
    | a :: b :: rest =>
      cases (a :: b :: rest).findSome? Markup.tag? <;> cases origin <;> simp

theorem Kind.holds_button {children : List Tree} (h : button.Holds children) :
    ∃ s origin, children = [.node (.ofText s origin) []] ∧ s ≠ "" := by
  rcases h with ⟨-, h⟩ | ⟨s, origin, hs, hne⟩
  · cases h
  · exact ⟨s, origin, hs, hne rfl⟩

theorem Kind.holds_checkbox {children : List Tree} (h : checkbox.Holds children) :
    children = [] ∨ ∃ s origin, children = [.node (.ofText s origin) []] := by
  rcases h with ⟨h, -⟩ | ⟨s, origin, hs, -⟩
  · exact Or.inl h
  · exact Or.inr ⟨s, origin, hs⟩

theorem Kind.above_of_message {rules : Containment} {above : List Kind}
    (h : message.placementFaultBelow? rules above = none) : above = [] := by
  cases above with
  | nil => rfl
  | cons _ _ => cases h

/-- What holds of an element of a document: it would pass the examination in its place. -/
structure Element.Fits (e : Element) (rules : Containment) (above : List Kind)
    (children : List Tree) : Prop where
  stores : e.kind.Stores e.attributes
  placed : e.kind.placementFaultBelow? rules above = none
  valued : e.kind.attributesFault? e.attributes = none
  holds : e.kind.Holds children
  worded : e.text.isSome ↔ e.kind = .text

/-- An element that fits passes once more, however it counts as written. -/
theorem Element.Fits.passes_of_collect {e : Element} {rules : Containment} {above : List Kind}
    {children : List Tree} (h : e.Fits rules above children) (htext : e.kind ≠ .text)
    {c : Candidate} {own : List Markup} (hkind : e.kind = c.kind)
    (hcollect : e.kind.collect c.origin c.attributes = .ok e.attributes)
    (hadmits : c.kind.Admits (c.children own)) :
    c.Passes rules above own { e with origin := c.origin } := by
  refine ⟨hkind, rfl, ?_, hkind ▸ hcollect, hkind ▸ h.placed, hkind ▸ h.valued, ?_⟩
  · cases hs : e.text with
    | none => rfl
    | some s => exact absurd (h.worded.mp (by rw [hs]; rfl)) htext
  · exact Kind.contentFault?_eq_none_iff.mpr hadmits

namespace Tree

/-- Every element fits below the elements around it. -/
inductive Valid (rules : Containment) : List Kind → Tree → Prop where
  | node {above : List Kind} {e : Element} {children : List Tree}
      (fits : e.Fits rules above children)
      (inside : ∀ t ∈ children, Valid rules (e.kind :: above) t) :
      Valid rules above (.node e children)

theorem Valid.eq_ofText {rules : Containment} {above : List Kind} {t : Tree}
    (h : t.Valid rules above) (hkind : t.element.kind = .text) :
    ∃ s origin, t = .node (.ofText s origin) [] := by
  cases h with
  | @node _ e children fits _ =>
    obtain ⟨kind, attributes, text, origin⟩ := e
    obtain rfl : kind = .text := hkind
    obtain ⟨s, rfl⟩ := Option.isSome_iff_exists.mp (fits.worded.mpr rfl)
    obtain rfl : children = [] := fits.holds
    have hattributes : attributes = .empty := fits.stores.eq_empty rfl
    exact ⟨s, origin, by rw [hattributes]; rfl⟩

theorem fits_ofText (rules : Containment) (above : List Kind) (s : String) (origin : Origin) :
    (Element.ofText s origin).Fits rules above [] := by
  refine ⟨⟨?_, ?_⟩, rfl, rfl, rfl, ?_⟩
  · intro name value h
    cases h
  · intro rule h
    cases h
  · simp [Element.ofText]

/-- An element that has passed fits, once its children have grown. -/
theorem fits_of_passes {rules : Containment} {above : List Kind} {m : Markup} {own : List Markup}
    {c : Candidate} {e : Element} {ts : List Tree} (hc : Candidate.ofInner m = .ok c)
    (he : c.Passes rules above own e)
    (hts : List.Forall₂ (fun m t => ∀ s, m = .text s → t = .node (.ofText s c.origin) [])
      (c.children own) ts) : e.Fits rules above ts := by
  have hkind := he.kind
  refine ⟨?_, ?_, ?_, ?_, ?_⟩
  · exact hkind ▸ Kind.stores_of_collect he.collected
  · exact hkind ▸ he.placed
  · exact hkind ▸ he.valued
  · have hadmits := Kind.contentFault?_eq_none_iff.mp he.filled
    rw [Kind.Admits] at hadmits
    rw [Kind.Holds, hkind]
    split
    · trivial
    · next hempty =>
      simp only [hempty] at hadmits
      rw [hadmits] at hts
      exact List.forall₂_nil_left_iff.mp hts
    · next required htext =>
      simp only [htext] at hadmits
      rcases hadmits with ⟨hnil, hrequired⟩ | ⟨s, hs, hrequired⟩
      · rw [hnil] at hts
        exact Or.inl ⟨List.forall₂_nil_left_iff.mp hts, hrequired⟩
      · rw [hs] at hts
        obtain ⟨t, _, ht, hnil, rfl⟩ := List.forall₂_cons_left_iff.mp hts
        cases hnil
        exact Or.inr ⟨s, c.origin, by rw [ht s rfl], hrequired⟩
  · simp [he.text, hkind, Candidate.kind_ne_text hc]

theorem valid_of_ofMarkup {rules : Containment} {above : List Kind} {origin : Origin} {m : Markup}
    {t : Tree} (h : ofMarkup rules above origin m = .ok t) : t.Valid rules above := by
  have hgrown := growth_induction (motive := fun above origin m t =>
    t.Valid rules above ∧ ∀ s, m = .text s → t = .node (.ofText s origin) []) ?_ ?_ h
  · exact hgrown.1
  · intro above origin s
    refine ⟨.node (fits_ofText rules above s origin) (by simp), ?_⟩
    rintro _ ⟨⟩
    rfl
  · intro above origin tag attributes own c e ts hc he hts
    refine ⟨.node (fits_of_passes hc he (hts.imp fun _ _ h => h.2)) ?_, nofun⟩
    rw [he.kind]
    intro t ht
    obtain ⟨_, -, hvalid, -⟩ := exists_of_forall₂ hts ht
    exact hvalid

/-! ### Whole messages -/

theorem candidate_of_ofRoot {m : Markup} {c : Candidate} (h : Candidate.ofRoot m = .ok c) :
    c.kind = .message ∧ c.label = none ∧
      (m.tag? ≠ some Kind.message.tag → c.origin = .presentation) := by
  rcases Candidate.ofRoot_cases h with rfl | ⟨htag, rfl⟩
  · exact ⟨rfl, rfl, fun _ => rfl⟩
  · exact ⟨rfl, rfl, fun hne => absurd htag hne⟩

/-- The root of a message has no attributes but those of an envelope. -/
theorem mem_names_of_ofRoot {rules : Containment} {above : List Kind} {own : List Markup}
    {m : Markup} {c : Candidate} {e : Element} (hc : Candidate.ofRoot m = .ok c)
    (he : c.Passes rules above own e) {a : String × String} (ha : a ∈ m.attributes) :
    a.1 ∈ [Presentation.formatAttribute, Presentation.versionAttribute] := by
  by_contra hother
  have hwritten : a ∈ c.attributes := by
    rcases Candidate.ofRoot_cases hc with rfl | ⟨-, rfl⟩
    · exact List.mem_filter.mpr ⟨ha, by simpa using hother⟩
    · exact ha
  obtain ⟨listed, hlisted, -⟩ := Kind.exists_of_collect he.collected
  have hrule := Kind.listed_of_collectListed hlisted a hwritten
  rw [(candidate_of_ofRoot hc).1] at hrule
  cases hrule

/-- The way in which a whole tree grows. -/
theorem ofRoot_eq_ok {rules : Containment} {m : Markup} {t : Tree} :
    ofRoot rules m = .ok t ↔
      ∃ c e ts, Candidate.ofRoot m = .ok c ∧ c.Passes rules [] m.children e ∧
        List.Forall₂ (fun m t => ofMarkup rules [c.kind] c.origin m = .ok t) m.children ts ∧
        t = .node e ts := by
  simp only [ofRoot, bind_eq_ok, Candidate.examine_eq_ok, ← ofMarkups_eq_ok]
  constructor
  · rintro ⟨c, hc, e, he, ts, hts, h⟩
    cases h
    exact ⟨c, e, ts, hc, he, hts, rfl⟩
  · rintro ⟨c, e, ts, hc, he, hts, rfl⟩
    exact ⟨c, hc, e, he, ts, hts, rfl⟩

theorem valid_of_ofRoot {rules : Containment} {m : Markup} {t : Tree}
    (h : ofRoot rules m = .ok t) : t.Valid rules [] ∧ t.element.kind = .message := by
  obtain ⟨c, e, ts, hc, he, hts, rfl⟩ := ofRoot_eq_ok.mp h
  obtain ⟨hmessage, -⟩ := candidate_of_ofRoot hc
  have hkind : e.kind = .message := he.kind.trans hmessage
  refine ⟨.node ⟨?_, ?_, ?_, ?_, ?_⟩ ?_, hkind⟩
  · exact he.kind ▸ Kind.stores_of_collect he.collected
  · exact he.kind ▸ he.placed
  · exact he.kind ▸ he.valued
  · rw [hkind]
    trivial
  · simp [he.text, hkind]
  · intro t ht
    obtain ⟨m', -, hm'⟩ := exists_of_forall₂ hts ht
    exact he.kind ▸ valid_of_ofMarkup hm'

/-! ### Spaces for line ends -/

theorem map_spaced_ofText (s : String) (origin : Origin) :
    (Element.ofText s origin).spaced = Element.ofText s origin := rfl

/-- A document with spaces for its line ends is as good as it was. -/
theorem Valid.spaced {rules : Containment} {above : List Kind} {t : Tree}
    (h : t.Valid rules above) : (t.map Element.spaced).Valid rules above := by
  induction h with
  | @node above e children fits _ ih =>
    rw [Tree.map]
    refine .node ⟨fits.stores.spaced, fits.placed, Kind.attributesFault?_spaced fits.valued, ?_,
      fits.worded⟩ ?_
    · have hholds := fits.holds
      rw [Kind.Holds] at hholds ⊢
      simp only [Element.spaced]
      split
      · trivial
      · next hempty =>
        simp only [hempty] at hholds
        rw [hholds]
        rfl
      · next required htext =>
        simp only [htext] at hholds
        rcases hholds with ⟨rfl, hrequired⟩ | ⟨s, origin, rfl, hrequired⟩
        · exact Or.inl ⟨rfl, hrequired⟩
        · refine Or.inr ⟨s, origin, ?_, hrequired⟩
          simp [Tree.map, map_spaced_ofText]
    · intro t ht
      obtain ⟨t', ht', rfl⟩ := List.mem_map.mp ht
      exact ih t' ht'

end Tree
end ChatForms
