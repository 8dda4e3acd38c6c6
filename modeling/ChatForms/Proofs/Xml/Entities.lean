import ChatForms.Proofs.Xml.Escape

namespace ChatForms.Xml

/-- The names of the characters that have one. -/
def entityNames : List String := ["amp", "lt", "gt", "quot", "apos"]

/-- How a character is referred to by its name. -/
def entity (name : String) : String := "&" ++ name ++ ";"

/-- The characters in the places of their names, in one pass from left to right. -/
def replaceEntities : List Char → List Char
  | '&' :: 'a' :: 'm' :: 'p' :: ';' :: cs => '&' :: replaceEntities cs
  | '&' :: 'l' :: 't' :: ';' :: cs => '<' :: replaceEntities cs
  | '&' :: 'g' :: 't' :: ';' :: cs => '>' :: replaceEntities cs
  | '&' :: 'q' :: 'u' :: 'o' :: 't' :: ';' :: cs => '"' :: replaceEntities cs
  | '&' :: 'a' :: 'p' :: 'o' :: 's' :: ';' :: cs => '\x27' :: replaceEntities cs
  | c :: cs => c :: replaceEntities cs
  | [] => []

/-- What can be relied on when a text is escaped: it is one pass over its characters, leaves no
markup behind, and can be undone. -/
structure IsEscaping (f : String → String) : Prop where
  onePass : ∀ s, (f s).toList = s.toList.flatMap escapeChar
  append : ∀ s t, f (s ++ t) = f s ++ f t
  unmarked : ∀ s, ∀ c ∈ (f s).toList, isMark c = true → c = '&'
  ampersand : ∀ s before after, (f s).toList = before ++ '&' :: after →
    ∃ name ∈ entityNames, (entity name).toList <+: '&' :: after
  decoded : ∀ s, replaceEntities (f s).toList = s.toList
  injective : ∀ s t, f s = f t → s = t
  again : ∀ name ∈ entityNames, ∀ s t,
    f (s ++ entity name ++ t) = f s ++ "&amp;" ++ name ++ ";" ++ f t
  kept_iff : ∀ s, f s = s ↔ ∀ c ∈ s.toList, isMark c = false

theorem replaceEntities_cons {c : Char} (hc : c ≠ '&') (cs : List Char) :
    replaceEntities (c :: cs) = c :: replaceEntities cs := by
  rw [replaceEntities]
  all_goals exact fun _ h => absurd h hc

/-- Every character of an escaped text comes back. -/
theorem replaceEntities_escape (cs : List Char) :
    replaceEntities (cs.flatMap escapeChar) = cs := by
  induction cs with
  | nil => rfl
  | cons c cs ih =>
    rw [List.flatMap_cons]
    rcases escapeChar_cases c with hmark | ⟨hc, hescape⟩
    · rcases hmark with rfl | rfl | rfl | rfl | rfl <;>
        exact congrArg (List.cons _) ih
    · have hamp : c ≠ '&' := by
        rintro rfl
        cases hc
      rw [hescape, List.singleton_append, replaceEntities_cons hamp, ih]

/-- Only the first character of what is written for one can be an ampersand, and then it begins an
entity. -/
theorem escapeChar_eq_cons (c : Char) : ∃ x tail, escapeChar c = x :: tail ∧ '&' ∉ tail ∧
    (x = '&' → ∃ name ∈ entityNames, escapeChar c = (entity name).toList) := by
  rcases escapeChar_cases c with hmark | ⟨hc, hescape⟩
  · rcases hmark with rfl | rfl | rfl | rfl | rfl
    · exact ⟨_, _, rfl, by decide, fun _ => ⟨"amp", by decide, rfl⟩⟩
    · exact ⟨_, _, rfl, by decide, fun _ => ⟨"lt", by decide, rfl⟩⟩
    · exact ⟨_, _, rfl, by decide, fun _ => ⟨"gt", by decide, rfl⟩⟩
    · exact ⟨_, _, rfl, by decide, fun _ => ⟨"quot", by decide, rfl⟩⟩
    · exact ⟨_, _, rfl, by decide, fun _ => ⟨"apos", by decide, rfl⟩⟩
  · refine ⟨c, [], hescape, List.not_mem_nil, ?_⟩
    rintro rfl
    cases hc

/-- Every ampersand of an escaped text begins an entity. -/
theorem exists_entity {cs before after : List Char}
    (h : cs.flatMap escapeChar = before ++ '&' :: after) :
    ∃ name ∈ entityNames, (entity name).toList <+: '&' :: after := by
  induction cs generalizing before with
  | nil => simp at h
  | cons c cs ih =>
    obtain ⟨x, tail, hescape, htail, hentity⟩ := escapeChar_eq_cons c
    rw [List.flatMap_cons] at h
    cases before with
    | nil =>
      rw [List.nil_append] at h
      have hx : x = '&' := by
        rw [hescape, List.cons_append] at h
        exact List.head_eq_of_cons_eq h
      obtain ⟨name, hname, heq⟩ := hentity hx
      exact ⟨name, hname, heq ▸ h ▸ List.prefix_append _ _⟩
    | cons y before =>
      rw [hescape, List.cons_append, List.cons_append, List.cons.injEq] at h
      rcases List.append_eq_append_iff.mp h.2 with ⟨_, -, hrest⟩ | ⟨own, htaileq, hrest⟩
      · exact ih hrest
      · cases own with
        | nil => exact @ih [] hrest.symm
        | cons z own =>
          -- the ampersand would stand inside an entity
          refine absurd ?_ htail
          rw [htaileq, List.head_eq_of_cons_eq hrest]
          simp

theorem toList_escape_append (s t : String) : escape (s ++ t) = escape s ++ escape t := by
  simp [escape_eq]

theorem escape_entity : ∀ name ∈ entityNames, escape (entity name) = "&amp;" ++ name ++ ";" := by
  decide

theorem length_le_escape (cs : List Char) : cs.length ≤ (cs.flatMap escapeChar).length := by
  induction cs with
  | nil => exact Nat.le_refl _
  | cons c cs ih =>
    obtain ⟨x, tail, hescape, -⟩ := escapeChar_eq_cons c
    rw [List.flatMap_cons, hescape, List.length_append, List.length_cons, List.length_cons]
    omega

/-- Text with a mark in it gets longer, so only text without one is written as it stands. -/
theorem escape_eq_self_iff {cs : List Char} :
    cs.flatMap escapeChar = cs ↔ ∀ c ∈ cs, isMark c = false := by
  induction cs with
  | nil => simp
  | cons c cs ih =>
    rw [List.flatMap_cons, List.forall_mem_cons]
    rcases escapeChar_cases c with hmark | ⟨hc, hescape⟩
    · have hlonger : 1 < (escapeChar c).length := by
        rcases hmark with rfl | rfl | rfl | rfl | rfl <;> decide
      have hrest := length_le_escape cs
      constructor
      · intro h
        have hlength := congrArg List.length h
        rw [List.length_append, List.length_cons] at hlength
        omega
      · rintro ⟨hc, -⟩
        rcases hmark with rfl | rfl | rfl | rfl | rfl <;> cases hc
    · rw [hescape, List.singleton_append, List.cons_inj_right, ih]
      exact (and_iff_right hc).symm

/-- Escaping is one pass over the characters of a text, though it is done by one replacement after
the other, and nothing is lost by it. -/
theorem isEscaping_escape : IsEscaping escape := by
  have hdecoded : ∀ s, replaceEntities (escape s).toList = s.toList := by
    intro s
    rw [toList_escape, replaceEntities_escape]
  constructor
  case onePass => exact toList_escape
  case append => exact toList_escape_append
  case unmarked =>
    intro s c hc hmark
    rw [toList_escape] at hc
    by_cases hamp : c = '&'
    · exact hamp
    · exact absurd hc (not_mem_escape hmark hamp)
  case ampersand =>
    intro s before after h
    rw [toList_escape] at h
    exact exists_entity h
  case decoded => exact hdecoded
  case injective =>
    intro s t h
    rw [← String.toList_inj, ← hdecoded s, h, hdecoded t]
  case again =>
    intro name hname s t
    rw [toList_escape_append, toList_escape_append, escape_entity name hname]
    simp only [String.append_assoc]
  case kept_iff =>
    intro s
    rw [← String.toList_inj, toList_escape, escape_eq_self_iff]

end ChatForms.Xml
