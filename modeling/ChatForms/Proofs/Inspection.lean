import ChatForms.Inspection
import ChatForms.Proofs.Build.Growth
import ChatForms.Proofs.Json
import ChatForms.Proofs.StringMap

namespace ChatForms

theorem Kind.label_inj {k k' : Kind} (h : k.label = k'.label) : k = k' := by
  have hread : ∀ k, ofLabel? (label k) = some k := by
    intro k
    cases k <;> decide
  have hk := congrArg ofLabel? h
  rw [hread, hread] at hk
  exact Option.some.inj hk

theorem Origin.label_inj {o o' : Origin} (h : o.label = o'.label) : o = o' := by
  have hread : ∀ o, ofLabel? (label o) = some o := by
    intro o
    cases o <;> decide
  have ho := congrArg ofLabel? h
  rw [hread, hread] at ho
  exact Option.some.inj ho

namespace Inspection

/-- The members of the record of an element. -/
def members (e : Element) (children : List Tree) : List (String × Json) :=
  [("kind", .string e.kind.label)] ++ attributesMember e.attributes ++ textMember e.text ++
    [("origin", .string e.origin.label)] ++
    if children.isEmpty then [] else [("children", .list (dataAll children))]

/-- What is under each name in a record. -/
theorem lookup_members (e : Element) (children : List Tree) :
    (members e children).lookup "kind" = some (.string e.kind.label) ∧
      (members e children).lookup "attributes" = (if e.attributes.isEmpty then none
        else some (.record (e.attributes.entries.map fun a => (a.1, .string a.2)))) ∧
      (members e children).lookup "text" = e.text.map Json.string ∧
      (members e children).lookup "origin" = some (.string e.origin.label) ∧
      (members e children).lookup "children" =
        if children.isEmpty then none else some (.list (dataAll children)) := by
  unfold members attributesMember textMember
  cases e.attributes.isEmpty <;> cases e.text <;> cases children.isEmpty <;>
    simp [StringMap.lookup_cons_ite]

/-- What is left out where it is empty can be told from what is not. -/
theorem eq_of_unless_isEmpty {α β : Type} {f : List α → β} {as bs : List α}
    (hf : f as = f bs → as = bs)
    (h : (if as.isEmpty then none else some (f as)) = if bs.isEmpty then none else some (f bs)) :
    as = bs := by
  cases as with
  | nil =>
    cases bs with
    | nil => rfl
    | cons b bs => cases h
  | cons a as =>
    cases bs with
    | nil => cases h
    | cons b bs => exact hf (Option.some.inj h)

theorem record_inj {es fs : List (String × String)}
    (h : Json.record (es.map fun a => (a.1, .string a.2)) =
      .record (fs.map fun a => (a.1, .string a.2))) : es = fs := by
  refine List.map_injective_iff.mpr ?_ (Json.record.inj h)
  rintro ⟨name, value⟩ ⟨name', value'⟩ heq
  simpa using heq

theorem attributes_inj {m n : Attributes}
    (h : (if m.isEmpty then none
        else some (Json.record (m.entries.map fun a => (a.1, .string a.2)))) =
      if n.isEmpty then none
        else some (Json.record (n.entries.map fun a => (a.1, .string a.2)))) : m = n := by
  obtain ⟨es, hes⟩ := m
  obtain ⟨fs, hfs⟩ := n
  let written (es : List (String × String)) : Json := .record (es.map fun a => (a.1, .string a.2))
  obtain rfl : es = fs := @eq_of_unless_isEmpty _ _ written _ _ record_inj h
  rfl

theorem dataAll_inj {ts ts' : List Tree} (hts : ∀ t ∈ ts, ∀ t', data t = data t' → t = t')
    (h : dataAll ts = dataAll ts') : ts = ts' := by
  induction ts generalizing ts' with
  | nil =>
    cases ts' with
    | nil => rfl
    | cons t' ts' => cases h
  | cons t ts ih =>
    obtain ⟨ht, hts⟩ := List.forall_mem_cons.mp hts
    cases ts' with
    | nil => cases h
    | cons t' ts' =>
      obtain ⟨hhere, hothers⟩ := List.cons.inj h
      rw [ht t' hhere, ih hts hothers]

/-- Nothing about a tree is lost in its data. -/
theorem data_inj {t t' : Tree} (h : data t = data t') : t = t' := by
  induction t using Tree.induction generalizing t' with
  | node e ts ih =>
    obtain ⟨e', ts'⟩ := t'
    simp only [data, Json.record.injEq] at h
    change members e ts = members e' ts' at h
    obtain ⟨hkind, hattributes, htext, horigin, hchildren⟩ := lookup_members e ts
    obtain ⟨hkind', hattributes', htext', horigin', hchildren'⟩ := lookup_members e' ts'
    rw [h] at hkind hattributes htext horigin hchildren
    have hbelow : ts = ts' := by
      refine @eq_of_unless_isEmpty _ _ (fun ts => Json.list (dataAll ts)) _ _ (fun hlist => ?_)
        (hchildren.symm.trans hchildren')
      exact dataAll_inj (fun t ht _ => ih t ht) (Json.list.inj hlist)
    have hsame : e = e' := by
      rw [Element.mk.injEq]
      refine ⟨?_, ?_, ?_, ?_⟩
      · exact Kind.label_inj (Json.string.inj (Option.some.inj (hkind.symm.trans hkind')))
      · exact attributes_inj (hattributes.symm.trans hattributes')
      · exact Option.map_injective (fun _ _ => Json.string.inj) (htext.symm.trans htext')
      · exact Origin.label_inj (Json.string.inj (Option.some.inj (horigin.symm.trans horigin')))
    rw [hbelow, hsame]

end Inspection

namespace Document

/-- The data of a document is faithful, in either layout: documents with the same data are the same
down to the origins and the links of their elements, under whatever rules they were built. The
layouts differ in nothing but white space outside of strings. -/
theorem json_faithful {rules rules' : Containment} {m m' : Markup} {d d' : Document}
    (h : build rules m = .ok d) (h' : build rules' m' = .ok d') :
    (∀ pretty, d.json pretty = d'.json pretty ↔ d = d') ∧
      Json.condense (d.json true) ++ "\n" = d.json false := by
  obtain ⟨t, -, rfl⟩ := build_eq_ok.mp h
  obtain ⟨t', -, rfl⟩ := build_eq_ok.mp h'
  have hcondense : ∀ t, Json.condense ((ofTree t).json true) = (Inspection.data t).compact := by
    intro t
    rw [json, tree_ofTree]
    exact Json.condense_pretty (Inspection.data t) (List.forall_mem_singleton.mpr rfl)
  have hcompact : ∀ t, (ofTree t).json false = (Inspection.data t).compact ++ "\n" := by
    intro t
    rw [json, tree_ofTree]
    rfl
  refine ⟨fun pretty => ⟨fun hjson => ?_, fun heq => by rw [heq]⟩, by rw [hcondense, hcompact]⟩
  have hdata : (Inspection.data t).compact = (Inspection.data t').compact := by
    cases pretty with
    | true => rw [← hcondense, ← hcondense, hjson]
    | false =>
      rw [hcompact, hcompact] at hjson
      simpa using hjson
  rw [Inspection.data_inj (Json.compact_inj.mp hdata)]

/-- A text with a quotation mark and a line end in it, in a message of either origin. -/
def remark (origin : Origin) : Document :=
  ofTree (.node ⟨.message, .empty, none, origin⟩ [.node (.ofText "a \"b\"\n " origin) []])

theorem json_faithful_remark :
    (remark .author).json true ≠ (remark .presentation).json true ∧
      Json.condense ((remark .author).json true) ++ "\n" = (remark .author).json false := by
  have hauthor : build .standard (.element "messageML" [] [.text "a \"b\"\n "]) =
      .ok (remark .author) := by decide +kernel
  have hpresentation : build (Containment.standard.set .button .direct)
      (.element "div" [("data-format", "PresentationML")] [.text "a \"b\"\n "]) =
        .ok (remark .presentation) := by decide +kernel
  have hdiffer : remark .author ≠ remark .presentation := by decide +kernel
  obtain ⟨hinjective, hlayout⟩ := json_faithful hauthor hpresentation
  exact ⟨mt (hinjective true).mp hdiffer, hlayout⟩

end Document
end ChatForms
