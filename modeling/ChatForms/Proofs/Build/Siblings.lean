import ChatForms.Markdown
import ChatForms.Proofs.Build.Validity
import ChatForms.Proofs.Document.Spine

namespace ChatForms

/-! ### What is inside an element of a rendering -/

namespace Document

/-- The part of the PresentationML text that shows what is right below an element. -/
def presentationBody (d : Document) (i : Nat) : String :=
  Markup.writeAll (Presentation.markups (d.inside i))

/-- The part of the summary that shows what is right below an element. -/
def markdownBody (d : Document) (i : Nat) : String := Markdown.summaries (d.inside i)

end Document

theorem Markup.writeAll_append (ms ns : List Markup) :
    writeAll (ms ++ ns) = writeAll ms ++ writeAll ns := by
  induction ms with
  | nil => simp [writeAll]
  | cons m ms ih => rw [List.cons_append, writeAll, writeAll, ih, String.append_assoc]

theorem Presentation.markups_append (ts us : List Tree) :
    markups (ts ++ us) = markups ts ++ markups us := by
  induction ts with
  | nil => rfl
  | cons t ts ih => rw [List.cons_append, markups, markups, ih, List.append_assoc]

theorem Markdown.summaries_append (ts us : List Tree) :
    summaries (ts ++ us) = summaries ts ++ summaries us := by
  induction ts with
  | nil => simp [summaries]
  | cons t ts ih => rw [List.cons_append, summaries, summaries, ih, String.append_assoc]

namespace Tree
open Presentation

/-- Around what is inside forms and divs, the markup is always the same. If nothing is inside, the
innermost element is a single tag. -/
theorem exists_writeAll_enclose {es : List Element}
    (hes : ∀ e ∈ es, e.kind = .form ∨ e.kind = .div) :
    ∃ before after, ∀ ts, Markup.writeAll (markups ts) ≠ "" →
      Markup.writeAll (markups (enclose es ts)) =
        before ++ Markup.writeAll (markups ts) ++ after := by
  induction es with
  | nil => exact ⟨"", "", fun ts _ => by simp⟩
  | cons e es ih =>
    obtain ⟨he, hes⟩ := List.forall_mem_cons.mp hes
    obtain ⟨before, after, hinside⟩ := ih hes
    obtain ⟨tag, names, hmarkup⟩ : ∃ tag names, ∀ ts,
        markup (node e ts) = [.element tag (e.pick names) (markups ts)] := by
      rcases he with he | he
      · exact ⟨"form", ["id"], fun ts => by rw [markup, he]⟩
      · exact ⟨"div", ["class"], fun ts => by rw [markup, he]⟩
    refine ⟨"<" ++ tag ++ Markup.writeAttributes (e.pick names) ++ ">" ++ before,
      after ++ "</" ++ tag ++ ">", fun ts hts => ?_⟩
    have hbody := hinside ts hts
    have hne : (markups (enclose es ts)).isEmpty = false := by
      rw [List.isEmpty_eq_false_iff]
      intro hnil
      rw [hnil, Markup.writeAll] at hbody
      simp [hts] at hbody
    rw [enclose_cons, markups, hmarkup, markups, List.append_nil, Markup.writeAll, Markup.writeAll,
      Markup.write, hne, hbody]
    simp [String.append_assoc]

theorem exists_presentationMl_enclose (e : Element) {es : List Element}
    (hes : ∀ e ∈ es, e.kind = .form ∨ e.kind = .div) :
    ∃ before after, ∀ ts, Markup.writeAll (markups ts) ≠ "" →
      (Document.ofTree (node e (enclose es ts))).presentationMl =
        before ++ Markup.writeAll (markups ts) ++ after := by
  obtain ⟨before, after, hinside⟩ := exists_writeAll_enclose hes
  refine ⟨"<div" ++ Markup.writeAttributes
    [(formatAttribute, formatName), (versionAttribute, version)] ++ ">" ++ before,
    after ++ "</div>", fun ts hts => ?_⟩
  rw [Document.presentationMl, Document.tree_ofTree, envelope, Markup.write, Tree.children,
    Markup.writeAll, Markup.write, hinside ts hts]
  simp [String.append_assoc]

theorem exists_summaries_enclose {es : List Element}
    (hes : ∀ e ∈ es, e.kind = .form ∨ e.kind = .div) :
    ∃ before after, ∀ ts, Markdown.summaries (enclose es ts) =
      before ++ Markdown.summaries ts ++ after := by
  induction es with
  | nil => exact ⟨"", "", fun ts => by simp⟩
  | cons e es ih =>
    obtain ⟨he, hes⟩ := List.forall_mem_cons.mp hes
    obtain ⟨before, after, hinside⟩ := ih hes
    obtain ⟨first, last, hsummary⟩ : ∃ first last, ∀ ts,
        Markdown.summary (node e ts) = first ++ Markdown.summaries ts ++ last := by
      rcases he with he | he
      · exact ⟨Markdown.formHeader, Markdown.formFooter, fun ts => by rw [Markdown.summary, he]⟩
      · exact ⟨"", "\n\n", fun ts => by rw [Markdown.summary, he, String.empty_append]⟩
    refine ⟨first ++ before, after ++ last, fun ts => ?_⟩
    rw [enclose_cons, Markdown.summaries, Markdown.summaries, hsummary, hinside]
    simp [String.append_assoc]

theorem exists_markdown_enclose {e : Element} (he : e.kind = .message) {es : List Element}
    (hes : ∀ e ∈ es, e.kind = .form ∨ e.kind = .div) :
    ∃ first last, ∀ ts, (Document.ofTree (node e (enclose es ts))).markdown =
      first ++ Markdown.summaries ts ++ last := by
  obtain ⟨first, last, hinside⟩ := exists_summaries_enclose hes
  refine ⟨first, last, fun ts => ?_⟩
  rw [Document.markdown, Document.tree_ofTree, Markdown.summary, he, hinside]

end Tree

/-! ### Surroundings -/

/-- A form, or a div of which no class bears the mark of a field. -/
structure Wrapper where
  kind : Kind
  attributes : List (String × String)
  wraps : kind = .form ∨ kind = .div
  unmarked : kind = .div → ∀ a ∈ attributes, a.1 = "class" →
    Presentation.groupClass ∉ Text.words a.2 ∧ Presentation.selectorClass ∉ Text.words a.2

namespace Wrapper

def candidate (w : Wrapper) : Candidate := ⟨w.kind, w.attributes, none, .author⟩

/-- Each one has only the next one as a child, and the last one has `ms`. -/
def wrap (ws : List Wrapper) (ms : List Markup) : List Markup :=
  ws.foldr (fun w inside => [.element w.kind.tag w.attributes inside]) ms

theorem hasClass_eq_false (w : Wrapper) (hkind : w.kind = .div) {name : String}
    (hname : name = Presentation.groupClass ∨ name = Presentation.selectorClass)
    (tag : String) (own : List Markup) :
    (Markup.element tag w.attributes own).hasClass name = false := by
  rw [Bool.eq_false_iff, ne_eq, Markup.hasClass, Markup.classes, Markup.attribute?,
    Markup.attributes, List.contains_iff_mem]
  cases hclass : w.attributes.lookup "class" with
  | none => simp
  | some value =>
    obtain ⟨first, last, hsplit, -⟩ := List.lookup_eq_some_iff.mp hclass
    have hmem : ("class", value) ∈ w.attributes := by
      rw [hsplit]
      exact List.mem_append_right first List.mem_cons_self
    obtain ⟨hgroup, hselector⟩ := w.unmarked hkind _ hmem rfl
    rcases hname with rfl | rfl
    · simpa using hgroup
    · simpa using hselector

theorem ofInner (w : Wrapper) (own : List Markup) :
    Candidate.ofInner (.element w.kind.tag w.attributes own) = .ok w.candidate := by
  have hclass := fun hkind {name} hname => @hasClass_eq_false w hkind name hname
  obtain ⟨kind, attributes, wraps, unmarked⟩ := w
  rcases wraps with rfl | rfl
  · rfl
  · exact Candidate.ofInner_of_unmarked rfl (hclass rfl (.inl rfl) _ _)
      (hclass rfl (.inr rfl) _ _)

end Wrapper

/-- The elements around a list of children: any root, and inside it forms and divs of which each one
has only the next one as a child. A root that is no message is refused, whatever is inside. -/
structure Surroundings where
  tag : String
  attributes : List (String × String)
  wrappers : List Wrapper

namespace Surroundings

def around (s : Surroundings) (ms : List Markup) : Markup :=
  .element s.tag s.attributes (Wrapper.wrap s.wrappers ms)

/-- The number of the innermost element. -/
def depth (s : Surroundings) : Nat := s.wrappers.length

end Surroundings

/-! ### Trees that grow in surroundings -/

namespace Tree
variable {rules : Containment}

theorem ofMarkups_append (above : List Kind) (origin : Origin) (xs ys : List Markup) :
    ofMarkups rules above origin (xs ++ ys) = (do
      let ts ← ofMarkups rules above origin xs
      let us ← ofMarkups rules above origin ys
      pure (ts ++ us)) := by
  induction xs with
  | nil =>
    simp only [List.nil_append, ofMarkups]
    cases ofMarkups rules above origin ys <;> rfl
  | cons m xs ih =>
    rw [List.cons_append, ofMarkups, ofMarkups, ih]
    cases ofMarkup rules above origin m with
    | error fault => rfl
    | ok t =>
      cases ofMarkups rules above origin xs with
      | error fault => rfl
      | ok ts => cases ofMarkups rules above origin ys <;> rfl

end Tree

theorem Candidate.examine_any {c : Candidate} (h : c.kind.contract.content = .any)
    (rules : Containment) (above : List Kind) (own own' : List Markup) :
    c.examine rules above own = c.examine rules above own' := by
  simp only [examine, Kind.contentFault?, h]

namespace Tree
variable (rules : Containment)

theorem ofMarkups_wrap_cons (above : List Kind) (origin : Origin) (w : Wrapper)
    (ws : List Wrapper) (ms : List Markup) :
    ofMarkups rules above origin (Wrapper.wrap (w :: ws) ms) = (do
      let e ← w.candidate.examine rules above []
      let ts ← ofMarkups rules (w.kind :: above) .author (Wrapper.wrap ws ms)
      pure [node e ts]) := by
  have hany : w.candidate.kind.contract.content = .any := by
    rcases w.wraps with h | h <;> rw [Wrapper.candidate, h] <;> rfl
  rw [Wrapper.wrap, List.foldr_cons, ofMarkups, ofMarkup, w.ofInner,
    w.candidate.examine_any hany rules above [] (Wrapper.wrap ws ms)]
  simp only [bind, Except.bind, ofMarkups, Wrapper.wrap]
  cases w.candidate.examine rules above _ with
  | error fault => rfl
  | ok e =>
    simp only [Wrapper.candidate]
    cases ofMarkups rules (w.kind :: above) .author _ <;> rfl

/-- Whether the elements around some children are accepted does not depend on the children, nor does
the place in which the children grow. -/
theorem ofMarkups_wrap (above : List Kind) (origin : Origin) (ws : List Wrapper) :
    (∃ fault, ∀ ms, ofMarkups rules above origin (Wrapper.wrap ws ms) = .error fault) ∨
      ∃ es above' origin', es.length = ws.length ∧ (∀ e ∈ es, e.kind = .form ∨ e.kind = .div) ∧
        ∀ ms, ofMarkups rules above origin (Wrapper.wrap ws ms) =
          (ofMarkups rules above' origin' ms).map (enclose es) := by
  induction ws generalizing above origin with
  | nil =>
    refine Or.inr ⟨[], above, origin, rfl, by simp, fun ms => ?_⟩
    cases h : ofMarkups rules above origin ms <;> simp [Wrapper.wrap, h, Except.map]
  | cons w ws ih =>
    simp only [ofMarkups_wrap_cons]
    cases he : w.candidate.examine rules above [] with
    | error fault => exact Or.inl ⟨fault, fun ms => rfl⟩
    | ok e =>
      have hkind : e.kind = w.kind := (Candidate.examine_eq_ok.mp he).kind
      rcases ih (w.kind :: above) .author with ⟨fault, hfault⟩ | ⟨es, above', origin', hes⟩
      · refine Or.inl ⟨fault, fun ms => ?_⟩
        rw [hfault]
        rfl
      · obtain ⟨hlength, hkinds, hinside⟩ := hes
        refine Or.inr ⟨e :: es, above', origin', by simp [hlength], ?_, fun ms => ?_⟩
        · exact List.forall_mem_cons.mpr ⟨hkind ▸ w.wraps, hkinds⟩
        · rw [hinside]
          cases ofMarkups rules above' origin' ms <;> rfl

theorem ofRoot_around (s : Surroundings) :
    (∃ fault, ∀ ms, ofRoot rules (s.around ms) = .error fault) ∨
      ∃ e es above origin, e.kind = .message ∧ es.length = s.depth ∧
        (∀ e ∈ es, e.kind = .form ∨ e.kind = .div) ∧
        ∀ ms, ofRoot rules (s.around ms) =
          (ofMarkups rules above origin ms).map fun ts => node e (enclose es ts) := by
  -- neither the root nor its attributes depend on what is inside
  have hroot : ∀ ms, Candidate.ofRoot (s.around ms) = Candidate.ofRoot (s.around []) :=
    fun ms => rfl
  cases hc : Candidate.ofRoot (s.around []) with
  | error fault => exact Or.inl ⟨fault, fun ms => by rw [ofRoot, hroot, hc]; rfl⟩
  | ok c =>
    obtain ⟨hmessage, hlabel, -⟩ := candidate_of_ofRoot hc
    have hany : c.kind.contract.content = .any := by rw [hmessage]; rfl
    have hgrow : ∀ ms, ofRoot rules (s.around ms) = c.examine rules [] [] >>= fun e =>
        (ofMarkups rules [c.kind] c.origin (Wrapper.wrap s.wrappers ms)).map (node e) := by
      intro ms
      rw [ofRoot_eq ((hroot ms).trans hc) hlabel, ofCandidate, c.examine_any hany rules [] _ [],
        Candidate.children, hlabel]
      rfl
    simp only [hgrow]
    cases he : c.examine rules [] [] with
    | error fault => exact Or.inl ⟨fault, fun ms => rfl⟩
    | ok e =>
      have hkind : e.kind = .message := (Candidate.examine_eq_ok.mp he).kind.trans hmessage
      rcases ofMarkups_wrap rules [c.kind] c.origin s.wrappers with
        ⟨fault, hfault⟩ | ⟨es, above, origin, hlength, hkinds, hinside⟩
      · exact Or.inl ⟨fault, fun ms => by rw [hfault]; rfl⟩
      · refine Or.inr ⟨e, es, above, origin, hkind, hlength, hkinds, fun ms => ?_⟩
        rw [hinside]
        cases ofMarkups rules above origin ms <;> rfl

end Tree

namespace Document
open ChatForms.Tree

/-- Children of one element do not see each other: if both of two lists can stand in their
surroundings, they can stand there one behind the other, and else the first fault of the two counts.
The elements of the second list come behind those of the first, below the same element, and inside
this element both renderings are put together from those of the two lists. Around it, they do not
depend on the lists. -/
theorem build_siblings (rules : Containment) (s : Surroundings) :
    (∀ xs ys, build rules (s.around (xs ++ ys)) = do
      let d ← build rules (s.around xs)
      let e ← build rules (s.around ys)
      pure (d.join s.depth e)) ∧
    (∀ xs ys d e, build rules (s.around xs) = .ok d → build rules (s.around ys) = .ok e →
      (d.join s.depth e).presentationBody s.depth =
          d.presentationBody s.depth ++ e.presentationBody s.depth ∧
        (d.join s.depth e).markdownBody s.depth =
          d.markdownBody s.depth ++ e.markdownBody s.depth) ∧
    ∃ before after first last, ∀ xs d, build rules (s.around xs) = .ok d →
      (d.presentationBody s.depth ≠ "" →
        d.presentationMl = before ++ d.presentationBody s.depth ++ after) ∧
      d.markdown = first ++ d.markdownBody s.depth ++ last := by
  simp only [build_eq]
  rcases ofRoot_around rules s with
    ⟨fault, hfault⟩ | ⟨e, es, above, origin, hkind, hlength, hkinds, hinside⟩
  · simp only [hfault]
    exact ⟨fun xs ys => rfl, nofun, "", "", "", "", nofun⟩
  · simp only [hinside, ← hlength]
    refine ⟨fun xs ys => ?_, fun xs ys d d' hd hd' => ?_, ?_⟩
    · rw [ofMarkups_append]
      cases ofMarkups rules above origin xs with
      | error fault => rfl
      | ok ts =>
        cases ofMarkups rules above origin ys with
        | error fault => rfl
        | ok us => exact congrArg Except.ok (ofTree_enclose_append e es ts us)
    · obtain ⟨_, ht, rfl⟩ := map_eq_ok.mp hd
      obtain ⟨_, hu, rfl⟩ := map_eq_ok.mp hd'
      obtain ⟨ts, -, rfl⟩ := map_eq_ok.mp ht
      obtain ⟨us, -, rfl⟩ := map_eq_ok.mp hu
      rw [← ofTree_enclose_append]
      simp only [presentationBody, markdownBody, inside_enclose, Presentation.markups_append]
      exact ⟨Markup.writeAll_append _ _, Markdown.summaries_append _ _⟩
    · obtain ⟨before, after, hbody⟩ := exists_presentationMl_enclose e hkinds
      obtain ⟨first, last, hsummary⟩ := exists_markdown_enclose hkind hkinds
      refine ⟨before, after, first, last, fun xs d hd => ?_⟩
      obtain ⟨_, ht, rfl⟩ := map_eq_ok.mp hd
      obtain ⟨ts, -, rfl⟩ := map_eq_ok.mp ht
      rw [presentationBody, markdownBody, inside_enclose]
      exact ⟨hbody ts, hsummary ts⟩

/-- A form inside a message. -/
def formOfMessage : Surroundings := ⟨"messageML", [], [⟨.form, [("id", "f")], .inl rfl, nofun⟩]⟩

def question : List Markup := [.text "Agree?"]

def answer : List Markup := [.element "div" [] [.element "checkbox" [("name", "ok")] []]]

theorem build_siblings_formOfMessage :
    (∃ d e, build .standard (formOfMessage.around question) = .ok d ∧
      build .standard (formOfMessage.around answer) = .ok e ∧
      build .standard (formOfMessage.around (question ++ answer)) = .ok (d.join 1 e) ∧
      (d.join 1 e).presentationBody 1 = d.presentationBody 1 ++ e.presentationBody 1 ∧
      (d.join 1 e).markdownBody 1 = d.markdownBody 1 ++ e.markdownBody 1) ∧
    build .standard (formOfMessage.around (answer ++ answer ++ [.element "b" [] []])) =
      build .standard (formOfMessage.around [.element "b" [] []]) := by
  obtain ⟨hbuild, hbodies, -⟩ := build_siblings .standard formOfMessage
  obtain ⟨d, hd⟩ : ∃ d, build .standard (formOfMessage.around question) = .ok d := ⟨_, rfl⟩
  obtain ⟨e, he⟩ : ∃ e, build .standard (formOfMessage.around answer) = .ok e := ⟨_, rfl⟩
  obtain ⟨hpresentation, hmarkdown⟩ := hbodies _ _ d e hd he
  refine ⟨⟨d, e, hd, he, ?_, hpresentation, hmarkdown⟩, ?_⟩
  · rw [hbuild, hd, he]
    rfl
  · rw [hbuild, hbuild, he]
    rfl

end Document
end ChatForms
