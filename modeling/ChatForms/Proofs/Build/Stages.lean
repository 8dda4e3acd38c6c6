import ChatForms.Proofs.Build.Validity
import ChatForms.Proofs.Document.Queries

namespace ChatForms.Document

/-- A watched computation: the documents that it comes to one after the other, the places at which
elements asked to join, each with the document at this moment, and how it ends. -/
structure Run where
  stages : List Document
  places : List (Document × Option Nat)
  result : Except Fault Document

namespace Run

def fail (fault : Fault) : Run := ⟨[], [], .error fault⟩

/-- An element asks to join `d` below `parent`. It may be refused. -/
def step (d : Document) (parent : Option Nat) (answer : Except Fault Document) : Run :=
  ⟨answer.toOption.toList, [(d, parent)], answer⟩

def andThen (r : Run) (next : Document → Run) : Run :=
  match r.result with
  | .ok d => ⟨r.stages ++ (next d).stages, r.places ++ (next d).places, (next d).result⟩
  | .error _ => r

@[simp] theorem result_andThen (r : Run) (next : Document → Run) :
    (r.andThen next).result = r.result >>= fun d => (next d).result := by
  rw [andThen]
  cases h : r.result with
  | error fault => exact h
  | ok d => rfl

end Run

/-! ### A build that is watched -/

mutual
/-- The way in which `add` proceeds. -/
def watch (rules : Containment) (parent : Nat) (origin : Origin) (d : Document) : Markup → Run
  | .text s => .step d (some parent) (.ok (d.attach (.ofText s origin) (some parent)))
  | .element tag attributes own =>
    match Candidate.ofInner (.element tag attributes own) with
    | .error fault => .fail fault
    | .ok c =>
      (Run.step d (some parent) (d.accept rules (some parent) c own)).andThen fun accepted =>
      match c.label with
      | some s => .step accepted (some d.size)
        (.ok (accepted.attach (.ofText s c.origin) (some d.size)))
      | none => watchAll rules d.size c.origin accepted own
def watchAll (rules : Containment) (parent : Nat) (origin : Origin) (d : Document) :
    List Markup → Run
  | [] => ⟨[], [], .ok d⟩
  | m :: rest => (watch rules parent origin d m).andThen fun d' =>
    watchAll rules parent origin d' rest
end

/-- The way in which `build` proceeds from the empty document. -/
def watchBuild (rules : Containment) (m : Markup) : Run :=
  match Candidate.ofRoot m with
  | .error fault => .fail fault
  | .ok c => (Run.step empty none (empty.accept rules none c m.children)).andThen fun d =>
    watchAll rules 0 c.origin d m.children

/-- All documents that a build comes to, also one that fails. -/
def buildStages (rules : Containment) (m : Markup) : List Document :=
  empty :: (watchBuild rules m).stages

variable (rules : Containment)

mutual
theorem result_watch (parent : Nat) (origin : Origin) (d : Document) (m : Markup) :
    (watch rules parent origin d m).result = add rules parent origin d m := by
  match m with
  | .text s => rfl
  | .element tag attributes own =>
    rw [watch, add]
    cases Candidate.ofInner (.element tag attributes own) with
    | error fault => rfl
    | ok c =>
      rw [Run.result_andThen]
      refine bind_congr fun accepted => ?_
      cases c.label with
      | some s => rfl
      | none => exact result_watchAll d.size c.origin accepted own
theorem result_watchAll (parent : Nat) (origin : Origin) (d : Document) (ms : List Markup) :
    (watchAll rules parent origin d ms).result = addAll rules parent origin d ms := by
  match ms with
  | [] => rfl
  | m :: rest =>
    rw [watchAll, addAll, Run.result_andThen, result_watch parent origin d m]
    exact bind_congr fun d' => result_watchAll parent origin d' rest
end

theorem result_watchBuild (m : Markup) : (watchBuild rules m).result = build rules m := by
  rw [watchBuild, build]
  cases Candidate.ofRoot m with
  | error fault => rfl
  | ok c =>
    rw [Run.result_andThen]
    exact bind_congr fun d => result_watchAll rules 0 c.origin d m.children

/-! ### Every stage comes from the one before -/

/-- Whether an element may have children. -/
def CanHold (d : Document) (p : Nat) : Prop := ∃ x, d.get? p = some x ∧ x.kind ≠ .text

theorem Joins.canHold {d d' : Document} (h : d.Joins d') {p : Nat} (hp : d.CanHold p) :
    d'.CanHold p := by
  obtain ⟨x, hx, hkind⟩ := hp
  cases h with
  | root first _ _ =>
    subst first
    cases hx
  | @inner e q y here _ _ =>
    have hlt : p < d.size := (Array.getElem?_eq_some_iff.mp hx).1
    refine ⟨if p = q then { x with children := x.children ++ [d.size] } else x, ?_, ?_⟩
    · rw [get?_attach, if_neg (Nat.ne_of_lt hlt), hx, Option.map_some]
    · split <;> exact hkind

/-- The documents of a run come one from the other, the first one from `d`, and the last one is the
result. Elements ask for places in these documents only. -/
structure Run.Follows (r : Run) (d : Document) : Prop where
  chain : (d :: r.stages).IsChain Joins
  last : ∀ d', r.result = .ok d' → (d :: r.stages).getLast? = some d'
  places : ∀ place ∈ r.places, place.1 ∈ d :: r.stages ∧ ∀ p ∈ place.2, place.1.CanHold p

section
variable {d : Document}

theorem Run.follows_fail (fault : Fault) : (fail fault).Follows d := ⟨.singleton _, nofun, nofun⟩

theorem Run.follows_step {parent : Option Nat} {answer : Except Fault Document}
    (hparent : ∀ p ∈ parent, d.CanHold p) (h : ∀ d', answer = .ok d' → d.Joins d') :
    (step d parent answer).Follows d := by
  have hplaces : ∀ place ∈ [(d, parent)], place.1 ∈ d :: (step d parent answer).stages ∧
      ∀ p ∈ place.2, place.1.CanHold p := by
    rw [List.forall_mem_singleton]
    exact ⟨List.mem_cons_self, hparent⟩
  cases answer with
  | error fault => exact ⟨.singleton _, nofun, hplaces⟩
  | ok d' =>
    refine ⟨.cons_cons (h d' rfl) (.singleton _), ?_, hplaces⟩
    rintro _ ⟨⟩
    rfl

theorem Run.Follows.andThen {r : Run} {next : Document → Run} (hr : r.Follows d)
    (hnext : ∀ d', r.result = .ok d' → (next d').Follows d') : (r.andThen next).Follows d := by
  rw [Run.andThen]
  cases hresult : r.result with
  | error fault => exact hr
  | ok d' =>
    obtain ⟨hchain, hlast, hplaces⟩ := hnext d' hresult
    obtain ⟨before, hbefore⟩ := List.getLast?_eq_some_iff.mp (hr.last d' hresult)
    -- the two runs meet in the result of the first one
    have hstages : d :: (r.stages ++ (next d').stages) = before ++ d' :: (next d').stages := by
      rw [← List.cons_append, hbefore, List.append_assoc, List.singleton_append]
    refine ⟨?_, fun e he => ?_, fun place hplace => ?_⟩
    · simp only [hstages]
      rw [List.append_cons]
      exact (hbefore ▸ hr.chain).append_overlap hchain (by simp)
    · simp only [hstages]
      rw [List.getLast?_append_of_ne_nil _ (by simp)]
      exact hlast e he
    · rcases List.mem_append.mp hplace with hplace | hplace
      · obtain ⟨hmem, hhold⟩ := hr.places place hplace
        exact ⟨List.mem_append_left (next d').stages hmem, hhold⟩
      · obtain ⟨hmem, hhold⟩ := hplaces place hplace
        simp only [hstages]
        exact ⟨List.mem_append_right before hmem, hhold⟩

theorem Run.Follows.canHold {r : Run} (h : r.Follows d) {d' : Document} (hd' : r.result = .ok d')
    {p : Nat} (hp : d.CanHold p) : d'.CanHold p := by
  have hall := h.chain.induction (CanHold · p) _ (fun _ _ hjoins => hjoins.canHold) fun _ => hp
  exact hall d' (List.mem_of_getLast? (h.last d' hd'))

theorem CanHold.of_some {parent : Nat} (h : d.CanHold parent) :
    ∀ p ∈ some parent, d.CanHold p := by
  rintro _ ⟨⟩
  exact h

theorem follows_text {parent : Nat} (hparent : d.CanHold parent) (s : String) (origin : Origin) :
    (Run.step d (some parent) (.ok (d.attach (.ofText s origin) (some parent)))).Follows d := by
  apply Run.follows_step hparent.of_some
  rintro _ ⟨⟩
  obtain ⟨x, hx, hholds⟩ := hparent
  exact .inner hx hholds (Element.isWorded_ofText s origin)

variable {rules} {c : Candidate} {own : List Markup} {d' : Document}

/-- An accepted element is the next one of its document, and is not a text. -/
theorem exists_of_accept {parent : Option Nat} (hc : c.kind ≠ .text)
    (h : d.accept rules parent c own = .ok d') :
    ∃ e : Element, e.kind ≠ .text ∧ e.IsWorded ∧ d' = d.attach e parent := by
  rw [accept_eq] at h
  obtain ⟨e, he, rfl⟩ := map_eq_ok.mp h
  have hpasses := Candidate.examine_eq_ok.mp he
  have hkind : e.kind ≠ .text := hpasses.kind ▸ hc
  exact ⟨e, hkind, Element.isWorded_of_ne hkind hpasses.text, rfl⟩

theorem joins_of_accept {parent : Nat} (hparent : d.CanHold parent) (hc : c.kind ≠ .text)
    (h : d.accept rules (some parent) c own = .ok d') : d.Joins d' ∧ d'.CanHold d.size := by
  obtain ⟨x, hx, hholds⟩ := hparent
  obtain ⟨e, hkind, hworded, rfl⟩ := exists_of_accept hc h
  refine ⟨.inner hx hholds hworded, { e with parent := some parent, children := [] }, ?_, hkind⟩
  rw [get?_attach, if_pos rfl]

theorem joins_of_accept_root (hc : c.kind ≠ .text)
    (h : empty.accept rules none c own = .ok d') : empty.Joins d' ∧ d'.CanHold 0 := by
  obtain ⟨e, hkind, hworded, rfl⟩ := exists_of_accept hc h
  exact ⟨.root rfl hkind hworded, { e with parent := none, children := [] }, rfl, hkind⟩

end

mutual
theorem follows_watch {d : Document} {parent : Nat} (hparent : d.CanHold parent) (origin : Origin)
    (m : Markup) : (watch rules parent origin d m).Follows d := by
  match m with
  | .text s =>
    rw [watch]
    exact follows_text hparent s origin
  | .element tag attributes own =>
    rw [watch]
    cases hc : Candidate.ofInner (.element tag attributes own) with
    | error fault => exact Run.follows_fail fault
    | ok c =>
      have hkind : c.kind ≠ .text := Candidate.kind_ne_text hc
      apply Run.Follows.andThen
      · exact Run.follows_step hparent.of_some fun d' h => (joins_of_accept hparent hkind h).1
      · intro accepted h
        -- the children come below the element that has just joined
        have hself := (joins_of_accept hparent hkind h).2
        cases c.label with
        | some s => exact follows_text hself s c.origin
        | none => exact follows_watchAll hself c.origin own
theorem follows_watchAll {d : Document} {parent : Nat} (hparent : d.CanHold parent)
    (origin : Origin) (ms : List Markup) : (watchAll rules parent origin d ms).Follows d := by
  match ms with
  | [] =>
    rw [watchAll]
    refine ⟨.singleton _, ?_, nofun⟩
    rintro _ ⟨⟩
    rfl
  | m :: rest =>
    have hfirst := follows_watch hparent origin m
    rw [watchAll]
    exact hfirst.andThen fun d' h => follows_watchAll (hfirst.canHold h hparent) origin rest
end

theorem follows_watchBuild (m : Markup) : (watchBuild rules m).Follows empty := by
  rw [watchBuild]
  cases hc : Candidate.ofRoot m with
  | error fault => exact Run.follows_fail fault
  | ok c =>
    have hkind : c.kind ≠ .text := by
      rw [(Tree.candidate_of_ofRoot hc).1]
      decide
    apply Run.Follows.andThen
    · exact Run.follows_step nofun fun d' h => (joins_of_accept_root hkind h).1
    · intro d' h
      exact follows_watchAll rules (joins_of_accept_root hkind h).2 c.origin m.children

/-- A build that does not fail ends at a sound document. -/
theorem isSound_of_build {m : Markup} {d : Document} (h : build rules m = .ok d) : d.IsSound := by
  obtain ⟨hchain, hlast, -⟩ := follows_watchBuild rules m
  rw [result_watchBuild] at hlast
  exact isSound_of_isChain hchain d (List.mem_of_getLast? (hlast d h))

theorem isPreordered_of_build {m : Markup} {d : Document} (h : build rules m = .ok d) :
    0 < d.size ∧ d.IsPreordered := by
  have hsound := isSound_of_build rules h
  obtain ⟨t, -, rfl⟩ := build_eq_ok.mp h
  obtain ⟨e, ts⟩ := t
  refine ⟨?_, hsound.isPreordered⟩
  apply numbers_ofTree.mp
  exact numbers_cons.mpr (Or.inl rfl)

/-- A build goes from the empty document to its result by one new element after the other, and
wherever it stands, also if it fails later, the links of the document fit. So no link leads out of
it, nor does the place for which an element asks, every way up ends at the root, and texts are
gathered from all children. In the end there is a root, and the numbers are in the order of the
text. A group of which the children fit their pattern has its one input. -/
theorem build_stages (m : Markup) :
    ((watchBuild rules m).result = build rules m ∧
      (buildStages rules m).IsChain Joins ∧
      ∀ d, build rules m = .ok d → (buildStages rules m).getLast? = some d) ∧
    (∀ d ∈ buildStages rules m, d.IsSound ∧
      (∀ i, ∀ j ∈ d.children i, j < d.size) ∧
      (∀ i < d.size, d.IsWayUp i (d.lineage (some i))) ∧
      ∀ i e, d.get? i = some e →
        d.textContent i = e.text.getD (String.join (e.children.map d.textContent))) ∧
    (∀ place ∈ (watchBuild rules m).places, place.1 ∈ buildStages rules m ∧
      ∀ p ∈ place.2, p < place.1.size) ∧
    (∀ d, build rules m = .ok d → d.IsSound ∧ 0 < d.size ∧ d.IsPreordered) ∧
    ∀ ms slots, Pattern.checkboxGroup.match? ms = some slots →
      ∃ input labels, slots = [[input], labels] ∧ labels.length ≤ 1 := by
  obtain ⟨hchain, hlast, hplaces⟩ := follows_watchBuild rules m
  rw [result_watchBuild] at hlast
  have hsound : ∀ d ∈ buildStages rules m, d.IsSound := isSound_of_isChain hchain
  refine ⟨⟨result_watchBuild rules m, hchain, hlast⟩, fun d hd => ?_, fun place hplace => ?_,
    fun d hd => ?_, fun ms slots hslots => ?_⟩
  · have h := hsound d hd
    exact ⟨h, fun i j hj => (h.lt_of_mem_children hj).2.2, fun i hi => h.isWayUp_lineage hi,
      fun i e he => h.textContent_eq he⟩
  · obtain ⟨hmem, hhold⟩ := hplaces place hplace
    refine ⟨hmem, fun p hp => ?_⟩
    obtain ⟨x, hx, -⟩ := hhold p hp
    exact (Array.getElem?_eq_some_iff.mp hx).1
  · exact ⟨isSound_of_build rules hd, isPreordered_of_build rules hd⟩
  · obtain ⟨input, labels, hboth, hlength, -⟩ := Pattern.match?_checkboxGroup hslots
    exact ⟨input, labels, hboth, hlength⟩

/-- A message of which the form has a text and an element that nobody knows. -/
def brokenForm : Markup :=
  .element "messageML" [] [.element "form" [("id", "f")] [.text "Agree?", .element "b" [] []]]

theorem build_stages_brokenForm :
    build .standard brokenForm = .error (.unknownElement "b") ∧
      ∃ d, (buildStages .standard brokenForm)[3]? = some d ∧ d.size = 3 ∧ d.IsSound ∧
        d.IsWayUp 2 (d.lineage (some 2)) ∧ d.textContent 0 = "Agree?" := by
  obtain ⟨-, hstages, -⟩ := build_stages .standard brokenForm
  refine ⟨by decide +kernel, _, rfl, rfl, ?_⟩
  have hmem : _ ∈ buildStages .standard brokenForm := List.mem_of_getElem? (i := 3) rfl
  obtain ⟨hsound, -, hway, -⟩ := hstages _ hmem
  exact ⟨hsound, hway 2 (by decide), rfl⟩

end ChatForms.Document
