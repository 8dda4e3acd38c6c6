import ChatForms.Proofs.Build.Requirements
import ChatForms.Proofs.Build.Stages
import ChatForms.TreeView

namespace ChatForms.Document
open ChatForms.Tree ChatForms.TreeView

/-! ### The drawing of an element on its own -/

/-- Whether no other child of its parent comes after an element. -/
def isLast (d : Document) (i : Nat) : Bool :=
  (d.parent? i).all fun p => (d.children p).getLast? = some i

/-- What is at the left of an element below those of a way up: the rule of each of them but for the
root, the outermost first. -/
def margin (d : Document) (above : List Nat) : String :=
  String.join ((above.filter fun i => i ≠ 0).reverse.map fun i => rule (d.isLast i))

/-- What is drawn for an element. -/
def drawing (d : Document) (i : Nat) : String :=
  match d.get? i with
  | none => ""
  | some e =>
    if i = 0 then line e.toElement
    else d.margin (d.ancestors i) ++ connector (d.isLast i) ++ " " ++ line e.toElement

/-- How many elements there are around an element. -/
def depth (d : Document) (i : Nat) : Nat := (d.ancestors i).length

/-! ### Margins -/

theorem margin_cons {d : Document} {i : Nat} (hi : i ≠ 0) (above : List Nat) :
    d.margin (i :: above) = d.margin above ++ rule (d.isLast i) := by
  simp [margin, hi, String.join_append]

theorem length_rule (isLast : Bool) : (rule isLast).length = 2 := by
  cases isLast <;> decide

theorem length_join_map {α : Type} {f : α → String} {n : Nat} {as : List α}
    (h : ∀ a ∈ as, (f a).length = n) : (String.join (as.map f)).length = n * as.length := by
  induction as with
  | nil => simp
  | cons a as ih =>
    obtain ⟨ha, has⟩ := List.forall_mem_cons.mp h
    rw [List.map_cons, String.join_cons, String.length_append, ha, ih has, List.length_cons,
      Nat.mul_succ, Nat.add_comm]

/-- The root is the last one on every way up, and the only one that has no rule. -/
theorem IsWayUp.length_filter {d : Document} {i : Nat} {way : List Nat} (h : d.IsWayUp i way) :
    (way.filter fun j => j ≠ 0).length = way.length - 1 := by
  obtain ⟨before, rfl⟩ := List.getLast?_eq_some_iff.mp h.last
  have hbefore : ∀ j ∈ before, decide (j ≠ 0) = true := by
    intro j hj
    have hlt : j > 0 := (List.pairwise_append.mp h.falling).2.2 j hj 0 List.mem_cons_self
    simpa using Nat.ne_of_gt hlt
  rw [List.filter_append, List.filter_eq_self.mpr hbefore]
  simp

/-! ### Trees as they are drawn -/

section
variable {d : Document} {p start : Nat}

theorem Carries.isLast_eq {e : Element} {ts us : List Tree}
    (h : d.Carries (some p) start (node e ts :: us))
    (hchildren : childNumbers start (node e ts :: us) <:+ d.children p) :
    d.isLast start = us.isEmpty := by
  obtain ⟨before, hbefore⟩ := hchildren
  rw [isLast, h.parent?_eq, Option.all_some, ← hbefore, childNumbers]
  cases us with
  | nil => simp [childNumbers]
  | cons u us =>
    -- the numbers of later siblings are greater
    have hlater : ∀ i ∈ childNumbers (start + (node e ts).size) (u :: us), start < i := by
      intro i hi
      have hle := (numbers_childNumbers hi).1
      rw [size_node] at hle
      omega
    generalize hnext : childNumbers (start + (node e ts).size) (u :: us) = next at hlater
    cases next with
    | nil => simp [childNumbers] at hnext
    | cons j next =>
      have hne : (j :: next).getLast? ≠ some start := by
        intro hlast
        exact Nat.lt_irrefl start (hlater start (List.mem_of_getLast? hlast))
      simpa using hne

/-- The trees below an element are drawn one element after the other, in the order of their
numbers. -/
theorem Carries.drawAll_eq {ts : List Tree} (hd : d.Linked) (h : d.Carries (some p) start ts)
    (hchildren : childNumbers start ts <:+ d.children p) :
    drawAll (d.margin (d.lineage (some p))) ts =
      String.join ((List.range' start (subtreesOf ts).length).map d.drawing) := by
  induction ts using forest_induction generalizing p start with
  | nil => simp [drawAll, subtreesOf]
  | cons e ts us ihInside ihOthers =>
    have hlast := h.isLast_eq hchildren
    have hinner := h.children_eq
    cases h with
    | cons here inside others =>
      have hsize : start < d.size := (Array.getElem?_eq_some_iff.mp here).1
      have hparent : d.parent? start = some p := by simp [parent?, here]
      have hne : start ≠ 0 := Nat.ne_of_gt (Nat.zero_lt_of_lt (hd start _ here p rfl))
      have hself : d.drawing start =
          d.margin (d.lineage (some p)) ++ connector us.isEmpty ++ " " ++ line e := by
        rw [drawing, here, ancestors, hparent, hlast]
        exact if_neg hne
      -- the rule of the element itself stands at the left of what is inside it
      have hmargin : d.margin (d.lineage (some start)) =
          d.margin (d.lineage (some p)) ++ rule us.isEmpty := by
        rw [lineage_some hd hsize, hparent, margin_cons hne, hlast]
      have hinside := ihInside inside (hinner ▸ List.suffix_refl _)
      have hothers := ihOthers others ((List.suffix_cons _ _).trans hchildren)
      rw [hmargin] at hinside
      rw [drawAll, drawBelow, hinside, hothers, range'_cons, List.map_cons, String.join_cons,
        List.map_append, String.join_append, hself]
      simp only [String.append_assoc]

end

theorem treeView_ofTree (t : Tree) :
    (ofTree t).treeView = String.join ((List.range (ofTree t).size).map (ofTree t).drawing) := by
  have hcarries := carries_ofTree t
  have hlinked := linked_ofTree t
  rw [treeView, tree_ofTree, size_ofTree, List.range_eq_range']
  generalize ofTree t = d at hcarries hlinked
  cases t with
  | node e ts =>
    have hinner := hcarries.children_eq
    cases hcarries with
    | cons here inside _ =>
      have hsize : 0 < d.size := (Array.getElem?_eq_some_iff.mp here).1
      have hroot : d.drawing 0 = line e := by rw [drawing, here]; rfl
      have hmargin : d.margin (d.lineage (some 0)) = "" := by
        have hparent : d.parent? 0 = none := by simp [parent?, here]
        rw [lineage_some hlinked hsize, hparent, lineage_none]
        rfl
      have hinside := inside.drawAll_eq hlinked (hinner ▸ List.suffix_refl _)
      rw [hmargin] at hinside
      rw [element, Tree.children, hinside, range'_cons, List.map_cons, String.join_cons, hroot]
      simp [subtreesOf]

/-- A tree view shows every element once, in the order of their numbers: the root on its own, and
each other element behind the rules of the elements around it. So every level but the first is set
in by two more characters. -/
theorem treeView_of_build {rules : Containment} {m : Markup} {d : Document}
    (h : build rules m = .ok d) :
    d.treeView = String.join ((List.range d.size).map d.drawing) ∧
      ∀ i < d.size, i ≠ 0 → (d.margin (d.ancestors i)).length = 2 * (d.depth i - 1) := by
  have hsound := isSound_of_build rules h
  constructor
  · obtain ⟨t, -, rfl⟩ := build_eq_ok.mp h
    exact treeView_ofTree t
  · intro i hi hne
    obtain ⟨p, hparent⟩ := Option.ne_none_iff_exists'.mp (mt (hsound.root i hi).mp hne)
    have hlt : p < d.size := Nat.lt_trans (hsound.earlier i p hparent) hi
    have hway := hsound.isWayUp_lineage hlt
    rw [← hparent] at hway
    rw [margin, length_join_map fun j _ => length_rule (d.isLast j), List.length_reverse, ancestors,
      hway.length_filter, depth, ancestors]

/-- A form with a button inside a div, and a person selector behind it. -/
def signup : Markup :=
  .element "messageML" [] [.element "form" [("id", "signup")]
    [.element "div" [] [.element "button" [("name", "send")] [.text "Send"]],
      .element "person-selector" [] []]]

theorem treeView_of_build_signup :
    ∃ d, build .standard signup = .ok d ∧
      d.treeView = String.join ((List.range d.size).map d.drawing) ∧
      d.drawing 4 = "  │   └─ ◦ \"Send\"\n" ∧ d.depth 4 = 4 ∧
      (d.margin (d.ancestors 4)).length = 2 * (d.depth 4 - 1) := by
  obtain ⟨d, hd⟩ : ∃ d, build .standard signup = .ok d := ⟨_, by rfl⟩
  have hshape : (build .standard signup).toOption.map (fun d => (d.size, d.drawing 4, d.depth 4)) =
      some (6, "  │   └─ ◦ \"Send\"\n", 4) := by decide +kernel
  rw [hd] at hshape
  obtain ⟨hsize, hshape⟩ := Prod.mk.inj (Option.some.inj hshape)
  obtain ⟨hdrawing, hdepth⟩ := Prod.mk.inj hshape
  obtain ⟨hview, hmargin⟩ := treeView_of_build hd
  exact ⟨d, hd, hview, hdrawing, hdepth, hmargin 4 (hsize ▸ by decide) (by decide)⟩

end ChatForms.Document
