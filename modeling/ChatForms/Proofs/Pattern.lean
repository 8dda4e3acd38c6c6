import ChatForms.Content

namespace ChatForms.Pattern

/-! ### The division of the children -/

/-- The children that a part takes, each with its number among all children. -/
def slot (p : Pattern) (part : Nat) (children : List Markup) : List (Nat × Markup) :=
  (numbered children).filter fun c => c.2.tag?.any fun tag => p.partFor? tag = some part

/-- Blank texts and the elements that some part takes. -/
def admits (p : Pattern) (child : Markup) : Bool :=
  match child.tag? with
  | some tag => (p.partFor? tag).isSome
  | none => child.isBlankText

theorem map_snd_numbered (ms : List Markup) : (numbered ms).map (·.2) = ms := by
  simp [numbered, Function.comp_def]

theorem mapIdx_self {α : Type} (slots : List α) : slots.mapIdx (fun _ found => found) = slots :=
  List.ext_getElem (by simp) (by simp)

/-- A child that is admitted goes to the slot of its part and to no other. -/
theorem place?_eq (p : Pattern) (slots : List (List (Nat × Markup))) (c : Nat × Markup) :
    p.place? slots c = if p.admits c.2 then
      some (slots.mapIdx fun part found => found ++ [c].filter fun c =>
        c.2.tag?.any fun tag => p.partFor? tag = some part) else none := by
  cases htag : c.2.tag? with
  | none => simp [place?, admits, htag, mapIdx_self]
  | some tag =>
    cases hpart : p.partFor? tag with
    | none => simp [place?, admits, htag, hpart]
    | some part =>
      have hslots : slots.modify part (· ++ [c]) = slots.mapIdx fun k found =>
          found ++ [c].filter fun c => c.2.tag?.any fun tag => p.partFor? tag = some k := by
        refine List.ext_getElem (by simp) fun k _ _ => ?_
        by_cases hk : part = k <;> simp [List.filter_cons, htag, hpart, hk]
      rw [← hslots]
      simp [place?, admits, htag, hpart]

/-- The slots grow by the children that their parts take, as long as all are admitted. -/
theorem foldlM_place? (p : Pattern) (cs : List (Nat × Markup))
    (slots : List (List (Nat × Markup))) :
    cs.foldlM p.place? slots = if cs.all fun c => p.admits c.2 then
      some (slots.mapIdx fun part found => found ++ cs.filter fun c =>
        c.2.tag?.any fun tag => p.partFor? tag = some part) else none := by
  induction cs generalizing slots with
  | nil => simp [mapIdx_self]
  | cons c cs ih =>
    rw [List.foldlM_cons, place?_eq]
    cases hc : p.admits c.2 with
    | false => simp [hc]
    | true =>
      have hfilter : ∀ (f : Nat × Markup → Bool) (found : List (Nat × Markup)),
          found ++ [c].filter f ++ cs.filter f = found ++ (c :: cs).filter f := by
        intro f found
        rw [List.append_assoc, ← List.filter_append, List.singleton_append]
      simp only [if_true, Option.bind_eq_bind, Option.bind_some, ih, List.mapIdx_mapIdx,
        Function.comp_def, hfilter, List.all_cons, hc, Bool.true_and]

/-- The children are divided if all are admitted and every part gets as many as it takes. -/
theorem match?_eq (p : Pattern) (ms : List Markup) :
    p.match? ms =
      if ms.all p.admits && (p.zip (p.zipIdx.map fun part => p.slot part.2 ms)).all fun s =>
        s.1.min ≤ s.2.length && s.2.length ≤ s.1.max
      then some (p.zipIdx.map fun part => p.slot part.2 ms) else none := by
  have hadmits : (numbered ms).all (fun c => p.admits c.2) = ms.all p.admits :=
    List.all_map.symm.trans (congrArg (List.all · p.admits) (map_snd_numbered ms))
  have hslots : ((p.map fun _ => []).mapIdx fun part found => found ++ p.slot part ms) =
      p.zipIdx.map fun part => p.slot part.2 ms :=
    List.ext_getElem (by simp) (by simp)
  unfold slot at hslots ⊢
  rw [match?, foldlM_place?, hadmits, hslots]
  cases ms.all p.admits with
  | false => rfl
  | true =>
    rw [if_pos rfl, Bool.true_and]
    rfl

variable {p : Pattern} {part : Nat} {ms : List Markup}

theorem mem_slot {n : Nat} {m : Markup} (h : (n, m) ∈ p.slot part ms) : m ∈ ms := by
  obtain ⟨h, -⟩ := List.mem_filter.mp h
  obtain ⟨⟨m', n'⟩, hzip, heq⟩ := List.mem_map.mp h
  cases heq
  exact (List.mem_zipIdx' hzip).2 ▸ List.getElem_mem _

theorem map_slot (p : Pattern) (part : Nat) (ms : List Markup) :
    (p.slot part ms).map (·.2) =
      ms.filter fun m => m.tag?.any fun tag => p.partFor? tag = some part := by
  rw [← congrArg (List.filter _) (map_snd_numbered ms), List.filter_map]
  rfl

/-- A part takes elements of one tag. -/
theorem tag?_of_mem_slot {c : Nat × Markup} (h : c ∈ p.slot part ms) :
    ∃ tag, c.2.tag? = some tag ∧ p.partFor? tag = some part := by
  obtain ⟨-, hpart⟩ := List.mem_filter.mp h
  obtain ⟨tag, htag, hpart⟩ := (Option.any_eq_true _ _).mp hpart
  exact ⟨tag, htag, of_decide_eq_true hpart⟩

/-! ### Groups of a checkbox -/

/-- The first part of a group is for inputs, the second one for labels. -/
theorem partFor?_checkboxGroup (tag : String) :
    checkboxGroup.partFor? tag =
      if tag = "input" then some 0 else if tag = "label" then some 1 else none := by
  simp only [partFor?, checkboxGroup, List.findIdx?_cons, eq_comm (a := tag)]
  by_cases hinput : "input" = tag
  · simp [hinput]
  · by_cases hlabel : "label" = tag <;> simp [hinput, hlabel]

/-- A checkbox has one input, and at most one label. -/
theorem match?_checkboxGroup_iff {slots : List (List (Nat × Markup))} :
    checkboxGroup.match? ms = some slots ↔
      (∀ m ∈ ms, checkboxGroup.admits m = true) ∧
        ∃ input labels, slots = [[input], labels] ∧ checkboxGroup.slot 0 ms = [input] ∧
          checkboxGroup.slot 1 ms = labels ∧ labels.length ≤ 1 := by
  have hslots : (checkboxGroup.zipIdx.map fun part => checkboxGroup.slot part.2 ms) =
      [checkboxGroup.slot 0 ms, checkboxGroup.slot 1 ms] := rfl
  have hfits : ∀ inputs labels : List (Nat × Markup),
      ((checkboxGroup.zip [inputs, labels]).all fun s =>
        s.1.min ≤ s.2.length && s.2.length ≤ s.1.max) = true ↔
        inputs.length = 1 ∧ labels.length ≤ 1 := by
    intro inputs labels
    simp [checkboxGroup, Nat.le_antisymm_iff, and_comm]
  rw [match?_eq, hslots, Option.ite_none_right_eq_some, Bool.and_eq_true, List.all_eq_true, hfits,
    List.length_eq_one_iff, and_assoc]
  refine and_congr_right fun _ => ?_
  constructor
  · rintro ⟨⟨⟨input, hinput⟩, hlabels⟩, h⟩
    exact ⟨input, _, by rw [← Option.some.inj h, hinput], hinput, rfl, hlabels⟩
  · rintro ⟨input, _, rfl, hinput, rfl, hlabels⟩
    exact ⟨⟨⟨input, hinput⟩, hlabels⟩, by rw [hinput]⟩

theorem match?_checkboxGroup {slots : List (List (Nat × Markup))}
    (h : checkboxGroup.match? ms = some slots) :
    ∃ input labels, slots = [[input], labels] ∧ labels.length ≤ 1 ∧
      input.2 ∈ ms ∧ ∀ x ∈ labels, x.2 ∈ ms := by
  obtain ⟨-, input, labels, hslots, hinput, hlabels, hlength⟩ := match?_checkboxGroup_iff.mp h
  refine ⟨input, labels, hslots, hlength, ?_, fun x hx => mem_slot (hlabels ▸ hx)⟩
  exact mem_slot (hinput ▸ List.mem_singleton_self input)

/-- The parts of a group, each with elements of its own tag. -/
theorem tags_of_match? {input : Nat × Markup} {labels : List (Nat × Markup)}
    (h : checkboxGroup.match? ms = some [[input], labels]) :
    input.2.tag? = some "input" ∧ ∀ l ∈ labels, l.2.tag? = some "label" := by
  obtain ⟨-, _, _, heq, hinput, hlabels, -⟩ := match?_checkboxGroup_iff.mp h
  cases heq
  constructor
  · obtain ⟨tag, htag, hfor⟩ := tag?_of_mem_slot (hinput ▸ List.mem_singleton_self input)
    rw [partFor?_checkboxGroup] at hfor
    split at hfor
    · next htyped => rw [htag, htyped]
    · split at hfor <;> cases hfor
  · intro l hl
    obtain ⟨tag, htag, hfor⟩ := tag?_of_mem_slot (hlabels ▸ hl)
    rw [partFor?_checkboxGroup] at hfor
    split at hfor
    · cases hfor
    · split at hfor
      · next hlabelled => rw [htag, hlabelled]
      · cases hfor

/-- A group holds blank texts and the elements that its parts take, and nothing else. -/
theorem children_of_match? {input : Nat × Markup} {labels : List (Nat × Markup)}
    (h : checkboxGroup.match? ms = some [[input], labels]) :
    (∀ s, .text s ∈ ms → Text.isBlank s = true) ∧
      (ms.filter fun m => m.tag?.isSome).Perm (input.2 :: labels.map (·.2)) := by
  obtain ⟨hadmits, _, _, heq, hinput, hlabels, -⟩ := match?_checkboxGroup_iff.mp h
  cases heq
  refine ⟨fun s hs => hadmits _ hs, ?_⟩
  have hinputs : (ms.filter fun m => m.tag?.isSome).filter (fun m =>
      m.tag?.any fun tag => checkboxGroup.partFor? tag = some 0) = [input.2] := by
    rw [← List.map_singleton, ← hinput, map_slot, List.filter_filter]
    refine List.filter_congr fun m _ => ?_
    cases m.tag? <;> simp
  have hothers : (ms.filter fun m => m.tag?.isSome).filter (fun m =>
      !m.tag?.any fun tag => checkboxGroup.partFor? tag = some 0) = labels.map (·.2) := by
    rw [← hlabels, map_slot, List.filter_filter]
    refine List.filter_congr fun m hm => ?_
    cases htag : m.tag? with
    | none => rfl
    | some tag =>
      have htaken : (checkboxGroup.partFor? tag).isSome := by
        simpa [admits, htag] using hadmits m hm
      by_cases hinput : tag = "input"
      · simp [partFor?_checkboxGroup, hinput]
      · by_cases hlabel : tag = "label"
        · simp [partFor?_checkboxGroup, hlabel]
        · simp [partFor?_checkboxGroup, hinput, hlabel] at htaken
  have hperm := List.filter_append_perm (fun m : Markup =>
    m.tag?.any fun tag => checkboxGroup.partFor? tag = some 0) (ms.filter fun m => m.tag?.isSome)
  rw [hinputs, hothers] at hperm
  exact hperm.symm

/-- Blank texts go to no part of a pattern. -/
theorem slot_perm {ns : List Markup} (h : (ms.filter fun m => !m.isBlankText).Perm ns)
    (p : Pattern) (part : Nat) :
    ((p.slot part ms).map (·.2)).Perm
      (ns.filter fun m => m.tag?.any fun tag => p.partFor? tag = some part) := by
  rw [map_slot]
  refine .trans (.of_eq ?_) (h.filter _)
  rw [List.filter_filter]
  refine List.filter_congr fun m _ => ?_
  cases m with
  | element tag attributes own => simp [Markup.isBlankText]
  | text s => rfl

theorem all_admits_of_perm {ns : List Markup} (h : (ms.filter fun m => !m.isBlankText).Perm ns)
    (hns : ∀ m ∈ ns, p.admits m = true) : ∀ m ∈ ms, p.admits m = true := by
  intro m hm
  cases hblank : m.isBlankText with
  | true => cases m with
    | element _ _ _ => cases hblank
    | text s => exact hblank
  | false => exact hns m (h.mem_iff.mp (List.mem_filter.mpr ⟨hm, by rw [hblank]; rfl⟩))

/-- A group with its input and at most one label, in any order and with blank texts anywhere. -/
theorem match?_of_perm {labels : List Markup} {input : Markup}
    (h : (ms.filter fun m => !m.isBlankText).Perm (input :: labels))
    (hinput : input.tag? = some "input") (hlabels : ∀ l ∈ labels, l.tag? = some "label")
    (hlength : labels.length ≤ 1) :
    ∃ n numbered, checkboxGroup.match? ms = some [[(n, input)], numbered] ∧
      numbered.map (·.2) = labels := by
  have hinputs : (checkboxGroup.slot 0 ms).map (·.2) = [input] := by
    have hnone : (labels.filter fun m =>
        m.tag?.any fun tag => checkboxGroup.partFor? tag = some 0) = [] := by
      rw [List.filter_eq_nil_iff]
      intro l hl
      rw [hlabels l hl]
      decide
    have hslot := slot_perm h checkboxGroup 0
    rw [List.filter_cons_of_pos (by rw [hinput]; rfl), hnone] at hslot
    exact List.perm_singleton.mp hslot
  have hothers : (checkboxGroup.slot 1 ms).map (·.2) = labels := by
    have hself : (labels.filter fun m =>
        m.tag?.any fun tag => checkboxGroup.partFor? tag = some 1) = labels := by
      rw [List.filter_eq_self]
      intro l hl
      rw [hlabels l hl]
      rfl
    have hslot := slot_perm h checkboxGroup 1
    rw [List.filter_cons_of_neg (by rw [hinput]; decide), hself] at hslot
    rcases labels with _ | ⟨l, _ | ⟨_, _⟩⟩
    · exact List.perm_nil.mp hslot
    · exact List.perm_singleton.mp hslot
    · simp at hlength
  have hadmits : ∀ m ∈ ms, checkboxGroup.admits m = true := by
    refine all_admits_of_perm h fun m hm => ?_
    rcases List.mem_cons.mp hm with rfl | hl
    · rw [admits, hinput]
      rfl
    · rw [admits, hlabels m hl]
      rfl
  obtain ⟨⟨n, _⟩, hone, rfl⟩ := List.map_eq_singleton_iff.mp hinputs
  refine ⟨n, checkboxGroup.slot 1 ms, ?_, hothers⟩
  have hcount : (checkboxGroup.slot 1 ms).length ≤ 1 := by
    rw [← List.length_map (·.2), hothers]
    exact hlength
  exact match?_checkboxGroup_iff.mpr ⟨hadmits, _, _, rfl, hone, rfl, hcount⟩

end ChatForms.Pattern
