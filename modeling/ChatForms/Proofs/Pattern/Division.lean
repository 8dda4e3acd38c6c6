import ChatForms.Proofs.Pattern
import Mathlib.Data.List.Nodup

namespace ChatForms.Pattern

/-- The tag of the child stands in the pattern, and in this part for the first time. -/
def takes (p : Pattern) (part : Nat) (m : Markup) : Bool :=
  m.tag?.any fun tag => (p.map (·.tag)).idxOf? tag = some part

/-- What a pattern asks of children: texts are blank, tags are among its own, and for every part
there are as many elements as it takes. -/
structure Fits (p : Pattern) (ms : List Markup) : Prop where
  blank : ∀ s, .text s ∈ ms → Text.isBlank s = true
  known : ∀ m ∈ ms, ∀ tag, m.tag? = some tag → tag ∈ p.map (·.tag)
  bounds : ∀ k part, p[k]? = some part →
    part.min ≤ ms.countP (p.takes k) ∧ ms.countP (p.takes k) ≤ part.max

/-- The elements among children, divided among the parts of a pattern. -/
structure IsDivision (p : Pattern) (ms : List Markup) (slots : List (List (Nat × Markup))) :
    Prop where
  length : slots.length = p.length
  slot : ∀ k < p.length, slots[k]? = some ((numbered ms).filter fun c => p.takes k c.2)
  once : slots.flatten.Perm ((numbered ms).filter fun c => c.2.tag?.isSome)
  later : ∀ j k, j < k → k < p.length → (p.map (·.tag))[j]? = (p.map (·.tag))[k]? →
    slots[k]? = some []

variable {p : Pattern} {ms ns : List Markup}

/-! ### The part that takes a child -/

theorem partFor?_eq (p : Pattern) (tag : String) :
    p.partFor? tag = (p.map (·.tag)).idxOf? tag := by
  rw [partFor?, List.idxOf?, List.findIdx?_map]
  rfl

theorem slot_eq (p : Pattern) (k : Nat) (ms : List Markup) :
    p.slot k ms = (numbered ms).filter fun c => p.takes k c.2 := by
  simp only [slot, takes, partFor?_eq]

theorem length_slot (p : Pattern) (k : Nat) (ms : List Markup) :
    (p.slot k ms).length = ms.countP (p.takes k) := by
  rw [slot_eq, ← List.countP_eq_length_filter]
  conv_rhs => rw [← map_snd_numbered ms, List.countP_map]
  rfl

/-- A child goes to no more than one part. -/
theorem takes_unique {j k : Nat} {m : Markup} (hj : p.takes j m = true) (hk : p.takes k m = true) :
    j = k := by
  rw [takes, Option.any_eq_true] at hj hk
  obtain ⟨tag, htag, hj⟩ := hj
  obtain ⟨tag', htag', hk⟩ := hk
  cases htag.symm.trans htag'
  exact Option.some.inj ((of_decide_eq_true hj).symm.trans (of_decide_eq_true hk))

/-- An element of a known tag has a part. -/
theorem exists_takes {m : Markup} {tag : String} (htag : m.tag? = some tag)
    (hmem : tag ∈ p.map (·.tag)) : ∃ k < p.length, p.takes k m = true := by
  obtain ⟨k, hk⟩ := Option.isSome_iff_exists.mp (List.isSome_idxOf?.mpr hmem)
  obtain ⟨hlt, -⟩ := List.idxOf?_eq_some_iff.mp hk
  refine ⟨k, by simpa using hlt, ?_⟩
  rw [takes, htag, Option.any_some, hk, decide_eq_true_iff]

/-- A later part with the same tag takes nothing. -/
theorem takes_later {j k : Nat} (hjk : j < k)
    (htags : (p.map (·.tag))[j]? = (p.map (·.tag))[k]?) (m : Markup) : p.takes k m = false := by
  rw [← Bool.not_eq_true, takes, Option.any_eq_true]
  rintro ⟨tag, -, htag⟩
  obtain ⟨hlt, hown, hfirst⟩ := List.idxOf?_eq_some_iff.mp (of_decide_eq_true htag)
  refine hfirst j hjk ?_
  rw [List.getElem?_eq_getElem hlt, List.getElem?_eq_getElem (Nat.lt_trans hjk hlt)] at htags
  rw [Option.some.inj htags, hown]

/-! ### When children are divided -/

theorem admits_element {m : Markup} {tag : String} (htag : m.tag? = some tag) :
    p.admits m = true ↔ tag ∈ p.map (·.tag) := by
  unfold admits
  simp only [htag, partFor?_eq, List.isSome_idxOf?]

theorem all_admits_iff : ms.all p.admits = true ↔ (∀ s, .text s ∈ ms → Text.isBlank s = true) ∧
    ∀ m ∈ ms, ∀ tag, m.tag? = some tag → tag ∈ p.map (·.tag) := by
  rw [List.all_eq_true]
  constructor
  · intro h
    exact ⟨fun s hs => h _ hs, fun m hm tag htag => (admits_element htag).mp (h m hm)⟩
  · rintro ⟨hblank, hknown⟩ m hm
    cases m with
    | text s => exact hblank s hm
    | element tag attributes children => exact (admits_element rfl).mpr (hknown _ hm tag rfl)

theorem all_bounds_iff :
    ((p.zip (p.zipIdx.map fun part => p.slot part.2 ms)).all fun s =>
      s.1.min ≤ s.2.length && s.2.length ≤ s.1.max) = true ↔
      ∀ k part, p[k]? = some part →
        part.min ≤ ms.countP (p.takes k) ∧ ms.countP (p.takes k) ≤ part.max := by
  have hzip : p.zip (p.zipIdx.map fun part => p.slot part.2 ms) =
      p.zipIdx.map fun part => (part.1, p.slot part.2 ms) := by
    rw [← List.zip_map', List.zipIdx_map_fst]
  rw [hzip, List.all_map, List.all_eq_true]
  constructor
  · intro h k part hpart
    simpa [length_slot] using h (part, k) (List.mem_zipIdx_iff_getElem?.mpr hpart)
  · intro h part hpart
    simpa [length_slot] using h part.2 part.1 (List.mem_zipIdx_iff_getElem?.mp hpart)

theorem match?_eq_some_iff {slots : List (List (Nat × Markup))} :
    p.match? ms = some slots ↔
      p.Fits ms ∧ slots = p.zipIdx.map fun part => p.slot part.2 ms := by
  rw [match?_eq, Option.ite_none_right_eq_some, Bool.and_eq_true, all_admits_iff, all_bounds_iff,
    Option.some.injEq, eq_comm (a := slots)]
  refine and_congr_left fun _ => ?_
  exact ⟨fun ⟨⟨hblank, hknown⟩, hbounds⟩ => ⟨hblank, hknown, hbounds⟩,
    fun ⟨hblank, hknown, hbounds⟩ => ⟨⟨hblank, hknown⟩, hbounds⟩⟩

/-- What a pattern asks does not depend on the order of the children. -/
theorem Fits.perm (h : p.Fits ms) (hperm : ms.Perm ns) : p.Fits ns := by
  constructor
  case blank => exact fun s hs => h.blank s (hperm.mem_iff.mpr hs)
  case known => exact fun m hm => h.known m (hperm.mem_iff.mpr hm)
  case bounds =>
    intro k part hpart
    rw [← hperm.countP_eq]
    exact h.bounds k part hpart

/-- Blank texts count for nothing. -/
theorem fits_filter : p.Fits (ms.filter fun m => !m.isBlankText) ↔ p.Fits ms := by
  have hcount : ∀ k, (ms.filter fun m => !m.isBlankText).countP (p.takes k) =
      ms.countP (p.takes k) := by
    intro k
    rw [List.countP_filter]
    refine List.countP_congr fun m _ => ?_
    cases m <;> simp [takes, Markup.tag?, Markup.isBlankText]
  constructor
  · intro h
    constructor
    case blank =>
      intro s hs
      by_contra hblank
      exact hblank (h.blank s
        (List.mem_filter.mpr ⟨hs, by simpa [Markup.isBlankText] using hblank⟩))
    case known =>
      intro m hm tag htag
      refine h.known m (List.mem_filter.mpr ⟨hm, ?_⟩) tag htag
      cases m with
      | text s => cases htag
      | element _ _ _ => rfl
    case bounds => exact fun k part hpart => hcount k ▸ h.bounds k part hpart
  · intro h
    constructor
    case blank => exact fun s hs => h.blank s (List.mem_of_mem_filter hs)
    case known => exact fun m hm => h.known m (List.mem_of_mem_filter hm)
    case bounds => exact fun k part hpart => (hcount k).symm ▸ h.bounds k part hpart

/-! ### The division -/

theorem nodup_numbered (ms : List Markup) : (numbered ms).Nodup := by
  have hnumbers : (numbered ms).map (·.1) = List.range' 0 ms.length := by
    simp [numbered, Function.comp_def]
  refine List.Nodup.of_map (·.1) ?_
  rw [hnumbers]
  exact List.nodup_range'

theorem slots_eq (p : Pattern) (ms : List Markup) :
    (p.zipIdx.map fun part => p.slot part.2 ms) =
      (List.range p.length).map fun k => p.slot k ms :=
  List.ext_getElem (by simp) (by simp)

/-- Every element is in one slot, and in no other. -/
theorem flatten_slots_perm (h : p.Fits ms) :
    ((List.range p.length).map fun k => p.slot k ms).flatten.Perm
      ((numbered ms).filter fun c => c.2.tag?.isSome) := by
  have hslots : ((List.range p.length).map fun k => p.slot k ms).flatten.Nodup := by
    rw [List.nodup_flatten, List.pairwise_map]
    constructor
    · intro found hfound
      obtain ⟨k, -, rfl⟩ := List.mem_map.mp hfound
      exact (nodup_numbered ms).filter _
    · refine List.nodup_range.imp fun hne c hj hk => ?_
      rw [slot_eq] at hj hk
      exact hne (takes_unique (List.mem_filter.mp hj).2 (List.mem_filter.mp hk).2)
  rw [List.perm_ext_iff_of_nodup hslots ((nodup_numbered ms).filter _)]
  intro c
  rw [List.mem_flatten, List.mem_filter]
  constructor
  · rintro ⟨_, hfound, hc⟩
    obtain ⟨k, -, rfl⟩ := List.mem_map.mp hfound
    obtain ⟨tag, htag, -⟩ := tag?_of_mem_slot hc
    exact ⟨List.mem_of_mem_filter hc, by rw [htag, Option.isSome_some]⟩
  · rintro ⟨hc, hsome⟩
    obtain ⟨tag, htag⟩ := Option.isSome_iff_exists.mp hsome
    have hmem : c.2 ∈ ms := map_snd_numbered ms ▸ List.mem_map_of_mem hc
    obtain ⟨k, hk, htakes⟩ := exists_takes htag (h.known c.2 hmem tag htag)
    refine ⟨_, List.mem_map_of_mem (List.mem_range.mpr hk), ?_⟩
    rw [slot_eq]
    exact List.mem_filter.mpr ⟨hc, htakes⟩

theorem isDivision_of_match? {slots : List (List (Nat × Markup))}
    (h : p.match? ms = some slots) : p.IsDivision ms slots := by
  obtain ⟨hfits, rfl⟩ := match?_eq_some_iff.mp h
  rw [slots_eq]
  have hslot : ∀ k < p.length, ((List.range p.length).map fun k => p.slot k ms)[k]? =
      some ((numbered ms).filter fun c => p.takes k c.2) := by
    intro k hk
    rw [List.getElem?_map, List.getElem?_range hk, Option.map_some, slot_eq]
  constructor
  case length => rw [List.length_map, List.length_range]
  case slot => exact hslot
  case once => exact flatten_slots_perm hfits
  case later =>
    intro j k hjk hk htags
    rw [hslot k hk, Option.some.injEq, List.filter_eq_nil_iff]
    intro c _
    rw [takes_later hjk htags]
    exact Bool.false_ne_true

/-- Children are divided among the parts of a pattern if they are what it asks for. Neither their
order nor blank texts among them make a difference to that. -/
theorem match?_isDivision (p : Pattern) (ms : List Markup) :
    ((∃ slots, p.match? ms = some slots) ↔ p.Fits ms) ∧
      (∀ slots, p.match? ms = some slots → p.IsDivision ms slots) ∧
      ∀ ns, (ms.filter fun m => !m.isBlankText).Perm (ns.filter fun m => !m.isBlankText) →
        ((∃ slots, p.match? ms = some slots) ↔ ∃ slots, p.match? ns = some slots) := by
  have hfits : ∀ ms, (∃ slots, p.match? ms = some slots) ↔ p.Fits ms := by
    intro ms
    simp only [match?_eq_some_iff, exists_and_left, exists_eq, and_true]
  refine ⟨hfits ms, fun _ => isDivision_of_match?, fun ns hperm => ?_⟩
  rw [hfits ms, hfits ns, ← fits_filter, ← @fits_filter p ns]
  exact ⟨fun h => h.perm hperm, fun h => h.perm hperm.symm⟩

/-- A tag that stands in a pattern twice goes to its first part, wherever its elements are. -/
theorem match?_isDivision_twice :
    let p : Pattern := [⟨"label", 1, 2⟩, ⟨"input", 0, 1⟩, ⟨"label", 0, 0⟩]
    let first := Markup.element "label" [] []
    let second := Markup.element "label" [] [.text "b"]
    let input := Markup.element "input" [] []
    p.match? [first, .text " ", input, second] =
        some [[(0, first), (3, second)], [(2, input)], []] ∧
      ∃ slots, p.match? [second, input, first] = some slots := by
  intro p first second input
  have hdivided : p.match? [first, .text " ", input, second] =
      some [[(0, first), (3, second)], [(2, input)], []] := rfl
  obtain ⟨-, -, hother⟩ := match?_isDivision p [first, .text " ", input, second]
  exact ⟨hdivided, (hother [second, input, first]
    (List.reverse_perm [first, input, second]).symm).mp ⟨_, hdivided⟩⟩

end ChatForms.Pattern
