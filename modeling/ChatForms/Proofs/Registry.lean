import ChatForms.Proofs.StringMap
import ChatForms.Registry

namespace ChatForms

/-- Formats of the library, and those that no file extension points to. -/
def Format.IsKnown (f : Format) : Prop := f ∈ Format.standard ∨ f.extensions = []

namespace Format

theorem name_eq_of_standard : ∀ f ∈ standard, ∀ g ∈ standard, ∀ extension ∈ f.extensions,
    extension ∈ g.extensions → f.name = g.name := by
  decide

theorem IsKnown.name_eq {f g : Format} (hf : f.IsKnown) (hg : g.IsKnown) {extension : String}
    (hextension : extension ∈ f.extensions) (hextension' : extension ∈ g.extensions) :
    f.name = g.name := by
  rcases hf with hf | hf
  · rcases hg with hg | hg
    · exact name_eq_of_standard f hf g hg extension hextension hextension'
    · rw [hg] at hextension'
      cases hextension'
  · rw [hf] at hextension
    cases hextension

end Format

namespace Registry

/-- What registering one format after the other leads to, with all that were registered so far. It
begins without formats or with the standard ones. -/
inductive Run : List Format → Registry → Prop where
  | empty : Run [] .empty
  | standard : Run Format.standard .standard
  | register {fs : List Format} {r : Registry} {f : Format} (h : Run fs r) (hf : f.IsKnown) :
      Run (fs ++ [f]) (r.register f)

/-! ### What is stored -/

/-- Under each name, the last of these formats that has it. -/
def Holds (r : Registry) (fs : List Format) : Prop :=
  ∀ name, r.formats.get? name = fs.findRev? (·.name = name)

variable {r : Registry} {fs : List Format}

theorem holds_empty : Registry.empty.Holds [] := fun _ => rfl

theorem Holds.register (h : r.Holds fs) (f : Format) : (r.register f).Holds (fs ++ [f]) := by
  intro name
  rw [Registry.register, StringMap.get?_insert, h name, List.findRev?_eq_find?_reverse,
    List.findRev?_eq_find?_reverse, List.reverse_append, List.reverse_singleton,
    List.singleton_append, List.find?_cons]
  by_cases hname : name = f.name
  · simp [hname]
  · simp [hname, Ne.symm hname]

theorem Holds.foldl (h : r.Holds fs) (gs : List Format) :
    (gs.foldl Registry.register r).Holds (fs ++ gs) := by
  induction gs generalizing r fs with
  | nil => rwa [List.append_nil]
  | cons g gs ih =>
    have hrest := ih (h.register g)
    rwa [List.append_assoc, List.singleton_append] at hrest

theorem Run.holds (h : Run fs r) : r.Holds fs := by
  induction h with
  | empty => exact holds_empty
  | standard => exact holds_empty.foldl Format.standard
  | register _ _ ih => exact ih.register _

theorem Run.isKnown (h : Run fs r) : ∀ f ∈ fs, f.IsKnown := by
  induction h with
  | empty => simp
  | standard => exact fun f hf => .inl hf
  | register _ hf ih => exact List.forall_mem_append.mpr ⟨ih, List.forall_mem_singleton.mpr hf⟩

theorem Holds.of_get? (h : r.Holds fs) {name : String} {f : Format}
    (hf : r.formats.get? name = some f) : f ∈ fs ∧ f.name = name := by
  rw [h name, List.findRev?_eq_find?_reverse] at hf
  exact ⟨List.mem_reverse.mp (List.mem_of_find?_eq_some hf), by simpa using List.find?_some hf⟩

theorem Holds.isSome_get? (h : r.Holds fs) (name : String) :
    (r.formats.get? name).isSome ↔ ∃ f ∈ fs, f.name = name := by
  rw [h name, List.findRev?_eq_find?_reverse, List.find?_isSome]
  simp

theorem get_eq_ok_iff {name : String} {f : Format} :
    r.get name = .ok f ↔ r.formats.get? name = some f := by
  rw [get]
  cases r.formats.get? name <;> simp

/-! ### Detection -/

/-- The stored formats, in the order of their names. -/
def stored (r : Registry) : List Format := r.formats.entries.map (·.2)

theorem mem_stored {f : Format} : f ∈ r.stored ↔ ∃ name, r.formats.get? name = some f := by
  simp [stored, StringMap.mem_entries]

/-- The detection, where the formats are tried in this order. -/
def detectAmong? (order : List Format) (fileName : String) : Option String := do
  let extension ← FileName.extension? fileName
  let f ← order.find? fun f => f.extensions.contains extension
  pure f.name

theorem detect?_eq_detectAmong? (fileName : String) :
    r.detect? fileName = detectAmong? r.stored fileName := rfl

/-- Formats are found by their extensions in whatever order they are tried. -/
theorem detectAmong?_eq_some_iff (h : Run fs r) {order : List Format} (horder : order.Perm r.stored)
    {fileName name : String} : detectAmong? order fileName = some name ↔
      ∃ f extension, r.get name = .ok f ∧ FileName.extension? fileName = some extension ∧
        extension ∈ f.extensions := by
  have hmem : ∀ f ∈ order, r.formats.get? f.name = some f ∧ f.IsKnown := by
    intro f hf
    obtain ⟨_, hget⟩ := mem_stored.mp (horder.mem_iff.mp hf)
    obtain ⟨hfs, rfl⟩ := h.holds.of_get? hget
    exact ⟨hget, h.isKnown f hfs⟩
  simp only [detectAmong?, Option.bind_eq_bind, Option.bind_eq_some_iff, Option.pure_def,
    Option.some.injEq]
  constructor
  · rintro ⟨extension, hextension, f, hfind, rfl⟩
    refine ⟨f, extension, get_eq_ok_iff.mpr (hmem f (List.mem_of_find?_eq_some hfind)).1,
      hextension, ?_⟩
    simpa using List.find?_some hfind
  · rintro ⟨f, extension, hget, hextension, hf⟩
    rw [get_eq_ok_iff] at hget
    obtain ⟨-, rfl⟩ := h.holds.of_get? hget
    have hforder : f ∈ order := horder.mem_iff.mpr (mem_stored.mpr ⟨_, hget⟩)
    have hsome : (order.find? fun f => f.extensions.contains extension).isSome :=
      List.find?_isSome.mpr ⟨f, hforder, List.contains_iff_mem.mpr hf⟩
    obtain ⟨g, hg⟩ := Option.isSome_iff_exists.mp hsome
    have hgextension : extension ∈ g.extensions := by simpa using List.find?_some hg
    obtain ⟨-, hgknown⟩ := hmem g (List.mem_of_find?_eq_some hg)
    exact ⟨extension, hextension, g, hg, hgknown.name_eq (hmem f hforder).2 hgextension hf⟩

/-! ### All that a registry answers -/

/-- The answers of a registry that these formats were registered in. -/
structure Remembers (r : Registry) (fs : List Format) : Prop where
  named : ∀ name f, r.formats.get? name = some f → f.name = name
  ascending : r.names.Pairwise (· < ·)
  mem_names : ∀ name, name ∈ r.names ↔ ∃ f ∈ fs, f.name = name
  has_iff : ∀ name, r.has name ↔ name ∈ r.names
  get_iff : ∀ name, (∃ f, r.get name = .ok f) ↔ name ∈ r.names
  last : ∀ name, r.get name =
    match fs.findRev? (·.name = name) with
    | some f => .ok f
    | none => .error (.notFound name)
  apart : ∀ name f name' f' extension, r.get name = .ok f → r.get name' = .ok f' →
    extension ∈ f.extensions → extension ∈ f'.extensions → name = name'
  anyOrder : ∀ order fileName, order.Perm r.stored →
    detectAmong? order fileName = r.detect? fileName
  detected : ∀ fileName name, r.detect? fileName = some name → r.has name ∧
    ∃ f extension, r.get name = .ok f ∧ FileName.extension? fileName = some extension ∧
      extension ∈ f.extensions
  undetected : ∀ fileName, r.detect? fileName = none → ∀ extension,
    FileName.extension? fileName = some extension → ∀ f ∈ r.stored, extension ∉ f.extensions

/-- Registries answer for the formats that were registered last under their names. -/
theorem remembers_of_run (h : Run fs r) : r.Remembers fs := by
  have hnames : ∀ name, name ∈ r.names ↔ (r.formats.get? name).isSome := by
    intro name
    rw [names, StringMap.mem_keys, Option.isSome_iff_exists]
  have hdetect : ∀ fileName name, r.detect? fileName = some name ↔
      ∃ f extension, r.get name = .ok f ∧ FileName.extension? fileName = some extension ∧
        extension ∈ f.extensions := by
    intro fileName name
    rw [detect?_eq_detectAmong?]
    exact detectAmong?_eq_some_iff h (.refl _)
  constructor
  case named => exact fun name f hf => (h.holds.of_get? hf).2
  case ascending => exact r.formats.pairwise_keys
  case mem_names => exact fun name => (hnames name).trans (h.holds.isSome_get? name)
  case has_iff => exact fun name => (hnames name).symm
  case get_iff =>
    intro name
    simp only [hnames name, get_eq_ok_iff, Option.isSome_iff_exists]
  case last =>
    intro name
    have hlast := h.holds name
    cases hfind : fs.findRev? (·.name = name) <;> simp only [get, hlast, hfind]
  case apart =>
    intro name f name' f' extension hf hf' hextension hextension'
    obtain ⟨hmem, rfl⟩ := h.holds.of_get? (get_eq_ok_iff.mp hf)
    obtain ⟨hmem', rfl⟩ := h.holds.of_get? (get_eq_ok_iff.mp hf')
    exact (h.isKnown f hmem).name_eq (h.isKnown f' hmem') hextension hextension'
  case anyOrder =>
    intro order fileName horder
    ext name
    rw [detectAmong?_eq_some_iff h horder, hdetect]
  case detected =>
    intro fileName name hname
    obtain ⟨f, extension, hf, hextension⟩ := (hdetect fileName name).mp hname
    exact ⟨Option.isSome_of_eq_some (get_eq_ok_iff.mp hf), f, extension, hf, hextension⟩
  case undetected =>
    intro fileName hnone extension hextension f hf hmem
    obtain ⟨name, hget⟩ := mem_stored.mp hf
    have hsome : r.detect? fileName = some name :=
      (hdetect fileName name).mpr ⟨f, extension, get_eq_ok_iff.mpr hget, hextension, hmem⟩
    rw [hnone] at hsome
    cases hsome

/-- A format of another kind takes over a name with its file extensions, until the first one is
registered again. -/
theorem remembers_of_run_markdown :
    let plain : Format := { name := "markdown" }
    let taken := Registry.standard.register plain
    taken.get "markdown" = .ok plain ∧ taken.detect? "notes.md" = none ∧
      (taken.register .markdown).get "markdown" = .ok .markdown ∧
      (taken.register .markdown).detect? "notes.md" = some "markdown" := by
  intro plain taken
  have htaken : Run (Format.standard ++ [plain]) taken := Run.standard.register (.inr rfl)
  have hback : Run (Format.standard ++ [plain] ++ [.markdown]) (taken.register .markdown) :=
    htaken.register (.inl (by simp [Format.standard]))
  have hagain := (remembers_of_run hback).last "markdown"
  exact ⟨(remembers_of_run htaken).last "markdown", by decide, hagain, by decide⟩

end Registry
end ChatForms
